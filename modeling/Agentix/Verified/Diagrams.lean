import Agentix.Lib.Acyclic
import Agentix.Pages.Diagram

/-! # The diagram of a Job is a reduction of its dependencies -/

namespace Agentix.TaskStore

open Lib Relation List

namespace Snapshot

variable {s : Snapshot} {job : String}

def Precedes (s : Snapshot) (prerequisite dependent : String) : Prop :=
  ∃ t ∈ s.tasks, t.id = dependent ∧ prerequisite ∈ t.dependencies

def PrecedesIn (s : Snapshot) (job prerequisite dependent : String) : Prop :=
  ∃ t ∈ s.tasks, t.jobId = job ∧ t.id = dependent ∧ prerequisite ∈ t.dependencies

/-- Ids are keys, all dependencies are there, and they are acyclic. -/
structure Dependable (s : Snapshot) : Prop where
  keys : (s.tasks.map Task.id).Nodup
  present : ∀ t ∈ s.tasks, ∀ prerequisite ∈ t.dependencies, ∃ u ∈ s.tasks, u.id = prerequisite
  acyclic : Acyclic s.Precedes

theorem PrecedesIn.precedes {a b : String} (edge : s.PrecedesIn job a b) : s.Precedes a b := by
  obtain ⟨t, mem, -, same⟩ := edge
  exact ⟨t, mem, same⟩

namespace Dependable

theorem unique (dependable : s.Dependable) {t u : Task} (first : t ∈ s.tasks) (second : u ∈ s.tasks)
    (same : t.id = u.id) : t = u :=
  inj_on_of_nodup_map dependable.keys first second same

theorem indexedTask (dependable : s.Dependable) {t : Task} (mem : t ∈ s.tasks) :
    s.indexedTask t.id = .ok t := by
  unfold Snapshot.indexedTask
  cases found : s.tasks.reverse.find? fun u => u.id = t.id with
  | none =>
    have missing := find?_eq_none.mp found t (mem_reverse.mpr mem)
    simp at missing
  | some u =>
    have same : u.id = t.id := by simpa using find?_some found
    have there := mem_reverse.mp (mem_of_find?_eq_some found)
    rw [dependable.unique there mem same]

theorem acyclicIn (dependable : s.Dependable) : Acyclic (s.PrecedesIn job) :=
  dependable.acyclic.mono fun _ _ edge => edge.precedes

theorem within (dependable : s.Dependable) : Within (s.tasks.map Task.id) (s.PrecedesIn job) := by
  rintro a b ⟨t, mem, -, -, inside⟩
  obtain ⟨u, there, rfl⟩ := dependable.present t mem a inside
  exact mem_map_of_mem there

end Dependable

/-! ## The search -/

/-- What the search has found of what leads to its roots. -/
structure Searches (s : Snapshot) (job : String) (roots pending visited indirect : List String) :
    Prop where
  present : ∀ id ∈ pending, ∃ t ∈ s.tasks, t.id = id
  leads : ∀ id, id ∈ pending ∨ id ∈ visited →
    ∃ root ∈ roots, ReflTransGen (s.PrecedesIn job) id root
  sound : ∀ id ∈ indirect, ∃ root ∈ roots, TransGen (s.PrecedesIn job) id root
  started : ∀ root ∈ roots, root ∈ pending ∨ root ∈ visited
  complete : ∀ id ∈ visited, ∀ before, s.PrecedesIn job before id →
    before ∈ indirect ∧ (before ∈ pending ∨ before ∈ visited)

theorem Searches.start {roots : List String} (present : ∀ id ∈ roots, ∃ t ∈ s.tasks, t.id = id) :
    Searches s job roots roots.reverse [] [] where
  present := fun id mem => present id (mem_reverse.mp mem)
  leads := by
    intro id mem
    obtain mem | mem := mem
    · exact ⟨id, mem_reverse.mp mem, .refl⟩
    · simp at mem
  sound := fun _ mem => by simp at mem
  started := fun root mem => .inl (mem_reverse.mpr mem)
  complete := fun _ mem => by simp at mem

/-- Once nothing is pending, all that leads to the roots is found. -/
theorem Searches.found {roots visited indirect : List String}
    (searches : Searches s job roots [] visited indirect) (id : String) :
    id ∈ indirect ↔ ∃ root ∈ roots, TransGen (s.PrecedesIn job) id root := by
  constructor
  · exact searches.sound id
  rintro ⟨root, mem, path⟩
  have first : root ∈ visited := (searches.started root mem).resolve_left (by simp)
  have all : ∀ {a}, ReflTransGen (s.PrecedesIn job) a root → a ∈ visited := by
    intro a path
    induction path using ReflTransGen.head_induction_on with
    | refl => exact first
    | head edge _ ih =>
      exact (searches.complete _ ih _ edge).2.resolve_left (by simp)
  obtain ⟨next, edge, path⟩ := TransGen.head'_iff.mp path
  exact (searches.complete next (all path) id edge).1

section Steps

variable {roots pending visited indirect : List String}

theorem Searches.skip {id : String}
    (searches : Searches s job roots (id :: pending) visited indirect) (seen : id ∈ visited) :
    Searches s job roots pending visited indirect where
  present := fun other mem => searches.present other (mem_cons_of_mem id mem)
  leads := fun other mem => searches.leads other (mem.imp_left (mem_cons_of_mem id))
  sound := searches.sound
  started := by
    intro root mem
    obtain there | there := searches.started root mem
    · obtain rfl | there := mem_cons.mp there
      · exact .inr seen
      · exact .inl there
    · exact .inr there
  complete := by
    intro other mem before edge
    obtain ⟨found, there | there⟩ := searches.complete other mem before edge
    · obtain rfl | there := mem_cons.mp there
      · exact ⟨found, .inr seen⟩
      · exact ⟨found, .inl there⟩
    · exact ⟨found, .inr there⟩

theorem Searches.visit {t : Task} (dependable : s.Dependable) (mem : t ∈ s.tasks)
    (inside : t.jobId = job) (searches : Searches s job roots (t.id :: pending) visited indirect) :
    Searches s job roots (t.dependencies.reverse ++ pending) (t.id :: visited)
      (t.dependencies ++ indirect) where
  present := by
    intro other there
    obtain there | there := mem_append.mp there
    · exact dependable.present t mem other (mem_reverse.mp there)
    · exact searches.present other (mem_cons_of_mem _ there)
  leads := by
    intro other there
    rw [mem_append, mem_reverse, mem_cons] at there
    obtain (there | there) | there | there := there
    · obtain ⟨root, first, path⟩ := searches.leads t.id (.inl mem_cons_self)
      exact ⟨root, first, .head ⟨t, mem, inside, rfl, there⟩ path⟩
    · exact searches.leads other (.inl (mem_cons_of_mem _ there))
    · exact searches.leads other (.inl (there ▸ mem_cons_self))
    · exact searches.leads other (.inr there)
  sound := by
    intro other there
    obtain there | there := mem_append.mp there
    · obtain ⟨root, first, path⟩ := searches.leads t.id (.inl mem_cons_self)
      exact ⟨root, first, .head' ⟨t, mem, inside, rfl, there⟩ path⟩
    · exact searches.sound other there
  started := by
    intro root first
    rw [mem_append, mem_cons]
    obtain there | there := searches.started root first
    · obtain same | there := mem_cons.mp there
      · exact .inr (.inl same)
      · exact .inl (.inr there)
    · exact .inr (.inr there)
  complete := by
    intro other there before edge
    simp only [mem_append, mem_reverse, mem_cons]
    obtain rfl | there := mem_cons.mp there
    · obtain ⟨u, mem', -, same, depends⟩ := edge
      obtain rfl := dependable.unique mem' mem same
      exact ⟨.inl depends, .inl (.inl depends)⟩
    · obtain ⟨found, there | there⟩ := searches.complete other there before edge
      · obtain same | there := mem_cons.mp there
        · exact ⟨.inr found, .inr (.inl same)⟩
        · exact ⟨.inr found, .inl (.inr there)⟩
      · exact ⟨.inr found, .inr (.inr there)⟩

theorem Searches.stop {t : Task} (dependable : s.Dependable) (mem : t ∈ s.tasks)
    (outside : t.jobId ≠ job) (searches : Searches s job roots (t.id :: pending) visited indirect) :
    Searches s job roots pending (t.id :: visited) indirect where
  present := fun other there => searches.present other (mem_cons_of_mem _ there)
  leads := by
    intro other there
    rw [mem_cons] at there
    obtain there | there | there := there
    · exact searches.leads other (.inl (mem_cons_of_mem _ there))
    · exact searches.leads other (.inl (there ▸ mem_cons_self))
    · exact searches.leads other (.inr there)
  sound := searches.sound
  started := by
    intro root first
    rw [mem_cons]
    obtain there | there := searches.started root first
    · obtain same | there := mem_cons.mp there
      · exact .inr (.inl same)
      · exact .inl there
    · exact .inr (.inr there)
  complete := by
    intro other there before edge
    simp only [mem_cons]
    obtain rfl | there := mem_cons.mp there
    · obtain ⟨u, mem', inside, same, -⟩ := edge
      obtain rfl := dependable.unique mem' mem same
      exact absurd inside outside
    · obtain ⟨found, there | there⟩ := searches.complete other there before edge
      · obtain same | there := mem_cons.mp there
        · exact ⟨found, .inr (.inl same)⟩
        · exact ⟨found, .inl there⟩
      · exact ⟨found, .inr (.inr there)⟩

end Steps

variable {t : Task}

/-- The prerequisites of the Tasks that have not been visited. -/
def unvisited (tasks : List Task) (visited : List String) : List String :=
  (tasks.filter fun t => t.id ∉ visited).flatMap Task.dependencies

theorem length_unvisited_cons (t : Task) (tasks : List Task) (visited : List String) :
    (unvisited (t :: tasks) visited).length =
      (if t.id ∈ visited then 0 else t.dependencies.length) + (unvisited tasks visited).length := by
  by_cases mem : t.id ∈ visited <;> simp [unvisited, mem]

theorem length_unvisited_le (tasks : List Task) (visited : List String) (id : String) :
    (unvisited tasks (id :: visited)).length ≤ (unvisited tasks visited).length := by
  induction tasks with
  | nil => simp [unvisited]
  | cons t tasks ih =>
    rw [length_unvisited_cons, length_unvisited_cons]
    by_cases mem : t.id ∈ visited
    · simp only [mem_cons, mem, or_true, if_true]
      omega
    · simp only [mem_cons, mem, or_false, if_false]
      split <;> omega

theorem length_unvisited_visit {tasks : List Task} {visited : List String} (mem : t ∈ tasks)
    (new : t.id ∉ visited) :
    (unvisited tasks (t.id :: visited)).length + t.dependencies.length ≤
      (unvisited tasks visited).length := by
  induction tasks with
  | nil => simp at mem
  | cons u tasks ih =>
    rw [length_unvisited_cons, length_unvisited_cons]
    obtain rfl | mem := mem_cons.mp mem
    · have rest := length_unvisited_le tasks visited t.id
      simp only [mem_cons, true_or, if_true, new, if_false]
      omega
    · have rest := ih mem
      by_cases seen : u.id ∈ visited
      · simp only [mem_cons, seen, or_true, if_true]
        omega
      · simp only [mem_cons, seen, or_false, if_false]
        split <;> omega

theorem Dependable.indirectPrerequisites (dependable : s.Dependable) {roots : List String}
    (fuel : Nat) {pending visited indirect : List String}
    (searches : Searches s job roots pending visited indirect)
    (enough : pending.length + (unvisited s.tasks visited).length < fuel) :
    ∃ found, s.indirectPrerequisites job fuel pending visited indirect = .ok found ∧
      ∀ id, id ∈ found ↔ ∃ root ∈ roots, TransGen (s.PrecedesIn job) id root := by
  induction fuel generalizing pending visited indirect with
  | zero => omega
  | succ fuel ih =>
    cases pending with
    | nil => exact ⟨indirect, rfl, searches.found⟩
    | cons id pending =>
      unfold Snapshot.indirectPrerequisites
      rw [length_cons] at enough
      by_cases seen : id ∈ visited
      · rw [if_pos seen]
        exact ih (searches.skip seen) (by omega)
      rw [if_neg seen]
      obtain ⟨t, mem, rfl⟩ := searches.present id mem_cons_self
      have fewer := length_unvisited_visit mem seen
      simp only [dependable.indexedTask mem, bind, Except.bind]
      by_cases inside : t.jobId = job
      · rw [if_pos inside]
        refine ih (searches.visit dependable mem inside) ?_
        rw [length_append, length_reverse]
        omega
      · rw [if_neg inside]
        exact ih (searches.stop dependable mem inside) (by omega)

/-! ## The edges -/

theorem Dependable.precedesIn_iff (dependable : s.Dependable) (mem : t ∈ s.tasks)
    (inside : t.jobId = job) {a : String} : s.PrecedesIn job a t.id ↔ a ∈ t.dependencies := by
  constructor
  · rintro ⟨u, mem', -, same, depends⟩
    obtain rfl := dependable.unique mem' mem same
    exact depends
  · exact fun depends => ⟨t, mem, inside, rfl, depends⟩

theorem Dependable.indirectInto (dependable : s.Dependable) (job : String) (mem : t ∈ s.tasks) :
    ∃ found, s.indirectInto job t = .ok found ∧
      ∀ id ∈ t.dependencies,
        id ∈ found ↔ ∃ root ∈ t.dependencies, TransGen (s.PrecedesIn job) id root := by
  unfold Snapshot.indirectInto
  by_cases several : 1 < t.dependencies.length
  · rw [if_pos several]
    have start : Searches s job t.dependencies t.dependencies.reverse [] [] :=
      Searches.start (dependable.present t mem)
    obtain ⟨found, same, spec⟩ := dependable.indirectPrerequisites (s.searchSteps t) start
      (by simp [searchSteps, unvisited])
    exact ⟨found, same, fun id _ => spec id⟩
  · rw [if_neg several]
    refine ⟨[], rfl, fun id there => ?_⟩
    simp only [not_mem_nil, false_iff]
    rintro ⟨root, there', path⟩
    have same : id = root := by
      obtain ⟨only, alone⟩ : ∃ only, t.dependencies = [only] :=
        length_eq_one_iff.mp (by
          have := length_pos_of_mem there
          omega)
      rw [alone, mem_singleton] at there there'
      rw [there, there']
    subst same
    exact dependable.acyclicIn id path

theorem Dependable.edgesInto (dependable : s.Dependable) (mem : t ∈ s.tasks)
    (inside : t.jobId = job) : ∃ edges, s.edgesInto job t = .ok edges ∧
      ∀ a b, (a, b) ∈ edges ↔ b = t.id ∧ Reduced (s.PrecedesIn job) a b := by
  obtain ⟨found, same, spec⟩ := dependable.indirectInto job mem
  unfold Snapshot.edgesInto
  rw [same]
  refine ⟨_, rfl, fun a b => ?_⟩
  simp only [mem_map, mem_filter, decide_eq_true_eq, Prod.mk.injEq]
  constructor
  · rintro ⟨c, ⟨depends, direct⟩, rfl, rfl⟩
    refine ⟨rfl, (dependable.precedesIn_iff mem inside).mpr depends, ?_⟩
    rintro ⟨root, path, edge⟩
    exact direct ((spec c depends).mpr
      ⟨root, (dependable.precedesIn_iff mem inside).mp edge, path⟩)
  · rintro ⟨rfl, edge, shortest⟩
    have depends := (dependable.precedesIn_iff mem inside).mp edge
    refine ⟨a, ⟨depends, fun indirect => ?_⟩, rfl, rfl⟩
    obtain ⟨root, there, path⟩ := (spec a depends).mp indirect
    exact shortest ⟨root, path, (dependable.precedesIn_iff mem inside).mpr there⟩

theorem Dependable.edgesInto_all (dependable : s.Dependable) (job : String) (tasks : List Task)
    (all : ∀ t ∈ tasks, t ∈ s.tasks ∧ t.jobId = job) :
    ∃ edges, tasks.mapM (s.edgesInto job) = .ok edges ∧ ∀ a b, (a, b) ∈ edges.flatten ↔
      ∃ t ∈ tasks, b = t.id ∧ Reduced (s.PrecedesIn job) a b := by
  induction tasks with
  | nil => exact ⟨[], rfl, by simp⟩
  | cons t tasks ih =>
    obtain ⟨⟨mem, inside⟩, later⟩ := forall_mem_cons.mp all
    obtain ⟨first, same, spec⟩ := dependable.edgesInto mem inside
    obtain ⟨rest, same', spec'⟩ := ih later
    refine ⟨first :: rest, ?_, fun a b => ?_⟩
    · rw [mapM_cons, same, same']
      rfl
    · simp only [flatten_cons, mem_append, spec, spec', exists_mem_cons_iff]

theorem Dependable.drawnEdges (dependable : s.Dependable) (job : String) :
    ∃ edges, s.drawnEdges job = .ok edges ∧
      ∀ a b, (a, b) ∈ edges ↔ Reduced (s.PrecedesIn job) a b := by
  obtain ⟨edges, same, spec⟩ := dependable.edgesInto_all job (s.tasksByJob job)
    (by simp [tasksByJob])
  unfold Snapshot.drawnEdges
  rw [same]
  refine ⟨edges.flatten, rfl, fun a b => (spec a b).trans ⟨?_, ?_⟩⟩
  · rintro ⟨-, -, -, reduced⟩
    exact reduced
  · intro reduced
    obtain ⟨t, mem, inside, same, -⟩ := reduced.1
    exact ⟨t, mem_filter.mpr ⟨mem, by simpa using inside⟩, same.symm, reduced⟩

theorem join_append (a b : List String) : String.join (a ++ b) = String.join a ++ String.join b := by
  induction a with
  | nil => simp
  | cons first a ih => simp [ih, String.append_assoc]

/-- Three Tasks of a Job, of which the last depends on both others. -/
def triangle : Snapshot :=
  let task (id : String) (dependencies : List String) : Task :=
    { id, dependencies, projectId := "project", jobId := "job", title := id, name := id, sequence := 1,
      status := .todo, phase := none, revision := 1, position := 1, createdAt := 0, updatedAt := 0,
      startedAt := none, completedAt := none, reason := none, currentPlan := none,
      lastExecutor := none, lastSession := none, delegatedBy := none, systemBlock := false }
  { tasks := [task "a" [], task "b" ["a"], task "c" ["a", "b"]] }

theorem triangle_dependable : triangle.Dependable where
  keys := by decide
  present := by decide
  acyclic := by
    let rank (id : String) : Nat := if id = "a" then 0 else if id = "b" then 1 else 2
    have grows : ∀ t ∈ triangle.tasks, ∀ a ∈ t.dependencies, rank a < rank t.id := by decide
    apply Acyclic.of_rank rank
    rintro a b ⟨t, mem, rfl, depends⟩
    exact grows t mem a depends

example : triangle.drawnEdges "job" = .ok [("a", "b"), ("b", "c")] := by rfl

end Snapshot

end Agentix.TaskStore
