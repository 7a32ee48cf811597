import Agentix.Ledger.Completion
import Agentix.Ledger.Model
import Agentix.Lib.Acyclic
import Agentix.Lib.Run

/-! # Dependencies

Dependencies form no cycle, stay inside a Project, and are done once a Task has started.
-/

namespace Agentix.Ledger

open Lib TaskStore Relation List

structure Ordered (L : State) : Prop where
  acyclic : Acyclic (DependsOn L.tasks)
  within : ∀ t ∈ L.tasks, ∀ d ∈ t.dependencies, ∃ u ∈ L.tasks, u.id = d ∧ u.project = t.project
  done : ∀ t ∈ L.tasks, t.started = true → ∀ d ∈ t.dependencies,
    ∃ u ∈ L.tasks, u.id = d ∧ u.status = .done

theorem ordered_empty : Ordered {} := by
  refine ⟨?_, by simp, by simp⟩
  intro a cycle
  obtain ⟨b, ⟨t, mem, _⟩, _⟩ := TransGen.head'_iff.mp cycle
  cases mem

variable {may : Authority} {L L' : State}

/-! ## Edits in place -/

theorem dependsOn_of_edits {edit : Task → Task} {tasks : List Task}
    (rows : ∀ t ∈ tasks, (edit t).id = t.id ∧ (edit t).dependencies ⊆ t.dependencies)
    {a b : String} (depends : DependsOn (tasks.map edit) a b) : DependsOn tasks a b := by
  obtain ⟨t', mem', named, depends⟩ := depends
  obtain ⟨t, mem, rfl⟩ := mem_map.mp mem'
  obtain ⟨id, fewer⟩ := rows t mem
  exact ⟨t, mem, id.symm.trans named, fewer depends⟩

theorem ordered_of_task_edits (ordered : Ordered L) (edit : Task → Task)
    (rows : ∀ t ∈ L.tasks, (edit t).id = t.id ∧ (edit t).project = t.project ∧
      (edit t).dependencies ⊆ t.dependencies)
    (started : ∀ t ∈ L.tasks, (edit t).started = true → ∀ d ∈ (edit t).dependencies,
      ∃ u ∈ L.tasks, u.id = d ∧ (edit u).status = .done)
    {L' : State} (tasks_eq : L'.tasks = L.tasks.map edit) : Ordered L' := by
  constructor
  · rw [tasks_eq]
    refine ordered.acyclic.mono fun a b => dependsOn_of_edits ?_
    exact fun t mem => ⟨(rows t mem).1, (rows t mem).2.2⟩
  · rw [tasks_eq]
    intro t' mem' d depends
    obtain ⟨t, mem, rfl⟩ := mem_map.mp mem'
    obtain ⟨u, uMem, named, same⟩ := ordered.within t mem d ((rows t mem).2.2 depends)
    exact ⟨edit u, mem_map_of_mem uMem, (rows u uMem).1.trans named,
      by rw [(rows u uMem).2.1, same, (rows t mem).2.1]⟩
  · rw [tasks_eq]
    intro t' mem' active d depends
    obtain ⟨t, mem, rfl⟩ := mem_map.mp mem'
    obtain ⟨u, uMem, named, done⟩ := started t mem active d depends
    exact ⟨edit u, mem_map_of_mem uMem, (rows u uMem).1.trans named, done⟩

theorem ordered_of_kept (ordered : Ordered L) (edit : Task → Task)
    (rows : ∀ t ∈ L.tasks, (edit t).id = t.id ∧ (edit t).project = t.project ∧
      (edit t).dependencies ⊆ t.dependencies ∧ (edit t).started = t.started ∧
      (t.status = .done → (edit t).status = .done))
    {L' : State} (tasks_eq : L'.tasks = L.tasks.map edit) : Ordered L' := by
  refine ordered_of_task_edits ordered edit
    (fun t mem => ⟨(rows t mem).1, (rows t mem).2.1, (rows t mem).2.2.1⟩) ?_ tasks_eq
  intro t mem active d depends
  obtain ⟨_, _, fewer, started, _⟩ := rows t mem
  obtain ⟨u, uMem, named, done⟩ := ordered.done t mem (started ▸ active) d (fewer depends)
  exact ⟨u, uMem, named, (rows u uMem).2.2.2.2 done⟩

/-! ## One Task changes -/

theorem ordered_depend (ordered : Ordered L) (keyed : Keyed L) {t target : Task}
    (mem : t ∈ L.tasks) (unstarted : t.started = false) (target_mem : target ∈ L.tasks)
    (same : target.project = t.project)
    (acyclic : ¬ ReflTransGen (DependsOn L.tasks) target.id t.id) :
    Ordered { L with
      tasks := alter Task.id t.id
        (fun _ => { t with dependencies := t.dependencies ++ [target.id] }) L.tasks } := by
  refine ⟨ordered.acyclic.add_edge acyclic ?_, ?_, ?_⟩
  · rintro a b ⟨row', mem', rfl, depends⟩
    obtain ⟨row, rowMem, ⟨here, rfl⟩ | ⟨_, rfl⟩⟩ := mem_alter.mp mem'
    · rcases mem_append.mp depends with old | new
      · exact .inl ⟨t, mem, rfl, old⟩
      · exact .inr ⟨rfl, mem_singleton.mp new⟩
    · exact .inl ⟨row', rowMem, rfl, depends⟩
  · have present : ∀ u ∈ L.tasks, ∃ u' ∈ alter Task.id t.id
        (fun _ => { t with dependencies := t.dependencies ++ [target.id] }) L.tasks,
        u'.id = u.id ∧ u'.project = u.project := by
      intro u uMem
      by_cases here : u.id = t.id
      · have := keyed.tasks.eq_of_key uMem mem here
        subst this
        exact ⟨_, mem_alter.mpr ⟨u, uMem, .inl ⟨rfl, rfl⟩⟩, rfl, rfl⟩
      · exact ⟨u, mem_alter.mpr ⟨u, uMem, .inr ⟨here, rfl⟩⟩, rfl, rfl⟩
    intro row' mem' d depends
    obtain ⟨row, rowMem, ⟨here, rfl⟩ | ⟨_, rfl⟩⟩ := mem_alter.mp mem'
    · rcases mem_append.mp depends with old | new
      · obtain ⟨u, uMem, named, project⟩ := ordered.within t mem d old
        obtain ⟨u', inNew, id, project'⟩ := present u uMem
        exact ⟨u', inNew, id.trans named, project'.trans project⟩
      · obtain ⟨u', inNew, id, project'⟩ := present target target_mem
        exact ⟨u', inNew, by rw [id, mem_singleton.mp new], project'.trans same⟩
    · obtain ⟨u, uMem, named, project⟩ := ordered.within row' rowMem d depends
      obtain ⟨u', inNew, id, project'⟩ := present u uMem
      exact ⟨u', inNew, id.trans named, project'.trans project⟩
  · intro row' mem' active d depends
    obtain ⟨row, rowMem, ⟨here, rfl⟩ | ⟨_, rfl⟩⟩ := mem_alter.mp mem'
    · rw [unstarted] at active
      cases active
    · obtain ⟨u, uMem, named, done⟩ := ordered.done row' rowMem active d depends
      by_cases here : u.id = t.id
      · have := keyed.tasks.eq_of_key uMem mem here
        subst this
        exact ⟨_, mem_alter.mpr ⟨u, uMem, .inl ⟨rfl, rfl⟩⟩, named, done⟩
      · exact ⟨u, mem_alter.mpr ⟨u, uMem, .inr ⟨here, rfl⟩⟩, named, done⟩

theorem ordered_start (ordered : Ordered L) (keyed : Keyed L) {t : Task} (mem : t ∈ L.tasks)
    (ready : ∀ d ∈ t.dependencies, ∃ u ∈ L.tasks, u.id = d ∧ u.status = .done) :
    Ordered { L with
      tasks := alter Task.id t.id
        (fun _ => { t with phase := some .executing, started := true }) L.tasks } := by
  have same : ∀ row ∈ L.tasks, row.id = t.id → row = t :=
    fun row rowMem => keyed.tasks.eq_of_key rowMem mem
  refine ordered_of_task_edits ordered _ ?_ ?_ rfl
  · intro row rowMem
    split
    · rename_i here
      rw [same row rowMem here]
      exact ⟨rfl, rfl, fun _ => id⟩
    · exact ⟨rfl, rfl, fun _ => id⟩
  · intro row rowMem active d depends
    have done : ∃ u ∈ L.tasks, u.id = d ∧ u.status = .done := by
      by_cases here : row.id = t.id
      · rw [if_pos here] at depends
        exact ready d depends
      · rw [if_neg here] at active depends
        exact ordered.done row rowMem active d depends
    obtain ⟨u, uMem, named, done⟩ := done
    refine ⟨u, uMem, named, ?_⟩
    split
    · rename_i here
      rw [← same u uMem here]
      exact done
    · exact done

theorem ordered_resume (ordered : Ordered L) (keyed : Keyed L) {t : Task} (mem : t ∈ L.tasks)
    (unused : ∀ u ∈ L.tasks, u.started = true → ¬ TransGen (DependsOn L.tasks) u.id t.id)
    (resumed : Task) (core : resumed.id = t.id ∧ resumed.project = t.project ∧
      resumed.dependencies = t.dependencies ∧ resumed.started = t.started) :
    Ordered { L with tasks := alter Task.id t.id (fun _ => resumed) L.tasks } := by
  obtain ⟨id_eq, project_eq, dependencies_eq, started_eq⟩ := core
  have same : ∀ row ∈ L.tasks, row.id = t.id → row = t :=
    fun row rowMem => keyed.tasks.eq_of_key rowMem mem
  refine ordered_of_task_edits ordered _ ?_ ?_ rfl
  · intro row rowMem
    split
    · rename_i here
      rw [same row rowMem here]
      exact ⟨id_eq, project_eq, dependencies_eq ▸ fun _ => id⟩
    · exact ⟨rfl, rfl, fun _ => id⟩
  · intro row rowMem active d depends
    have before : row.started = true ∧ d ∈ row.dependencies := by
      by_cases here : row.id = t.id
      · rw [if_pos here] at active depends
        rw [same row rowMem here]
        exact ⟨started_eq ▸ active, dependencies_eq ▸ depends⟩
      · rw [if_neg here] at active depends
        exact ⟨active, depends⟩
    obtain ⟨u, uMem, named, done⟩ := ordered.done row rowMem before.1 d before.2
    refine ⟨u, uMem, named, ?_⟩
    -- A started Task would lead to the resumed one.
    rw [if_neg]
    · exact done
    · intro here
      refine unused row rowMem before.1 (.single ⟨row, rowMem, rfl, ?_⟩)
      rw [← here, named]
      exact before.2

theorem ordered_changeTask (ordered : Ordered L) (keyed : Keyed L) {t t' : Task}
    (mem : t ∈ L.tasks) (move : TaskMove L t t') :
    Ordered { L with tasks := alter Task.id t.id (fun _ => t') L.tasks } := by
  have same : ∀ row ∈ L.tasks, row.id = t.id → row = t :=
    fun row rowMem => keyed.tasks.eq_of_key rowMem mem
  cases move with
  | edit =>
    refine ordered_of_kept ordered _ ?_ rfl
    intro row rowMem
    split
    · rename_i here
      rw [same row rowMem here]
      exact ⟨rfl, rfl, fun _ => id, rfl, id⟩
    · exact ⟨rfl, rfl, fun _ => id, rfl, id⟩
  | start _ ready => exact ordered_start ordered keyed mem ready
  | depend unstarted target_mem project acyclic =>
    exact ordered_depend ordered keyed mem unstarted target_mem project acyclic
  | undepend unstarted fewer =>
    refine ordered_of_kept ordered _ ?_ rfl
    intro row rowMem
    split
    · rename_i here
      rw [same row rowMem here]
      exact ⟨rfl, rfl, fewer, rfl, id⟩
    · exact ⟨rfl, rfl, fun _ => id, rfl, id⟩
  | resume _ unused => exact ordered_resume ordered keyed mem unused _ ⟨rfl, rfl, rfl, rfl⟩

theorem ordered_addTask (ordered : Ordered L) (keyed : Keyed L) (linked : Linked L) {job : Job}
    {t : Task} (job_mem : job ∈ L.jobs) (fresh : ∀ old ∈ L.tasks, old.id ≠ t.id)
    (project : t.project = job.project) (unstarted : t.started = false)
    (inherited : t.dependencies = job.followup) :
    Ordered { L with tasks := L.tasks ++ [t] } := by
  have known : ∀ d ∈ t.dependencies, ∃ u ∈ L.tasks, u.id = d ∧ u.project = t.project := by
    intro d depends
    rw [inherited] at depends
    obtain ⟨u, uMem, named, owned⟩ := linked.followup job job_mem d depends
    obtain ⟨home, home_mem, owns, within⟩ := linked.home u uMem
    have : home = job := keyed.jobs.eq_of_key home_mem job_mem (owns.trans owned)
    exact ⟨u, uMem, named, by rw [project, ← this, within]⟩
  have cases_of_mem : ∀ {row}, row ∈ L.tasks ++ [t] → row ∈ L.tasks ∨ row = t := by
    intro row rowMem
    simpa using rowMem
  -- No Task depends on the new one yet, so it only adds edges that leave a source.
  refine ⟨ordered.acyclic.add_source (x := t.id) ?_ ?_, ?_, ?_⟩
  · rintro a ⟨row, rowMem, _, depends⟩
    have old : ∃ u ∈ L.tasks, u.id = t.id := by
      rcases cases_of_mem rowMem with old | rfl
      · obtain ⟨u, uMem, named, _⟩ := ordered.within row old _ depends
        exact ⟨u, uMem, named⟩
      · obtain ⟨u, uMem, named, _⟩ := known _ depends
        exact ⟨u, uMem, named⟩
    obtain ⟨u, uMem, named⟩ := old
    exact fresh u uMem named
  · rintro a b other ⟨row, rowMem, rfl, depends⟩
    rcases cases_of_mem rowMem with old | rfl
    · exact ⟨row, old, rfl, depends⟩
    · exact absurd rfl other
  · intro row rowMem d depends
    have found : ∃ u ∈ L.tasks, u.id = d ∧ u.project = row.project := by
      rcases cases_of_mem rowMem with old | rfl
      · exact ordered.within row old d depends
      · exact known d depends
    obtain ⟨u, uMem, facts⟩ := found
    exact ⟨u, mem_append_left _ uMem, facts⟩
  · intro row rowMem active d depends
    rcases cases_of_mem rowMem with old | rfl
    · obtain ⟨u, uMem, facts⟩ := ordered.done row old active d depends
      exact ⟨u, mem_append_left _ uMem, facts⟩
    · rw [unstarted] at active
      cases active

theorem ordered_delete (ordered : Ordered L) {jobs : List String} (keep : Issue → Bool)
    (unneeded : ∀ t ∈ L.tasks, t.job ∉ jobs → ∀ u ∈ L.tasks, u.job ∈ jobs →
      u.id ∉ t.dependencies) :
    Ordered { L with
      jobs := L.jobs.filter fun job => job.id ∉ jobs
      tasks := L.tasks.filter fun t => t.job ∉ jobs
      issues := L.issues.filter keep } := by
  -- A prerequisite of a Task that stays is needed, hence it stays too.
  have stays : ∀ t ∈ L.tasks, t.job ∉ jobs → ∀ d ∈ t.dependencies, ∀ u ∈ L.tasks, u.id = d →
      u ∈ L.tasks.filter fun t => t.job ∉ jobs := by
    intro t mem kept d depends u uMem named
    refine mem_filter.mpr ⟨uMem, ?_⟩
    rw [decide_eq_true_iff]
    exact fun gone => unneeded t mem kept u uMem gone (named ▸ depends)
  refine ⟨ordered.acyclic.mono ?_, ?_, ?_⟩
  · rintro a b ⟨t, mem, named, depends⟩
    exact ⟨t, (mem_filter.mp mem).1, named, depends⟩
  · intro t mem d depends
    obtain ⟨old, kept⟩ := mem_filter.mp mem
    obtain ⟨u, uMem, named, project⟩ := ordered.within t old d depends
    exact ⟨u, stays t old (by simpa using kept) d depends u uMem named, named, project⟩
  · intro t mem active d depends
    obtain ⟨old, kept⟩ := mem_filter.mp mem
    obtain ⟨u, uMem, named, done⟩ := ordered.done t old active d depends
    exact ⟨u, stays t old (by simpa using kept) d depends u uMem named, named, done⟩

theorem ordered_effect (effect : Effect may L L') (keyed : Keyed L) (linked : Linked L)
    (ordered : Ordered L) : Ordered L' := by
  cases effect with
  | addIssue => exact ⟨ordered.acyclic, ordered.within, ordered.done⟩
  | changeIssue => exact ⟨ordered.acyclic, ordered.within, ordered.done⟩
  | addJob => exact ⟨ordered.acyclic, ordered.within, ordered.done⟩
  | moveJobs => exact ⟨ordered.acyclic, ordered.within, ordered.done⟩
  | addTask mem _ fresh owned idle inherited =>
    exact ordered_addTask ordered keyed linked mem fresh owned.2 idle.2.2.1 inherited
  | changeTask mem move => exact ordered_changeTask ordered keyed mem move
  | claim mem unfinished =>
    refine ordered_of_kept ordered _ ?_ rfl
    intro row rowMem
    split
    · rename_i here
      rw [keyed.tasks.eq_of_key rowMem mem here]
      refine ⟨rfl, rfl, fun _ => id, rfl, ?_⟩
      intro done
      rw [done] at unfinished
      cases unfinished
    · exact ⟨rfl, rfl, fun _ => id, rfl, id⟩
  | @stop stop each =>
    refine ordered_of_kept ordered _ ?_ rfl
    intro t mem
    refine ⟨Task.stopped_id t stop, Task.stopped_project t stop, ?_, Task.stopped_started t stop,
      ?_⟩
    · rw [Task.stopped_dependencies]
      exact fun _ => id
    · intro done
      cases stops : stop t with
      | none =>
        rw [Task.stopped_none stops]
        exact done
      | some next =>
        have unfinished := (each t mem next stops).2.1
        rw [done] at unfinished
        cases unfinished
  | delete _ unneeded => exact ordered_delete ordered _ unneeded

end Agentix.Ledger

/-! # Consistent ledgers

All the invariants together, over sequences of effects, and what a sequence leaves alone:
a leased Task that it has no authority to touch.
-/

namespace Agentix.Ledger

open Lib TaskStore Relation List

structure Consistent (L : State) : Prop where
  keyed : Keyed L
  linked : Linked L
  leased : Leased L
  settled : Settled L
  ordered : Ordered L

theorem consistent_empty : Consistent {} :=
  ⟨keyed_empty, linked_empty, leased_empty, settled_empty, ordered_empty⟩

variable {may : Authority} {L L' : State}

theorem consistent_effect (effect : Effect may L L') (consistent : Consistent L) :
    Consistent L' := by
  obtain ⟨keyed, linked, leased, settled, ordered⟩ := consistent
  exact ⟨keyed_effect effect keyed, linked_effect effect keyed linked,
    leased_effect effect keyed leased, settled_effect effect keyed settled,
    ordered_effect effect keyed linked ordered⟩

theorem consistent_effects (effects : Effects may L L') (consistent : Consistent L) :
    Consistent L' :=
  invariant_of_steps Consistent (fun _ _ => consistent_effect) effects consistent

/-! ## Leased work -/

theorem leased_kept (effect : Effect may L L') (keyed : Keyed L) (leased : Leased L) {t : Task}
    {l : Lease} (mem : t ∈ L.tasks) (lease : l ∈ L.leases) (held : t.id = l.task)
    (untouched : ¬ may.touch L.leases t) : t ∈ L'.tasks ∧ l ∈ L'.leases := by
  have working := (leased.of_lease keyed mem lease held).status
  cases effect with
  | addIssue => exact ⟨mem, lease⟩
  | changeIssue => exact ⟨mem, lease⟩
  | addJob => exact ⟨mem, lease⟩
  | moveJobs => exact ⟨mem, lease⟩
  | addTask => exact ⟨mem_append_left _ mem, lease⟩
  | changeTask changed _ allowed =>
    refine ⟨mem_alter.mpr ⟨t, mem, .inr ⟨?_, rfl⟩⟩, lease⟩
    intro same
    rw [keyed.tasks.eq_of_key mem changed same] at untouched
    exact untouched allowed
  | claim claimed _ idle =>
    refine ⟨mem_alter.mpr ⟨t, mem, .inr ⟨?_, rfl⟩⟩, mem_append_left _ lease⟩
    intro same
    rw [keyed.tasks.eq_of_key mem claimed same] at working
    exact idle working
  | @stop stop each =>
    have still : stop t = none := by
      cases stops : stop t with
      | none => rfl
      | some next => exact absurd (each t mem next stops).2.2 untouched
    refine ⟨mem_map.mpr ⟨t, mem, Task.stopped_none still⟩,
      mem_filter.mpr ⟨lease, keptLease_iff.mpr ?_⟩⟩
    intro other other_mem same
    rw [keyed.tasks.eq_of_key other_mem mem (same.trans held.symm), still]
  | delete unleased =>
    refine ⟨mem_filter.mpr ⟨mem, ?_⟩, lease⟩
    rw [decide_eq_true_iff]
    exact fun gone => unleased t mem gone l lease held.symm

theorem leased_kept_effects (effects : Effects may L L') (consistent : Consistent L) {t : Task}
    {l : Lease} (mem : t ∈ L.tasks) (lease : l ∈ L.leases) (held : t.id = l.task)
    (untouched : ∀ M, Leased M → t ∈ M.tasks → l ∈ M.leases → ¬ may.touch M.leases t) :
    t ∈ L'.tasks ∧ l ∈ L'.leases := by
  induction effects with
  | refl => exact ⟨mem, lease⟩
  | tail before effect ih =>
    obtain ⟨still, kept⟩ := ih
    obtain ⟨keyed, _, leased, _, _⟩ := consistent_effects before consistent
    exact leased_kept effect keyed leased still kept held (untouched _ leased still kept)

end Agentix.Ledger
