import Agentix.Lib.Naming
import Agentix.Revisions.Execution

/-! # Issues created over another

`issue.create` takes an identifier from its request.  Where an Issue has it already, the new row
replaces that Issue's under the first revision, and is never the same row: its name is unused.
-/

namespace Agentix.TaskStore

open Lib List

/-! ## Names -/

/-- Lowercasing keeps the numbered variants of a name apart. -/
def Env.NumbersApart (env : Env) : Prop :=
  ∀ base : String, (∀ m n : Nat,
    env.toLowercase s!"{base}-{m}" = env.toLowercase s!"{base}-{n}" → m = n) ∧
    ∀ n : Nat, env.toLowercase s!"{base}-{n}" ≠ env.toLowercase base

/-- The name itself and then its variants from the second on. -/
def numberedFrom (base : String) (i : Nat) : String :=
  if i = 0 then base else s!"{base}-{i + 1}"

theorem firstUnused_eq (toLowercase : String → String) (base : String) (used : List String)
    (fuel i : Nat) :
    firstUnused toLowercase base used fuel (i + 2) (numberedFrom base i) =
      firstFree toLowercase used (numberedFrom base) fuel i := by
  induction fuel generalizing i with
  | zero => rfl
  | succ fuel ih =>
    have next : numberedFrom base (i + 1) = s!"{base}-{i + 2}" := if_neg (Nat.succ_ne_zero i)
    rw [firstUnused, firstFree, ← next, ih]

theorem uniqueName_eq (toLowercase : String → String) (title : String) (existing : List String) :
    uniqueName toLowercase title existing = firstFree toLowercase (existing.map toLowercase)
      (numberedFrom (shortName title)) (existing.map toLowercase).length 0 := by
  have plain : numberedFrom (shortName title) 0 = shortName title := if_pos rfl
  rw [← firstUnused_eq, plain]
  rfl

/-- A unique name is not one of the existing names, in any case. -/
theorem uniqueName_unused {env : Env} (apart : env.NumbersApart) (title : String)
    (existing : List String) : uniqueName env.toLowercase title existing ∉ existing := by
  have keys : Function.Injective fun i =>
      env.toLowercase (numberedFrom (shortName title) i) := by
    obtain ⟨numbers, plain⟩ := apart (shortName title)
    intro i j same
    dsimp only [numberedFrom] at same
    by_cases first : i = 0
    · by_cases second : j = 0
      · rw [first, second]
      · rw [if_pos first, if_neg second] at same
        exact absurd same.symm (plain _)
    · by_cases second : j = 0
      · rw [if_neg first, if_pos second] at same
        exact absurd same (plain _)
      · rw [if_neg first, if_neg second] at same
        exact Nat.succ.inj (numbers _ _ same)
  intro taken
  have used : env.toLowercase (firstFree env.toLowercase (existing.map env.toLowercase)
      (numberedFrom (shortName title)) (existing.map env.toLowercase).length 0) ∈
      existing.map env.toLowercase := by
    rw [uniqueName_eq] at taken
    exact mem_map_of_mem taken
  exact firstFree_unused keys used

/-- A new name is none of the names that the request read. -/
theorem entityName_unused {env : Env} {s : Snapshot} {project kind : String}
    {names : List (String × String)} (apart : env.NumbersApart)
    (read : s.queryContext.names.lookup (project, kind) = some names) (title : String) :
    entityName env s project kind none title ∉ names.map Prod.snd := by
  have everyone : names.filter (fun entry => some entry.1 ≠ none) = names :=
    filter_eq_self.mpr fun _ _ => by simp
  simp only [entityName, read, everyone]
  exact uniqueName_unused apart title _

/-! ## The created row -/

variable {host : Host} {db db' : Database} {s s' : Snapshot} {request : Value}
  {options : WriteOptions} {now : Int} {reply : Reply}

theorem lookup_keyed {κ ν : Type} [BEq κ] [LawfulBEq κ] {f : κ → ν} {keys : List κ} {k : κ}
    (mem : k ∈ keys) : (keys.map fun k => (k, f k)).lookup k = some (f k) := by
  induction keys with
  | nil => cases mem
  | cons head tail ih =>
    rw [map_cons, lookup_cons]
    by_cases here : k = head
    · simp [here]
    · rw [beq_eq_false_iff_ne.mpr here]
      exact ih (mem_of_ne_of_mem here mem)

/-- A request that creates an Issue reads the names of all Issues of its Project. -/
theorem loadRequest_issueNames (creating : (request.index "command").asStr = some "issue.create")
    (loads : loadRequest host db request now = .ok s) {p : Project} (mem : p ∈ s.projects) :
    s.queryContext.names.lookup (p.id, "issue") =
      some ((kindRows db.rows "issue" p.id).map fun row => (row.1, row.2.1)) := by
  simp only [loadRequest, bind_ok, pure_ok] at loads
  obtain ⟨scope, _, context, reads, _, _, rfl⟩ := loads
  simp only [loadQueryContext, bind_ok, pure_ok] at reads
  obtain ⟨command, hasCommand, _, _, _, _, rfl⟩ := reads
  rw [required_index hasCommand, Option.some.injEq] at creating
  subst creating
  have kind : namedKind request "issue.create" = some "issue" := by
    simp [namedKind]
  refine lookup_keyed ?_
  rw [kind]
  simpa using ⟨p, mem, rfl⟩

/-- A created Issue is not a stored one: no Issue of its Project has its name. -/
theorem createdIssue_notMem (apart : host.toEnv.NumbersApart)
    (creating : (request.index "command").asStr = some "issue.create")
    (loads : loadRequest host db request now = .ok s)
    (ok : createIssue host.toEnv s request now = .ok (s', reply)) :
    ∃ issue, s' = { s with issues := s.issues ++ [issue] } ∧
      issue.id = createdIssue host.toEnv request ∧ issue.revision = 1 ∧
      issue ∉ db.rows.issues := by
  obtain ⟨p, title, issue, opened, rfl, _⟩ := createIssue_inv ok
  refine ⟨issue, rfl, opened.id, opened.revision, fun stored => ?_⟩
  have names := loadRequest_issueNames creating loads (get_mem s.projects p)
  refine entityName_unused apart names title ?_
  rw [← opened.name, List.map_map]
  refine mem_map.mpr ⟨(issue.id, issue.name, issue.createdAt, issue.sequence), ?_, rfl⟩
  exact mem_map.mpr ⟨issue, mem_filter.mpr ⟨stored, by simpa using opened.home⟩, rfl⟩

/-! ## Replaced rows -/

/-- An Issue is created under the identifier of another one. -/
def Overwrites (db : Database) (request : Value) : Prop :=
  (request.index "command").asStr = some "issue.create" ∧
    ∃ issue ∈ db.rows.issues, (request.index "id").asStr = some issue.id

theorem apply_createIssue {env : Env}
    (creating : (request.index "command").asStr = some "issue.create")
    (ok : apply env s request options now = .ok (s', reply)) :
    createIssue env s request now = .ok (s', reply) := by
  have applies : applyIssue env s .create request options now = .ok (s', reply) :=
    apply_named creating ok
  obtain ⟨_, creates⟩ | ⟨other, _⟩ := applyIssue_inv applies
  · exact creates
  · exact absurd rfl other

/-- The created row is written over the stored one. -/
theorem overwritten_transact (keyed : Keyed db.rows) (apart : host.toEnv.NumbersApart)
    (overwrites : Overwrites db request)
    (ok : transact host db request options now = .ok (db', reply)) :
    ∃ issue ∈ db.rows.issues, ∃ row ∈ db'.rows.issues, row.id = issue.id ∧ row ≠ issue ∧
      row.revision = 1 := by
  obtain ⟨creating, issue, mem, given⟩ := overwrites
  obtain ⟨run⟩ := transact_inv ok
  obtain ⟨loads, applies, attaches⟩ := run.plain creating (by decide)
  obtain ⟨row, created, id, revision, new⟩ :=
    createdIssue_notMem apart creating loads (apply_createIssue creating applies)
  have unattachable : attachable request = false := by
    simp [attachable, creating]
  have kept : run.after = run.mid := by
    obtain ⟨_, kept⟩ | ⟨_, _, _, _, _, allowed, _⟩ :=
      attach_delivers (fun allowed => by rw [unattachable] at allowed; cases allowed) attaches
    · exact kept
    · rw [unattachable] at allowed
      cases allowed
  have issues : run.after.issues = run.before.issues ++ [row] := by rw [kept, created]
  have named : row.id = issue.id := by rw [id, createdIssue, given, Option.getD_some]
  refine ⟨issue, mem, row, ?_, named, fun same => new (same ▸ mem), revision⟩
  rw [run.rows]
  refine mem_persistedRows (run.loaded keyed).issues (by simp [issues]) (fun old => new ?_)
    fun other mem => ?_
  · exact run.part.issues row old
  · rw [issues] at mem
    exact (mem_append.mp mem).imp_right mem_singleton.mp

theorem overwritten_execute {expanded : Value} {outcome : Outcome} (keyed : Keyed db.rows)
    (apart : host.toEnv.NumbersApart) (expands : expandRoots host request = .ok expanded)
    (unanswered : Unanswered db options) (overwrites : Overwrites db expanded)
    (ok : execute host db request options now = .ok (db', outcome)) :
    ∃ issue ∈ db.rows.issues, ∃ row ∈ db'.rows.issues, row.id = issue.id ∧ row ≠ issue ∧
      row.revision = 1 := by
  obtain ⟨reaped, reaps, ⟨answered, _⟩ | ⟨_, mid, reply, transacts, rows⟩⟩ :=
    execute_cases expands ok
  · exact absurd unanswered answered
  · obtain ⟨_, ⟨_, issues⟩, keeps, _⟩ := reap_rows reaps
    have again : Overwrites reaped expanded := by
      unfold Overwrites
      rw [issues]
      exact overwrites
    have changed := overwritten_transact (keeps keyed) apart again transacts
    rwa [issues, ← rows] at changed

/-! ## The first revision -/

theorem linkJob_issues {new : String → Prop} {job : Job}
    (ok : linkJob s job request now = .ok (s', reply)) :
    Revises Issue.id Issue.revision new s.issues s'.issues := by
  have rest : _ ∧ Follows ⟨new, new, new, new, new⟩ s { s' with jobs := s.jobs } :=
    associate_rows (linkJob_inv ok).1
  exact rest.2.issues

/-- Whatever identifiers a command draws, it raises the Issues that it changes, or creates one. -/
theorem issues_apply {env : Env} (ok : apply env s request options now = .ok (s', reply)) :
    Revises Issue.id Issue.revision (fun _ => True) s.issues s'.issues := by
  obtain ⟨command, named, dispatches⟩ := apply_inv ok
  by_cases creating : command = .jobCreate
  · subst creating
    obtain ⟨job, _, links⟩ := dispatch_jobCreate_inv dispatches
    have revises : Revises Issue.id Issue.revision (fun _ => True)
        ({ s with jobs := s.jobs ++ [job] } : Snapshot).issues s'.issues := linkJob_issues links
    exact revises
  · by_cases editing : ∃ edit, command = .job edit
    · obtain ⟨edit, rfl⟩ := editing
      obtain ⟨updated, row, updates, rest⟩ := dispatch_job_inv dispatches
      have kept := (jobWritten_updateJob updates).issues
      obtain ⟨_, links⟩ | ⟨rfl, _⟩ := rest
      · exact kept ▸ linkJob_issues links
      · exact kept ▸ .refl
    · have follows := follows_others creating (fun edit same => editing ⟨edit, same⟩) named dispatches
      exact follows.issues.mono fun _ _ => trivial

theorem issues_transact (ok : transact host db request options now = .ok (db', reply)) :
    Revises Issue.id Issue.revision (fun _ => True) db.rows.issues db'.rows.issues := by
  obtain ⟨run⟩ := transact_inv ok
  have issues : run.after.issues = run.mid.issues := by rw [(attach_tables run.attaches).2.2]
  have revises := issues_apply run.applies
  rw [← issues] at revises
  rw [run.rows]
  exact revises_deleteRows (revises_writeRows run.part.issues revises)

/-- Every stored Issue has been written at least once. -/
theorem stored_issues_positive (stored : Stored db) :
    ∀ issue ∈ db.rows.issues, 0 < issue.revision := by
  refine stored.invariant (fun db => ∀ issue ∈ db.rows.issues, 0 < issue.revision) ?_ ?_
  · exact forall_mem_nil _
  · intro db db' transaction _ _ positive step
    have written : Revises Issue.id Issue.revision (fun _ => True) db.rows.issues db'.rows.issues := by
      cases transaction with
      | command host request options source now =>
        obtain ⟨outcome, ok⟩ := step
        obtain ⟨expanded, _, ⟨_, rfl⟩ | ⟨_, mid, reply, transacts, same⟩⟩ := executeAs_cases ok
        · exact .refl
        · exact same ▸ issues_transact transacts
      | reap now => exact (reap_rows step).2.1.2 ▸ .refl
    intro issue mem
    obtain ⟨old, old_mem, raised⟩ | ⟨_, first⟩ := written issue mem
    · have least := raised.le
      have started := positive old old_mem
      omega
    · exact first

end Agentix.TaskStore
