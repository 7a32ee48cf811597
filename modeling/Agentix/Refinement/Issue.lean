import Agentix.Refinement.View
import Agentix.TaskStore.Inversion

/-! # Issues and Milestones as effects -/

namespace Agentix.TaskStore

open Lib Relation List Function Option

variable {may : Ledger.Authority} {s s' : Snapshot}

/-! ## Guards -/

variable {env : Env} {i : Fin s.issues.length} {now : Int} {row : Issue}
  {milestone renamed : Option String} {reply : Reply} {issue : String} {request : Value}
  {options : WriteOptions}

theorem writable_eq_ok {id : String} :
    writable s id = .ok i ↔ s.issueIndex id = .ok i ∧
      ((s.issues.get i).status = .todo ∨ (s.issues.get i).status = .active) ∧
      (s.issues.get i).archivedAt = none := by
  unfold writable
  simp only [bind_ok, ensure_ok, pure_ok]
  constructor
  · rintro ⟨i, found, _, open_, rfl⟩
    exact ⟨found, open_⟩
  · rintro ⟨found, open_⟩
    exact ⟨i, found, (), open_, rfl⟩

theorem Issue.activated_id (issue : Issue) (now : Int) :
    (issue.activated now).id = issue.id ∧ (issue.activated now).projectId = issue.projectId := by
  unfold Issue.activated
  split <;> exact ⟨rfl, rfl⟩

theorem Issue.activated_status (issue : Issue) (now : Int) :
    (issue.activated now).status = issue.status ∨ (issue.activated now).status = .active := by
  unfold Issue.activated
  split
  · exact .inr rfl
  · exact .inl rfl

theorem advances_activate {query : String} (found : s.issueIndex query = .ok i) (now : Int) :
    Advances may s (activate s i now) := by
  refine .of_issueRow found (Issue.activated_id _ now) fun finished => ?_
  rcases Issue.activated_status (s.issues.get i) now with same | active
  · exact .inl same.symm
  · rw [active] at finished
    cases finished

/-! ## Cancelling an Issue's Jobs -/

/-- The Tasks that `issue.cancel` stops. -/
def cancelledWith (jobs : List String) (t : Ledger.Task) : Option TaskStatus :=
  if t.job ∈ jobs ∧ t.status.terminal = false then some .cancelled else none

theorem mem_openJobs {job : Job} (keyed : Ledger.Keyed s.ledger) (mem : job ∈ s.jobs) :
    job.id ∈ openJobs s issue ↔ job.issueId = some issue ∧ job.status.terminal = false := by
  unfold openJobs
  constructor
  · intro inOpen
    obtain ⟨other, filtered, same⟩ := mem_map.mp inOpen
    obtain ⟨other_mem, here⟩ := mem_filter.mp filtered
    rw [(distinct_jobs keyed).eq_of_key mem other_mem same.symm]
    simpa using here
  · intro here
    exact mem_map.mpr ⟨job, mem_filter.mpr ⟨mem, by simpa using here⟩, rfl⟩

/-- The identifiers of the Tasks of some Jobs select exactly those Tasks. -/
theorem mem_taskIds (keyed : Ledger.Keyed s.ledger) (jobs : List String) {t : Task}
    (mem : t ∈ s.tasks) :
    t.id ∈ (s.tasks.filter fun t => t.jobId ∈ jobs).map Task.id ↔ t.jobId ∈ jobs := by
  constructor
  · intro inTasks
    obtain ⟨other, filtered, same⟩ := mem_map.mp inTasks
    obtain ⟨other_mem, here⟩ := mem_filter.mp filtered
    rw [(distinct_tasks keyed).eq_of_key mem other_mem same.symm]
    simpa using here
  · intro here
    exact mem_map.mpr ⟨t, mem_filter.mpr ⟨mem, by simpa using here⟩, rfl⟩

theorem advances_stopJobs (consistent : Ledger.Consistent s.ledger) (now : Int)
    (allowed : ∀ t ∈ s.tasks, ∀ job ∈ s.jobs, job.id = t.jobId → job.issueId = some issue →
      may.touch s.ledger.leases t.entry) :
    Advances may s { cancelJobs s issue now with jobs := s.jobs } := by
  have keyed := consistent.keyed
  have selected : ∀ t ∈ s.tasks, t.id ∈ (s.tasks.filter fun t => t.jobId ∈ openJobs s issue).map
      Task.id ↔ t.jobId ∈ openJobs s issue := fun t => mem_taskIds keyed _
  refine .of_stop consistent (cancelledWith (openJobs s issue)) _ rfl rfl rfl ?_ rfl ?_ ?_
  · simp only [cancelJobs, Snapshot.ledger_tasks, List.map_map]
    refine map_congr_left fun t mem => ?_
    simp only [comp_apply, selected t mem, Bool.not_eq_true']
    by_cases stops : t.jobId ∈ openJobs s issue ∧ t.status.terminal = false
    · rw [if_pos stops, Ledger.Task.stopped_some (if_pos stops)]
      rfl
    · rw [if_neg stops, Ledger.Task.stopped_none (if_neg stops)]
  · intro l _ t mem holds
    have named : t.id = l.taskId := holds.task
    have working : t.status = .inProgress := holds.status
    rw [decide_eq_true_iff, ← named, selected t mem]
    simp [cancelledWith, working, TaskStatus.terminal]
  · intro t' mem' next stops
    obtain ⟨t, mem, rfl⟩ := mem_map.mp mem'
    simp only [cancelledWith, ite_none_right_eq_some, some.injEq] at stops
    obtain ⟨⟨inOpen, unfinished⟩, rfl⟩ := stops
    refine ⟨by simp, unfinished, ?_⟩
    obtain ⟨job', job_mem', owns, _⟩ := consistent.linked.home _ mem'
    obtain ⟨job, job_mem, rfl⟩ := mem_map.mp job_mem'
    refine allowed t mem job job_mem owns ?_
    have inOpen' : job.id ∈ openJobs s issue := by
      have same : job.id = t.jobId := owns
      rw [same]
      exact inOpen
    exact ((mem_openJobs keyed job_mem).mp inOpen').1

theorem advances_cancelJobs (consistent : Ledger.Consistent s.ledger) (now : Int)
    (allowed : ∀ t ∈ s.tasks, ∀ job ∈ s.jobs, job.id = t.jobId → job.issueId = some issue →
      may.touch s.ledger.leases t.entry) : Advances may s (cancelJobs s issue now) := by
  have keyed := consistent.keyed
  refine (advances_stopJobs consistent now allowed).trans (.one rfl ?_)
  have target : (cancelJobs s issue now).ledger =
      { ({ cancelJobs s issue now with jobs := s.jobs } : Snapshot).ledger with
        jobs := s.ledger.jobs.map fun job =>
          if job.id ∈ openJobs s issue then
            { job with status := .cancelled, cancelled := true } else job } := by
    simp only [Snapshot.ledger, cancelJobs, List.map_map]
    congr 1
    refine map_congr_left fun job _ => ?_
    by_cases inOpen : job.id ∈ openJobs s issue
    · simp only [comp_apply, if_pos inOpen]
      exact (if_pos inOpen).symm
    · simp only [comp_apply, if_neg inOpen]
      exact (if_neg inOpen).symm
  rw [target]
  refine .moveJobs fun job' mem' => ?_
  obtain ⟨job, mem, rfl⟩ := mem_map.mp mem'
  split
  · rename_i inOpen
    refine .cancel ((mem_openJobs keyed mem).mp inOpen).2 fun t' inTasks owned => ?_
    obtain ⟨t, task_mem, rfl⟩ := mem_map.mp inTasks
    obtain ⟨old, old_mem, rfl⟩ := mem_map.mp task_mem
    have selected := mem_taskIds keyed (openJobs s issue) old_mem
    split at owned
    · rename_i stops
      rw [if_pos stops]
      rfl
    · rename_i goes_on
      rw [if_neg goes_on]
      have home : old.jobId = job.id := owned
      rw [selected, home] at goes_on
      simpa using not_and.mp goes_on inOpen
  · exact .stay _

theorem cancelJobs_ended (keyed : Ledger.Keyed s.ledger) (issue : String) (now : Int) :
    ∀ job ∈ (cancelJobs s issue now).jobs, job.issueId = some issue →
      job.status.terminal = true := by
  intro job' mem' linked
  obtain ⟨job, mem, rfl⟩ := mem_map.mp mem'
  by_cases inOpen : job.id ∈ openJobs s issue
  · rw [if_pos inOpen]
    rfl
  · rw [if_neg inOpen] at linked ⊢
    rw [mem_openJobs keyed mem] at inOpen
    simpa [linked] using inOpen

/-! ## Issue commands -/

theorem advances_createIssue (ok : createIssue env s request now = .ok (s', reply)) :
    Advances may s s' := by
  obtain ⟨_, _, issue, opened, rfl, _⟩ := createIssue_inv ok
  refine .one rfl ?_
  simp only [Snapshot.ledger, map_append, map_cons, map_nil]
  exact .addIssue opened.status

/-- What a transition keeps of the row before it; the revision is raised afterwards. -/
structure Issue.SameRow (row original : Issue) : Prop where
  id : row.id = original.id
  project : row.projectId = original.projectId
  revision : row.revision = original.revision

theorem applyContentHashes_keeps {issue : Issue} {hash reviewHash : String} {changed : Bool}
    (ok : applyContentHashes issue hash reviewHash = .ok (row, changed)) :
    row.SameRow issue ∧ (row.status.terminal = true → issue.status = row.status) := by
  simp only [applyContentHashes, bind_ok, ensure_ok, pure_ok, Prod.mk.injEq] at ok
  obtain ⟨_, _, rfl, _⟩ := ok
  split
  · exact ⟨⟨rfl, rfl, rfl⟩, fun finished => by cases finished⟩
  · exact ⟨⟨rfl, rfl, rfl⟩, fun _ => rfl⟩

theorem retypedIssue_keeps {issue : Issue} (ok : retypedIssue request issue = .ok row) :
    row.SameRow issue ∧ row.status = issue.status := by
  unfold retypedIssue at ok
  split at ok
  · simp only [bind_ok, ensure_ok, pure_ok] at ok
    obtain ⟨_, _, _, _, rfl⟩ := ok
    exact ⟨⟨rfl, rfl, rfl⟩, rfl⟩
  · cases ok
    exact ⟨⟨rfl, rfl, rfl⟩, rfl⟩

theorem updatedIssue_keeps {original : Issue}
    (ok : updatedIssue env request original renamed milestone = .ok row) :
    row.SameRow original ∧ (row.status.terminal = true → original.status = row.status) := by
  simp only [updatedIssue, bind_ok] at ok
  obtain ⟨_, _, _, _, ⟨hashed, _⟩, hashes, types⟩ := ok
  obtain ⟨⟨id₁, project₁, revision₁⟩, settled⟩ := applyContentHashes_keeps hashes
  obtain ⟨⟨id₂, project₂, revision₂⟩, status⟩ := retypedIssue_keeps types
  have kept : row.SameRow hashed ∧ row.status = hashed.status := by
    refine ⟨⟨?_, ?_, ?_⟩, ?_⟩
    · rw [id₂]
      split <;> rfl
    · rw [project₂]
      split <;> rfl
    · rw [revision₂]
      split <;> rfl
    · rw [status]
      split <;> rfl
  refine ⟨⟨kept.1.id.trans id₁, kept.1.project.trans project₁, kept.1.revision.trans revision₁⟩,
    fun finished => ?_⟩
  rw [kept.2] at finished ⊢
  exact settled finished

/-- An Issue ends only by a human decision over ended Jobs, or because it is cancelled. -/
theorem issueTransition_keeps {project : Project} {original : Issue} {command : IssueCommand}
    (ok : issueTransition env s request options now project original renamed milestone command =
      .ok row) :
    row.SameRow original ∧ (row.status.terminal = true → command ≠ .cancel →
      original.status = row.status ∨
        ∀ job ∈ s.jobs, job.issueId = some original.id → job.status.terminal = true) := by
  cases command with
  | update =>
    obtain ⟨follows, settled⟩ := updatedIssue_keeps ok
    exact ⟨follows, fun finished _ => .inl (settled finished)⟩
  | submit =>
    simp only [issueTransition, bind_ok, ensure_ok, pure_ok] at ok
    obtain ⟨_, _, _, _, rfl⟩ := ok
    exact ⟨⟨rfl, rfl, rfl⟩, fun finished => by cases finished⟩
  | approve =>
    simp only [issueTransition, terminalJobs, bind_ok, ensure_ok, pure_ok] at ok
    obtain ⟨_, _, _, _, _, ⟨_, ended⟩, rfl⟩ := ok
    exact ⟨⟨rfl, rfl, rfl⟩, fun _ _ => .inr ended⟩
  | reject =>
    simp only [issueTransition, bind_ok, ensure_ok, pure_ok] at ok
    obtain ⟨_, _, _, _, _, _, rfl⟩ := ok
    exact ⟨⟨rfl, rfl, rfl⟩, fun finished => by cases finished⟩
  | cancel =>
    simp only [issueTransition, bind_ok, ensure_ok, pure_ok] at ok
    obtain ⟨_, _, _, _, rfl⟩ := ok
    exact ⟨⟨rfl, rfl, rfl⟩, fun _ other => absurd rfl other⟩
  | reopen =>
    simp only [issueTransition, bind_ok, ensure_ok, pure_ok] at ok
    obtain ⟨_, _, _, _, rfl⟩ := ok
    exact ⟨⟨rfl, rfl, rfl⟩, fun finished => by cases finished⟩
  | archive =>
    simp only [issueTransition, issueTransition.archiveIssue, bind_ok, ensure_ok,
      pure_ok] at ok
    obtain ⟨_, _, _, _, _, _, rfl⟩ := ok
    exact ⟨⟨rfl, rfl, rfl⟩, fun _ _ => .inl rfl⟩
  | unarchive =>
    simp only [issueTransition, issueTransition.archiveIssue, bind_ok, ensure_ok,
      pure_ok] at ok
    obtain ⟨_, _, _, _, _, _, rfl⟩ := ok
    exact ⟨⟨rfl, rfl, rfl⟩, fun _ _ => .inl rfl⟩
  | unknown => simp [issueTransition] at ok
  | create => simp [issueTransition] at ok
  | start => simp [issueTransition] at ok

theorem advances_cancelIssue {project : Project} {query : String}
    (consistent : Ledger.Consistent s.ledger) (found : s.issueIndex query = .ok i)
    (allowed : startsWith options.actorRef "user:" = true → ∀ t ∈ s.tasks, ∀ job ∈ s.jobs,
      job.id = t.jobId → job.issueId = some (s.issues.get i).id → may.touch s.ledger.leases t.entry)
    (ok : issueTransition env s request options now project (s.issues.get i) renamed milestone .cancel =
      .ok row) (revision updatedAt : Int) :
    Advances may s ((cancelJobs s (s.issues.get i).id now).modifyIssue i fun _ =>
      { row with revision, updatedAt }) := by
  simp only [issueTransition, human, bind_ok, ensure_ok, pure_ok] at ok
  obtain ⟨_, user, _, _, rfl⟩ := ok
  refine (advances_cancelJobs consistent now (allowed user)).trans ?_
  have found' : (cancelJobs s (s.issues.get i).id now).issueIndex query = .ok i := found
  refine .of_issueRow found' ⟨rfl, rfl⟩ fun _ => .inr ?_
  exact cancelJobs_ended consistent.keyed _ now

theorem advances_applyIssue {command : IssueCommand} (consistent : Ledger.Consistent s.ledger)
    (allowed : command = .cancel → startsWith options.actorRef "user:" = true →
      ∀ i, (required request "issue" >>= s.issueIndex) = .ok i →
      ∀ t ∈ s.tasks, ∀ job ∈ s.jobs, job.id = t.jobId → job.issueId = some (s.issues.get i).id →
        may.touch s.ledger.leases t.entry)
    (ok : applyIssue env s command request options now = .ok (s', reply)) : Advances may s s' := by
  obtain ⟨_, creates⟩ | ⟨_, i, selected, _, edit⟩ := applyIssue_inv ok
  · exact advances_createIssue creates
  · obtain ⟨query, _, found⟩ := bind_ok.mp selected
    cases edit with
    | start => exact advances_activate found now
    | @move _ project renamed milestone row _ moves =>
      by_cases cancelling : command = .cancel
      · subst cancelling
        rw [if_pos rfl]
        exact advances_cancelIssue consistent found (fun user => allowed rfl user i selected) moves _ _
      · obtain ⟨same, settled⟩ := issueTransition_keeps moves
        rw [if_neg cancelling]
        exact .of_issueRow found ⟨same.id, same.project⟩ fun finished => settled finished cancelling

/-! ## Association -/

/-- An Issue that accepts work has not ended. -/
theorem writable_open {k : Fin s.issues.length} (accepts : writable s (s.issues.get i).id = .ok k) :
    ∃ row, rowOf s.ledger.issues Ledger.Issue.id (s.issues.get i).id = some row ∧
      row.status.terminal = false := by
  obtain ⟨found, accepting, _⟩ := writable_eq_ok.mp accepts
  have first := rowOf_issue found
  rw [resolve_exact found ⟨s.issues.get i, get_mem _ _, rfl⟩] at first
  refine ⟨_, first, ?_⟩
  rw [Issue.entry_status]
  rcases accepting with todo | active
  · rw [todo]
    rfl
  · rw [active]
    rfl

theorem advances_associate {job : String} (consistent : Ledger.Consistent s.ledger)
    (ok : associate s job request now = .ok s') : Advances may s s' := by
  have linked : ∀ {j : Fin s.jobs.length} {i k : Fin s.issues.length},
      writable s (s.issues.get i).id = .ok k → Advances may s
        (s.modifyJob j fun job => { job with issueId := some (s.issues.get i).id }) := by
    intro j i k accepts
    refine .of_jobMove consistent.keyed (.link (.inr fun id same => ?_))
    cases same
    exact writable_open accepts
  cases associate_inv ok with
  | keep => exact .refl
  | unlink => exact .of_jobMove consistent.keyed (.link (.inr fun _ none => by cases none))
  | closed _ ended => exact .of_jobMove consistent.keyed (.link (.inl ended))
  | link _ _ accepts => exact linked accepts
  | @activate j i k query _ named accepts =>
    have found' : (s.modifyJob j fun job =>
        { job with issueId := some (s.issues.get i).id }).issueIndex query = .ok i := named
    exact (linked accepts).trans (advances_activate found' now)

/-! ## Milestones -/

theorem advances_applyMilestone {command : MilestoneCommand}
    (ok : applyMilestone env s command request options now = .ok (s', reply)) :
    Advances may s s' := by
  obtain ⟨_, creates⟩ | ⟨_, i, _, _, edit⟩ := applyMilestone_inv ok
  · obtain ⟨_, rfl, _⟩ := createMilestone_inv creates
    exact .unseen rfl rfl
  · cases edit with
    | delete => exact .unseen rfl rfl
    | update => exact .unseen rfl rfl
    | move => exact .unseen rfl rfl

end Agentix.TaskStore
