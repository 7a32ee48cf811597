import Agentix.Refinement.Issue
import Agentix.TaskStore.Mutations

/-! # Jobs as effects -/

namespace Agentix.TaskStore

open Lib Relation List Option

variable {may : Ledger.Authority} {s s' : Snapshot}

/-! ## New Jobs and Tasks -/

variable {env : Env} {index : Fin s.jobs.length} {now : Int} {job row : Job} {review : Review}
  {request : Value} {options : WriteOptions}

theorem Advances.of_newJob (opened : job.Opened env)
    (fresh : ∀ old ∈ s.jobs, old.id ≠ env.newId "job" 0) :
    Advances may s { s with jobs := s.jobs ++ [job] } := by
  refine .one rfl ?_
  simp only [Snapshot.ledger, map_append, map_cons, map_nil]
  refine .addJob ?_ opened.status opened.unlinked ?_ opened.round
  · intro old' mem'
    obtain ⟨old, mem, rfl⟩ := mem_map.mp mem'
    exact fun same => fresh old mem (same.trans opened.id)
  · simp [Job.entry, opened.unmarked]

theorem Advances.of_newTask {j : Fin s.jobs.length} {t : Task}
    (active : (s.jobs.get j).status = .active) (fresh : ∀ old ∈ s.tasks, old.id ≠ t.id)
    (owned : t.jobId = (s.jobs.get j).id ∧ t.projectId = (s.jobs.get j).projectId)
    (idle : t.status = .todo ∧ t.phase = none ∧ t.startedAt = none ∧ t.completedAt = none)
    (inherited : t.dependencies = (s.jobs.get j).followupTaskIds) :
    Advances may s { s with tasks := s.tasks ++ [t] } := by
  refine .one rfl ?_
  simp only [Snapshot.ledger, map_append, map_cons, map_nil]
  refine .addTask (Snapshot.job_mem (get_mem s.jobs j)) active ?_ owned ?_ inherited
  · intro old' mem'
    obtain ⟨old, mem, rfl⟩ := mem_map.mp mem'
    exact fresh old mem
  · simp [Task.entry, idle]

theorem advances_addTask {reply : Reply} (fresh : ∀ old ∈ s.tasks, old.id ≠ env.newId "task" 0)
    (ok : addTask env s request options now = .ok (s', reply)) : Advances may s s' := by
  obtain ⟨j, t, active, added, _, rfl⟩ := addTask_inv ok
  refine Advances.andJob ?_ fun _ => rfl
  exact .of_newTask active (fun old mem => added.id ▸ fresh old mem) added.owned added.idle
    added.inherited

/-! ## Reviews -/

def finishedWith (job : String) (t : Ledger.Task) : Option TaskStatus :=
  if t.job = job ∧ t.status.terminal = false then some .done else none

theorem advances_finishTasks (consistent : Ledger.Consistent s.ledger) {job : String} (now : Int)
    (allowed : ∀ t ∈ s.tasks, t.jobId = job → may.touch s.ledger.leases t.entry) :
    Advances may s (finishTasks s job now) := by
  have tasks : ∀ t ∈ s.tasks, (if t.jobId = job ∧ !t.status.terminal then t.finishedByHuman now
      else t).entry = t.entry.stopped (finishedWith job) := by
    intro t mem
    by_cases stops : t.jobId = job ∧ t.status.terminal = false
    · rw [if_pos (by simpa using stops), Ledger.Task.stopped_some (if_pos stops)]
      rfl
    · rw [if_neg (by simpa using stops), Ledger.Task.stopped_none (if_neg stops)]
  refine .of_stop consistent (finishedWith job) _ rfl rfl rfl ?_ rfl ?_ ?_
  · simp only [finishTasks, Snapshot.ledger_tasks, List.map_map]
    exact map_congr_left tasks
  · intro l _ t mem holds
    have named : t.id = l.taskId := holds.task
    have working : t.status = .inProgress := holds.status
    have stops : finishedWith job t.entry = none ↔ t.jobId ≠ job := by
      simp [finishedWith, working, TaskStatus.terminal]
    rw [stops]
    simp only [Bool.not_eq_true', List.any_eq_false, Bool.and_eq_true, decide_eq_true_iff,
      List.forall_mem_map]
    constructor
    · intro absent owned
      refine absent t mem ?_
      split <;> exact ⟨owned, named⟩
    · intro other u u_mem found
      have same : u.id = t.id ∧ u.jobId = job := by
        split at found <;> exact ⟨found.2.trans named.symm, found.1⟩
      rw [← (distinct_tasks consistent.keyed).eq_of_key u_mem mem same.1] at other
      exact other same.2
  · intro t' mem' next stops
    obtain ⟨t, mem, rfl⟩ := mem_map.mp mem'
    simp only [finishedWith, ite_none_right_eq_some, some.injEq] at stops
    obtain ⟨⟨owned, unfinished⟩, rfl⟩ := stops
    exact ⟨by simp, unfinished, allowed t mem owned⟩

theorem finishTasks_ended (s : Snapshot) (job : String) (now : Int) :
    Ledger.Ended (finishTasks s job now).ledger job := by
  intro t' mem' owned
  obtain ⟨t, mem, rfl⟩ := mem_map.mp mem'
  obtain ⟨old, _, rfl⟩ := mem_map.mp mem
  split at owned
  · rename_i finished
    rw [if_pos finished]
    rfl
  · rename_i kept
    rw [if_neg kept]
    have home : old.jobId = job := owned
    simpa [home] using kept

/-- The preconditions of a review, by the outcome they allow. -/
def Review.Permits (review : Review) (L : Ledger.State) (job : Job) : Prop :=
  match review with
  | .submit => job.status = .active ∧ Ledger.Ready L job.id
  | .approve => job.status.terminal = false ∧ Ledger.Ended L job.id
  | .reject => job.status = .pendingReview

theorem reviewedJob_move {L : Ledger.State} (permits : review.Permits L job)
    (completion : Option ReviewPolicy) (reason : Option String) (now : Int) :
    Ledger.JobMove may L job.entry (reviewedJob job review completion reason now).entry := by
  cases review with
  | submit =>
    obtain ⟨active, ready⟩ := permits
    cases policy : readyStatus (completion.getD job.reviewPolicy) with
    | pendingReview =>
      have target : (reviewedJob job .submit completion reason now).entry =
          { job.entry with status := .pendingReview, completed := false } := by
        simp [reviewedJob, Job.entry, policy]
      rw [target]
      exact .submit active ready
    | completed =>
      have target : (reviewedJob job .submit completion reason now).entry =
          { job.entry with status := .completed, completed := true } := by
        simp [reviewedJob, Job.entry, policy]
      rw [target]
      exact .complete (by rw [Job.entry_status, active]; rfl) ready.ended
    | active => cases h : completion.getD job.reviewPolicy <;> simp [readyStatus, h] at policy
    | cancelled => cases h : completion.getD job.reviewPolicy <;> simp [readyStatus, h] at policy
  | approve =>
    obtain ⟨unfinished, ended⟩ := permits
    have target : (reviewedJob job .approve completion reason now).entry =
        { job.entry with status := .completed, completed := true } := by
      simp [reviewedJob, Job.entry]
    rw [target]
    exact .complete unfinished ended
  | reject =>
    have target : (reviewedJob job .reject completion reason now).entry =
        { job.entry with
          status := .active, completed := false, followup := job.entry.followup } := by
      simp [reviewedJob, Job.entry]
    rw [target]
    exact .activate permits (.inl rfl)

theorem reviewReason_ended {human acceptActive : Bool} {reason : Option String}
    (plain : s.queryContext = {})
    (ok : reviewReason s job.id review request human acceptActive = .ok reason)
    (machine : human = false) (accepts : review ≠ .reject) :
    Ledger.Ended s.ledger job.id ∧ (acceptActive = false → Ledger.Ready s.ledger job.id) := by
  simp only [reviewReason, if_neg accepts, machine, Bool.false_eq_true, if_false] at ok
  split at ok
  · rename_i acceptActive
    simp only [bind_ok, ensure_ok, pure_ok] at ok
    obtain ⟨_, ⟨_, ended⟩, _⟩ := ok
    refine ⟨?_, fun other => by rw [other] at acceptActive; cases acceptActive⟩
    intro t' mem' owned
    obtain ⟨t, mem, rfl⟩ := mem_map.mp mem'
    exact ended t mem owned
  · simp only [bind_ok, ensure_ok, pure_ok] at ok
    obtain ⟨_, ready, _⟩ := ok
    have ready := (jobReady_iff plain job.id).mp ready
    exact ⟨ready.ended, fun _ => ready⟩

theorem advances_reviewJob {obsidian : Bool} (consistent : Ledger.Consistent s.ledger)
    (plain : s.queryContext = {}) (allowed : obsidian = true → review = .approve → ∀ t ∈ s.tasks,
      t.jobId = (s.jobs.get index).id → may.touch s.ledger.leases t.entry)
    (ok : reviewJob s index review request now obsidian = .ok (s', row)) : Advances may s s' := by
  obtain ⟨rfl, completion, reason, reviewed⟩ := reviewJob_inv ok
  have status := reviewed.status
  have reasoned := reviewed.reasoned
  rw [reviewed.written]
  unfold reviewing at reasoned ⊢
  by_cases human : obsidian = true ∧ review = .approve
  · rw [if_pos human]
    obtain ⟨byHuman, rfl⟩ := human
    have finished := advances_finishTasks consistent now (allowed byHuman rfl)
    have unfinished : (s.jobs.get index).status.terminal = false := by
      rw [status]
      split <;> rfl
    have permits : Review.approve.Permits (finishTasks s (s.jobs.get index).id now).ledger
        (s.jobs.get index) := ⟨unfinished, finishTasks_ended s _ now⟩
    exact finished.trans (.of_jobMove (finished.consistent consistent).keyed
      (reviewedJob_move permits completion reason now))
  · rw [if_neg human] at reasoned ⊢
    refine .of_jobMove consistent.keyed (reviewedJob_move ?_ completion reason now)
    cases review with
    | submit =>
      obtain ⟨_, ready⟩ := reviewReason_ended plain reasoned (by simp) (by simp)
      exact ⟨by simpa using status, ready (by simp)⟩
    | approve =>
      obtain ⟨ended, _⟩ := reviewReason_ended plain reasoned (by simpa using human) (by simp)
      refine ⟨?_, ended⟩
      rw [status]
      split <;> rfl
    | reject => simpa [Review.Permits] using status

theorem advances_followupJob (keyed : Ledger.Keyed s.ledger)
    (ok : followupJob env s index request options now = .ok (s', row)) : Advances may s s' := by
  obtain ⟨_, _, pending, rfl, rfl⟩ := followupJob_inv ok
  refine .of_jobMove keyed (.activate pending (.inr ?_))
  intro d inRound
  obtain ⟨t, filtered, rfl⟩ := mem_map.mp inRound
  obtain ⟨mem, owned⟩ := mem_filter.mp filtered
  exact ⟨t.entry, Snapshot.task_mem mem, rfl, by simpa using owned⟩

/-! ## Other Job commands -/

/-- The Tasks that `job.cancel` stops. -/
def cancelledIn (job : String) (t : Ledger.Task) : Option TaskStatus :=
  if t.job = job ∧ t.status.terminal = false then some .cancelled else none

theorem advances_cancelJobTasks (consistent : Ledger.Consistent s.ledger)
    (unleased : ∀ t ∈ s.tasks, (∀ l ∈ s.leases, l.taskId ≠ t.id) → may.touch s.ledger.leases t.entry)
    (ok : cancelJobTasks s index now = .ok s') : Advances may s s' := by
  obtain ⟨_, free, rfl⟩ := cancelJobTasks_inv ok
  have tasks : ∀ t ∈ s.tasks, (if t.jobId = (s.jobs.get index).id ∧ !t.status.terminal then
      t.cancelledByJob now else t).entry =
        t.entry.stopped (cancelledIn (s.jobs.get index).id) := by
    intro t mem
    by_cases stops : t.jobId = (s.jobs.get index).id ∧ t.status.terminal = false
    · rw [if_pos (by simpa using stops), Ledger.Task.stopped_some (if_pos stops)]
      rfl
    · rw [if_neg (by simpa using stops), Ledger.Task.stopped_none (if_neg stops)]
  refine .of_stop consistent (cancelledIn (s.jobs.get index).id) (fun _ => true) rfl rfl rfl ?_
    (filter_true _).symm ?_ ?_
  · simp only [Snapshot.ledger_tasks, List.map_map]
    exact map_congr_left tasks
  · intro l lease t mem holds
    have elsewhere := free l lease t mem holds.task
    exact ⟨fun _ => if_neg fun stops => elsewhere stops.1, fun _ => rfl⟩
  · intro t' mem' next stops
    obtain ⟨t, mem, rfl⟩ := mem_map.mp mem'
    simp only [cancelledIn, ite_none_right_eq_some, some.injEq] at stops
    obtain ⟨⟨owned, unfinished⟩, rfl⟩ := stops
    refine ⟨by simp, unfinished, unleased t mem fun l lease named => ?_⟩
    exact free l lease t mem named.symm owned

theorem cancelJobTasks_ended (ok : cancelJobTasks s index now = .ok s') :
    (s.jobs.get index).status.terminal = false ∧
      Ledger.Ended s'.ledger (s.jobs.get index).id := by
  obtain ⟨unfinished, _, rfl⟩ := cancelJobTasks_inv ok
  refine ⟨unfinished, ?_⟩
  intro t' mem' owned
  obtain ⟨t, mem, rfl⟩ := mem_map.mp mem'
  obtain ⟨old, _, rfl⟩ := mem_map.mp mem
  split at owned
  · rename_i finished
    rw [if_pos finished]
    rfl
  · rename_i kept
    rw [if_neg kept]
    have home : old.jobId = (s.jobs.get index).id := owned
    simpa [home] using kept

theorem Job.stamped_entry (job : Job) (now : Int) : (job.stamped now).entry = job.entry := rfl

theorem updatedJob_entry {renamed : Option String} (ok : updatedJob env request job renamed = .ok row) :
    row.entry = job.entry := by
  obtain ⟨_, _, _, _, _, _, rfl⟩ := updatedJob_inv ok
  rfl

theorem archivedJob_move {L : Ledger.State} {directory : String} {archive : Bool}
    (ok : archivedJob env job directory now archive = .ok row) :
    Ledger.JobMove may L job.entry row.entry := by
  obtain ⟨ended, _, rfl⟩ := archivedJob_inv ok
  cases archive with
  | true => exact .archive fun _ => ended rfl
  | false => exact .archive fun archived => by cases archived

theorem advances_updateJob {command : JobCommand} (consistent : Ledger.Consistent s.ledger)
    (plain : s.queryContext = {})
    (unleased : ∀ t ∈ s.tasks, (∀ l ∈ s.leases, l.taskId ≠ t.id) → may.touch s.ledger.leases t.entry)
    (human : command = .approve → options.actorRef = "user:obsidian" →
      ∀ t ∈ s.tasks, may.touch s.ledger.leases t.entry)
    (ok : updateJob env s command request options now = .ok (s', row)) : Advances may s s' := by
  obtain ⟨i, _, _, edit⟩ := updateJob_inv ok
  cases edit with
  | review review asks reviews =>
    refine advances_reviewJob consistent plain (fun byHuman approves t mem _ => ?_) reviews
    subst approves
    exact human asks.symm (by simpa using byHuman) t mem
  | followup follows => exact advances_followupJob consistent.keyed follows
  | cancel stops ends =>
    have stopped := advances_cancelJobTasks consistent unleased stops
    have keyed := (stopped.consistent consistent).keyed
    obtain ⟨unfinished, ended⟩ := cancelJobTasks_ended stops
    obtain ⟨_, _, rfl⟩ := cancelJobTasks_inv stops
    subst ends
    exact stopped.trans (.of_jobMove keyed (.cancel unfinished ended))
  | update edits =>
    refine .of_jobRow ?_
    rw [Job.stamped_entry, updatedJob_entry edits]
  | @archive _ _ _ row _ moves =>
    have move : Ledger.JobMove may s.ledger (s.jobs.get i).entry row.entry := archivedJob_move moves
    exact .of_jobMove (f := fun _ => row.stamped now) consistent.keyed move

theorem advances_linkJob {reply : Reply} (consistent : Ledger.Consistent s.ledger)
    (ok : linkJob s job request now = .ok (s', reply)) : Advances may s s' := by
  exact advances_associate consistent (linkJob_inv ok).1

end Agentix.TaskStore

/-! # Projects, deletions and conversations as effects

Only a deletion reaches the ledger; the other commands change documents and names.
-/

namespace Agentix.TaskStore

open Lib Relation List

variable {may : Ledger.Authority} {s s' : Snapshot}

/-! ## Projects -/

variable {now : Int} {reply : Reply} {request : Value} {options : WriteOptions}

theorem advances_registerProject {env : Env}
    (ok : registerProject env s request now = .ok (s', reply)) : Advances may s s' := by
  obtain rfl | ⟨_, rfl, _⟩ := registerProject_inv ok
  · exact .refl
  · exact .unseen rfl rfl

theorem advances_moveProject {env : Env}
    (ok : moveProject env s request options = .ok (s', reply)) : Advances may s s' := by
  obtain ⟨_, _, rfl, _⟩ := moveProject_inv ok
  exact .unseen rfl rfl

theorem advances_archiveProject {archive : Bool}
    (ok : archiveProject s request options now archive = .ok (s', reply)) : Advances may s s' := by
  obtain ⟨_, _, rfl, _⟩ := archiveProject_inv ok
  exact .unseen rfl rfl

/-- A renamed Project folder moves documents, which the ledger does not see. -/
theorem advances_renameProject (ok : renameProject s request options = .ok (s', reply)) :
    Advances may s s' := by
  obtain ⟨_, _, same, _, moved⟩ := renameProject_inv ok
  obtain ⟨_, moveIssues, issueMoves⟩ := moved.issues
  obtain ⟨_, moveJobs, jobMoves⟩ := moved.jobs
  have issues : s'.issues.map Issue.entry = s.issues.map Issue.entry := by
    refine map_of_mapM_eq_ok (fun row row' edited => ?_) moveIssues
    obtain rfl | ⟨_, rfl⟩ := issueMoves row row' edited <;> rfl
  have jobs : s'.jobs.map Job.entry = s.jobs.map Job.entry := by
    refine map_of_mapM_eq_ok (fun row row' edited => ?_) moveJobs
    obtain rfl | ⟨_, rfl⟩ := jobMoves row row' edited <;> rfl
  rw [same]
  refine .unseen rfl ?_
  unfold Snapshot.ledger
  rw [issues, jobs]

/-! ## Deletion -/

theorem advances_applyDeletion {projectDelete : Bool} (consistent : Ledger.Consistent s.ledger)
    (ok : applyDeletion s request options projectDelete = .ok (s', reply)) : Advances may s s' := by
  obtain ⟨id, jobs, _, ⟨unleased, unneeded⟩, rfl⟩ := applyDeletion_inv ok
  have selected : ∀ t ∈ s.tasks, t.id ∈ (s.tasks.filter fun t => t.jobId ∈ jobs).map Task.id ↔
      t.jobId ∈ jobs := fun t mem => mem_taskIds consistent.keyed jobs mem
  have effect : ∀ keep, Ledger.Effect may s.ledger { s.ledger with
      jobs := s.ledger.jobs.filter fun job => job.id ∉ jobs
      tasks := s.ledger.tasks.filter fun t => t.job ∉ jobs
      issues := s.ledger.issues.filter keep } := by
    intro keep
    refine .delete ?_ ?_
    · intro t' mem' gone l' lease' same
      obtain ⟨t, mem, rfl⟩ := mem_map.mp mem'
      obtain ⟨l, lease, rfl⟩ := mem_map.mp lease'
      have named : l.taskId = t.id := same
      refine unleased l lease ?_
      rw [named]
      exact (selected t mem).mpr gone
    · intro t' mem' kept u' mem'' gone depends
      obtain ⟨t, mem, rfl⟩ := mem_map.mp mem'
      obtain ⟨u, u_mem, rfl⟩ := mem_map.mp mem''
      refine unneeded t mem ?_ u.id depends ((selected u u_mem).mpr gone)
      exact fun inTasks => kept ((selected t mem).mp inTasks)
  have keptJobs : (s.jobs.filter fun j => j.id ∉ jobs).map Job.entry =
      s.ledger.jobs.filter fun job => job.id ∉ jobs := by
    rw [Snapshot.ledger_jobs, filter_map]
    rfl
  have keptTasks : (s.tasks.filter fun t => t.id ∉ (s.tasks.filter fun t => t.jobId ∈ jobs).map
      Task.id).map Task.entry = s.ledger.tasks.filter fun t => t.job ∉ jobs := by
    rw [Snapshot.ledger_tasks, filter_map]
    congr 1
    refine filter_congr fun t mem => ?_
    exact decide_eq_decide.mpr (not_congr (selected t mem))
  cases projectDelete with
  | false =>
    refine .one rfl ?_
    have kept := effect fun _ => true
    rw [filter_true, ← keptJobs, ← keptTasks] at kept
    exact kept
  | true =>
    refine .one rfl ?_
    have kept := effect fun issue => issue.project ≠ id
    rw [Snapshot.ledger_issues, filter_map, ← keptJobs, ← keptTasks] at kept
    exact kept

/-! ## Conversations -/

theorem mergeMessages_entry {job merged : Job} {messages : List Value} {session : String}
    {ordered : Bool} {before : Option String} {recorded : Nat}
    (ok : mergeMessages job messages session now ordered before = .ok (merged, recorded)) :
    merged.entry = job.entry := by
  simp only [mergeMessages, bind_ok, pure_ok, Prod.mk.injEq] at ok
  obtain ⟨_, _, _, _, rfl, _⟩ := ok
  rfl

theorem promptedJob_entry (job : Job) (planning : Option String) :
    (promptedJob job planning).entry = job.entry := by
  unfold promptedJob
  cases planning with
  | none => rfl
  | some prompt => dsimp only; split <;> rfl

theorem recordedJob_entry (job : Job) (changed : Bool) (now : Int) :
    (recordedJob job changed now).entry = job.entry := by
  unfold recordedJob
  split <;> rfl

theorem advances_recordConversation
    (ok : recordConversation s request options now = .ok (s', reply)) :
    Advances may s s' := by
  obtain rfl | ⟨i, planning, _, _, _, _, merged, _, merges, rfl⟩ := recordConversation_inv ok
  · exact .refl
  · refine .of_jobRow ?_
    rw [recordedJob_entry, mergeMessages_entry merges, promptedJob_entry]

end Agentix.TaskStore
