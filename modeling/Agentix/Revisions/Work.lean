import Agentix.Revisions.Snapshot
import Agentix.Refinement.Task

/-! # Revisions of Jobs and Tasks

The commands that raise a revision in one place and change the row in another: Jobs linked to
an Issue after their update, Tasks stamped after their change.
-/

namespace Agentix.TaskStore

open Lib List

variable {drawn : Drawn} {s s' : Snapshot}

/-! ## Jobs -/

/-- One Job row is rewritten under the next revision, and Tasks only move forward with it. -/
structure JobWritten (s s' : Snapshot) (row : Job) : Prop where
  jobs : ∃ i : Fin s.jobs.length, s'.jobs = s.jobs.modify i (fun _ => row) ∧
    row.id = (s.jobs.get i).id ∧ row.revision = (s.jobs.get i).revision + 1
  tasks : ∀ new, Revises Task.id Task.revision new s.tasks s'.tasks
  projects : s'.projects = s.projects
  milestones : s'.milestones = s.milestones
  issues : s'.issues = s.issues

namespace JobWritten

variable {row : Job}

theorem follows (written : JobWritten s s' row) : Follows drawn s s' := by
  obtain ⟨i, jobs, id, revision⟩ := written.jobs
  refine ⟨?_, ?_, ?_, ?_, written.tasks _⟩
  · exact written.projects ▸ .refl
  · exact written.milestones ▸ .refl
  · exact written.issues ▸ .refl
  · rw [jobs]
    exact .replace (.up id (revision ▸ Int.lt_succ _))

theorem ahead (written : JobWritten s s' row) (distinct : Distinct Job.id s.jobs) :
    Ahead Job.id Job.revision row.id s.jobs s'.jobs := by
  obtain ⟨i, jobs, id, revision⟩ := written.jobs
  rw [jobs]
  exact .replace distinct id (revision ▸ Int.lt_succ _)

theorem present (written : JobWritten s s' row) : row ∈ s'.jobs := by
  obtain ⟨i, jobs, _, _⟩ := written.jobs
  exact jobs ▸ modify_mem i _

end JobWritten

variable {now : Int} {job row : Job} {request : Value}

theorem finishTasks_raised (jobId : String) (now : Int) {new : String → Prop} :
    Revises Task.id Task.revision new s.tasks (finishTasks s jobId now).tasks := by
  refine .map fun t _ => ?_
  split
  · exact .up rfl (Int.lt_succ _)
  · exact .refl t

theorem jobWritten_reviewJob {index : Fin s.jobs.length} {review : Review} {obsidian : Bool}
    (ok : reviewJob s index review request now obsidian = .ok (s', row)) :
    JobWritten s s' row := by
  obtain ⟨rfl, _, _, reviewed⟩ := reviewJob_inv ok
  have same : row.id = (s.jobs.get index).id ∧ row.revision = (s.jobs.get index).revision + 1 :=
    reviewed.written ▸ ⟨rfl, rfl⟩
  unfold reviewing
  split
  · exact ⟨⟨index, rfl, same⟩, fun _ => finishTasks_raised _ now, rfl, rfl, rfl⟩
  · exact ⟨⟨index, rfl, same⟩, fun _ => .refl, rfl, rfl, rfl⟩

theorem jobWritten_updateJob {env : Env} {command : JobCommand} {options : WriteOptions}
    (ok : updateJob env s command request options now = .ok (s', row)) : JobWritten s s' row := by
  obtain ⟨i, _, _, edit⟩ := updateJob_inv ok
  cases edit with
  | review _ _ reviews => exact jobWritten_reviewJob reviews
  | followup follows =>
    obtain ⟨_, _, _, rfl, rfl⟩ := followupJob_inv follows
    exact ⟨⟨i, rfl, rfl, rfl⟩, fun _ => .refl, rfl, rfl, rfl⟩
  | cancel stops ends =>
    obtain ⟨_, _, rfl⟩ := cancelJobTasks_inv stops
    subst ends
    refine ⟨⟨i, rfl, rfl, rfl⟩, fun _ => .map fun t _ => ?_, rfl, rfl, rfl⟩
    split
    · exact .up rfl (Int.lt_succ _)
    · exact .refl t
  | update edits =>
    obtain ⟨_, _, _, _, _, _, rfl⟩ := updatedJob_inv edits
    exact ⟨⟨i, rfl, rfl, rfl⟩, fun _ => .refl, rfl, rfl, rfl⟩
  | archive _ _ moves =>
    obtain ⟨_, _, rfl⟩ := archivedJob_inv moves
    exact ⟨⟨i, rfl, rfl, rfl⟩, fun _ => .refl, rfl, rfl, rfl⟩

/-! ## Linking a Job -/

/-- Linking changes the Job's row without raising it, and may activate the Issue. -/
theorem associate_rows {job : String} (ok : associate s job request now = .ok s') :
    (s'.jobs = s.jobs ∨ ∃ j issueId, s.jobIndex job = .ok j ∧
      s'.jobs = s.jobs.modify j (fun job => { job with issueId })) ∧
    Follows drawn s { s' with jobs := s.jobs } := by
  cases associate_inv ok with
  | keep => exact ⟨.inl rfl, .refl⟩
  | @unlink j found => exact ⟨.inr ⟨j, none, found, rfl⟩, .refl⟩
  | @closed j _ found => exact ⟨.inr ⟨j, _, found, rfl⟩, .refl⟩
  | @link j _ _ _ found => exact ⟨.inr ⟨j, _, found, rfl⟩, .refl⟩
  | @activate j i _ _ found =>
    have activates : Follows drawn s (activate s i now) := follows_activate i now
    exact ⟨.inr ⟨j, _, found, rfl⟩, .refl, .refl, activates.issues, .refl, .refl⟩

theorem follows_linkJob {mid : Snapshot} {reply : Reply} (before : Follows drawn s mid)
    (ahead : Ahead Job.id Job.revision job.id s.jobs mid.jobs)
    (present : ∃ row ∈ mid.jobs, row.id = job.id)
    (ok : linkJob mid job request now = .ok (s', reply)) :
    Follows drawn s s' ∧ Ahead Job.id Job.revision job.id s.jobs s'.jobs ∧
      ∃ row ∈ s'.jobs, reply = .job row ∧ row.id = job.id := by
  obtain ⟨links, i, found, rfl⟩ := linkJob_inv ok
  obtain ⟨jobs, rest⟩ : _ ∧ Follows drawn mid { s' with jobs := mid.jobs } := associate_rows links
  have kept : Revises Job.id Job.revision drawn.job s.jobs s'.jobs ∧
      Ahead Job.id Job.revision job.id s.jobs s'.jobs ∧ ∃ row ∈ s'.jobs, row.id = job.id := by
    cases jobs with
    | inl same =>
      rw [same]
      exact ⟨before.jobs, ahead, present⟩
    | inr edited =>
      obtain ⟨j, issueId, selected, same⟩ := edited
      rw [same]
      have here : ∀ row, mid.jobs[(j : Nat)]? = some row → row.id = job.id := by
        intro row place
        have get : mid.jobs.get j = row := by simpa using place
        exact get ▸ resolve_exact selected present
      refine ⟨before.jobs.modify_ahead ahead fun row place => ?_,
        ahead.modify fun _ => ⟨rfl, Int.le_refl _⟩, _, modify_mem j _, ?_⟩
      · exact ⟨here row place, here row place, Int.le_refl _⟩
      · exact here (mid.jobs.get j) (by simp)
  refine ⟨?_, kept.2.1, _, get_mem _ _, rfl, resolve_exact found kept.2.2⟩
  have others := before.trans rest
  exact ⟨others.projects, others.milestones, others.issues, kept.1, others.tasks⟩

/-! ## Tasks -/

/-- What a Task command changes before the common bookkeeping raises the revisions: the row of its
Task, the row of its Job, and Issues that it activates. -/
structure TaskChanged (s s' : Snapshot) (i j : Nat) : Prop where
  task : ∃ f : Task → Task, s'.tasks = s.tasks.modify i f ∧
    ∀ t, (f t).id = t.id ∧ (f t).revision = t.revision
  job : ∃ g : Job → Job, s'.jobs = s.jobs.modify j g ∧
    ∀ job, (g job).id = job.id ∧ (g job).revision = job.revision
  issues : ∀ new, Revises Issue.id Issue.revision new s.issues s'.issues
  projects : s'.projects = s.projects
  milestones : s'.milestones = s.milestones

namespace TaskChanged

variable {i j : Nat}

theorem refl : TaskChanged s s i j :=
  ⟨⟨id, (modify_id i s.tasks).symm, fun _ => ⟨rfl, rfl⟩⟩,
    ⟨id, (modify_id j s.jobs).symm, fun _ => ⟨rfl, rfl⟩⟩, fun _ => .refl, rfl, rfl⟩

theorem of_task {f : Task → Task} (keeps : ∀ t, (f t).id = t.id ∧ (f t).revision = t.revision)
    (tasks : s'.tasks = s.tasks.modify i f) (jobs : s'.jobs = s.jobs)
    (issues : s'.issues = s.issues) (projects : s'.projects = s.projects)
    (milestones : s'.milestones = s.milestones) : TaskChanged s s' i j :=
  ⟨⟨f, tasks, keeps⟩, ⟨id, jobs.trans (modify_id j s.jobs).symm, fun _ => ⟨rfl, rfl⟩⟩,
    fun _ => issues ▸ .refl, projects, milestones⟩

theorem follows {f : Task → Task} {g : Job → Job} {after : Snapshot}
    (changed : TaskChanged s s' i j)
    (stamps : ∀ t, (f t).id = t.id ∧ t.revision < (f t).revision)
    (raises : ∀ job, (g job).id = job.id ∧ job.revision < (g job).revision)
    (tasks : after.tasks = s'.tasks.modify i f) (jobs : after.jobs = s'.jobs.modify j g)
    (issues : after.issues = s'.issues) (projects : after.projects = s'.projects)
    (milestones : after.milestones = s'.milestones) : Follows drawn s after := by
  obtain ⟨f₀, tasks₀, keeps⟩ := changed.task
  obtain ⟨g₀, jobs₀, keeps'⟩ := changed.job
  refine ⟨?_, ?_, ?_, ?_, ?_⟩
  · rw [projects, changed.projects]
    exact .refl
  · rw [milestones, changed.milestones]
    exact .refl
  · rw [issues]
    exact changed.issues _
  · rw [jobs, jobs₀, modify_modify_eq]
    refine .modify fun row _ => .up ?_ ?_
    · exact (raises _).1.trans (keeps' row).1
    · exact (keeps' row).2 ▸ (raises (g₀ row)).2
  · rw [tasks, tasks₀, modify_modify_eq]
    refine .modify fun row _ => .up ?_ ?_
    · exact (stamps _).1.trans (keeps row).1
    · exact (keeps row).2 ▸ (stamps (f₀ row)).2

end TaskChanged

variable {env : Env} {i : Fin s.tasks.length} {now : Int} {j : Nat} {reply : Reply}
  {command : TaskCommand} {request : Value}

theorem startIssue_rows {issue : Option String} (ok : startIssue s issue now = .ok s') :
    s'.tasks = s.tasks ∧ s'.jobs = s.jobs ∧ s'.projects = s.projects ∧
      s'.milestones = s.milestones ∧
      ∀ new, Revises Issue.id Issue.revision new s.issues s'.issues := by
  obtain rfl | ⟨_, _, _, rfl⟩ := startIssue_inv ok
  · exact ⟨rfl, rfl, rfl, rfl, fun _ => .refl⟩
  · exact ⟨rfl, rfl, rfl, rfl, fun _ => .modify fun row _ => row.activated_raised now⟩

theorem taskChanged_startTask {j : Fin s.jobs.length} (ok : startTask s i j now = .ok s') :
    TaskChanged s s' i j := by
  obtain ⟨started, starts, _, _, rfl⟩ := startTask_inv ok
  obtain ⟨tasks, jobs, projects, milestones, issues⟩ := startIssue_rows starts
  exact ⟨⟨_, congrArg (modify · i _) tasks, fun _ => ⟨rfl, rfl⟩⟩,
    ⟨_, congrArg (modify · j _) jobs, fun _ => ⟨rfl, rfl⟩⟩, issues, projects, milestones⟩

theorem taskChanged_dependTask {depend : Bool} (ok : dependTask s i request depend = .ok s') :
    TaskChanged s s' i j := by
  obtain ⟨d, _, ⟨_, rfl⟩ | rfl⟩ := dependTask_inv ok
  · refine .of_task (fun t => ?_) rfl rfl rfl rfl rfl
    split <;> exact ⟨rfl, rfl⟩
  · exact .of_task (f := fun t => { t with dependencies := t.dependencies.filter _ })
      (fun _ => ⟨rfl, rfl⟩) rfl rfl rfl rfl rfl

theorem taskChanged_leaveTask {finishHuman : Bool}
    (ok : leaveTask s i command request now finishHuman = .ok s') : TaskChanged s s' i j := by
  obtain ⟨_, reason, rfl⟩ := leaveTask_inv ok
  exact .of_task (f := fun t => { t with
      completedAt := if (leavingStatus command).terminal then some now else none
      status := leavingStatus command, phase := none, reason, systemBlock := false })
    (fun _ => ⟨rfl, rfl⟩) rfl rfl rfl rfl rfl

theorem taskChanged_changeTask {j : Fin s.jobs.length} {finishHuman : Bool}
    (edit : TaskEdit env s i j request now finishHuman command s') : TaskChanged s s' i j := by
  cases edit with
  | claim claims =>
    obtain ⟨executor, session, delegatedBy, _, _, rfl⟩ := claim_inv claims
    exact .of_task (f := fun t => t.claimedBy executor session delegatedBy) (fun _ => ⟨rfl, rfl⟩)
      rfl rfl rfl rfl rfl
  | start starts => exact taskChanged_startTask starts
  | heartbeat =>
    have same : TaskChanged s s i j := .refl
    exact ⟨same.task, same.job, same.issues, rfl, rfl⟩
  | update edits =>
    obtain ⟨_, name, title, position, rfl⟩ := editTask_inv edits
    exact .of_task (f := fun t => { t with name, title := title.getD t.title, position })
      (fun _ => ⟨rfl, rfl⟩) rfl rfl rfl rfl rfl
  | depend _ _ depends => exact taskChanged_dependTask depends
  | resume _ _ resumes =>
    obtain ⟨_, _, rfl⟩ := resumeTask_inv resumes
    exact ⟨⟨Task.resumed, rfl, fun _ => ⟨rfl, rfl⟩⟩, ⟨Job.reopened, rfl, fun _ => ⟨rfl, rfl⟩⟩,
      fun _ => .refl, rfl, rfl⟩
  | leave _ leaves => exact taskChanged_leaveTask leaves

theorem aggregatedJob_row (job : Job) (wasReady ready : Bool) (now : Int) :
    (aggregatedJob job wasReady ready now).id = job.id ∧
      (aggregatedJob job wasReady ready now).revision = job.revision + 1 := by
  unfold aggregatedJob
  split <;> exact ⟨rfl, rfl⟩

theorem follows_updateTask {options : WriteOptions}
    (ok : updateTask env s command request options now = .ok (s', reply)) :
    Follows drawn s s' := by
  obtain ⟨i, j, _, ⟨_, plans⟩ | ⟨changed, completed, written⟩⟩ := updateTask_inv ok
  · obtain ⟨_, _, rfl⟩ := registerPlan_inv plans
    exact ⟨.refl, .refl, .refl, .refl, .modify fun _ _ => .up rfl (Int.lt_succ _)⟩
  · obtain ⟨changes, ⟨policy, rfl⟩, rfl⟩ := written
    refine (taskChanged_changeTask changes).follows (f := fun t => t.stamped now)
      (g := fun job => aggregatedJob (job.underPolicy policy) _ _ now) ?_ ?_ rfl
      (modify_modify_eq (Job.underPolicy policy) _ j changed.jobs) rfl rfl rfl
    · exact fun t => ⟨rfl, Int.lt_succ _⟩
    · intro job
      obtain ⟨id, revision⟩ := aggregatedJob_row (job.underPolicy policy) _ _ now
      exact ⟨id, revision ▸ Int.lt_succ _⟩

theorem follows_addTask {options : WriteOptions}
    (ok : addTask env s request options now = .ok (s', reply)) :
    Follows (drawnBy env request) s s' := by
  obtain ⟨j, t, _, added, _, rfl⟩ := addTask_inv ok
  exact ⟨.refl, .refl, .refl, .modify fun _ _ => .up rfl (Int.lt_succ _),
    .append added.id (added.revision ▸ Int.one_pos)⟩

/-! ## Sessions -/

theorem follows_systemBlock {reason : String} :
    Follows drawn s (systemBlock s i reason now) :=
  ⟨.refl, .refl, .refl, .refl, .modify fun _ _ => .up rfl (Int.lt_succ _)⟩

theorem follows_sessionTask {command : SessionCommand} {session : String} :
    Follows drawn s (sessionTask env s i command session now).1 := by
  have blocks : ∀ reason, Follows drawn s
      (if (s.tasks.get i).status = .inProgress then (systemBlock s i reason now, true)
        else (s, false)).1 := by
    intro reason
    split
    · exact follows_systemBlock
    · exact .refl
  cases command with
  | finish => exact blocks _
  | interrupt => exact blocks _
  | heartbeat => exact ⟨.refl, .refl, .refl, .refl, .refl⟩
  | start =>
    simp only [sessionTask]
    split
    · split
      · rename_i claimed claims
        obtain ⟨_, _, _, _, _, rfl⟩ := claim_inv claims
        refine ⟨.refl, .refl, .refl, .refl, ?_⟩
        simp only [Snapshot.modifyTask, modify_modify_eq]
        exact .modify fun _ _ => .up rfl (Int.lt_succ _)
      · exact .refl
    · exact .refl

theorem follows_sessionLoop {command : SessionCommand} {session : String} {host : Option String}
    {indices : List Nat} {changed : List String} :
    Follows drawn s (sessionLoop env command session host now indices s changed).1 := by
  induction indices generalizing s changed with
  | nil => exact .refl
  | cons i rest ih =>
    simp only [sessionLoop]
    split
    · split
      · exact follows_sessionTask.trans ih
      · exact ih
    · exact .refl

theorem follows_applySession {command : SessionCommand}
    (ok : applySession env s command request now = .ok (s', reply)) :
    Follows drawn s s' := by
  obtain ⟨_, _, _, rfl⟩ := applySession_inv ok
  exact follows_sessionLoop

theorem follows_reapTasks {tasks : List String} (ok : reapTasks now tasks s = .ok s') :
    Follows drawn s s' := by
  induction tasks generalizing s with
  | nil =>
    cases ok
    exact .refl
  | cons task rest ih =>
    simp only [reapTasks, bind_ok] at ok
    obtain ⟨i, _, ok⟩ := ok
    exact follows_systemBlock.trans (ih ok)

end Agentix.TaskStore
