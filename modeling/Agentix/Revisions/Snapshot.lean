import Agentix.Lib.Revisions
import Agentix.Refinement.Issue
import Agentix.TaskStore.Inversion

/-! # Revisions of a snapshot

`Follows drawn s s'` says that a change of the snapshot raised the revision of every Project,
Milestone, Issue, Job and Task that it changed, and that the rows it added have identifiers of
`drawn`.  Here it is shown for the changes that Issue, Milestone and Project commands make.
-/

namespace Agentix.TaskStore

open Lib

/-- The identifiers a command may give to new rows. -/
structure Drawn where
  project : String → Prop
  milestone : String → Prop
  issue : String → Prop
  job : String → Prop
  task : String → Prop

def drawnBy (env : Env) (request : Value) : Drawn where
  project := (· = env.newId "prj" 0)
  milestone := (· = env.newId "milestone" 0)
  issue id := request.command = .ok (.issue .create) ∧ id = createdIssue env request
  job := (· = env.newId "job" 0)
  task := (· = env.newId "task" 0)

def Drawn.none : Drawn :=
  ⟨fun _ => False, fun _ => False, fun _ => False, fun _ => False, fun _ => False⟩

/-- No row has an identifier that may be given. -/
structure Undrawn (drawn : Drawn) (s : Snapshot) : Prop where
  projects : ∀ p ∈ s.projects, ¬ drawn.project p.id
  milestones : ∀ m ∈ s.milestones, ¬ drawn.milestone m.id
  issues : ∀ issue ∈ s.issues, ¬ drawn.issue issue.id
  jobs : ∀ job ∈ s.jobs, ¬ drawn.job job.id
  tasks : ∀ t ∈ s.tasks, ¬ drawn.task t.id

theorem Undrawn.none (s : Snapshot) : Undrawn .none s :=
  ⟨fun _ _ => id, fun _ _ => id, fun _ _ => id, fun _ _ => id, fun _ _ => id⟩

structure Follows (drawn : Drawn) (s s' : Snapshot) : Prop where
  projects : Revises Project.id Project.revision drawn.project s.projects s'.projects
  milestones : Revises Milestone.id Milestone.revision drawn.milestone s.milestones s'.milestones
  issues : Revises Issue.id Issue.revision drawn.issue s.issues s'.issues
  jobs : Revises Job.id Job.revision drawn.job s.jobs s'.jobs
  tasks : Revises Task.id Task.revision drawn.task s.tasks s'.tasks

variable {drawn : Drawn} {s s' s'' : Snapshot}

namespace Follows

theorem refl : Follows drawn s s := ⟨.refl, .refl, .refl, .refl, .refl⟩

theorem trans (first : Follows drawn s s') (second : Follows drawn s' s'') : Follows drawn s s'' :=
  ⟨first.projects.trans second.projects, first.milestones.trans second.milestones,
    first.issues.trans second.issues, first.jobs.trans second.jobs,
    first.tasks.trans second.tasks⟩

theorem of_project {i : Fin s.projects.length} {row : Project}
    (raised : Raised Project.id Project.revision (s.projects.get i) row) :
    Follows drawn s { s with projects := s.projects.modify i fun _ => row } :=
  ⟨.replace raised, .refl, .refl, .refl, .refl⟩

theorem of_issue {i : Fin s.issues.length} {f : Issue → Issue}
    (raised : ∀ issue, Raised Issue.id Issue.revision issue (f issue)) :
    Follows drawn s (s.modifyIssue i f) :=
  ⟨.refl, .refl, .modify fun row _ => raised row, .refl, .refl⟩

theorem of_jobRow {j : Fin s.jobs.length} {row : Job}
    (raised : Raised Job.id Job.revision (s.jobs.get j) row) :
    Follows drawn s (s.modifyJob j fun _ => row) :=
  ⟨.refl, .refl, .refl, .replace raised, .refl⟩

theorem of_addedJob {row : Job} (added : drawn.job row.id) (positive : 0 < row.revision) :
    Follows drawn s { s with jobs := s.jobs ++ [row] } :=
  ⟨.refl, .refl, .refl, .append added positive, .refl⟩

end Follows

/-! ## Issues -/

variable {env : Env} {now : Int} {reply : Reply} {request : Value} {options : WriteOptions}

theorem Issue.activated_raised (issue : Issue) (now : Int) :
    Raised Issue.id Issue.revision issue (issue.activated now) := by
  unfold Issue.activated
  split
  · exact .up rfl (Int.lt_succ _)
  · exact .refl issue

theorem follows_activate (i : Fin s.issues.length) (now : Int) :
    Follows drawn s (activate s i now) :=
  .of_issue fun issue => issue.activated_raised now

theorem follows_cancelJobs (issue : String) (now : Int) :
    Follows drawn s (cancelJobs s issue now) := by
  refine ⟨.refl, .refl, .refl, .map fun job _ => ?_, .map fun t _ => ?_⟩
  · split
    · exact .up rfl (Int.lt_succ _)
    · exact .refl job
  · split
    · exact .up rfl (Int.lt_succ _)
    · exact .refl t

theorem follows_createIssue (named : request.command = .ok (.issue .create))
    (ok : createIssue env s request now = .ok (s', reply)) :
    Follows (drawnBy env request) s s' := by
  obtain ⟨_, _, issue, opened, rfl, _⟩ := createIssue_inv ok
  exact ⟨.refl, .refl, .append ⟨named, opened.id⟩ (opened.revision ▸ Int.one_pos), .refl, .refl⟩

theorem follows_applyIssue {command : IssueCommand} (named : request.command = .ok (.issue command))
    (ok : applyIssue env s command request options now = .ok (s', reply)) :
    Follows (drawnBy env request) s s' := by
  obtain ⟨rfl, creates⟩ | ⟨_, i, _, _, edit⟩ := applyIssue_inv ok
  · exact follows_createIssue named creates
  · cases edit with
    | start => exact follows_activate i now
    | @move _ _ _ _ row _ moves =>
      obtain ⟨same, _⟩ := issueTransition_keeps moves
      have raised : Raised Issue.id Issue.revision (s.issues.get i) (row.stamped now) :=
        .up same.id (same.revision ▸ Int.lt_succ _)
      have write : Follows (drawnBy env request) s (s.modifyIssue i fun _ => row.stamped now) :=
        ⟨.refl, .refl, .replace raised, .refl, .refl⟩
      by_cases cancelling : command = .cancel
      · rw [if_pos cancelling]
        have cancels : Follows (drawnBy env request) s (cancelJobs s (s.issues.get i).id now) :=
          follows_cancelJobs _ now
        exact ⟨.refl, .refl, write.issues, cancels.jobs, cancels.tasks⟩
      · rw [if_neg cancelling]
        exact write

/-! ## Milestones -/

theorem updatedMilestone_row {original row : Milestone}
    (ok : updatedMilestone env s request original = .ok row) :
    row.id = original.id ∧ row.revision = original.revision := by
  simp only [updatedMilestone, bind_ok, pure_ok] at ok
  obtain ⟨_, _, _, _, _, _, _, _, rfl⟩ := ok
  split <;> exact ⟨rfl, rfl⟩

theorem milestoneTransition_row {directory : String} {original row : Milestone}
    {command : MilestoneCommand}
    (ok : milestoneTransition env s directory now original command = .ok row) :
    row.id = original.id ∧ row.revision = original.revision := by
  cases command with
  | archive =>
    simp only [milestoneTransition, milestoneTransition.archiveMilestone, bind_ok,
      ensure_ok, pure_ok] at ok
    obtain ⟨_, _, _, _, _, _, rfl⟩ := ok
    exact ⟨rfl, rfl⟩
  | unarchive =>
    simp only [milestoneTransition, milestoneTransition.archiveMilestone, bind_ok,
      ensure_ok, pure_ok] at ok
    obtain ⟨_, _, _, _, _, _, rfl⟩ := ok
    exact ⟨rfl, rfl⟩
  | complete =>
    simp only [milestoneTransition, bind_ok, ensure_ok, pure_ok] at ok
    obtain ⟨_, _, _, _, rfl⟩ := ok
    exact ⟨rfl, rfl⟩
  | start =>
    simp only [milestoneTransition, bind_ok, ensure_ok, pure_ok] at ok
    obtain ⟨_, _, rfl⟩ := ok
    exact ⟨rfl, rfl⟩
  | cancel =>
    simp only [milestoneTransition, bind_ok, ensure_ok, pure_ok] at ok
    obtain ⟨_, _, rfl⟩ := ok
    exact ⟨rfl, rfl⟩
  | reopen =>
    simp only [milestoneTransition, bind_ok, ensure_ok, pure_ok] at ok
    obtain ⟨_, _, rfl⟩ := ok
    exact ⟨rfl, rfl⟩
  | create => cases ok
  | update => cases ok
  | delete => cases ok
  | unknown => cases ok

theorem follows_applyMilestone {command : MilestoneCommand}
    (ok : applyMilestone env s command request options now = .ok (s', reply)) :
    Follows (drawnBy env request) s s' := by
  obtain ⟨_, creates⟩ | ⟨_, i, _, _, edit⟩ := applyMilestone_inv ok
  · obtain ⟨_, rfl, id, revision⟩ := createMilestone_inv creates
    exact ⟨.refl, .append id (revision ▸ Int.one_pos), .refl, .refl, .refl⟩
  · have write : ∀ row : Milestone, row.id = (s.milestones.get i).id ∧
        row.revision = (s.milestones.get i).revision → Follows (drawnBy env request) s
          { s with milestones := s.milestones.modify i fun _ => row.stamped now } := by
      rintro row ⟨id, revision⟩
      exact ⟨.refl, .replace (.up id (revision ▸ Int.lt_succ _)), .refl, .refl, .refl⟩
    cases edit with
    | delete =>
      exact ⟨.refl, .of_subset fun _ mem => List.mem_of_mem_eraseIdx mem, .refl, .refl, .refl⟩
    | update edits => exact write _ (updatedMilestone_row edits)
    | move moves => exact write _ (milestoneTransition_row moves)

/-! ## Projects -/

theorem ProjectWritten.raised {i : Fin s.projects.length} {row : Project}
    (written : ProjectWritten s request options i row) :
    Raised Project.id Project.revision (s.projects.get i) row :=
  .up written.id (written.revision ▸ Int.lt_succ _)

theorem follows_registerProject (ok : registerProject env s request now = .ok (s', reply)) :
    Follows (drawnBy env request) s s' := by
  obtain rfl | ⟨_, rfl, id, revision⟩ := registerProject_inv ok
  · exact .refl
  · exact ⟨.append id (revision ▸ Int.one_pos), .refl, .refl, .refl, .refl⟩

theorem follows_moveProject (ok : moveProject env s request options = .ok (s', reply)) :
    Follows drawn s s' := by
  obtain ⟨_, _, rfl, written⟩ := moveProject_inv ok
  exact .of_project written.raised

theorem follows_archiveProject {archive : Bool}
    (ok : archiveProject s request options now archive = .ok (s', reply)) :
    Follows drawn s s' := by
  obtain ⟨_, _, rfl, written⟩ := archiveProject_inv ok
  exact .of_project written.raised

theorem follows_renameProject (ok : renameProject s request options = .ok (s', reply)) :
    Follows drawn s s' := by
  obtain ⟨_, _, same, written, moved⟩ := renameProject_inv ok
  obtain ⟨_, moveIssues, issues⟩ := moved.issues
  obtain ⟨_, moveMilestones, milestones⟩ := moved.milestones
  obtain ⟨_, moveJobs, jobs⟩ := moved.jobs
  rw [same]
  refine ⟨.replace written.raised, .mapM moveMilestones fun row row' edited => ?_,
    .mapM moveIssues fun row row' edited => ?_, .mapM moveJobs fun row row' edited => ?_, .refl⟩
  · obtain rfl | ⟨_, rfl⟩ := milestones row row' edited
    · exact .refl row'
    · exact .up rfl (Int.lt_succ _)
  · obtain rfl | ⟨_, rfl⟩ := issues row row' edited
    · exact .refl row'
    · exact .up rfl (Int.lt_succ _)
  · obtain rfl | ⟨_, rfl⟩ := jobs row row' edited
    · exact .refl row'
    · exact .up rfl (Int.lt_succ _)

theorem follows_applyDeletion {projectDelete : Bool}
    (ok : applyDeletion s request options projectDelete = .ok (s', reply)) :
    Follows drawn s s' := by
  obtain ⟨_, _, _, _, rfl⟩ := applyDeletion_inv ok
  split
  · exact ⟨.filter, .filter, .filter, .filter, .filter⟩
  · exact ⟨.refl, .refl, .refl, .filter, .filter⟩

end Agentix.TaskStore
