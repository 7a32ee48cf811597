import Agentix.TaskStore.Mutations

/-! # What a successful command did

Each lemma reads off a command that succeeded which row it named, what it checked and which rows it
wrote, so that the proofs about commands do not open their definitions.
-/

namespace Agentix.TaskStore

open Lib List

variable {env : Env} {s s' : Snapshot} {request : Value} {options : WriteOptions} {now : Int}
  {reply : Reply}

theorem required_index {value : Value} {key text : String} (ok : required value key = .ok text) :
    (value.index key).asStr = some text := by
  obtain ⟨found, _⟩ := required_eq_ok.mp ok
  unfold Value.index
  cases get : value.get? key with
  | none => simp [get] at found
  | some field => simpa [get] using found

/-! ## Issues -/

/-- The identifier of an Issue that the request creates. -/
def createdIssue (env : Env) (request : Value) : String :=
  (request.index "id").asStr.getD (env.newId "issue" 0)

/-- An Issue that has just been created, under the identifier of the request and a name of its own. -/
structure Issue.Opened (env : Env) (s : Snapshot) (request : Value) (project : Project)
    (title : String) (issue : Issue) : Prop where
  id : issue.id = createdIssue env request
  home : issue.projectId = project.id
  name : issue.name = entityName env s project.id "issue" none title
  status : issue.status = .todo
  revision : issue.revision = 1

theorem createIssue_inv (ok : createIssue env s request now = .ok (s', reply)) :
    ∃ (p : Fin s.projects.length) (title : String) (issue : Issue),
      issue.Opened env s request (s.projects.get p) title ∧
      s' = { s with issues := s.issues ++ [issue] } ∧ reply = .issue issue := by
  simp only [createIssue, bind_ok, pure_ok, Prod.mk.injEq] at ok
  obtain ⟨_, _, p, _, _, _, title, _, _, _, _, _, _, _, _, _, _, _, rfl, rfl⟩ := ok
  exact ⟨p, _, _, ⟨rfl, rfl, rfl, rfl, rfl⟩, rfl, rfl⟩

/-- The row of an Issue after its transition. -/
def Issue.stamped (issue : Issue) (now : Int) : Issue :=
  { issue with revision := issue.revision + 1, updatedAt := now }

/-- What an Issue command other than `issue.create` did to the Issue it names. -/
inductive IssueEdit (env : Env) (s : Snapshot) (request : Value) (options : WriteOptions)
    (now : Int) (i : Fin s.issues.length) : IssueCommand → Snapshot → Prop where
  | start : IssueEdit env s request options now i .start (activate s i now)
  | move {command : IssueCommand} {project : Project} {renamed milestone : Option String}
      {row : Issue} (other : command ≠ .start)
      (moves : issueTransition env s request options now project (s.issues.get i) renamed milestone
        command = .ok row) :
      IssueEdit env s request options now i command
        ((if command = .cancel then cancelJobs s (s.issues.get i).id now else s).modifyIssue i
          fun _ => row.stamped now)

theorem applyIssue_inv {command : IssueCommand}
    (ok : applyIssue env s command request options now = .ok (s', reply)) :
    (command = .create ∧ createIssue env s request now = .ok (s', reply)) ∨
    (command ≠ .create ∧ ∃ i, (required request "issue" >>= s.issueIndex) = .ok i ∧
      checkRevision (s.issues.get i).revision options = .ok () ∧
      IssueEdit env s request options now i command s') := by
  simp only [applyIssue, bind_ok] at ok
  obtain ⟨_, _, ok⟩ := ok
  by_cases creating : command = .create
  · rw [if_pos creating] at ok
    exact .inl ⟨creating, ok⟩
  · rw [if_neg creating] at ok
    simp only [bind_ok] at ok
    obtain ⟨query, asked, i, found, _, checked, _, _, _, _, _, _, _, _, _, _, _, _, ok⟩ := ok
    refine .inr ⟨creating, i, bind_ok.mpr ⟨query, asked, found⟩, checked, ?_⟩
    by_cases starting : command = .start
    · subst starting
      simp only [if_true, bind_ok, pure_ok, Prod.mk.injEq] at ok
      obtain ⟨_, _, _, _, rfl, _⟩ := ok
      exact .start
    · simp only [if_neg starting, bind_ok, pure_ok, Prod.mk.injEq] at ok
      obtain ⟨row, moves, rfl, _⟩ := ok
      exact .move starting moves

/-- How `associate` linked the Job: not at all, to no Issue, or to one that, where the Job is open,
accepts work and starts with the Job. -/
inductive Association (s : Snapshot) (job : String) (now : Int) : Snapshot → Prop where
  | keep : Association s job now s
  | unlink {j : Fin s.jobs.length} (found : s.jobIndex job = .ok j) :
      Association s job now (s.modifyJob j fun job => { job with issueId := none })
  | closed {j : Fin s.jobs.length} {i : Fin s.issues.length} (found : s.jobIndex job = .ok j)
      (ended : (s.jobs.get j).status.terminal = true) :
      Association s job now
        (s.modifyJob j fun job => { job with issueId := some (s.issues.get i).id })
  | link {j : Fin s.jobs.length} {i k : Fin s.issues.length} {query : String}
      (found : s.jobIndex job = .ok j) (named : s.issueIndex query = .ok i)
      (accepts : writable s (s.issues.get i).id = .ok k) :
      Association s job now
        (s.modifyJob j fun job => { job with issueId := some (s.issues.get i).id })
  | activate {j : Fin s.jobs.length} {i k : Fin s.issues.length} {query : String}
      (found : s.jobIndex job = .ok j) (named : s.issueIndex query = .ok i)
      (accepts : writable s (s.issues.get i).id = .ok k) :
      Association s job now (TaskStore.activate
        (s.modifyJob j fun job => { job with issueId := some (s.issues.get i).id }) i now)

theorem associate_inv {job : String} (ok : associate s job request now = .ok s') :
    Association s job now s' := by
  unfold associate at ok
  split at ok
  · cases ok
    exact .keep
  · simp only [bind_ok] at ok
    obtain ⟨j, found, ok⟩ := ok
    split at ok
    · simp only [pure_ok] at ok
      subst ok
      exact .unlink found
    · simp only [bind_ok] at ok
      obtain ⟨_, _, i, named, _, _, _, _, _, _, ok⟩ := ok
      split at ok
      · rename_i ended
        simp only [pure_ok] at ok
        subst ok
        exact .closed found ended
      · simp only [bind_ok, pure_ok] at ok
        obtain ⟨k, accepts, rfl⟩ := ok
        split
        · exact .activate found named accepts
        · exact .link found named accepts
    · cases ok

/-! ## Milestones -/

/-- The row of a Milestone after its transition. -/
def Milestone.stamped (milestone : Milestone) (now : Int) : Milestone :=
  { milestone with revision := milestone.revision + 1, updatedAt := now }

/-- What a Milestone command other than `milestone.create` did to the Milestone it names. -/
inductive MilestoneEdit (env : Env) (s : Snapshot) (request : Value) (now : Int)
    (i : Fin s.milestones.length) : MilestoneCommand → Snapshot → Prop where
  | delete {marks : List (String × Nat)} : MilestoneEdit env s request now i .delete
      { s with milestones := s.milestones.eraseIdx i, documentSequences := marks }
  | update {row : Milestone} (edits : updatedMilestone env s request (s.milestones.get i) = .ok row) :
      MilestoneEdit env s request now i .update
        { s with milestones := s.milestones.modify i fun _ => row.stamped now }
  | move {command : MilestoneCommand} {directory : String} {row : Milestone}
      (moves : milestoneTransition env s directory now (s.milestones.get i) command = .ok row) :
      MilestoneEdit env s request now i command
        { s with milestones := s.milestones.modify i fun _ => row.stamped now }

theorem createMilestone_inv (ok : createMilestone env s request now = .ok (s', reply)) :
    ∃ row : Milestone, s' = { s with milestones := s.milestones ++ [row] } ∧
      row.id = env.newId "milestone" 0 ∧ row.revision = 1 := by
  simp only [createMilestone, bind_ok, pure_ok, Prod.mk.injEq] at ok
  obtain ⟨_, _, _, _, _, _, _, _, _, _, _, _, _, _, _, _, rfl, _⟩ := ok
  exact ⟨_, rfl, rfl, rfl⟩

theorem applyMilestone_inv {command : MilestoneCommand}
    (ok : applyMilestone env s command request options now = .ok (s', reply)) :
    (command = .create ∧ createMilestone env s request now = .ok (s', reply)) ∨
    (command ≠ .create ∧ ∃ i, (required request "milestone" >>= s.milestoneIndex) = .ok i ∧
      checkRevision (s.milestones.get i).revision options = .ok () ∧
      MilestoneEdit env s request now i command s') := by
  unfold applyMilestone at ok
  by_cases creating : command = .create
  · rw [if_pos creating] at ok
    exact .inl ⟨creating, ok⟩
  · rw [if_neg creating] at ok
    simp only [bind_ok] at ok
    obtain ⟨query, asked, i, found, _, checked, _, _, _, _, _, _, ok⟩ := ok
    refine .inr ⟨creating, i, bind_ok.mpr ⟨query, asked, found⟩, checked, ?_⟩
    by_cases deleting : command = .delete
    · subst deleting
      simp only [if_true, deleteMilestone, bind_ok, pure_ok, Prod.mk.injEq] at ok
      obtain ⟨_, _, rfl, _⟩ := ok
      exact .delete
    · simp only [if_neg deleting, bind_ok, pure_ok, Prod.mk.injEq] at ok
      obtain ⟨row, moves, rfl, _⟩ := ok
      by_cases updating : command = .update
      · subst updating
        exact .update moves
      · rw [if_neg updating] at moves
        exact .move moves

/-! ## Projects -/

theorem registerProject_inv (ok : registerProject env s request now = .ok (s', reply)) :
    s' = s ∨ ∃ row : Project, s' = { s with projects := s.projects ++ [row] } ∧
      row.id = env.newId "prj" 0 ∧ row.revision = 1 := by
  simp only [registerProject, bind_ok] at ok
  obtain ⟨_, _, ok⟩ := ok
  split at ok
  · simp only [pure_ok, Prod.mk.injEq] at ok
    exact .inl ok.1.symm
  · simp only [bind_ok, pure_ok, Prod.mk.injEq] at ok
    obtain ⟨_, _, rfl, _⟩ := ok
    exact .inr ⟨_, rfl, rfl, rfl⟩

/-- The Project that the request names is written under its next revision. -/
structure ProjectWritten (s : Snapshot) (request : Value) (options : WriteOptions)
    (i : Fin s.projects.length) (row : Project) : Prop where
  selected : (required request "project" >>= s.projectIndex) = .ok i
  checked : checkRevision (s.projects.get i).revision options = .ok ()
  id : row.id = (s.projects.get i).id
  revision : row.revision = (s.projects.get i).revision + 1

theorem moveProject_inv (ok : moveProject env s request options = .ok (s', reply)) :
    ∃ (i : Fin s.projects.length) (row : Project), s' = { s with projects := s.projects.modify i fun _ => row } ∧
      ProjectWritten s request options i row := by
  simp only [moveProject, bind_ok, pure_ok, Prod.mk.injEq] at ok
  obtain ⟨query, asked, i, found, _, checked, _, _, _, _, _, _, _, _, rfl, _⟩ := ok
  exact ⟨i, _, rfl, bind_ok.mpr ⟨query, asked, found⟩, checked, rfl, rfl⟩

theorem archiveProject_inv {archive : Bool}
    (ok : archiveProject s request options now archive = .ok (s', reply)) :
    ∃ (i : Fin s.projects.length) (row : Project), s' = { s with projects := s.projects.modify i fun _ => row } ∧
      ProjectWritten s request options i row := by
  simp only [archiveProject, bind_ok, pure_ok, Prod.mk.injEq] at ok
  obtain ⟨query, asked, i, found, _, checked, _, _, _, _, rfl, _⟩ := ok
  exact ⟨i, _, rfl, bind_ok.mpr ⟨query, asked, found⟩, checked, rfl, rfl⟩

/-- Each row has kept its document, or has it under another path and the next revision. -/
structure DocumentsMoved (s s' : Snapshot) : Prop where
  issues : ∃ edit : Issue → Fallible Issue, s.issues.mapM edit = .ok s'.issues ∧
    ∀ row row', edit row = .ok row' → row' = row ∨
      ∃ path, row' = { row with documentPath := path, revision := row.revision + 1 }
  milestones : ∃ edit : Milestone → Fallible Milestone, s.milestones.mapM edit = .ok s'.milestones ∧
    ∀ row row', edit row = .ok row' → row' = row ∨
      ∃ path, row' = { row with documentPath := path, revision := row.revision + 1 }
  jobs : ∃ edit : Job → Fallible Job, s.jobs.mapM edit = .ok s'.jobs ∧
    ∀ row row', edit row = .ok row' → row' = row ∨
      ∃ path, row' = { row with documentPath := path, revision := row.revision + 1 }

theorem renameProject_inv (ok : renameProject s request options = .ok (s', reply)) :
    ∃ (i : Fin s.projects.length) (row : Project), s' = { s with
        projects := s.projects.modify i fun _ => row, issues := s'.issues,
        milestones := s'.milestones, jobs := s'.jobs, plans := s'.plans } ∧
      ProjectWritten s request options i row ∧ DocumentsMoved s s' := by
  simp only [renameProject, bind_ok, pure_ok, Prod.mk.injEq] at ok
  obtain ⟨query, asked, i, found, _, checked, _, _, _, _, _, _, _, moveIssues, _, moveMilestones, _,
    moveJobs, _, _, rfl, _⟩ := ok
  refine ⟨i, _, rfl, ⟨bind_ok.mpr ⟨query, asked, found⟩, checked, rfl, rfl⟩, ⟨_, moveIssues, ?_⟩,
    ⟨_, moveMilestones, ?_⟩, _, moveJobs, ?_⟩
  all_goals
    intro row row' edited
    split at edited
    · simp only [bind_ok, pure_ok] at edited
      obtain ⟨path, _, rfl⟩ := edited
      exact .inr ⟨path, rfl⟩
    · cases edited
      exact .inl rfl

/-! ## Deletions -/

theorem deletionTarget_inv {projectDelete : Bool} {id : String} {jobs : List String}
    (ok : deletionTarget s request options projectDelete = .ok (id, jobs)) :
    (projectDelete = true ∧ ∃ i, (required request "project" >>= s.projectIndex) = .ok i ∧
      checkRevision (s.projects.get i).revision options = .ok ()) ∨
    (projectDelete = false ∧ ∃ i, (required request "job" >>= s.jobIndex) = .ok i ∧
      checkRevision (s.jobs.get i).revision options = .ok ()) := by
  unfold deletionTarget at ok
  split at ok
  · rename_i whole
    simp only [bind_ok] at ok
    obtain ⟨query, asked, i, found, _, checked, _⟩ := ok
    exact .inl ⟨whole, i, bind_ok.mpr ⟨query, asked, found⟩, checked⟩
  · rename_i whole
    simp only [bind_ok] at ok
    obtain ⟨query, asked, i, found, _, checked, _⟩ := ok
    exact .inr ⟨by simpa using whole, i, bind_ok.mpr ⟨query, asked, found⟩, checked⟩

/-- The Tasks of some Jobs. -/
def Snapshot.tasksOf (s : Snapshot) (jobs : List String) : List String :=
  (s.tasks.filter fun t => t.jobId ∈ jobs).map Task.id

/-- The snapshot without some Jobs and what belongs to them. -/
def Snapshot.withoutJobs (s : Snapshot) (jobs : List String) : Snapshot :=
  { s with
    documentSequences := retainSequences s jobs (s.tasksOf jobs)
    plans := s.plans.filter fun p => p.taskId ∉ s.tasksOf jobs
    tasks := s.tasks.filter fun t => t.id ∉ s.tasksOf jobs
    jobs := s.jobs.filter fun j => j.id ∉ jobs }

/-- The snapshot without a Project, whose Jobs are gone already. -/
def Snapshot.withoutProject (s : Snapshot) (id : String) : Snapshot :=
  { s with
    issues := s.issues.filter fun issue => issue.projectId ≠ id
    milestones := s.milestones.filter fun milestone => milestone.projectId ≠ id
    projects := s.projects.filter fun p => p.id ≠ id
    documentSequences := s.documentSequences.filter fun mark => !startsWith mark.1 s!"{id}:" }

/-- The Jobs that a deletion removes: no lease is held on their Tasks, and none is needed elsewhere. -/
structure Removable (s : Snapshot) (jobs : List String) : Prop where
  unleased : ∀ l ∈ s.leases, l.taskId ∉ s.tasksOf jobs
  unneeded : ∀ t ∈ s.tasks, t.id ∉ s.tasksOf jobs → ∀ d ∈ t.dependencies, d ∉ s.tasksOf jobs

theorem applyDeletion_inv {projectDelete : Bool}
    (ok : applyDeletion s request options projectDelete = .ok (s', reply)) :
    ∃ id jobs, deletionTarget s request options projectDelete = .ok (id, jobs) ∧
      Removable s jobs ∧ s' =
        if projectDelete then (s.withoutJobs jobs).withoutProject id else s.withoutJobs jobs := by
  simp only [applyDeletion, bind_ok, ensure_ok, pure_ok, Prod.mk.injEq] at ok
  obtain ⟨⟨id, jobs⟩, target, _, unleased, _, unneeded, rfl, _⟩ := ok
  exact ⟨id, jobs, target, ⟨unleased, unneeded⟩, rfl⟩

/-! ## Jobs -/

/-- The row of a Job after its transition. -/
def Job.stamped (job : Job) (now : Int) : Job :=
  { job with revision := job.revision + 1, updatedAt := now }

/-- A Job that has just been created. -/
structure Job.Opened (env : Env) (job : Job) : Prop where
  id : job.id = env.newId "job" 0
  revision : job.revision = 1
  status : job.status = .active
  unlinked : job.issueId = none
  unmarked : job.completedAt = none ∧ job.cancelledAt = none ∧ job.archivedAt = none
  round : job.followupTaskIds = []

theorem createJob_inv {job : Job} (ok : createJob env s request options now = .ok (s', job)) :
    s' = { s with jobs := s.jobs ++ [job] } ∧ job.Opened env := by
  simp only [createJob, bind_ok, pure_ok, Prod.mk.injEq] at ok
  obtain ⟨_, _, _, _, _, _, _, _, _, _, _, _, policy, _, rfl, rfl⟩ := ok
  exact ⟨rfl, rfl, rfl, rfl, rfl, ⟨rfl, rfl, rfl⟩, rfl⟩

variable {index : Fin s.jobs.length} {job row : Job}

/-- The snapshot that a review decides on: a person who approves has finished the Tasks. -/
def reviewing (s : Snapshot) (job : String) (review : Review) (now : Int) (obsidian : Bool) :
    Snapshot :=
  if obsidian ∧ review = .approve then finishTasks s job now else s

/-- A review of the Job: what it required, and the row it wrote. -/
structure Reviewed (s : Snapshot) (job row : Job) (review : Review) (request : Value) (now : Int)
    (obsidian : Bool) (completion : Option ReviewPolicy) (reason : Option String) : Prop where
  status : job.status = if review = .submit ∨ (review = .approve ∧ job.status = .active) then .active
    else .pendingReview
  reasoned : reviewReason (reviewing s job.id review now obsidian) job.id review request
    (obsidian ∧ review = .approve) (review = .approve ∧ job.status = .active) = .ok reason
  written : row = reviewedJob job review completion reason now

theorem reviewJob_inv {review : Review} {obsidian : Bool}
    (ok : reviewJob s index review request now obsidian = .ok (s', row)) :
    s' = (reviewing s (s.jobs.get index).id review now obsidian).modifyJob index (fun _ => row) ∧
      ∃ completion reason, Reviewed s (s.jobs.get index) row review request now obsidian completion
        reason := by
  simp only [reviewJob, bind_ok, ensure_ok, pure_ok, Prod.mk.injEq] at ok
  obtain ⟨completion, _, _, ⟨_, status⟩, reason, reasoned, rfl, rfl⟩ := ok
  exact ⟨rfl, completion, reason, status, reasoned, rfl⟩

/-- The Job of a new round, which begins with the words of the user. -/
theorem followupJob_inv (ok : followupJob env s index request options now = .ok (s', row)) :
    ∃ (id : String) (message : JobMessage),
      (s.jobs.get index).status = .pendingReview ∧ row = { s.jobs.get index with
        followupTaskIds := (s.tasks.filter fun t => t.jobId = (s.jobs.get index).id).map Task.id
        followupSessionId := options.sessionRef
        followupAt := some now
        followupId := some id
        conversation := (s.jobs.get index).conversation ++ [message]
        status := .active
        reviewReason := none
        completedAt := none
        revision := (s.jobs.get index).revision + 1
        updatedAt := now } ∧
      s' = s.modifyJob index fun _ => row := by
  simp only [followupJob, bind_ok, ensure_ok, pure_ok, Prod.mk.injEq] at ok
  obtain ⟨_, _, _, ⟨pending, _⟩, rfl, rfl⟩ := ok
  exact ⟨_, _, pending, rfl, rfl⟩

theorem cancelJobTasks_inv (ok : cancelJobTasks s index now = .ok s') :
    (s.jobs.get index).status.terminal = false ∧
      (∀ l ∈ s.leases, ∀ t ∈ s.tasks, t.id = l.taskId → t.jobId ≠ (s.jobs.get index).id) ∧
      s' = { s with tasks := s.tasks.map fun t =>
        if t.jobId = (s.jobs.get index).id ∧ !t.status.terminal then t.cancelledByJob now else t } := by
  simp only [cancelJobTasks, bind_ok, ensure_ok, pure_ok] at ok
  obtain ⟨_, unfinished, _, free, rfl⟩ := ok
  exact ⟨by simpa using unfinished, free, rfl⟩

theorem updatedJob_inv {renamed : Option String} (ok : updatedJob env request job renamed = .ok row) :
    ∃ name documentPath title reviewPolicy prompt goal,
      row = { job with name, documentPath, title, reviewPolicy, prompt, goal } := by
  simp only [updatedJob, bind_ok, pure_ok] at ok
  obtain ⟨_, _, ⟨name, documentPath⟩, _, _, _, _, _, rfl⟩ := ok
  exact ⟨_, _, _, _, _, _, rfl⟩

theorem archivedJob_inv {directory : String} {archive : Bool}
    (ok : archivedJob env job directory now archive = .ok row) :
    (archive = true → job.status.terminal = true) ∧ ∃ documentPath,
      row = { job with archivedAt := if archive then some now else none, documentPath } := by
  unfold archivedJob at ok
  split at ok
  · rename_i archive
    simp only [bind_ok, ensure_ok, pure_ok] at ok
    obtain ⟨_, ended, _, _, _, _, rfl⟩ := ok
    exact ⟨fun _ => ended, _, by rw [if_pos archive]⟩
  · rename_i restore
    simp only [bind_ok, pure_ok] at ok
    obtain ⟨_, _, _, _, rfl⟩ := ok
    exact ⟨fun archive => absurd archive restore, _, by rw [if_neg restore]⟩

/-- The Job command of a review. -/
def Review.asked : Review → JobCommand
  | submit => .submit
  | approve => .approve
  | reject => .reject

/-- What a command on a Job did: the snapshot that it left and the row that it wrote. -/
inductive JobEdit (env : Env) (s : Snapshot) (request : Value) (options : WriteOptions) (now : Int)
    (i : Fin s.jobs.length) : JobCommand → Snapshot → Job → Prop where
  | review {command : JobCommand} (review : Review) {s' : Snapshot} {row : Job}
      (asks : review.asked = command) (reviews : reviewJob s i review request now
        (options.actorRef = "user:obsidian") = .ok (s', row)) :
      JobEdit env s request options now i command s' row
  | followup {s' : Snapshot} {row : Job}
      (follows : followupJob env s i request options now = .ok (s', row)) :
      JobEdit env s request options now i .followup s' row
  | cancel {stopped : Snapshot} {row : Job} (stops : cancelJobTasks s i now = .ok stopped)
      (ends : row = { s.jobs.get i with status := .cancelled, cancelledAt := some now }) :
      JobEdit env s request options now i .cancel
        (stopped.modifyJob i fun _ => row.stamped now) (row.stamped now)
  | update {renamed : Option String} {row : Job}
      (edits : updatedJob env request (s.jobs.get i) renamed = .ok row) :
      JobEdit env s request options now i .update
        (s.modifyJob i fun _ => row.stamped now) (row.stamped now)
  | archive {command : JobCommand} {directory : String} (archive : Bool) {row : Job}
      (asks : command = if archive then .archive else .unarchive)
      (moves : archivedJob env (s.jobs.get i) directory now archive = .ok row) :
      JobEdit env s request options now i command
        (s.modifyJob i fun _ => row.stamped now) (row.stamped now)

theorem updateJob_inv {command : JobCommand}
    (ok : updateJob env s command request options now = .ok (s', row)) :
    ∃ i, (required request "job" >>= s.jobIndex) = .ok i ∧
      checkRevision (s.jobs.get i).revision options = .ok () ∧
      JobEdit env s request options now i command s' row := by
  simp only [updateJob, bind_ok] at ok
  obtain ⟨query, asked, i, found, _, checked, _, _, _, _, ok⟩ := ok
  refine ⟨i, bind_ok.mpr ⟨query, asked, found⟩, checked, ?_⟩
  cases command with
  | submit => exact .review .submit rfl ok
  | approve => exact .review .approve rfl ok
  | reject => exact .review .reject rfl ok
  | followup =>
    simp only [bind_ok] at ok
    obtain ⟨_, _, follows⟩ := ok
    exact .followup follows
  | cancel =>
    simp only [bind_ok, pure_ok, Prod.mk.injEq] at ok
    obtain ⟨stopped, stops, rfl, rfl⟩ := ok
    exact .cancel stops rfl
  | update =>
    simp only [bind_ok, pure_ok, Prod.mk.injEq] at ok
    obtain ⟨_, _, row, edits, rfl, rfl⟩ := ok
    exact .update edits
  | archive =>
    simp only [bind_ok, pure_ok, Prod.mk.injEq] at ok
    obtain ⟨row, moves, rfl, rfl⟩ := ok
    exact .archive true rfl moves
  | unarchive =>
    simp only [bind_ok, pure_ok, Prod.mk.injEq] at ok
    obtain ⟨row, moves, rfl, rfl⟩ := ok
    exact .archive false rfl moves

/-- Only `followupJob` answers `job.followup`. -/
theorem updateJob_followup
    (ok : updateJob env s .followup request options now = .ok (s', row)) :
    ∃ i, (required request "job" >>= s.jobIndex) = .ok i ∧
      followupJob env s i request options now = .ok (s', row) := by
  obtain ⟨i, selected, _, edit⟩ := updateJob_inv ok
  generalize asked : JobCommand.followup = command at edit
  cases edit with
  | review review asks =>
    subst asked
    cases review <;> cases asks
  | followup follows => exact ⟨i, selected, follows⟩
  | cancel => cases asked
  | update => cases asked
  | archive archive asks =>
    subst asked
    cases archive <;> cases asks

theorem linkJob_inv (ok : linkJob s job request now = .ok (s', reply)) :
    associate s job.id request now = .ok s' ∧
      ∃ i, s'.jobIndex job.id = .ok i ∧ reply = .job (s'.jobs.get i) := by
  simp only [linkJob, bind_ok, pure_ok, Prod.mk.injEq] at ok
  obtain ⟨_, _, _, links, i, found, rfl, rfl⟩ := ok
  exact ⟨links, i, found, rfl⟩

/-! ## Tasks -/

/-- A Task that has just been added to the Job. -/
structure Task.Added (env : Env) (job : Job) (t : Task) : Prop where
  id : t.id = env.newId "task" 0
  revision : t.revision = 1
  owned : t.jobId = job.id ∧ t.projectId = job.projectId
  idle : t.status = .todo ∧ t.phase = none ∧ t.startedAt = none ∧ t.completedAt = none
  inherited : t.dependencies = job.followupTaskIds

theorem addTask_inv (ok : addTask env s request options now = .ok (s', reply)) :
    ∃ (j : Fin s.jobs.length) (t : Task), (s.jobs.get j).status = .active ∧
      t.Added env (s.jobs.get j) ∧ reply = .taskRow t ∧
      s' = Snapshot.modifyJob { s with tasks := s.tasks ++ [t] } j fun job => job.stamped now := by
  simp only [addTask, bind_ok, ensure_ok, pure_ok, Prod.mk.injEq] at ok
  obtain ⟨_, _, j, _, _, _, _, _, _, _, _, ⟨active, _⟩, _, _, title, _, rfl, rfl⟩ := ok
  exact ⟨j, _, active, ⟨rfl, rfl, ⟨rfl, rfl⟩, ⟨rfl, rfl, rfl, rfl⟩, rfl⟩, rfl, rfl⟩

variable {i : Fin s.tasks.length} {j : Fin s.jobs.length}

theorem claim_inv {token : String} (ok : claim s i token request now = .ok s') :
    ∃ (executor session : String) (delegatedBy : Option String),
      (s.tasks.get i).status.allows .inProgress = true ∧
      (∀ l ∈ s.leases, ¬ (l.taskId = (s.tasks.get i).id ∨
        (l.executorRef = executor ∧ l.sessionRef = session))) ∧
      s' = Snapshot.modifyTask { s with
          leases := s.leases ++ [{
            taskId := (s.tasks.get i).id
            executorRef := executor
            sessionRef := session
            delegatedBy
            token
            leaseExpiresAt := leaseExpiry now }] } i
        fun task => task.claimedBy executor session delegatedBy := by
  simp only [claim, bind_ok, ensure_ok, pure_ok] at ok
  obtain ⟨_, allows, executor, _, session, _, _, free, rfl⟩ := ok
  exact ⟨executor, session, _, allows, free, rfl⟩

theorem startIssue_inv {issue : Option String} (ok : startIssue s issue now = .ok s') :
    s' = s ∨ ∃ id k, writable s id = .ok k ∧ s' = activate s k now := by
  unfold startIssue at ok
  split at ok
  · cases ok
    exact .inl rfl
  · simp only [bind_ok, pure_ok] at ok
    obtain ⟨k, accepts, rfl⟩ := ok
    exact .inr ⟨_, k, accepts, rfl⟩

def Task.begun (task : Task) (now : Int) : Task :=
  { task with phase := some .executing, startedAt := task.startedAt.or (some now) }

def Job.begun (job : Job) (now : Int) : Job :=
  { job with startedAt := job.startedAt.or (some now) }

theorem startTask_inv (ok : startTask s i j now = .ok s') :
    ∃ started, startIssue s (s.jobs.get j).issueId now = .ok started ∧
      (s.tasks.get i).phase = some .planning ∧
      (∀ d ∈ (s.tasks.get i).dependencies, ∃ t ∈ started.tasks, t.id = d ∧ t.status = .done) ∧
      s' = (started.modifyTask i fun task => task.begun now).modifyJob j fun job => job.begun now := by
  simp only [startTask, bind_ok, ensure_ok, pure_ok] at ok
  obtain ⟨started, starts, _, planning, _, _, _, ready, rfl⟩ := ok
  exact ⟨started, starts, planning, ready, rfl⟩

theorem editTask_inv (ok : editTask env s i j request = .ok s') :
    ∃ (plans : List Plan) (name : String) (title : Option String) (position : Int),
      s' = Snapshot.modifyTask { s with plans } i fun task =>
        { task with name, title := title.getD task.title, position } := by
  simp only [editTask, bind_ok, pure_ok] at ok
  obtain ⟨_, _, _, _, ⟨plans, name⟩, _, title, _, position, _, rfl⟩ := ok
  exact ⟨plans, name, title, position, rfl⟩

/-- The Task `d` may become a dependency of Task `i`, or stop to be one. -/
structure Dependable (s : Snapshot) (i d : Fin s.tasks.length) : Prop where
  unstarted : (s.tasks.get i).startedAt = none
  project : (s.tasks.get d).projectId = (s.tasks.get i).projectId
  other : (s.tasks.get d).id ≠ (s.tasks.get i).id

theorem dependTask_inv {depend : Bool} (ok : dependTask s i request depend = .ok s') :
    ∃ d, Dependable s i d ∧
      ((¬ dependsOn s (s.tasks.get d).id (s.tasks.get i).id ∧ s' = s.modifyTask i fun task =>
          if (s.tasks.get d).id ∈ task.dependencies then task
          else { task with dependencies := task.dependencies ++ [(s.tasks.get d).id] }) ∨
        s' = s.modifyTask i fun task =>
          { task with dependencies := task.dependencies.filter fun e => e ≠ (s.tasks.get d).id }) := by
  simp only [dependTask, bind_ok, ensure_ok] at ok
  obtain ⟨_, unstarted, _, _, d, _, _, project, _, other, ok⟩ := ok
  refine ⟨d, ⟨unstarted, project, other⟩, ?_⟩
  split at ok
  · simp only [bind_ok, ensure_ok, pure_ok] at ok
    obtain ⟨_, acyclic, rfl⟩ := ok
    exact .inl ⟨acyclic, rfl⟩
  · simp only [pure_ok] at ok
    exact .inr ok.symm

theorem registerPlan_inv (ok : registerPlan s i request now = .ok (s', reply)) :
    ∃ (plans : List Plan) (id : String), s' = Snapshot.modifyTask { s with plans } i fun task =>
      { task.stamped now with currentPlan := some id } := by
  simp only [registerPlan, bind_ok, pure_ok, Prod.mk.injEq] at ok
  obtain ⟨_, _, plan, _, _, _, rfl, _⟩ := ok
  exact ⟨_, plan.id, rfl⟩

theorem resumeTask_inv {retry : Bool} (ok : resumeTask s i j retry = .ok s') :
    (s.tasks.get i).status.terminal = true ∧
      (¬ s.tasks.any fun t => t.startedAt.isSome && dependsOn s t.id (s.tasks.get i).id) ∧
      s' = (s.modifyTask i Task.resumed).modifyJob j Job.reopened := by
  simp only [resumeTask, bind_ok, ensure_ok, pure_ok] at ok
  obtain ⟨_, ended, _, unused, rfl⟩ := ok
  refine ⟨?_, unused, rfl⟩
  split at ended
  · rw [ended]
    rfl
  · rcases ended with done | cancelled
    · rw [done]
      rfl
    · rw [cancelled]
      rfl

theorem leaveTask_inv {command : TaskCommand} {finishHuman : Bool}
    (ok : leaveTask s i command request now finishHuman = .ok s') :
    (finishHuman = true ∨ (s.tasks.get i).status.allows (leavingStatus command) = true) ∧
      ∃ reason : Option String, s' = { s.modifyTask i fun task =>
          { task with
            completedAt := if (leavingStatus command).terminal then some now else none
            status := leavingStatus command
            phase := none
            reason
            systemBlock := false } with
        leases := s.leases.filter fun l => l.taskId ≠ (s.tasks.get i).id } := by
  simp only [leaveTask, bind_ok, ensure_ok, pure_ok] at ok
  obtain ⟨_, _, _, allows, reason, _, rfl⟩ := ok
  exact ⟨allows, reason, rfl⟩

/-- The commands after which nobody works on the Task. -/
def TaskCommand.leaves : TaskCommand → Bool
  | .block | .wait | .done | .fail | .cancel | .release => true
  | _ => false

/-- What a Task command did before the common bookkeeping. -/
inductive TaskEdit (env : Env) (s : Snapshot) (i : Fin s.tasks.length) (j : Fin s.jobs.length)
    (request : Value) (now : Int) (finishHuman : Bool) : TaskCommand → Snapshot → Prop where
  | claim {s' : Snapshot} (claims : TaskStore.claim s i (env.newId "lease" 0) request now = .ok s') :
      TaskEdit env s i j request now finishHuman .claim s'
  | start {s' : Snapshot} (starts : startTask s i j now = .ok s') :
      TaskEdit env s i j request now finishHuman .start s'
  | heartbeat {l : Nat} : TaskEdit env s i j request now finishHuman .heartbeat
      { s with leases := s.leases.modify l fun lease =>
        { lease with leaseExpiresAt := leaseExpiry now } }
  | update {s' : Snapshot} (edits : editTask env s i j request = .ok s') :
      TaskEdit env s i j request now finishHuman .update s'
  | depend {command : TaskCommand} (depend : Bool) {s' : Snapshot}
      (asks : command = if depend then .depend else .undepend)
      (depends : dependTask s i request depend = .ok s') :
      TaskEdit env s i j request now finishHuman command s'
  | resume {command : TaskCommand} (retry : Bool) {s' : Snapshot}
      (asks : command = if retry then .retry else .reopen)
      (resumes : resumeTask s i j retry = .ok s') :
      TaskEdit env s i j request now finishHuman command s'
  | leave {command : TaskCommand} {s' : Snapshot} (asks : command.leaves = true)
      (leaves : leaveTask s i command request now finishHuman = .ok s') :
      TaskEdit env s i j request now finishHuman command s'

theorem changeTask_inv {command : TaskCommand} {finishHuman : Bool}
    (ok : changeTask env s i j command request now finishHuman = .ok s') :
    TaskEdit env s i j request now finishHuman command s' := by
  cases command with
  | claim => exact .claim ok
  | start => exact .start ok
  | heartbeat =>
    simp only [changeTask, bind_ok, pure_ok] at ok
    obtain ⟨l, _, rfl⟩ := ok
    exact .heartbeat
  | update => exact .update ok
  | depend => exact .depend true rfl ok
  | undepend => exact .depend false rfl ok
  | retry => exact .resume true rfl ok
  | reopen => exact .resume false rfl ok
  | planRegister => cases ok
  | unknown => cases ok
  | _ => exact .leave rfl ok

/-- Only `resumeTask` answers `task.retry` and `task.reopen`. -/
theorem TaskEdit.resumed {command : TaskCommand} {finishHuman : Bool}
    (edit : TaskEdit env s i j request now finishHuman command s')
    (resumes : command = .retry ∨ command = .reopen) :
    s' = (s.modifyTask i Task.resumed).modifyJob j Job.reopened := by
  cases edit with
  | resume _ _ ok => exact (resumeTask_inv ok).2.2
  | depend depend asks =>
    subst asks
    cases depend <;> simp at resumes
  | leave asks => rcases resumes with rfl | rfl <;> cases asks
  | claim => simp at resumes
  | start => simp at resumes
  | heartbeat => simp at resumes
  | update => simp at resumes

def Job.underPolicy (policy : Job → ReviewPolicy) (job : Job) : Job :=
  { job with reviewPolicy := policy job }

/-- A completion policy replaces the Job's, or nothing does. -/
theorem applyCompletion_inv {k : Nat} {id : String} {wasReady : Bool}
    {completion : Option ReviewPolicy}
    (ok : applyCompletion s k id wasReady completion = .ok s') :
    ∃ policy : Job → ReviewPolicy, s' = s.modifyJob k (Job.underPolicy policy) := by
  unfold applyCompletion at ok
  split at ok
  · cases ok
    have same : s.jobs.modify k (Job.underPolicy Job.reviewPolicy) = s.jobs := modify_id k s.jobs
    refine ⟨Job.reviewPolicy, ?_⟩
    rw [Snapshot.modifyJob, same]
  · simp only [bind_ok, pure_ok] at ok
    obtain ⟨_, _, rfl⟩ := ok
    exact ⟨_, rfl⟩

/-- `task.done` by a person, on a Task that has not ended, needs neither Plan nor lease. -/
def finishesByHand (command : TaskCommand) (options : WriteOptions) (task : Task) : Bool :=
  command = .done ∧ options.actorRef = "user:obsidian" ∧ !task.status.terminal

/-- What a command checks of the Task it names and of its Job. -/
structure TaskChosen (s : Snapshot) (command : TaskCommand) (request : Value)
    (options : WriteOptions) (now : Int) (i : Fin s.tasks.length) (j : Fin s.jobs.length) : Prop where
  selected : (required request "task" >>= s.taskIndex) = .ok i
  home : s.jobIndex (s.tasks.get i).jobId = .ok j
  checked : checkRevision (s.tasks.get i).revision options = .ok ()
  kept : (s.jobs.get j).archivedAt = none ∧ (s.jobs.get j).status ≠ .cancelled
  authorized : command ≠ .claim → finishesByHand command options (s.tasks.get i) = false →
    authorize s (s.tasks.get i) options now = .ok ()

/-- The bookkeeping after a Task's change: the Task is stamped, and its Job follows. -/
structure TaskWritten (env : Env) (s : Snapshot) (command : TaskCommand) (request : Value)
    (options : WriteOptions) (now : Int) (i : Fin s.tasks.length) (j : Fin s.jobs.length)
    (changed completed s' : Snapshot) : Prop where
  changes : TaskEdit env s i j request now (finishesByHand command options (s.tasks.get i)) command
    changed
  completes : ∃ policy : Job → ReviewPolicy, completed =
    (changed.modifyTask i fun task => task.stamped now).modifyJob j (Job.underPolicy policy)
  aggregates : s' = aggregateJob completed j (s.jobs.get j).id
    (jobReady s (s.tasks.get i).jobId) now

theorem updateTask_inv {command : TaskCommand}
    (ok : updateTask env s command request options now = .ok (s', reply)) :
    ∃ i j, TaskChosen s command request options now i j ∧
      ((command = .planRegister ∧ registerPlan s i request now = .ok (s', reply)) ∨
        ∃ changed completed, TaskWritten env s command request options now i j changed completed s') := by
  simp only [updateTask, bind_ok, ensure_ok] at ok
  obtain ⟨query, asked, i, found, j, home, _, _, _, checked, _, _, _, _, _, kept, _, authorizes, _, _,
    ok⟩ := ok
  refine ⟨i, j, ⟨bind_ok.mpr ⟨query, asked, found⟩, home, checked, kept, fun other byCommand => ?_⟩, ?_⟩
  · rwa [if_pos ⟨other, by simpa [finishesByHand] using byCommand⟩] at authorizes
  · split at ok
    · rename_i registers
      exact .inl ⟨registers, ok⟩
    · simp only [bind_ok, pure_ok, Prod.mk.injEq] at ok
      obtain ⟨changed, changes, completed, completes, _, _, rfl, _⟩ := ok
      exact .inr ⟨changed, completed, changeTask_inv changes, applyCompletion_inv completes, rfl⟩

/-! ## Sessions and conversations -/

theorem applySession_inv {command : SessionCommand}
    (ok : applySession env s command request now = .ok (s', reply)) :
    ∃ session host, required request "session" = .ok session ∧
      s' = (sessionLoop env command session host now (List.range s.tasks.length) s []).1 := by
  simp only [applySession, bind_ok, pure_ok, Prod.mk.injEq] at ok
  obtain ⟨session, asked, rfl, _⟩ := ok
  exact ⟨session, _, asked, rfl⟩

/-- Messages are merged into one Job, or there is no Job to record them in. -/
theorem recordConversation_inv (ok : recordConversation s request options now = .ok (s', reply)) :
    s' = s ∨ ∃ (i : Fin s.jobs.length) (planning before : Option String) (messages : List Value)
        (session : String) (ordered : Bool) (merged : Job) (recorded : Nat),
      mergeMessages (promptedJob (s.jobs.get i) planning) messages session now ordered before =
        .ok (merged, recorded) ∧
      s' = s.modifyJob i fun _ => recordedJob merged
        (recorded > 0 ∨ (promptedJob (s.jobs.get i) planning).prompt ≠ (s.jobs.get i).prompt) now := by
  simp only [recordConversation, bind_ok] at ok
  obtain ⟨session, _, _, _, selected, _, ok⟩ := ok
  cases selected with
  | none =>
    simp only [pure_ok, Prod.mk.injEq] at ok
    exact .inl ok.1.symm
  | some i =>
    simp only [bind_ok, pure_ok, Prod.mk.injEq] at ok
    obtain ⟨messages, _, planning, _, ⟨merged, recorded⟩, merges, rfl, _⟩ := ok
    exact .inr ⟨i, planning, _, messages, session, _, merged, recorded, merges, rfl⟩

theorem attachConversation_inv (ok : attachConversation s request options = .ok (s', reply)) :
    s' = s ∧ ∃ i, (required request "job" >>= s.jobIndex) = .ok i ∧
      checkRevision (s.jobs.get i).revision options = .ok () ∧ reply = .job (s.jobs.get i) := by
  simp only [attachConversation, bind_ok, pure_ok, Prod.mk.injEq] at ok
  obtain ⟨query, asked, i, found, _, checked, _, _, rfl, rfl⟩ := ok
  exact ⟨rfl, i, bind_ok.mpr ⟨query, asked, found⟩, checked, rfl⟩

/-! ## Commands -/

theorem dispatch_sessionStage_inv
    (ok : dispatch env s .sessionStage request options now = .ok (s', reply)) : s' = s := by
  simp only [dispatch, stageSession] at ok
  split at ok <;> cases ok <;> rfl

theorem dispatch_jobCreate_inv (ok : dispatch env s .jobCreate request options now = .ok (s', reply)) :
    ∃ job : Job, job.Opened env ∧
      linkJob { s with jobs := s.jobs ++ [job] } job request now = .ok (s', reply) := by
  simp only [dispatch, bind_ok] at ok
  obtain ⟨⟨created, job⟩, creates, links⟩ := ok
  obtain ⟨rfl, opened⟩ := createJob_inv creates
  exact ⟨job, opened, links⟩

theorem dispatch_job_inv {command : JobCommand}
    (ok : dispatch env s (.job command) request options now = .ok (s', reply)) :
    ∃ updated row, updateJob env s command request options now = .ok (updated, row) ∧
      (((command = .update ∨ command = .followup) ∧
          linkJob updated row request now = .ok (s', reply)) ∨
        (s' = updated ∧ reply = .job row)) := by
  simp only [dispatch, bind_ok] at ok
  obtain ⟨⟨updated, row⟩, updates, ok⟩ := ok
  refine ⟨updated, row, updates, ?_⟩
  split at ok
  · rename_i links
    exact .inl ⟨links, ok⟩
  · simp only [pure_ok, Prod.mk.injEq] at ok
    exact .inr ⟨ok.1.symm, ok.2.symm⟩

theorem apply_inv (ok : apply env s request options now = .ok (s', reply)) :
    ∃ command, request.command = .ok command ∧
      dispatch env s command request options now = .ok (s', reply) := by
  simp only [apply, bind_ok] at ok
  obtain ⟨_, _, command, named, _, _, dispatches⟩ := ok
  exact ⟨command, named, dispatches⟩

/-- A command that the request names by its text. -/
theorem apply_named {text : String} (given : (request.index "command").asStr = some text)
    (ok : apply env s request options now = .ok (s', reply)) :
    dispatch env s (Command.parse text) request options now = .ok (s', reply) := by
  obtain ⟨command, named, dispatches⟩ := apply_inv ok
  obtain ⟨text', asked, rfl⟩ := map_eq_ok.mp named
  obtain rfl : text = text' := Option.some.inj (given.symm.trans (required_index asked))
  exact dispatches

end Agentix.TaskStore
