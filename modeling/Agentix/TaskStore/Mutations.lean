import Agentix.TaskStore.Conversation
import Agentix.TaskStore.Deletion
import Agentix.TaskStore.Issue

/-! # Mutations

The command state machine over a `Snapshot`: every command reads the clock once
and either returns the next snapshot with its result or an error.
-/

namespace Agentix.TaskStore

open Lib

/-! ## Projects -/

def registerProject (env : Env) (state : Snapshot) (request : Value) (now : Int) :
    Fallible (Snapshot × Reply) := do
  let root ← required request "root"
  match state.projects.find? fun p =>
      p.root = root ∨ state.queryContext.registeredProject = some p.id with
  | some project => pure (state, .project project)
  | none => do
    let name ← required request "name"
    let key := state.queryContext.availableProjectKey.getD
      (uniqueName env.toLowercase name (state.projects.map Project.key))
    let project : Project :=
      { id := env.newId "prj" 0
        name := key
        key
        root
        remote := (request.index "remote").asStr
        revision := 1
        createdAt := now
        archivedAt := none
        documentDirectory := none }
    pure ({ state with projects := state.projects ++ [project] }, .project project)

def movedRemote (request : Value) : Fallible (Option String) :=
  match request.get? "remote" with
  | none | some .null => .ok none
  | some (.string remote) =>
    if blank remote then .error "invalid: remote must be a nonblank string or null"
    else .ok (some remote)
  | _ => .error "invalid: remote must be a nonblank string or null"

def moveProject (env : Env) (state : Snapshot) (request : Value) (options : WriteOptions) :
    Fallible (Snapshot × Reply) := do
  let index ← state.projectIndex (← required request "project")
  let project := state.projects.get index
  checkRevision project.revision options
  let root ← required request "root"
  ensure (env.isDir root) "invalid: Project root must be an existing directory"
  let root ← env.canonicalize root
  let remote ← movedRemote request
  let row := { project with root, remote, revision := project.revision + 1 }
  pure ({ state with projects := state.projects.modify index fun _ => row }, .project row)

def finishedProject (state : Snapshot) (project : String) : Fallible Unit := do
  ensure (∀ issue ∈ state.issues, issue.projectId = project → issue.status.terminal)
    "conflict: complete or cancel all Issues before archiving Project"
  ensure (∀ j ∈ state.jobs, j.projectId = project → j.status.terminal)
    "conflict: complete or cancel all Jobs before archiving Project"

def archiveProject (state : Snapshot) (request : Value) (options : WriteOptions) (now : Int)
    (archive : Bool) : Fallible (Snapshot × Reply) := do
  let i ← state.projectIndex (← required request "project")
  let project := state.projects.get i
  checkRevision project.revision options
  ensure (archive = project.archivedAt.isNone) "conflict: Project archive state unchanged"
  let _ ← (if archive then finishedProject state project.id else .ok ())
  let row := { project with
    archivedAt := if archive then some now else none, revision := project.revision + 1 }
  pure ({ state with projects := state.projects.modify i fun _ => row }, .project row)

/-! ## Creating Jobs and Tasks -/

/-- The numbers a new document of the kind is counted after. -/
def usedSequences (state : Snapshot) (project kind : String) (now : Int)
    (rows : List (Int × Nat)) : List (Int × Nat) :=
  rows ++ [(now, (state.queryContext.sequences.lookup (project, kind)).getD 0),
    (now, (state.documentSequences.lookup (sequenceKey project kind now)).getD 0)]

def createJob (env : Env) (state : Snapshot) (request : Value) (options : WriteOptions)
    (now : Int) : Fallible (Snapshot × Job) := do
  let p ← state.projectIndex (← required request "project")
  let project := state.projects.get p
  ensure (project.archivedAt = none) "conflict: Project is archived"
  let title ← required request "title"
  let name := entityName env state project.id "job" none
    ((request.index "name").asStr.getD title)
  let sequence ← nextSequence now (usedSequences state project.id "job" now
    ((state.jobs.filter fun j => j.projectId = project.id).map fun j => (j.createdAt, j.sequence)))
  let filename ← numberedName env name now sequence
  let policy ← reviewPolicy request
  let job : Job :=
    { documentPath := s!"{project.directory}/Jobs/{filename}.md"
      sequence
      name
      id := env.newId "job" 0
      projectId := project.id
      issueId := none
      title
      goal := (request.index "goal").asStr.getD ""
      prompt := (request.index "prompt").asStr.getD ""
      agent := agentName options.actorRef
      sessionId := options.sessionRef
      status := .active
      conversation := []
      reviewReason := none
      reviewPolicy := policy.getD .required
      followupTaskIds := []
      followupSessionId := none
      followupAt := none
      followupId := none
      pendingReviewAt := none
      revision := 1
      createdAt := now
      updatedAt := now
      startedAt := none
      completedAt := none
      cancelledAt := none
      archivedAt := none }
  pure ({ state with jobs := state.jobs ++ [job] }, job)

/-- The Issue of a Job, if any, accepts new work. -/
def issueWritable (state : Snapshot) (issue : Option String) : Fallible Unit :=
  match issue with
  | none => .ok ()
  | some issue => do
    let _ ← writable state issue
    pure ()

def addTask (env : Env) (state : Snapshot) (request : Value) (options : WriteOptions)
    (now : Int) : Fallible (Snapshot × Reply) := do
  let j ← state.jobIndex (← required request "job")
  let job := state.jobs.get j
  issueWritable state job.issueId
  let p ← state.projectIndex job.projectId
  ensure ((state.projects.get p).archivedAt = none) "conflict: Project is archived"
  ensure (job.status = .active ∧ job.archivedAt = none)
    "conflict: Job is closed or archived; create a new Job for new scope"
  let sequence ← nextSequence now (usedSequences state job.projectId "task" now
    ((state.tasks.filter fun t => t.projectId = job.projectId).map
      fun t => (t.createdAt, t.sequence)))
  let title ← required request "title"
  let task : Task :=
    { sequence
      name := entityName env state job.projectId "task" none
        ((request.index "name").asStr.getD title)
      id := env.newId "task" 0
      projectId := job.projectId
      jobId := job.id
      title
      status := .todo
      phase := none
      revision := 1
      position := state.queryContext.taskCount.getD state.tasks.length
      createdAt := now
      updatedAt := now
      startedAt := none
      completedAt := none
      reason := none
      dependencies := job.followupTaskIds
      currentPlan := none
      lastExecutor := (agentName options.actorRef).map fun _ => options.actorRef
      lastSession := options.sessionRef
      delegatedBy := none
      systemBlock := false }
  let added := { state with tasks := state.tasks ++ [task] }
  pure (added.modifyJob j fun job => { job with revision := job.revision + 1, updatedAt := now },
    .taskRow task)

/-! ## Jobs -/

def Task.cancelledByJob (task : Task) (now : Int) : Task :=
  { task with
    completedAt := some now, status := .cancelled, phase := none, revision := task.revision + 1,
    updatedAt := now, systemBlock := false }

def Task.finishedByHuman (task : Task) (now : Int) : Task :=
  { task with
    status := .done, phase := none, reason := none, systemBlock := false,
    completedAt := some now, updatedAt := now, revision := task.revision + 1 }

def finishTasks (state : Snapshot) (jobId : String) (now : Int) : Snapshot :=
  let tasks := state.tasks.map fun t =>
    if t.jobId = jobId ∧ !t.status.terminal then t.finishedByHuman now else t
  { state with
    tasks
    leases := state.leases.filter fun lease =>
      !tasks.any fun t => t.jobId = jobId && t.id = lease.taskId }

inductive Review where
  | submit
  | approve
  | reject
  deriving DecidableEq, Repr

def Review.text : Review → String
  | submit => "job.submit"
  | approve => "job.approve"
  | reject => "job.reject"

/-- The Job after a review, whose preconditions have been checked. -/
def reviewedJob (job : Job) (review : Review) (completion : Option ReviewPolicy)
    (reason : Option String) (now : Int) : Job :=
  let policy := completion.getD job.reviewPolicy
  let status := match review with
    | .submit => readyStatus policy
    | .approve => .completed
    | .reject => .active
  { job with
    reviewPolicy := policy
    status
    completedAt := if status = .completed then some now else none
    pendingReviewAt := if status = .pendingReview then some now else job.pendingReviewAt
    reviewReason := reason
    revision := job.revision + 1
    updatedAt := now }

/-- What a review requires of the Tasks, and the reason it records.  A human approval has finished
the Tasks itself; an ACTIVE Job may be approved with failed Tasks. -/
def reviewReason (state : Snapshot) (jobId : String) (review : Review) (request : Value)
    (humanCompletion acceptActive : Bool) : Fallible (Option String) :=
  if review = .reject then some <$> required request "reason"
  else if humanCompletion then .ok none
  else if acceptActive then do
    ensure ((∃ t ∈ state.tasks, t.jobId = jobId) ∧
        ∀ t ∈ state.tasks, t.jobId = jobId → t.status.terminal)
      "conflict: all Tasks must be DONE, FAILED or CANCELLED and at least one must exist"
    pure none
  else do
    ensure (jobReady state jobId)
      "conflict: all non-cancelled Tasks must be DONE and at least one must exist"
    pure none

def reviewJob (state : Snapshot) (index : Fin state.jobs.length) (review : Review)
    (request : Value) (now : Int) (obsidian : Bool) : Fallible (Snapshot × Job) := do
  let job := state.jobs.get index
  let completion ← completionPolicy job request
  let acceptActive := review = .approve ∧ job.status = .active
  let expected := if review = .submit ∨ acceptActive then JobStatus.active else .pendingReview
  ensure (job.archivedAt = none ∧ job.status = expected)
    s!"conflict: {review.text} requires an unarchived {expected.text} Job"
  let humanCompletion := obsidian ∧ review = .approve
  let state := if humanCompletion then finishTasks state job.id now else state
  let reason ← reviewReason state job.id review request humanCompletion acceptActive
  let row := reviewedJob job review completion reason now
  pure (state.modifyJob index fun _ => row, row)

def followupJob (env : Env) (state : Snapshot) (index : Fin state.jobs.length) (request : Value)
    (options : WriteOptions) (now : Int) : Fallible (Snapshot × Job) := do
  let prompt ← required request "prompt"
  let job := state.jobs.get index
  ensure (job.status = .pendingReview ∧ job.archivedAt = none)
    "conflict: job.followup requires an unarchived PENDING_REVIEW Job"
  let followupId := env.newId "message" 0
  let message : JobMessage :=
    { id := s!"followup:{followupId}"
      sessionId := (options.sessionRef.or job.sessionId).getD ""
      role := "user"
      text := prompt
      recordedAt := now }
  let row := { job with
    followupTaskIds := (state.tasks.filter fun t => t.jobId = job.id).map Task.id
    followupSessionId := options.sessionRef
    followupAt := some now
    followupId := some followupId
    conversation := job.conversation ++ [message]
    status := .active
    reviewReason := none
    completedAt := none
    revision := job.revision + 1
    updatedAt := now }
  pure (state.modifyJob index fun _ => row, row)

def associationOnly (request : Value) : Bool :=
  (request.get? "issue").isSome && request.keys.any fun keys =>
    keys.all fun key =>
      ["command", "job", "issue", "issue_revision", "issue_content_hash"].contains key

/-- The row `job.update` leaves, before its revision is raised. -/
def updatedJob (env : Env) (request : Value) (job : Job) (renamed : Option String) :
    Fallible Job := do
  ensure ((job.status = .active ∨ associationOnly request ∨
      (renamed.isSome ∧ (request.get? "title").isNone ∧ (request.get? "goal").isNone ∧
        (request.get? "prompt").isNone ∧ (request.get? "review_policy").isNone)) ∧
      (job.archivedAt = none ∨ associationOnly request))
    "conflict: Job is closed"
  let (name, documentPath) ← renamedDocument env renamed job.name job.documentPath
    job.createdAt job.sequence "invalid Job path"
  let title ← requiredIfPresent request "title"
  let job := { job with documentPath, name, title := title.getD job.title }
  let policy ← reviewPolicy request
  let job := { job with reviewPolicy := policy.getD job.reviewPolicy }
  let job := { job with prompt := (request.index "prompt").asStr.getD job.prompt }
  pure { job with goal := (request.index "goal").asStr.getD job.goal }

/-- Moves a finished Job into or out of the archive folder. -/
def archivedJob (env : Env) (job : Job) (directory : String) (now : Int) (archive : Bool) :
    Fallible Job := do
  if archive then do
    ensure job.status.terminal "conflict: complete or cancel Job before archiving"
    ensure (job.archivedAt = none) "conflict: Job already archived"
    let filename ← numberedName env job.name job.createdAt job.sequence
    pure { job with
      archivedAt := some now, documentPath := s!"{directory}/Jobs/Archived/{filename}.md" }
  else do
    ensure (job.archivedAt ≠ none) "conflict: Job is not archived"
    let filename ← numberedName env job.name job.createdAt job.sequence
    pure { job with archivedAt := none, documentPath := s!"{directory}/Jobs/{filename}.md" }

/-- `job.cancel` on a Job without leases: its unfinished Tasks are cancelled. -/
def cancelJobTasks (state : Snapshot) (index : Fin state.jobs.length) (now : Int) :
    Fallible Snapshot := do
  let job := state.jobs.get index
  ensure (!job.status.terminal) "conflict: Job is not active"
  ensure (∀ l ∈ state.leases, ∀ t ∈ state.tasks, t.id = l.taskId → t.jobId ≠ job.id)
    "conflict: release active Task leases before cancelling Job"
  pure { state with
    tasks := state.tasks.map fun t =>
      if t.jobId = job.id ∧ !t.status.terminal then t.cancelledByJob now else t }

def updateJob (env : Env) (state : Snapshot) (command : JobCommand) (request : Value)
    (options : WriteOptions) (now : Int) : Fallible (Snapshot × Job) := do
  let i ← state.jobIndex (← required request "job")
  let job := state.jobs.get i
  checkRevision job.revision options
  let p ← state.projectIndex job.projectId
  let project := state.projects.get p
  ensure (project.archivedAt = none) "conflict: Project is archived"
  match command with
  | .submit => reviewJob state i .submit request now (options.actorRef = "user:obsidian")
  | .approve => reviewJob state i .approve request now (options.actorRef = "user:obsidian")
  | .reject => reviewJob state i .reject request now (options.actorRef = "user:obsidian")
  | .followup => do
    issueWritable state job.issueId
    followupJob env state i request options now
  | .cancel => do
    let cancelled ← cancelJobTasks state i now
    let row := { job with
      status := .cancelled, cancelledAt := some now, revision := job.revision + 1,
      updatedAt := now }
    pure (cancelled.modifyJob i fun _ => row, row)
  | .update => do
    let name ← requiredIfPresent request "name"
    let renamed := name.map (entityName env state job.projectId "job" (some job.id))
    let row ← updatedJob env request job renamed
    let row := { row with revision := row.revision + 1, updatedAt := now }
    pure (state.modifyJob i fun _ => row, row)
  | .archive => do
    let row ← archivedJob env job project.directory now true
    let row := { row with revision := row.revision + 1, updatedAt := now }
    pure (state.modifyJob i fun _ => row, row)
  | .unarchive => do
    let row ← archivedJob env job project.directory now false
    let row := { row with revision := row.revision + 1, updatedAt := now }
    pure (state.modifyJob i fun _ => row, row)

/-! ## Tasks -/

/-- `task_result`: the Task with its lease. -/
def taskResult (state : Snapshot) (id : String) : Fallible Reply := do
  let i ← state.taskIndex id
  let task := state.tasks.get i
  pure (.task task (state.leases.find? fun l => l.taskId = task.id))

def Task.stamped (task : Task) (now : Int) : Task :=
  { task with revision := task.revision + 1, updatedAt := now }

/-- The Task after `claim`. -/
def Task.claimedBy (task : Task) (executor session : String) (delegatedBy : Option String) :
    Task :=
  { task with
    status := .inProgress, phase := some .planning, systemBlock := false, reason := none,
    lastExecutor := some executor, lastSession := some session, delegatedBy }

def claim (state : Snapshot) (i : Fin state.tasks.length) (token : String) (request : Value)
    (now : Int) : Fallible Snapshot := do
  let task := state.tasks.get i
  ensure (task.status.allows .inProgress)
    s!"conflict: Task cannot be claimed from {task.status.text}"
  let executor ← required request "executor"
  let session ← required request "session"
  ensure (∀ l ∈ state.leases,
      ¬ (l.taskId = task.id ∨ (l.executorRef = executor ∧ l.sessionRef = session)))
    "conflict: Task or executor session already leased"
  let delegatedBy := (request.index "delegated_by").asStr
  let lease : Lease :=
    { taskId := task.id
      executorRef := executor
      sessionRef := session
      delegatedBy
      token
      leaseExpiresAt := leaseExpiry now }
  let leased := { state with leases := state.leases ++ [lease] }
  pure (leased.modifyTask i fun task => task.claimedBy executor session delegatedBy)

def startIssue (state : Snapshot) (issue : Option String) (now : Int) : Fallible Snapshot :=
  match issue with
  | none => .ok state
  | some issue => do
    let index ← writable state issue
    pure (activate state index now)

def startTask (state : Snapshot) (i : Fin state.tasks.length) (j : Fin state.jobs.length)
    (now : Int) : Fallible Snapshot := do
  let task := state.tasks.get i
  let state ← startIssue state (state.jobs.get j).issueId now
  ensure (task.phase = some .planning) "conflict: Task must be in PLANNING before start"
  ensure task.currentPlan.isSome "invalid: current Plan is required before start"
  ensure (∀ d ∈ task.dependencies, ∃ t ∈ state.tasks, t.id = d ∧ t.status = .done)
    "conflict: dependencies are incomplete"
  let started := state.modifyTask i fun task =>
    { task with phase := some .executing, startedAt := task.startedAt.or (some now) }
  pure (started.modifyJob j fun job => { job with startedAt := job.startedAt.or (some now) })

def renamePlans (plans : List Plan) (taskId filename : String) : Fallible (List Plan) :=
  plans.mapM fun plan =>
    if plan.taskId = taskId then do
      let (parent, _) ← orElseError (rsplitOnce '/' plan.path) "invalid Plan path"
      pure { plan with path := s!"{parent}/{filename}.md" }
    else pure plan

def renamedTask (env : Env) (state : Snapshot) (task : Task) (name : Option String) :
    Fallible (List Plan × String) :=
  match name with
  | none => .ok (state.plans, task.name)
  | some title => do
    let name := entityName env state task.projectId "task" (some task.id) title
    let filename ← numberedName env name task.createdAt task.sequence
    let plans ← renamePlans state.plans task.id filename
    pure (plans, name)

def editedPosition (request : Value) (task : Task) : Fallible Int :=
  match (request.index "position").asI64 with
  | none => .ok task.position
  | some position => do
    ensure (position ≥ 0) "invalid: negative position"
    pure position

def editTask (env : Env) (state : Snapshot) (i : Fin state.tasks.length)
    (j : Fin state.jobs.length) (request : Value) : Fallible Snapshot := do
  let task := state.tasks.get i
  ensure (((state.jobs.get j).status = .active ∧ !task.status.terminal) ∨
      ((request.get? "name").isSome ∧ (request.get? "title").isNone ∧
        (request.get? "position").isNone))
    "conflict: Task is closed"
  let renamed ← requiredIfPresent request "name"
  let (plans, name) ← renamedTask env state task renamed
  let title ← requiredIfPresent request "title"
  let position ← editedPosition request task
  let renamed := { state with plans }
  pure (renamed.modifyTask i fun task =>
    { task with name, title := title.getD task.title, position })

def dependTask (state : Snapshot) (i : Fin state.tasks.length) (request : Value)
    (depend : Bool) : Fallible Snapshot := do
  let task := state.tasks.get i
  ensure (task.startedAt = none) "conflict: dependencies cannot change after Task starts"
  let d ← state.taskIndex (← required request "dependency")
  let dependency := state.tasks.get d
  ensure (dependency.projectId = task.projectId)
    "invalid: dependency must belong to the same Project"
  ensure (dependency.id ≠ task.id) "invalid: Task cannot depend on itself"
  if depend then do
    ensure (¬ dependsOn state dependency.id task.id) "invalid: dependency cycle"
    pure (state.modifyTask i fun task =>
      if dependency.id ∈ task.dependencies then task
      else { task with dependencies := task.dependencies ++ [dependency.id] })
  else
    pure (state.modifyTask i fun task =>
      { task with dependencies := task.dependencies.filter fun d => d ≠ dependency.id })

/-- `serde_json::from_value::<Plan>`: an object, or the fields in order. -/
def Plan.ofValue (value : Value) : Fallible Plan := do
  let order := ["id", "task_id", "version", "path", "hash", "created_at", "updated_at",
    "pending_body"]
  let fields ← (match value with
    | .object _ => .ok value
    | .array items =>
      if items.length ≤ order.length then .ok (.object (order.zip items))
      else .error "invalid length of a Plan"
    | _ => .error "invalid type: expected struct Plan" : Fallible Value)
  let text := fun key => orElseError ((fields.get? key).bind Value.asStr) s!"invalid field {key}"
  let number := fun key => orElseError ((fields.get? key).bind Value.asI64) s!"invalid field {key}"
  let id ← text "id"
  let taskId ← text "task_id"
  let version ← number "version"
  let path ← text "path"
  let hash ← text "hash"
  let createdAt ← number "created_at"
  let updatedAt ← (if (fields.get? "updated_at").isSome then number "updated_at" else .ok 0)
  let pendingBody ← (match fields.get? "pending_body" with
    | none | some .null => .ok none
    | some _ => some <$> text "pending_body" : Fallible (Option String))
  pure { id, taskId, version, path, hash, createdAt, updatedAt, pendingBody }

def registerPlan (state : Snapshot) (i : Fin state.tasks.length) (request : Value) (now : Int) :
    Fallible (Snapshot × Reply) := do
  let task := state.tasks.get i
  ensure (!task.status.terminal) "conflict: Task is closed"
  let plan ← Plan.ofValue (request.index "plan")
  let versions := (state.plans.filter fun p => p.taskId = task.id).map Plan.version
  let version := (versions.max?.getD 0) + 1
  ensure (plan.taskId = task.id ∧ plan.version = version) "conflict: Plan version changed"
  let planned : Snapshot := { state with
    plans := (state.plans.filter fun p => p.taskId ≠ task.id) ++ [plan] }
  pure (planned.modifyTask i fun task =>
      { task with
        currentPlan := some plan.id, revision := task.revision + 1, updatedAt := now },
    .plan plan)

def Task.resumed (task : Task) : Task :=
  { task with
    completedAt := none, status := .todo, phase := none, reason := none, systemBlock := false }

def Job.reopened (job : Job) : Job :=
  { job with status := .active, completedAt := none }

/-- `task.retry` and `task.reopen`. -/
def resumeTask (state : Snapshot) (i : Fin state.tasks.length) (j : Fin state.jobs.length)
    (retry : Bool) : Fallible Snapshot := do
  let task := state.tasks.get i
  let command := if retry then "task.retry" else "task.reopen"
  ensure (if retry then task.status = .failed else task.status = .done ∨ task.status = .cancelled)
    s!"invalid: wrong terminal state for {command}"
  ensure (¬ state.tasks.any fun t => t.startedAt.isSome && dependsOn state t.id task.id)
    "conflict: a downstream Task has already started"
  let resumed := state.modifyTask i Task.resumed
  pure (resumed.modifyJob j Job.reopened)

def leavingStatus : TaskCommand → TaskStatus
  | .done => .done
  | .fail => .failed
  | .cancel => .cancelled
  | .wait => .waitingUser
  | _ => .blocked

/-- The reason a Task stops for, which only a finished or cancelled Task goes without. -/
def leavingReason (request : Value) (next : TaskStatus) : Fallible (Option String) :=
  if next = .blocked ∨ next = .waitingUser ∨ next = .failed then
    some <$> required request "reason"
  else .ok none

/-- `task.block`, `wait`, `done`, `fail`, `cancel` and `release`. -/
def leaveTask (state : Snapshot) (i : Fin state.tasks.length) (command : TaskCommand)
    (request : Value) (now : Int) (finishHuman : Bool) : Fallible Snapshot := do
  let task := state.tasks.get i
  let finishBlocked := command = .done ∧ task.status = .blocked
  ensure (command = .done ∧ ¬ finishBlocked ∧ ¬ finishHuman → task.phase = some .executing)
    "conflict: Task must be EXECUTING before done; call start first"
  let next := leavingStatus command
  ensure (finishHuman ∨ task.status.allows next)
    s!"invalid: transition {task.status.text} -> {next.text}"
  let reason ← leavingReason request next
  let left := state.modifyTask i fun task =>
    { task with
      completedAt := if next.terminal then some now else none
      status := next
      phase := none
      reason
      systemBlock := false }
  pure { left with leases := left.leases.filter fun l => l.taskId ≠ task.id }

def aggregatedJob (job : Job) (wasReady ready : Bool) (now : Int) : Job :=
  let job := if job.status = .active ∧ !wasReady ∧ ready then
      let status := readyStatus job.reviewPolicy
      { job with
        status
        pendingReviewAt := if status = .pendingReview then some now else none
        completedAt := if status = .completed then some now else none
        reviewReason := none }
    else job
  { job with revision := job.revision + 1, updatedAt := now }

/-- The Job of a changed Task follows the readiness of its Tasks. -/
def aggregateJob (state : Snapshot) (index : Nat) (jobId : String) (wasReady : Bool) (now : Int) :
    Snapshot :=
  state.modifyJob index fun job => aggregatedJob job wasReady (jobReady state jobId) now

def changeTask (env : Env) (state : Snapshot) (i : Fin state.tasks.length)
    (j : Fin state.jobs.length) (command : TaskCommand) (request : Value) (now : Int)
    (finishHuman : Bool) : Fallible Snapshot :=
  match command with
  | .claim => claim state i (env.newId "lease" 0) request now
  | .start => startTask state i j now
  | .heartbeat => do
    let task := state.tasks.get i
    let held := state.leases.findIdx? fun l => l.taskId = task.id
    let l ← orElseError held "conflict: no active lease"
    pure { state with leases := state.leases.modify l fun lease =>
      { lease with leaseExpiresAt := leaseExpiry now } }
  | .update => editTask env state i j request
  | .depend => dependTask state i request true
  | .undepend => dependTask state i request false
  | .retry => resumeTask state i j true
  | .reopen => resumeTask state i j false
  | .block | .wait | .done | .fail | .cancel | .release =>
    leaveTask state i command request now finishHuman
  | .planRegister => .error "invalid: unknown command plan.register"
  | .unknown text => .error s!"invalid: unknown command {text}"

/-- A completion policy replaces the Job's when the command finished its last open Task. -/
def applyCompletion (changed : Snapshot) (j : Nat) (jobId : String) (wasReady : Bool)
    (completion : Option ReviewPolicy) : Fallible Snapshot :=
  match completion with
  | none => .ok changed
  | some policy => do
    ensure (¬ wasReady ∧ jobReady changed jobId)
      "conflict: completion policy requires the final unfinished Task"
    pure (changed.modifyJob j fun job => { job with reviewPolicy := policy })

def updateTask (env : Env) (state : Snapshot) (command : TaskCommand) (request : Value)
    (options : WriteOptions) (now : Int) : Fallible (Snapshot × Reply) := do
  let i ← state.taskIndex (← required request "task")
  let task := state.tasks.get i
  let j ← state.jobIndex task.jobId
  let job := state.jobs.get j
  let wasReady := jobReady state task.jobId
  let completion ← completionPolicy job request
  checkRevision task.revision options
  let p ← state.projectIndex task.projectId
  ensure ((state.projects.get p).archivedAt = none) "conflict: Project is archived"
  ensure (job.archivedAt = none ∧ job.status ≠ .cancelled) "conflict: Job is archived or cancelled"
  let finishHuman : Bool :=
    command = .done ∧ options.actorRef = "user:obsidian" ∧ !task.status.terminal
  let _ ← (if command ≠ .claim ∧ ¬ finishHuman then authorize state task options now else .ok ())
  let finishBlocked := command = .done ∧ task.status = .blocked
  ensure ((command = .planRegister ∨ command = .start ∨ command = .done) ∧ ¬ finishBlocked ∧
      ¬ finishHuman → task.status = .inProgress ∧ ∃ l ∈ state.leases, l.taskId = task.id)
    s!"conflict: {(Command.task command).text} requires an active Task lease"
  if command = .planRegister then registerPlan state i request now
  else do
    let changed ← changeTask env state i j command request now finishHuman
    let changed := changed.modifyTask i fun task => task.stamped now
    let changed ← applyCompletion changed j task.jobId wasReady completion
    let after := aggregateJob changed j job.id wasReady now
    let result ← taskResult after task.id
    pure (after, result)

/-! ## Sessions -/

def Task.blockedBySystem (task : Task) (reason : String) (now : Int) : Task :=
  { task with
    status := .blocked, phase := none, reason := some reason, systemBlock := true,
    revision := task.revision + 1, updatedAt := now }

def systemBlock (state : Snapshot) (index : Fin state.tasks.length) (reason : String)
    (now : Int) : Snapshot :=
  let task := state.tasks.get index
  let blocked := state.modifyTask index fun task => task.blockedBySystem reason now
  { blocked with leases := blocked.leases.filter fun l => l.taskId ≠ task.id }

def ofSession (task : Task) (session : String) (host : Option String) : Bool :=
  task.lastSession = some session && host.all fun host =>
    task.lastExecutor.any fun executor => executor = host || startsWith executor s!"{host}:"

/-- One round of the loop of `session`: whether Task `i` changed, and the next state. -/
def sessionTask (env : Env) (state : Snapshot) (i : Fin state.tasks.length)
    (command : SessionCommand) (session : String) (now : Int) : Snapshot × Bool :=
  let task := state.tasks.get i
  match command with
  | .finish | .interrupt =>
    let reason := if command = .interrupt then "session interrupted" else "session ended"
    if task.status = .inProgress then (systemBlock state i reason now, true) else (state, false)
  | .start =>
    if task.systemBlock ∧ task.status = .blocked then
      let optional := fun text : Option String => text.elim Value.null Value.string
      let request := Value.object [("executor", optional task.lastExecutor),
        ("session", .string session), ("delegated_by", optional task.delegatedBy)]
      match claim state i (env.newId "lease" i) request now with
      | .ok claimed =>
        (claimed.modifyTask i fun task => task.stamped now, true)
      | .error _ => (state, false)
    else (state, false)
  | .heartbeat =>
    ({ state with leases := state.leases.map fun l =>
      if l.taskId = task.id ∧ l.sessionRef = session then
        { l with leaseExpiresAt := leaseExpiry now }
      else l }, false)

def sessionLoop (env : Env) (command : SessionCommand) (session : String) (host : Option String)
    (now : Int) : List Nat → Snapshot → List String → Snapshot × List String
  | [], state, changed => (state, changed)
  | i :: rest, state, changed =>
    if h : i < state.tasks.length then
      let task := state.tasks.get ⟨i, h⟩
      if ofSession task session host then
        let round := sessionTask env state ⟨i, h⟩ command session now
        sessionLoop env command session host now rest round.1
          (if round.2 then changed ++ [task.id] else changed)
      else sessionLoop env command session host now rest state changed
    else (state, changed)

def applySession (env : Env) (state : Snapshot) (command : SessionCommand) (request : Value)
    (now : Int) : Fallible (Snapshot × Reply) := do
  let session ← required request "session"
  let host := (request.index "executor").asStr
  let (after, changed) := sessionLoop env command session host now
    (List.range state.tasks.length) state []
  pure (after, .value [("session_ref", .string session),
    ("tasks", .array (changed.map Value.string))])

/-! ## Dispatch -/

def attachConversation (state : Snapshot) (request : Value) (options : WriteOptions) :
    Fallible (Snapshot × Reply) := do
  let i ← state.jobIndex (← required request "job")
  let job := state.jobs.get i
  checkRevision job.revision options
  ensure (job.status = .active ∧ job.archivedAt = none)
    "conflict: conversation attachment requires an ACTIVE Job"
  pure (state, .job job)

def stageSession (state : Snapshot) (request : Value) : Snapshot × Reply :=
  match request.index "recorded_job" with
  | .string job => (state, .value [("job_id", .string job), ("recorded", .integer 0),
      ("unchanged", .bool true)])
  | _ => (state, .value [("staged", .bool true), ("recorded", .integer 0)])

/-- `job.create`, `job.update` and `job.followup` end by linking the Job to the chosen Issue. -/
def linkJob (state : Snapshot) (job : Job) (request : Value) (now : Int) :
    Fallible (Snapshot × Reply) := do
  ensure (¬ blank job.id) "invalid: id must not be blank"
  let linked ← associate state job.id request now
  let i ← linked.jobIndex job.id
  pure (linked, .job (linked.jobs.get i))

def dispatch (env : Env) (state : Snapshot) (command : Command) (request : Value)
    (options : WriteOptions) (now : Int) : Fallible (Snapshot × Reply) :=
  match command with
  | .issue command => applyIssue env state command request options now
  | .milestone command => applyMilestone env state command request options now
  | .project .register => registerProject env state request now
  | .project .move => moveProject env state request options
  | .project .rename | .project .relocate => renameProject state request options
  | .project .delete => applyDeletion state request options true
  | .jobDelete => applyDeletion state request options false
  | .project .archive => archiveProject state request options now true
  | .project .unarchive => archiveProject state request options now false
  | .sessionRecord => recordConversation state request options now
  | .sessionStage => .ok (stageSession state request)
  | .conversationAttach => attachConversation state request options
  | .jobCreate => do
    let (created, job) ← createJob env state request options now
    linkJob created job request now
  | .job command => do
    let (updated, job) ← updateJob env state command request options now
    if command = .update ∨ command = .followup then linkJob updated job request now
    else pure (updated, .job job)
  | .taskAdd => addTask env state request options now
  | .session command => applySession env state command request now
  | .task command => updateTask env state command request options now
  | .unknown text => .error s!"invalid: unknown command {text}"

def Value.command (request : Value) : Fallible Command :=
  Command.parse <$> required request "command"

/-- `mutations::apply`. -/
def apply (env : Env) (state : Snapshot) (request : Value) (options : WriteOptions) (now : Int) :
    Fallible (Snapshot × Reply) := do
  validateRequest request
  let command ← request.command
  ensure ((request.get? "completion_policy").isNone ∨ command = .task .done ∨
      command = .task .cancel ∨ command = .job .submit)
    "invalid: completion_policy requires task.done, task.cancel or job.submit"
  dispatch env state command request options now

/-- `Store::reap_expired` on a full snapshot: the Task of every expired lease is blocked. -/
def reapTasks (now : Int) : List String → Snapshot → Fallible Snapshot
  | [], state => .ok state
  | task :: rest, state => do
    let i ← state.taskIndex task
    reapTasks now rest (systemBlock state i "lease expired" now)

def reapExpired (state : Snapshot) (now : Int) : Fallible Snapshot :=
  reapTasks now ((state.leases.filter fun l => l.leaseExpiresAt ≤ now).map Lease.taskId) state

end Agentix.TaskStore
