import Agentix.TaskStore.Checks

/-! # Issues and Milestones

Project deliverables are independent from individual execution rounds.
-/

namespace Agentix.TaskStore

open Lib

/-! ## Guards -/

def applyContentHashes (issue : Issue) (hash reviewHash : String) : Fallible (Issue × Bool) := do
  let changed := issue.contentHash ≠ hash
  ensure (!issue.status.terminal ∨ ¬ changed)
    "conflict: reopen terminal Issue before updating content"
  let issue := if issue.status = .pendingReview ∧ issue.reviewContentHash ≠ reviewHash then
    { issue with status := .active, pendingReviewAt := none, reviewReason := none }
  else issue
  pure ({ issue with contentHash := hash, reviewContentHash := reviewHash }, changed)

def human (options : WriteOptions) : Fallible Unit :=
  ensure (startsWith options.actorRef "user:") "forbidden: Issue acceptance requires a human actor"

def optionalId (state : Snapshot) (request : Value) (key : String) : Fallible (Option String) :=
  match request.get? key with
  | none | some .null => .ok none
  | some (.string id) => do
    let i ← state.milestoneIndex id
    pure (some (state.milestones.get i).id)
  | _ => .error s!"invalid: {key} must be a single identifier or null"

def milestoneProject (state : Snapshot) (id : Option String) (project : String) :
    Fallible Unit :=
  match id with
  | none => .ok ()
  | some id => do
    let i ← state.milestoneIndex id
    ensure ((state.milestones.get i).projectId = project)
      "invalid: Milestone must belong to the same Project"

def IssueType.ofValue (value : Value) : Option IssueType :=
  match value.tag with
  | some "feature" => some .feature
  | some "bug" => some .bug
  | some "enhancement" => some .enhancement
  | some "documentation" => some .documentation
  | some "question" => some .question
  | some "refactor" => some .refactor
  | _ => none

/-- `serde_json::from_value::<Option<IssueType>>`. -/
def issueType (value : Value) : Fallible (Option IssueType) :=
  match value with
  | .null => .ok none
  | value => some <$> orElseError (IssueType.ofValue value) "invalid: unknown Issue type"

/-- The document of a renamed row stays in its folder. -/
def renamedPath (env : Env) (path name : String) (createdAt : Int) (sequence : Nat)
    (failure : String) : Fallible String := do
  let (parent, _) ← orElseError (rsplitOnce '/' path) failure
  let filename ← numberedName env name createdAt sequence
  pure s!"{parent}/{filename}.md"

def renamedDocument (env : Env) (renamed : Option String) (name path : String)
    (createdAt : Int) (sequence : Nat) (failure : String) : Fallible (String × String) :=
  match renamed with
  | none => .ok (name, path)
  | some name => do
    let path ← renamedPath env path name createdAt sequence failure
    pure (name, path)

def terminalJobs (state : Snapshot) (issue : String) : Fallible Unit :=
  ensure ((state.queryContext.issueActiveJobs.lookup issue).getD false = false ∧
      ∀ job ∈ state.jobs, job.issueId = some issue → job.status.terminal)
    "conflict: all associated Jobs must be terminal before Issue acceptance"

/-- An Issue that accepts new work. -/
def writable (state : Snapshot) (issue : String) : Fallible (Fin state.issues.length) := do
  let i ← state.issueIndex issue
  let row := state.issues.get i
  ensure ((row.status = .todo ∨ row.status = .active) ∧ row.archivedAt = none)
    "conflict: reject pending review or reopen terminal Issue before new work"
  pure i

def Issue.activated (issue : Issue) (now : Int) : Issue :=
  if issue.status = .todo then
    { issue with
      status := .active, startedAt := some now, updatedAt := now, revision := issue.revision + 1 }
  else issue

def activate (state : Snapshot) (index : Nat) (now : Int) : Snapshot :=
  state.modifyIssue index fun issue => issue.activated now

/-! ## Cancellation -/

def openJobs (state : Snapshot) (issue : String) : List String :=
  (state.jobs.filter fun j => j.issueId = some issue ∧ !j.status.terminal).map Job.id

def Task.cancelledByIssue (task : Task) (now : Int) : Task :=
  { task with
    status := .cancelled, phase := none, completedAt := some now,
    reason := some "Associated Issue cancelled by a human", systemBlock := false,
    updatedAt := now, revision := task.revision + 1 }

def Job.cancelledByIssue (job : Job) (now : Int) : Job :=
  { job with
    status := .cancelled, cancelledAt := some now, updatedAt := now,
    revision := job.revision + 1 }

def cancelJobs (state : Snapshot) (issue : String) (now : Int) : Snapshot :=
  let jobs := openJobs state issue
  let tasks := (state.tasks.filter fun t => t.jobId ∈ jobs).map Task.id
  { state with
    leases := state.leases.filter fun lease => lease.taskId ∉ tasks
    tasks := state.tasks.map fun t =>
      if t.id ∈ tasks ∧ !t.status.terminal then t.cancelledByIssue now else t
    jobs := state.jobs.map fun j => if j.id ∈ jobs then j.cancelledByIssue now else j }

/-! ## Issue commands -/

def createIssue (env : Env) (state : Snapshot) (request : Value) (now : Int) :
    Fallible (Snapshot × Reply) := do
  let p ← state.projectIndex (← required request "project")
  let project := state.projects.get p
  ensure (project.archivedAt = none) "conflict: Project is archived"
  let title ← required request "title"
  let name := entityName env state project.id "issue" none
    ((request.index "name").asStr.getD title)
  let number ← sequence state project.id "issue" now
  let milestoneId ← optionalId state request "milestone"
  milestoneProject state milestoneId project.id
  let issueType ← issueType (request.index "issue_type")
  let filename ← numberedName env name now number
  let issue : Issue :=
    { issueType
      id := (request.index "id").asStr.getD (env.newId "issue" 0)
      projectId := project.id
      milestoneId
      title
      documentPath := s!"{project.directory}/Issues/{filename}.md"
      name
      sequence := number
      contentHash := (request.index "content_hash").asStr.getD ""
      reviewContentHash := (request.index "review_content_hash").asStr.getD ""
      status := .todo
      reviewReason := none
      revision := 1
      createdAt := now
      updatedAt := now
      startedAt := none
      pendingReviewAt := none
      completedAt := none
      cancelledAt := none
      archivedAt := none }
  pure ({ state with issues := state.issues ++ [issue] }, .issue issue)

/-- `issue_type`, where the request has it. -/
def retypedIssue (request : Value) (issue : Issue) : Fallible Issue :=
  if (request.get? "issue_type").isSome then do
    let kind ← issueType (request.index "issue_type")
    ensure (!issue.status.terminal ∨ issue.issueType = kind)
      "conflict: reopen terminal Issue before updating type"
    pure { issue with issueType := kind }
  else .ok issue

/-- The edited row of `issue.update`. -/
def updatedIssue (env : Env) (request : Value) (original : Issue)
    (renamed milestone : Option String) : Fallible Issue := do
  let (name, documentPath) ← renamedDocument env renamed original.name original.documentPath
    original.createdAt original.sequence "invalid: Issue path"
  let title ← requiredIfPresent request "title"
  let issue := { original with documentPath, name, title := title.getD original.title }
  let (issue, _) ← applyContentHashes issue
    ((request.index "content_hash").asStr.getD original.contentHash)
    ((request.index "review_content_hash").asStr.getD original.reviewContentHash)
  let issue := if (request.get? "milestone").isSome then
    { issue with milestoneId := milestone } else issue
  retypedIssue request issue

/-- The row an Issue transition leaves, before its revision is raised. -/
def issueTransition (env : Env) (state : Snapshot) (request : Value) (options : WriteOptions)
    (now : Int) (project : Project) (original : Issue) (renamed milestone : Option String) :
    IssueCommand → Fallible Issue
  | .update => updatedIssue env request original renamed milestone
  | .submit => do
    ensure (original.status = .todo ∨ original.status = .active)
      "conflict: Issue must be TODO or ACTIVE to submit"
    terminalJobs state original.id
    pure { original with
      status := .pendingReview, pendingReviewAt := some now, reviewReason := none }
  | .approve => do
    human options
    ensure (original.status = .pendingReview) "conflict: Issue must be PENDING_REVIEW"
    terminalJobs state original.id
    pure { original with status := .completed, completedAt := some now }
  | .reject => do
    human options
    ensure (original.status = .pendingReview) "conflict: Issue must be PENDING_REVIEW"
    let reason ← required request "reason"
    pure { original with status := .active, reviewReason := some reason, pendingReviewAt := none }
  | .cancel => do
    human options
    ensure (!original.status.terminal) "conflict: reopen terminal Issue before cancelling"
    pure { original with status := .cancelled, cancelledAt := some now }
  | .reopen => do
    human options
    ensure original.status.terminal "conflict: only terminal Issues can be reopened"
    pure { original with
      status := .todo, startedAt := none, pendingReviewAt := none, completedAt := none,
      cancelledAt := none, reviewReason := none }
  | .archive => archiveIssue true
  | .unarchive => archiveIssue false
  | .unknown text => .error s!"invalid: unknown command {text}"
  -- These two return before the common transition.
  | .create => .error "invalid: unknown command issue.create"
  | .start => .error "invalid: unknown command issue.start"
where
  archiveIssue (archive : Bool) : Fallible Issue := do
    ensure (archive = original.archivedAt.isNone) "conflict: Issue archive state unchanged"
    ensure original.status.terminal "conflict: complete or cancel Issue before archiving"
    let filename ← numberedName env original.name original.createdAt original.sequence
    let folder := if archive then "Archived/" else ""
    pure { original with
      archivedAt := if archive then some now else none
      documentPath := s!"{project.directory}/Issues/{folder}{filename}.md" }

def applyIssue (env : Env) (state : Snapshot) (command : IssueCommand) (request : Value)
    (options : WriteOptions) (now : Int) : Fallible (Snapshot × Reply) := do
  ensure (∀ key ∈ ["requirement", "acceptance", "notes"], (request.get? key).isNone)
    "invalid: Issue content must be written through the document service"
  if command = .create then createIssue env state request now
  else do
    let index ← state.issueIndex (← required request "issue")
    let original := state.issues.get index
    checkRevision original.revision options
    let p ← state.projectIndex original.projectId
    let project := state.projects.get p
    ensure (project.archivedAt = none) "conflict: Project is archived"
    ensure (command = .unarchive ∨ original.archivedAt = none) "conflict: Issue is archived"
    let name ← requiredIfPresent request "name"
    let renamed := name.map (entityName env state original.projectId "issue" (some original.id))
    let milestone ← optionalId state request "milestone"
    -- An absent Milestone is `none`, which belongs to every Project.
    milestoneProject state milestone original.projectId
    if command = .start then do
      human options
      ensure (original.status = .todo) "conflict: only a TODO Issue can be started"
      pure (activate state index now, .issue (original.activated now))
    else do
      let row ← issueTransition env state request options now project original renamed milestone
        command
      let row := { row with revision := row.revision + 1, updatedAt := now }
      let state := if command = .cancel then cancelJobs state original.id now else state
      pure (state.modifyIssue index fun _ => row, .issue row)

/-! ## Association -/

/-- A field of the selection that the request was made on still has its value. -/
def checkSelected (value : Option Value) (same : Value → Bool) (message : String) :
    Fallible Unit :=
  match value with
  | none | some .null => .ok ()
  | some value => ensure (same value) message

/-- The Issue a Job is linked to, checked against the selection the request was made on. -/
def associate (state : Snapshot) (job : String) (request : Value) (now : Int) :
    Fallible Snapshot :=
  match request.get? "issue" with
  | none => .ok state
  | some value => do
    let j ← state.jobIndex job
    match value with
    | .null => pure (state.modifyJob j fun job => { job with issueId := none })
    | .string text => do
      let selected ← state.issueIndex text
      let i ← state.issueIndex (state.issues.get selected).id
      let issue := state.issues.get i
      let row := state.jobs.get j
      checkSelected (request.get? "issue_revision") (·.asI64 = some issue.revision)
        "conflict: selected Issue revision changed"
      checkSelected (request.get? "issue_content_hash") (·.asStr = some issue.contentHash)
        "conflict: selected Issue requirement changed"
      ensure (issue.projectId = row.projectId) "invalid: Issue must belong to the same Project"
      let linked := state.modifyJob j fun job => { job with issueId := some issue.id }
      if row.status.terminal then pure linked
      else do
        let _ ← writable state issue.id
        pure (if row.startedAt.isSome then activate linked i now else linked)
    | _ => .error "invalid: issue must be a single identifier or null"

/-! ## Milestone commands -/

def dueDate (env : Env) (request : Value) : Fallible (Option String) :=
  match request.get? "due_date" with
  | none | some .null => .ok none
  | some (.string date) => do
    ensure (env.isDate date) "invalid: due_date must be YYYY-MM-DD"
    pure (some date)
  | _ => .error "invalid: due_date must be YYYY-MM-DD or null"

def milestoneOrder (request : Value) (absent : Int) : Fallible Int :=
  match request.get? "order" with
  | none => .ok absent
  | some order => orElseError order.asI64 "invalid: order must be an integer"

def createMilestone (env : Env) (state : Snapshot) (request : Value) (now : Int) :
    Fallible (Snapshot × Reply) := do
  let p ← state.projectIndex (← required request "project")
  let project := state.projects.get p
  ensure (project.archivedAt = none) "conflict: Project is archived"
  let title ← required request "title"
  let name := entityName env state project.id "milestone" none
    ((request.index "name").asStr.getD title)
  let number ← sequence state project.id "milestone" now
  let filename ← numberedName env name now number
  let order ← milestoneOrder request 0
  let date ← dueDate env request
  let milestone : Milestone :=
    { status := .planned
      startedAt := none
      completedAt := none
      cancelledAt := none
      archivedAt := none
      id := env.newId "milestone" 0
      projectId := project.id
      title
      documentPath := s!"{project.directory}/Milestones/{filename}.md"
      name
      sequence := number
      goal := (request.index "goal").asStr.getD ""
      order
      dueDate := date
      revision := 1
      createdAt := now
      updatedAt := now }
  pure ({ state with milestones := state.milestones ++ [milestone] }, .milestone milestone)

/-- The edited row of `milestone.update`. -/
def updatedMilestone (env : Env) (state : Snapshot) (request : Value) (original : Milestone) :
    Fallible Milestone := do
  let renamed := (request.get? "name").map fun _ =>
    entityName env state original.projectId "milestone" (some original.id)
      ((request.index "name").asStr.getD "")
  let date ← dueDate env request
  let title ← requiredIfPresent request "title"
  let milestone := { original with title := title.getD original.title }
  let (name, documentPath) ← renamedDocument env renamed original.name original.documentPath
    original.createdAt original.sequence "invalid: Milestone path"
  let milestone := { milestone with documentPath, name }
  let milestone := { milestone with goal := (request.index "goal").asStr.getD milestone.goal }
  let order ← milestoneOrder request milestone.order
  let milestone := { milestone with order }
  pure (if (request.get? "due_date").isSome then { milestone with dueDate := date } else milestone)

/-- The row a Milestone transition leaves, before its revision is raised. -/
def milestoneTransition (env : Env) (state : Snapshot) (directory : String) (now : Int)
    (original : Milestone) : MilestoneCommand → Fallible Milestone
  | .start => do
    ensure (original.status = .planned) "conflict: only a PLANNED Milestone can be started"
    pure { original with status := .active, startedAt := some now }
  | .complete => do
    ensure (!original.status.terminal) "conflict: reopen terminal Milestone first"
    ensure ((state.queryContext.milestoneActiveIssues.lookup original.id).getD false = false ∧
        ∀ issue ∈ state.issues, issue.milestoneId = some original.id → issue.status.terminal)
      "conflict: Milestone has unfinished Issues; complete, cancel or reassign them first"
    pure { original with status := .completed, completedAt := some now }
  | .cancel => do
    ensure (!original.status.terminal) "conflict: reopen terminal Milestone first"
    pure { original with status := .cancelled, cancelledAt := some now }
  | .reopen => do
    ensure original.status.terminal "conflict: only terminal Milestones can be reopened"
    pure { original with
      status := .planned, startedAt := none, completedAt := none, cancelledAt := none }
  | .archive => archiveMilestone true
  | .unarchive => archiveMilestone false
  | .unknown text => .error s!"invalid: unknown command {text}"
  -- These three are handled before the transitions.
  | .create => .error "invalid: unknown command milestone.create"
  | .update => .error "invalid: unknown command milestone.update"
  | .delete => .error "invalid: unknown command milestone.delete"
where
  archiveMilestone (archive : Bool) : Fallible Milestone := do
    ensure (archive = original.archivedAt.isNone) "conflict: Milestone archive state unchanged"
    ensure original.status.terminal "conflict: complete or cancel Milestone before archiving"
    let filename ← numberedName env original.name original.createdAt original.sequence
    let folder := if archive then "Archived/" else ""
    pure { original with
      archivedAt := if archive then some now else none
      documentPath := s!"{directory}/Milestones/{folder}{filename}.md" }

/-- `milestone.delete`. -/
def deleteMilestone (state : Snapshot) (i : Fin state.milestones.length) :
    Fallible (Snapshot × Reply) := do
  let original := state.milestones.get i
  ensure (∀ issue ∈ state.issues, issue.milestoneId ≠ some original.id)
    "conflict: unlink or reassign Issues before deleting Milestone"
  let key := sequenceKey original.projectId "milestone" original.createdAt
  pure ({ state with
      milestones := state.milestones.eraseIdx i
      documentSequences := raiseSequence state.documentSequences key original.sequence },
    .value [("id", .string original.id), ("deleted", .bool true)])

def applyMilestone (env : Env) (state : Snapshot) (command : MilestoneCommand) (request : Value)
    (options : WriteOptions) (now : Int) : Fallible (Snapshot × Reply) := do
  if command = .create then createMilestone env state request now
  else do
    let i ← state.milestoneIndex (← required request "milestone")
    let original := state.milestones.get i
    checkRevision original.revision options
    let p ← state.projectIndex original.projectId
    let project := state.projects.get p
    ensure (project.archivedAt = none) "conflict: Project is archived"
    ensure (command = .unarchive ∨ original.archivedAt = none) "conflict: Milestone is archived"
    if command = .delete then deleteMilestone state i
    else do
      let row ← (if command = .update then updatedMilestone env state request original
        else milestoneTransition env state project.directory now original command)
      let row := { row with revision := row.revision + 1, updatedAt := now }
      pure ({ state with milestones := state.milestones.modify i fun _ => row }, .milestone row)

end Agentix.TaskStore
