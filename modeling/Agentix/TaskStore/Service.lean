import Agentix.Lib.Fallible
import Agentix.TaskStore.Store

/-! # The service

The service runs the commands of the store and keeps the documents of the vault in step: it
imports what was edited in them before a command and publishes what changed after it.
-/

namespace Agentix.TaskStore

open Lib

/-! ## The vault -/

structure IssueContent where
  requirement : String := ""
  acceptance : String := ""
  notes : String := ""
  deriving DecidableEq, Repr

/-- The document of an Issue, with the title and type edited in it. -/
structure IssueDocument where
  content : IssueContent
  title : Option String := none
  issueType : Option Value := none

/-- The edits in the document of a Milestone. -/
structure MilestoneDocument where
  goal : Option String := none
  title : Option String := none

/-- A published Project folder that was found elsewhere. -/
structure FolderMove where
  project : String
  name : String
  directory : String
  revision : Int

/-- What the service reads in the vault.  Where it looks depends on the database. -/
structure Vault where
  /-- Everything that can fail in `lock_output` apart from its imports. -/
  lockFile : Database → Fallible Unit
  folderMoves : Database → Fallible (List FolderMove)
  /-- The archived and unarchived Projects whose folder was moved, and where to. -/
  relocations : Database → Fallible (List (Project × String))
  issueDocument : Database → Issue → Fallible (Option IssueDocument)
  milestoneDocument : Database → Milestone → Fallible (Option MilestoneDocument)
  /-- `Service::issue_content`. -/
  issueContent : Database → String → Fallible IssueContent
  contentHash : IssueContent → String
  reviewHash : IssueContent → String
  /-- The text of a Plan file. -/
  planFile : String → Fallible String
  /-- The text below the properties of a document. -/
  belowProperties : String → Fallible String
  /-- A file at the path of a Plan that is not the Task's own document. -/
  planTaken : String → Task → Bool
  planHash : String → String
  /-- The documents that wait for publication. -/
  pending : Database → Fallible (List String)
  /-- The rows whose documents are imported before a pending document is rendered. -/
  importedWith : Database → String → Snapshot
  render : Database → String → Fallible Unit

/-! ## Importing documents -/

/-- `Store::request_snapshot`. -/
def requestSnapshot (host : Host) (request : Value) (now : Int) : Served Database Snapshot :=
  Served.query fun db => loadRequest host db request now

/-- `Store::execute`, whose reaping stays when the command fails. -/
def storeExecute (host : Host) (request : Value) (options : WriteOptions) (now : Int) :
    Served Database Outcome := do
  Served.query fun _ => validatePublicHashes request
  Served.transaction fun db => do
    let db ← reap db now
    pure (db, ())
  Served.transaction fun db => executeAs host db request options request now

def moveRequest (move : FolderMove) : Value × WriteOptions :=
  (.object [("command", .string "project.rename"), ("project", .string move.project),
      ("name", .string move.name), ("directory", .string move.directory)],
    { expectedRevision := some move.revision, actorRef := "user:obsidian" })

def relocateRequest (project : Project) (directory : String) : Value × WriteOptions :=
  (.object [("command", .string "project.relocate"), ("project", .string project.id),
      ("name", .string project.name), ("directory", .string directory)],
    { expectedRevision := some project.revision, actorRef := "system:projection" })

def executeEach (host : Host) (now : Int) : List (Value × WriteOptions) → Served Database Unit
  | [] => pure ()
  | (request, options) :: rest => do
    let _ ← storeExecute host request options now
    executeEach host now rest

/-- Every candidate is validated before any move is imported. -/
def validateMoves (host : Host) (now : Int) : List (Value × WriteOptions) → Served Database Unit
  | [] => pure ()
  | (request, options) :: rest => do
    let state ← requestSnapshot host request now
    let _ ← Served.query fun _ => renameProject state request options
    validateMoves host now rest

/-- `Service::lock_output`. -/
def lockOutput (host : Host) (vault : Vault) (now : Int) : Served Database Unit := do
  Served.query vault.lockFile
  let moves ← Served.query vault.folderMoves
  let requests := moves.map moveRequest
  validateMoves host now requests
  executeEach host now requests
  let relocations ← Served.query vault.relocations
  executeEach host now (relocations.map fun relocation =>
    relocateRequest relocation.1 relocation.2)

/-- The revisions of an imported row before and after, the latest import first. -/
abbrev Imported := List (String × Int × Int)

/-- `result["revision"].as_i64()` of an imported row. -/
def Reply.revision? : Reply → Option Int
  | issue row => some row.revision
  | milestone row => some row.revision
  | _ => none

def issueImport (vault : Vault) (issue : Issue) (document : IssueDocument) : Value :=
  .object ([("command", .string "issue.update"), ("issue", .string issue.id),
      ("content_hash", .string (vault.contentHash document.content)),
      ("review_content_hash", .string (vault.reviewHash document.content))] ++
    (document.issueType.elim [] fun kind => [("issue_type", kind)]) ++
    (document.title.elim [] fun title => [("title", .string title), ("name", .string title)]))

def reconcileIssues (host : Host) (vault : Vault) (now : Int) :
    List Issue → Imported → Served Database Imported
  | [], imported => pure imported
  | issue :: rest, imported => do
    match ← Served.query fun db => vault.issueDocument db issue with
    | none => reconcileIssues host vault now rest imported
    | some document =>
      if vault.contentHash document.content ≠ issue.contentHash ∨ document.title.isSome ∨
          document.issueType.isSome then do
        let request := issueImport vault issue document
        let options : WriteOptions :=
          { actorRef := "user:obsidian", expectedRevision := some issue.revision }
        let outcome ← Served.transaction fun db => executeAs host db request options request now
        let revision ← Served.query fun _ =>
          orElseError outcome.result.revision? "missing imported revision"
        reconcileIssues host vault now rest ((issue.id, issue.revision, revision) :: imported)
      else reconcileIssues host vault now rest imported

def milestoneImport (milestone : Milestone) (document : MilestoneDocument) : Value :=
  .object ([("command", .string "milestone.update"), ("milestone", .string milestone.id)] ++
    (document.goal.elim [] fun goal => [("goal", .string goal)]) ++
    (document.title.elim [] fun title => [("title", .string title), ("name", .string title)]))

def reconcileMilestones (host : Host) (vault : Vault) (now : Int) :
    List Milestone → Imported → Served Database Imported
  | [], imported => pure imported
  | milestone :: rest, imported => do
    match ← Served.query fun db => vault.milestoneDocument db milestone with
    | none => reconcileMilestones host vault now rest imported
    | some document =>
      if document.goal.isSome ∨ document.title.isSome then do
        let outcome ← storeExecute host (milestoneImport milestone document)
          { actorRef := "user:obsidian", expectedRevision := some milestone.revision } now
        let revision ← Served.query fun _ =>
          orElseError outcome.result.revision? "missing imported revision"
        reconcileMilestones host vault now rest
          ((milestone.id, milestone.revision, revision) :: imported)
      else reconcileMilestones host vault now rest imported

/-- `reconcile_issue_documents_locked`, for the rows of a snapshot. -/
def reconcileDocuments (host : Host) (vault : Vault) (selected : Snapshot) (now : Int) :
    Served Database Imported := do
  let imported ← reconcileIssues host vault now selected.issues []
  reconcileMilestones host vault now selected.milestones imported

/-! ## Publication -/

/-- Each pending document is tried once; the first failure is reported. -/
def renderEach (host : Host) (vault : Vault) (now : Int) : List String → Served Database (Option String)
  | [] => pure none
  | key :: rest => do
    let failure ← Served.recover (do
      let selected ← Served.query fun db => .ok (vault.importedWith db key)
      let _ ← reconcileDocuments host vault selected now
      Served.query fun db => vault.render db key
      pure none) fun error => pure (some error)
    let later ← renderEach host vault now rest
    pure (failure.or later)

/-- `sync_pending`, whose failure a command only reports. -/
def syncPending (host : Host) (vault : Vault) (now : Int) : Served Database (Option String) :=
  Served.recover (do
    lockOutput host vault now
    let keys ← Served.query vault.pending
    renderEach host vault now keys) fun error => pure (some error)

/-! ## Commands -/

/-- `Outcome`, with the failure of its publication. -/
structure Answer extends Outcome where
  projectionPending : Option String := none

/-- `result[name] == true`. -/
def Reply.flag (reply : Reply) (name : String) : Bool :=
  match reply with
  | .value fields => match fields.lookup name with
    | some (.bool true) => true
    | _ => false
  | _ => false

def draftOnly (command : String) (reply : Reply) : Bool :=
  reply.flag "staged" || (command = "session.record" && reply.flag "unchanged")

def archiving (command : String) : Bool :=
  command = "project.archive" || command = "project.unarchive"

/-- `Store::project_result`. -/
def projectResult (db : Database) (query : String) : Fallible Project := do
  let named := (db.rows.projects.filter fun p => p.name = query).map Project.id
  let id ← resolveId (db.rows.projects.map Project.id) named query
  orElseError (db.rows.projects.find? fun p => p.id = id) "missing Project"

def published (host : Host) (vault : Vault) (command : String) (outcome : Outcome) (now : Int) :
    Served Database Answer := do
  if draftOnly command outcome.result then pure { outcome with }
  else do
    let projectionPending ← syncPending host vault now
    if archiving command then do
      let id ← Served.query fun _ =>
        orElseError (outcome.result.id?.filter fun id => !blank id) "invalid: id must not be blank"
      let project ← Served.query fun db => projectResult db id
      pure { outcome with result := .project project, projectionPending }
    else pure { outcome with projectionPending }

def importless (command : String) : Bool :=
  command ∈ ["project.delete", "job.delete", "issue.start", "issue.submit", "issue.approve",
    "issue.reject", "issue.cancel", "issue.reopen", "issue.archive", "issue.unarchive"]

def writesAuthoredContent (command : String) (request : Value) : Bool :=
  match command with
  | "issue.update" =>
    ["requirement", "acceptance", "notes"].any fun field => (request.get? field).isSome
  | "milestone.update" => (request.get? "goal").isSome
  | "issue.approve" => true
  | _ => false

/-- Rebase only across our own serialized authoring import. -/
def rebased (command : String) (request : Value) (options : WriteOptions) (imported : Imported) :
    WriteOptions :=
  let target := (request.index "issue").asStr.or (request.index "milestone").asStr
  match target.bind fun id => imported.lookup id with
  | some (before, after) =>
    if !writesAuthoredContent command request ∧ options.expectedRevision = some before then
      { options with expectedRevision := some after }
    else options
  | none => options

/-- The commands that read Issues, Milestones or Plan files hold the lock of the vault. -/
def lockFor (host : Host) (vault : Vault) (command : String) (needsIssues : Bool) (now : Int) :
    Served Database Unit :=
  if command = "task.start" ∨ needsIssues then lockOutput host vault now else pure ()

def importFirst (host : Host) (vault : Vault) (command : String) (request : Value)
    (options : WriteOptions) (now : Int) : Served Database WriteOptions := do
  let state ← requestSnapshot host request now
  let needsIssues := !state.issues.isEmpty || startsWith command "issue." ||
    startsWith command "milestone."
  lockFor host vault command needsIssues now
  if needsIssues ∧ !importless command then do
    let imported ← reconcileDocuments host vault state now
    pure (rebased command request options imported)
  else pure options

def checkPlanFile (host : Host) (vault : Vault) (command : String) (request : Value)
    (options : WriteOptions) (now : Int) : Served Database Unit := do
  if command = "task.start" then
    match ← Served.query fun db => replay host db request options with
    | some _ => pure ()
    | none => do
      let state ← requestSnapshot host request now
      Served.query fun _ => do
        let _ ← apply host.toEnv state request options now
        let i ← state.taskIndex (← required request "task")
        let plan ← orElseError (state.plans.find? fun p =>
            some p.id = (state.tasks.get i).currentPlan)
          "invalid: current Plan is required before start"
        let body ← vault.belowProperties (← vault.planFile plan.path)
        ensure (!blank body) "invalid: current Plan is empty"
  else pure ()

/-- `request.as_object_mut().unwrap().remove(key)`. -/
def Value.remove (value : Value) (key : String) : Value :=
  match value with
  | .object fields => .object (fields.filter fun field => field.1 ≠ key)
  | other => other

/-- A field of the content, where the request has it. -/
def authoredText (request : Value) (key current : String) : Fallible String :=
  match request.get? key with
  | none => .ok current
  | some value => orElseError value.asStr s!"invalid: {key} must be text"

def authored (request : Value) : Bool :=
  ["requirement", "acceptance", "notes"].any fun field => (request.get? field).isSome

def hashedRequest (vault : Vault) (request : Value) (content : IssueContent) : Value :=
  ((((request.remove "requirement").remove "acceptance").remove "notes").set "content_hash"
    (.string (vault.contentHash content))).set "review_content_hash"
    (.string (vault.reviewHash content))

/-- The file names of Issue content are made of identifiers and hashes only. -/
def journalName (issue : Issue) : Bool :=
  startsWith issue.id "issue_" && issue.id.toList.all (fun c => c.isAlphanum || c = '_') &&
    issue.contentHash.toList.all fun c => c.isDigit || ('a' ≤ c && c ≤ 'f') || ('A' ≤ c && c ≤ 'F')

def baseContent (vault : Vault) (command : String) (request : Value) :
    Served Database IssueContent :=
  if command = "issue.create" then pure {}
  else do
    let id ← Served.query fun _ => orElseError (request.index "issue").asStr "missing Issue"
    Served.query fun db => vault.issueContent db id

def authoredContent (request : Value) (base : IssueContent) : Fallible IssueContent := do
  let requirement ← authoredText request "requirement" base.requirement
  let acceptance ← authoredText request "acceptance" base.acceptance
  let notes ← authoredText request "notes" base.notes
  pure { requirement, acceptance, notes }

/-- Validate before writing any journal, then repeat all guards in the transaction. -/
def checkJournal (env : Env) (preview : Snapshot) (request : Value) (options : WriteOptions)
    (now : Int) : Fallible Unit := do
  let (_, reply) ← apply env preview request options now
  match reply with
  | .issue issue => ensure (journalName issue) "invalid: Issue ID"
  | _ => .error "missing field"

/-- Issue prose belongs to the vault: its journal is written before the command, and the request
carries the hashes. -/
def hashContent (host : Host) (vault : Vault) (command : String) (request : Value)
    (options : WriteOptions) (now : Int) : Served Database Value := do
  let base ← baseContent vault command request
  let content ← Served.query fun _ => authoredContent request base
  let hashed := hashedRequest vault request content
  let preview ← requestSnapshot host hashed now
  Served.query fun _ => checkJournal host.toEnv preview hashed options now
  pure hashed

def prepareIssueContent (host : Host) (vault : Vault) (request : Value) (options : WriteOptions)
    (now : Int) : Served Database Value :=
  match (request.index "command").asStr with
  | some "issue.create" =>
    hashContent host vault "issue.create" (request.set "id" (.string (host.newId "issue" 0)))
      options now
  | some "issue.update" =>
    if authored request then hashContent host vault "issue.update" request options now
    else pure request
  | _ => pure request

/-- The withdrawal notices of a session's Jobs, at most 32, the latest first. -/
def issueCancellations (db : Snapshot) (session : String) : Value :=
  let jobs := db.jobs.filter fun j => j.sessionId = some session ||
    j.followupSessionId = some session ||
    db.tasks.any fun t => t.lastSession = some session && t.jobId = j.id
  let notices := jobs.flatMap fun j =>
    (db.issues.filter fun issue => j.issueId = some issue.id && issue.status = .cancelled).map
      fun issue => (issue, j.id)
  let later := fun (a b : Issue × String) =>
    (timeLe b.1.cancelledAt a.1.cancelledAt && !timeLe a.1.cancelledAt b.1.cancelledAt) ||
      (a.1.cancelledAt = b.1.cancelledAt && (b.1.id < a.1.id ||
        (a.1.id = b.1.id && decide (b.2 ≤ a.2))))
  .array (((notices.mergeSort later).take 32).map fun notice =>
    .object [("id", .string notice.1.id), ("job_id", .string notice.2)])

def notifies (command : String) : Bool :=
  command ∈ ["session.start", "session.heartbeat", "session.end"]

def notified (command : String) (request : Value) (outcome : Outcome) : Served Database Outcome :=
  match (request.index "session").asStr, outcome.result with
  | some session, .value fields =>
    if notifies command then
      Served.query fun db => .ok { outcome with
        result := .value (fields.filter (fun field => field.1 ≠ "issue_cancellations") ++
          [("issue_cancellations", issueCancellations db.rows session)]) }
    else pure outcome
  | _, _ => pure outcome

/-! ## Plans -/

def Plan.value (plan : Plan) : Value :=
  .object [("id", .string plan.id), ("task_id", .string plan.taskId),
    ("version", .integer plan.version), ("path", .string plan.path), ("hash", .string plan.hash),
    ("created_at", .integer plan.createdAt), ("updated_at", .integer plan.updatedAt),
    ("pending_body", plan.pendingBody.elim .null .string)]

def nextPlan (host : Host) (vault : Vault) (state : Snapshot) (task : Task) (body : String)
    (now : Int) : Fallible Plan := do
  let versions := (state.plans.filter fun p => p.taskId = task.id).map Plan.version
  let current := state.plans.find? fun p => p.taskId = task.id
  let project ← state.projectIndex task.projectId
  let filename ← numberedName host.toEnv task.name task.createdAt task.sequence
  pure
    { id := current.elim (host.newId "plan" 0) Plan.id
      taskId := task.id
      version := versions.max?.getD 0 + 1
      path := s!"{(state.projects.get project).directory}/Tasks/{filename}.md"
      hash := vault.planHash body
      createdAt := current.elim now Plan.createdAt
      updatedAt := now
      pendingBody := some body }

/-- The registration of a written Plan, with every check before the transaction. -/
def planRegistration (host : Host) (vault : Vault) (state : Snapshot) (request : Value)
    (options : WriteOptions) (now : Int) : Fallible Value := do
  let i ← state.taskIndex (← required request "task")
  let task := state.tasks.get i
  let command ← required request "command"
  ensure (task.currentPlan.isNone = decide (command = "plan.create"))
    "conflict: use plan create for first Plan, revise for later versions"
  let body ← required request "body"
  ensure (!blank (← vault.belowProperties body)) "invalid: Plan body is empty"
  let plan ← nextPlan host vault state task body now
  let registration := Value.object [("command", .string "plan.register"),
    ("task", .string task.id), ("plan", plan.value)]
  let _ ← apply host.toEnv state registration options now
  ensure ((state.plans.any fun p => p.taskId = task.id) ∨ !vault.planTaken plan.path task)
    "conflict: unregistered Plan file exists; preserve or move it before retrying"
  pure registration

/-- An earlier answer with the path that its Plan has now. -/
def currentPath (state : Snapshot) (outcome : Outcome) : Outcome :=
  match outcome.result with
  | .plan plan =>
    match state.plans.find? fun p => p.taskId = plan.taskId with
    | some current => { outcome with result := .plan { plan with path := current.path } }
    | none => outcome
  | _ => outcome

def planTask (outcome : Outcome) : Value :=
  match outcome.result with
  | .plan plan => .string plan.taskId
  | _ => .null

def writePlan (host : Host) (vault : Vault) (request : Value) (options : WriteOptions)
    (now : Int) : Served Database Answer := do
  lockOutput host vault now
  match ← Served.query fun db => replay host db request options with
  | some outcome => do
    let state ← requestSnapshot host
      (.object [("command", .string "plan.revise"), ("task", planTask outcome)]) now
    let projectionPending ← syncPending host vault now
    pure { currentPath state outcome with projectionPending }
  | none => do
    let state ← requestSnapshot host request now
    let registration ← Served.query fun _ =>
      planRegistration host vault state request options now
    let outcome ← Served.transaction fun db =>
      executeAs host db registration options request now
    let projectionPending ← syncPending host vault now
    pure { outcome with projectionPending }

/-! ## The entry point -/

def planning (command : String) : Bool :=
  command = "plan.create" || command = "plan.revise"

/-- What the service does for a request that has no receipt. -/
def serveFirst (host : Host) (vault : Vault) (command : String) (request : Value)
    (options : WriteOptions) (now : Int) : Served Database Answer := do
  let options ← importFirst host vault command request options now
  checkPlanFile host vault command request options now
  let hashed ← prepareIssueContent host vault request options now
  let outcome ← Served.transaction fun db => executeAs host db hashed options request now
  let outcome ← notified command request outcome
  published host vault command outcome now

/-- `Service::execute`. -/
def serve (host : Host) (vault : Vault) (request : Value) (options : WriteOptions) (now : Int) :
    Served Database Answer := do
  Served.query fun _ => validatePublicHashes request
  Served.transaction fun db => do
    let db ← reap db now
    pure (db, ())
  let command ← Served.query fun _ => required request "command"
  if planning command then writePlan host vault request options now
  else
    match ← Served.query fun db => replay host db request options with
    | some outcome => published host vault command outcome now
    | none => serveFirst host vault command request options now

end Agentix.TaskStore
