import Agentix.TaskStore.Mutations

/-! # Scoped reads

The database behind the snapshots, and the indexed reads that select the part of it a request
needs: its rows and the query summaries of the rows left out.
-/

namespace Agentix.TaskStore

open Lib

/-! ## The database -/

/-- A row of `project_lookup`. -/
structure ProjectLookup where
  projectId : String
  canonicalRoot : String
  foldedKey : String
  deriving DecidableEq, Repr

/-- A row of `discussion_sessions`. -/
structure Discussion where
  sessionId : String
  revision : Int
  activity : Int
  deriving DecidableEq, Repr

structure TurnMessage where
  id : String
  role : String
  text : String
  deriving DecidableEq, Repr

/-- A row of `discussion_turns`; the order of the rows is their position. -/
structure Turn where
  sessionId : String
  turnId : String
  messages : List TurnMessage
  jobId : Option String
  deriving DecidableEq, Repr

/-- The Project a turn was captured for, from `memory_source_heads`. -/
structure MemoryHead where
  sessionId : String
  turnId : String
  projectId : String
  deriving DecidableEq, Repr

/-- What a command returns: its result and the number of events so far. -/
structure Outcome where
  result : Reply
  sequence : Nat

/-- A row of `idempotency_keys`. -/
structure Receipt where
  key : String
  fingerprint : String
  outcome : Outcome

/-- The tables of the store, their rows in `rowid` order. -/
structure Database where
  rows : Snapshot := {}
  lookups : List ProjectLookup := []
  discussions : List Discussion := []
  turns : List Turn := []
  heads : List MemoryHead := []
  receipts : List Receipt := []
  /-- The number of events appended, which the watermark keeps. -/
  sequence : Nat := 0

/-- What the store reads outside its database. -/
structure Host extends Env where
  /-- `canonical_root`, which expands and abbreviates the home directory. -/
  canonicalRoot : String → Fallible String
  expandHome : String → Fallible String
  /-- The hash of a delivery target: the title and goal of its Job and the request's prompt. -/
  targetHash : String → String → String → String
  /-- The hash of a request with its options. -/
  fingerprint : Value → WriteOptions → String
  /-- The Project folders whose cleanup is pending. -/
  pendingDirectories : List String

/-! ## Identifiers -/

/-- `scoped::resolve` over all identifiers of a table; `named` are the rows with that name. -/
def resolveId (ids named : List String) (query : String) : Fallible String :=
  if query = "" then .error "invalid: empty identifier"
  else if query ∈ ids then .ok query
  else
    -- The range of the index ends before the greatest character.
    let beyond := query ++ String.singleton (Char.ofNat 0x10FFFF)
    match ids.filter fun id => (startsWith id query && !startsWith id beyond) || id ∈ named with
    | [id] => .ok id
    | [] => .error s!"not_found: {query}"
    | _ => .error s!"ambiguous identifier: {query}"

def selectField (request : Value) (field : String) (ids named : List String) :
    Fallible (List String) :=
  match (request.index field).asStr with
  | none => .ok []
  | some query => do
    let id ← resolveId ids named query
    pure [id]

/-! ## Scopes -/

/-- The identifiers of the rows a request reads. -/
structure Scope where
  projects : List String := []
  jobs : List String := []
  tasks : List String := []
  issues : List String := []
  milestones : List String := []
  extraLeases : List String := []

namespace Scope

def jobTasks (scope : Scope) (db : Snapshot) : Scope :=
  { scope with
    tasks := scope.tasks ++ (db.tasks.filter fun t => t.jobId ∈ scope.jobs).map Task.id }

def parents (scope : Scope) (db : Snapshot) : Scope :=
  let jobs := scope.jobs ++ (db.tasks.filter fun t => t.id ∈ scope.tasks).map Task.jobId
  let issues := scope.issues ++ (db.jobs.filter fun j => j.id ∈ jobs).filterMap Job.issueId
  let milestones := scope.milestones ++
    (db.issues.filter fun issue => issue.id ∈ issues).filterMap Issue.milestoneId
  let projects := scope.projects ++
    (db.issues.filter fun issue => issue.id ∈ issues).map Issue.projectId ++
    (db.milestones.filter fun m => m.id ∈ milestones).map Milestone.projectId ++
    (db.jobs.filter fun j => j.id ∈ jobs).map Job.projectId
  { scope with jobs, issues, milestones, projects }

/-- The Tasks of one more step of the recursive query. -/
def related (db : Snapshot) (reverse : Bool) (selected : List String) : List String :=
  (db.tasks.filter fun t => t.id ∉ selected &&
    if reverse then t.dependencies.any (· ∈ selected)
    else db.tasks.any fun u => u.id ∈ selected && t.id ∈ u.dependencies).map Task.id

def closure (db : Snapshot) (reverse : Bool) : Nat → List String → List String
  | 0, selected => selected
  | fuel + 1, selected => closure db reverse fuel (selected ++ related db reverse selected)

/-- Every step selects a new Task or none, so there are at most as many steps as Tasks. -/
def dependencies (scope : Scope) (db : Snapshot) (reverse : Bool) : Scope :=
  parents { scope with tasks := closure db reverse db.tasks.length scope.tasks } db

def load (scope : Scope) (db : Snapshot) : Snapshot :=
  { projects := db.projects.filter fun p => p.id ∈ scope.projects
    jobs := db.jobs.filter fun j => j.id ∈ scope.jobs
    tasks := db.tasks.filter fun t => t.id ∈ scope.tasks
    issues := db.issues.filter fun issue => issue.id ∈ scope.issues
    milestones := db.milestones.filter fun m => m.id ∈ scope.milestones
    plans := db.plans.filter fun p => p.taskId ∈ scope.tasks
    leases := db.leases.filter fun l => l.taskId ∈ scope.tasks ++ scope.extraLeases }

end Scope

/-! ## The scope of a session command -/

/-- A stamp of a session's activity: its time, its token and its Job. -/
structure Stamp where
  time : Option Int
  token : String
  job : String

def timeLe : Option Int → Option Int → Bool
  | none, _ => true
  | some _, none => false
  | some a, some b => a ≤ b

/-- The ascending order by time, token and Job. -/
def Stamp.le (a b : Stamp) : Bool :=
  (timeLe a.time b.time && !timeLe b.time a.time) || (a.time = b.time &&
    (a.token < b.token || (a.token = b.token && decide (a.job ≤ b.job))))

def sessionActivity (db : Snapshot) (session : String) : List Stamp :=
  let created := (db.jobs.filter fun j => j.sessionId = some session).map fun j =>
    (⟨some j.createdAt, suffixAfterUnderscore j.id, j.id⟩ : Stamp)
  let followed := (db.jobs.filter fun j => j.followupSessionId = some session).map fun j =>
    (⟨j.followupAt, suffixAfterUnderscore (j.followupId.getD j.id), j.id⟩ : Stamp)
  let worked := (db.tasks.filter fun t => t.lastSession = some session).map fun t =>
    (⟨some t.updatedAt, suffixAfterUnderscore t.id, t.jobId⟩ : Stamp)
  (created ++ followed ++ worked).filterMap fun stamp =>
    (db.jobs.find? fun j => j.id = stamp.job && j.archivedAt.isNone).map fun j =>
      { stamp with time := stamp.time.map (max j.createdAt) }

/-- The greatest stamp, the later one among equals. -/
def latestStamp : List Stamp → Option Stamp
  | [] => none
  | first :: rest => some (rest.foldl (fun best s => if best.le s then s else best) first)

/-- The Task updated last, the last row among equals. -/
def latestTask (tasks : List Task) : List String :=
  match tasks with
  | [] => []
  | first :: rest =>
    [(rest.foldl (fun best t => if best.updatedAt ≤ t.updatedAt then t else best) first).id]

def sessionScope (db : Snapshot) (scope : Scope) (request : Value) (command : String) :
    Fallible Scope := do
  let session ← required request "session"
  if command = "session.stage" ∨ (command = "session.record" ∧ (request.get? "turn_id").isSome ∧
      (request.index "job").isNull) then pure scope
  else if command = "session.record" then
    let jobs := if scope.jobs = [] then
        ((latestStamp (sessionActivity db session)).map Stamp.job).toList
      else scope.jobs
    let tasks := jobs.flatMap fun job => latestTask (db.tasks.filter fun t =>
      t.lastSession = some session ∧ t.jobId = job)
    pure { scope with jobs, tasks := scope.tasks ++ tasks }
  else
    let tasks := if command = "session.heartbeat" then
        (db.leases.filter fun l => l.sessionRef = session).map Lease.taskId
      else if command = "session.start" then
        (db.tasks.filter fun t =>
          t.lastSession = some session ∧ t.status = .blocked ∧ t.systemBlock).map Task.id
      else
        (db.tasks.filter fun t =>
          t.lastSession = some session ∧ t.status = .inProgress).map Task.id
    pure { scope with
      tasks := scope.tasks ++ tasks
      extraLeases := scope.extraLeases ++
        (db.leases.filter fun l => l.sessionRef = session).map Lease.taskId }

/-! ## The scope of a request -/

def namedScope (db : Snapshot) (request : Value) : Fallible Scope := do
  let query := (request.index "project").asStr
  let named := (db.projects.filter fun p => some p.name = query).map Project.id
  let projects ← selectField request "project" (db.projects.map Project.id) named
  let jobs ← selectField request "job" (db.jobs.map Job.id) []
  let task ← selectField request "task" (db.tasks.map Task.id) []
  let dependency ← selectField request "dependency" (db.tasks.map Task.id) []
  let issues ← selectField request "issue" (db.issues.map Issue.id) []
  let milestones ← selectField request "milestone" (db.milestones.map Milestone.id) []
  pure { projects, jobs, tasks := task ++ dependency, issues, milestones }

/-- `project_lookup::BY_ROOT`. -/
def projectByRoot (db : Database) (root : String) : List String :=
  ((db.rows.projects.find? fun p => db.lookups.any fun l =>
    l.projectId = p.id && l.canonicalRoot = root).map Project.id).toList

def projectWide (command : String) : Bool :=
  command ∈ ["project.archive", "project.unarchive", "project.delete", "project.rename",
    "project.relocate"]

/-- The Issues, Milestones and Jobs a command reads beyond the parents of the named rows. -/
def widenScope (db : Snapshot) (request : Value) (command : String) (scope : Scope) : Scope :=
  let scope := if projectWide command then { scope with
      issues := scope.issues ++
        (db.issues.filter fun issue => issue.projectId ∈ scope.projects).map Issue.id
      milestones := scope.milestones ++
        (db.milestones.filter fun m => m.projectId ∈ scope.projects).map Milestone.id }
    else scope
  let scope := if command = "issue.cancel" then { scope with
      jobs := scope.jobs ++
        (db.jobs.filter fun j => j.issueId.any (· ∈ scope.issues)).map Job.id }
    else scope
  let scope := if command ∈ ["milestone.delete", "milestone.archive", "milestone.unarchive"] ∨
      (command = "milestone.update" ∧ (request.get? "name").isSome) then { scope with
      issues := scope.issues ++ (db.issues.filter fun issue =>
        issue.milestoneId.any (· ∈ scope.milestones)).map Issue.id }
    else scope
  if projectWide command then
    Scope.parents { scope with
      jobs := scope.jobs ++
        (db.jobs.filter fun j => j.projectId ∈ scope.projects).map Job.id } db
  else scope

/-- The Tasks a command reads beyond the named ones. -/
def workScope (db : Snapshot) (request : Value) (command : String) (scope : Scope) : Scope :=
  let scope := if command ∈ ["job.cancel", "job.approve", "job.followup", "job.delete",
      "project.delete", "project.rename", "project.relocate", "issue.cancel"] then
      scope.jobTasks db
    else scope
  let scope := if command ∈ ["task.retry", "task.reopen", "job.delete", "project.delete"] then
      scope.dependencies db true
    else scope
  let scope := if startsWith command "session." then scope else { scope with
    tasks := scope.tasks ++ scope.jobs.flatMap fun job =>
      latestTask (db.tasks.filter fun t => t.jobId = job ∧ t.lastSession.isSome) }
  let scope := if command ∈ ["task.start", "task.depend", "task.retry", "task.reopen"] then
      scope.dependencies db false
    else scope
  if command = "task.claim" then { scope with
    extraLeases := scope.extraLeases ++ (db.leases.filter fun l =>
      some l.executorRef = (request.index "executor").asStr ∧
        some l.sessionRef = (request.index "session").asStr).map Lease.taskId }
  else scope

def registeredScope (host : Host) (db : Database) (request : Value) (command : String)
    (scope : Scope) : Fallible Scope :=
  if command = "project.register" then do
    let root ← host.canonicalRoot (← required request "root")
    pure { scope with projects := projectByRoot db root }
  else .ok scope

def requestScope (host : Host) (db : Database) (request : Value) : Fallible Scope := do
  let command ← required request "command"
  let named ← namedScope db.rows request
  let registered ← registeredScope host db request command named
  let started ← (if startsWith command "session." then
      sessionScope db.rows registered request command
    else .ok registered)
  pure (workScope db.rows request command
    (widenScope db.rows request command (started.parents db.rows)))

/-! ## Query summaries -/

def namedKind (request : Value) (command : String) : Option String :=
  let kind := if command ∈ ["issue.create", "issue.update"] then some "issue"
    else if command ∈ ["milestone.create", "milestone.update"] then some "milestone"
    else if command ∈ ["task.add", "task.update"] then some "task"
    else if command ∈ ["job.create", "job.update"] then some "job"
    else none
  kind.filter fun _ => (request.get? "name").isSome ||
    command ∈ ["task.add", "job.create", "issue.create", "milestone.create"]

def kindRows (db : Snapshot) (kind project : String) : List (String × String × Int × Nat) :=
  match kind with
  | "issue" => (db.issues.filter fun r => r.projectId = project).map fun r =>
      (r.id, r.name, r.createdAt, r.sequence)
  | "milestone" => (db.milestones.filter fun r => r.projectId = project).map fun r =>
      (r.id, r.name, r.createdAt, r.sequence)
  | "task" => (db.tasks.filter fun r => r.projectId = project).map fun r =>
      (r.id, r.name, r.createdAt, r.sequence)
  | _ => (db.jobs.filter fun r => r.projectId = project).map fun r =>
      (r.id, r.name, r.createdAt, r.sequence)

/-- The greatest number of a kind on the day; the day of a row is rounded towards zero. -/
def daySequence (db : Snapshot) (kind project : String) (now : Int) : Nat :=
  ((kindRows db kind project).filter fun row =>
    row.2.2.1.tdiv 86400 = now / 86400).foldl (fun last row => max last row.2.2.2) 0

/-- The unfinished Tasks of a Job outside the loaded ones, and those among them not done. -/
def unloadedTasks (db : Snapshot) (loaded : List Task) (job : String) : Nat × Nat :=
  let rest := db.tasks.filter fun t => t.jobId = job ∧ t.status ≠ .cancelled ∧
    t.id ∉ loaded.map Task.id
  (rest.length, (rest.filter fun t => t.status ≠ .done).length)

/-- The collisions that `project.rename` and `project.move` look for in the whole table. -/
def checkCollision (host : Host) (db : Database) (state : Snapshot) (request : Value)
    (command : String) : Fallible Unit :=
  if command = "project.rename" then do
    let i ← state.projectIndex (← required request "project")
    let folded := host.toLowercase (← required request "name")
    ensure (∀ l ∈ db.lookups, l.foldedKey = folded → l.projectId = (state.projects.get i).id)
      "conflict: Project folder name is already registered"
  else if command = "project.move" then do
    let i ← state.projectIndex (← required request "project")
    let root ← host.canonicalRoot (← required request "root")
    ensure (∀ l ∈ db.lookups, l.canonicalRoot = root → l.projectId = (state.projects.get i).id)
      "conflict: Project root is already registered"
  else .ok ()

/-- `project_lookup::available_key`, where the registration found no Project. -/
def availableKey (host : Host) (db : Database) (state : Snapshot) (request : Value)
    (command : String) : Fallible (Option String) :=
  if command = "project.register" ∧ state.projects = [] then do
    let base := shortName (← required request "name")
    let used := db.lookups.map ProjectLookup.foldedKey
    pure (some (firstUnused host.toLowercase base used used.length 2 base))
  else .ok none

def loadQueryContext (host : Host) (db : Database) (state : Snapshot) (request : Value)
    (now : Int) : Fallible QueryContext := do
  let command ← required request "command"
  let availableProjectKey ← availableKey host db state request command
  checkCollision host db state request command
  let kinds := (namedKind request command).toList.flatMap fun kind =>
    state.projects.map fun p => (p.id, kind)
  pure
    { registeredProject :=
        if command = "project.register" then (state.projects.head?).map Project.id else none
      availableProjectKey
      milestoneActiveIssues := if command = "milestone.complete" then
          state.milestones.map fun m => (m.id, db.rows.issues.any fun issue =>
            issue.milestoneId = some m.id && !issue.status.terminal)
        else []
      issueActiveJobs := if command ∈ ["issue.submit", "issue.approve"] then
          state.issues.map fun issue => (issue.id, db.rows.jobs.any fun job =>
            job.issueId = some issue.id && !job.status.terminal)
        else []
      jobCounts := state.jobs.map fun job => (job.id, unloadedTasks db.rows state.tasks job.id)
      names := kinds.map fun kind => (kind, (kindRows db.rows kind.2 kind.1).map fun row =>
        (row.1, row.2.1))
      sequences := kinds.map fun kind => (kind, daySequence db.rows kind.2 kind.1 now)
      taskCount := if command = "task.add" then some db.rows.tasks.length else none }

/-- `scoped::load_request`. -/
def loadRequest (host : Host) (db : Database) (request : Value) (now : Int) :
    Fallible Snapshot := do
  let scope ← requestScope host db request
  let state := scope.load db.rows
  let queryContext ← loadQueryContext host db state request now
  let command ← required request "command"
  pure { state with
    queryContext
    documentSequences := if command ∈ ["job.create", "task.add", "job.delete", "project.delete",
      "issue.create", "milestone.create", "milestone.delete"] then db.rows.documentSequences
      else [] }

end Agentix.TaskStore
