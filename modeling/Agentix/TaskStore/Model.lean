import Agentix.TaskStore.Value

/-! # The task store's records

The rows of the store and the full `Snapshot` that mutations run on, field for
field, and the identifier resolution shared by every command.
-/

namespace Agentix.TaskStore

open Lib List

def defaultLeaseSeconds : Int := 900

/-- `now + DEFAULT_LEASE_SECONDS`, which wraps in an `i64` of a release build. -/
def leaseExpiry (now : Int) : Int :=
  (now + defaultLeaseSeconds).bmod 18446744073709551616

/-! ## Statuses -/

inductive TaskStatus where
  | todo
  | inProgress
  | blocked
  | waitingUser
  | done
  | failed
  | cancelled
  deriving DecidableEq, Repr

namespace TaskStatus

def terminal : TaskStatus → Bool
  | done | failed | cancelled => true
  | _ => false

/-- The transition table of ordinary Task commands. -/
def allows : TaskStatus → TaskStatus → Bool
  | todo, inProgress | todo, blocked | todo, waitingUser | todo, cancelled => true
  | inProgress, done | inProgress, blocked | inProgress, waitingUser | inProgress, failed
  | inProgress, cancelled => true
  | blocked, inProgress | blocked, waitingUser | blocked, done | blocked, failed
  | blocked, cancelled => true
  | waitingUser, inProgress | waitingUser, blocked | waitingUser, failed
  | waitingUser, cancelled => true
  | _, _ => false

def text : TaskStatus → String
  | todo => "TODO"
  | inProgress => "IN_PROGRESS"
  | blocked => "BLOCKED"
  | waitingUser => "WAITING_USER"
  | done => "DONE"
  | failed => "FAILED"
  | cancelled => "CANCELLED"

end TaskStatus

inductive TaskPhase where
  | planning
  | executing
  deriving DecidableEq, Repr

inductive JobStatus where
  | active
  | pendingReview
  | completed
  | cancelled
  deriving DecidableEq, Repr

namespace JobStatus

def terminal : JobStatus → Bool
  | completed | cancelled => true
  | _ => false

def text : JobStatus → String
  | active => "ACTIVE"
  | pendingReview => "PENDING_REVIEW"
  | completed => "COMPLETED"
  | cancelled => "CANCELLED"

end JobStatus

inductive ReviewPolicy where
  | required
  | none
  deriving DecidableEq, Repr

inductive IssueStatus where
  | todo
  | active
  | pendingReview
  | completed
  | cancelled
  deriving DecidableEq, Repr

def IssueStatus.terminal : IssueStatus → Bool
  | completed | cancelled => true
  | _ => false

inductive IssueType where
  | feature
  | bug
  | enhancement
  | documentation
  | question
  | refactor
  deriving DecidableEq, Repr

inductive MilestoneStatus where
  | planned
  | active
  | completed
  | cancelled
  deriving DecidableEq, Repr

def MilestoneStatus.terminal : MilestoneStatus → Bool
  | completed | cancelled => true
  | _ => false

/-! ## Rows -/

structure Project where
  id : String
  key : String
  name : String
  root : String
  remote : Option String
  revision : Int
  createdAt : Int
  archivedAt : Option Int
  documentDirectory : Option String
  deriving DecidableEq, Repr

/-- `Project::document_directory()`. -/
def Project.directory (project : Project) : String :=
  project.documentDirectory.getD s!"Projects/{project.key}"

structure JobMessage where
  id : String
  sessionId : String
  role : String
  text : String
  recordedAt : Int
  deriving DecidableEq, Repr

structure Job where
  id : String
  projectId : String
  issueId : Option String
  title : String
  name : String
  sequence : Nat
  goal : String
  prompt : String
  conversation : List JobMessage
  agent : Option String
  sessionId : Option String
  status : JobStatus
  reviewReason : Option String
  reviewPolicy : ReviewPolicy
  followupTaskIds : List String
  followupSessionId : Option String
  followupAt : Option Int
  followupId : Option String
  pendingReviewAt : Option Int
  revision : Int
  createdAt : Int
  updatedAt : Int
  startedAt : Option Int
  completedAt : Option Int
  cancelledAt : Option Int
  archivedAt : Option Int
  documentPath : String
  deriving DecidableEq, Repr

structure Task where
  id : String
  projectId : String
  jobId : String
  title : String
  name : String
  sequence : Nat
  status : TaskStatus
  phase : Option TaskPhase
  revision : Int
  position : Int
  createdAt : Int
  updatedAt : Int
  startedAt : Option Int
  completedAt : Option Int
  reason : Option String
  dependencies : List String
  currentPlan : Option String
  lastExecutor : Option String
  lastSession : Option String
  delegatedBy : Option String
  systemBlock : Bool
  deriving DecidableEq, Repr

structure Plan where
  id : String
  taskId : String
  version : Int
  path : String
  hash : String
  createdAt : Int
  updatedAt : Int
  pendingBody : Option String
  deriving DecidableEq, Repr

structure Lease where
  taskId : String
  executorRef : String
  sessionRef : String
  delegatedBy : Option String
  token : String
  leaseExpiresAt : Int
  deriving DecidableEq, Repr

structure Issue where
  issueType : Option IssueType
  id : String
  projectId : String
  milestoneId : Option String
  title : String
  name : String
  sequence : Nat
  reviewContentHash : String
  contentHash : String
  status : IssueStatus
  reviewReason : Option String
  revision : Int
  createdAt : Int
  updatedAt : Int
  startedAt : Option Int
  pendingReviewAt : Option Int
  completedAt : Option Int
  cancelledAt : Option Int
  archivedAt : Option Int
  documentPath : String
  deriving DecidableEq, Repr

structure Milestone where
  status : MilestoneStatus
  startedAt : Option Int
  completedAt : Option Int
  cancelledAt : Option Int
  archivedAt : Option Int
  id : String
  projectId : String
  title : String
  name : String
  sequence : Nat
  goal : String
  order : Int
  dueDate : Option String
  revision : Int
  createdAt : Int
  updatedAt : Int
  documentPath : String
  deriving DecidableEq, Repr

/-! ## The snapshot -/

/-- Transaction-local query summaries of a scoped read; a full snapshot carries none. -/
structure QueryContext where
  milestoneActiveIssues : List (String × Bool) := []
  issueActiveJobs : List (String × Bool) := []
  registeredProject : Option String := none
  availableProjectKey : Option String := none
  names : List ((String × String) × List (String × String)) := []
  sequences : List ((String × String) × Nat) := []
  taskCount : Option Int := none
  /-- Non-cancelled and incomplete Tasks outside the materialized subset. -/
  jobCounts : List (String × (Nat × Nat)) := []
  deriving DecidableEq, Repr

structure Snapshot where
  queryContext : QueryContext := {}
  issues : List Issue := []
  milestones : List Milestone := []
  documentSequences : List (String × Nat) := []
  projects : List Project := []
  jobs : List Job := []
  tasks : List Task := []
  plans : List Plan := []
  leases : List Lease := []
  deriving DecidableEq, Repr

/-! ## Identifiers -/

/-- An exact identifier wins; otherwise a unique prefix or name.  The index is in range by type. -/
def resolve {α : Type} (rows : List α) (id name : α → String) (query : String) :
    Fallible (Fin rows.length) :=
  if query = "" then .error "invalid: empty identifier"
  else match rows.findFinIdx? (fun row => id row == query) with
    | some index => .ok index
    | none =>
      match (finRange rows.length).filter
          (fun i => startsWith (id (rows.get i)) query || name (rows.get i) == query) with
      | [index] => .ok index
      | [] => .error s!"not_found: {query}"
      | _ => .error s!"ambiguous identifier: {query}"

section Resolve

variable {α : Type} {rows : List α} {id name : α → String} {query : String} {i : Fin rows.length}

theorem resolve_query_ne (found : resolve rows id name query = .ok i) : query ≠ "" := by
  rintro rfl
  simp [resolve] at found

/-- A query that is some row's identifier selects a row with that identifier. -/
theorem resolve_exact (found : resolve rows id name query = .ok i)
    (present : ∃ row ∈ rows, id row = query) : id (rows.get i) = query := by
  unfold resolve at found
  rw [if_neg (resolve_query_ne found)] at found
  cases exact : rows.findFinIdx? (fun row => id row == query) with
  | some index =>
    rw [exact] at found
    cases found
    simpa using (findFinIdx?_eq_some_iff.mp exact).1
  | none =>
    obtain ⟨row, mem, same⟩ := present
    have absent := findFinIdx?_eq_none_iff.mp exact row mem
    simp [same] at absent

/-- Where rows are named by their identifier, no earlier row has the selected identifier. -/
theorem resolve_first (found : resolve rows id id query = .ok i) (j : Fin rows.length)
    (before : j < i) : id (rows.get j) ≠ id (rows.get i) := by
  intro same
  unfold resolve at found
  rw [if_neg (resolve_query_ne found)] at found
  cases exact : rows.findFinIdx? (fun row => id row == query) with
  | some index =>
    rw [exact] at found
    cases found
    obtain ⟨selected, earlier⟩ := findFinIdx?_eq_some_iff.mp exact
    have absent := earlier j before
    simp_all
  | none =>
    rw [exact] at found
    simp only at found
    split at found
    · rename_i index only
      cases found
      -- The earlier row would be a second match of the prefix.
      have selected : i ∈ [i] := mem_singleton_self i
      rw [← only, mem_filter] at selected
      have second : j ∈ [i] := by
        rw [← only, mem_filter]
        refine ⟨mem_finRange _, ?_⟩
        rw [same]
        exact selected.2
      rw [mem_singleton.mp second] at before
      exact absurd before (Nat.lt_irrefl _)
    · cases found
    · cases found

end Resolve

namespace Snapshot

def issueIndex (state : Snapshot) (id : String) : Fallible (Fin state.issues.length) :=
  resolve state.issues Issue.id Issue.id id

def milestoneIndex (state : Snapshot) (id : String) : Fallible (Fin state.milestones.length) :=
  resolve state.milestones Milestone.id Milestone.id id

def projectIndex (state : Snapshot) (id : String) : Fallible (Fin state.projects.length) :=
  resolve state.projects Project.id Project.name id

def jobIndex (state : Snapshot) (id : String) : Fallible (Fin state.jobs.length) :=
  resolve state.jobs Job.id Job.id id

def taskIndex (state : Snapshot) (id : String) : Fallible (Fin state.tasks.length) :=
  resolve state.tasks Task.id Task.id id

/-- `state.tasks[i]` assigned through `f`. -/
def modifyTask (state : Snapshot) (i : Nat) (f : Task → Task) : Snapshot :=
  { state with tasks := state.tasks.modify i f }

/-- `state.jobs[i]` assigned through `f`. -/
def modifyJob (state : Snapshot) (i : Nat) (f : Job → Job) : Snapshot :=
  { state with jobs := state.jobs.modify i f }

/-- `state.issues[i]` assigned through `f`. -/
def modifyIssue (state : Snapshot) (i : Nat) (f : Issue → Issue) : Snapshot :=
  { state with issues := state.issues.modify i f }

end Snapshot

/-! ## Options and results -/

structure WriteOptions where
  actorRef : String := "user:cli"
  sessionRef : Option String := none
  delegatedBy : Option String := none
  leaseToken : Option String := none
  expectedRevision : Option Int := none
  idempotencyKey : Option String := none
  deriving DecidableEq, Repr

/-- The JSON value a command returns: a row, or an object assembled on the spot. -/
inductive Reply where
  | project (row : Project)
  | job (row : Job)
  /-- `task_result`: the Task with its lease. -/
  | task (row : Task) (lease : Option Lease)
  /-- The Task alone, as `task.add` returns it. -/
  | taskRow (row : Task)
  | plan (row : Plan)
  | issue (row : Issue)
  | milestone (row : Milestone)
  | value (fields : List (String × Value))

/-- `result["id"].as_str()`. -/
def Reply.id? : Reply → Option String
  | project row => some row.id
  | job row => some row.id
  | task row _ => some row.id
  | taskRow row => some row.id
  | plan row => some row.id
  | issue row => some row.id
  | milestone row => some row.id
  | value fields => (fields.lookup "id").bind Value.asStr

/-- What a command reads outside the snapshot: the file system, the case mapping of the standard
library, the calendar of the `time` crate and the identifiers drawn while it runs. -/
structure Env where
  toLowercase : String → String
  /-- The year, month and day of `OffsetDateTime::from_unix_timestamp`. -/
  date : Int → Fallible (Int × Nat × Nat)
  /-- `Date::parse` accepts the text as `[year]-[month]-[day]`. -/
  isDate : String → Bool
  isDir : String → Bool
  canonicalize : String → Fallible String
  /-- The random part of the `n`-th identifier drawn by the command. -/
  uuid : Nat → String

/-- `new_id(prefix)`, the `n`-th draw of the command. -/
def Env.newId (env : Env) (kind : String) (n : Nat) : String :=
  kind ++ "_" ++ env.uuid n

/-- `agent_name`: the host of an executor reference. -/
def agentName (executor : String) : Option String :=
  let name := (stripPrefix executor "agent:").getD executor
  match splitOn ':' name.toList with
  | [] => none
  | host :: _ =>
    let host := String.ofList host
    if host ∈ ["codex", "claude", "pi", "omp", "opencode"] then some host else none

end Agentix.TaskStore

/-! # Document names -/

namespace Agentix.TaskStore

open Lib

/-- `format!("{n:0width$}")`. -/
def padded (width n : Nat) : String :=
  let digits := toString n
  String.ofList (List.replicate (width - digits.toList.length) '0') ++ digits

def numberedName (env : Env) (name : String) (createdAt : Int) (sequence : Nat) :
    Fallible String := do
  let (year, month, day) ← env.date createdAt
  pure (padded 2 (year % 100).toNat ++ padded 2 month ++ padded 2 day ++ "-" ++
    padded 4 sequence ++ "-" ++ name)

/-- Allocate independently for each entity type and Project (filtered by the caller). -/
def nextSequence (createdAt : Int) (existing : List (Int × Nat)) : Fallible Nat :=
  let today := existing.filter fun entry => entry.1 / 86400 = createdAt / 86400
  let last := (today.map Prod.snd).foldl max 0
  if last + 1 ≤ u64Max then .ok (last + 1) else .error "document sequence exhausted"

/-! ## Portable names -/

def reservedNames : List String :=
  ["CON", "PRN", "AUX", "NUL", "COM1", "COM2", "COM3", "COM4", "COM5", "COM6", "COM7", "COM8",
   "COM9", "LPT1", "LPT2", "LPT3", "LPT4", "LPT5", "LPT6", "LPT7", "LPT8", "LPT9"]

/-- The words of `s.split_whitespace()`. -/
def words : List Char → List (List Char)
  | [] => []
  | c :: cs =>
    if isWhitespace c then words cs
    else match cs with
      | [] => [[c]]
      | d :: _ =>
        if isWhitespace d then [c] :: words cs
        else match words cs with
          | [] => [[c]]
          | word :: rest => (c :: word) :: rest

def trimMatches (drop : Char → Bool) (cs : List Char) : List Char :=
  ((cs.dropWhile drop).reverse.dropWhile drop).reverse

/-- A portable, readable filename stem, including non-ASCII names. -/
def shortName (title : String) : String :=
  let replaced := title.toList.map fun c =>
    if isControl c || "/\\:*?\"<>|[]#^".toList.contains c then ' ' else c
  let joined := [' '].intercalate (words replaced)
  let name := trimMatches (fun c => c == ' ' || c == '.') (joined.take 48)
  let stem := match splitOn '.' name with
    | [] => []
    | first :: _ => first.map toAsciiUppercase
  if name = [] then "Untitled"
  else if String.ofList stem ∈ reservedNames then String.ofList name ++ "-1"
  else String.ofList name

/-- The search of `unique_name`: `base`, `base-2`, `base-3`, … until one is unused.  Among
`used.length + 1` candidates one is, so the fuel is the number of used names. -/
def firstUnused (toLowercase : String → String) (base : String) (used : List String) :
    Nat → Nat → String → String
  | 0, _, name => name
  | fuel + 1, suffix, name =>
    if toLowercase name ∈ used then
      firstUnused toLowercase base used fuel (suffix + 1) s!"{base}-{suffix}"
    else name

def uniqueName (toLowercase : String → String) (title : String) (existing : List String) : String :=
  let base := shortName title
  let used := existing.map toLowercase
  firstUnused toLowercase base used used.length 2 base

/-- The name of a Job, Task, Issue or Milestone among the names of its Project. -/
def entityName (env : Env) (state : Snapshot) (project kind : String) (excluded : Option String)
    (title : String) : String :=
  match state.queryContext.names.lookup (project, kind) with
  | some names =>
    uniqueName env.toLowercase title
      ((names.filter fun entry => some entry.1 ≠ excluded).map Prod.snd)
  | none =>
    if kind = "task" then
      uniqueName env.toLowercase title
        ((state.tasks.filter fun t => t.projectId = project ∧ some t.id ≠ excluded).map Task.name)
    else
      uniqueName env.toLowercase title
        ((state.jobs.filter fun j => j.projectId = project ∧ some j.id ≠ excluded).map Job.name)

end Agentix.TaskStore
