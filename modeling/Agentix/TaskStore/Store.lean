import Agentix.TaskStore.Discussion
import Agentix.TaskStore.Run

/-! # The store

One command in one transaction: its idempotency key is looked up, the scope of the request is
loaded and mutated, and the rows that differ are written back.
-/

namespace Agentix.TaskStore

open Lib

/-! ## Home abbreviations -/

mutual

/-- `map_roots`: every `root` of the value, outside recorded text. -/
def mapRoots (map : String → Fallible String) : Value → Fallible Value
  | .object fields => Value.object <$> mapRootFields map fields
  | .array items => Value.array <$> mapRootItems map items
  | other => .ok other

def mapRootFields (map : String → Fallible String) :
    List (String × Value) → Fallible (List (String × Value))
  | [] => .ok []
  | field :: rest => do
    let field ← mapRootField map field
    let rest ← mapRootFields map rest
    pure (field :: rest)

def mapRootField (map : String → Fallible String) : String × Value → Fallible (String × Value)
  | (key, value) =>
    if key = "root" then
      match value with
      | .string path => (fun path => (key, Value.string path)) <$> map path
      | other => .ok (key, other)
    else if key = "conversation" ∨ key = "messages" then .ok (key, value)
    else (fun value => (key, value)) <$> mapRoots map value

def mapRootItems (map : String → Fallible String) : List Value → Fallible (List Value)
  | [] => .ok []
  | item :: rest => do
    let item ← mapRoots map item
    let rest ← mapRootItems map rest
    pure (item :: rest)

end

def expandRoots (host : Host) (request : Value) : Fallible Value :=
  mapRoots host.expandHome request

/-! ## Writing rows back -/

section Tables

variable {ρ : Type} [DecidableEq ρ] (id : ρ → String)

/-- `INSERT … ON CONFLICT(id) DO UPDATE`. -/
def upsert (rows : List ρ) (row : ρ) : List ρ :=
  if rows.any fun old => id old = id row then
    rows.map fun old => if id old = id row then row else old
  else rows ++ [row]

def changedRows (before after : List ρ) : List ρ :=
  after.filter fun row => before.find? (fun old => id old = id row) ≠ some row

def removedRows (before after : List ρ) : List ρ :=
  before.filter fun row => !after.any fun new => id new = id row

def writeRows (before after rows : List ρ) : List ρ :=
  (changedRows id before after).foldl (upsert id) rows

def deleteRows (before after rows : List ρ) : List ρ :=
  rows.filter fun row => !(removedRows id before after).any fun old => id old = id row

end Tables

def renewLookup (host : Host) (before : Snapshot) (lookups : List ProjectLookup)
    (project : Project) : Fallible (List ProjectLookup) :=
  let same := before.projects.any fun old =>
    old.id = project.id && old.root = project.root && old.key = project.key
  if same then .ok lookups
  else do
    let canonicalRoot ← host.canonicalRoot project.root
    pure (upsert ProjectLookup.projectId lookups
      ⟨project.id, canonicalRoot, host.toLowercase project.key⟩)

def eventCount (before after : Snapshot) : Nat :=
  let count := fun {ρ : Type} [DecidableEq ρ] (id : ρ → String) (old new : List ρ) =>
    (changedRows id old new).length + (removedRows id old new).length
  count Milestone.id before.milestones after.milestones +
    count Issue.id before.issues after.issues + count Project.id before.projects after.projects +
    count Job.id before.jobs after.jobs + count Task.id before.tasks after.tasks

/-- The tables after the differences of a command are written. -/
def persistRows (before after rows : Snapshot) : Snapshot :=
  let removedJobs := removedRows Job.id before.jobs after.jobs
  let removedProjects := removedRows Project.id before.projects after.projects
  -- Tasks and plans are only removed together with Jobs.
  let deletes := !removedJobs.isEmpty || !removedProjects.isEmpty
  let tasks := writeRows Task.id before.tasks after.tasks rows.tasks
  let plans := writeRows Plan.id before.plans after.plans rows.plans
  { rows with
    milestones := deleteRows Milestone.id before.milestones after.milestones
      (writeRows Milestone.id before.milestones after.milestones rows.milestones)
    issues := deleteRows Issue.id before.issues after.issues
      (writeRows Issue.id before.issues after.issues rows.issues)
    projects := deleteRows Project.id before.projects after.projects
      (writeRows Project.id before.projects after.projects rows.projects)
    jobs := deleteRows Job.id before.jobs after.jobs
      (writeRows Job.id before.jobs after.jobs rows.jobs)
    tasks := if deletes then deleteRows Task.id before.tasks after.tasks tasks else tasks
    plans := if deletes then deleteRows Plan.id before.plans after.plans plans else plans
    leases := writeRows Lease.taskId before.leases after.leases
      (deleteRows Lease.taskId before.leases after.leases rows.leases)
    documentSequences := if before.documentSequences ≠ after.documentSequences then
      after.documentSequences else rows.documentSequences }

/-- The foreign keys of the tables. -/
def References (rows : Snapshot) : Prop :=
  (∀ m ∈ rows.milestones, ∃ p ∈ rows.projects, p.id = m.projectId) ∧
    (∀ issue ∈ rows.issues, ∃ p ∈ rows.projects, p.id = issue.projectId) ∧
    (∀ j ∈ rows.jobs, ∃ p ∈ rows.projects, p.id = j.projectId) ∧
    (∀ t ∈ rows.tasks, ∃ j ∈ rows.jobs, j.id = t.jobId) ∧
    (∀ plan ∈ rows.plans, ∃ t ∈ rows.tasks, t.id = plan.taskId) ∧
    (∀ l ∈ rows.leases, ∃ t ∈ rows.tasks, t.id = l.taskId) ∧
    ∀ t ∈ rows.tasks, ∀ d ∈ t.dependencies, ∃ u ∈ rows.tasks, u.id = d

instance (rows : Snapshot) : Decidable (References rows) :=
  inferInstanceAs (Decidable (_ ∧ _))

def persist (host : Host) (db : Database) (before after : Snapshot) : Fallible Database := do
  let lookups ← (changedRows Project.id before.projects after.projects).foldlM
    (renewLookup host before) db.lookups
  ensure (References (persistRows before after db.rows)) "FOREIGN KEY constraint failed"
  let removedJobs := removedRows Job.id before.jobs after.jobs
  let removedProjects := removedRows Project.id before.projects after.projects
  pure { db with
    rows := persistRows before after db.rows
    lookups := lookups.filter fun l => !removedProjects.any fun p => p.id = l.projectId
    turns := db.turns.filter fun t => !removedJobs.any fun j => some j.id = t.jobId
    sequence := db.sequence + eventCount before after }

/-- A new Project must not take a folder that is still being cleaned up. -/
def checkPendingPaths (host : Host) (before after : Snapshot) : Fallible Unit :=
  if after.projects.length ≤ before.projects.length then .ok ()
  else
    let added := after.projects.filter fun p => !before.projects.any fun old => old.id = p.id
    ensure (∀ p ∈ added, p.directory ∉ host.pendingDirectories)
      "conflict: project directory cleanup is pending; run sync before registering this name"

/-! ## Commands -/

/-- The receipt of a key, checked against the request it is used with. -/
def receiptOf (host : Host) (db : Database) (source : Value) (options : WriteOptions)
    (key : String) : Fallible (Option Outcome) :=
  match db.receipts.find? fun r => r.key = key with
  | none => .ok none
  | some receipt => do
    ensure (receipt.fingerprint = host.fingerprint source options)
      "conflict: idempotency key reused with different input"
    pure (some receipt.outcome)

/-- `Store::replay`. -/
def replay (host : Host) (db : Database) (request : Value) (options : WriteOptions) :
    Fallible (Option Outcome) := do
  validateRequest request
  match options.idempotencyKey with
  | none => pure none
  | some key => receiptOf host db request options key

def earlierOutcome (host : Host) (db : Database) (source : Value) (options : WriteOptions) :
    Fallible (Option Outcome) :=
  match options.idempotencyKey with
  | none => .ok none
  | some key => do
    ensure (!blank key) "invalid: empty idempotency key"
    receiptOf host db source options key

/-- The transaction of a command that has no receipt yet. -/
def transact (host : Host) (db : Database) (request : Value) (options : WriteOptions) (now : Int) :
    Fallible (Database × Reply) := do
  let (db, request) ← prepare db request options now
  let before ← loadRequest host db request now
  let (state, reply) ← apply host.toEnv before request options now
  let (db, after, reply) ← attach host db state request options reply now
  checkPendingPaths host before after
  let db ← persist host db before after
  pure (db, reply)

def keepReceipt (host : Host) (db : Database) (source : Value) (options : WriteOptions)
    (outcome : Outcome) : Database :=
  match options.idempotencyKey with
  | none => db
  | some key =>
    { db with receipts := db.receipts ++ [⟨key, host.fingerprint source options, outcome⟩] }

/-- `Store::execute_as`: runs `request`, whose fingerprint is the one of `source`. -/
def executeAs (host : Host) (db : Database) (request : Value) (options : WriteOptions)
    (source : Value) (now : Int) : Fallible (Database × Outcome) := do
  validateRequest request
  let request ← expandRoots host request
  match ← earlierOutcome host db source options with
  | some outcome => pure (db, outcome)
  | none => do
    let (after, result) ← transact host db request options now
    let outcome : Outcome := { result, sequence := after.sequence }
    pure (keepReceipt host after source options outcome, outcome)

/-- `Store::reap_expired`. -/
def reap (db : Database) (now : Int) : Fallible Database := do
  let rows ← reapExpired db.rows now
  pure { db with rows, sequence := db.sequence + eventCount db.rows rows }

/-- The content hashes of an Issue are reserved for document synchronization. -/
def validatePublicHashes (request : Value) : Fallible Unit :=
  ensure ((request.index "command").asStr ∈ [some "issue.create", some "issue.update"] →
      (request.get? "content_hash").isNone ∧ (request.get? "review_content_hash").isNone)
    "invalid: Issue content hashes are reserved for document synchronization"

/-- `Store::execute`. -/
def execute (host : Host) (db : Database) (request : Value) (options : WriteOptions) (now : Int) :
    Fallible (Database × Outcome) := do
  validatePublicHashes request
  let db ← reap db now
  executeAs host db request options request now

/-! ## Runs of the store -/

inductive Transaction where
  | command (host : Host) (request : Value) (options : WriteOptions) (source : Value) (now : Int)
  | reap (now : Int)

/-- `Store::execute` is a reaping followed by a command that is its own source. -/
def Database.Step (db : Database) (transaction : Transaction) (db' : Database) : Prop :=
  match transaction with
  | .command host request options source now =>
    ∃ outcome, executeAs host db request options source now = .ok (db', outcome)
  | .reap now => reap db now = .ok db'

def database : System Database Transaction := { start := {}, step := Database.Step }

abbrev Stored : Database → Prop := database.Reachable System.always

/-! ## Playing a run -/

/-- A machine that draws one random part, whose paths are canonical as they are. -/
def Host.drawing (uuid : String) : Host :=
  { Env.drawing uuid with
    canonicalRoot := .ok
    expandHome := .ok
    targetHash := fun title goal prompt => title ++ goal ++ prompt
    fingerprint := fun request _ => ((request.index "command").asStr).getD ""
    pendingDirectories := [] }

def Call.execute (call : Call) (db : Database) : Fallible (Database × Outcome) :=
  TaskStore.execute (.drawing call.uuid) db call.request call.options call.now

def perform (db : Database) : List Call → Option Database
  | [] => some db
  | call :: rest =>
    match call.execute db with
    | .ok (next, _) => perform next rest
    | .error _ => none

theorem stored_execute {host : Host} {db db' : Database} {request : Value} {options : WriteOptions}
    {now : Int} {outcome : Outcome} (stored : Stored db)
    (ok : execute host db request options now = .ok (db', outcome)) : Stored db' := by
  simp only [execute, bind_ok] at ok
  obtain ⟨_, _, reaped, reaps, ok⟩ := ok
  have reaping : database.step db (.reap now) reaped := reaps
  have running : database.step reaped (.command host request options request now) db' :=
    ⟨outcome, ok⟩
  exact (stored.step trivial reaping).step trivial running

theorem stored_of_perform {db db' : Database} {calls : List Call} (stored : Stored db)
    (performs : perform db calls = some db') : Stored db' := by
  induction calls generalizing db with
  | nil =>
    cases performs
    exact stored
  | cons call rest ih =>
    simp only [perform] at performs
    split at performs
    · rename_i next outcome ok
      exact ih (stored_execute stored ok) performs
    · cases performs

/-- The database a run from the empty one ends in; the empty one if a command fails. -/
def performed (calls : List Call) : Database :=
  (perform {} calls).getD {}

theorem stored_performed (calls : List Call) : Stored (performed calls) := by
  unfold performed
  cases performs : perform {} calls with
  | none => exact .start
  | some db => exact stored_of_perform .start performs

end Agentix.TaskStore
