import Agentix.MemoryStore.Store
import Mathlib.Algebra.Group.Int.Defs

/-! # Work items

The work queue of the memory store: intake of sources, leases, completions and failures, and the
revocation of the evidence of a cancelled Job.
-/

namespace Agentix.MemoryStore

open Lib
open TaskStore (startsWith)

/-- The limits of `AgentConfig` that the queue reads, with the bounds of its validation. -/
structure AgentConfig where
  maxConcurrentLoops : Nat
  maxExtractionLoopsPerProject : Nat
  leaseSeconds : Nat
  maxAttempts : Nat
  compactionEnabled : Bool
  compactionDebounceSeconds : Nat
  concurrency : 1 ≤ maxConcurrentLoops ∧ maxConcurrentLoops ≤ 32 ∧
    1 ≤ maxExtractionLoopsPerProject ∧ maxExtractionLoopsPerProject ≤ 32
  retries : 1 ≤ maxAttempts ∧ maxAttempts ≤ 10
  lease : 1 < leaseSeconds ∧ leaseSeconds ≤ 3600

namespace WorkItem

/-- `lease_until > now`. -/
def unexpired (item : WorkItem) (now : Int) : Bool :=
  item.leaseUntil.any fun until_ => now < until_

/-- `lease_until <= now`. -/
def expired (item : WorkItem) (now : Int) : Bool :=
  item.leaseUntil.any fun until_ => until_ ≤ now

/-- `attempts >= max_attempts`. -/
def exhausted (item : WorkItem) : Bool :=
  item.maxAttempts.any fun most => most ≤ item.attempts

def active (item : WorkItem) : Bool :=
  item.state = .pending || item.state = .running

def leased (item : WorkItem) (now : Int) : Bool :=
  item.state = .running && item.unexpired now

def revocable (item : WorkItem) : Bool :=
  item.active || item.state = .failed

/-! ## Changes of an item -/

def revoked (item : WorkItem) : WorkItem :=
  { item with
    state := .cancelled, generation := item.generation + 1, owner := none, leaseUntil := none,
    error := some "source_job_cancelled" }

def superseded (item : WorkItem) : WorkItem :=
  { item with
    state := .cancelled, error := some "source superseded", owner := none, leaseUntil := none }

def expiredOut (item : WorkItem) : WorkItem :=
  { item with
    state := .failed, error := some "lease expired after retry limit", owner := none,
    leaseUntil := none }

def granted (lease : WorkLease) (config : AgentConfig) (item : WorkItem) : WorkItem :=
  { item with
    state := .running, attempts := item.attempts + 1, generation := lease.generation,
    owner := some lease.owner, leaseUntil := some lease.leaseUntil,
    maxAttempts := some (item.maxAttempts.getD config.maxAttempts), error := none }

def finished (result : Outcome) (item : WorkItem) : WorkItem :=
  { item with
    state := .done, result := some result, owner := none, leaseUntil := none, error := none }

def failedWith (error : String) (now : Int) (retry : Bool) (item : WorkItem) : WorkItem :=
  { item with
    state := if !retry || item.exhausted then .failed else .pending
    availableAt := now + min 300 (2 ^ min item.attempts 8)
    owner := none
    leaseUntil := none
    error := some error }

def retried (item : WorkItem) : WorkItem :=
  { item with state := .pending, attempts := 0, maxAttempts := none, availableAt := 0, error := none }

end WorkItem

namespace Database

/-! ## Rows of work -/

def addWork (db : Database) (projectId receiptId : String) (kind : WorkKind) (payload : Payload)
    (priority : Nat) : Database :=
  let id := db.workSequence + 1
  { db with
    workItems := db.workItems ++ [{ id, projectId, receiptId, kind, payload, priority }]
    workSequence := id }

/-- `queue::insert_work`. -/
def insertWork (db : Database) (source : Source) (kind : WorkKind) (payload : Payload) : Database :=
  db.addWork source.projectId source.receiptId kind payload
    (if startsWith source.turnId "legacy:" then 1 else 0)

/-- An `UPDATE` of the state of work items, with the trigger `compaction_failure`. -/
def updateWork (db : Database) (selected : WorkItem → Bool) (change : WorkItem → WorkItem) :
    Database :=
  let failed := ((db.workItems.filter selected).map change).filter fun item => item.state = .failed
  let suspends (row : CompactionRow) : Bool := failed.any fun item =>
    row.workId = some item.id && item.payload.seed.any fun seed => seed.revision = row.revision
  let memoryCompactions := db.memoryCompactions.map fun row =>
    if suspends row then { row with suspended := true } else row
  let workItems := db.workItems.map fun item => if selected item then change item else item
  { db with workItems, memoryCompactions }

/-! ## Revocation -/

def boundTo (db : Database) (projectId jobId receiptId : String) : Bool :=
  db.sourceJobs.any fun s =>
    s.receiptId = receiptId && s.projectId = projectId && s.jobId = jobId

def bindTurn (db : Database) (source : Source) (jobId : String) : Database :=
  let sourceJobTurns := insertOrIgnore (fun t => (t.turn, t.jobId))
    ⟨source.turn, source.projectId, jobId⟩ db.sourceJobTurns
  { db with sourceJobTurns }

def indexReceipts (db : Database) (source : Source) : Database :=
  let bound := (db.sourceJobTurns.filter fun t => t.turn = source.turn).flatMap fun t =>
    (db.sources.filter fun s => s.turn = t.turn && s.projectId = t.projectId).map fun s =>
      SourceJob.mk s.receiptId s.projectId t.jobId
  let sourceJobs := bound.foldl
    (fun rows row => insertOrIgnore (fun s => (s.receiptId, s.jobId)) row rows) db.sourceJobs
  { db with sourceJobs }

variable [Environment]

/-- One memory of `invalidation::invalidate`. -/
def invalidateMemory (projectId jobId : String) (at_ : Int) (db : Database) (id : String) :
    Fallible Database := do
  let memory ← db.load projectId id
  let memory := { memory with
    revision := memory.revision + 1, status := .invalidated,
    updatedAt := max memory.updatedAt at_,
    reason := "source_job_cancelled: " ++ jobId ++ " at " ++ toString at_ }
  let saved ← db.save memory
  let scheduled := (saved.memoryCompactions.filter fun row => row.memoryId = id).map
    CompactionRow.workId
  return saved.updateWork (fun item => some item.id ∈ scheduled && item.revocable)
    WorkItem.revoked

def citing (db : Database) (projectId jobId : String) : List String :=
  (db.memories.filter fun m => m.status ≠ .invalidated && m.status ≠ .forgotten &&
    db.memoryEvidence.any fun e => e.memoryId = m.id && db.boundTo projectId jobId e.receiptId).map
    Memory.id

def invalidate (db : Database) (projectId jobId : String) (at_ : Int) : Fallible Database :=
  let db := db.updateWork
    (fun item => db.boundTo projectId jobId item.receiptId && item.revocable)
    WorkItem.revoked
  (db.citing projectId jobId).foldlM (invalidateMemory projectId jobId at_) db

def bindCancelledSource (db : Database) (source : Source) : Database :=
  match source.jobId with
  | none => db
  | some jobId => (db.bindTurn source jobId).indexReceipts source

def cancelJob (db : Database) (projectId jobId : String) (revision at_ : Int) : Database :=
  let cancelledJobs := upsert (fun c => (c.projectId, c.jobId))
    ⟨projectId, jobId, revision, at_⟩
    (fun c => { c with
      revision := max c.revision revision, cancelledAt := max c.cancelledAt at_ })
    db.cancelledJobs
  { db with cancelledJobs }

def invalidateJob (db : Database) (projectId jobId : String) (revision at_ : Int) :
    Fallible Database :=
  (db.cancelJob projectId jobId revision at_).invalidate projectId jobId at_

def bindReceipts (db : Database) (source : Source) : Database :=
  match source.jobId with
  | none => db.indexReceipts source
  | some jobId => (db.bindTurn source jobId).indexReceipts source

def indexSource (db : Database) (source : Source) : Fallible Database :=
  let db := db.bindReceipts source
  let cancelled := (db.sourceJobs.filter fun s => s.receiptId = source.receiptId).flatMap fun s =>
    db.cancelledJobs.filter fun c => c.projectId = s.projectId && c.jobId = s.jobId
  cancelled.foldlM (fun db c => db.invalidate source.projectId c.jobId c.cancelledAt) db

end Database

/-! ## Intake -/

/-- The longest start of at most so many bytes, and what is left. -/
def takeBytes : Nat → List Char → List Char × List Char
  | _, [] => ([], [])
  | room, c :: rest =>
    if c.utf8Size ≤ room then
      let (taken, left) := takeBytes (room - c.utf8Size) rest
      (c :: taken, left)
    else ([], c :: rest)

/-- The parts of a message of at most 16384 bytes.  Every part takes a character, so as much fuel
as there are characters is enough. -/
def messageParts (message : SourceMessage) : Nat → Nat → List Char → List Payload
  | _, _, [] => []
  | 0, _, _ => []
  | fuel + 1, offset, text =>
    let (taken, left) := takeBytes 16384 text
    let part := String.ofList taken
    let stop := offset + part.utf8ByteSize
    .message message.id message.role part offset (if left = [] then none else some stop) ::
      messageParts message fuel stop left

def SourceMessage.parts (message : SourceMessage) : List Payload :=
  messageParts message message.text.toList.length 0 message.text.toList

namespace Database

/-- The new head of a turn, with the work on its messages. -/
def enqueueHead (db : Database) (source : Source) : Database :=
  let head : SourceHead := ⟨source.turn, source.projectId, source.revision, source.receiptId⟩
  let sourceHeads := upsert SourceHead.turn head
    (fun old => { old with revision := source.revision, receiptId := source.receiptId })
    db.sourceHeads
  let db := Database.insertScheduler { db with sourceHeads } source.projectId
  (source.messages.flatMap SourceMessage.parts).foldl
    (fun db payload => db.insertWork source .extract payload) db

def enqueueSource (db : Database) (source : Source) : Fallible Database :=
  match db.sourceHeads.find? fun head => head.turn = source.turn with
  | none => .ok (db.enqueueHead source)
  | some prior => do
    ensure (prior.projectId = source.projectId) "conflict: source Project changed"
    if source.revision ≤ prior.revision then do
      if source.revision = prior.revision then do
        let recorded ← orElseError (db.source prior.receiptId)
          "no rows returned by a query that expected to return at least one row"
        ensure (recorded.messages = source.messages)
          "conflict: source revision fork requires restore reconciliation"
        return db
      else return db
    else
      let cancelled := db.updateWork
        (fun item => item.receiptId = prior.receiptId && item.active) WorkItem.superseded
      return cancelled.enqueueHead source

/-- `MemoryStore::bind_source`, up to the replay checkpoint. -/
def bindSource (db : Database) (instance_ : String) : Fallible Database := do
  ensure (instance_ ≠ "") "invalid: source instance"
  let bound := db.sourceInstance.getD instance_
  let foreign := db.sources.any fun s => s.instanceId ≠ instance_
  ensure (bound = instance_ ∧ ¬ foreign)
    "conflict: memory belongs to another task database; restore a compatible pair"
  return { db with sourceInstance := some bound }

variable [Environment]

def ingest (db : Database) (source : Source) : Fallible (Bool × Database) := do
  ensure (source.receiptId ≠ "" ∧ source.projectId ≠ "" ∧ 0 < source.revision)
    "invalid: source identity"
  ensure (source.messages.all fun m => m.id ≠ "" && (m.role = "user" || m.role = "assistant"))
    "invalid: source messages"
  ensure (db.sourceInstance.all fun bound => bound = source.instanceId)
    "conflict: foreign source instance"
  match db.source source.receiptId with
  | some existing => do
    ensure (existing = source) "conflict: immutable source receipt changed"
    return (false, db)
  | none => do
    let indexed ← Database.indexSource { db with sources := db.sources ++ [source] } source
    if indexed.sourceValid source.receiptId then do
      let enqueued ← indexed.enqueueSource source
      return (true, enqueued)
    else return (true, indexed)

/-! ## Leases -/

/-- The items a lease may be given for. -/
def claimable (db : Database) (config : AgentConfig) (now : Int) (id : Option Nat)
    (item : WorkItem) : Bool :=
  ((item.state = .pending && item.availableAt ≤ now) ||
      (item.state = .running && item.expired now)) &&
    !item.exhausted &&
    (db.workItems.filter fun r => r.projectId = item.projectId && r.kind = item.kind &&
        r.leased now).length <
      (match item.kind with
        | .consolidate => 1
        | .extract => config.maxExtractionLoopsPerProject) &&
    id.all fun wanted => item.id = wanted

/-- The order of claims: the Project served least recently, then priority, then age. -/
def claimLe (a b : Nat × WorkItem) : Bool :=
  a.1 < b.1 || (a.1 == b.1 && (a.2.priority < b.2.priority ||
    (a.2.priority == b.2.priority && a.2.id ≤ b.2.id)))

def scheduled (db : Database) : List (Nat × WorkItem) :=
  db.workItems.filterMap fun item =>
    (rowOf db.schedulerProjects SchedulerProject.projectId item.projectId).map fun project =>
      (project.lastServed, item)

def nextItem (db : Database) (config : AgentConfig) (now : Int) (id : Option Nat) :
    Option WorkItem :=
  (((db.scheduled.filter fun entry => db.claimable config now id entry.2).insertionSort
    fun a b => claimLe a b).head?).map Prod.snd

/-- Expired leases without an attempt left fail. -/
def failExpired (db : Database) (now : Int) (id : Option Nat) : Database :=
  db.updateWork
    (fun item => item.state = .running && item.expired now && item.exhausted &&
      id.all fun wanted => item.id = wanted)
    WorkItem.expiredOut

def running (db : Database) (now : Int) : Nat :=
  (db.workItems.filter fun item => item.leased now).length

def leaseOf (item : WorkItem) (owner : String) (config : AgentConfig) (now : Int) : WorkLease where
  id := item.id
  projectId := item.projectId
  receiptId := item.receiptId
  kind := item.kind
  payload := item.payload
  generation := item.generation + 1
  owner := owner
  leaseUntil := now + config.leaseSeconds

def grant (db : Database) (lease : WorkLease) (config : AgentConfig) : Database :=
  let db := db.updateWork (fun item => item.id = lease.id) (WorkItem.granted lease config)
  let schedulerTick := db.schedulerTick + 1
  let schedulerProjects := alter SchedulerProject.projectId lease.projectId
    (fun project => { project with lastServed := schedulerTick }) db.schedulerProjects
  { db with schedulerTick, schedulerProjects }

/-- `claim_selected_work`, for one item or for any. -/
def claimSelectedWork (db : Database) (owner : String) (config : AgentConfig) (now : Int)
    (id : Option Nat) : Fallible (Option WorkLease × Database) := do
  ensure (owner ≠ "") "missing worker owner"
  let db := db.failExpired now id
  if config.maxConcurrentLoops ≤ db.running now then return (none, db)
  else match db.nextItem config now id with
    | none => return (none, db)
    | some item =>
      let lease := leaseOf item owner config now
      return (some lease, db.grant lease config)

/-- `queue::fence`. -/
def fence (db : Database) (lease : WorkLease) (now : Int) : Fallible Unit :=
  ensure (db.workItems.any fun item => item.id = lease.id && item.projectId = lease.projectId &&
      item.receiptId = lease.receiptId && item.state = .running &&
      item.generation = lease.generation && item.owner = some lease.owner && item.unexpired now)
    "conflict: stale worker lease or source revision"

/-- `queue::finish`. -/
def finish (db : Database) (lease : WorkLease) (result : Outcome) : Database :=
  db.updateWork (fun item => item.id = lease.id) (WorkItem.finished result)

/-! ## Completions and failures -/

def splitBatches : List MemoryInput → Nat → List MemoryInput → List (List MemoryInput)
  | [], _, [] => []
  | batch, _, [] => [batch]
  | batch, bytes, candidate :: rest =>
    let size := Environment.encodedSize candidate + 1
    if batch ≠ [] ∧ 48 * 1024 < bytes + size then
      batch :: splitBatches [candidate] (2 + size) rest
    else splitBatches (batch ++ [candidate]) (bytes + size) rest

/-- What `complete_extraction` checks of a candidate. -/
def validateCandidate (db : Database) (lease : WorkLease) (candidate : MemoryInput) :
    Fallible Unit := do
  candidate.validate .agent
  ensure (candidate.evidence.any fun e => e.receiptId = lease.receiptId &&
    some e.messageId = lease.payload.messageId)
    "extraction evidence must include its source message"
  db.validateEvidence lease.projectId candidate

def insertBatches (db : Database) (lease : WorkLease) (candidates : List MemoryInput) :
    Fallible Database :=
  if candidates = [] then .ok db
  else do
    let source ← orElseError (db.source lease.receiptId)
      "no rows returned by a query that expected to return at least one row"
    return (splitBatches [] 2 candidates).foldl
      (fun db batch => db.insertWork source .consolidate (.candidates batch)) db

def completeExtraction (db : Database) (lease : WorkLease) (candidates : List MemoryInput)
    (now : Int) : Fallible Database := do
  ensure (lease.kind = .extract ∧ candidates.length ≤ 16) "invalid extraction result"
  db.fence lease now
  candidates.forM (db.validateCandidate lease)
  let inserted ← db.insertBatches lease candidates
  return inserted.finish lease (.extracted candidates)

/-- `fail_work_with_retry`. -/
def failWorkWithRetry (db : Database) (lease : WorkLease) (error : String) (now : Int)
    (retry : Bool) : Fallible Database := do
  db.fence lease now
  ensure (fits error 2048) "worker error exceeds budget"
  return db.updateWork (fun item => item.id = lease.id) (WorkItem.failedWith error now retry)

def retryable (db : Database) (projectId : String) (id : Nat) (item : WorkItem) : Bool :=
  item.projectId = projectId && item.id = id && item.state = .failed &&
    (item.payload.isReview || db.sourceHeads.any fun head =>
      head.projectId = projectId && head.receiptId = item.receiptId)

def retryWork (db : Database) (projectId : String) (id : Nat) : Fallible Database := do
  ensure (db.workItems.any (db.retryable projectId id))
    "conflict: only failed work with a current source can retry"
  return db.updateWork (db.retryable projectId id) WorkItem.retried

end Database

end Agentix.MemoryStore
