import Agentix.MemoryStore.Database

/-! # Versions of memories

Evidence, facts and the lifecycle of a memory.  Every function that writes takes the database
inside its transaction and returns it, or the error text that rolls the transaction back.
-/

namespace Agentix.MemoryStore

open Lib
open TaskStore (blank)

/-- Whether a new revision waits for its compaction. -/
def Memory.dirty (memory : Memory) : Bool :=
  memory.status.searchable && memory.actor = .agent

variable [Environment]

namespace Database

/-! ## Evidence -/

/-- `invalidation::source_valid`. -/
def sourceValid (db : Database) (receiptId : String) : Bool :=
  !db.sourceJobs.any fun s => s.receiptId = receiptId &&
    db.cancelledJobs.any fun c => c.projectId = s.projectId && c.jobId = s.jobId

def quoted (db : Database) (projectId : String) (evidence : Evidence) :
    Fallible (Source × SourceMessage) := do
  let source ← orElseError
    (db.sources.find? fun s => s.receiptId = evidence.receiptId && s.projectId = projectId)
    "invalid: evidence outside Project or absent"
  let message ← orElseError (source.messages.find? fun m => m.id = evidence.messageId)
    "invalid: evidence message absent"
  ensure (contains message.text evidence.quote) "invalid: evidence quote is not in source"
  return (source, message)

def evidenceIdentity (quotation : Source × SourceMessage) : EvidenceIdentity where
  instanceId := quotation.1.instanceId
  sessionId := quotation.1.sessionId
  messageId := quotation.2.id
  text := quotation.2.text

def evidenceKeys (db : Database) (projectId : String) (content : MemoryInput) :
    Fallible (List String) := do
  let quotations ← content.evidence.mapM (db.quoted projectId)
  ensure (content.evidence = [] ∨ (content.kind ≠ .userDecision ∧ content.kind ≠ .userAssertion) ∨
    quotations.any fun (_, message) => message.role = "user")
    "invalid: assistant text alone cannot establish a user decision"
  return quotations.map fun quotation => Environment.digest (evidenceIdentity quotation)

def validateEvidence (db : Database) (projectId : String) (content : MemoryInput) :
    Fallible Unit := do
  ensure (content.evidence.all fun e => db.sourceValid e.receiptId)
    "conflict: source Job was cancelled"
  let keys ← db.evidenceKeys projectId content
  ensure (keys.all fun key => !db.suppressions.any fun s =>
    s.projectId = projectId && s.evidenceKey = key) "conflict: evidence was forgotten"

def suppressVersion (projectId id : String) (db : Database) (version : Memory) :
    Fallible Database := do
  let keys ← db.evidenceKeys projectId version.content
  let suppressions := keys.foldl (fun rows key =>
    insertOrIgnore (fun s => (s.projectId, s.evidenceKey)) ⟨projectId, key, id⟩ rows)
    db.suppressions
  return { db with suppressions }

def suppressHistory (db : Database) (projectId id : String) : Fallible Database :=
  (db.memoryVersions.filter fun version => version.id = id).foldlM
    (suppressVersion projectId id) db

/-! ## Facts -/

def validateVersion (db : Database) (memory : Memory) : Fallible Unit :=
  match (db.memory memory.id).bind fun prior => prior.content.fact with
  | none => .ok ()
  | some fact =>
    ensure (memory.content.fact.any fun current =>
      current.key = fact.key && current.value = fact.value)
      "fact identity and value are immutable; supersede with a new version instead"

/-- `facts::index`. -/
def indexFact (db : Database) (memory : Memory) : Fallible Database :=
  match memory.content.fact with
  | none => .ok db
  | some fact => do
    let occupied := db.memoryFacts.any fun row => row.projectId = memory.projectId &&
      row.factKey = fact.key && row.status = .active && row.memoryId ≠ memory.id
    ensure (¬ (memory.status = .active ∧ occupied))
      "conflict: fact already has an active version; reconcile before writing"
    let memoryFacts := upsert FactRow.memoryId
      ⟨memory.id, memory.projectId, fact.key, memory.status⟩
      (fun row => { row with status := memory.status }) db.memoryFacts
    return { db with memoryFacts }

/-- The greater of two pairs. -/
def later (a b : Int × Int) : Int × Int :=
  if a.1 < b.1 ∨ (a.1 = b.1 ∧ a.2 < b.2) then b else a

def sourceOrder (db : Database) (projectId : String) (content : MemoryInput) :
    Fallible (Int × Int) :=
  content.evidence.foldlM (fun order quote => do
    let source ← orElseError
      (db.sources.find? fun s => s.receiptId = quote.receiptId && s.projectId = projectId)
      "no rows returned by a query that expected to return at least one row"
    let message ← orElseError (source.messages.find? fun m => m.id = quote.messageId)
      "evidence message missing"
    return later order (message.recordedAt.getD source.recordedAt, source.sequence)) (0, 0)

def validateReplacement (db : Database) (prior : Memory) (content : MemoryInput) :
    Fallible Unit :=
  if prior.content.fact.isSome || content.fact.isSome then do
    ensure (sameIdentity prior.content content) "replacement cannot combine different facts"
    if prior.actor = .agent ∧ prior.content.factValue ≠ content.factValue then do
      let order ← db.sourceOrder prior.projectId content
      let priorOrder ← db.sourceOrder prior.projectId prior.content
      ensure (later priorOrder order = order)
        "stale fact evidence cannot replace newer knowledge"
    else .ok ()
  else .ok ()

def unsettled (db : Database) (projectId : String) (factKey : FactKey) : Bool :=
  let hasStatus status := db.memoryFacts.any fun row =>
    row.projectId = projectId && row.factKey = factKey && row.status = status
  hasStatus .active && hasStatus .conflicted

/-- No confirmed active fact can coexist with unresolved claims of that identity. -/
def checkSettled (db : Database) (changed : List Memory) : Fallible Unit :=
  ensure (changed.all fun memory => memory.content.factKey.all fun factKey =>
    !db.unsettled memory.projectId factKey)
    "unresolved fact conflicts must be reconciled before creating an active version"

/-! ## Versions -/

def load (db : Database) (projectId id : String) : Fallible Memory :=
  orElseError (db.memories.find? fun m => m.projectId = projectId && m.id = id)
    "not_found: memory"

def validateMemory (db : Database) (memory : Memory) : Fallible Unit :=
  if memory.status.searchable then do
    ensure (!db.memories.any fun m => m.id = memory.id && m.status = .invalidated)
      "conflict: invalidated memory requires a new independently verified version"
    ensure (memory.content.evidence.all fun e => db.sourceValid e.receiptId)
      "conflict: source Job was cancelled"
  else .ok ()

/-- The row of `memories`, with its triggers `compaction_insert` and `compaction_update`. -/
def writeMemory (db : Database) (memory : Memory) : Database :=
  if db.memories.any fun m => m.id = memory.id then
    let memories := alter Memory.id memory.id (fun _ => memory) db.memories
    let touched (row : CompactionRow) : CompactionRow :=
      { row with
        revision := memory.revision, dirty := memory.dirty, suspended := false,
        dirtyAt := memory.updatedAt }
    let memoryCompactions :=
      alter CompactionRow.memoryId memory.id touched db.memoryCompactions
    { db with memories, memoryCompactions }
  else
    let row : CompactionRow :=
      { memoryId := memory.id, projectId := memory.projectId, revision := memory.revision,
        dirty := memory.dirty, dirtyAt := memory.updatedAt }
    { db with
      memories := db.memories ++ [memory], memoryCompactions := db.memoryCompactions ++ [row] }

def writeEvidence (db : Database) (memory : Memory) : Database :=
  let kept := db.memoryEvidence.filter fun row => row.memoryId ≠ memory.id
  let memoryEvidence := memory.content.evidence.foldl
    (fun rows e => insertOrIgnore id ⟨memory.id, e.receiptId⟩ rows) kept
  { db with memoryEvidence }

def writeVersion (db : Database) (memory : Memory) : Fallible Database := do
  ensure (!db.memoryVersions.any fun version =>
    version.id = memory.id && version.revision = memory.revision)
    "UNIQUE constraint failed: memory_versions.memory_id, memory_versions.revision"
  return { db with memoryVersions := db.memoryVersions ++ [memory] }

def save (db : Database) (memory : Memory) : Fallible Database := do
  db.validateMemory memory
  db.validateVersion memory
  let indexed ← ((db.writeMemory memory).writeEvidence memory).indexFact memory
  indexed.writeVersion memory

/-! ## Lifecycle -/

/-- `consolidation::new_memory`, and the first version of a created memory with its own actor. -/
def newMemory (id projectId : String) (content : MemoryInput) (reason : String) (actor : Actor)
    (now : Int) : Memory where
  id := id
  projectId := projectId
  revision := 1
  status := .active
  actor := actor
  createdAt := now
  updatedAt := now
  reason := reason
  supersedes := none
  supersededBy := none
  derivedFrom := []
  content := content

def create (db : Database) (projectId : String) (content : MemoryInput) (actor : Actor)
    (newId : String) (now : Int) : Fallible (Memory × Database) := do
  content.validate actor
  ensure (projectId ≠ "") "invalid: memory Project"
  db.validateEvidence projectId content
  let memory := newMemory newId projectId content "" actor now
  let db ← db.save memory
  db.checkSettled [memory]
  return (memory, db)

def validReason (reason : String) : Bool :=
  !blank reason && fits reason 2048

def supersede (db : Database) (projectId id : String) (revision : Nat) (content : MemoryInput)
    (reason : String) (actor : Actor) (newId : String) (now : Int) :
    Fallible (Memory × Database) := do
  content.validate actor
  ensure (validReason reason) "invalid: supersession reason"
  let prior ← db.load projectId id
  ensure (prior.revision = revision && prior.status.searchable)
    "conflict: superseded memory changed"
  db.validateEvidence projectId content
  let memory := { newMemory newId projectId content reason actor now with supersedes := some id }
  let prior := { prior with
    revision := prior.revision + 1, status := .superseded, supersededBy := some memory.id,
    updatedAt := now, reason, actor }
  db.validateReplacement prior memory.content
  let db ← db.save prior
  let db ← db.save memory
  db.checkSettled [memory]
  return (memory, db)

def update (db : Database) (projectId id : String) (revision : Nat) (content : MemoryInput)
    (actor : Actor) (now : Int) : Fallible (Memory × Database) := do
  content.validate actor
  let memory ← db.load projectId id
  ensure (memory.revision = revision) "conflict: memory revision changed"
  ensure (memory.status ≠ .forgotten) "conflict: memory was forgotten"
  db.validateEvidence projectId content
  let memory := { memory with revision := memory.revision + 1, content, actor, updatedAt := now }
  let db ← db.save memory
  db.checkSettled [memory]
  return (memory, db)

/-- A memory that is forgotten leaves its evidence behind as forgotten. -/
def forgetHistory (db : Database) (projectId id : String) (status : Status) : Fallible Database :=
  if status = .forgotten then db.suppressHistory projectId id else .ok db

def setStatus (db : Database) (projectId id : String) (revision : Nat) (status : Status)
    (reason : String) (actor : Actor) (now : Int) : Fallible (Memory × Database) := do
  ensure (validReason reason) "invalid: lifecycle reason required"
  let memory ← db.load projectId id
  ensure (memory.revision = revision) "conflict: memory revision changed"
  ensure (memory.status ≠ .forgotten) "conflict: memory was forgotten"
  ensure (memory.status ≠ .invalidated ∨ status = .invalidated ∨ status = .forgotten)
    "conflict: invalidated memory cannot be reactivated or have its revocation cleared"
  let suppressed ← db.forgetHistory projectId id status
  let memory := { memory with
    revision := memory.revision + 1, status, reason, actor, updatedAt := now }
  let saved ← suppressed.save memory
  saved.checkSettled [memory]
  return (memory, saved)

end Database

end Agentix.MemoryStore
