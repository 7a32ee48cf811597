import Agentix.MemoryStore.Queue

/-! # Compactions and reviews

Incremental maintenance: dirty revisions are scheduled as work with their memory as its seed, and
active memories are reviewed against the repository.
-/

namespace Agentix.MemoryStore

open Lib

/-- `valid_until.is_none_or(|expiry| expiry > now)`. -/
def MemoryInput.unexpired (content : MemoryInput) (now : Int) : Bool :=
  content.validUntil.all fun expiry => now < expiry

def Memory.compactable (memory : Memory) (now : Int) : Bool :=
  memory.actor = .agent && memory.status.searchable && memory.content.unexpired now

structure CompactionPage where
  scanned : Nat
  scheduled : Nat
  nextAfter : String
  workIds : List Nat
  deriving DecidableEq

namespace Database

/-- `compaction::observed`. -/
def observed (now : Int) (db : Database) (memory : Memory) : Database :=
  let seen (row : CompactionRow) : CompactionRow :=
    if row.memoryId = memory.id ∧ row.revision = memory.revision then
      { row with dirty := false, checkedAt := now }
    else row
  { db with memoryCompactions := db.memoryCompactions.map seen }

def scheduleSeed (db : Database) (memory : Memory) (receiptId : String) (now : Int) : Database :=
  let db := db.addWork memory.projectId receiptId .consolidate (.compact memory) 3
  let scheduled (row : CompactionRow) : CompactionRow :=
    { row with
      dirty := false, checkedAt := now, suspended := false, workId := some db.workSequence }
  { db with memoryCompactions := alter CompactionRow.memoryId memory.id scheduled db.memoryCompactions }

/-- `compaction::enqueue`, with the work item it inserted. -/
def enqueueCompaction (db : Database) (memory : Memory) (force : Bool) (debounce : Nat)
    (now : Int) : Fallible (Option Nat × Database) :=
  if !memory.compactable now then .ok (none, db.observed now memory)
  else
    let waits (row : CompactionRow) : Bool := db.workItems.any fun item =>
      row.workId = some item.id && item.active
    let eligible := db.memoryCompactions.any fun row => row.memoryId = memory.id &&
      (force || (row.dirtyAt ≤ now - debounce && row.dirty && !row.suspended)) && !waits row
    if !eligible then .ok (none, db)
    else do
      let evidence ← orElseError memory.content.evidence.head? "compaction requires source evidence"
      let db := (db.insertScheduler memory.projectId).scheduleSeed memory evidence.receiptId now
      return (some db.workSequence, db)

/-- The memories of a page, one after another, with the work items they got. -/
def enqueuePage (force : Bool) (debounce : Nat) (now : Int) :
    List Memory → Database → Fallible (List Nat × Database)
  | [], db => .ok ([], db)
  | memory :: rest, db => do
    let (id, db) ← db.enqueueCompaction memory force debounce now
    let (ids, db) ← enqueuePage force debounce now rest db
    return (id.toList ++ ids, db)

def byId (memories : List Memory) : List Memory :=
  memories.insertionSort fun a b => a.id ≤ b.id

def scheduleCompaction (db : Database) (projectId after : String) (limit : Nat) (force : Bool)
    (debounce : Nat) (now : Int) : Fallible (CompactionPage × Database) := do
  ensure (projectId ≠ "" ∧ 1 ≤ limit ∧ limit ≤ 100) "invalid compaction page"
  let rows := (byId (db.memories.filter fun m => m.projectId = projectId && after < m.id)).take limit
  let (workIds, db) ← enqueuePage force debounce now rows db
  let nextAfter := if rows.length < limit then "" else (rows.getLast?.map Memory.id).getD ""
  return ({ scanned := rows.length, scheduled := workIds.length, nextAfter, workIds }, db)

/-- The dirty revisions whose last seed is not pending or running. -/
def dirtyRows (db : Database) (projectId : String) (before : Int) : List CompactionRow :=
  (db.memoryCompactions.filter fun row => row.projectId = projectId && row.dirty &&
      !row.suspended && row.dirtyAt ≤ before &&
      !db.workItems.any fun item => row.workId = some item.id && item.active).insertionSort
    fun a b => a.dirtyAt < b.dirtyAt ∨ (a.dirtyAt = b.dirtyAt ∧ a.memoryId ≤ b.memoryId)

def scheduleBackgroundCompaction (db : Database) (projectId : String) (config : AgentConfig)
    (now : Int) : Fallible (Nat × Database) :=
  if !config.compactionEnabled then .ok (0, db)
  else do
    let rows := ((db.dirtyRows projectId (now - config.compactionDebounceSeconds)).filterMap
      fun row => db.memory row.memoryId).take 10
    let (workIds, db) ← enqueuePage false config.compactionDebounceSeconds now rows db
    return (workIds.length, db)

/-- `skip_obsolete_compaction`: whether the seed of the lease changed. -/
def skipObsoleteCompaction (db : Database) (lease : WorkLease) (now : Int) :
    Fallible (Bool × Database) :=
  match lease.payload.seed with
  | none => .ok (false, db)
  | some seed => do
    db.fence lease now
    let current ← db.load lease.projectId seed.id
    if current.revision ≠ seed.revision ∨ !current.compactable now then
      return (true, db.finish lease (.skipped seed.id seed.revision current.revision))
    else return (false, db)

/-! ## Reviews -/

/-- Whether a memory is due for a review: its last one is over, and was of another revision or
fingerprint or was cancelled. -/
def reviewDue (db : Database) (fingerprint : String) (memory : Memory) : Bool :=
  match rowOf db.memoryReviews ReviewRow.memoryId memory.id with
  | none => true
  | some review =>
    match db.workItem review.workId with
    | none => false
    | some item => (review.revision ≠ memory.revision || review.fingerprint ≠ fingerprint ||
        item.state = .cancelled) && !item.active

def scheduleReview (fingerprint : String) (db : Database) (memory : Memory) :
    Fallible Database := do
  let evidence ← orElseError memory.content.evidence.head? "agent memory requires evidence"
  let db := (db.insertScheduler memory.projectId).addWork memory.projectId evidence.receiptId
    .consolidate (.review memory fingerprint) 2
  let review : ReviewRow := ⟨memory.id, memory.revision, fingerprint, db.workSequence⟩
  let memoryReviews := upsert ReviewRow.memoryId review (fun _ => review) db.memoryReviews
  return { db with memoryReviews }

def scheduleReviews (db : Database) (projectId fingerprint : String) (limit : Nat) (now : Int) :
    Fallible (Nat × Database) := do
  ensure (fingerprint ≠ "" ∧ fits fingerprint 256 ∧ 1 ≤ limit ∧ limit ≤ 100)
    "invalid repository review page"
  let rows := (byId (db.memories.filter fun m => m.projectId = projectId && m.status = .active &&
    m.compactable now && db.reviewDue fingerprint m)).take limit
  let db ← rows.foldlM (scheduleReview fingerprint) db
  return (rows.length, db)

variable [Environment]

def completeReview (db : Database) (lease : WorkLease) (decision : ReviewDecision) (now : Int) :
    Fallible Database := do
  ensure (validReason decision.reason) "review reason required"
  match lease.payload with
  | .review expected _ => do
    db.fence lease now
    let current ← db.load lease.projectId expected.id
    -- human edits, lifecycle changes and new revisions always win over a review
    if decision.archive ∧ current.revision = expected.revision ∧ current.actor = .agent ∧
        current.status = .active then do
      let archived ← db.save { current with
        revision := current.revision + 1, updatedAt := now, status := .archived,
        reason := decision.reason }
      return archived.finish lease (.reviewed decision)
    else return db.finish lease (.reviewed decision)
  | _ => .error "invalid type: null, expected struct Memory"

end Database

end Agentix.MemoryStore

/-! # Consolidation

A proposal of the model is applied as a whole: one decision for every candidate, with the related
memories it settles.
-/

namespace Agentix.MemoryStore

open Lib
open TaskStore (blank)

variable [Environment]

/-- `preserve_evidence`: the content with the quotations of the prior one it does not cover. -/
def preserveEvidence (content prior : MemoryInput) : Fallible MemoryInput := do
  let preserved := prior.evidence.foldl (fun content e =>
    if content.covers e then content else { content with evidence := content.evidence ++ [e] })
    content
  preserved.validate .agent
  return preserved

/-- A transaction that applies a proposal: the database, the memories it wrote and the number of
identifiers it drew. -/
structure Progress where
  db : Database
  changed : List Memory := []
  drawn : Nat := 0

namespace Progress

def save (progress : Progress) (memory : Memory) : Fallible Progress := do
  let db ← progress.db.save memory
  return { progress with db }

def push (progress : Progress) (memory : Memory) : Progress :=
  { progress with changed := progress.changed ++ [memory] }

/-- Save a memory and count it as changed. -/
def write (progress : Progress) (memory : Memory) : Fallible Progress := do
  let progress ← progress.save memory
  return progress.push memory

/-- `new_memory`. -/
def newMemory (progress : Progress) (ids : Nat → String) (projectId : String)
    (content : MemoryInput) (reason : String) (now : Int) : Memory × Progress :=
  (MemoryStore.Database.newMemory (ids progress.drawn) projectId content reason .agent now,
    { progress with drawn := progress.drawn + 1 })

end Progress

/-! ## Forgetting -/

def asciiLower (c : Char) : Char :=
  if 'A' ≤ c ∧ c ≤ 'Z' then Char.ofNat (c.toNat + 32) else c

/-- `a.eq_ignore_ascii_case(b)`. -/
def eqIgnoreAsciiCase (a b : String) : Bool :=
  a.toList.map asciiLower = b.toList.map asciiLower

/-- `text.trim().trim_end_matches(['.', '。'])`. -/
def requestText (text : String) : String :=
  String.ofList ((trim text).toList.reverse.dropWhile fun c => c = '.' || c = '。').reverse

def explicitForgetRequest (text : String) (memory : Memory) : Bool :=
  let text := requestText text
  [memory.id, memory.content.title].any fun target =>
    eqIgnoreAsciiCase text ("forget memory " ++ target) || text = "忘记记忆 " ++ target

def validateForget (db : Database) (lease : WorkLease) (candidate : MemoryInput)
    (decision : RelatedDecision) (prior : Memory) : Fallible Unit := do
  let auth ← orElseError decision.forgetRequest "forget requires an explicit current user request"
  let current := lease.payload.messageId.or
    ((candidate.evidence.find? fun e => e.receiptId = lease.receiptId).map Evidence.messageId)
  ensure (auth.receiptId = lease.receiptId ∧ some auth.messageId = current)
    "forget request must belong to current source"
  let source ← orElseError
    (db.sources.find? fun s => s.receiptId = auth.receiptId && s.projectId = lease.projectId)
    "no rows returned by a query that expected to return at least one row"
  ensure (prior.updatedAt ≤ source.recordedAt ∧
    (source.messages.any fun m => m.id = auth.messageId && m.role = "user" &&
      trim m.text = trim auth.quote) ∧
    auth ∈ candidate.evidence ∧ explicitForgetRequest auth.quote prior)
    "forget requires a dated explicit user request naming the memory"

/-! ## Related memories -/

section Related

variable (lease : WorkLease) (candidate : MemoryInput) (ids : Nat → String) (now : Int)

def relatedSupersede (decision : RelatedDecision) (anchor : Option Memory) (prior : Memory)
    (progress : Progress) : Fallible (Memory × Progress) := do
  let anchor ← orElseError anchor "replacement requires a current memory"
  onlyIf prior.content.fact.isSome (progress.db.validateReplacement prior anchor.content)
  ensure (prior.content.evidence.all fun e => anchor.content.covers e ||
    decision.retained.any fun retained => retained.covers e)
    "replacement must preserve prior evidence in current or retained facts"
  let prior := { prior with status := .superseded, supersededBy := some anchor.id }
  match decision.retained with
  | none => return (prior, progress)
  | some retained => do
    let (remainder, progress) :=
      progress.newMemory ids lease.projectId retained decision.reason now
    let progress ← progress.write { remainder with supersedes := some prior.id }
    return (prior, progress)

def relatedConflict (anchor : Option Memory) (prior : Memory) (progress : Progress) :
    Fallible (Memory × Progress) := do
  let anchor ← orElseError anchor "conflict requires both claims"
  onlyIf prior.content.fact.isSome
    (ensure (sameIdentity prior.content anchor.content) "conflict must refer to the same fact")
  let prior := { prior with status := .conflicted }
  if anchor.status = .conflicted then return (prior, progress)
  else do
    let progress ← progress.write { anchor with
      revision := anchor.revision + 1, status := .conflicted, updatedAt := now }
    return (prior, progress)

def relatedForget (decision : RelatedDecision) (prior : Memory) (progress : Progress) :
    Fallible (Memory × Progress) := do
  validateForget progress.db lease candidate decision prior
  let db ← progress.db.suppressHistory lease.projectId prior.id
  return ({ prior with status := .forgotten }, { progress with db })

def validateRetained (decision : RelatedDecision) (progress : Progress) : Fallible Unit :=
  match decision.retained with
  | none => .ok ()
  | some retained => do
    ensure (decision.action = .supersede) "retained facts require partial replacement"
    retained.validate .agent
    progress.db.validateEvidence lease.projectId retained

/-- What the action does to the related memory, before its new version is written. -/
def relatedAction (decision : RelatedDecision) (anchor : Option Memory) (prior : Memory)
    (progress : Progress) : Fallible (Memory × Progress) :=
  match decision.action with
  | .supersede => relatedSupersede lease ids now decision anchor prior progress
  | .conflict => relatedConflict now anchor prior progress
  | .forget => relatedForget lease candidate decision prior progress
  | .keep => .error "internal error: entered unreachable code"

def applyRelated (anchor : Option Memory) (progress : Progress) (decision : RelatedDecision) :
    Fallible Progress := do
  ensure (Database.validReason decision.reason) "related assessment reason required"
  if decision.action = .keep then do
    ensure (decision.retained = none ∧ decision.forgetRequest = none) "keep cannot mutate memory"
    return progress
  else do
    let prior ← progress.db.load lease.projectId decision.id
    ensure (prior.revision = decision.revision ∧ prior.status.searchable)
      "conflict: related memory changed"
    ensure (prior.actor ≠ .human ∨ decision.action = .conflict)
      "conflict: preserve human-authored memory"
    ensure (decision.forgetRequest = none ∨ decision.action = .forget)
      "forget evidence only applies to forgetting"
    validateRetained lease decision progress
    let (prior, progress) ← relatedAction lease candidate ids now decision anchor prior progress
    progress.write { prior with
      revision := prior.revision + 1, updatedAt := now, reason := decision.reason }

end Related

/-! ## Decisions -/

def consolidationCandidates (lease : WorkLease) : Fallible (List MemoryInput) :=
  match lease.payload with
  | .compact seed => .ok [seed.content]
  | .candidates batch => .ok batch
  | _ => .error "invalid type: map, expected a sequence"

def seedIsCurrent (seed current : Memory) (now : Int) : Bool :=
  current.revision = seed.revision && current.compactable now

def revisesSeed (seed : Memory) (decision : ConsolidationDecision) : Bool :=
  decision.action = .discard ||
    (decision.action ≠ .create && decision.target = some seed.id) ||
    (decision.action = .merge && decision.target.isSome && decision.related.any fun r =>
      r.id = seed.id && r.revision = seed.revision && r.action = .supersede && r.retained = none)

def validateSeed (db : Database) (lease : WorkLease) (decisions : List ConsolidationDecision)
    (now : Int) : Fallible Unit :=
  match lease.payload.seed with
  | none => .ok ()
  | some seed => do
    let current ← db.load lease.projectId seed.id
    ensure (seedIsCurrent seed current now) "conflict: compaction seed changed"
    ensure (decisions.all (revisesSeed seed))
      "compaction must revise its seed or merge into an existing target and retire the exact seed without a retained duplicate"
    ensure (decisions.all fun d => d.related.all fun r => r.action ≠ .forget)
      "compaction cannot authorize forgetting"

/-- Related assessments refer to the snapshot at the start of the transaction. -/
def validateSnapshot (db : Database) (projectId : String) (related : RelatedDecision) :
    Fallible Unit := do
  let prior ← db.load projectId related.id
  ensure (prior.revision = related.revision ∧ prior.status.searchable)
    "conflict: related memory changed"

section Decisions

variable (lease : WorkLease) (ids : Nat → String) (now : Int)

def proposedContent (candidate : MemoryInput) (decision : ConsolidationDecision) :
    Fallible MemoryInput :=
  let proposed := decision.content.getD candidate
  if lease.payload.seed.isSome then preserveEvidence proposed candidate else .ok proposed

def decisionContent (db : Database) (candidate : MemoryInput) (decision : ConsolidationDecision) :
    Fallible MemoryInput := do
  let content ← proposedContent lease candidate decision
  content.validate .agent
  ensure (candidate.fact.isSome → lease.payload.seed = none → sameValue content candidate)
    "consolidation cannot change the extracted fact identity or value"
  ensure (candidate.evidence.all content.covers) "consolidation must retain candidate evidence"
  db.validateEvidence lease.projectId content
  return content

def applyCreate (candidate content : MemoryInput) (decision : ConsolidationDecision)
    (progress : Progress) : Fallible Progress := do
  ensure (decision.target = none ∧ decision.expectedRevision = none)
    "create cannot target an existing memory"
  let (memory, progress) := progress.newMemory ids lease.projectId content decision.reason now
  let progress ← progress.save memory
  let progress ← decision.related.foldlM (applyRelated lease candidate ids now (some memory)) progress
  return progress.push memory

/-- A fact is merged with its own value, and replaced by a newer one. -/
def validateTarget (db : Database) (content : MemoryInput) (decision : ConsolidationDecision)
    (prior : Memory) : Fallible Unit := do
  ensure (sameIdentity prior.content content) "consolidation cannot combine different facts"
  match decision.action with
  | .merge =>
    ensure (sameValue prior.content content) "changed fact values require supersede, not merge"
  | .supersede => db.validateReplacement prior content
  | _ => .ok ()

/-- The memory that a merge, supersession or conflict changes. -/
def decisionTarget (db : Database) (content : MemoryInput) (decision : ConsolidationDecision) :
    Fallible Memory := do
  let id ← orElseError decision.target "missing consolidation target"
  let prior ← db.load lease.projectId id
  ensure (some prior.revision = decision.expectedRevision ∧ prior.status.searchable)
    "conflict: consolidation target changed"
  ensure (prior.actor ≠ .human ∨ decision.action = .conflict)
    "conflict: preserve human-authored memory; report a conflict instead"
  onlyIf (prior.content.fact.isSome || content.fact.isSome)
    (validateTarget db content decision prior)
  return prior

def applyMerge (content : MemoryInput) (prior : Memory) (progress : Progress) :
    Fallible (Memory × Memory × Progress) := do
  let original ← progress.db.load lease.projectId prior.id
  let merged ← preserveEvidence content original.content
  let prior := { prior with content := merged, actor := .agent }
  let progress ← progress.save prior
  return (prior, prior, progress)

def applySupersede (content : MemoryInput) (prior : Memory) (progress : Progress) :
    Fallible (Memory × Memory × Progress) := do
  let (new, progress) := progress.newMemory ids lease.projectId content prior.reason now
  let new := { new with supersedes := some prior.id }
  let prior := { prior with supersededBy := some new.id, status := .superseded }
  let progress ← progress.save prior
  let progress ← progress.write new
  return (prior, new, progress)

def applyConflict (content : MemoryInput) (prior : Memory) (progress : Progress) :
    Fallible (Memory × Memory × Progress) := do
  let (new, progress) := progress.newMemory ids lease.projectId content prior.reason now
  let new := { new with status := .conflicted }
  let prior := { prior with status := .conflicted }
  let progress ← progress.write new
  let progress ← progress.save prior
  return (prior, new, progress)

/-- The new version of the target, and the memory that the related ones are settled against. -/
def applyAction (content : MemoryInput) (decision : ConsolidationDecision) (prior : Memory)
    (progress : Progress) : Fallible (Memory × Memory × Progress) :=
  match decision.action with
  | .merge => applyMerge lease content prior progress
  | .supersede => applySupersede lease ids now content prior progress
  | .conflict => applyConflict lease ids now content prior progress
  | _ => .error "internal error: entered unreachable code"

def applyTarget (candidate content : MemoryInput) (decision : ConsolidationDecision)
    (progress : Progress) : Fallible Progress := do
  let prior ← decisionTarget lease progress.db content decision
  let (prior, anchor, progress) ← applyAction lease ids now content decision { prior with
    revision := prior.revision + 1, updatedAt := now, reason := decision.reason } progress
  let progress ← decision.related.foldlM (fun progress related => do
    ensure (related.id ≠ prior.id) "primary target cannot also be a related target"
    applyRelated lease candidate ids now (some anchor) progress related) progress
  return progress.push prior

def applyDecision (candidates : List MemoryInput) (indices : List Nat) (progress : Progress)
    (decision : ConsolidationDecision) : Fallible Progress := do
  ensure (decision.action ≠ .archive)
    "automatic archival requires repository review with a validated citation"
  ensure (decision.candidate ∉ indices) "duplicate candidate decision"
  let candidate ← orElseError candidates[decision.candidate]? "invalid candidate index"
  ensure (Database.validReason decision.reason) "consolidation reason required"
  ensure (decision.related.length ≤ 16 ∧ (decision.related.map RelatedDecision.id).Nodup)
    "duplicate or oversized related assessments"
  if decision.action = .discard then do
    ensure (decision.target = none ∧ decision.content = none) "discard cannot mutate memory"
    decision.related.foldlM (applyRelated lease candidate ids now none) progress
  else do
    let content ← decisionContent lease progress.db candidate decision
    if decision.action = .create then
      applyCreate lease ids now candidate content decision progress
    else applyTarget lease ids now candidate content decision progress

def applyDecisions (candidates : List MemoryInput) :
    List Nat → List ConsolidationDecision → Progress → Fallible Progress
  | _, [], progress => .ok progress
  | indices, decision :: rest, progress => do
    let progress ← applyDecision lease ids now candidates indices progress decision
    applyDecisions candidates (decision.candidate :: indices) rest progress

end Decisions

namespace Database

/-- The revisions a consolidation has seen: its seed with everything it wrote, or the facts. -/
def observeChanged (db : Database) (lease : WorkLease) (changed : List Memory) (now : Int) :
    Fallible Database :=
  match lease.payload.seed with
  | some seed => do
    let current ← db.load lease.projectId seed.id
    return (current :: changed).foldl (Database.observed now) db
  | none =>
    return (changed.filter fun m => m.content.fact.isSome).foldl (Database.observed now) db

/-- Apply the entire proposal and finish its fenced work item in one transaction. -/
def completeConsolidation (db : Database) (lease : WorkLease)
    (decisions : List ConsolidationDecision) (now : Int) (ids : Nat → String) :
    Fallible (List Memory × Database) := do
  ensure (lease.kind = .consolidate) "invalid consolidation task"
  let candidates ← consolidationCandidates lease
  ensure (decisions.length = candidates.length) "every candidate needs a consolidation decision"
  db.fence lease now
  validateSeed db lease decisions now
  (decisions.flatMap ConsolidationDecision.related).forM (validateSnapshot db lease.projectId)
  let progress ← applyDecisions lease ids now candidates [] decisions { db }
  progress.db.checkSettled progress.changed
  let finished := progress.db.finish lease (.consolidated decisions)
  let db ← finished.observeChanged lease progress.changed now
  return (progress.changed, db)

end Database

end Agentix.MemoryStore

/-! # Splitting mixed memories

A legacy memory is split into atomic facts, together with related legacy memories.
-/

namespace Agentix.MemoryStore

open Lib

variable [Environment]

def insertOrigin (memoryId sourceMemoryId : String) (sourceRevision : Nat) (db : Database) :
    Database :=
  let memoryFactOrigins := insertOrIgnore id ⟨memoryId, sourceMemoryId, sourceRevision⟩
    db.memoryFactOrigins
  { db with memoryFactOrigins }

section Parts

variable (lease : WorkLease) (ids : Nat → String) (now : Int) (origins : List String)

def createPart (part : FactPart) (progress : Progress) : Fallible (Memory × Progress) := do
  ensure (part.target = none ∧ part.expectedRevision = none) "create cannot target existing fact"
  let (memory, progress) := progress.newMemory ids lease.projectId part.content part.reason now
  let memory := { memory with derivedFrom := origins }
  let progress ← progress.write memory
  return (memory, progress)

def partTarget (db : Database) (part : FactPart) : Fallible Memory := do
  let id ← orElseError part.target "part target required"
  let prior ← db.load lease.projectId id
  ensure (some prior.revision = part.expectedRevision ∧ prior.status.searchable)
    "conflict: part target changed"
  ensure (prior.actor ≠ .human ∨ part.action = .conflict) "preserve human-authored fact"
  ensure (prior.content.fact.isSome ∧ sameIdentity prior.content part.content)
    "split cannot merge unrelated facts or legacy records"
  return prior

def mergePart (part : FactPart) (prior : Memory) (progress : Progress) :
    Fallible (Memory × Progress) := do
  ensure (sameValue prior.content part.content) "changed fact values require supersede"
  let content ← preserveEvidence part.content prior.content
  let derivedFrom := origins.foldl (fun derived origin =>
    if origin ∈ derived then derived else derived ++ [origin]) prior.derivedFrom
  let prior := { prior with content, derivedFrom }
  let progress ← progress.write prior
  return (prior, progress)

def supersedePart (part : FactPart) (prior : Memory) (progress : Progress) :
    Fallible (Memory × Progress) := do
  let (memory, progress) := progress.newMemory ids lease.projectId part.content part.reason now
  let memory := { memory with derivedFrom := origins, supersedes := some prior.id }
  progress.db.validateReplacement prior part.content
  let prior := { prior with status := .superseded, supersededBy := some memory.id }
  let progress ← progress.write prior
  let progress ← progress.write memory
  return (memory, progress)

def conflictPart (part : FactPart) (prior : Memory) (progress : Progress) :
    Fallible (Memory × Progress) := do
  let (memory, progress) := progress.newMemory ids lease.projectId part.content part.reason now
  let memory := { memory with derivedFrom := origins, status := .conflicted }
  let progress ← progress.write { prior with status := .conflicted }
  let progress ← progress.write memory
  return (memory, progress)

def reconcilePart (part : FactPart) (prior : Memory) (progress : Progress) :
    Fallible (Memory × Progress) :=
  match part.action with
  | .merge => mergePart origins part prior progress
  | .supersede => supersedePart lease ids now origins part prior progress
  | .conflict => conflictPart lease ids now origins part prior progress
  | _ => .error "split parts must reconcile an atomic fact"

/-- `apply_part`. -/
def applyPart (part : FactPart) (progress : Progress) : Fallible (Memory × Progress) := do
  ensure (Database.validReason part.reason) "fact part reason required"
  if part.action = .create then createPart lease ids now origins part progress
  else do
    ensure (part.action = .merge ∨ part.action = .supersede ∨ part.action = .conflict)
      "split parts must reconcile an atomic fact"
    let prior ← partTarget lease progress.db part
    reconcilePart lease ids now origins part { prior with
      revision := prior.revision + 1, updatedAt := now, reason := part.reason } progress

/-- The parts, one after another, with the identities that were split off. -/
def applyParts (seed : Memory) : List FactKey → List FactPart → Progress → Fallible Progress
  | _, [], progress => .ok progress
  | keys, part :: rest, progress => do
    part.content.validate .agent
    let fact ← orElseError part.content.fact "every split part requires one atomic fact"
    ensure (fact.key ∉ keys) "duplicate fact identity in split parts"
    progress.db.validateEvidence lease.projectId part.content
    let (memory, progress) ← applyPart lease ids now origins part progress
    let db := insertOrigin memory.id seed.id seed.revision progress.db
    applyParts seed (fact.key :: keys) rest { progress with db }

end Parts

/-- Every quotation is kept in one of the parts. -/
def splitCovers (parts : List Memory) (evidence : List Evidence) : Bool :=
  evidence.all fun quote => parts.any fun part => part.content.covers quote

/-- `retire`, with the version that it wrote. -/
def retire (now : Int) (reason : String) (prior : Memory) (progress : Progress) :
    Fallible Progress := do
  ensure (prior.actor = .agent ∧ prior.content.fact = none) "only legacy agent records can be split"
  let parts := progress.changed.filter fun m => m.content.fact.isSome
  ensure (parts ≠ [] ∧ splitCovers parts prior.content.evidence)
    "split must preserve every original quotation in its atomic parts"
  let db := parts.foldl (fun db part => insertOrigin part.id prior.id prior.revision db) progress.db
  Progress.write { progress with db } { prior with
    revision := prior.revision + 1, status := .superseded,
    supersededBy := parts.head?.map Memory.id, updatedAt := now, reason }

def retireSeed (now : Int) (proposal : FactCompaction) (seed : Memory) (progress : Progress) :
    Fallible Progress :=
  if proposal.parts = [] then .ok progress else retire now proposal.reason seed progress

section Split

variable (lease : WorkLease) (now : Int)

/-- What a split may say of another memory. -/
def validateAssessment (db : Database) (seed : Memory) (assessment : RelatedDecision) :
    Fallible Unit := do
  ensure (assessment.id ≠ seed.id) "duplicate related assessment"
  validateSnapshot db lease.projectId assessment
  ensure ((assessment.action = .keep ∨ assessment.action = .supersede) ∧
    assessment.retained = none ∧ assessment.forgetRequest = none)
    "split assessments can only keep or supersede whole legacy records"

def retireRelated (progress : Progress) (assessment : RelatedDecision) : Fallible Progress :=
  if assessment.action = .supersede then do
    let prior ← progress.db.load lease.projectId assessment.id
    retire now assessment.reason prior progress
  else .ok progress

def validateSplit (db : Database) (seed : Memory) (proposal : FactCompaction) :
    Fallible Memory := do
  let current ← db.load lease.projectId seed.id
  ensure (seedIsCurrent seed current now) "conflict: compaction seed changed"
  ensure ((proposal.related.map RelatedDecision.id).Nodup) "duplicate related assessment"
  proposal.related.forM (validateAssessment lease db seed)
  return current

end Split

namespace Database

/-- Split only after every part and all original evidence validate atomically. -/
def completeFactCompaction (db : Database) (lease : WorkLease) (proposal : FactCompaction)
    (now : Int) (ids : Nat → String) : Fallible (List Memory × Database) := do
  ensure (lease.kind = .consolidate) "invalid fact compaction work"
  let seed ← orElseError lease.payload.seed "compact seed required"
  ensure (seed.content.fact = none) "atomic seeds use normal fact reconciliation"
  ensure (proposal.parts.length ≤ 16 ∧ proposal.related.length ≤ 16 ∧
    Database.validReason proposal.reason) "invalid fact compaction proposal"
  db.fence lease now
  let current ← validateSplit lease now db seed proposal
  let origins := seed.id :: (proposal.related.filter fun r => r.action = .supersede).map
    RelatedDecision.id
  let progress ← applyParts lease ids now origins seed [] proposal.parts { db }
  let progress ← retireSeed now proposal current progress
  let progress ← proposal.related.foldlM (retireRelated lease now) progress
  progress.db.checkSettled progress.changed
  let observed := progress.changed.foldl (Database.observed now) progress.db
  let seedCurrent ← observed.load lease.projectId seed.id
  let db := (observed.observed now seedCurrent).finish lease (.split proposal)
  return (progress.changed, db)

end Database

end Agentix.MemoryStore
