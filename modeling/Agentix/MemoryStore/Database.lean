import Agentix.Lib.Rows
import Agentix.TaskStore.Text
import Mathlib.Data.List.Sort
import Mathlib.Data.String.Basic

/-! # Memories

What the memory store records of a turn and what it believes, with the checks of a new version.
-/

namespace Agentix.MemoryStore

open Lib
open TaskStore (isWhitespace blank)

structure SourceMessage where
  id : String
  role : String
  text : String
  sessionId : Option String := none
  recordedAt : Option Int := none
  deriving DecidableEq

structure Source where
  instanceId : String
  receiptId : String
  sequence : Int
  projectId : String
  sessionId : String
  turnId : String
  revision : Int
  jobId : Option String
  recordedAt : Int
  messages : List SourceMessage
  deriving DecidableEq

inductive Actor where
  | agent
  | human
  deriving DecidableEq

inductive Kind where
  | userDecision
  | userAssertion
  | observation
  | inference
  deriving DecidableEq

inductive Status where
  | active
  | conflicted
  | superseded
  | archived
  | forgotten
  | invalidated
  deriving DecidableEq

def Status.searchable : Status → Bool
  | .active | .conflicted => true
  | _ => false

structure Evidence where
  receiptId : String
  messageId : String
  quote : String
  deriving DecidableEq

structure FactQualifier where
  name : String
  value : String
  deriving DecidableEq

/-- Identity excludes the value, wording and ingestion time of a fact version. -/
structure Fact where
  entity : String
  factAttribute : String
  qualifiers : List FactQualifier
  value : String
  deriving DecidableEq

structure MemoryInput where
  fact : Option Fact := none
  title : String
  conclusion : String
  rationale : String
  scope : String
  conditions : List String := []
  validUntil : Option Int := none
  tags : List String
  kind : Kind
  evidence : List Evidence
  deriving DecidableEq

structure Memory where
  id : String
  projectId : String
  revision : Nat
  status : Status
  actor : Actor
  createdAt : Int
  updatedAt : Int
  reason : String
  supersedes : Option String
  supersededBy : Option String
  derivedFrom : List String
  content : MemoryInput
  deriving DecidableEq

/-- What a tombstone remembers of a quoted message. -/
structure EvidenceIdentity where
  instanceId : String
  sessionId : String
  messageId : String
  text : String
  deriving DecidableEq

/-- The functions the store calls that are not part of the repository. -/
class Environment where
  /-- `str::to_lowercase`. -/
  toLowercase : String → String
  /-- The SHA-256 of the JSON text of an evidence identity. -/
  digest : EvidenceIdentity → String
  /-- The length of the JSON text of an input. -/
  encodedSize : MemoryInput → Nat

/-! ## Strings -/

/-- `s.trim()`. -/
def trim (s : String) : String :=
  let start := s.toList.dropWhile isWhitespace
  String.ofList (start.reverse.dropWhile isWhitespace).reverse

/-- `s.contains(pattern)`. -/
def contains (s pattern : String) : Bool :=
  s.toList.tails.any (pattern.toList.isPrefixOf ·)

/-- `value.len() <= limit`. -/
def fits (value : String) (limit : Nat) : Bool :=
  value.utf8ByteSize ≤ limit

variable [Environment]

/-! ## Facts -/

structure FactKey where
  entity : String
  factAttribute : String
  qualifiers : List (String × String)
  deriving DecidableEq

def normalized (s : String) : String :=
  Environment.toLowercase (trim s)

/-- The order of pairs of strings. -/
def pairLe (a b : String × String) : Bool :=
  a.1 < b.1 || (a.1 == b.1 && !(b.2 < a.2))

namespace Fact

def key (fact : Fact) : FactKey where
  entity := normalized fact.entity
  factAttribute := normalized fact.factAttribute
  qualifiers :=
    (fact.qualifiers.map fun q => (normalized q.name, trim q.value)).insertionSort
      fun a b => pairLe a b

def validate (fact : Fact) : Fallible Unit := do
  ensure (!blank fact.entity && fits fact.entity 512 && !blank fact.factAttribute &&
    fits fact.factAttribute 256 && !blank fact.value && fits fact.value 8192 &&
    fact.qualifiers.length ≤ 16 &&
    fact.qualifiers.all fun q =>
      !blank q.name && fits q.name 128 && !blank q.value && fits q.value 512)
    "invalid: fact identity or value"
  ensure ((fact.qualifiers.map fun q => normalized q.name).Nodup) "duplicate fact qualifier"

end Fact

/-! ## Inputs -/

namespace MemoryInput

def validate (input : MemoryInput) (actor : Actor) : Fallible Unit := do
  match input.fact with
  | some fact => fact.validate
  | none => pure ()
  ensure (Environment.encodedSize input ≤ 60 * 1024) "invalid: atomic memory exceeds 60 KiB"
  ensure ([(input.title, 512), (input.conclusion, 8192), (input.scope, 1024)].all
    fun (value, limit) => !blank value && fits value limit) "invalid: memory field size"
  ensure (fits input.rationale 8192) "invalid: memory rationale size"
  ensure (input.conditions.length ≤ 16 &&
    input.conditions.all fun c => !blank c && fits c 1024) "invalid: memory conditions"
  ensure (input.tags.length ≤ 32 && input.tags.all fun t => t ≠ "" && fits t 128)
    "invalid: memory tags"
  ensure (input.evidence.length ≤ 16 && (actor = .human || input.evidence ≠ []))
    "invalid: memory evidence required"
  ensure (input.evidence.all fun e => !blank e.quote && fits e.quote 2048)
    "invalid: evidence quote size"

def covers (content : MemoryInput) (original : Evidence) : Bool :=
  content.evidence.any fun retained =>
    retained.receiptId = original.receiptId && retained.messageId = original.messageId &&
      contains retained.quote original.quote

def factKey (input : MemoryInput) : Option FactKey :=
  input.fact.map Fact.key

def factValue (input : MemoryInput) : Option String :=
  input.fact.map Fact.value

end MemoryInput

/-- `facts::same_identity`. -/
def sameIdentity (a b : MemoryInput) : Bool :=
  a.factKey = b.factKey

/-- `facts::same_value`. -/
def sameValue (a b : MemoryInput) : Bool :=
  sameIdentity a b && a.factValue = b.factValue

end Agentix.MemoryStore

/-! # The memory database

The tables of the memory store.  A row that was inserted later stands later in its list.
-/

namespace Agentix.MemoryStore

open Lib

/-! ## Proposals -/

inductive DecisionAction where
  | create
  | merge
  | supersede
  | conflict
  | discard
  | archive
  deriving DecidableEq

inductive RelatedAction where
  | keep
  | supersede
  | conflict
  | forget
  deriving DecidableEq

structure RelatedDecision where
  id : String
  revision : Nat
  action : RelatedAction
  reason : String
  retained : Option MemoryInput
  forgetRequest : Option Evidence
  deriving DecidableEq

structure ConsolidationDecision where
  candidate : Nat
  action : DecisionAction
  target : Option String
  expectedRevision : Option Nat
  content : Option MemoryInput
  reason : String
  related : List RelatedDecision := []
  deriving DecidableEq

structure FactPart where
  content : MemoryInput
  action : DecisionAction
  target : Option String
  expectedRevision : Option Nat
  reason : String
  deriving DecidableEq

structure FactCompaction where
  parts : List FactPart
  related : List RelatedDecision
  reason : String
  deriving DecidableEq

structure ReviewDecision where
  archive : Bool
  path : String
  offset : Nat
  quote : String
  reason : String
  deriving DecidableEq

/-! ## Work -/

inductive WorkKind where
  | extract
  | consolidate
  deriving DecidableEq

inductive WorkState where
  | pending
  | running
  | done
  | failed
  | cancelled
  deriving DecidableEq

inductive Payload where
  /-- A part of a message. -/
  | message (messageId role text : String) (offset : Nat) (nextOffset : Option Nat)
  /-- The candidates of an extraction. -/
  | candidates (batch : List MemoryInput)
  | compact (seed : Memory)
  | review (memory : Memory) (fingerprint : String)
  deriving DecidableEq

namespace Payload

/-- `payload["message_id"]`. -/
def messageId : Payload → Option String
  | .message messageId .. => some messageId
  | _ => none

/-- `payload["compact"]`. -/
def seed : Payload → Option Memory
  | .compact seed => some seed
  | _ => none

def isReview : Payload → Bool
  | .review .. => true
  | _ => false

end Payload

/-- The result of a work item. -/
inductive Outcome where
  | extracted (candidates : List MemoryInput)
  | consolidated (decisions : List ConsolidationDecision)
  | split (proposal : FactCompaction)
  | reviewed (decision : ReviewDecision)
  /-- The seed changed before its compaction began. -/
  | skipped (id : String) (expectedRevision currentRevision : Nat)
  deriving DecidableEq

structure WorkItem where
  id : Nat
  projectId : String
  receiptId : String
  kind : WorkKind
  state : WorkState := .pending
  payload : Payload
  result : Option Outcome := none
  priority : Nat := 0
  availableAt : Int := 0
  attempts : Nat := 0
  maxAttempts : Option Nat := none
  generation : Nat := 0
  owner : Option String := none
  leaseUntil : Option Int := none
  error : Option String := none
  deriving DecidableEq

structure WorkLease where
  id : Nat
  projectId : String
  receiptId : String
  kind : WorkKind
  payload : Payload
  generation : Nat
  owner : String
  leaseUntil : Int
  deriving DecidableEq

/-! ## Tables -/

/-- The key of a turn: instance, session and turn. -/
abbrev TurnKey := String × String × String

def Source.turn (source : Source) : TurnKey :=
  (source.instanceId, source.sessionId, source.turnId)

structure SourceHead where
  turn : TurnKey
  projectId : String
  revision : Int
  receiptId : String
  deriving DecidableEq

structure SchedulerProject where
  projectId : String
  lastServed : Nat := 0
  deriving DecidableEq

structure Suppression where
  projectId : String
  evidenceKey : String
  memoryId : String
  deriving DecidableEq

structure FactRow where
  memoryId : String
  projectId : String
  factKey : FactKey
  status : Status
  deriving DecidableEq

structure FactOrigin where
  memoryId : String
  sourceMemoryId : String
  sourceRevision : Nat
  deriving DecidableEq

structure CompactionRow where
  memoryId : String
  projectId : String
  revision : Nat
  dirty : Bool
  dirtyAt : Int
  checkedAt : Int := 0
  suspended : Bool := false
  workId : Option Nat := none
  deriving DecidableEq

structure ReviewRow where
  memoryId : String
  revision : Nat
  fingerprint : String
  workId : Nat
  deriving DecidableEq

structure EvidenceRow where
  memoryId : String
  receiptId : String
  deriving DecidableEq

structure CancelledJob where
  projectId : String
  jobId : String
  revision : Int
  cancelledAt : Int
  deriving DecidableEq

structure SourceJob where
  receiptId : String
  projectId : String
  jobId : String
  deriving DecidableEq

structure SourceJobTurn where
  turn : TurnKey
  projectId : String
  jobId : String
  deriving DecidableEq

structure Database where
  /-- `memory_metadata` under `source_instance`. -/
  sourceInstance : Option String := none
  sources : List Source := []
  sourceHeads : List SourceHead := []
  workItems : List WorkItem := []
  /-- The greatest identifier of a work item so far. -/
  workSequence : Nat := 0
  schedulerProjects : List SchedulerProject := []
  schedulerTick : Nat := 0
  memories : List Memory := []
  memoryVersions : List Memory := []
  suppressions : List Suppression := []
  memoryFacts : List FactRow := []
  memoryFactOrigins : List FactOrigin := []
  memoryCompactions : List CompactionRow := []
  memoryReviews : List ReviewRow := []
  memoryEvidence : List EvidenceRow := []
  cancelledJobs : List CancelledJob := []
  sourceJobs : List SourceJob := []
  sourceJobTurns : List SourceJobTurn := []
  deriving DecidableEq

namespace Database

def source (db : Database) (receiptId : String) : Option Source :=
  rowOf db.sources Source.receiptId receiptId

def memory (db : Database) (id : String) : Option Memory :=
  rowOf db.memories Memory.id id

def workItem (db : Database) (id : Nat) : Option WorkItem :=
  rowOf db.workItems WorkItem.id id

def insertScheduler (db : Database) (projectId : String) : Database :=
  { db with schedulerProjects :=
      insertOrIgnore SchedulerProject.projectId { projectId } db.schedulerProjects }

end Database

end Agentix.MemoryStore
