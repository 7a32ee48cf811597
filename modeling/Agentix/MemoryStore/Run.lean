import Agentix.Lib.Run
import Agentix.MemoryStore.Consolidation

/-! # Runs of the memory store

Every call is one transaction.  A call that fails leaves the database as it was.
-/

namespace Agentix.MemoryStore

open Lib

inductive Operation where
  | bindSource (instance_ : String)
  | ingest (source : Source)
  | bindCancelledSource (source : Source)
  | invalidateJob (projectId jobId : String) (revision cancelledAt : Int)
  | create (projectId : String) (content : MemoryInput) (actor : Actor) (newId : String)
  | supersede (projectId id : String) (revision : Nat) (content : MemoryInput) (reason : String)
      (actor : Actor) (newId : String)
  | update (projectId id : String) (revision : Nat) (content : MemoryInput) (actor : Actor)
  | setStatus (projectId id : String) (revision : Nat) (status : Status) (reason : String)
      (actor : Actor)
  | scheduleCompaction (projectId after : String) (limit : Nat) (force : Bool) (debounce : Nat)
  | scheduleBackgroundCompaction (projectId : String)
  | scheduleReviews (projectId fingerprint : String) (limit : Nat)
  | claim (owner : String) (id : Option Nat)
  | completeExtraction (lease : WorkLease) (candidates : List MemoryInput)
  | completeConsolidation (lease : WorkLease) (decisions : List ConsolidationDecision)
      (ids : Nat → String)
  | completeFactCompaction (lease : WorkLease) (proposal : FactCompaction) (ids : Nat → String)
  | completeReview (lease : WorkLease) (decision : ReviewDecision)
  | skipObsoleteCompaction (lease : WorkLease)
  | failWork (lease : WorkLease) (error : String) (retry : Bool)
  | retryWork (projectId : String) (id : Nat)

/-- The lease that a call presents. -/
def Operation.lease : Operation → Option WorkLease
  | .completeExtraction lease _ => some lease
  | .completeConsolidation lease _ _ => some lease
  | .completeFactCompaction lease _ _ => some lease
  | .completeReview lease _ => some lease
  | .skipObsoleteCompaction lease => some lease
  | .failWork lease _ _ => some lease
  | _ => none

/-- A finished work item, with the revisions of memories it marked as seen. -/
structure Completion where
  lease : WorkLease
  observed : List (String × Nat) := []
  deriving DecidableEq

/-- What a call leaves and hands out. -/
structure Answer where
  db : Database
  lease : Option WorkLease := none
  completion : Option Completion := none
  deriving DecidableEq

def revisionOf (memory : Memory) : String × Nat := (memory.id, memory.revision)

/-- The revisions a consolidation has seen. -/
def consolidated (db : Database) (lease : WorkLease) (changed : List Memory) :
    List (String × Nat) :=
  match lease.payload.seed with
  | some seed => ((db.memories.find? fun m => m.projectId = lease.projectId && m.id = seed.id).toList
      ++ changed).map revisionOf
  | none => (changed.filter fun m => m.content.fact.isSome).map revisionOf

variable [Environment]

namespace Operation

/-- The completions of work, with what they saw. -/
def complete (now : Int) (db : Database) : Operation → Fallible Answer
  | .completeExtraction lease candidates => do
    let db ← db.completeExtraction lease candidates now
    return { db, completion := some { lease } }
  | .completeConsolidation lease decisions ids => do
    let (changed, db) ← db.completeConsolidation lease decisions now ids
    return { db, completion := some { lease, observed := consolidated db lease changed } }
  | .completeFactCompaction lease proposal ids => do
    let (changed, db) ← db.completeFactCompaction lease proposal now ids
    return { db, completion := some { lease, observed := consolidated db lease changed } }
  | .completeReview lease decision => do
    let db ← db.completeReview lease decision now
    return { db, completion := some { lease } }
  | .skipObsoleteCompaction lease => do
    let (skipped, db) ← db.skipObsoleteCompaction lease now
    return { db, completion := if skipped then some { lease } else none }
  | _ => .error "not a completion"

def perform (config : AgentConfig) (now : Int) (db : Database) : Operation → Fallible Answer
  | .bindSource instance_ => do
    let db ← db.bindSource instance_
    return { db }
  | .ingest source => do
    let (_, db) ← db.ingest source
    return { db }
  | .bindCancelledSource source => .ok { db := db.bindCancelledSource source }
  | .invalidateJob projectId jobId revision cancelledAt => do
    let db ← db.invalidateJob projectId jobId revision cancelledAt
    return { db }
  | .create projectId content actor newId => do
    let (_, db) ← db.create projectId content actor newId now
    return { db }
  | .supersede projectId id revision content reason actor newId => do
    let (_, db) ← db.supersede projectId id revision content reason actor newId now
    return { db }
  | .update projectId id revision content actor => do
    let (_, db) ← db.update projectId id revision content actor now
    return { db }
  | .setStatus projectId id revision status reason actor => do
    let (_, db) ← db.setStatus projectId id revision status reason actor now
    return { db }
  | .scheduleCompaction projectId after limit force debounce => do
    let (_, db) ← db.scheduleCompaction projectId after limit force debounce now
    return { db }
  | .scheduleBackgroundCompaction projectId => do
    let (_, db) ← db.scheduleBackgroundCompaction projectId config now
    return { db }
  | .scheduleReviews projectId fingerprint limit => do
    let (_, db) ← db.scheduleReviews projectId fingerprint limit now
    return { db }
  | .claim owner id => do
    let (lease, db) ← db.claimSelectedWork owner config now id
    return { db, lease }
  | .failWork lease error retry => do
    let db ← db.failWorkWithRetry lease error now retry
    return { db }
  | .retryWork projectId id => do
    let db ← db.retryWork projectId id
    return { db }
  | operation => complete now db operation

end Operation

/-- The store with its last clock reading, the leases it gave and the work it finished. -/
structure State where
  db : Database
  clock : Int
  leases : List WorkLease := []
  completions : List Completion := []
  /-- The Jobs whose cancellation was bound to a turn and not applied since. -/
  halfApplied : List (String × String) := []
  deriving DecidableEq

/-- The half-applied cancellations after a call. -/
def Operation.halfApplied (jobs : List (String × String)) :
    Operation → List (String × String)
  | .bindCancelledSource source => source.jobId.toList.map (source.projectId, ·) ++ jobs
  | .invalidateJob projectId jobId _ _ => jobs.filter fun job => job ≠ (projectId, jobId)
  | _ => jobs

namespace State

def empty (opened : Int) : State := { db := {}, clock := opened }

def after (config : AgentConfig) (s : State) (now : Int) (operation : Operation) : State :=
  match operation.perform config now s.db with
  | .ok answer =>
    { db := answer.db, clock := now, leases := s.leases ++ answer.lease.toList,
      completions := s.completions ++ answer.completion.toList,
      halfApplied := operation.halfApplied s.halfApplied }
  | .error _ => { s with clock := now }

end State

def store (config : AgentConfig) (opened : Int) : System State (Int × Operation) where
  start := .empty opened
  step s label s' := s' = s.after config label.1 label.2

/-- The clock does not go back, and a worker presents a lease it was given. -/
def Orderly (s : State) (label : Int × Operation) : Prop :=
  s.clock ≤ label.1 ∧ ∀ lease, label.2.lease = some lease → lease ∈ s.leases

end Agentix.MemoryStore

/-! # Plain texts

The environment for texts without characters that JSON escapes or that have no ASCII lower case.
The text of an evidence identity stands for its digest.
-/

namespace Agentix.MemoryStore

namespace Plain

def quote (s : String) : String := "\"" ++ s ++ "\""

def array (items : List String) : String := "[" ++ ",".intercalate items ++ "]"

def object (fields : List (String × String)) : String :=
  "\x7b" ++ ",".intercalate (fields.map fun field => quote field.1 ++ ":" ++ field.2) ++ "\x7d"

def kind : Kind → String
  | .userDecision => "user_decision"
  | .userAssertion => "user_assertion"
  | .observation => "observation"
  | .inference => "inference"

def fact (fact : Fact) : String :=
  object [("entity", quote fact.entity), ("attribute", quote fact.factAttribute),
    ("qualifiers", array (fact.qualifiers.map fun q =>
      object [("name", quote q.name), ("value", quote q.value)])),
    ("value", quote fact.value)]

def evidence (e : Evidence) : String :=
  object [("receipt_id", quote e.receiptId), ("message_id", quote e.messageId),
    ("quote", quote e.quote)]

def input (content : MemoryInput) : String :=
  object ((content.fact.map fun f => ("fact", fact f)).toList ++
    [("title", quote content.title), ("conclusion", quote content.conclusion),
      ("rationale", quote content.rationale), ("scope", quote content.scope),
      ("conditions", array (content.conditions.map quote)),
      ("valid_until", (content.validUntil.map toString).getD "null"),
      ("tags", array (content.tags.map quote)), ("kind", quote (kind content.kind)),
      ("evidence", array (content.evidence.map evidence))])

def identity (identity : EvidenceIdentity) : String :=
  array [quote identity.instanceId, quote identity.sessionId, quote identity.messageId,
    quote identity.text]

@[reducible] def environment : Environment where
  toLowercase := String.toLower
  digest := identity
  encodedSize content := (input content).utf8ByteSize

/-- The defaults of the limits that the queue reads. -/
def config : AgentConfig where
  maxConcurrentLoops := 4
  maxExtractionLoopsPerProject := 2
  leaseSeconds := 300
  maxAttempts := 3
  compactionEnabled := true
  compactionDebounceSeconds := 30
  concurrency := by decide
  retries := by decide
  lease := by decide

def turn (receiptId projectId turnId : String) (jobId : Option String) : Source where
  instanceId := "instance"
  receiptId := receiptId
  sequence := 1
  projectId := projectId
  sessionId := "session"
  turnId := turnId
  revision := 1
  jobId := jobId
  recordedAt := 1
  messages := [{ id := "m", role := "user", text := "The server listens on port 8080." }]

/-- What a turn says of the server. -/
def note (receiptId : String) : MemoryInput where
  title := "Port"
  conclusion := "The server listens on port 8080."
  rationale := ""
  scope := "server"
  tags := []
  kind := .observation
  evidence := [⟨receiptId, "m", "port 8080"⟩]

def run (calls : List (Int × Operation)) : State :=
  calls.foldl (fun s call => @State.after environment config s call.1 call.2) (.empty 0)

theorem reachable_run (calls : List (Int × Operation)) :
    (@store environment config 0).Reachable Lib.System.always (run calls) := by
  have further : ∀ s, (@store environment config 0).Reachable Lib.System.always s →
      (@store environment config 0).Reachable Lib.System.always
        (calls.foldl (fun s call => @State.after environment config s call.1 call.2) s) := by
    induction calls with
    | nil => exact fun _ run => run
    | cons call rest ih =>
      exact fun s run => ih _ (.step run trivial rfl)
  exact further _ .start

theorem path_after (s : State) (now : Int) (operation : Operation) :
    (@store environment config 0).Path Lib.System.always s
      (@State.after environment config s now operation) :=
  .single ⟨(now, operation), trivial, rfl⟩

end Plain

end Agentix.MemoryStore
