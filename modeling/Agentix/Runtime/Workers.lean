import Agentix.Bindings.Table
import Agentix.Dispatch.Queue
import Agentix.Lib.Run
import Mathlib.Data.Finset.Basic

/-! # The workers of the engine

Bounded admission and owned workers.  The loop runs in one task, so that a step is one branch of
its `select!`; a panic is an error with the text of its `expect`.
-/

namespace Agentix.Runtime

open Lib
open Dispatch
open Bindings (ChannelKind ConversationRef)
open Function (update)

def capacity : Nat := 256

def concurrency : Nat := 32

def conversationCapacity : Nat := 16

inductive Refresh where
  | working (session turn : String)
  | taskBoard
  | sessionSwitch (conversation : ConversationRef)
  deriving DecidableEq

structure InboundEnvelope (C : Type) where
  conversation : ConversationRef
  eventId : String
  content : C

/-- `C` is what an envelope carries, and `P` what the other work carries. -/
inductive EngineWork (C P : Type) where
  | inbound (envelope : InboundEnvelope C)
  | event (payload : P)
  | inputRecovered (payload : P)
  | promptAcknowledged (payload : P)
  | cardDelivered (payload : P)
  | queuedInput (payload : P)
  | reattachment (payload : P)
  | working (session turn : String)
  | recover
  | taskBoard
  | sessionSwitch (conversation : ConversationRef)

/-- What `next_pending_prompt` answers. -/
inductive PendingPrompt (P : Type) where
  | queuedInput (payload : P)
  | cardDelivered (payload : P)
  | promptAcknowledged (payload : P)
  | reattachment (payload : P)

section Work

variable {C P : Type}

def EngineWork.refresh : EngineWork C P → Option Refresh
  | .working session turn => some (.working session turn)
  | .taskBoard => some .taskBoard
  | .sessionSwitch conversation => some (.sessionSwitch conversation)
  | _ => none

def EngineWork.inboundKey : EngineWork C P → Option (ConversationRef × String)
  | .inbound envelope => some (envelope.conversation, envelope.eventId)
  | _ => none

def Refresh.work : Refresh → EngineWork C P
  | .working session turn => .working session turn
  | .taskBoard => .taskBoard
  | .sessionSwitch conversation => .sessionSwitch conversation

def PendingPrompt.work : PendingPrompt P → EngineWork C P
  | .queuedInput payload => .queuedInput payload
  | .cardDelivered payload => .cardDelivered payload
  | .promptAcknowledged payload => .promptAcknowledged payload
  | .reattachment payload => .reattachment payload

end Work

structure Worker where
  dispatch : DispatchId
  refresh : Option Refresh
  inbound : Option (ConversationRef × String)

/-- The tasks of the `JoinSet` are numbered as they are spawned, each with the work it executes. -/
structure EngineWorkers (K C P : Type) where
  queue : DispatchQueue K (EngineWork C P)
  workers : List (Nat × EngineWork C P)
  spawned : Nat
  active : Nat → Option Worker
  refreshes : Finset Refresh
  workingCursor : Nat
  inboundCounts : ConversationRef → Option Nat
  inboundIds : Finset (ChannelKind × String)
  overloaded : Nat
  /-- The loop is left, and workers are only joined. -/
  stopping : Bool

inductive Step (K C P : Type) where
  /-- `Recover`, at the top of the loop or after events were lost. -/
  | recover (now : Instant)
  /-- What `reject_overloaded` would answer comes with the envelope. -/
  | inbound (envelope : InboundEnvelope C) (rejected : Except String Bool) (now : Instant)
  | pendingPrompt (work : PendingPrompt P) (now : Instant)
  | inputRecovery (payload : P) (now : Instant)
  | event (payload : P) (now : Instant)
  /-- What the engine says about session switches and working turns. -/
  | tick (conversations : Option (List ConversationRef)) (turns : List (String × String))
      (now : Instant)
  /-- One turn of the loop of `start_ready`. -/
  | start (scope : EngineWork C P → DispatchScope K) (now : Instant)
  /-- A worker has completed or failed. -/
  | join (task : Nat) (failed : Bool) (now : Instant)
  | stop

namespace EngineWorkers

variable {K C P : Type}

def new : EngineWorkers K C P where
  queue := .new capacity concurrency (by decide)
  workers := []
  spawned := 0
  active := fun _ => none
  refreshes := ∅
  workingCursor := 0
  inboundCounts := fun _ => none
  inboundIds := ∅
  overloaded := 0
  stopping := false

variable (s : EngineWorkers K C P)

/-- `try_push` and the `expect` on its answer. -/
def push (work : EngineWork C P) (expectation : String) (now : Instant) :
    Fallible (EngineWorkers K C P) :=
  match s.queue.tryPush work now with
  | (.ok (), queue) => .ok { s with queue }
  | (.error _, _) => .error expectation

def admitInbound (envelope : InboundEnvelope C) (rejected : Except String Bool) (now : Instant) :
    Fallible (EngineWorkers K C P) :=
  let id := (envelope.conversation.channel, envelope.eventId)
  if id ∈ s.inboundIds then .ok s
  else if (s.inboundCounts envelope.conversation).getD 0 ≥ conversationCapacity then
    match rejected with
    | .ok true => .ok { s with overloaded := saturatingAdd maxU64 s.overloaded 1 }
    | _ => .ok s
  else
    let count := (s.inboundCounts envelope.conversation).getD 0 + 1
    let s := { s with
      inboundCounts := update s.inboundCounts envelope.conversation (some count)
      inboundIds := insert id s.inboundIds }
    s.push (.inbound envelope) "inbound capacity" now

/-- A refresh is queued while there is room and its key is free. -/
def maintain (refresh : Refresh) (now : Instant) : Fallible (EngineWorkers K C P) :=
  if s.queue.isFull = true ∨ refresh ∈ s.refreshes then .ok s
  else
    let s := { s with refreshes := insert refresh s.refreshes }
    s.push refresh.work "maintenance capacity" now

/-- Stable round-robin admission prevents a large active set from starving later sessions. -/
def scheduleTurns (count : Nat) (now : Instant) (s : EngineWorkers K C P) :
    List (String × String) → Fallible (EngineWorkers K C P)
  | [] => .ok s
  | (session, turn) :: rest =>
    if s.queue.isFull then .ok s
    else do
      let s := { s with workingCursor := (s.workingCursor + 1) % count }
      let s ← s.maintain (.working session turn) now
      scheduleTurns count now s rest

def scheduleRefreshes (conversations : Option (List ConversationRef))
    (turns : List (String × String)) (now : Instant) : Fallible (EngineWorkers K C P) := do
  let s ← (conversations.getD []).foldlM
    (fun s conversation => s.maintain (.sessionSwitch conversation) now) s
  let s ← s.maintain .taskBoard now
  let turns := turns.mergeSort fun a b => a.1 < b.1 || (a.1 == b.1 && decide (a.2 ≤ b.2))
  scheduleTurns turns.length now s (turns.rotate (s.workingCursor % turns.length))

def startReady [DecidableEq K] (scope : EngineWork C P → DispatchScope K) (now : Instant) :
    Fallible (EngineWorkers K C P) := do
  let (job, queue) ← s.queue.nextReady scope now
  match job with
  | none => pure { s with queue }
  | some job =>
    pure { s with
      queue
      workers := s.workers ++ [(s.spawned, job.work)]
      spawned := s.spawned + 1
      active := update s.active s.spawned
        (some ⟨job.id, job.work.refresh, job.work.inboundKey⟩) }

def releaseInbound (conversation : ConversationRef) (eventId : String) :
    Fallible (EngineWorkers K C P) := do
  let s := { s with inboundIds := s.inboundIds.erase (conversation.channel, eventId) }
  let count ← orElseError (s.inboundCounts conversation) "admitted conversation"
  ensure (0 < count) "attempt to subtract with overflow"
  let count := count - 1
  pure { s with
    inboundCounts := update s.inboundCounts conversation (if count = 0 then none else some count) }

/-- An interrupted request is fenced too, which the engine does. -/
def retire (task : Nat) (now : Instant) : Fallible (EngineWorkers K C P) :=
  match s.active task with
  | none => pure s
  | some worker => do
    let s := { s with active := update s.active task none }
    let (_, queue) ← s.queue.finish worker.dispatch now
    let s := { s with queue }
    let s := match worker.refresh with
      | none => s
      | some refresh => { s with refreshes := s.refreshes.erase refresh }
    match worker.inbound with
    | none => pure s
    | some (conversation, eventId) => s.releaseInbound conversation eventId

/-- The loop waits for what can be admitted and for a worker, if there is one. -/
def enabled : Step K C P → Bool
  | .recover _ | .inbound .. | .pendingPrompt .. | .inputRecovery .. | .event .. =>
    !s.stopping && !s.queue.isFull
  | .tick .. | .start .. | .stop => !s.stopping
  | .join task _ _ => (s.workers.map Prod.fst).contains task

def run [DecidableEq K] (s : EngineWorkers K C P) : Step K C P → Fallible (EngineWorkers K C P)
  | .recover now => s.push .recover "recovery capacity" now
  | .inbound envelope rejected now => s.admitInbound envelope rejected now
  | .pendingPrompt work now => s.push work.work "pending prompt capacity" now
  | .inputRecovery payload now => s.push (.inputRecovered payload) "input recovery capacity" now
  | .event payload now => s.push (.event payload) "event capacity" now
  | .tick conversations turns now => s.scheduleRefreshes conversations turns now
  | .start scope now => s.startReady scope now
  | .join task failed now => do
    -- the outcome leaves the `JoinSet` before the worker is retired
    let s := { s with workers := s.workers.filter fun worker => worker.1 ≠ task }
    let s ← s.retire task now
    pure { s with stopping := s.stopping || failed }
  | .stop => pure { s with stopping := true }

def step [DecidableEq K] (s : EngineWorkers K C P) (label : Step K C P) :
    Option (EngineWorkers K C P) :=
  if s.enabled label then (s.run label).toOption else none

def system (K C P : Type) [DecidableEq K] : System (EngineWorkers K C P) (Step K C P) :=
  .ofStep new step

/-- The work that has been admitted and not yet retired. -/
def unfinished : List (EngineWork C P) :=
  s.queue.pending.map Prod.fst ++ s.workers.map Prod.snd

end EngineWorkers

end Agentix.Runtime
