import Agentix.Bindings.Table
import Agentix.Lib.Rows
import Agentix.Lib.Run
import Mathlib.Algebra.GroupWithZero.Nat
import Mathlib.Data.List.Sort

/-! # The notification outbox

Notifications wait in the order of their sequences, one line for each consumer and conversation.  A
worker leases the oldest one of a line and finishes it with the token of its lease; an expired lease
may be given to another worker.  Each call below is one transaction.
-/

namespace Agentix.Outbox

open Lib
open Bindings (ChannelKind ConversationRef)
open Function (update)

/-- The column `status` of `processed_events`. -/
inductive EventStatus where
  | processing
  | completed
  | uncertain
  | failed
  | rejected
  deriving DecidableEq

/-- A row of `notification_outbox`. -/
structure Row (V : Type) where
  consumer : String
  sequence : Int
  conversation : ConversationRef
  payload : V
  attempts : Int
  coalescedCount : Nat
  nextAttempt : Int
  leaseUntil : Int
  token : Option Nat
  lastError : Option String

/-- A `TaskNotification`, leased to a worker. -/
structure Delivery (V : Type) where
  consumer : String
  sequence : Int
  conversation : ConversationRef
  view : V
  attempts : Int
  token : Nat

namespace Row

variable {V : Type} (row : Row V)

def key : String × Int := (row.consumer, row.sequence)

/-- The line a row waits in. -/
def line : String × ConversationRef := (row.consumer, row.conversation)

/-- A row with the defaults of its table. -/
def fresh (consumer : String) (sequence : Int) (conversation : ConversationRef) (payload : V) : Row V where
  consumer
  sequence
  conversation
  payload
  attempts := 0
  coalescedCount := 1
  nextAttempt := 0
  leaseUntil := 0
  token := none
  lastError := none

end Row

namespace Delivery

variable {V : Type} (delivery : Delivery V)

def key : String × Int := (delivery.consumer, delivery.sequence)

/-- The row is still leased to the worker. -/
def holds (row : Row V) : Bool := row.key = delivery.key && row.token = some delivery.token

end Delivery

/-- The tables, and what the workers have of them. -/
structure State (V : Type) where
  cursors : String → Option Int
  rows : List (Row V)
  processed : ChannelKind × String → Option EventStatus
  /-- Tokens that have been drawn. -/
  tokens : Nat
  /-- Deliveries that have been handed to workers, oldest first. -/
  deliveries : List (Delivery V)
  /-- Rows that were deleted by their acknowledgement, oldest first. -/
  acknowledged : List (Row V)
  /-- Calls of `reject_overloaded` that returned true. -/
  rejections : Nat

inductive Step (V : Type) where
  | cursor (consumer : String) (legacy : Int)
  | stage (consumer : String) (sequence : Int) (notification : Option (ConversationRef × V))
  | reject (consumer : String) (conversation : ConversationRef) (eventId : String) (limit : Nat)
  | claim (consumer : String) (now leaseSeconds : Int) (limit : Nat)
  /-- A worker finishes one of the deliveries. -/
  | finish (delivery : Nat) (now : Int) (error : Option String)
  /-- Another part of the store sets the status of an event. -/
  | process (channel : ChannelKind) (eventId : String) (status : EventStatus)

namespace State

variable {V : Type}

def start : State V where
  cursors := fun _ => none
  rows := []
  processed := fun _ => none
  tokens := 0
  deliveries := []
  acknowledged := []
  rejections := 0

def maxI64 : Int := 9223372036854775807

def saturatingAdd (a b : Int) : Int := max (-maxI64 - 1) (min maxI64 (a + b))

variable (s : State V)

/-- `notification_cursor` imports a cursor once. -/
def cursor (consumer : String) (legacy : Int) : State V × Int :=
  match s.cursors consumer with
  | some cursor => (s, cursor)
  | none => ({ s with cursors := update s.cursors consumer (some legacy) }, legacy)

def stageNotification (consumer : String) (sequence : Int)
    (notification : Option (ConversationRef × V)) : Except String (State V) :=
  match s.cursors consumer with
  | none => .error "notification consumer must be initialized before staging events"
  | some cursor =>
    if cursor < sequence then
      let advanced := { s with cursors := update s.cursors consumer (some sequence) }
      match notification with
      | some (conversation, view) =>
        .ok { advanced with rows := s.rows ++ [.fresh consumer sequence conversation view] }
      | none => .ok advanced
    else .ok s

/-! ## Rejected inputs -/

/-- The newest notification of a line that is not leased. -/
def coalescing (consumer : String) (conversation : ConversationRef) : Option (Row V) :=
  ((s.rows.filter fun row => row.line = (consumer, conversation) ∧ row.token = none).insertionSort
    fun a b => b.sequence ≤ a.sequence).head?

def busy (count limit : Nat) : String :=
  toString count ++ " requests were not accepted because this conversation already has " ++
    toString limit ++ " unfinished requests. Accepted requests remain in order. " ++
    "Please resend rejected requests after the queue clears."

section

variable (text : String → String → V)

/-- The notice of a rejection is added to the newest one, or is a new one; `text` is
`OutboundView::text`. -/
def notice (consumer : String) (conversation : ConversationRef) (limit : Nat) : State V :=
  match s.coalescing consumer conversation with
  | some row =>
    let count := row.coalescedCount + 1
    { s with rows := alter Row.key (consumer, row.sequence) (fun row =>
        { row with payload := text "Session busy" (busy count limit), coalescedCount := count }) s.rows }
  | none =>
    let sequence := match s.cursors consumer with
      | some cursor => cursor + 1
      | none => 1
    { s with
      cursors := update s.cursors consumer (some sequence)
      rows := s.rows ++
        [.fresh consumer sequence conversation (text "Session busy" (busy 1 limit))] }

def rejectOverloaded (consumer : String) (conversation : ConversationRef) (eventId : String)
    (limit : Nat) : State V × Bool :=
  let event := (conversation.channel, eventId)
  if s.processed event = none ∨ s.processed event = some .failed then
    ({ s.notice text consumer conversation limit with
      processed := update s.processed event (some .rejected)
      rejections := s.rejections + 1 }, true)
  else (s, false)

end

/-! ## Deliveries -/

def due (consumer : String) (now : Int) (row : Row V) : Bool :=
  row.consumer = consumer && row.nextAttempt ≤ now && row.leaseUntil ≤ now &&
    s.rows.all fun older => !(older.line = row.line && older.sequence < row.sequence)

def candidates (consumer : String) (now : Int) (limit : Nat) : List Int :=
  (((s.rows.filter (s.due consumer now)).insertionSort fun a b =>
    a.nextAttempt < b.nextAttempt ∨ a.nextAttempt = b.nextAttempt ∧ a.sequence ≤ b.sequence).take
      limit).map Row.sequence

def lease (consumer : String) (until_ : Int) (sequence : Int) : State V :=
  let rows := alter Row.key (consumer, sequence) (fun row =>
    { row with attempts := row.attempts + 1, leaseUntil := until_, token := some s.tokens }) s.rows
  { s with
    rows := rows
    tokens := s.tokens + 1
    deliveries := s.deliveries ++ (rowOf rows Row.key (consumer, sequence)).toList.map fun row =>
      ⟨row.consumer, row.sequence, row.conversation, row.payload, row.attempts, s.tokens⟩ }

def claimNotifications (consumer : String) (now leaseSeconds : Int) (limit : Nat) :
    Except String (State V) :=
  if leaseSeconds ≤ 0 then .error "notification lease must be positive"
  else .ok ((s.candidates consumer now limit).foldl
    (fun s sequence => s.lease consumer (saturatingAdd now leaseSeconds) sequence) s)

/-- Seconds until the next attempt. -/
def backoff (attempts : Int) : Int := ((1 <<< (max 0 (min 8 (attempts - 1))).toNat : Nat) : Int)

def finishNotification (delivery : Delivery V) (now : Int) (error : Option String) :
    State V × Bool :=
  let affected := (s.rows.filter delivery.holds).length
  (match error with
  | some error =>
    { s with rows := s.rows.map fun row =>
        if delivery.holds row then
          { row with
            nextAttempt := saturatingAdd now (backoff delivery.attempts)
            leaseUntil := 0
            token := none
            lastError := some (String.ofList (error.toList.take 1024)) }
        else row }
  | none =>
    { s with
      rows := s.rows.filter fun row => !delivery.holds row
      acknowledged := s.acknowledged ++ s.rows.filter delivery.holds },
    affected = 1)

def step (text : String → String → V) (s : State V) : Step V → Option (State V)
  | .cursor consumer legacy => some (s.cursor consumer legacy).1
  | .stage consumer sequence notification =>
    (s.stageNotification consumer sequence notification).toOption
  | .reject consumer conversation eventId limit =>
    some (s.rejectOverloaded text consumer conversation eventId limit).1
  | .claim consumer now leaseSeconds limit =>
    (s.claimNotifications consumer now leaseSeconds limit).toOption
  | .finish delivery now error =>
    s.deliveries[delivery]?.map fun delivery => (s.finishNotification delivery now error).1
  | .process channel eventId status =>
    some { s with processed := update s.processed (channel, eventId) (some status) }

def system (text : String → String → V) : System (State V) (Step V) := .ofStep start (step text)

end State

end Agentix.Outbox
