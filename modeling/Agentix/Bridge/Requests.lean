import Agentix.Lib.Json
import Agentix.Lib.Replies
import Agentix.Lib.Run

/-! # Requests over a bridge

Requests run at once over one connection to an extension.  Each registers itself for its response,
waits for the writer, writes its frame in as many pieces as the stream takes, and waits.  A request
that leaves its frame unfinished makes the stream unusable: when its guard is dropped, it takes the
connection offline.
-/

namespace Agentix.Bridge

open Lib
open Function (update)

inductive AgentError where
  | uncertain (reason : String)
  | unavailable (reason : String)
  | rejected (message : String)
  | protocol (message : String)

abbrev Outcome := Except AgentError Json

/-- The peer's answer: a value, or the message of its error. -/
abbrev Answer := Except String Json

def Answer.outcome : Answer → Outcome
  | .ok value => .ok value
  | .error message => .error (.rejected message)

def mutating (method : String) (params : Json) : Bool :=
  !(method = "info" || method = "history" || method = "queue_state" ||
    (method = "terminal_input" && (params.index "clear").isNull))

def maxFrameBytes : Nat := 8388608

inductive Phase where
  /-- The connection was online. -/
  | checked
  /-- Registered for its response. -/
  | registered
  /-- Waits for the writer. -/
  | queued (frame : List UInt8)
  | writing (rest : List UInt8)
  | receiving
  /-- The result is known, or the caller is gone; the guard has not been dropped. -/
  | leaving (result : Option Outcome) (broken : Bool)
  | returned (result : Option Outcome)

structure Request where
  method : String
  params : Json
  frame : Option (List UInt8)
  dispatched : Bool
  phase : Phase

namespace Request

/-- A request that may have run does not report that the peer is unavailable. -/
def classify (request : Request) (result : Outcome) : Outcome :=
  match result with
  | .error (.unavailable reason) =>
    if request.dispatched && mutating request.method request.params then
      .error (.uncertain reason)
    else result
  | _ => result

end Request

inductive Holder where
  | request (id : String)
  | closer
  deriving DecidableEq

inductive ReaderStage where
  | running
  | ended
  | stopped
  deriving DecidableEq

structure ConnectionState where
  requests : String → Option Request
  replies : Replies String Answer
  writer : Option Holder
  online : Bool
  reader : ReaderStage
  aborted : Bool
  /-- Tasks that wait to shut the writer down. -/
  closing : Nat
  /-- What the stream has taken, piece by piece. -/
  written : List (String × List UInt8)

inductive Step where
  | call (id method : String) (params : Json)
  | register (id : String)
  | encode (id : String)
  | acquire (id : String)
  | write (id : String) (count : Nat)
  | writeFails (id reason : String)
  | answer (id : String)
  | expire (id : String)
  | cancel (id : String)
  | drop (id : String)
  | response (id : String) (answer : Answer)
  | readerEnds
  | readerReports (registered : Bool)
  | readerStops
  | shutdown
  | close
  | closed

namespace ConnectionState

/-- A connection after its registration. -/
def start : ConnectionState where
  requests := fun _ => none
  replies := .empty
  writer := none
  online := true
  reader := .running
  aborted := false
  closing := 0
  written := []

variable (s : ConnectionState)

def goto (id : String) (request : Request) : ConnectionState :=
  { s with requests := update s.requests id (some request) }

/-- The writer is free again when the request held it. -/
def release (id : String) : ConnectionState :=
  { s with writer := if s.writer = some (.request id) then none else s.writer }

/-- The result is known; the inner future is gone, and with it the writer. -/
def leave (id : String) (request : Request) (result : Option Outcome) (broken : Bool) :
    ConnectionState :=
  (s.goto id { request with
    phase := .leaving (result.map request.classify) broken }).release id

def call (id method : String) (params : Json) : Option ConnectionState :=
  if (s.requests id).isNone then
    some (s.goto id ⟨method, params, none, false,
      if s.online then .checked
      else .returned (some (.error (.unavailable "bridge disconnected")))⟩)
  else none

def register (id : String) : Option ConnectionState :=
  (s.requests id).bind fun request =>
    match request.phase with
    | .checked =>
      some { s.goto id { request with phase := .registered } with replies := s.replies.register id }
    | _ => none

section

variable (toVec : String → String → Json → Except String (List UInt8))

/-- The frame is encoded and measured; `toVec` is the encoding of a request. -/
def encode (id : String) : Option ConnectionState :=
  (s.requests id).bind fun request =>
    match request.phase with
    | .registered =>
      match toVec id request.method request.params with
      | .error reason => some (s.leave id request (some (.error (.unavailable reason))) false)
      | .ok bytes =>
        let frame := bytes ++ [10]
        if frame.length > maxFrameBytes then
          some (s.leave id request
            (some (.error (.protocol "bridge request exceeds maximum frame size"))) false)
        else some (s.goto id { request with frame := some frame, phase := .queued frame })
    | _ => none

end

def acquire (id : String) : Option ConnectionState :=
  (s.requests id).bind fun request =>
    match request.phase, s.writer with
    | .queued frame, none =>
      if s.online then
        some { s.goto id { request with phase := .writing frame } with
          writer := some (.request id) }
      else some (s.leave id request (some (.error (.unavailable "bridge disconnected"))) false)
    | _, _ => none

/-- The stream takes some bytes; after the last ones the request waits for its response. -/
def write (id : String) (count : Nat) : Option ConnectionState :=
  (s.requests id).bind fun request =>
    match request.phase with
    | .writing rest =>
      if 0 < count ∧ count ≤ rest.length then
        let s := { s with written := s.written ++ [(id, rest.take count)] }
        if count = rest.length then
          some ((s.goto id { request with dispatched := true, phase := .receiving }).release id)
        else some (s.goto id { request with phase := .writing (rest.drop count) })
      else none
    | _ => none

def writeFails (id reason : String) : Option ConnectionState :=
  (s.requests id).bind fun request =>
    match request.phase with
    | .writing _ => some (s.leave id request (some (.error (.unavailable reason))) true)
    | _ => none

def answer (id : String) : Option ConnectionState :=
  (s.requests id).bind fun request =>
    match request.phase, s.replies.slot id with
    | .receiving, .answered answer => some (s.leave id request (some answer.outcome) false)
    | .receiving, .closed =>
      some (s.leave id request (some (.error (.unavailable "channel closed"))) false)
    | _, _ => none

/-- The inner future is dropped, by the deadline or with its caller. -/
def interrupt (id : String) (result : Option Outcome) : Option ConnectionState :=
  (s.requests id).bind fun request =>
    match request.phase with
    | .registered | .queued _ | .receiving => some (s.leave id request result false)
    | .writing _ => some (s.leave id request result true)
    | _ => none

def expire (id : String) : Option ConnectionState :=
  s.interrupt id (some (.error (.unavailable
    "bridge request timed out; check session state before retrying")))

def cancel (id : String) : Option ConnectionState :=
  s.interrupt id none

def poison : ConnectionState :=
  { s with online := false, aborted := true, replies := s.replies.clear, closing := s.closing + 1 }

/-- The guard is dropped, and poisons the connection when it was writing. -/
def drop (id : String) : Option ConnectionState :=
  (s.requests id).bind fun request =>
    match request.phase with
    | .leaving result broken =>
      let s := { s.goto id { request with phase := .returned result } with
        replies := s.replies.remove id }
      some (if broken then s.poison else s)
    | _ => none

/-- The reader; once aborted it stops at its next await. -/
def response (id : String) (answer : Answer) : Option ConnectionState :=
  if s.reader = .running then some { s with replies := s.replies.answer id answer } else none

def readerEnds : Option ConnectionState :=
  if s.reader = .running then some { s with reader := .ended, replies := s.replies.clear } else none

/-- The hub takes the connection offline when it still has it. -/
def readerReports (registered : Bool) : Option ConnectionState :=
  if s.reader = .ended then
    some { s with reader := .stopped, online := s.online && !registered }
  else none

def readerStops : Option ConnectionState :=
  if s.aborted then some { s with reader := .stopped } else none

/-- A task shuts the writer down, which writes nothing. -/
def close : Option ConnectionState :=
  if 0 < s.closing ∧ s.writer = none then
    some { s with closing := s.closing - 1, writer := some .closer }
  else none

def closed : Option ConnectionState :=
  if s.writer = some .closer then some { s with writer := none } else none

def step (toVec : String → String → Json → Except String (List UInt8)) (s : ConnectionState) :
    Step → Option ConnectionState
  | .call id method params => s.call id method params
  | .register id => s.register id
  | .encode id => s.encode toVec id
  | .acquire id => s.acquire id
  | .write id count => s.write id count
  | .writeFails id reason => s.writeFails id reason
  | .answer id => s.answer id
  | .expire id => s.expire id
  | .cancel id => s.cancel id
  | .drop id => s.drop id
  | .response id answer => s.response id answer
  | .readerEnds => s.readerEnds
  | .readerReports registered => s.readerReports registered
  | .readerStops => s.readerStops
  | .shutdown => some s.poison
  | .close => s.close
  | .closed => s.closed

def system (toVec : String → String → Json → Except String (List UInt8)) :
    System ConnectionState Step := .ofStep start (step toVec)

/-! ## What is claimed of a run -/

/-- The bytes of a request that the stream has taken. -/
def sent (id : String) (written : List (String × List UInt8)) : List UInt8 :=
  (written.filter fun piece => piece.1 = id).flatMap Prod.snd

/-- Between the pieces of a frame, and after an unfinished one, there are no other bytes. -/
def Whole (s : ConnectionState) : Prop :=
  ∀ before id piece after, s.written = before ++ (id, piece) :: after → ∀ other, other ≠ id →
    sent other before = [] ∨
      ∃ request, s.requests other = some request ∧ request.frame = some (sent other before)

/-- No request has given up its frame midway without having taken the connection offline, when
another one gets the writer. -/
def Undisturbed (s : ConnectionState) : Step → Prop
  | .acquire _ => ∀ other request result, s.requests other = some request →
      request.phase = .leaving result true → sent other s.written = []
  | _ => True

/-- What the results of requests say. -/
structure Answered (s : ConnectionState) : Prop where
  /-- A response is taken once. -/
  once : (s.replies.log.map Prod.fst).Nodup
  /-- An entry belongs to a request that has not returned. -/
  pending : ∀ id, s.replies.pending id = true → ∃ request, s.requests id = some request ∧
    ∀ result, request.phase ≠ .returned result
  /-- A value or a rejection is the answer to the request. -/
  own : ∀ id request result, s.requests id = some request → request.phase = .returned (some result) →
    (∀ value, result = .ok value → (id, .ok value) ∈ s.replies.log) ∧
      ∀ message, result = .error (.rejected message) → (id, .error message) ∈ s.replies.log
  /-- A mutation whose frame was written has its answer, or is uncertain. -/
  certain : ∀ id request result, s.requests id = some request →
    request.phase = .returned (some result) → mutating request.method request.params = true →
      request.frame = some (sent id s.written) →
        (∃ answer : Answer, (id, answer) ∈ s.replies.log ∧ result = answer.outcome) ∨
          ∃ reason, result = .error (.uncertain reason)

end ConnectionState

end Agentix.Bridge
