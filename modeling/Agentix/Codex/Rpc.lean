import Agentix.Codex.Process
import Agentix.Lib.Replies
import Agentix.Lib.Run

/-! # Requests to the app server

Calls run at once over one connection.  Each registers itself for its response, waits for the
writer, hands its frame to the socket and waits.  Meanwhile the reader takes responses, loses the
connection and swaps the writer for that of another one; deadlines pass, and callers give up.
-/

namespace Agentix.Codex

open Lib
open Function (update)

inductive ClientError where
  | timeout
  | webSocket (text : String)
  | responseClosed
  | rpc (code : Int) (message : String)
  | uncertain (error : ClientError)

structure RpcError where
  code : Int
  message : String

variable {V : Type}

abbrev Response (V : Type) := Except RpcError V

/-- The methods that may be repeated when their response is lost. -/
def idempotent : List String :=
  ["thread/read", "thread/turns/list", "thread/items/list", "thread/loaded/list",
    "thread/queue/list", "thread/goal/get", "model/list", "skills/list", "mcpServerStatus/list",
    "account/rateLimits/read", "thread/resume", "thread/unsubscribe"]

def requestTransportError (method : String) (error : ClientError) : ClientError :=
  if method ∈ idempotent then error else .uncertain error

inductive CallPhase (V : Type) where
  /-- Registered; the writer is not its own yet. -/
  | waiting
  /-- The frame is being handed to the socket. -/
  | sending
  | receiving
  | done (result : Except ClientError V)
  | cancelled

def CallPhase.active : CallPhase V → Bool
  | .waiting | .sending | .receiving => true
  | .done _ | .cancelled => false

/-- A call of `request_rpc`, possibly made for a call of `request_after_reconnect`. -/
structure RpcCall (V : Type) where
  method : String
  owner : Option Nat
  phase : CallPhase V

inductive RetryStage (V : Type) where
  | ready
  | trying (id : Int) (generation : Nat)
  | reconnecting (generation : Nat)
  | done (result : Except ClientError V)
  | cancelled

/-- A call of `request_after_reconnect`. -/
structure Retried (V : Type) where
  method : String
  stage : RetryStage V

inductive Holder where
  | call (id : Int)
  | reader
  deriving DecidableEq

inductive ReadLoop where
  | reading
  | ponging
  | disconnected
  | restoring
  deriving DecidableEq

structure RpcState (V : Type) where
  nextId : Int
  calls : Int → Option (RpcCall V)
  retries : Nat → Option (Retried V)
  replies : Replies Int (Response V)
  writer : Option Holder
  reader : ReadLoop
  generation : Nat
  /-- The calls whose frames were handed to a socket. -/
  frames : List Int

inductive RpcStep (V : Type) where
  | request (method : String)
  | retry (number : Nat) (method : String)
  | attempt (number : Nat)
  | settle (number : Nat)
  | reconnected (number : Nat)
  | deadline (number : Nat)
  | abandon (number : Nat)
  | lock (id : Int)
  | sent (id : Int)
  | failed (id : Int) (text : String)
  | receive (id : Int)
  | expire (id : Int)
  | cancel (id : Int)
  | response (id : Int) (response : Response V)
  | ping
  | pong
  | disconnect
  | swap
  | restored

namespace RpcState

def start : RpcState V where
  nextId := 2
  calls := fun _ => none
  retries := fun _ => none
  replies := .empty
  writer := none
  reader := .reading
  generation := 1
  frames := []

variable (s : RpcState V)

/-- The call takes an identifier and registers itself. -/
def register (method : String) (owner : Option Nat) : RpcState V :=
  { s with
    nextId := s.nextId + 1
    calls := update s.calls s.nextId (some ⟨method, owner, .waiting⟩)
    replies := s.replies.register s.nextId }

def goto (id : Int) (call : RpcCall V) (phase : CallPhase V) : RpcState V :=
  { s with calls := update s.calls id (some { call with phase }) }

/-- The writer is free again when the call held it. -/
def release (id : Int) : RpcState V :=
  { s with writer := if s.writer = some (.call id) then none else s.writer }

/-- The call ends: it lets go of the writer and its entry is dropped. -/
def finish (id : Int) (call : RpcCall V) (phase : CallPhase V) : RpcState V :=
  { (s.goto id call phase).release id with replies := s.replies.remove id }

/-- The error of a call, by what may have been sent. -/
def fail (id : Int) (call : RpcCall V) (error : ClientError) : RpcState V :=
  s.finish id call (.done (.error
    (match call.phase with
      | .waiting => error
      | _ => requestTransportError call.method error)))

def lock (id : Int) : Option (RpcState V) :=
  (s.calls id).bind fun call =>
    match call.phase, s.writer with
    | .waiting, none =>
      some { s.goto id call .sending with writer := some (.call id), frames := s.frames ++ [id] }
    | _, _ => none

def sent (id : Int) : Option (RpcState V) :=
  (s.calls id).bind fun call =>
    match call.phase with
    | .sending => some ((s.goto id call .receiving).release id)
    | _ => none

def failed (id : Int) (text : String) : Option (RpcState V) :=
  (s.calls id).bind fun call =>
    match call.phase with
    | .sending => some (s.fail id call (.webSocket text))
    | _ => none

/-- The response, or the end of the connection. -/
def receive (id : Int) : Option (RpcState V) :=
  (s.calls id).bind fun call =>
    match call.phase, s.replies.slot id with
    | .receiving, .answered (.ok value) => some (s.finish id call (.done (.ok value)))
    | .receiving, .answered (.error error) =>
      some (s.finish id call (.done (.error (.rpc error.code error.message))))
    | .receiving, .closed => some (s.fail id call .responseClosed)
    | _, _ => none

def expire (id : Int) : Option (RpcState V) :=
  (s.calls id).bind fun call =>
    if call.phase.active then some (s.fail id call .timeout) else none

/-- The caller is gone. -/
def cancel (id : Int) : Option (RpcState V) :=
  (s.calls id).bind fun call =>
    if call.phase.active then some (s.finish id call .cancelled) else none

/-! ## `request_after_reconnect` -/

def stage (number : Nat) (retried : Retried V) (stage : RetryStage V) : RpcState V :=
  { s with retries := update s.retries number (some { retried with stage }) }

def attempt (number : Nat) : Option (RpcState V) :=
  (s.retries number).bind fun retried =>
    match retried.stage with
    | .ready =>
      some ((s.register retried.method (some number)).stage number retried
        (.trying s.nextId s.generation))
    | _ => none

/-- A lost connection is waited for; any other result is the result. -/
def settle (number : Nat) : Option (RpcState V) :=
  (s.retries number).bind fun retried =>
    match retried.stage with
    | .trying id generation =>
      (s.calls id).bind fun call =>
        match call.phase with
        | .done (.error .responseClosed) | .done (.error (.webSocket _)) =>
          some (s.stage number retried (.reconnecting generation))
        | .done result => some (s.stage number retried (.done result))
        | _ => none
    | _ => none

def reconnected (number : Nat) : Option (RpcState V) :=
  (s.retries number).bind fun retried =>
    match retried.stage with
    | .reconnecting generation =>
      if s.generation ≠ generation then some (s.stage number retried .ready) else none
    | _ => none

/-- The call ends, and drops the attempt that it makes. -/
def leave (number : Nat) (last : RetryStage V) : Option (RpcState V) :=
  (s.retries number).bind fun retried =>
    match retried.stage with
    | .ready | .reconnecting _ => some (s.stage number retried last)
    | .trying id _ => some (((s.cancel id).getD s).stage number retried last)
    | .done _ | .cancelled => none

/-! ## `read_loop` -/

def read (id : Int) (response : Response V) : Option (RpcState V) :=
  if s.reader = .reading then some { s with replies := s.replies.answer id response } else none

def ping : Option (RpcState V) :=
  if s.reader = .reading ∧ s.writer = none then
    some { s with reader := .ponging, writer := some .reader }
  else none

def pong : Option (RpcState V) :=
  if s.reader = .ponging then some { s with reader := .reading, writer := none } else none

def disconnect : Option (RpcState V) :=
  if s.reader = .reading then some { s with reader := .disconnected, replies := s.replies.clear }
  else none

/-- The writer of the new connection, over which subscriptions are restored first. -/
def swap : Option (RpcState V) :=
  if s.reader = .disconnected ∧ s.writer = none then
    some { s with reader := .restoring, writer := some .reader }
  else none

def restored : Option (RpcState V) :=
  if s.reader = .restoring then
    some { s with reader := .reading, writer := none, generation := s.generation + 1 }
  else none

def step (s : RpcState V) : RpcStep V → Option (RpcState V)
  | .request method => some (s.register method none)
  | .retry number method =>
    if (s.retries number).isNone then some (s.stage number ⟨method, .ready⟩ .ready) else none
  | .attempt number => s.attempt number
  | .settle number => s.settle number
  | .reconnected number => s.reconnected number
  | .deadline number => s.leave number (.done (.error .timeout))
  | .abandon number => s.leave number .cancelled
  | .lock id => s.lock id
  | .sent id => s.sent id
  | .failed id text => s.failed id text
  | .receive id => s.receive id
  | .expire id => s.expire id
  | .cancel id => if (s.calls id).all fun call => call.owner.isNone then s.cancel id else none
  | .response id response => s.read id response
  | .ping => s.ping
  | .pong => s.pong
  | .disconnect => s.disconnect
  | .swap => s.swap
  | .restored => s.restored

def system : System (RpcState V) (RpcStep V) := .ofStep start step

end RpcState

end Agentix.Codex
