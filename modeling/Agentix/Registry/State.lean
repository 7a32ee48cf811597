import Agentix.Lib.Json
import Mathlib.Algebra.Group.Nat.Defs
import Mathlib.Data.Finset.Insert
import Mathlib.Data.Finset.Basic
import Mathlib.Data.List.AList

/-! # The client registry

Every transport connection keeps the sessions its client uses, the lifecycle requests that wait
for their response, and the slots that tell a native session switch from two unrelated requests.
-/

namespace Agentix.Registry

open Lib

/-- A reading of the monotonic clock, in nanoseconds. -/
abbrev Instant := Nat

/-- `when.elapsed()`, which saturates. -/
def elapsed (now at_ : Instant) : Nat := now - at_

def twoMinutes : Nat := 120 * 1000000000

def thirtySeconds : Nat := 30 * 1000000000

inductive AgentEvent where
  | sessionSwitchStarted (sessionId clientId : String)
  | sessionReplaced (sessionId replacementSessionId clientId : String)
  deriving DecidableEq

/-- A switch the client asked for: the session it leaves, when, and the revision of the intent. -/
structure SwitchIntent where
  session : String
  requestedAt : Instant
  revision : Nat
  deriving DecidableEq

structure PendingRequest where
  method : String
  thread : Option String
  switch : Option SwitchIntent
  deriving DecidableEq

structure Connection where
  clientId : String
  previous : Option (String × Instant) := none
  fresh : Option (String × Instant) := none
  pid : Option Nat := none
  clientName : Option String := none
  sessions : Finset String := ∅
  switchRevision : Nat := 0
  requestedSwitch : Option SwitchIntent := none
  pending : AList fun _ : String => PendingRequest := ∅

structure State where
  nextId : Nat := 0
  sequence : Nat := 0
  lifecycle : List (Nat × AgentEvent) := []
  connections : AList fun _ : Nat => Connection := ∅

/-- The text of a JSON value, which names a pending request. -/
class Text where
  toText : Json → String

export Text (toText)

/-- The readings of the clock one call takes: of the age of an intent, of the age of the other
half of a replacement, and of the time a slot is filled. -/
structure Clock where
  intent : Instant
  other : Instant
  filled : Instant

namespace Connection

/-- The connection is the one a switch of the session is about. -/
def owns (c : Connection) (session : String) : Bool :=
  decide (session ∈ c.sessions) || c.requestedSwitch.any fun intent => intent.session == session

end Connection

namespace State

def put (s : State) (id : Nat) (c : Connection) : State :=
  { s with connections := s.connections.insert id c }

/-- `set_requested_switch`. -/
def setRequestedSwitch (s : State) (session clientId : String) (pending : Bool) (now : Instant) :
    State × Bool :=
  let owners := (s.connections.entries.filter fun entry => entry.2.owns session).length
  if owners ≠ 1 then (s, false)
  else
    match s.connections.entries.find? fun entry =>
        entry.2.clientId == clientId && entry.2.owns session with
    | none => (s, false)
    | some ⟨id, c⟩ =>
      let revision := (c.switchRevision + 1) % 2 ^ 64
      let c :=
        { c with
          switchRevision := revision
          requestedSwitch := if pending then some ⟨session, now, revision⟩ else none }
      (s.put id c, true)

/-- `connect`: the identity of the process, when the system knows it, names the client. -/
def connect (s : State) (pid : Option Nat) (identity : Option String) (process : Nat) : State :=
  let id := s.nextId + 1
  let clientId := identity.getD s!"connection:{process}:{id}"
  { s with nextId := id }.put id { clientId, pid }

def disconnect (s : State) (id : Nat) : State :=
  { s with connections := s.connections.erase id }

end State

/-! ## Requests -/

/-- A request whose response can change the ownership of sessions. -/
def tracked (method : String) : Bool :=
  method == "thread/start" || method == "thread/resume" || method == "thread/fork" ||
    method == "thread/unsubscribe"

def ephemeral (method : String) (message : Json) : Bool :=
  method == "thread/start" && ((message.index "params").index "ephemeral").isTrue

/-- The id under which a message waits for its response. -/
def requestId (message : Json) : Option Json :=
  (message.get? "id").filter fun id => id.isString || id.isNumber

namespace Connection

/-- What a request leaves on its connection until the response. -/
def request (c : Connection) (method : String) (message : Json) : PendingRequest where
  method
  thread := ((message.index "params").index "threadId").asStr
  switch := if method = "thread/start" then c.requestedSwitch else none

/-- `client_message`, on the connection it came from. -/
def clientMessage [Text] (c : Connection) (method : String) (message : Json) : Connection :=
  let c :=
    if method = "initialize" then
      { c with clientName := (((message.index "params").index "clientInfo").index "name").asStr }
    else c
  if tracked method then
    match requestId message with
    | some id =>
      if ephemeral method message then c
      else { c with pending := c.pending.insert (toText id) (c.request method message) }
    | none => c
  else c

end Connection

/-- `client_message`. -/
def State.clientMessage [Text] (s : State) (connection : Nat) (message : Json) : State :=
  match s.connections.lookup connection with
  | none => s
  | some c =>
    match (message.index "method").asStr with
    | none => s
    | some method => s.put connection (c.clientMessage method message)

/-! ## Responses -/

def replacementEvents (clientId previous replacement : String) : List AgentEvent :=
  [.sessionSwitchStarted previous clientId, .sessionReplaced previous replacement clientId]

/-- Whether a response tells that the session is left. -/
def unsubscribed (result : Json) : Bool :=
  match (result.index "status").asStr with
  | some status =>
    status == "unsubscribed" || status == "notSubscribed" || status == "notLoaded"
  | none => false

/-- Whether the thread of a response is one of a helper. -/
def subAgent (result : Json) : Bool :=
  (((result.index "thread").index "source").get? "subAgent").isSome

def keptThread (result : Json) : Option String :=
  match ((result.index "thread").index "id").asStr with
  | some thread => if ((result.index "thread").index "ephemeral").isTrue then none else some thread
  | none => none

namespace Connection

/-- The connection left a session.  A session it started just before is the replacement. -/
def leave (c : Connection) (thread : String) (clock : Clock) : Connection × List AgentEvent :=
  let left := { c with
    sessions := c.sessions.erase thread
    previous := some (thread, clock.filled)
    fresh := none }
  match c.fresh with
  | some (fresh, at_) =>
    if fresh ≠ thread ∧ elapsed clock.other at_ < twoMinutes then
      ({ left with previous := none }, replacementEvents c.clientId thread fresh)
    else (left, [])
  | none => (left, [])

/-- The connection started a session.  It replaces the one of the request's intent, or one that was
left just before. -/
def start (c : Connection) (switch : Option SwitchIntent) (thread : String) (clock : Clock) :
    Connection × List AgentEvent :=
  let requested := switch.filter fun intent =>
    c.requestedSwitch == some intent && decide (elapsed clock.intent intent.requestedAt < thirtySeconds)
  match requested.filter fun intent => intent.session != thread with
  | some intent =>
    ({ c with
        requestedSwitch := none
        previous := none
        fresh := none
        sessions := c.sessions.erase intent.session },
      replacementEvents c.clientId intent.session thread)
  | none =>
    let taken := { c with previous := none }
    match c.previous with
    | some (previous, at_) =>
      if elapsed clock.other at_ < twoMinutes ∧ previous ≠ thread then
        ({ taken with requestedSwitch := none }, replacementEvents c.clientId previous thread)
      else ({ taken with fresh := some (thread, clock.filled) }, [])
    | none => ({ taken with fresh := some (thread, clock.filled) }, [])

def respond (c : Connection) (request : PendingRequest) (result : Json) (clock : Clock) :
    Connection × List AgentEvent :=
  if request.method = "thread/unsubscribe" then
    match request.thread with
    | some thread =>
      if unsubscribed result ∧ thread ∈ c.sessions then c.leave thread clock else (c, [])
    | none => (c, [])
  else
    match keptThread result with
    | none => (c, [])
    | some thread =>
      let c := { c with sessions := insert thread c.sessions }
      if request.method = "thread/start" ∧ !subAgent result then
        c.start request.switch thread clock
      else if request.method = "thread/resume" then
        ({ c with previous := none, fresh := none }, [])
      else (c, [])

/-- The request a message of the server answers.  A server request can reuse the id of a client
request; it is not its response. -/
def awaited [Text] (c : Connection) (message : Json) : Option (String × PendingRequest) :=
  if (message.get? "method").isSome then none
  else
    match message.get? "id" with
    | none => none
    | some id => (c.pending.lookup (toText id)).map fun request => (toText id, request)

end Connection

namespace State

/-- Events are numbered, and the last 1024 are kept. -/
def push (s : State) (event : AgentEvent) : State :=
  let lifecycle := s.lifecycle ++ [(s.sequence + 1, event)]
  { s with
    sequence := s.sequence + 1
    lifecycle := lifecycle.drop (lifecycle.length - 1024) }

/-- `server_message`, with the events it pushes. -/
def serverMessage [Text] (s : State) (connection : Nat) (message : Json) (clock : Clock) :
    State × List AgentEvent :=
  match s.connections.lookup connection with
  | none => (s, [])
  | some c =>
    match c.awaited message with
    | none => (s, [])
    | some (key, request) =>
      let c := { c with pending := c.pending.erase key }
      match message.get? "result" with
      | none => (s.put connection c, [])
      | some result =>
        let (c, events) := c.respond request result clock
        (events.foldl push (s.put connection c), events)

end State

/-! ## Runs -/

inductive Call where
  | connect (pid : Option Nat) (identity : Option String) (process : Nat)
  | disconnect (connection : Nat)
  | setRequestedSwitch (session clientId : String) (pending : Bool) (now : Instant)
  | clientMessage (connection : Nat) (message : Json)
  | serverMessage (connection : Nat) (message : Json) (clock : Clock)

namespace State

def call [Text] (s : State) : Call → State × List AgentEvent
  | .connect pid identity process => (s.connect pid identity process, [])
  | .disconnect connection => (s.disconnect connection, [])
  | .setRequestedSwitch session clientId pending now =>
    ((s.setRequestedSwitch session clientId pending now).1, [])
  | .clientMessage connection message => (s.clientMessage connection message, [])
  | .serverMessage connection message clock => s.serverMessage connection message clock

def after [Text] (calls : List Call) : State :=
  calls.foldl (fun s call => (s.call call).1) {}

theorem after_snoc [Text] (calls : List Call) (call : Call) :
    after (calls ++ [call]) = ((after calls).call call).1 := by
  simp [after]

end State

end Agentix.Registry
