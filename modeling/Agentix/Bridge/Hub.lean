import Agentix.Bridge.Requests
import Mathlib.Data.List.Basic

/-! # Registrations of a bridge

A peer registers its session in two steps: its acknowledgement is written between them, under a
reservation of the session.  A connection that ends reports to the hub, from its reader, from the
tasks that poison it, or from both; a report names the session and an instance.
-/

namespace Agentix.Bridge

open Lib
open Function (update)

namespace Hub

/-- `(String, SessionId)`. -/
abbrev Key := String × String

structure Registration where
  agent : String
  instance_ : String
  sessionId : String
  sessionFile : String
  snapshotInstance : String
  snapshotSession : String
  clientId : Option String
  previousSessionId : Option String

def Registration.key (record : Registration) : Key := (record.agent, record.sessionId)

inductive AgentEvent where
  | sessionResumed (session : String)
  | sessionOffline (session : String)
  | sessionSwitchStarted (session client : String)
  | sessionReplaced (session replacement client : String)
  /-- One of the events a peer sends, which are neither of the first two. -/
  | forwarded (session : String)

inductive Frame where
  | inspect (agent root : String)
  | register (record : Registration)

inductive Accept where
  | inspecting (agent : String) (configured : Bool)
  | reserved (record : Registration)
  | acknowledging (record : Registration)
  | acknowledged (record : Registration)
  /-- The result is known, and the reservation has not been dropped. -/
  | leaving (key : Key) (result : Except String Unit)
  | returned (result : Except String (Option Nat))
  | cancelled

structure Link where
  key : Key
  instance_ : String
  online : Bool
  reader : ReaderStage
  aborted : Bool
  /-- Tasks of `poison` that have not reported. -/
  reports : Nat

inductive Shutdown where
  | waiting
  /-- The entries that are left; `stopped` tells whether the first one has been shut down. -/
  | draining (left : List (Key × Nat)) (stopped : Bool)
  | abandoned

end Hub

open Hub

/-- The hub and its connections, which are numbered as they come. -/
structure Hub where
  backends : String → Option String
  registrations : List (Key × Nat)
  pending : Key → Bool
  closed : Bool
  accepts : Nat → Option Accept
  links : Nat → Option Link
  next : Nat
  shutdowns : Nat → Option Shutdown
  /-- Events that were broadcast, with their backend. -/
  events : List (String × AgentEvent)

namespace Hub

inductive Step where
  | configure (agent root : String)
  | accept (call : Nat) (frame : Json)
  | inspect (call : Nat)
  | check (call : Nat)
  | acknowledge (call : Nat)
  | acknowledgeFails (call : Nat) (reason : String)
  | register (call : Nat)
  | finish (call : Nat)
  | cancel (call : Nat)
  | forward (number : Nat)
  | readerEnds (number : Nat)
  | readerReports (number : Nat)
  | readerStops (number : Nat)
  | poison (number : Nat)
  | poisonReports (number : Nat)
  | dropped (number : Nat)
  | shutdown (call : Nat)
  | drain (call : Nat) (order : List (Key × Nat))
  | stop (call : Nat)
  | announce (call : Nat)
  | abandon (call : Nat)

def start : Hub where
  backends := fun _ => none
  registrations := []
  pending := fun _ => false
  closed := false
  accepts := fun _ => none
  links := fun _ => none
  next := 0
  shutdowns := fun _ => none
  events := []

/-! ## Frames -/

inductive Component where
  | rootDir
  | curDir
  | parentDir
  | normal (name : List Char)
  deriving DecidableEq

/-- `Path::components` on Unix. -/
def components (path : String) : List Component :=
  let parts := path.toList.splitOn '/'
  let names := parts.filterMap fun part =>
    if part = [] ∨ part = ['.'] then none
    else if part = ['.', '.'] then some .parentDir
    else some (.normal part)
  match path.toList with
  | '/' :: _ => .rootDir :: names
  | _ => if parts.head? = some ['.'] then .curDir :: names else names

def absolute (path : String) : Bool := (components path).head? = some .rootDir

/-- `serde_json` compares a number with an integer by its literal. -/
def version : Json → Bool
  | .number literal => literal = [50]
  | _ => false

section

variable (fromValue : Json → Except String Registration)

/-- What a frame asks for; `fromValue` decodes a registration. -/
def parse (frame : Json) : Except String Frame :=
  let params := frame.index "params"
  if !version (params.index "version") then .error "unsupported bridge protocol version"
  else if (frame.index "method").asStr = some "inspect" then
    .ok (.inspect ((params.index "agent").asStr.getD "") ((params.index "session_root").asStr.getD ""))
  else
    match fromValue params with
    | .error reason => .error reason
    | .ok record =>
      if (frame.index "method").asStr ≠ some "register" ∨ record.sessionId = "" ∨
          record.snapshotSession ≠ record.sessionId ∨
          record.snapshotInstance ≠ record.instance_ ∨ record.instance_ = "" then
        .error "invalid bridge registration"
      else .ok (.register record)

end

variable (s : Hub)

def admits (record : Registration) : Bool :=
  match s.backends record.agent with
  | some root =>
    absolute record.sessionFile && !(components record.sessionFile).contains .parentDir &&
      (components root).isPrefixOf (components record.sessionFile)
  | none => false

/-! ## Accepting -/

def goto (call : Nat) (phase : Accept) : Hub :=
  { s with accepts := update s.accepts call (some phase) }

def setLink (number : Nat) (link : Link) : Hub :=
  { s with links := update s.links number (some link) }

def broadcast (agent : String) (events : List AgentEvent) : Hub :=
  { s with events := s.events ++ events.map fun event => (agent, event) }

def owns (key : Key) : Bool := (s.registrations.lookup key).isSome

/-- `entries.insert(key, connection)`, which replaces an entry. -/
def insert (key : Key) (number : Nat) (entries : List (Key × Nat)) : List (Key × Nat) :=
  entries.filter (fun entry => entry.1 ≠ key) ++ [(key, number)]

def configure (agent root : String) : Hub :=
  { s with backends := update s.backends agent (some root) }

def accept (fromValue : Json → Except String Registration) (call : Nat) (frame : Json) :
    Option Hub :=
  if (s.accepts call).isNone then
    some (match parse fromValue frame with
      | .error reason => s.goto call (.returned (.error reason))
      | .ok (.inspect agent root) =>
        s.goto call (.inspecting agent ((s.backends agent).map components = some (components root)))
      | .ok (.register record) =>
        if !s.admits record then
          s.goto call (.returned (.error "session file is outside the configured backend root"))
        else if s.pending record.key then
          s.goto call (.returned (.error "another instance is registering this session"))
        else
          { s.goto call (.reserved record) with pending := update s.pending record.key true })
  else none

/-- The sessions of a backend that are online. -/
def online (agent : String) : List (Key × Nat) :=
  s.registrations.filter fun entry =>
    entry.1.1 = agent && (s.links entry.2).any fun link => link.online

def inspect (call : Nat) : Option Hub :=
  (s.accepts call).bind fun phase =>
    match phase with
    | .inspecting agent configured =>
      some (s.goto call (.returned (.ok (some (if configured then (s.online agent).length else 0)))))
    | _ => none

def check (call : Nat) : Option Hub :=
  (s.accepts call).bind fun phase =>
    match phase with
    | .reserved record =>
      some (s.goto call
        (if s.closed then .leaving record.key (.error "Agentix is shutting down")
        else if s.owns record.key then
          .leaving record.key (.error "another live instance owns this session")
        else .acknowledging record))
    | _ => none

def acknowledge (call : Nat) : Option Hub :=
  (s.accepts call).bind fun phase =>
    match phase with
    | .acknowledging record => some (s.goto call (.acknowledged record))
    | _ => none

/-- The acknowledgement is not written, or not in time. -/
def acknowledgeFails (call : Nat) (reason : String) : Option Hub :=
  (s.accepts call).bind fun phase =>
    match phase with
    | .acknowledging record => some (s.goto call (.leaving record.key (.error reason)))
    | _ => none

def announcements (record : Registration) : List AgentEvent :=
  (match record.previousSessionId, record.clientId with
    | some previous, some client =>
      if previous ≠ record.sessionId then
        [.sessionSwitchStarted previous client, .sessionReplaced previous record.sessionId client]
      else []
    | _, _ => []) ++ [.sessionResumed record.sessionId]

def enter (record : Registration) : Hub :=
  let link := ⟨record.key, record.instance_, true, .running, false, 0⟩
  { s with
    registrations := insert record.key s.next s.registrations
    links := update s.links s.next (some link)
    next := s.next + 1 }.broadcast record.agent (announcements record)

def register (call : Nat) : Option Hub :=
  (s.accepts call).bind fun phase =>
    match phase with
    | .acknowledged record =>
      some (if s.closed then s.goto call (.leaving record.key (.error "Agentix is shutting down"))
        else (s.enter record).goto call (.leaving record.key (.ok ())))
    | _ => none

/-- The reservation is dropped. -/
def finish (call : Nat) : Option Hub :=
  (s.accepts call).bind fun phase =>
    match phase with
    | .leaving key result =>
      some { s.goto call (.returned (result.map fun _ => none)) with
        pending := update s.pending key false }
    | _ => none

/-- The call is dropped at an await. -/
def cancel (call : Nat) : Option Hub :=
  (s.accepts call).bind fun phase =>
    match phase with
    | .inspecting .. => some (s.goto call .cancelled)
    | .reserved record | .acknowledging record | .acknowledged record =>
      some { s.goto call .cancelled with pending := update s.pending record.key false }
    | _ => none

/-! ## Connections -/

/-- The entry goes when its connection has the instance. -/
def disconnected (key : Key) (instance_ : String) : Hub :=
  match s.registrations.lookup key with
  | some number =>
    match s.links number with
    | some link =>
      if link.instance_ = instance_ then
        let removed := { s with
          registrations := s.registrations.filter fun entry => entry.1 ≠ key
          links := update s.links number (some { link with online := false }) }
        if (s.backends key.1).isSome then removed.broadcast key.1 [.sessionOffline key.2]
        else removed
      else s
    | none => s
  | none => s

def forward (number : Nat) : Option Hub :=
  (s.links number).bind fun link =>
    if link.reader = .running then some (s.broadcast link.key.1 [.forwarded link.key.2]) else none

def readerEnds (number : Nat) : Option Hub :=
  (s.links number).bind fun link =>
    if link.reader = .running then some (s.setLink number { link with reader := .ended }) else none

def readerReports (number : Nat) : Option Hub :=
  (s.links number).bind fun link =>
    if link.reader = .ended then
      some ((s.setLink number { link with reader := .stopped }).disconnected link.key link.instance_)
    else none

def readerStops (number : Nat) : Option Hub :=
  (s.links number).bind fun link =>
    if link.aborted then some (s.setLink number { link with reader := .stopped }) else none

def poison (number : Nat) : Option Hub :=
  (s.links number).map fun link => s.setLink number
    { link with online := false, aborted := true, reports := link.reports + 1 }

def poisonReports (number : Nat) : Option Hub :=
  (s.links number).bind fun link =>
    if 0 < link.reports then
      some ((s.setLink number { link with reports := link.reports - 1 }).disconnected
        link.key link.instance_)
    else none

/-- A connection aborts its reader when nobody holds it, and the table does not. -/
def dropped (number : Nat) : Option Hub :=
  (s.links number).bind fun link =>
    if s.registrations.any fun entry => entry.2 = number then none
    else some (s.setLink number { link with aborted := true })

/-! ## Shutting down -/

def setShutdown (call : Nat) (phase : Shutdown) : Hub :=
  { s with shutdowns := update s.shutdowns call (some phase) }

def shutdown (call : Nat) : Option Hub :=
  if (s.shutdowns call).isNone then some { s.setShutdown call .waiting with closed := true }
  else none

/-- The table is emptied, in any order. -/
def drain (call : Nat) (order : List (Key × Nat)) : Option Hub :=
  (s.shutdowns call).bind fun phase =>
    match phase with
    | .waiting =>
      if order.Perm s.registrations then
        some { s.setShutdown call (.draining order false) with registrations := [] }
      else none
    | _ => none

def stop (call : Nat) : Option Hub :=
  (s.shutdowns call).bind fun phase =>
    match phase with
    | .draining (entry :: left) false =>
      (s.links entry.2).map fun link =>
        (s.setLink entry.2 { link with online := false, aborted := true }).setShutdown call
          (.draining (entry :: left) true)
    | _ => none

def announce (call : Nat) : Option Hub :=
  (s.shutdowns call).bind fun phase =>
    match phase with
    | .draining (entry :: left) true =>
      let s := s.setShutdown call (.draining left false)
      some (if (s.backends entry.1.1).isSome then
        s.broadcast entry.1.1 [.sessionOffline entry.1.2] else s)
    | _ => none

def abandon (call : Nat) : Option Hub :=
  (s.shutdowns call).bind fun phase =>
    match phase with
    | .waiting => some (s.setShutdown call .abandoned)
    | .draining _ _ => some (s.setShutdown call (.draining [] false))
    | .abandoned => none

def step (fromValue : Json → Except String Registration) (s : Hub) : Step → Option Hub
  | .configure agent root => some (s.configure agent root)
  | .accept call frame => s.accept fromValue call frame
  | .inspect call => s.inspect call
  | .check call => s.check call
  | .acknowledge call => s.acknowledge call
  | .acknowledgeFails call reason => s.acknowledgeFails call reason
  | .register call => s.register call
  | .finish call => s.finish call
  | .cancel call => s.cancel call
  | .forward number => s.forward number
  | .readerEnds number => s.readerEnds number
  | .readerReports number => s.readerReports number
  | .readerStops number => s.readerStops number
  | .poison number => s.poison number
  | .poisonReports number => s.poisonReports number
  | .dropped number => s.dropped number
  | .shutdown call => s.shutdown call
  | .drain call order => s.drain call order
  | .stop call => s.stop call
  | .announce call => s.announce call
  | .abandon call => s.abandon call

def system (fromValue : Json → Except String Registration) : System Hub Step :=
  .ofStep start (step fromValue)

end Hub

end Agentix.Bridge
