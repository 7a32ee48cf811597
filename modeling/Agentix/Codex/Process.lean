import Agentix.Lib.Run
import Agentix.Lib.Selection
import Mathlib.Data.Finset.Insert
import Mathlib.Data.Int.Order.Basic
import Mathlib.Data.Prod.Lex
import Mathlib.Data.String.Basic

/-! # Running Codex sessions

Which session runs in which terminal.  A process that holds the writer lock of a session owns it
directly; the other clients of the daemon are matched with the sessions loaded in their directory,
and keep the session they have got.  Directories are compared as paths; a hash map is a partial
function, and where the code iterates over one the order is not known.
-/

namespace Agentix.Codex

open Lib
open Function (update)

abbrev SessionId := String

inductive SessionStatus where
  | notLoaded
  | idle
  | active
  | systemError
  | offline
  | unknown
  deriving DecidableEq

variable {P T : Type}

structure SessionSummary (P : Type) where
  id : SessionId
  cwd : Option P
  updatedAt : Option Int
  status : SessionStatus

structure DaemonClient (P T : Type) where
  pid : Nat
  cwd : P
  terminal : Option T

structure RunningProcessSnapshot (P T : Type) where
  directSessionIds : Finset SessionId
  directTerminalLocations : SessionId → Option T
  daemonClients : List (DaemonClient P T)

structure RunningSessionSelection (T : Type) where
  ids : Finset SessionId
  terminals : SessionId → Option T
  clients : Nat → Option SessionId

/-! ## One match -/

/-- `session_priority`, where no time comes before any, and the identifier that breaks ties. -/
def SessionSummary.rank (session : SessionSummary P) : Bool ×ₗ Bool ×ₗ Int ×ₗ SessionId :=
  toLex (session.status = .active,
    toLex (session.updatedAt.isSome, toLex (session.updatedAt.getD 0, session.id)))

/-- The candidates with the greatest rank come first. -/
def priority (left right : SessionSummary P) : Prop :=
  right.rank ≤ left.rank

instance : DecidableRel (priority (P := P)) := fun left right =>
  inferInstanceAs (Decidable (right.rank ≤ left.rank))

/-- What the code leaves to the platform: the order of a map's keys, and how
`select_nth_unstable_by` arranges the candidates. -/
structure Iteration (P : Type) where
  cwds : List P → List P
  perm : ∀ keys, (cwds keys).Perm keys
  selector : Selector (priority (P := P))

/-- A client gets a session. -/
def RunningSessionSelection.bind (result : RunningSessionSelection T)
    (pair : SessionSummary P × DaemonClient P T) : RunningSessionSelection T :=
  let (session, client) := pair
  { ids := insert session.id result.ids
    clients := update result.clients client.pid (some session.id)
    terminals := match client.terminal with
      | some terminal => update result.terminals session.id (some terminal)
      | none => result.terminals }

section

variable [DecidableEq P] (iteration : Iteration P) (loaded : List (SessionSummary P))
  (snapshot : RunningProcessSnapshot P T)

namespace RunningProcessSnapshot

/-- `clients_by_cwd`, the last process first. -/
def clientsIn (cwd : P) : List (DaemonClient P T) :=
  (snapshot.daemonClients.filter fun client => client.cwd = cwd).insertionSort
    fun left right => right.pid ≤ left.pid

/-- `sessions_by_cwd`. -/
def candidatesIn (cwd : P) : List (SessionSummary P) :=
  loaded.filter fun session => session.id ∉ snapshot.directSessionIds ∧ session.cwd = some cwd

def matched (cwd : P) : List (SessionSummary P × DaemonClient P T) :=
  let clients := snapshot.clientsIn cwd
  let candidates := snapshot.candidatesIn loaded cwd
  -- only the highest priority candidates are ordered
  let candidates :=
    if clients.length < candidates.length then
      (iteration.selector.select clients.length candidates).take clients.length
    else candidates
  (candidates.insertionSort priority).zip clients

end RunningProcessSnapshot

def resolveRunningSessions : RunningSessionSelection T :=
  let result : RunningSessionSelection T :=
    { ids := snapshot.directSessionIds, terminals := snapshot.directTerminalLocations
      clients := fun _ => none }
  if snapshot.daemonClients.isEmpty then result
  else
    (iteration.cwds (snapshot.daemonClients.map DaemonClient.cwd).dedup).foldl
      (fun result cwd => (snapshot.matched iteration loaded cwd).foldl .bind result) result

/-! ## Matches over time -/

/-- The `bindings` of a `RunningSessionResolver`. -/
abbrev Bindings := Nat → Option SessionId

def Bindings.retain (bindings : Bindings) : Bindings := fun pid =>
  (bindings pid).filter fun session =>
    pid ∈ snapshot.daemonClients.map DaemonClient.pid ∧
      session ∈ loaded.map SessionSummary.id ∧ session ∉ snapshot.directSessionIds

/-- A client with a binding counts as the owner of its session. -/
def Bindings.settle (bindings : Bindings) (unresolved : RunningProcessSnapshot P T)
    (client : DaemonClient P T) : RunningProcessSnapshot P T :=
  match bindings client.pid with
  | some session =>
    { unresolved with
      directSessionIds := insert session unresolved.directSessionIds
      directTerminalLocations := match client.terminal with
        | some terminal => update unresolved.directTerminalLocations session (some terminal)
        | none => unresolved.directTerminalLocations }
  | none => { unresolved with daemonClients := unresolved.daemonClients ++ [client] }

def Bindings.unresolved (bindings : Bindings) : RunningProcessSnapshot P T :=
  snapshot.daemonClients.foldl bindings.settle { snapshot with daemonClients := [] }

/-- `RunningSessionResolver::resolve`. -/
def Bindings.resolve (bindings : Bindings) : RunningSessionSelection T × Bindings :=
  let bindings := bindings.retain loaded snapshot
  let selection := resolveRunningSessions iteration loaded (bindings.unresolved snapshot)
  (selection, fun pid => (selection.clients pid).or (bindings pid))

end

/-- What one call is given. -/
structure Poll (P T : Type) where
  loaded : List (SessionSummary P)
  snapshot : RunningProcessSnapshot P T
  distinct : (loaded.map SessionSummary.id).Nodup
  pids : (snapshot.daemonClients.map DaemonClient.pid).Nodup

/-- The bindings after some calls. -/
def Bindings.after [DecidableEq P] (calls : List (Iteration P × Poll P T)) : Bindings :=
  calls.foldl (fun bindings call =>
    (bindings.resolve call.1 call.2.loaded call.2.snapshot).2) fun _ => none

end Agentix.Codex

/-! # Observed sessions

A session that another process owns is only read.  Each poll reads the newest turn of the session,
compares it with the turn that the poll before it has read, and publishes what is new about it.
Turns are appended to the session one after another, between any two steps of a poll.
-/

namespace Agentix.Codex

open Lib

inductive TurnStatus where
  | inProgress
  | completed
  | interrupted
  | failed
  | unknown
  deriving DecidableEq

def TurnStatus.terminal : TurnStatus → Bool
  | .completed | .failed | .interrupted => true
  | .inProgress | .unknown => false

structure ItemSummary where
  id : String
  kind : String
  text : Option String
  status : Option String
  deriving DecidableEq

structure ToolSummary where
  kind : String
  label : String
  status : String
  deriving DecidableEq

structure TurnSummary where
  id : String
  status : TurnStatus
  userText : Option String
  agentText : Option String
  tools : List ToolSummary
  items : List ItemSummary
  deriving DecidableEq

inductive AgentEvent where
  | turnStarted (session : SessionId) (turn : String)
  | itemCompleted (session : SessionId) (turn : String) (item : ItemSummary)
  | turnCompleted (session : SessionId) (turn : String) (status : TurnStatus)
      (error : Option String)
  deriving DecidableEq

def AgentEvent.turn : AgentEvent → String
  | .turnStarted _ turn | .itemCompleted _ turn _ | .turnCompleted _ turn _ _ => turn

namespace TurnSummary

def newItems (turn : TurnSummary) (old : Option TurnSummary) : List ItemSummary :=
  let prompt : List ItemSummary :=
    if old.all fun old => old.userText ≠ turn.userText then
      [⟨s!"observed-{turn.id}-userMessage", "userMessage", turn.userText, none⟩]
    else []
  let others := turn.items.filter fun item =>
    item.kind ≠ "userMessage" ∧ old.all fun old => item ∉ old.items
  let answer : List ItemSummary :=
    if (turn.items.all fun item => item.kind ≠ "agentMessage") ∧
        old.all fun old => old.agentText ≠ turn.agentText then
      [⟨s!"observed-{turn.id}-agentMessage", "agentMessage", turn.agentText, none⟩]
    else []
  prompt ++ others ++ answer

def opens (turn : TurnSummary) (previous : Option TurnSummary) : Bool :=
  turn.status = .inProgress ∧ previous.all fun old => old.id ≠ turn.id

end TurnSummary

/-- `publish_turn_snapshot`. -/
def publishTurnSnapshot (session : SessionId) (previous : Option TurnSummary)
    (turn : TurnSummary) : List AgentEvent :=
  (if turn.opens previous then [.turnStarted session turn.id] else []) ++
    (turn.newItems (previous.filter fun old => old.id = turn.id)).map
      (.itemCompleted session turn.id) ++
    if turn.status.terminal then [.turnCompleted session turn.id turn.status none] else []

/-! ## Polls -/

structure ObservedSession where
  /-- The turns of the session, newest last. -/
  turns : List TurnSummary
  /-- The session is observed, and this is the turn read last. -/
  observed : Option (Option TurnSummary)
  /-- What the poll in flight has read. -/
  reading : Option TurnSummary
  /-- What the polls have read, newest last. -/
  reads : List TurnSummary
  events : List AgentEvent
  completedTurn : Option String

inductive ObservedStep where
  | begins (turn : TurnSummary)
  | changes (turn : TurnSummary)
  | read
  | publish
  | detach

namespace ObservedSession

def begins (s : ObservedSession) (turn : TurnSummary) : Option ObservedSession :=
  if turn.id ∉ s.turns.map TurnSummary.id ∧
      s.turns.getLast?.all fun last => last.status.terminal then
    some { s with turns := s.turns ++ [turn] }
  else none

/-- The newest turn changes; once it has ended it does not go on. -/
def changes (s : ObservedSession) (turn : TurnSummary) : Option ObservedSession :=
  s.turns.getLast?.bind fun last =>
    if turn.id = last.id ∧ (last.status.terminal → turn.status.terminal) then
      some { s with turns := s.turns.dropLast ++ [turn] }
    else none

/-- `latest_stored_turn`; a session without a turn ends the poll. -/
def read (s : ObservedSession) : Option ObservedSession :=
  if s.reading.isNone then some { s with reading := s.turns.getLast? } else none

/-- The rest of `poll_observed_session`. -/
def publish (session : SessionId) (s : ObservedSession) : Option ObservedSession :=
  s.reading.map fun turn =>
    match s.observed with
    | none => { s with reading := none }
    | some previous =>
      let s := { s with reading := none, reads := s.reads ++ [turn] }
      if previous = some turn then s
      else
        { s with
          observed := some (some turn)
          events := s.events ++ publishTurnSnapshot session previous turn
          completedTurn := if turn.status.terminal then some turn.id else s.completedTurn }

def step (session : SessionId) (s : ObservedSession) : ObservedStep → Option ObservedSession
  | .begins turn => s.begins turn
  | .changes turn => s.changes turn
  | .read => s.read
  | .publish => s.publish session
  | .detach => some { s with observed := none }

end ObservedSession

/-- A session as attach has found it: with its newest turn, or from an empty cursor. -/
structure Observation where
  session : SessionId
  turns : List TurnSummary
  found : Option TurnSummary
  distinct : (turns.map TurnSummary.id).Nodup
  ended : ∀ turn ∈ turns.dropLast, turn.status.terminal = true
  known : found = none ∨ found = turns.getLast?

namespace Observation

variable (o : Observation)

def start : ObservedSession where
  turns := o.turns
  observed := some o.found
  reading := none
  reads := []
  events := []
  completedTurn := none

def system : System ObservedSession ObservedStep := .ofStep o.start (ObservedSession.step o.session)

/-- A poll has found the turn in progress, and attach had not found it. -/
def Opened (s : ObservedSession) (id : String) : Prop :=
  o.found.map TurnSummary.id ≠ some id ∧
    ∃ first, s.reads.find? (fun turn => turn.id = id) = some first ∧ first.status = .inProgress

/-- Every turn that a poll has found in progress was read again after it had ended, when a poll
finds another one in progress. -/
def Caught (s : ObservedSession) (label : ObservedStep) : Prop :=
  label = .publish → ∀ turn previous, s.reading = some turn → s.observed = some previous →
    turn.opens previous = true → ∀ id, o.Opened s id →
      ∃ read ∈ s.reads, read.id = id ∧ read.status.terminal = true

def Closed (events : List AgentEvent) : Prop :=
  ∀ before turn after, events = before ++ .turnStarted o.session turn :: after →
    ∀ earlier, .turnStarted o.session earlier ∈ before →
      ∃ status error, .turnCompleted o.session earlier status error ∈ before

end Observation

end Agentix.Codex
