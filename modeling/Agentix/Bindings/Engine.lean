import Agentix.Bindings.Table
import Agentix.Lib.Rows
import Agentix.Lib.Run

/-! # Persisted bindings

The tables `bindings`, `binding_epochs` and `session_switches` of the database, and the
transactions on them.  A transaction that fails leaves the tables as they were.
-/

namespace Agentix.Bindings

open Lib
open Function (update)

/-- A row of `bindings`, in the order of their attachment. -/
structure BindingRow where
  conversation : ConversationRef
  session : SessionId
  epoch : Nat
  deriving DecidableEq

/-- A handoff of a conversation to the session that replaces its own. -/
structure SessionSwitch where
  id : String
  conversation : ConversationRef
  oldSession : SessionId
  target : Option SessionId := none
  epoch : Nat
  paused : Option String := none
  revision : Nat := 0
  deriving DecidableEq

structure SwitchRow where
  id : String
  conversation : ConversationRef
  revision : Nat
  payload : SessionSwitch
  deriving DecidableEq

structure SqliteState where
  bindings : List BindingRow
  bindingEpochs : ConversationRef → Option Nat
  sessionSwitches : List SwitchRow

namespace SqliteState

def empty : SqliteState := ⟨[], fun _ => none, []⟩

/-- `INSERT … VALUES (?, ?, 1) ON CONFLICT … DO UPDATE SET epoch = epoch + 1`. -/
def bumped (epochs : ConversationRef → Option Nat) (conversation : ConversationRef) :
    ConversationRef → Option Nat :=
  update epochs conversation (some ((epochs conversation).elim 1 (· + 1)))

/-- `SELECT epoch FROM binding_epochs`, zero for a conversation without a row. -/
def epochOf (state : SqliteState) (conversation : ConversationRef) : Nat :=
  (state.bindingEpochs conversation).getD 0

def rowOf (state : SqliteState) (conversation : ConversationRef) : Option BindingRow :=
  Lib.rowOf state.bindings BindingRow.conversation conversation

def rowOfSession (state : SqliteState) (session : SessionId) : Option BindingRow :=
  Lib.rowOf state.bindings BindingRow.session session

def attach (state : SqliteState) (conversation : ConversationRef) (session : SessionId) :
    AttachOutcome × SqliteState :=
  let previousSession := (state.rowOf conversation).map BindingRow.session
  let displacedConversation := (state.rowOfSession session).map BindingRow.conversation
  let kept := (state.bindings.filter fun row => row.conversation ≠ conversation).filter
    fun row => row.session ≠ session
  let state := { state with bindingEpochs := bumped state.bindingEpochs conversation }
  let epoch := state.epochOf conversation
  ({ previousSession := previousSession.filter (· ≠ session)
     displacedConversation := displacedConversation.filter (· ≠ conversation)
     epoch },
    { state with bindings := kept ++ [⟨conversation, session, epoch⟩] })

def bindingEpoch (state : SqliteState) (conversation : ConversationRef) : Option Nat :=
  (state.rowOf conversation).map BindingRow.epoch

def detach (state : SqliteState) (conversation : ConversationRef) : SqliteState :=
  { state with
    bindings := state.bindings.filter fun row => row.conversation ≠ conversation
    bindingEpochs := bumped state.bindingEpochs conversation }

/-- Invalidates actions for a temporarily unavailable binding without forgetting which session
should be reattached when it returns. -/
def suspend (state : SqliteState) (conversation : ConversationRef) : Option (Nat × SqliteState) :=
  let bindingEpochs := bumped state.bindingEpochs conversation
  let epoch := (bindingEpochs conversation).getD 0
  if (state.rowOf conversation).isNone then none
  else
    some (epoch, { state with
      bindings := alter BindingRow.conversation conversation (fun row => { row with epoch })
        state.bindings
      bindingEpochs })

/-! ## Session switches -/

def sessionSwitch (state : SqliteState) (conversation : ConversationRef) : Option SessionSwitch :=
  (Lib.rowOf state.sessionSwitches SwitchRow.conversation conversation).map SwitchRow.payload

def saveSessionSwitch (state : SqliteState) (switch : SessionSwitch) : SessionSwitch × SqliteState :=
  let next := { switch with revision := switch.revision + 1 }
  if switch.revision = 0 then
    let taken := state.sessionSwitches.any fun row =>
      row.id = switch.id || row.conversation = switch.conversation
    let bound := state.bindings.any fun row => row.conversation = switch.conversation &&
      row.session = switch.oldSession && row.epoch = switch.epoch
    if !taken && bound then
      (next, { state with sessionSwitches := state.sessionSwitches ++
        [⟨switch.id, switch.conversation, 1, next⟩] })
    else (switch, state)
  else if state.sessionSwitches.any (fun row =>
      row.id = switch.id && row.revision = switch.revision) then
    let sessionSwitches := alter SwitchRow.id switch.id
      (fun row => { row with revision := row.revision + 1, payload := next })
      state.sessionSwitches
    (next, { state with sessionSwitches })
  else (switch, state)

def deleteSessionSwitch (state : SqliteState) (switch : SessionSwitch) : SqliteState :=
  { state with sessionSwitches := state.sessionSwitches.filter fun row =>
      !(row.id = switch.id && row.revision = switch.revision) }

/-- The row that a switch moves to its target, if nothing else came first. -/
def switchable (state : SqliteState) (switch : SessionSwitch) (target : SessionId) : Bool :=
  (state.bindings.any fun row => row.conversation = switch.conversation &&
      row.session = switch.oldSession && row.epoch = switch.epoch) &&
    (state.bindings.all fun row => row.session ≠ target) &&
    state.sessionSwitches.any fun row => row.id = switch.id && row.revision = switch.revision

/-- Move the binding and durable FIFO together; a different attachment wins. -/
def completeSessionSwitch (state : SqliteState) (switch : SessionSwitch) (target : SessionId) :
    Option (SessionSwitch × SqliteState) :=
  let next := { switch with
    target := some target, epoch := switch.epoch + 1, revision := switch.revision + 1 }
  if state.switchable switch target then
    some (next, { state with
      bindings := alter BindingRow.conversation switch.conversation
        (fun row => { row with session := target, epoch := row.epoch + 1 }) state.bindings
      bindingEpochs := update state.bindingEpochs switch.conversation
        ((state.bindingEpochs switch.conversation).map (· + 1))
      sessionSwitches := alter SwitchRow.id next.id
        (fun row => { row with revision := next.revision, payload := next })
        state.sessionSwitches })
  else none

end SqliteState

end Agentix.Bindings

/-! # Binding transitions of the engine

The engine commits every transition to the database first and then to the table in memory.  At a
restart the table is rebuilt from the database.
-/

namespace Agentix.Bindings

open Lib
open Function (update)

structure World where
  table : BindingTable
  state : SqliteState

/-- What a session's agent answers when it is attached once more. -/
inductive RestoredBindingStatus where
  | attached
  | offline
  | detached
  deriving DecidableEq

namespace World

def empty : World := ⟨.empty, .empty⟩

/-- `SessionService::commit_binding`. -/
def commitBinding (world : World) (conversation : ConversationRef) (session : SessionId)
    (previousActive : Bool) : World :=
  let (persistent, state) := world.state.attach conversation session
  let (_, table) :=
    world.table.attachAtEpoch conversation session previousActive persistent.epoch
  { table, state }

/-- `SessionService::commit_detach`. -/
def commitDetach (world : World) (conversation : ConversationRef) (active : Bool) : World where
  table := (world.table.detach conversation active).2
  state := world.state.detach conversation

def pendingSwitch (state : SqliteState) (conversation : ConversationRef) : Option SessionSwitch :=
  (state.sessionSwitch conversation).filter fun switch =>
    switch.target.isNone && switch.paused.isNone

/-- The binding part of `Engine::handle_session_exit`. -/
def handleSessionExit (world : World) (session : SessionId) : World :=
  match world.table.boundConversation session with
  | none => world
  | some conversation =>
    if (pendingSwitch world.state conversation).any fun switch => switch.oldSession = session then
      world
    else match world.state.suspend conversation with
      | none => world
      | some (_, state) => { table := (world.table.detach conversation false).2, state }

/-- The binding part of `Engine::handle_session_resume`, for a conversation of a running channel. -/
def handleSessionResume (world : World) (session : SessionId) : World :=
  match world.state.rowOfSession session with
  | none => world
  | some row =>
    if world.table.currentSession row.conversation = some session then world
    else
      match world.state.bindingEpoch row.conversation with
      | none => world
      | some epoch =>
        { world with
          table := (world.table.attachAtEpoch row.conversation session false epoch).2 }

/-- The binding part of `Engine::replace_session`, for one switch. -/
def replaceSession (world : World) (switch : SessionSwitch) (target : SessionId) : World :=
  match world.state.completeSessionSwitch switch target with
  | none => world
  | some (next, state) =>
    { table := (world.table.attachAtEpoch next.conversation target false next.epoch).2, state }

/-- `SessionService::restore_binding`. -/
def restoreBinding (world : World) (status : RestoredBindingStatus)
    (conversation : ConversationRef) (session : SessionId) : World :=
  match pendingSwitch world.state conversation with
  | some switch =>
    { world with table := (world.table.attachAtEpoch conversation session false switch.epoch).2 }
  | none =>
    if status = .detached then { world with state := world.state.detach conversation }
    else match world.state.bindingEpoch conversation with
      | none => world
      | some epoch =>
        { world with table := (world.table.attachAtEpoch conversation session false epoch).2 }

/-- The bindings of `Engine::restore_bindings_deferred`, one after another. -/
def restoreEach (status : ConversationRef → RestoredBindingStatus) :
    List BindingRow → World → World
  | [], world => world
  | row :: rest, world =>
    restoreEach status rest
      (world.restoreBinding (status row.conversation) row.conversation row.session)

/-- A new process with the same database. -/
def restart (world : World) (status : ConversationRef → RestoredBindingStatus) : World :=
  restoreEach status world.state.bindings { world with table := .empty }

end World

inductive Action where
  | attach (conversation : ConversationRef) (session : SessionId) (previousActive : Bool)
  | detach (conversation : ConversationRef) (active : Bool)
  | exit (session : SessionId)
  | resume (session : SessionId)
  | saveSwitch (switch : SessionSwitch)
  | deleteSwitch (switch : SessionSwitch)
  | replace (switch : SessionSwitch) (target : SessionId)
  | finishDraining (session : SessionId)
  | restart (status : ConversationRef → RestoredBindingStatus)

def World.after (world : World) : Action → World
  | .attach conversation session previousActive =>
    world.commitBinding conversation session previousActive
  | .detach conversation active => world.commitDetach conversation active
  | .exit session => world.handleSessionExit session
  | .resume session => world.handleSessionResume session
  | .saveSwitch switch => { world with state := (world.state.saveSessionSwitch switch).2 }
  | .deleteSwitch switch => { world with state := world.state.deleteSessionSwitch switch }
  | .replace switch target => world.replaceSession switch target
  | .finishDraining session => { world with table := world.table.finishDraining session }
  | .restart status => world.restart status

/-- The transitions, one at a time. -/
def engine : System World Action where
  start := .empty
  step world action world' := world' = world.after action

end Agentix.Bindings
