import Agentix.Lib.Run

/-! # One writer for each card

A logical card counts the revisions of its updates, remembers through which of them its actions
are disabled, and lets one call at a time write to the channel.  The calls run interleaved, between
any two of their steps; the channel, the callers' validity checks and cancellations answer as they
like.
-/

namespace Agentix.Cards

open Lib

/-! ## What is written -/

structure ActionButton where
  label : String
  disabled : Bool
  deriving DecidableEq

structure OutboundView where
  title : String
  actions : List ActionButton
  deriving DecidableEq

/-- Whether some action can still be clicked. -/
def OutboundView.enabled (view : OutboundView) : Bool :=
  view.actions.any fun action => !action.disabled

def OutboundView.disable (view : OutboundView) : OutboundView :=
  { view with actions := view.actions.map fun action => { action with disabled := true } }

@[simp] theorem OutboundView.disable_enabled (view : OutboundView) :
    view.disable.enabled = false := by
  simp [enabled, disable]

abbrev MessageRef := String

inductive ChannelError where
  | notSent (text : String)
  | transport (text : String)
  | rejected (text : String)
  | invalidPayload (text : String)
  deriving DecidableEq

/-- The provider has not committed the operation. -/
def ChannelError.definite : ChannelError → Bool
  | .notSent _ | .rejected _ | .invalidPayload _ => true
  | .transport _ => false

/-! ## Delivery attempts -/

inductive Phase where
  | waiting
  | invalidated
  | inFlight
  deriving DecidableEq

def Phase.notDispatched : Phase → Bool
  | .waiting | .invalidated => true
  | .inFlight => false

/-- What `DeliveryAttempt::run` makes of the operation's result.  A response that times out counts
as a transport error. -/
def Phase.outcome {α : Type} (phase : Phase) :
    Except ChannelError α → Except ChannelError α
  | .error (.transport text) =>
    if phase.notDispatched then .error (.notSent text) else .error (.transport text)
  | result => result

structure CardState where
  target : Option MessageRef
  replacementUncertain : Bool := false
  replaced : Bool := false
  appliedRevision : Nat := 0
  deriving DecidableEq

structure Card where
  latest : Nat := 0
  disabledThrough : Nat := 0
  retain : Bool := false
  state : CardState
  deriving DecidableEq

structure WriteAttempt where
  previous : Option MessageRef
  replacement : Bool
  delivery : Phase := .inFlight
  deriving DecidableEq

/-- `WriteAttempt::new`: the target is taken out until the outcome is known. -/
def Card.attempt (card : Card) (replacement : Bool) : Card × WriteAttempt :=
  ({ card with
      retain := true
      state := { card.state with
        target := none
        replacementUncertain := replacement || card.state.replacementUncertain } },
    { previous := card.state.target, replacement })

def Card.restore (card : Card) (attempt : WriteAttempt) : Card :=
  { card with
    retain := card.state.replaced || attempt.previous.isNone
    state := { card.state with
      target := attempt.previous
      replacementUncertain := card.state.replacementUncertain && !attempt.replacement } }

def Card.finish {α : Type} (card : Card) (attempt : WriteAttempt) :
    Except ChannelError α → Card
  | .ok _ => card.restore attempt
  | .error error => if error.definite then card.restore attempt else card

/-- An attempt is dropped before it has an outcome. -/
def Card.drop (card : Card) (attempt : WriteAttempt) : Card :=
  if attempt.delivery.notDispatched then card.restore attempt else card

/-- A successful `send` replaces the card's message. -/
def Card.replace (card : Card) (number : Nat) (replacement : MessageRef) : Card :=
  { card with
    state :=
      { target := some replacement
        replaced := true
        appliedRevision := number
        replacementUncertain := false } }

def Card.apply (card : Card) (number : Nat) : Card :=
  { card with state := { card.state with appliedRevision := number } }

def Card.mask (card : Card) (number : Nat) (view : OutboundView) : OutboundView :=
  if number ≤ card.disabledThrough ∧ view.enabled then view.disable else view

/-! ## Calls -/

/-- Where an `update_if` is. -/
inductive UpdatePoint where
  | entered
  | locking
  | locked
  | validating
  | updating (attempt : WriteAttempt)
  | retired
  | revalidating
  | sending (attempt : WriteAttempt)
  deriving DecidableEq

/-- Where a `disable` is. -/
inductive DisablePoint where
  | entered
  | barred (barrier : Nat)
  | locking (barrier : Nat)
  | locked (barrier : Nat)
  | disabling (barrier : Nat) (attempt : WriteAttempt)
  deriving DecidableEq

inductive Call where
  | idle
  | update (number : Nat) (view : OutboundView) (point : UpdatePoint)
  | disable (point : DisablePoint)
  | returned
  deriving DecidableEq

/-- What happened to the card, oldest first.  Only updates and disables that returned `Ok` of a
write, or of nothing left to write, are listed. -/
inductive Event where
  | reserved (number : Nat)
  | updated (call number : Nat) (view : OutboundView)
  | disabling (call : Nat)
  | disabled (call barrier : Nat)
  deriving DecidableEq

structure State where
  card : Card
  /-- The call that holds the lock of the card's state. -/
  holder : Option Nat
  calls : Nat → Call
  log : List Event

namespace State

def start (message : MessageRef) : State where
  card := { state := { target := some message } }
  holder := none
  calls _ := .idle
  log := []

def goto (s : State) (id : Nat) (call : Call) : State :=
  { s with calls := Function.update s.calls id call }

def withCard (s : State) (card : Card) : State :=
  { s with card }

def emit (s : State) (event : Event) : State :=
  { s with log := s.log ++ [event] }

/-- The call is over, and the lock it may hold is free. -/
def leave (s : State) (id : Nat) : State :=
  { s with
    holder := if s.holder = some id then none else s.holder
    calls := Function.update s.calls id .returned }

def acquire (s : State) (id : Nat) : State :=
  { s with holder := some id }

def reserve (s : State) : State :=
  let number := s.card.latest + 1
  (s.withCard { s.card with latest := number }).emit (.reserved number)

/-! ## `update_if` -/

/-- The replacement is sent; nothing was known of the message before, or it was retired. -/
def send (s : State) (id number : Nat) (view : OutboundView) : State :=
  let (card, attempt) := s.card.attempt true
  (s.withCard card).goto id (.update number view (.sending attempt))

/-- The call holds the lock, and its revision is current and valid. -/
def write (s : State) (id number : Nat) (view : OutboundView) : State :=
  if s.card.state.replacementUncertain then s.leave id
  else
    let view := s.card.mask number view
    match s.card.state.target with
    | some _ =>
      let (card, attempt) := s.card.attempt false
      (s.withCard card).goto id (.update number view (.updating attempt))
    | none => s.goto id (.update number view .retired)

def updateAnswered (s : State) (id number : Nat) (view : OutboundView) (attempt : WriteAttempt)
    (result : Except ChannelError MessageRef) : State :=
  let card := s.card.finish attempt result
  match result with
  | .ok _ => ((s.withCard (card.apply number)).emit (.updated id number view)).leave id
  | .error error =>
    if error.definite then (s.withCard card).leave id
    else (s.withCard card).goto id (.update number view .retired)

def sendAnswered (s : State) (id number : Nat) (view : OutboundView) (attempt : WriteAttempt)
    (result : Except ChannelError MessageRef) : State :=
  let card := s.card.finish attempt result
  match result with
  | .ok replacement =>
    ((s.withCard (card.replace number replacement)).emit (.updated id number view)).leave id
  | .error _ => (s.withCard card).leave id

/-- The scope check at the dispatch of an attempt: an attempt that is not valid any more is given
up, and its card restored. -/
def dispatchUpdate (s : State) (id number : Nat) (view : OutboundView)
    (point : WriteAttempt → UpdatePoint) (attempt : WriteAttempt) (valid : Bool) : State :=
  if valid && s.card.latest == number then
    s.goto id (.update number view (point { attempt with delivery := .inFlight }))
  else (s.withCard (s.card.restore { attempt with delivery := .invalidated })).leave id

/-! ## `disable` -/

/-- The call holds the lock. -/
def disableActions (s : State) (id barrier : Nat) : State :=
  if barrier < s.card.state.appliedRevision then (s.emit (.disabled id barrier)).leave id
  else
    match s.card.state.target with
    | none => (s.emit (.disabled id barrier)).leave id
    | some _ =>
      let (card, attempt) := s.card.attempt false
      (s.withCard card).goto id (.disable (.disabling barrier attempt))

def disableAnswered (s : State) (id barrier : Nat) (attempt : WriteAttempt)
    (result : Except ChannelError MessageRef) : State :=
  let card := s.card.finish attempt result
  match result with
  | .ok _ => ((s.withCard card).emit (.disabled id barrier)).leave id
  | .error _ => (s.withCard card).leave id

end State

/-! ## Steps -/

/-- One step of one call, with the answers it gets from outside. -/
inductive Label where
  | reserve
  | update (call number : Nat) (view : OutboundView)
  | disable (call : Nat)
  /-- The call goes on by itself. -/
  | advance (call : Nat)
  /-- The call's `valid` answered. -/
  | validated (call : Nat) (valid : Bool)
  /-- The channel queues the attempt, or queues it again. -/
  | queued (call : Nat)
  /-- The channel is about to send the attempt. -/
  | dispatch (call : Nat) (valid : Bool)
  | answered (call : Nat) (result : Except ChannelError MessageRef)
  | cancel (call : Nat)

namespace State

/-- The call's own steps: the loads and stores of the card's counters and the lock. -/
def advance (s : State) (id : Nat) : Option State :=
  match s.calls id with
  | .update number view .entered =>
    if s.card.latest = number then some (s.goto id (.update number view .locking))
    else some (s.leave id)
  | .update number view .locking =>
    if s.holder = none then some ((s.acquire id).goto id (.update number view .locked)) else none
  | .update number view .locked =>
    if s.card.latest = number then some (s.goto id (.update number view .validating))
    else some (s.leave id)
  | .update number view .retired =>
    -- an older state is never replayed: the revision may have changed during the attempt
    if s.card.latest = number then some (s.goto id (.update number view .revalidating))
    else some (s.leave id)
  | .disable .entered => some (s.goto id (.disable (.barred s.card.latest)))
  | .disable (.barred barrier) =>
    some ((s.withCard { s.card with
      disabledThrough := max s.card.disabledThrough barrier }).goto id
        (.disable (.locking barrier)))
  | .disable (.locking barrier) =>
    if s.holder = none then some ((s.acquire id).goto id (.disable (.locked barrier))) else none
  | .disable (.locked barrier) => some (s.disableActions id barrier)
  | _ => none

def validated (s : State) (id : Nat) (valid : Bool) : Option State :=
  match s.calls id with
  | .update number view .validating =>
    if valid then some (s.write id number view) else some (s.leave id)
  | .update number view .revalidating =>
    if valid then some (s.send id number view) else some (s.leave id)
  | _ => none

def queued (s : State) (id : Nat) : Option State :=
  match s.calls id with
  | .update number view (.updating attempt) =>
    some (s.goto id (.update number view (.updating { attempt with delivery := .waiting })))
  | .update number view (.sending attempt) =>
    some (s.goto id (.update number view (.sending { attempt with delivery := .waiting })))
  | .disable (.disabling barrier attempt) =>
    some (s.goto id (.disable (.disabling barrier { attempt with delivery := .waiting })))
  | _ => none

def dispatch (s : State) (id : Nat) (valid : Bool) : Option State :=
  match s.calls id with
  | .update number view (.updating attempt) =>
    some (s.dispatchUpdate id number view .updating attempt valid)
  | .update number view (.sending attempt) =>
    some (s.dispatchUpdate id number view .sending attempt valid)
  | .disable (.disabling barrier attempt) =>
    some (s.goto id (.disable (.disabling barrier { attempt with delivery := .inFlight })))
  | _ => none

def answered (s : State) (id : Nat) (result : Except ChannelError MessageRef) : Option State :=
  match s.calls id with
  | .update number view (.updating attempt) =>
    some (s.updateAnswered id number view attempt (attempt.delivery.outcome result))
  | .update number view (.sending attempt) =>
    some (s.sendAnswered id number view attempt (attempt.delivery.outcome result))
  | .disable (.disabling barrier attempt) =>
    some (s.disableAnswered id barrier attempt (attempt.delivery.outcome result))
  | _ => none

/-- A call is dropped where it awaits something. -/
def cancel (s : State) (id : Nat) : Option State :=
  match s.calls id with
  | .update _ _ (.updating attempt) | .update _ _ (.sending attempt)
  | .disable (.disabling _ attempt) => some ((s.withCard (s.card.drop attempt)).leave id)
  | .update _ _ .entered | .update _ _ .locking | .update _ _ .validating
  | .update _ _ .revalidating | .disable .entered | .disable (.locking _) => some (s.leave id)
  | _ => none

def step (s : State) : Label → Option State
  | .reserve => some s.reserve
  | .update id number view =>
    if s.calls id = .idle ∧ 1 ≤ number ∧ number ≤ s.card.latest then
      some (s.goto id (.update number view .entered))
    else none
  | .disable id =>
    if s.calls id = .idle then some ((s.emit (.disabling id)).goto id (.disable .entered))
    else none
  | .advance id => s.advance id
  | .validated id valid => s.validated id valid
  | .queued id => s.queued id
  | .dispatch id valid => s.dispatch id valid
  | .answered id result => s.answered id result
  | .cancel id => s.cancel id

end State

def card (message : MessageRef) : System State Label :=
  .ofStep (.start message) State.step

end Agentix.Cards
