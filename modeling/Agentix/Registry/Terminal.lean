import Agentix.Lib.Run
import Mathlib.Data.List.Nodup
import Mathlib.Logic.Function.Basic

/-! # Terminal interactions

The observer of native terminals announces a prompt under a token, and the reply to it runs outside
the lock.  A step is one section of the lock, or one part of a reply between two of its awaits.
-/

namespace Agentix.Registry.Terminal

open Lib
open Function (update)

inductive AgentKind where
  | codex
  | pi
  | omp
  | claude
  | openCode
  deriving DecidableEq

structure SessionRef where
  agent : AgentKind
  nativeId : String
  deriving DecidableEq

structure TerminalInteractionTarget where
  pid : Nat
  clientId : String
  deriving DecidableEq

inductive TerminalInteractionKind where
  | choice
  | confirmation
  | unknown
  deriving DecidableEq

structure TerminalInteraction where
  kind : TerminalInteractionKind
  title : String
  detail : String
  choices : List String
  selected : Option Nat
  /-- The semantic dialog identity, excluding selection and ANSI styling. -/
  fingerprint : String
  paneId : String
  deriving DecidableEq

inductive TerminalInteractionResponse where
  | choice (index : Nat)
  | cancel
  deriving DecidableEq

/-- A `Uuid`, numbered as it is made. -/
abbrev Token := Nat

structure Inspection where
  target : TerminalInteractionTarget
  prompt : TerminalInteraction
  deriving DecidableEq

/-- What `record` compares. -/
def Inspection.Same (first second : Inspection) : Prop :=
  first.target = second.target ∧ first.prompt.fingerprint = second.prompt.fingerprint ∧
    first.prompt.paneId = second.prompt.paneId

instance (first second : Inspection) : Decidable (first.Same second) :=
  inferInstanceAs (Decidable (_ ∧ _ ∧ _))

structure Seen extends Inspection where
  observations : Nat
  token : Option Token
  answered : Bool
  deriving DecidableEq

structure Pending extends Inspection where
  session : SessionRef
  switching : Bool
  deriving DecidableEq

/-- The fields that are not the same in every terminal interaction. -/
structure InteractionRequest where
  rpcId : Token
  session : SessionRef
  title : String
  detail : String
  availableDecisions : List String
  clientId : String
  sessionSwitch : Bool
  cancelable : Bool
  deriving DecidableEq

/-- What the registry sends, what `record` sees and what the port is asked to do. -/
inductive Note where
  | interactionRequested (request : InteractionRequest)
  | interactionResolved (session : SessionRef) (token : Token)
  | sessionSwitchFailed (session : SessionRef) (clientId reason : String)
  | recorded (session : SessionRef) (inspection : Option Inspection)
  | submitted (token : Token) (selection : TerminalInteractionResponse)
  deriving DecidableEq

abbrev Result := Except String Unit

inductive Phase where
  /-- The token has been removed. -/
  | taken
  /-- The session is observed, and the adapter is asked for its target. -/
  | observed
  /-- The target is the original one, and the adapter is asked for the access. -/
  | targeted
  /-- The adapter is told about the switch. -/
  | switching (selection : TerminalInteractionResponse)
  /-- `port.respond` runs. -/
  | submitting
  /-- The adapter is told that the switch failed. -/
  | closing (result : Result)
  | returned (result : Result)
  | dropped

/-- A call of `respond` that has found its token. -/
structure Call where
  token : Token
  pending : Pending
  /-- `response["decision"].as_str()`. -/
  decision : Option String
  phase : Phase

structure State where
  observed : SessionRef → Bool
  seen : SessionRef → Option Seen
  pending : Token → Option Pending
  switches : SessionRef → Option String
  minted : Nat
  calls : Nat → Option Call
  log : List Note

/-- The events of a backend that the observer looks at. -/
inductive BackendEvent where
  | sessionSwitchStarted (clientId : String)
  | sessionSwitchFailed
  | sessionExited
  | interactionRequested
  | other

inductive Step where
  | observe (session : SessionRef)
  | unobserve (session : SessionRef)
  | beginSwitch (session : SessionRef) (clientId : String)
  | failSwitch (session : SessionRef)
  | backendEvent (session : SessionRef) (event : BackendEvent)
  /-- The loop of `spawn` finds a protocol interaction of the session. -/
  | routed (session : SessionRef)
  | record (session : SessionRef) (inspection : Option Inspection)
  | respond (call : Nat) (token : Token) (decision : Option String)
  | check (call : Nat)
  | target (call : Nat) (current : Option TerminalInteractionTarget)
  | access (call : Nat) (readOnly : Bool)
  | switched (call : Nat) (result : Result)
  | answered (call : Nat) (result : Result)
  | closed (call : Nat)
  /-- The future of a call is dropped. -/
  | drop (call : Nat)

namespace State

def start : State where
  observed := fun _ => false
  seen := fun _ => none
  pending := fun _ => none
  switches := fun _ => none
  minted := 0
  calls := fun _ => none
  log := []

variable (s : State)

def note (note : Note) : State := { s with log := s.log ++ [note] }

def observe (session : SessionRef) : State :=
  { s with observed := update s.observed session true }

def beginSwitch (session : SessionRef) (clientId : String) : State :=
  { s with switches := update s.switches session (some clientId) }

def failSwitch (session : SessionRef) : State :=
  { s with switches := update s.switches session none }

def clear (session : SessionRef) : State :=
  match s.seen session with
  | none => s
  | some seen =>
    let s := { s with seen := update s.seen session none }
    match seen.token with
    | none => s
    | some token =>
      { s with
        pending := update s.pending token none
        log := s.log ++ [.interactionResolved session token] }

def unobserve (session : SessionRef) : State :=
  State.clear
    { s with
      observed := update s.observed session false
      switches := update s.switches session none }
    session

def backendEvent (session : SessionRef) : BackendEvent → State
  | .sessionSwitchStarted clientId => s.beginSwitch session clientId
  | .sessionSwitchFailed | .sessionExited => (s.failSwitch session).clear session
  | .interactionRequested => s.clear session
  | .other => s

/-- What is announced for a prompt. -/
def announcement (token : Token) (session : SessionRef) (inspection : Inspection)
    (switching : Bool) : InteractionRequest :=
  let prompt := inspection.prompt
  let isUnknown := prompt.kind = .unknown
  { rpcId := token
    session
    title := prompt.title
    detail :=
      if isUnknown then
        "This dialog cannot be answered reliably from IM. Handle it in the original terminal (pane "
          ++ prompt.paneId ++ "). Use /rmux, /tmux, or /rex to find the pane.\n\n" ++ prompt.detail
      else
        prompt.detail
          ++ "\n\nChoose an option, or use /cancel. No default is submitted."
    availableDecisions :=
      prompt.choices ++ [if isUnknown then "Handled in terminal" else "cancel"]
    clientId := inspection.target.clientId
    sessionSwitch := switching
    cancelable := !decide isUnknown }

/-- The second observation of a prompt announces it. -/
def announce (session : SessionRef) (seen : Seen) : State :=
  let token := s.minted
  let switching := decide (s.switches session = some seen.target.clientId)
  { s with
    seen := update s.seen session (some { seen with token := some token })
    pending := update s.pending token (some ⟨seen.toInspection, session, switching⟩)
    minted := token + 1
    log := s.log ++
      [.interactionRequested (announcement token session seen.toInspection switching)] }

def record (session : SessionRef) (inspection : Option Inspection) : State :=
  if s.observed session then
    match inspection with
    | none => (s.clear session).note (.recorded session none)
    | some inspection =>
      match (s.seen session).filter fun seen => seen.toInspection.Same inspection with
      | none =>
        let s := (s.clear session).note (.recorded session (some inspection))
        { s with seen := update s.seen session (some ⟨inspection, 1, none, false⟩) }
      | some seen =>
        let s := s.note (.recorded session (some inspection))
        let seen := { seen with observations := seen.observations + 1 }
        if seen.token.isSome || seen.answered then
          { s with seen := update s.seen session (some seen) }
        else
          s.announce session seen
  else s

/-- A reply takes its token out; an unknown token is an error that changes nothing. -/
def respond (call : Nat) (token : Token) (decision : Option String) : Option State :=
  match s.calls call with
  | some _ => none
  | none =>
    match s.pending token with
    | none => some s
    | some pending =>
      some { s with
        pending := update s.pending token none
        seen := match s.seen pending.session with
          | none => s.seen
          | some seen =>
            update s.seen pending.session (some { seen with answered := true, token := none })
        calls := update s.calls call (some ⟨token, pending, decision, .taken⟩) }

def goto (call : Nat) (known : Call) (phase : Phase) : State :=
  { s with calls := update s.calls call (some { known with phase }) }

/-- The event, and what follows where the switch fails or is cancelled. -/
def finish (call : Nat) (known : Call) (result : Result) : State :=
  let cancelled := known.decision = some "cancel"
  let s := s.note (.interactionResolved known.pending.session known.token)
  if known.pending.switching ∧ (result.isOk = false ∨ cancelled) then
    s.goto call known (.closing result)
  else s.goto call known (.returned result)

/-- The port is asked to answer the prompt. -/
def submit (call : Nat) (known : Call) (selection : TerminalInteractionResponse) : State :=
  (s.note (.submitted known.token selection)).goto call known .submitting

def changed : Result :=
  .error "The original agent session changed or is no longer writable"

def check (call : Nat) : Option State :=
  (s.calls call).bind fun known =>
    match known.phase with
    | .taken =>
      some (if s.observed known.pending.session then s.goto call known .observed
        else s.finish call known changed)
    | _ => none

def target (call : Nat) (current : Option TerminalInteractionTarget) : Option State :=
  (s.calls call).bind fun known =>
    match known.phase with
    | .observed =>
      some (if current = some known.pending.target then s.goto call known .targeted
        else s.finish call known changed)
    | _ => none

def selected (prompt : TerminalInteraction) (decision : String) :
    Except String TerminalInteractionResponse :=
  if decision = "cancel" then .ok .cancel
  else
    match prompt.choices.findIdx? (· = decision) with
    | none => .error "Select a displayed terminal choice"
    | some index => .ok (.choice index)

def access (call : Nat) (readOnly : Bool) : Option State :=
  (s.calls call).bind fun known =>
    match known.phase with
    | .targeted =>
      some (if readOnly then s.finish call known changed
      else
        match known.decision with
        | none => s.finish call known (.error "Select a displayed terminal choice")
        | some decision =>
          if known.pending.prompt.kind = .unknown then
            s.finish call known (if decision = "Handled in terminal" then .ok ()
              else .error "Handle this dialog in the original terminal")
          else
            match selected known.pending.prompt decision with
            | .error reason => s.finish call known (.error reason)
            | .ok selection =>
              if known.pending.switching then s.goto call known (.switching selection)
              else s.submit call known selection)
    | _ => none

def switched (call : Nat) (result : Result) : Option State :=
  (s.calls call).bind fun known =>
    match known.phase with
    | .switching selection =>
      some (match result with
        | .ok () => s.submit call known selection
        | .error reason => s.finish call known (.error reason))
    | _ => none

def answered (call : Nat) (result : Result) : Option State :=
  (s.calls call).bind fun known =>
    match known.phase with
    | .submitting => some (s.finish call known result)
    | _ => none

def reason : Result → String
  | .ok () => "Session switch cancelled"
  | .error reason => reason

def closed (call : Nat) : Option State :=
  (s.calls call).bind fun known =>
    match known.phase with
    | .closing result =>
      some ((s.note (.sessionSwitchFailed known.pending.session known.pending.target.clientId
        (reason result))).goto call known (.returned result))
    | _ => none

def drop (call : Nat) : Option State :=
  (s.calls call).bind fun known =>
    match known.phase with
    | .returned _ | .dropped => none
    | _ => some (s.goto call known .dropped)

def step (s : State) : Step → Option State
  | .observe session => some (s.observe session)
  | .unobserve session => some (s.unobserve session)
  | .beginSwitch session clientId => some (s.beginSwitch session clientId)
  | .failSwitch session => some (s.failSwitch session)
  | .backendEvent session event => some (s.backendEvent session event)
  | .routed session => some (s.clear session)
  | .record session inspection => some (s.record session inspection)
  | .respond call token decision => s.respond call token decision
  | .check call => s.check call
  | .target call current => s.target call current
  | .access call readOnly => s.access call readOnly
  | .switched call result => s.switched call result
  | .answered call result => s.answered call result
  | .closed call => s.closed call
  | .drop call => s.drop call

def system : System State Step := .ofStep start step

end State

end Agentix.Registry.Terminal
