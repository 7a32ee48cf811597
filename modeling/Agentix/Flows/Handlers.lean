import Agentix.Bindings.Table
import Agentix.Lib.Fallible
import Agentix.Lib.Run
import Agentix.TaskStore.Text

/-! # Requests for input

What an agent asks a human, the answers given so far, and the actions that the buttons of a card
stand for.
-/

namespace Agentix.Flows

open Bindings

/-- A JSON value that names a request: a string, or another value by its text. -/
inductive RpcId where
  | string (id : String)
  | other (text : String)
  deriving DecidableEq

/-- The request identifier of an `InteractionKey`. -/
def RpcId.requestId : RpcId → String
  | .string id => id
  | .other text => text

inductive InteractionKind where
  | commandApproval
  | fileApproval
  | userInput
  deriving DecidableEq

/-- A question as `input_questions` reads it. -/
structure InputQuestion where
  id : String
  /-- The labels of the options. -/
  options : List String := []
  multiple : Bool := false
  required : Bool := true
  custom : Bool := true
  deriving DecidableEq

structure InteractionRequest where
  rpcId : RpcId
  method : String
  sessionId : SessionId
  kind : InteractionKind
  availableDecisions : List String := []
  /-- The questions that the payload has. -/
  questions : List InputQuestion := []
  /-- `payload["rejectable"] == true`, and so on for the others. -/
  rejectable : Bool := false
  cancelable : Bool := false
  sessionSwitch : Bool := false
  clientId : Option String := none

structure InteractionKey where
  sessionId : SessionId
  requestId : String
  deriving DecidableEq

def interactionKey (request : InteractionRequest) : InteractionKey :=
  ⟨request.sessionId, request.rpcId.requestId⟩

/-- `input_questions`: a request without questions asks for one value. -/
def inputQuestions (request : InteractionRequest) : List InputQuestion :=
  if request.questions = [] then [{ id := "value" }] else request.questions

/-! ## Progress -/

structure InputProgress where
  questions : List InputQuestion
  rejectRpcId : Option RpcId
  answers : List (Option (List String))
  current : Nat
  aligned : answers.length = questions.length

namespace InputProgress

def fromRequest (request : InteractionRequest) : InputProgress where
  questions := inputQuestions request
  rejectRpcId := if request.rejectable then some request.rpcId else none
  answers := (inputQuestions request).map fun _ => none
  current := 0
  aligned := by simp

def slot (progress : InputProgress) : Option (InputQuestion × Option (List String)) :=
  (progress.questions.zip progress.answers)[progress.current]?

/-- A required question wants text, or a choice of several that was made before. -/
def refuses (question : InputQuestion) (slot : Option (List String)) (answer : String) : Bool :=
  question.required && TaskStore.blank answer &&
    (!question.multiple || slot.all List.isEmpty)

/-- The choice of several stays open for further choices. -/
def toggles (question : InputQuestion) (answer : String) : Bool :=
  question.multiple && answer ≠ ""

def toggle (selected : List String) (answer : String) : List String :=
  if answer ∈ selected then selected.erase answer else selected ++ [answer]

def record (progress : InputProgress) (question : InputQuestion) (slot : Option (List String))
    (answer : String) : InputProgress :=
  let given :=
    if toggles question answer then toggle (slot.getD []) answer
    else if question.multiple then slot.getD []
    else if answer = "" then []
    else [answer]
  { progress with
    answers := progress.answers.set progress.current (some given)
    current := if toggles question answer then progress.current else progress.current + 1
    aligned := by rw [List.length_set, progress.aligned] }

def completes (progress : InputProgress) (question : InputQuestion) (answer : String) : Bool :=
  !toggles question answer && progress.current + 1 = progress.questions.length

theorem slot_lt {progress : InputProgress} {entry : InputQuestion × Option (List String)}
    (found : progress.slot = some entry) : progress.current < progress.questions.length := by
  obtain ⟨bound, -⟩ := List.getElem?_eq_some_iff.mp found
  rw [List.length_zip] at bound
  exact Nat.lt_of_lt_of_le bound (Nat.min_le_left _ _)

/-- The answer that ends the last question is the one after which there is none. -/
theorem record_lt_iff {progress : InputProgress} {question : InputQuestion}
    {slot : Option (List String)} (found : progress.slot = some (question, slot)) (answer : String) :
    (progress.record question slot answer).current <
        (progress.record question slot answer).questions.length ↔
      progress.completes question answer = false := by
  have bound := slot_lt found
  simp only [record, completes]
  cases toggles question answer with
  | true => simp [bound]
  | false =>
    simp only [Bool.false_eq_true, if_false, Bool.not_false, Bool.true_and, decide_eq_false_iff_not]
    omega

end InputProgress

/-! ## Decisions and actions -/

inductive Response where
  /-- `{"decision": decision}` -/
  | decision (decision : String)
  /-- `{"answers": …}`, by the identifiers of the questions. -/
  | answers (answers : List (String × List String))

structure InteractionDecision where
  rpcId : RpcId
  response : Response

def inputResponse (progress : InputProgress) : Response :=
  .answers ((progress.questions.zip progress.answers).filterMap fun entry =>
    entry.2.map fun answer => (entry.1.id, answer))

/-- The actions of requests. -/
inductive UiAction where
  | resolve (interaction : InteractionKey) (decision : InteractionDecision)
  | beginInput (interaction : InteractionKey)
  | selectInput (interaction : InteractionKey) (answer : String)
  | submitInput (interaction : InteractionKey)
  | beginCustomInput (interaction : InteractionKey)

/-- The actions on the current question of `input_actions`. -/
def inputActions (interaction : InteractionKey) (progress : InputProgress) : List UiAction :=
  match progress.slot with
  | none => []
  | some (question, slot) =>
    let select := question.options.map (UiAction.selectInput interaction)
    let custom := if question.custom then [UiAction.beginCustomInput interaction] else []
    let chosen := slot.any fun answers => !answers.isEmpty
    let submit := if !question.required || (question.multiple && chosen) then
      [UiAction.submitInput interaction] else []
    let reject := (progress.rejectRpcId.map fun rpcId =>
      UiAction.resolve interaction ⟨rpcId, .decision "reject"⟩).toList
    select ++ custom ++ submit ++ reject

/-- The actions of `approval_actions`. -/
def approvalActions (interaction : InteractionKey) (request : InteractionRequest) : List UiAction :=
  request.availableDecisions.map fun decision =>
    .resolve interaction ⟨request.rpcId, .decision decision⟩

end Agentix.Flows

/-! # Interaction flows

Scoped actions and human reply workflows of one attached conversation.  A handler takes the entry of
a request out of the pending ones, writes its card, which may fail, and puts the entry back.
-/

namespace Agentix.Flows

open Lib
open Bindings
open Function (update)

/-- The conversation, the session it is attached to, and the epoch of the attachment. -/
structure Attachment where
  conversation : ConversationRef
  session : Option SessionId
  /-- The owner that `owners` has for the conversation. -/
  owner : Option String
  generation : Nat
  bindingEpoch : Nat

structure MessageRef where
  conversation : ConversationRef
  messageId : String
  deriving DecidableEq

structure PendingInteractionView where
  rpcId : RpcId
  sessionSwitchClient : Option String
  terminalCancelable : Bool
  message : MessageRef
  actionGroup : String
  input : Option InputProgress

/-- `cancel` is an answer to the request, whoever gives it. -/
def PendingInteractionView.cancelable (pending : PendingInteractionView) : Bool :=
  pending.sessionSwitchClient.isSome || pending.terminalCancelable

/-- A question with the notices of it in other conversations. -/
structure QueuedQuestion where
  request : InteractionRequest
  notices : List MessageRef

/-- What a handler did to a request. -/
inductive Effect where
  | rendered (request : InteractionRequest)
  | answered (interaction : InteractionKey) (answer : String)
  /-- `resolve_interaction` took a decision. -/
  | handed (session : SessionId) (rpcId : RpcId)
  | resolvedOutside (interaction : InteractionKey)
  | invalidated (session : SessionId)

structure Interactions where
  pending : InteractionKey → Option PendingInteractionView
  /-- The entry of `reply_modes` for the conversation. -/
  replyMode : Option InteractionKey
  actions : ActionRegistry UiAction
  questions : List QueuedQuestion
  /-- The number of tokens and groups drawn so far. -/
  drawn : Nat
  log : List Effect

def Interactions.empty (questions : List QueuedQuestion) : Interactions where
  pending := fun _ => none
  replyMode := none
  actions := ⟨fun _ => none⟩
  questions := questions
  drawn := 0
  log := []

/-- The calls that a handler may make; it makes none of them twice. -/
inductive Call where
  | send
  /-- The card of a request. -/
  | update (interaction : InteractionKey)
  | notice (message : MessageRef)
  /-- The failure of a cancellation is reported. -/
  | report (interaction : InteractionKey)
  /-- `AgentRuntime::resolve_interaction` -/
  | resolve (interaction : InteractionKey)
  /-- The session switch is read, and it is the one the choice is about. -/
  | switch
  | cancelSwitch
  | terminalQueue

/-- How the calls of one handler end: with an error text, or well. -/
structure Calls where
  error : Call → Option String
  /-- The message that is sent. -/
  messageId : String

def Calls.succeeds (calls : Calls) (call : Call) : Prop := calls.error call = none

instance decidableSucceeds (calls : Calls) (call : Call) : Decidable (calls.succeeds call) :=
  inferInstanceAs (Decidable (calls.error call = none))

def invalidAction : String :=
  "the action is invalid, expired, or belongs to a different conversation"

abbrev Handler := Served Interactions

/-! ## Small steps -/

def perform (calls : Calls) (call : Call) : Handler Unit :=
  match calls.error call with
  | none => pure ()
  | some error => throw error

def edit (change : Interactions → Interactions) : Handler Unit := modify change

def noted (effect : Effect) : Handler Unit :=
  edit fun s => { s with log := s.log ++ [effect] }

def takePending (interaction : InteractionKey) : Handler (Option PendingInteractionView) := do
  let s ← get
  edit fun s => { s with pending := update s.pending interaction none }
  return s.pending interaction

def putPending (interaction : InteractionKey) (pending : PendingInteractionView) : Handler Unit :=
  edit fun s => { s with pending := update s.pending interaction (some pending) }

def takeReplyMode : Handler (Option InteractionKey) := do
  let s ← get
  edit fun s => { s with replyMode := none }
  return s.replyMode

def revokeActionGroup (groupId : String) : Handler Unit :=
  edit fun s => { s with actions := s.actions.revokeGroup groupId }

/-- A new action group. -/
def newGroup : Handler String := do
  let s ← get
  edit fun s => { s with drawn := s.drawn + 1 }
  return toString s.drawn

variable (attachment : Attachment) (calls : Calls)

def issueAction (ownerId groupId : String) (action : UiAction) : Handler Unit := do
  let token ← newGroup
  let scope : ActionScope :=
    { conversation := attachment.conversation, ownerId, connectionGeneration := attachment.generation,
      bindingEpoch := attachment.bindingEpoch, groupId }
  edit fun s => { s with actions := s.actions.issue token scope action }

/-- The buttons of a card. -/
def issueActions (ownerId groupId : String) : List UiAction → Handler Unit
  | [] => pure ()
  | action :: rest => do
    issueAction attachment ownerId groupId action
    issueActions ownerId groupId rest

def notices : List MessageRef → Handler Unit
  | [] => pure ()
  | message :: rest => do
    perform calls (.notice message)
    notices rest

/-! ## Resolutions -/

def resolveInteraction (interaction : InteractionKey) (decision : InteractionDecision) :
    Handler Unit := do
  perform calls (.resolve interaction)
  noted (.handed interaction.sessionId decision.rpcId)

def resolveExternalInteraction (interaction : InteractionKey) : Handler Unit := do
  match ← takePending interaction with
  | none => return ()
  | some pending =>
    revokeActionGroup pending.actionGroup
    edit fun s => { s with replyMode := s.replyMode.filter fun other => other ≠ interaction }
    perform calls (.update interaction)

def finishQueuedQuestion (interaction : InteractionKey) : Handler Unit := do
  let s ← get
  match s.questions.find? fun q => interactionKey q.request = interaction with
  | none => return ()
  | some question =>
    edit fun s => { s with
      questions := s.questions.eraseP fun q => interactionKey q.request = interaction }
    notices calls question.notices
    if (s.pending interaction).isSome then resolveExternalInteraction calls interaction

/-! ## Cards -/

def renderInteraction (request : InteractionRequest) (delivery : DeliveryClass) : Handler Unit := do
  let interaction := interactionKey request
  match attachment.owner with
  | none => throw invalidAction
  | some ownerId =>
    let actionGroup ← newGroup
    let input :=
      if request.kind = .userInput then some (InputProgress.fromRequest request) else none
    let actions :=
      match input with
      | some progress =>
        if delivery = .live then inputActions interaction progress
        else [.beginInput interaction]
      | none => approvalActions interaction request
    issueActions attachment ownerId actionGroup actions
    perform calls .send
    let terminal := request.method = "agentix/terminal/interaction"
    putPending interaction
      { rpcId := request.rpcId
        terminalCancelable := terminal && request.cancelable
        sessionSwitchClient :=
          if request.method = "agentix/codex/checkoutChoice" || terminal && request.sessionSwitch
          then request.clientId else none
        message := ⟨attachment.conversation, calls.messageId⟩
        actionGroup
        input }
    noted (.rendered request)

def showInputQuestion (ownerId : String) (interaction : InteractionKey) : Handler Unit := do
  match ← takePending interaction with
  | none => throw invalidAction
  | some pending =>
    match pending.input with
    | none => throw invalidAction
    | some progress =>
      let actionGroup ← newGroup
      issueActions attachment ownerId actionGroup (inputActions interaction progress)
      perform calls (.update interaction)
      putPending interaction { pending with actionGroup }

def beginCustomInput (interaction : InteractionKey) : Handler Unit := do
  match ← takePending interaction with
  | none => throw invalidAction
  | some pending =>
    match pending.input with
    | none => throw invalidAction
    | some _ =>
      perform calls (.update interaction)
      putPending interaction pending
      -- `clear_reply_inputs` takes the old reply mode with the other inputs
      edit fun s => { s with replyMode := some interaction }

def answerInput (ownerId : String) (interaction : InteractionKey) (answer : String) :
    Handler Unit := do
  if attachment.session ≠ some interaction.sessionId then throw invalidAction
  else
    match ← takePending interaction with
    | none => throw invalidAction
    | some pending =>
      match pending.input with
      | none => throw invalidAction
      | some progress =>
        match progress.slot with
        | none => throw invalidAction
        | some (question, slot) =>
          if InputProgress.refuses question slot answer then
            putPending interaction pending
            throw invalidAction
          else
            let progress := progress.record question slot answer
            noted (.answered interaction answer)
            if progress.current < progress.questions.length then
              let actionGroup ← newGroup
              issueActions attachment ownerId actionGroup (inputActions interaction progress)
              perform calls (.update interaction)
              putPending interaction { pending with input := some progress, actionGroup }
            else
              resolveInteraction calls interaction ⟨pending.rpcId, inputResponse progress⟩
              finishQueuedQuestion calls interaction
              perform calls (.update interaction)

/-! ## Cancellation -/

/-- One choice of `cancel_checkout_choices`. -/
def cancelChoice (interaction : InteractionKey) : Handler Unit := do
  match ← takePending interaction with
  | none => return ()
  | some pending =>
    revokeActionGroup pending.actionGroup
    if calls.succeeds (.resolve interaction) then
      noted (.handed interaction.sessionId pending.rpcId)
    if pending.sessionSwitchClient.isSome then perform calls .cancelSwitch
    perform calls (.update interaction)
    if ¬ calls.succeeds (.resolve interaction) then perform calls (.report interaction)

def cancelChoices : List InteractionKey → Handler Unit
  | [] => pure ()
  | interaction :: rest => do
    cancelChoice calls interaction
    cancelChoices rest

def Interactions.choices (s : Interactions) (order : List InteractionKey) : List InteractionKey :=
  order.filter fun interaction => (s.pending interaction).any fun pending =>
    pending.message.conversation = attachment.conversation && pending.cancelable

def cancelPendingReply (ownerId : String) (order : List InteractionKey) : Handler Unit := do
  let s ← get
  cancelChoices calls (s.choices attachment order)
  perform calls .terminalQueue
  match ← takeReplyMode with
  | none => perform calls .send
  | some interaction =>
    showInputQuestion attachment calls ownerId interaction
    perform calls .send

/-! ## Actions -/

/-- The action of a button.  A card that cannot be disabled is only logged. -/
def runAction (ownerId : String) : UiAction → Handler Unit
  | .resolve interaction decision => do
    let s ← get
    if ((s.pending interaction).bind PendingInteractionView.sessionSwitchClient).isSome then
      perform calls .switch
    let pending ← takePending interaction
    resolveInteraction calls interaction decision
    finishQueuedQuestion calls interaction
    if pending.isSome then perform calls (.update interaction)
  | .beginInput interaction => showInputQuestion attachment calls ownerId interaction
  | .selectInput interaction answer => answerInput attachment calls ownerId interaction answer
  | .submitInput interaction => answerInput attachment calls ownerId interaction ""
  | .beginCustomInput interaction => beginCustomInput calls interaction

def Interactions.consumed (s : Interactions) (ownerId token : String) :
    Except ActionTokenError UiAction × ActionRegistry UiAction :=
  s.actions.consume token attachment.conversation ownerId attachment.generation
    attachment.bindingEpoch

def handleAction (ownerId token : String) : Handler Unit := do
  let s ← get
  edit fun s => { s with actions := (s.consumed attachment ownerId token).2 }
  match (s.consumed attachment ownerId token).1 with
  | .error _ => throw invalidAction
  | .ok action => runAction attachment calls ownerId action

def handleReply (ownerId text : String) : Handler Unit := do
  match ← takeReplyMode with
  | none => return ()
  | some interaction => answerInput attachment calls ownerId interaction text

/-- `AgentEvent::InteractionResolved` -/
def handleResolved (interaction : InteractionKey) : Handler Unit := do
  noted (.resolvedOutside interaction)
  finishQueuedQuestion calls interaction
  resolveExternalInteraction calls interaction

def invalidateSessionActions (session : SessionId) : Handler Unit := do
  noted (.invalidated session)
  edit fun s => { s with
    questions := s.questions.filter fun q => q.request.sessionId ≠ session
    actions := s.actions.retain fun registered =>
      match registered.value with
      | .resolve interaction _ | .beginInput interaction | .selectInput interaction _
      | .submitInput interaction | .beginCustomInput interaction =>
        interaction.sessionId ≠ session
    pending := fun interaction =>
      if interaction.sessionId = session then none else s.pending interaction
    replyMode := s.replyMode.filter fun interaction => interaction.sessionId ≠ session }

/-! ## Runs -/

inductive Event where
  | render (request : InteractionRequest) (delivery : DeliveryClass)
  | action (ownerId token : String)
  | reply (ownerId text : String)
  | cancel (ownerId : String) (order : List InteractionKey)
  | resolved (interaction : InteractionKey)
  | invalidate (session : SessionId)

def handle : Event → Handler Unit
  | .render request delivery => renderInteraction attachment calls request delivery
  | .action ownerId token => handleAction attachment calls ownerId token
  | .reply ownerId text => handleReply attachment calls ownerId text
  | .cancel ownerId order => cancelPendingReply attachment calls ownerId order
  | .resolved interaction => handleResolved calls interaction
  | .invalidate session => invalidateSessionActions session

/-- One handler at a time, each with the outcomes of its calls. -/
def conversation (questions : List QueuedQuestion) : System Interactions (Event × Calls) where
  start := .empty questions
  step s label s' := s' = (Served.run (handle attachment label.2 label.1) s).2

end Agentix.Flows
