import Agentix.Lib.Entries
import Agentix.Lib.Run
import Agentix.Registry.State
import Agentix.TaskStore.Text
import Mathlib.Data.Finset.Card
import Mathlib.Data.List.Perm.Basic
import Mathlib.Logic.Function.Basic

/-! # Questions of the command line

The registry sees the questions of a session in the frames of its connections, and learns from the
answers, from the responses to accepted inputs and from the server that they are closed.
-/

namespace Agentix.Registry.Questions

open Lib
open TaskStore (isWhitespace)
open Function (update)

/-- What else the registry calls of `serde_json`. -/
class Values where
  parse : String → Option Json
  equal : Json → Json → Bool

/-! ## Requests -/

inductive InteractionKind where
  | commandApproval
  | fileApproval
  | userInput
  deriving DecidableEq

structure InteractionRequest where
  rpcId : Json
  method : String
  sessionId : String
  turnId : String
  itemId : Option String
  kind : InteractionKind

inductive AgentEvent where
  | interactionRequested (request : InteractionRequest)
  | interactionResolved (sessionId requestId : String)

/-- A question in the metadata of a message. -/
def asyncQuestion (value : Json) : Option InteractionRequest := do
  let params := value.index "params"
  let item := params.index "item"
  if (value.index "method").asStr ≠ some "item/completed" then none
  else if (item.index "type").asStr ≠ some "agentMessage" then none
  else
    let titles ← (item.index "questions").asArray
    if titles.isEmpty then none
    else
      let session ← (params.index "threadId").asStr
      let turn ← (params.index "turnId").asStr
      let itemId ← (item.index "id").asStr
      if titles.all fun question => (question.index "title").asStr.isSome then
        some {
          rpcId := .object [("agentixAsyncQuestion", .object [("threadId", .string session),
            ("itemId", .string itemId), ("questions", .array titles)])]
          method := "agentix/asyncUserInput"
          sessionId := session
          turnId := turn
          itemId := some itemId
          kind := .userInput }
      else none

inductive ServerMessage where
  | interaction (request : InteractionRequest)
  | interactionResolved
  | other

def interactionKind : String → Option InteractionKind
  | "item/commandExecution/requestApproval" => some .commandApproval
  | "item/fileChange/requestApproval" => some .fileApproval
  | "item/tool/requestUserInput" | "tool/requestUserInput" => some .userInput
  | _ => none

def decodeInteraction (id : Json) (method : String) (params : Json) : Option InteractionRequest := do
  let kind ← interactionKind method
  let sessionId ← (params.get? "threadId").bind Json.asStr
  let turnId ← (params.get? "turnId").bind Json.asStr
  let itemId := (params.get? "itemId").bind Json.asStr
  some { rpcId := id, method, sessionId, turnId, itemId, kind }

/-- `decode_server_frame`, where responses, other events and errors are the same. -/
def decodeServerFrame (value : Json) : ServerMessage :=
  match (value.get? "method").bind Json.asStr with
  | none => .other
  | some method =>
    let params := (value.get? "params").getD .null
    match value.get? "id" with
    | some id => (decodeInteraction id method params).elim .other .interaction
    | none =>
      if method = "serverRequest/resolved" && ((params.get? "threadId").bind Json.asStr).isSome then
        .interactionResolved
      else .other

/-! ## Answers in an input -/

def trim (text : List Char) : List Char :=
  ((text.dropWhile isWhitespace).reverse.dropWhile isWhitespace).reverse

def stripPrefix (lead text : List Char) : Option (List Char) :=
  if lead.isPrefixOf text then some (text.drop lead.length) else none

def stripSuffix (tail text : List Char) : Option (List Char) :=
  if tail.isSuffixOf text then some (text.take (text.length - tail.length)) else none

/-- `text.split("\n\n")`. -/
def splitBlocks : List Char → List (List Char)
  | '\n' :: '\n' :: rest => [] :: splitBlocks rest
  | c :: rest =>
    match splitBlocks rest with
    | [] => [[c]]
    | block :: blocks => (c :: block) :: blocks
  | [] => [[]]

def questionsOf (request : InteractionRequest) : Option (List Json) :=
  ((request.rpcId.index "agentixAsyncQuestion").index "questions").asArray

def questionCount (request : InteractionRequest) : Nat := (questionsOf request).elim 0 List.length

def answeredIndices (questions : List Json) (answers : Json → Bool) : List Nat :=
  (List.range questions.length).filter fun index => questions[index]?.any answers

section Answers

variable [Values]

def repliesTo (answers : List Json) (question : Json) : Bool :=
  answers.any fun answer =>
    Values.equal (answer.index "question") (question.index "title") &&
      (answer.index "answer").asStr.any fun text => !text.toList.all isWhitespace

def answersIn (text : List Char) (question : Json) : Bool :=
  (question.index "title").asStr.any fun title =>
    (splitBlocks text).any fun block =>
      ((stripPrefix title.toList block).bind (stripPrefix ['\n'])).any fun answer =>
        !answer.all isWhitespace

def asyncQuestionAnswers (request : InteractionRequest) (text : String) : List Nat :=
  match questionsOf request with
  | none => []
  | some questions =>
    let text := trim text.toList
    match stripPrefix "<send_user_message_question_reply>".toList text with
    | some body =>
      match (stripSuffix "</send_user_message_question_reply>".toList body).bind fun body =>
          Values.parse (String.ofList body) with
      | some (.array answers) => answeredIndices questions (repliesTo answers)
      | _ => []
    | none => answeredIndices questions (answersIn text)

end Answers

/-! ## State -/

structure PendingQuestion where
  request : InteractionRequest
  connections : Finset Nat
  answered : Finset Nat

structure SubmittedAnswers where
  key : String
  indices : List Nat

/-- What happened since the last reset. -/
inductive Entry where
  | requested (key : String) (request : InteractionRequest)
  /-- `accepted` tells whether accepted inputs closed the question. -/
  | resolved (key : String) (request : InteractionRequest) (accepted : Bool)
  /-- A question was on a connection. -/
  | observed (connection : Nat) (key : String)
  /-- A request of a client; the input of one follows it. -/
  | sent (connection : Nat) (id : String)
  | submitted (connection : Nat) (id thread text : String)
  | responded (connection : Nat) (id : String) (accepted : Bool)

section Events

variable [Text]

def requestId (request : InteractionRequest) : String :=
  request.rpcId.asStr.getD (toText request.rpcId)

/-- What is published. -/
def Entry.event : Entry → Option AgentEvent
  | .requested _ request => some (.interactionRequested request)
  | .resolved _ request _ => some (.interactionResolved request.sessionId (requestId request))
  | _ => none

end Events

/-- `question_inputs` of a connection. -/
abbrev Inputs := String → Option (List SubmittedAnswers)

structure State where
  questions : Entries String PendingQuestion
  resolvedQuestions : List String
  sequence : Nat
  lifecycle : List (Nat × AgentEvent)
  nextId : Nat
  connections : Nat → Option Inputs
  -- the rest is only observed
  log : List Entry
  resolutions : Nat
  /-- The requests of the clients that have no response. -/
  inFlight : List (Nat × String)

namespace State

def start : State := ⟨[], [], 0, [], 0, fun _ => none, [], 0, []⟩

section Calls

variable [Text]

def note (s : State) (entry : Entry) : State := { s with log := s.log ++ [entry] }

/-- Events are numbered, and the last 1024 are kept. -/
def publish (s : State) (entry : Entry) : State :=
  let lifecycle := s.lifecycle ++ (entry.event.map fun event => (s.sequence + 1, event)).toList
  { s.note entry with
    sequence := s.sequence + 1
    lifecycle := lifecycle.drop (lifecycle.length - 1024) }

def rememberResolution (s : State) (key : String) : State :=
  if key ∈ s.resolvedQuestions then s
  else
    let resolved := s.resolvedQuestions ++ [key]
    { s with
      resolvedQuestions := resolved.drop (resolved.length - 1024)
      resolutions := s.resolutions + 1 }

def close (s : State) (key : String) (question : PendingQuestion) (accepted : Bool) : State :=
  ({ s with questions := s.questions.delete key }.rememberResolution key).publish
    (.resolved key question.request accepted)

def completeQuestion (s : State) (id : Json) : State :=
  let key := toText id
  match s.questions.get key with
  | none => s.rememberResolution key
  | some question => s.close key question false

def questionIsPending (s : State) (id : Json) : Bool := (s.questions.get (toText id)).isSome

def resetQuestions (s : State) : State :=
  { s with
    questions := []
    resolvedQuestions := []
    connections := fun connection => (s.connections connection).map fun _ _ => none
    -- no other events are here
    lifecycle := []
    log := []
    resolutions := 0 }

/-- `join("\n")` of the texts of an input. -/
def inputText (parts : List Json) : String :=
  "\n".intercalate ((parts.filter fun part => (part.index "type").asStr = some "text").filterMap
    fun part => (part.index "text").asStr)

def submittedAnswers [Values] (s : State) (connection : Nat) (thread text : String)
    (order : List String) : List SubmittedAnswers :=
  order.filterMap fun key =>
    (s.questions.get key).bind fun question =>
      if question.request.sessionId = thread ∧ connection ∈ question.connections then
        let indices := asyncQuestionAnswers question.request text
        if indices = [] then none else some ⟨key, indices⟩
      else none

def submit (s : State) (connection : Nat) (id : String) (questions : List SubmittedAnswers) :
    State :=
  match s.connections connection with
  | none => s
  | some inputs =>
    let kept := if questions = [] then none else some questions
    { s with connections := update s.connections connection (some (update inputs id kept)) }

def observeAsyncQuestionInput [Values] (s : State) (connection : Nat) (value : Json)
    (order : List String) : State :=
  match Registry.requestId value, ((value.index "params").index "threadId").asStr,
    ((value.index "params").index "input").asArray with
  | some id, some thread, some input =>
    let text := inputText input
    (s.submit connection (toText id) (s.submittedAnswers connection thread text order)).note
      (.submitted connection (toText id) thread text)
  | _, _, _ => s

def acceptAnswers (s : State) (submitted : SubmittedAnswers) : State :=
  match s.questions.get submitted.key with
  | none => s
  | some question =>
    let question := { question with answered := question.answered ∪ submitted.indices.toFinset }
    let count := questionCount question.request
    if 0 < count ∧ question.answered.card = count then s.close submitted.key question true
    else { s with questions := s.questions.set submitted.key question }

/-- Whether a response accepts its request. -/
def accepts (value : Json) : Bool := (value.get? "result").isSome && (value.get? "error").isNone

def observeAsyncQuestionAcceptance (s : State) (connection : Nat) (value : Json) : State :=
  match value.get? "id" with
  | none => s
  | some id =>
    let answered := s.note (.responded connection (toText id) (accepts value))
    match s.connections connection with
    | none => answered
    | some inputs =>
      match inputs (toText id) with
      | none => answered
      | some questions =>
        let inputs := update inputs (toText id) none
        let taken :=
          { answered with connections := update s.connections connection (some inputs) }
        if accepts value then questions.foldl acceptAnswers taken else taken

def observeInteraction (s : State) (connection : Nat) (request : InteractionRequest) : State :=
  let key := toText request.rpcId
  let s := s.note (.observed connection key)
  if key ∈ s.resolvedQuestions then s
  else
    match s.questions.get key with
    | some question =>
      let question := { question with connections := insert connection question.connections }
      { s with questions := s.questions.set key question }
    | none =>
      { s with questions := s.questions.set key ⟨request, {connection}, ∅⟩ }.publish
        (.requested key request)

def observeResolution (s : State) (value : Json) : State :=
  match (value.index "params").get? "requestId" with
  | none => s
  | some id =>
    match s.questions.get (toText id) with
    | none => s
    | some question => s.close (toText id) question false

def observedMethod (method : String) : Bool :=
  method == "item/tool/requestUserInput" || method == "tool/requestUserInput" ||
    method == "serverRequest/resolved" || method == "item/completed"

def observeQuestionFrame (s : State) (connection : Nat) (method : String) (value : Json) : State :=
  if !observedMethod method then s
  else if (s.connections connection).isNone then s
  else
    match (asyncQuestion value).elim (decodeServerFrame value) .interaction with
    | .interaction request => s.observeInteraction connection request
    | .interactionResolved => s.observeResolution value
    | .other => s

def observeQuestionAnswer (s : State) (connection : Nat) (value : Json) : State :=
  if (value.get? "result").isNone && (value.get? "error").isNone then s
  else
    match value.get? "id" with
    | none => s
    | some id =>
      match s.questions.get (toText id) with
      | none => s
      | some question =>
        if connection ∈ question.connections then s.close (toText id) question false else s

def connect (s : State) : State :=
  { s with
    nextId := s.nextId + 1
    connections := update s.connections (s.nextId + 1) (some fun _ => none) }

def disconnect (s : State) (connection : Nat) : State :=
  { s with
    connections := update s.connections connection none
    inFlight := s.inFlight.filter fun request => request.1 ≠ connection }

def sends (s : State) (connection : Nat) (value : Json) : State :=
  match Registry.requestId value with
  | none => s
  | some id =>
    { s with inFlight := (connection, toText id) :: s.inFlight }.note (.sent connection (toText id))

def receives (s : State) (connection : Nat) (value : Json) : State :=
  match value.get? "id" with
  | none => s
  | some id =>
    { s with inFlight := s.inFlight.filter fun request => request ≠ (connection, toText id) }

end Calls

end State

/-! ## Runs -/

inductive Label where
  | connect
  | disconnect (connection : Nat)
  | frame (connection : Nat) (method : String) (value : Json)
  | answer (connection : Nat) (value : Json)
  /-- `turn/start` or `turn/steer`, with the order of the map of questions. -/
  | input (connection : Nat) (value : Json) (order : List String)
  /-- Another request of a client. -/
  | request (connection : Nat) (value : Json)
  | response (connection : Nat) (value : Json)
  | complete (id : Json)
  | reset

section Runs

variable [Text] [Values]

def State.step (s : State) : Label → Option State
  | .connect => some s.connect
  | .disconnect connection => some (s.disconnect connection)
  | .frame connection method value => some (s.observeQuestionFrame connection method value)
  | .answer connection value => some (s.observeQuestionAnswer connection value)
  | .input connection value order =>
    if order.Perm (s.questions.map Prod.fst) then
      some ((s.sends connection value).observeAsyncQuestionInput connection value order)
    else none
  | .request connection value => some (s.sends connection value)
  | .response connection value =>
    some ((s.observeAsyncQuestionAcceptance connection value).receives connection value)
  | .complete id => some (s.completeQuestion id)
  | .reset => some s.resetQuestions

def system : System State Label := .ofStep .start State.step

def State.Fresh (s : State) : Label → Prop
  | .input connection value _ | .request connection value =>
    ∀ id, Registry.requestId value = some id → (connection, toText id) ∉ s.inFlight
  | _ => True

end Runs

end Agentix.Registry.Questions
