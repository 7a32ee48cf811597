import Agentix.Codex.Process
import Agentix.TaskStore.Text

/-! # Output of a turn

The buffer collects what one turn puts out: each output item has its place in the order in which it
is first seen, and is updated where it stands.  Deltas, snapshots of items and summaries of the
whole turn are recorded in it; a summary may know the answer of the turn but not its item.
-/

namespace Agentix.Output

open Codex TaskStore

/-- `s.trim_end()`. -/
def trimEnd (s : String) : String :=
  String.ofList (s.toList.reverse.dropWhile isWhitespace).reverse

/-- The strings with an empty line between them. -/
def joined (texts : List String) : String :=
  "\n\n".intercalate texts

structure OutputConfig where
  showReasoning : Bool
  showToolCalls : Bool

/-- What is shown of an item that is not part of the dialogue. -/
def OutputConfig.processText (self : OutputConfig) (item : ItemSummary) : Option String :=
  let reasoning := ["reasoning", "thinking", "commentary"].contains item.kind
  if ["agentMessage", "userMessage", "plan", "unknown"].contains item.kind ||
      (reasoning && !self.showReasoning) || (!reasoning && !self.showToolCalls) then none
  else
    let text := trimEnd (trimStart (item.text.getD ""))
    if reasoning then
      if text = "" then none else some s!"**Reasoning**\n\n{text}"
    else
      let status := item.status.getD "completed"
      some (trimEnd s!"**Tool call**: {item.kind} ({status})\n\n{text}")

structure TurnOutputItem where
  active : Bool := false
  summaryFallback : Bool := false
  id : Option String
  text : String
  process : Bool
  deriving DecidableEq

structure TurnBuffer where
  answerComplete : Bool := false
  userText : String := ""
  agentText : String := ""
  outputItems : List TurnOutputItem := []
  status : TurnStatus := .inProgress
  startedAt : Option Nat := none
  deriving DecidableEq

def answer (items : List TurnOutputItem) : String :=
  joined ((items.filter fun item => !item.process && item.text ≠ "").map TurnOutputItem.text)

/-- `activate_output`: the item at the index is the active one. -/
def activateOutput (items : List TurnOutputItem) (index : Nat) : List TurnOutputItem :=
  items.mapIdx fun position item => { item with active := position == index }

/-- The item that a text with an id belongs to: the one with the id, or for an answer the one that a
summary has left without. -/
def existingIndex (items : List TurnOutputItem) (id : Option String) (process : Bool) :
    Option Nat :=
  (items.findIdx? fun item => id.isSome && item.id == id) <|>
    if !process && id.isSome then items.findIdx? TurnOutputItem.summaryFallback else none

def TurnOutputItem.recorded (item : TurnOutputItem) (id : Option String) (text : String)
    (process append : Bool) : TurnOutputItem :=
  { item with
    id := if item.summaryFallback then id else item.id
    summaryFallback := false
    process := process
    text := if append then item.text ++ text else text }

namespace TurnBuffer

variable (self : TurnBuffer)

def refreshAgentText : TurnBuffer :=
  { self with agentText := answer self.outputItems }

def hydrated (id : Option String) (process : Bool) : List TurnOutputItem :=
  if self.outputItems = [] ∧ self.agentText ≠ "" then
    [{ summaryFallback := process || id.isNone, id := if process then none else id,
       text := self.agentText, process := false }]
  else self.outputItems

def recordOutput (id : Option String) (text : String) (process append : Bool) : TurnBuffer :=
  let items := self.hydrated id process
  let existing := existingIndex items id process
  let activate := !blank text && (append || (existing.bind (items[·]?)).all fun item =>
    blank item.text || (!process && (item.process || item.text ≠ text)))
  let recorded := match existing with
    | some index => items.modify index (·.recorded id text process append)
    | none => items ++ [{ id := id, text := text, process := process }]
  let shown := if activate then
      activateOutput recorded (existing.getD (recorded.length - 1))
    else recorded
  refreshAgentText
    { self with
      answerComplete := if !process && append then false else self.answerComplete
      outputItems := shown }

/-- The answer of a summary: of a turn with several answers it is not known which of them it is. -/
def recordSummary (text : String) : TurnBuffer :=
  let items := self.outputItems
  let recorded : Option (List TurnOutputItem) := match items.filter (!·.process) with
    | [] => some (items ++ [{ summaryFallback := true, id := none, text := text, process := false }])
    | [item] =>
      if item.text = text then none
      else some (items.modify (items.findIdx (!·.process)) fun item => { item with text := text })
    | _ :: _ :: _ => none
  match recorded with
  | none => self
  | some items =>
    refreshAgentText
      { self with outputItems := activateOutput items (items.findIdx (!·.process)) }

/-- `ensure_started`, at a reading of the clock. -/
def ensureStarted (now : Nat) : TurnBuffer :=
  { self with startedAt := self.startedAt <|> some now }

def applyItem (item : ItemSummary) (output : OutputConfig) (now : Nat) : TurnBuffer × Bool :=
  let process := output.processText item
  if !(["agentMessage", "userMessage", "commentary"].contains item.kind) && process.isNone then
    (self, false)
  else
    let started := self.ensureStarted now
    if item.kind = "agentMessage" then
      let recorded := started.recordOutput (some item.id) (item.text.getD "") false false
      ({ recorded with answerComplete := !blank recorded.agentText }, true)
    else if item.kind = "commentary" then
      (started.recordOutput (some item.id) (process.getD "") true false, true)
    else if item.kind = "userMessage" then
      ({ started with userText := item.text.getD "" }, true)
    else
      match process with
      | some text => (started.recordOutput (some item.id) text true false, true)
      | none => (started, true)

def appendCommentary (id delta : String) : TurnBuffer :=
  let titled :=
    if self.outputItems.any fun item => item.id == some id && item.text == "" then
      self.recordOutput (some id) "**Reasoning**\n\n" true false
    else self
  titled.recordOutput (some id) delta true true

end TurnBuffer

def userMessages (items : List ItemSummary) : List ItemSummary :=
  (items.filter fun item => item.kind = "userMessage").foldl (fun users item =>
    if users.any fun previous => previous.id = item.id then
      users.modify (users.findIdx fun previous => previous.id = item.id) fun _ => item
    else users ++ [item]) []

namespace TurnBuffer

variable (self : TurnBuffer)

def fromSummary (turn : TurnSummary) (output : OutputConfig) (now : Nat) : TurnBuffer :=
  let started : TurnBuffer := { userText := turn.userText.getD "", status := turn.status }
  let read := (turn.items.filter fun item => item.kind ≠ "userMessage").foldl
    (fun buffer item => (buffer.applyItem item output now).1) started
  let asked :=
    if blank read.userText then
      let texts := (userMessages turn.items).filterMap ItemSummary.text
      { read with userText := joined (texts.filter (!blank ·)) }
    else read
  let answered :=
    if blank asked.agentText then
      match turn.agentText.filter (!blank ·) with
      | some text => asked.recordSummary text
      | none => asked
    else asked
  { answered with answerComplete := !blank answered.agentText && turn.status.terminal }

def restore (items : List TurnOutputItem) : TurnBuffer :=
  items.foldl (fun buffer item =>
    if item.summaryFallback then buffer.recordSummary item.text
    else buffer.recordOutput item.id item.text item.process false) self

def mergeSummary (turn : TurnSummary) (output : OutputConfig) (now : Nat) : TurnBuffer :=
  let restored := fromSummary turn output now
  let answerComplete :=
    if blank restored.agentText then self.answerComplete else restored.answerComplete
  let userText :=
    if !blank restored.userText && (turn.userText.any (!blank ·) || blank self.userText) then
      restored.userText
    else self.userText
  restore { self with answerComplete := answerComplete, userText := userText } restored.outputItems

end TurnBuffer

/-- What is recorded in the buffer of a turn. -/
inductive Call where
  | recordOutput (id : Option String) (text : String) (process append : Bool)
  | appendCommentary (id delta : String)
  | applyItem (item : ItemSummary) (output : OutputConfig) (now : Nat)
  | mergeSummary (turn : TurnSummary) (output : OutputConfig) (now : Nat)

def TurnBuffer.call (self : TurnBuffer) : Call → TurnBuffer
  | .recordOutput id text process append => self.recordOutput id text process append
  | .appendCommentary id delta => self.appendCommentary id delta
  | .applyItem item output now => (self.applyItem item output now).1
  | .mergeSummary turn output now => self.mergeSummary turn output now

/-- The buffer after some calls. -/
def TurnBuffer.after (calls : List Call) : TurnBuffer :=
  calls.foldl TurnBuffer.call {}

end Agentix.Output
