import Agentix.Lib.JsValue
import Mathlib.Algebra.Group.Int.Defs
import Mathlib.Data.List.DropRight

/-! # The transcript of a session

A transcript has a JSON record in each line.  A bounded tail of it is read, and its rows are projected
to turns.  A reader of the last turn goes on from what it has read, where the tail starts with it.
-/

namespace Agentix.Claude.History

open Lib

/-! ## Tails -/

inductive File where
  | missing
  | unreadable
  | content (bytes : List UInt8)

def tailBytes : Nat := 16 * 1024 * 1024

structure Tail where
  start : Nat
  buffer : List UInt8
  deriving DecidableEq

/-- `readTail`, which throws where there is none. -/
def readTail : File → Option Tail
  | .missing => some ⟨0, []⟩
  | .unreadable => none
  | .content bytes =>
    let start := bytes.length - tailBytes
    some ⟨start, bytes.drop start⟩

/-- `buffer.indexOf(10) + 1`. -/
def firstEnd (buffer : List UInt8) : Nat :=
  match buffer.findIdx? (· == 10) with
  | some place => place + 1
  | none => 0

/-- `buffer.lastIndexOf(10) + 1`. -/
def lastEnd (buffer : List UInt8) : Nat :=
  (buffer.rdropWhile (· != 10)).length

def completeRange (tail : Tail) : Nat × Nat :=
  let start := if tail.start = 0 then 0 else firstEnd tail.buffer
  (start, max start (lastEnd tail.buffer))

def subarray (buffer : List UInt8) (start stop : Nat) : List UInt8 :=
  (buffer.take stop).drop start

/-! ## Turns -/

inductive Status where
  | unknown
  | inProgress
  | completed
  | failed
  deriving DecidableEq

structure Tool where
  id : Option JsValue
  kind : Option JsValue
  label : Option JsValue
  status : Status

structure Item where
  id : Option JsValue
  kind : Option JsValue
  text : JsString
  status : Status

structure Usage where
  id : JsString
  input : Option Nat := none
  output : Option Nat := none
  cached : Option Nat := none

structure Turn where
  id : Option JsValue
  status : Status := .unknown
  userText : JsString
  agentText : JsString := []
  tools : List Tool := []
  items : List Item := []
  tokenUsage : Option (List Usage) := none

def updateFirst {α : Type} (found : α → Bool) (edit : α → α) : List α → List α
  | [] => []
  | a :: rest => if found a then edit a :: rest else a :: updateFirst found edit rest

section Projection

variable (engine : JsEngine)

/-- The elements of `content.filter(block => block.type === type)`. -/
def blocks (type : String) (items : List JsValue) : Option (List JsValue) :=
  items.filterM fun block => do
    let own ← JsValue.get (some block) "type"
    pure (JsValue.isText own type)

def joined (separator : JsString) (parts : List JsString) : JsString :=
  separator.intercalate parts

/-- `textOf`. -/
def textOf : Option JsValue → Option JsString
  | some (.string text) => some text
  | none | some .null => some []
  | some (.array items) => do
    let texts ← (← blocks "text" items).mapM fun part => JsValue.get (some part) "text"
    let displayed ← texts.mapM engine.displayed
    pure (joined (js "\n") displayed)
  | some _ => none

def includes (text part : JsString) : Bool :=
  text.tails.any part.isPrefixOf

/-- The count of `usage[kind]`, with one that is a safe integer and not negative. -/
def counted (old : Option Nat) : Option JsValue → Option Nat
  | some (.number (.integer count)) =>
    if 0 ≤ count ∧ count ≤ 2 ^ 53 - 1 then some (max (old.getD 0) count.toNat) else old
  | _ => old

def addUsage (turn : Turn) (message : Option JsValue) : Option Turn := do
  let native ← JsValue.get message "usage"
  let id ← JsValue.get message "id"
  match JsValue.truthy native, id with
  | true, some (.string id) =>
    let usages := turn.tokenUsage.getD []
    let usages := if usages.any (·.id == id) then usages else usages ++ [{ id := id }]
    let input ← JsValue.get native "input_tokens"
    let output ← JsValue.get native "output_tokens"
    let cached ← JsValue.get native "cache_read_input_tokens"
    let usages := updateFirst (·.id == id) (fun usage =>
      { usage with
        input := counted usage.input input
        output := counted usage.output output
        cached := counted usage.cached cached }) usages
    pure { turn with tokenUsage := some usages }
  | _, _ => pure turn

def firstPart (text : JsString) : JsString := text.take 65536

/-- A block of what the assistant says. -/
def addBlock (uuid : Option JsValue) (turn : Turn) (block : JsValue) : Option Turn := do
  let type ← JsValue.get (some block) "type"
  let turn ←
    if JsValue.isText type "thinking" then do
      match ← JsValue.get (some block) "thinking" with
      | some (.string thinking) =>
        let uuid ← (uuid.bind engine.display)
        let id := uuid ++ js ":reasoning:" ++ js (toString turn.items.length)
        let item : Item := { id := some (.string id), kind := some (.string (js "reasoning")),
                             text := firstPart thinking, status := .completed }
        pure { turn with items := turn.items ++ [item] }
      | _ => pure turn
    else pure turn
  if JsValue.isText type "tool_use" then do
    let id ← JsValue.get (some block) "id"
    let name ← JsValue.get (some block) "name"
    let input ← JsValue.get (some block) "input"
    let input := match input with
      | none | some .null => JsValue.object []
      | some input => input
    let tool : Tool := { id, kind := name, label := name, status := .inProgress }
    let item : Item :=
      { id, kind := name, text := firstPart (engine.stringify input), status := .inProgress }
    pure { turn with tools := turn.tools ++ [tool], items := turn.items ++ [item] }
  else pure turn

def assistantRow (uuid message : Option JsValue) (content : JsString) (turn : Turn) :
    Option Turn := do
  let turn ← addUsage turn message
  let said := if turn.agentText = [] then content else turn.agentText ++ js "\n" ++ content
  let turn := if content = [] then turn else { turn with agentText := lastPart said }
  let reason ← JsValue.get message "stop_reason"
  let turn := if JsValue.isText reason "end_turn" then { turn with status := .completed } else turn
  match ← JsValue.get message "content" with
  | some (.array items) => items.foldlM (addBlock engine uuid) turn
  | _ => pure turn

def addResult (turn : Turn) (block : JsValue) : Option Turn := do
  let id ← JsValue.get (some block) "tool_use_id"
  let tools ←
    if turn.tools.any fun tool => JsValue.strictEq tool.id id then do
      let failed ← JsValue.get (some block) "is_error"
      let status := if JsValue.truthy failed then Status.failed else .completed
      pure (updateFirst (fun tool => JsValue.strictEq tool.id id)
        (fun tool => { tool with status }) turn.tools)
    else pure turn.tools
  let turn := { turn with tools }
  if turn.items.any fun item => JsValue.strictEq item.id id then do
    let tool ← turn.tools.find? fun tool => JsValue.strictEq tool.id id
    let content ← JsValue.get (some block) "content"
    let text ← textOf engine content
    let items := updateFirst (fun item => JsValue.strictEq item.id id)
      (fun item =>
        { item with
          status := tool.status, text := firstPart (joined (js "\n\n") [item.text, text]) })
      turn.items
    pure { turn with items }
  else pure turn

def resultRow (message : Option JsValue) (turn : Turn) : Option Turn := do
  match ← JsValue.get message "content" with
  | some (.array items) => (← blocks "tool_result" items).foldlM (addResult engine) turn
  | _ => pure turn

/-- The rows that were projected. -/
structure Projection where
  turns : List Turn := []
  seen : List JsValue := []

/-- `seen.has(uuid)`: an array or an object is never there. -/
def Projection.has (projection : Projection) (uuid : JsValue) : Bool :=
  projection.seen.any fun other => JsValue.strictEq (some other) (some uuid)

/-- A record of `appendRecords`. -/
def appendRecord (sessionId : JsString) (latestOnly : Bool) (projection : Projection)
    (record : JsValue) : Option Projection := do
  let entry := some record
  let own ← JsValue.get entry "sessionId"
  if !JsValue.strictEq own (some (.string sessionId)) then return projection
  if JsValue.truthy (← JsValue.get entry "isSidechain") then return projection
  if JsValue.truthy (← JsValue.get entry "isMeta") then return projection
  match ← JsValue.get entry "uuid" with
  | none => return projection
  | some uuid =>
    if !JsValue.truthy (some uuid) || projection.has uuid then return projection
    let projection := { projection with seen := projection.seen ++ [uuid] }
    let message ← JsValue.get entry "message"
    if !JsValue.truthy message then return projection
    let content ← textOf engine (← JsValue.get message "content")
    let type ← JsValue.get entry "type"
    if JsValue.isText type "user" && content != [] && !includes content (js "<channel ") then
      let turn : Turn := { id := some uuid, userText := lastPart content }
      return { projection with turns := (if latestOnly then [] else projection.turns) ++ [turn] }
    match projection.turns.getLast? with
    | none => return projection
    | some turn =>
      let turn ←
        if JsValue.isText type "assistant" then assistantRow engine (some uuid) message content turn
        else if JsValue.isText type "user" then resultRow engine message turn
        else pure turn
      return { projection with turns := projection.turns.dropLast ++ [turn] }

/-- The records of some lines; a line that is no JSON is left out. -/
def records (text : JsString) : List JsValue :=
  ((splitUnits 10 text).filter (· != [])).filterMap engine.parse

def appendRecords (text : JsString) (sessionId : JsString) (projection : Projection)
    (latestOnly : Bool) : Option Projection :=
  (records engine text).foldlM (appendRecord engine sessionId latestOnly) projection

def readTranscript (file : File) (sessionId : JsString) : Option (List Turn) := do
  let tail ← readTail file
  let (start, stop) := completeRange tail
  let projection ←
    appendRecords engine (utf8Text (subarray tail.buffer start stop)) sessionId {} false
  pure projection.turns

/-! ## The reader -/

structure Cached where
  path : String
  sessionId : JsString
  tail : Tail
  stop : Nat
  projection : Projection

structure Call where
  path : String
  sessionId : JsString
  file : File

/-- A call of the reader: what it answers, where it does not throw, and what it has cached. -/
def read (cached : Option Cached) (call : Call) : Option (Option Turn) × Option Cached :=
  match readTail call.file with
  | none => (none, cached)
  | some tail =>
    let (start, stop) := completeRange tail
    let appended := cached.filter fun cached => cached.path = call.path ∧
      cached.sessionId = call.sessionId ∧ cached.tail.start = tail.start ∧
      cached.tail.buffer <+: tail.buffer
    let state := appended.getD ⟨call.path, call.sessionId, tail, start, {}⟩
    let offset := max start state.stop
    match appendRecords engine (utf8Text (subarray tail.buffer offset stop)) call.sessionId
        state.projection true with
    | none => (none, none)
    | some projection =>
      (some projection.turns.getLast?, some ⟨call.path, call.sessionId, tail, stop, projection⟩)

def answers : Option Cached → List Call → List (Option (Option Turn))
  | _, [] => []
  | cached, call :: calls =>
    let (answer, next) := read engine cached call
    answer :: answers next calls

end Projection

end Agentix.Claude.History
