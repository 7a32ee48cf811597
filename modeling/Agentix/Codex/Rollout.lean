import Agentix.Codex.Process
import Agentix.Lib.Cuts
import Agentix.Lib.Fallible
import Agentix.Lib.Json
import Agentix.Lib.Lines

/-! # The display events of a rollout file

The app server appends a line to the rollout file of a session for every event.  Summaries omit the
intermediate items, so a client reads the file again and again, each time from where it stopped, and
keeps the last items it found.
-/

namespace Agentix.Codex.Rollout

open Lib

abbrev Bytes := List UInt8

def newline : UInt8 := 10

def maxScan : Nat := 8 * 1024 * 1024

def maxLine : Nat := 256 * 1024

def maxText : Nat := 16 * 1024

def maxItems : Nat := 512

def maxCacheBytes : Nat := 1024 * 1024

/-- What works on texts: `serde_json::from_slice`, `Value::to_string` and the lower case of a
character. -/
structure Readers where
  parse : Bytes → Option Json
  print : Json → String
  lowercase : Char → List Char

/-! ## Items -/

/-- `value[key] = item`, on an object. -/
def setField (key : String) (item : Json) : Json → Json
  | .object fields => .object (Json.insertField key item fields)
  | value => value

def requiredString (value : Json) (method field : String) : Fallible String :=
  orElseError ((value.get? field).bind Json.asStr) s!"{method} is missing required field {field}"

def itemKind (item : Json) : String :=
  let kind := ((item.index "type").asStr).getD "unknown"
  if kind = "agentMessage" ∧ (item.index "phase").asStr = some "commentary" then "commentary"
  else kind

def partText (part : Json) : Option String :=
  (part.get? "text").bind Json.asStr

def itemText (readers : Readers) (item : Json) (kind : String) : Option String :=
  if kind ∈ ["agentMessage", "commentary", "plan"] then
    ((item.get? "text").or (item.get? "content")).bind Json.asStr
  else if kind = "userMessage" then
    ((item.get? "content").bind Json.asArray).map fun content =>
      "\n".intercalate (content.filterMap partText)
  else if kind = "reasoning" then
    ((item.get? "summary").bind Json.asArray).map fun parts =>
      "\n".intercalate (parts.filterMap fun part => part.asStr.or (partText part))
  else if kind = "commandExecution" then
    some (((item.index "command").asStr.getD "") ++ "\n" ++
      ((item.index "aggregatedOutput").asStr.getD ""))
  else if kind ∈ ["fileChange", "mcpToolCall", "dynamicToolCall", "webSearch"] then
    some (readers.print item)
  else none

def itemSummary (readers : Readers) (item : Json) (method : String) : Fallible ItemSummary := do
  let kind := itemKind item
  let id ← requiredString item method "id"
  pure {
    id
    kind
    text := itemText readers item kind
    status := (item.get? "status").bind Json.asStr }

/-- The item under the names of the summaries, and its kind there; there is none for user and system
inputs, encrypted reasoning and media. -/
def renamed (native : Json) : Option (String × Json) := do
  match ← (native.index "type").asStr with
  | "Reasoning" => some ("reasoning", setField "summary" (native.index "summary_text") native)
  | "AgentMessage" =>
    let parts ← (native.index "content").asArray
    let text := "\n".intercalate (parts.filterMap fun part => (part.index "text").asStr)
    some ("agentMessage", setField "text" (.string text) native)
  | "CommandExecution" =>
    let parts ← (native.index "command").asArray
    let command := " ".intercalate (parts.filterMap Json.asStr)
    some ("commandExecution",
      setField "aggregatedOutput" (native.index "aggregated_output")
        (setField "command" (.string command) native))
  | "FileChange" => some ("fileChange", native)
  | "McpToolCall" => some ("mcpToolCall", native)
  | "DynamicToolCall" => some ("dynamicToolCall", native)
  | "WebSearch" => some ("webSearch", native)
  | "Plan" => some ("plan", native)
  | _ => none

def lowerFirst (readers : Readers) (status : String) : String :=
  match status.toList with
  | [] => status
  | first :: rest => .ofList (readers.lowercase first ++ rest)

/-- `text.truncate(end)`, at the boundary below the limit. -/
def truncated (text : String) : String :=
  match Cuts.cut text.toList (Cuts.floorBoundary text.toList (min text.utf8ByteSize maxText)) with
  | some (kept, _) => .ofList kept
  | none => text

def displayItem (readers : Readers) (native : Json) : Option ItemSummary := do
  let (kind, item) ← renamed native
  let item := setField "type" (.string kind) item
  let summary ← (itemSummary readers item "rollout history").toOption
  pure { summary with
    status := summary.status.map (lowerFirst readers)
    text := if kind = "agentMessage" then summary.text else summary.text.map truncated }

def itemBytes (turn : String) (item : ItemSummary) : Nat :=
  turn.utf8ByteSize + item.id.utf8ByteSize + item.kind.utf8ByteSize +
    (item.text.map String.utf8ByteSize).getD 0 + (item.status.map String.utf8ByteSize).getD 0

/-! ## Scans -/

/-- The file as it is at one time. -/
structure File where
  isFile : Bool
  identity : Nat × Nat
  modified : Option Nat
  content : Bytes

structure Scan where
  identity : Option (Nat × Nat)
  modified : Option Nat
  length : Nat
  offset : Nat
  skipFragment : Bool
  verified : Bool
  items : List (String × ItemSummary)
  bytes : Nat

def Scan.default : Scan := ⟨none, none, 0, 0, false, false, [], 0⟩

/-- The loop that makes room: the oldest items go.  The queue is not empty where the counter is the
sum of its sizes. -/
def evict : List (String × ItemSummary) → Nat → List (String × ItemSummary) × Nat
  | [], bytes => ([], bytes)
  | (turn, item) :: rest, bytes =>
    if maxItems < rest.length + 1 ∨ maxCacheBytes < bytes then
      evict rest (bytes - itemBytes turn item)
    else ((turn, item) :: rest, bytes)

/-- `items.iter_mut().find(..)`: the items with the found one replaced, and what was there. -/
def replaceFirst (turn : String) (item : ItemSummary) :
    List (String × ItemSummary) → Option (List (String × ItemSummary) × ItemSummary)
  | [] => none
  | (id, old) :: rest =>
    if id = turn ∧ old.id = item.id then some ((id, item) :: rest, old)
    else (replaceFirst turn item rest).map fun (items, found) => ((id, old) :: items, found)

def Scan.put (scan : Scan) (turn : String) (item : ItemSummary) : Scan :=
  let (items, bytes) :=
    match replaceFirst turn item scan.items with
    | some (items, old) => (items, scan.bytes - itemBytes turn old + itemBytes turn item)
    | none => (scan.items ++ [(turn, item)], scan.bytes + itemBytes turn item)
  let (items, bytes) := evict items bytes
  { scan with items, bytes }

def event (readers : Readers) (session : String) (line : Bytes) :
    Option (String × ItemSummary) := do
  let entry ← readers.parse line
  let payload := entry.index "payload"
  guard ((entry.index "type").asStr = some "event_msg" ∧
    (payload.index "type").asStr = some "item_completed" ∧
    (payload.index "thread_id").asStr = some session)
  let turn ← (payload.index "turn_id").asStr
  let item ← displayItem readers (payload.index "item")
  pure (turn, item)

/-- A complete line of a size that is read. -/
def Scan.entry (readers : Readers) (session : String) (scan : Scan) (line : Bytes) : Scan :=
  match event readers session line with
  | some (turn, item) => scan.put turn item
  | none => scan

/-- The loop over the lines of the data: the scan after it, and what was consumed.  `skipFirst` is
only true at the first line. -/
def Scan.lines (readers : Readers) (session : String) (skipFirst : Bool) (scan : Scan)
    (consumed : Nat) : List Bytes → Scan × Nat
  | [] => (scan, consumed)
  | line :: rest =>
    if line.getLast? ≠ some newline then
      -- A small unfinished record is retried; a giant partial media line is skipped.
      let skipped := decide (maxLine < line.length) || skipFirst
      ({ scan with skipFragment := skipped }, if skipped then consumed + line.length else consumed)
    else
      let scan := { scan with skipFragment := false }
      let scan :=
        if skipFirst || decide (maxLine < line.length) then scan
        else scan.entry readers session line
      Scan.lines readers session false scan (consumed + line.length) rest

def firstLine (content : Bytes) : Bytes :=
  (Lines.splitInclusive newline content).headD []

def IsMeta (session : String) (value : Json) : Prop :=
  (value.index "type").asStr = some "session_meta" ∧
    ((value.index "payload").index "id").asStr = some session

instance decidableIsMeta (session : String) (value : Json) : Decidable (IsMeta session value) :=
  inferInstanceAs (Decidable (_ ∧ _))

/-- The scan, which starts over where the file is another one or did not only grow. -/
def Scan.current (scan : Scan) (file : File) : Scan :=
  if scan.identity ≠ some file.identity ∨ file.content.length < scan.length ∨
      (file.content.length = scan.length ∧ file.modified ≠ scan.modified) then Scan.default
  else scan

def Scan.advance (readers : Readers) (session : String) (scan : Scan) (file : File) : Scan :=
  let length := file.content.length
  let scan := { scan with
    verified := true, identity := some file.identity, modified := file.modified, length }
  let start := max scan.offset (length - maxScan)
  let skipFirst := scan.skipFragment || start != scan.offset
  let data := file.content.drop start
  let (scan, consumed) :=
    Scan.lines readers session skipFirst scan 0 (Lines.splitInclusive newline data)
  { scan with offset := start + consumed }

def Scan.snapshot (scan : Scan) (wanted : List String) : List (String × ItemSummary) :=
  scan.items.filter fun (turn, _) => wanted.contains turn

/-- `Scan::read`, without errors of the file system. -/
def Scan.read (readers : Readers) (session : String) (scan : Scan) (file : File)
    (wanted : List String) : Scan × List (String × ItemSummary) :=
  if file.isFile then
    let scan := scan.current file
    if scan.verified ∨
        IsMeta session ((readers.parse (firstLine (file.content.take maxLine))).getD .null) then
      let scan := scan.advance readers session file
      (scan, scan.snapshot wanted)
    else (scan, [])
  else (scan, [])

end Agentix.Codex.Rollout
