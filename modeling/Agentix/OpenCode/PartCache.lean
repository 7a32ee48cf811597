import Agentix.Lib.Entries
import Agentix.Lib.Json

/-! # Parts that are streamed

The texts of the parts are cached, so that a part that ends emits only what its deltas did not.  The
cache is bounded in entries and bytes.  The lengths of the texts are kept in a map of their own, which
is bounded too.
-/

namespace Agentix.OpenCode

open Lib

/-- What is cached: the text of a part, or that a tool was seen. -/
inductive CacheValue where
  | text (content : JsString)
  | seen
  deriving DecidableEq

namespace CacheValue

def weight : CacheValue → Nat
  | .text content => byteLength content
  | .seen => 0

end CacheValue

structure PartCache where
  entries : Entries String CacheValue := []
  bytes : Nat := 0
  textLengths : Entries String Nat := []
  textLengthsEvicted : Bool := false

/-! ## The cache -/

/-- The loop that deletes the first entries; without an entry there are no bytes. -/
def evict : Entries String CacheValue → Nat → Entries String CacheValue × Nat
  | [], bytes => ([], bytes)
  | entry :: rest, bytes =>
    if rest.length + 1 > 8192 ∨ bytes > 8 * 1024 * 1024 then evict rest (bytes - entry.2.weight)
    else (entry :: rest, bytes)

namespace PartCache

def rememberText (cache : PartCache) (id : String) (length : Nat) : PartCache :=
  let lengths := (cache.textLengths.delete id).set id length
  if lengths.length > 8192 then { cache with textLengths := lengths.tail, textLengthsEvicted := true }
  else { cache with textLengths := lengths }

/-- `set`, without the length of a text. -/
def put (cache : PartCache) (id : String) (value : CacheValue) : PartCache :=
  let bytes := cache.bytes - ((cache.entries.get id).map CacheValue.weight).getD 0
  let entries := (cache.entries.delete id).set id value
  let (entries, bytes) := evict entries (bytes + value.weight)
  { cache with entries, bytes }

def setText (cache : PartCache) (id : String) (text : JsString) : PartCache :=
  (cache.rememberText id text.length).put id (.text text)

def appendText (cache : PartCache) (id : String) (delta : JsString) : PartCache × JsString :=
  match cache.entries.get id, cache.textLengths.get id with
  | some (.text previous), _ => (cache.setText id (previous ++ delta), delta)
  | _, some length => (cache.rememberText id (length + delta.length), delta)
  | _, none => (if cache.textLengthsEvicted then cache else cache.setText id delta, delta)

def endText (cache : PartCache) (id : String) (text : JsString) : PartCache × JsString :=
  let delta := match cache.entries.get id, cache.textLengths.get id with
    | some (.text previous), _ => if previous.isPrefixOf text then text.drop previous.length else []
    | _, some length => text.drop length
    | _, none => if cache.textLengthsEvicted then [] else text
  (cache.setText id text, delta)

end PartCache

/-! ## Events -/

/-- The part of a message that an event is about. -/
structure PartId where
  assistantMessageID : String
  ordinal : Nat
  deriving DecidableEq

def PartId.key (part : PartId) : String :=
  part.assistantMessageID ++ ":" ++ toString part.ordinal

inductive Event where
  | textStarted (part : PartId)
  | textDelta (part : PartId) (delta : JsString)
  | textEnded (part : PartId) (text : JsString)
  | tool (assistantMessageID id : String) (terminal : Bool)

structure AgentMessageDelta where
  turnId : String
  itemId : String
  delta : JsString

def agentMessageDelta (root : String) (delta : JsString) : Option AgentMessageDelta :=
  if delta = [] then none else some { turnId := root, itemId := root ++ ":assistant", delta }

def toolKey (assistantMessageID id : String) (terminal : Bool) : String :=
  assistantMessageID ++ ":" ++ id ++ ":" ++ if terminal then "completed" else "started"

/-- The turn of a message; an empty one counts as none. -/
def rootOf (aliases : String → Option String) (assistantMessageID : String) : Option String :=
  (aliases assistantMessageID).filter (· != "")

/-- The events of `OpenCodeBridge.event` that use the cache, with the turns of the messages; what a
tool emits is left out. -/
def event (aliases : String → Option String) (parts : PartCache) :
    Event → PartCache × Option AgentMessageDelta
  | .textStarted part =>
    let key := part.key
    if (parts.entries.get key).isNone ∧ (parts.textLengths.get key).isNone ∧
        parts.textLengthsEvicted = false then (parts.setText key [], none)
    else (parts, none)
  | .textDelta part delta =>
    match rootOf aliases part.assistantMessageID with
    | none => (parts, none)
    | some root =>
      let (parts, delta) := parts.appendText part.key delta
      (parts, agentMessageDelta root delta)
  | .textEnded part text =>
    match rootOf aliases part.assistantMessageID with
    | none => (parts, none)
    | some root =>
      let (parts, delta) := parts.endText part.key text
      (parts, agentMessageDelta root delta)
  | .tool message id terminal =>
    match rootOf aliases message with
    | none => (parts, none)
    | some _ =>
      let key := toolKey message id terminal
      if (parts.entries.get key).isSome then (parts, none) else (parts.put key .seen, none)

end Agentix.OpenCode
