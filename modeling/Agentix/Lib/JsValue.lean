import Agentix.Lib.Json
import Agentix.Lib.Utf8

/-! # Values of a script

The values that `JSON.parse` makes.  A property of a value may be undefined, and reading one of null
throws; nothing stands for the one, and for the other as the answer of a computation.
-/

namespace Agentix.Lib

open List

/-- A number that is an integer, or another one by its bits. -/
inductive JsNumber where
  | integer (value : Int)
  | other (bits : UInt64)
  deriving DecidableEq

inductive JsValue where
  | null
  | bool (value : Bool)
  | number (value : JsNumber)
  | string (text : JsString)
  | array (items : List JsValue)
  | object (fields : List (JsString × JsValue))

/-- The UTF-16 units of a code point. -/
def utf16Units (point : Nat) : JsString :=
  if point < 0x10000 then [.ofNat point]
  else [.ofNat (0xD800 + (point - 0x10000) / 0x400), .ofNat (0xDC00 + (point - 0x10000) % 0x400)]

/-- A literal of the script. -/
def js (text : String) : JsString :=
  text.toList.flatMap fun c => utf16Units c.toNat

namespace JsValue

/-- `value[key]`. -/
def get (value : Option JsValue) (key : String) : Option (Option JsValue) :=
  match value with
  | none | some null => none
  | some (object fields) => some (fields.lookup (js key))
  | some _ => some none

def truthy : Option JsValue → Bool
  | none | some null => false
  | some (bool value) => value
  | some (number value) => value != .integer 0
  | some (string text) => text != []
  | some (array _) | some (object _) => true

/-- `a === b`; two arrays or objects of a document are never the same one. -/
def strictEq : Option JsValue → Option JsValue → Bool
  | none, none | some null, some null => true
  | some (bool a), some (bool b) => a == b
  | some (number a), some (number b) => a == b
  | some (string a), some (string b) => a == b
  | _, _ => false

/-- `value === text` for a literal. -/
def isText (value : Option JsValue) (text : String) : Bool :=
  match value with
  | some (string own) => own == js text
  | _ => false

end JsValue

/-- What a script gets from its engine: none is thrown by `JSON.parse`, or by a conversion to text. -/
structure JsEngine where
  parse : JsString → Option JsValue
  stringify : JsValue → JsString
  display : JsValue → Option JsString

/-- An element of an array that is joined. -/
def JsEngine.displayed (engine : JsEngine) : Option JsValue → Option JsString
  | none | some .null => some []
  | some value => engine.display value

/-! ## Texts of bytes -/

/-- The text of some bytes; what encodes no character becomes U+FFFD. -/
def utf8Text (bytes : List UInt8) : JsString :=
  (Expect.decode .lead 0 bytes).flatMap utf16Units

/-- `text.split(separator)`. -/
def splitUnits (separator : UInt16) : JsString → List JsString
  | [] => [[]]
  | unit :: rest =>
    if unit = separator then [] :: splitUnits separator rest
    else match splitUnits separator rest with
      | [] => [[unit]]
      | line :: lines => (unit :: line) :: lines

theorem splitUnits_ne_nil (separator : UInt16) (text : JsString) : splitUnits separator text ≠ [] := by
  cases text with
  | nil => simp [splitUnits]
  | cons unit rest =>
    simp only [splitUnits]
    split
    · exact cons_ne_nil _ _
    · split <;> exact cons_ne_nil _ _

theorem splitUnits_append (separator : UInt16) (a b : JsString) :
    splitUnits separator (a ++ separator :: b) = splitUnits separator a ++ splitUnits separator b := by
  induction a with
  | nil => simp [splitUnits]
  | cons unit rest ih =>
    simp only [cons_append, splitUnits, ih]
    split
    · rfl
    · cases lines : splitUnits separator rest with
      | nil => exact absurd lines (splitUnits_ne_nil separator rest)
      | cons line lines => rfl

theorem utf8Text_append (a b : List UInt8) :
    utf8Text (a ++ 10 :: b) = utf8Text a ++ 10 :: utf8Text b := by
  rw [utf8Text, Expect.decode_append (show Expect.lead.Wide from trivial), flatMap_append, flatMap_cons]
  rfl

end Agentix.Lib
