import Mathlib.Data.List.Basic
import Mathlib.Data.List.Induction
import Mathlib.Data.Nat.Notation
import Mathlib.Logic.Equiv.List

/-! # JSON values

A number is kept as the bytes of its literal, and an object as the list of its fields.
-/

namespace Agentix.Lib

inductive Json where
  | null
  | bool (value : Bool)
  | number (literal : List UInt8)
  | string (text : String)
  | array (items : List Json)
  | object (fields : List (String × Json))

namespace Json

/-- `value.get(key)`. -/
def get? : Json → String → Option Json
  | object fields, key => fields.lookup key
  | _, _ => none

/-- `value[key]`, which is null where the key is absent. -/
def index (value : Json) (key : String) : Json :=
  (value.get? key).getD null

def asStr : Json → Option String
  | string text => some text
  | _ => none

def asArray : Json → Option (List Json)
  | array items => some items
  | _ => none

def isString : Json → Bool
  | string _ => true
  | _ => false

def isNumber : Json → Bool
  | number _ => true
  | _ => false

def isNull : Json → Bool
  | null => true
  | _ => false

/-- `value == true`. -/
def isTrue : Json → Bool
  | bool true => true
  | _ => false

/-- `map.insert(key, value)`: the last value of a key is the one that counts. -/
def insertField (key : String) (value : Json) (fields : List (String × Json)) :
    List (String × Json) :=
  if (fields.lookup key).isSome then
    fields.map fun field => if field.1 = key then (key, value) else field
  else fields ++ [(key, value)]

end Json

end Agentix.Lib

/-! # Strings of UTF-16 units -/

namespace Agentix.Lib

abbrev JsString := List UInt16

instance encodableUInt16 : Encodable UInt16 :=
  .ofLeftInjection UInt16.toNat (fun number => some (.ofNat number)) (by simp)

/-- The units of white space and of line ends. -/
def isJsSpace (unit : UInt16) : Bool :=
  [9, 10, 11, 12, 13, 32, 160, 5760, 8192, 8193, 8194, 8195, 8196, 8197, 8198, 8199, 8200, 8201,
    8202, 8232, 8233, 8239, 8287, 12288, 65279].contains unit

/-- `!text.trim()`. -/
def isBlank (text : JsString) : Bool := text.all isJsSpace

/-- `text.slice(-100000)`. -/
def lastPart (text : JsString) : JsString := text.drop (text.length - 100000)

def isHighSurrogate (unit : UInt16) : Bool := 0xd800 ≤ unit && unit ≤ 0xdbff

def isLowSurrogate (unit : UInt16) : Bool := 0xdc00 ≤ unit && unit ≤ 0xdfff

/-- The bytes of a unit that is not half of a pair; a lone surrogate becomes U+FFFD. -/
def unitLength (unit : UInt16) : ℕ :=
  if unit < 0x80 then 1 else if unit < 0x800 then 2 else 3

/-- `Buffer.byteLength(text)`. -/
def byteLength : JsString → ℕ
  | [] => 0
  | [unit] => unitLength unit
  | high :: low :: rest =>
    if isHighSurrogate high && isLowSurrogate low then 4 + byteLength rest
    else unitLength high + byteLength (low :: rest)

end Agentix.Lib

/-! # The syntax of JSON documents

Documents as trees that keep every byte: white space, and the tokens as they are written.  A tree
is well formed by its type.
-/

namespace Agentix.Lib

open List

/-! ## Bytes -/

def quote : UInt8 := 34

def comma : UInt8 := 44

def colon : UInt8 := 58

def backslash : UInt8 := 92

def openBracket : UInt8 := 91

def closeBracket : UInt8 := 93

def openBrace : UInt8 := 123

def closeBrace : UInt8 := 125

/-- The blank, the carriage return, the line feed and the tab. -/
def isSpace (b : UInt8) : Bool := b == 32 || b == 13 || b == 10 || b == 9

def isDigit (b : UInt8) : Bool := decide (48 ≤ b.toNat) && decide (b.toNat ≤ 57)

def isPlain (b : UInt8) : Bool := b != quote && b != backslash

/-- The value of a hexadecimal digit. -/
def hexDigit (b : UInt8) : Option Nat :=
  let n := b.toNat
  if 48 ≤ n ∧ n ≤ 57 then some (n - 48)
  else if 65 ≤ n ∧ n ≤ 70 then some (n - 55)
  else if 97 ≤ n ∧ n ≤ 102 then some (n - 87)
  else none

/-! ## Tokens -/

abbrev Space := { bytes : List UInt8 // bytes.all isSpace = true }

def Digits (bytes : List UInt8) : Prop := ∀ b ∈ bytes, isDigit b = true

/-- A zero, or digits that do not start with one. -/
def IsInteger (bytes : List UInt8) : Prop :=
  bytes = [48] ∨ ∃ first rest, bytes = first :: rest ∧ isDigit first = true ∧ first ≠ 48 ∧ Digits rest

def IsFraction (bytes : List UInt8) : Prop :=
  bytes = [] ∨ ∃ first rest, bytes = 46 :: first :: rest ∧ isDigit first = true ∧ Digits rest

def IsExponent (bytes : List UInt8) : Prop :=
  bytes = [] ∨ ∃ e sign first rest, bytes = e :: (sign ++ first :: rest) ∧ (e = 101 ∨ e = 69) ∧
    (sign = [] ∨ sign = [43] ∨ sign = [45]) ∧ isDigit first = true ∧ Digits rest

def IsNumber (bytes : List UInt8) : Prop :=
  ∃ sign integer fraction exponent, bytes = sign ++ integer ++ fraction ++ exponent ∧
    (sign = [] ∨ sign = [45]) ∧ IsInteger integer ∧ IsFraction fraction ∧ IsExponent exponent

def trueBytes : List UInt8 := [116, 114, 117, 101]

def falseBytes : List UInt8 := [102, 97, 108, 115, 101]

def nullBytes : List UInt8 := [110, 117, 108, 108]

/-- A number or one of the three names. -/
def IsAtom (bytes : List UInt8) : Prop :=
  bytes = trueBytes ∨ bytes = falseBytes ∨ bytes = nullBytes ∨ IsNumber bytes

def hexValue (digits : List UInt8) : Option Nat :=
  digits.foldlM (fun n b => (hexDigit b).map fun digit => n * 16 + digit) 0

def IsHighSurrogate (code : Nat) : Prop := 0xd800 ≤ code ∧ code ≤ 0xdbff

def IsLowSurrogate (code : Nat) : Prop := 0xdc00 ≤ code ∧ code ≤ 0xdfff

def shortEscapes : List UInt8 := [quote, backslash, 47, 98, 102, 110, 114, 116]

/-- The start of a `\u` escape. -/
def unicodeEscape : List UInt8 := [backslash, 117]

/-- What stands between the quotes of a string.  Escaped surrogates come in pairs. -/
inductive IsBody : List UInt8 → Prop
  | nil : IsBody []
  | plain {body : List UInt8} {b : UInt8} (before : IsBody body) (plain : isPlain b = true)
      (visible : 32 ≤ b.toNat) : IsBody (body ++ [b])
  | short {body : List UInt8} {b : UInt8} (before : IsBody body) (escape : b ∈ shortEscapes) :
      IsBody (body ++ [backslash, b])
  | unicode {body digits : List UInt8} {code : Nat} (before : IsBody body)
      (four : digits.length = 4) (value : hexValue digits = some code)
      (scalar : ¬ IsHighSurrogate code ∧ ¬ IsLowSurrogate code) :
      IsBody (body ++ (unicodeEscape ++ digits))
  | pair {body high low : List UInt8} {code code' : Nat} (before : IsBody body)
      (four : high.length = 4) (value : hexValue high = some code) (first : IsHighSurrogate code)
      (four' : low.length = 4) (value' : hexValue low = some code')
      (second : IsLowSurrogate code') :
      IsBody (body ++ (unicodeEscape ++ high ++ (unicodeEscape ++ low)))

theorem isBody_of_plain {body : List UInt8}
    (plain : body.all (fun b => isPlain b && decide (32 ≤ b.toNat)) = true) : IsBody body := by
  induction body using reverseRecOn with
  | nil => exact .nil
  | append_singleton body b ih =>
    simp only [all_append, all_cons, all_nil, Bool.and_eq_true, Bool.and_true,
      decide_eq_true_eq] at plain
    exact .plain (ih plain.1) plain.2.1 plain.2.2

def IsString (bytes : List UInt8) : Prop :=
  ∃ body, bytes = quote :: (body ++ [quote]) ∧ IsBody body

abbrev Atom := { bytes : List UInt8 // IsAtom bytes }

abbrev Quoted := { bytes : List UInt8 // IsString bytes }

/-! ## Documents -/

mutual

inductive Tree where
  | atom (token : Atom)
  | string (token : Quoted)
  | emptyArray (space : Space)
  | array (items : Items) (space : Space)
  | emptyObject (space : Space)
  | object (members : Members) (space : Space)

/-- The items of an array, with the space around the commas. -/
inductive Items where
  | one (space : Space) (item : Tree)
  | more (items : Items) (before after : Space) (item : Tree)

/-- The members of an object, with the space around the commas and the colons. -/
inductive Members where
  | one (space : Space) (key : Quoted) (before after : Space) (item : Tree)
  | more (members : Members) (before after : Space) (key : Quoted) (left right : Space)
      (item : Tree)

end

mutual

def Tree.bytes : Tree → List UInt8
  | .atom token => token.val
  | .string token => token.val
  | .emptyArray space => openBracket :: (space.val ++ [closeBracket])
  | .array items space => openBracket :: (items.bytes ++ space.val ++ [closeBracket])
  | .emptyObject space => openBrace :: (space.val ++ [closeBrace])
  | .object members space => openBrace :: (members.bytes ++ space.val ++ [closeBrace])

def Items.bytes : Items → List UInt8
  | .one space item => space.val ++ item.bytes
  | .more items before after item =>
    items.bytes ++ before.val ++ comma :: (after.val ++ item.bytes)

def Members.bytes : Members → List UInt8
  | .one space key before after item =>
    space.val ++ (key.val ++ before.val ++ colon :: (after.val ++ item.bytes))
  | .more members before after key left right item =>
    members.bytes ++ before.val ++
      comma :: (after.val ++ (key.val ++ left.val ++ colon :: (right.val ++ item.bytes)))

end

/-- The bytes are one document, with nothing but space around it. -/
def IsDocument (bytes : List UInt8) (tree : Tree) : Prop :=
  ∃ before after : Space, bytes = before.val ++ tree.bytes ++ after.val

def atomValue (bytes : List UInt8) : Json :=
  if bytes = trueBytes then .bool true
  else if bytes = falseBytes then .bool false
  else if bytes = nullBytes then .null
  else .number bytes

section

variable (text : List UInt8 → String)

mutual

/-- The value of a tree, given the texts of its strings.  The last of several members with one key
counts. -/
def Tree.value : Tree → Json
  | .atom token => atomValue token.val
  | .string token => .string (text token.val)
  | .emptyArray _ => .array []
  | .array items _ => .array items.values
  | .emptyObject _ => .object []
  | .object members _ => .object members.fields

def Items.values : Items → List Json
  | .one _ item => [item.value]
  | .more items _ _ item => items.values ++ [item.value]

def Members.fields : Members → List (String × Json)
  | .one _ key _ _ item => Json.insertField (text key.val) item.value []
  | .more members _ _ key _ _ item => Json.insertField (text key.val) item.value members.fields

end

end

end Agentix.Lib
