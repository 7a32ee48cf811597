import Agentix.Lib.Json
import Agentix.Lib.Utf8

/-! # The projection of large messages

Large messages are validated while they stream by, and of their values only those on the paths of
the session lifecycle are kept.
-/

namespace Agentix.Wire

open Lib

/-- What the projection calls of `serde_json`. -/
class Serde where
  /-- `from_slice::<String>`, and `from_slice::<Value>` of a string. -/
  string : List UInt8 → Option String
  /-- `from_slice::<Value>` of a number, `true`, `false` or `null`. -/
  scalar : List UInt8 → Option Json
  /-- `from_slice::<IgnoredAny>`. -/
  ignored : List UInt8 → Bool
  /-- `to_string`. -/
  render : Json → String

def maxDepth : Nat := 128

def maxToken : Nat := 4096

/-! ## Bytes -/

/-- What ends a number or a name. -/
def isDelimiter (b : UInt8) : Bool :=
  isSpace b || b == comma || b == closeBrace || b == closeBracket

/-- A minus, a digit, or the first letter of `true`, `false` or `null`. -/
def isAtomStart (b : UInt8) : Bool :=
  b == 45 || isDigit b || b == 116 || b == 102 || b == 110

/-! ## Paths -/

inductive Node where
  | root
  | result
  | thread
  | source
  | params
  | client
  | leaf
  | skip
  deriving DecidableEq

def Node.child : Node → String → Node
  | .root, "id" | .root, "method" | .root, "error" => .leaf
  | .root, "result" => .result
  | .root, "params" => .params
  | .result, "thread" => .thread
  | .result, "status" => .leaf
  | .thread, "id" | .thread, "ephemeral" => .leaf
  | .thread, "source" => .source
  | .source, "subAgent" => .leaf
  | .params, "threadId" | .params, "ephemeral" => .leaf
  | .params, "clientInfo" => .client
  | .client, "name" => .leaf
  | _, _ => .skip

/-! ## Strings -/

structure StringToken where
  key : Bool := false
  capture : Bool := false
  raw : List UInt8 := []
  escape : Bool := false
  digits : Nat := 0
  code : Nat := 0
  high : Bool := false
  lowEscape : Nat := 0
  deriving DecidableEq

namespace StringToken

/-- A digit of a `\u` escape.  A high surrogate needs the escape of a low one. -/
def digit (s : StringToken) (digit : Nat) : Option StringToken :=
  let s := { s with code := (s.code * 16 + digit) % 65536, digits := s.digits - 1 }
  if s.digits = 0 then
    if s.high then
      if 0xdc00 ≤ s.code ∧ s.code ≤ 0xdfff then some { s with high := false } else none
    else if 0xd800 ≤ s.code ∧ s.code ≤ 0xdbff then some { s with high := true, lowEscape := 2 }
    else if 0xdc00 ≤ s.code ∧ s.code ≤ 0xdfff then none
    else some s
  else some s

def push (s : StringToken) (b : UInt8) : StringToken :=
  if s.capture then { s with raw := s.raw ++ [b] } else s

/-- The next byte of a string; `true` when it ends the string. -/
def byte (s : StringToken) (b : UInt8) : Option (Bool × StringToken) :=
  if s.capture ∧ s.raw.length = maxToken then none
  else
    let s := s.push b
    if 0 < s.digits then
      match hexDigit b with
      | none => none
      | some value => (s.digit value).map fun s => (false, s)
    else if 0 < s.lowEscape then
      if b ≠ if s.lowEscape = 2 then backslash else 117 then none
      else
        let s := { s with lowEscape := s.lowEscape - 1 }
        if s.lowEscape = 0 then some (false, { s with digits := 4, code := 0 })
        else some (false, s)
    else if s.escape then
      let s := { s with escape := false }
      if b = 117 then some (false, { s with digits := 4, code := 0 })
      else if b ∈ shortEscapes then some (false, s)
      else none
    else if b = quote then some (true, s)
    else if b = backslash then some (false, { s with escape := true })
    else if b.toNat < 32 then none
    else some (false, s)

def scanning (s : StringToken) : Bool :=
  !s.capture && !s.escape && s.digits == 0 && s.lowEscape == 0

end StringToken

/-! ## The parser -/

inductive Phase where
  | keyOrEnd
  | key
  | colon
  | valueOrEnd
  | value
  | commaOrEnd
  deriving DecidableEq

structure Container where
  object : Bool
  phase : Phase
  node : Node
  key : String := ""
  fields : List (String × Json) := []

inductive Token where
  | string (token : StringToken)
  | atom (raw : List UInt8) (node : Node)

/-- The part of the projection that the parser works on; the innermost container comes first. -/
structure Machine where
  stack : List Container := []
  token : Option Token := none
  result : Option Json := none

namespace Machine

/-- The path of the value that comes next. -/
def node (m : Machine) : Node :=
  match m.stack with
  | [] => .root
  | c :: _ => if c.object then c.node.child c.key else .skip

def value (m : Machine) (value : Json) : Option Machine :=
  match m.stack with
  | c :: rest =>
    if c.phase = .value ∨ c.phase = .valueOrEnd then
      let c :=
        if c.object ∧ c.node.child c.key ≠ .skip then
          { c with fields := Json.insertField c.key value c.fields, key := "" }
        else c
      some { m with stack := { c with phase := .commaOrEnd } :: rest }
    else none
  | [] => if m.result.isSome then none else some { m with result := some value }

variable [Serde]

/-- The token that is under way is taken; an atom ends here. -/
def finishAtom (m : Machine) : Option Machine :=
  match m.token with
  | some (.atom raw node) =>
    let m := { m with token := none }
    if node = .skip then
      if Serde.ignored raw then m.value .null else none
    else (Serde.scalar raw).bind m.value
  | _ => some { m with token := none }

/-- A string is complete, and was taken off. -/
def finishString (m : Machine) (s : StringToken) : Option Machine :=
  if s.key then
    match m.stack with
    | [] => none
    | c :: rest =>
      (if s.capture then Serde.string s.raw else some "").map fun key =>
        { m with stack := { c with key, phase := .colon } :: rest }
  else
    (if s.capture then (Serde.string s.raw).map Json.string else some .null).bind m.value

def stringByte (m : Machine) (s : StringToken) (b : UInt8) : Option Machine :=
  match s.byte b with
  | none => none
  | some (true, s) => { m with token := none }.finishString s
  | some (false, s) => some { m with token := some (.string s) }

omit [Serde] in
def close (m : Machine) (c : Container) (rest : List Container) (b : UInt8) : Option Machine :=
  if b ≠ (if c.object then closeBrace else closeBracket) ∨
      ¬ (c.phase = .keyOrEnd ∨ c.phase = .valueOrEnd ∨ c.phase = .commaOrEnd) then none
  else { m with stack := rest }.value (if c.object then .object c.fields else .array [])

def begin (m : Machine) (b : UInt8) : Option Machine :=
  let node := m.node
  if b = openBrace ∨ b = openBracket then
    if maxDepth ≤ m.stack.length then none
    else
      some { m with stack :=
        { object := b == openBrace
          phase := if b = openBrace then .keyOrEnd else .valueOrEnd
          node } :: m.stack }
  else if b = quote then
    some { m with token := some (.string { capture := node ≠ .skip, raw := [quote] }) }
  else if isAtomStart b then some { m with token := some (.atom [b] node) }
  else none

/-- A byte between tokens. -/
def punctuate (m : Machine) (b : UInt8) : Option Machine :=
  if isSpace b then some m
  else
    match m.stack with
    | c :: rest =>
      match c.phase with
      | .keyOrEnd | .key =>
        if b = quote then
          some { m with token := some (.string
            { key := true, capture := c.node ≠ .skip ∧ c.node ≠ .leaf, raw := [quote] }) }
        else if b ≠ closeBrace ∨ c.phase ≠ .keyOrEnd then none
        else m.close c rest b
      | .colon =>
        if b ≠ Lib.colon then none else some { m with stack := { c with phase := .value } :: rest }
      | .commaOrEnd =>
        if b = comma then
          some { m with stack := { c with phase := if c.object then .key else .value } :: rest }
        else if b ≠ (if c.object then closeBrace else closeBracket) then none
        else m.close c rest b
      | .value | .valueOrEnd =>
        if b = closeBrace ∨ b = closeBracket then m.close c rest b else m.begin b
    | [] => if m.result.isSome then none else m.begin b

/-- One chunk.  A byte that ends an atom is read again, with no token under way. -/
def parse (m : Machine) (bytes : List UInt8) : Option Machine :=
  match bytes with
  | [] => some m
  | b :: rest =>
    match m.token with
    | some (.string s) =>
      if s.scanning then
        if ((b :: rest).takeWhile isPlain).any fun b => decide (b.toNat < 32) then none
        else
          match _here : (b :: rest).dropWhile isPlain with
          | [] => some m
          | c :: rest' => (m.stringByte s c).bind fun m => m.parse rest'
      else (m.stringByte s b).bind fun m => m.parse rest
    | some (.atom raw node) =>
      if isDelimiter b then
        m.finishAtom.bind fun m => (m.punctuate b).bind fun m => m.parse rest
      else if maxToken ≤ raw.length then none
      else { m with token := some (.atom (raw ++ [b]) node) }.parse rest
    | none => (m.punctuate b).bind fun m => m.parse rest
  termination_by bytes.length
  decreasing_by
    · have shorter : ((b :: rest).dropWhile isPlain).length ≤ (b :: rest).length :=
        (List.dropWhile_suffix _).length_le
      rw [_here] at shorter
      simp only [List.length_cons] at shorter ⊢
      omega
    all_goals simp

/-- The document, when nothing is under way after the last byte. -/
def ended (m : Machine) : Option Json :=
  match m.finishAtom with
  | none => none
  | some m => if m.token.isSome ∨ m.stack ≠ [] then none else m.result

end Machine

/-! ## Chunks -/

structure Projection where
  machine : Machine := {}
  invalid : Bool := false
  utf8Tail : List UInt8 := []

namespace Projection

/-- The tail of the previous chunk is completed byte by byte. -/
def completeTail (tail : List UInt8) : List UInt8 → Option (List UInt8 × List UInt8)
  | [] => some (tail, [])
  | b :: rest =>
    if tail.length < 4 then
      match fromUtf8 (tail ++ [b]) with
      | .ok => some ([], rest)
      | .malformed => none
      | .incomplete _ => completeTail (tail ++ [b]) rest
    else some (tail, b :: rest)

/-- `validate_utf8`, with the tail it leaves. -/
def validateUtf8 (tail bytes : List UInt8) : Option (List UInt8) :=
  match (if tail = [] then some (tail, bytes) else completeTail tail bytes) with
  | none => none
  | some (tail, bytes) =>
    if tail ≠ [] then some tail
    else
      match fromUtf8 bytes with
      | .ok => some []
      | .malformed => none
      | .incomplete validUpTo => some (bytes.drop validUpTo)

variable [Serde]

def feed (p : Projection) (bytes : List UInt8) : Projection :=
  if p.invalid then p
  else
    match validateUtf8 p.utf8Tail bytes, p.machine.parse bytes with
    | some utf8Tail, some machine => { p with machine, utf8Tail }
    | _, _ => { p with invalid := true, machine := {} }

/-- The value that is emitted, when the bytes are one document. -/
def outcome (p : Projection) : Option Json :=
  if p.invalid ∨ p.utf8Tail ≠ [] then none else p.machine.ended

def finish (p : Projection) : Option String :=
  p.outcome.map Serde.render

end Projection

end Agentix.Wire
