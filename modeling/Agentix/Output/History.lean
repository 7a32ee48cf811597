import Mathlib.Data.List.Basic

/-! # Text that is seen twice

The notifications of a session can start before or after the snapshot of its history.  The text they
share is kept once: the overlap of the two texts is found in their bytes, with a table of how much of
the observed text each of its starts overlaps with.
-/

namespace Agentix.Output

/-- `s.as_bytes()`. -/
def bytes (text : List Char) : List UInt8 := text.flatMap String.utf8EncodeChar

/-- `s.contains(pattern)`. -/
def contains (text pattern : List Char) : Bool :=
  text.tails.any fun rest => pattern.isPrefixOf rest

/-- `&s[n..]`, which panics within a character and after the end. -/
def sliceFrom : List Char → Nat → Option (List Char)
  | text, 0 => some text
  | [], _ + 1 => none
  | c :: rest, n + 1 =>
    if c.utf8Size ≤ n + 1 then sliceFrom rest (n + 1 - c.utf8Size) else none

/-- The inner loop: shorter overlaps are tried until one goes on with the byte.  In the history an
overlap with the whole pattern is given up; while the table is built there is none.  An index out of
bounds panics; the loop ends, as each overlap is shorter. -/
def fallBack (pattern : List UInt8) (table : List Nat) (byte : UInt8) (inHistory : Bool) :
    Nat → Nat → Option Nat
  | 0, _ => none
  | fuel + 1, length =>
    if length = 0 then some 0
    else if inHistory && length == pattern.length then do
      fallBack pattern table byte inHistory fuel (← table[length - 1]?)
    else do
      if byte = (← pattern[length]?) then some length
      else fallBack pattern table byte inHistory fuel (← table[length - 1]?)

/-- The overlap after one more byte. -/
def advance (pattern : List UInt8) (table : List Nat) (byte : UInt8) (inHistory : Bool)
    (length : Nat) : Option Nat := do
  let length ← fallBack pattern table byte inHistory (length + 1) length
  if byte = (← pattern[length]?) then some (length + 1) else some length

/-- The entry of the table at an index, from those before it. -/
def extendTable (pattern : List UInt8) (table : List Nat) (index : Nat) : Option (List Nat) := do
  let length ← advance pattern table (← pattern[index]?) false (← table[index - 1]?)
  some (table.set index length)

/-- `prefix`: how much of the pattern each of its starts ends with. -/
def prefixTable (pattern : List UInt8) : Option (List Nat) :=
  (List.range' 1 (pattern.length - 1)).foldlM (extendTable pattern)
    (List.replicate pattern.length 0)

def mergeDelta (history observed : String) : Option String :=
  if contains history.toList observed.toList then some history
  else if history.toList.isPrefixOf observed.toList then some observed
  else do
    let pattern := bytes observed.toList
    let table ← prefixTable pattern
    let overlap ← (bytes history.toList).foldlM
      (fun overlap byte => advance pattern table byte true overlap) 0
    let rest ← sliceFrom observed.toList overlap
    some (history ++ String.ofList rest)

end Agentix.Output
