import Agentix.Lib.Fallible

/-! # Strings of the standard library

The operations of `str` the task store uses, over the character list of a
string so that they compute.
-/

namespace Agentix.TaskStore

/-- `char::is_whitespace`: the Unicode `White_Space` property. -/
def isWhitespace (c : Char) : Bool :=
  let n := c.toNat
  (9 ≤ n && n ≤ 13) || n == 32 || n == 0x85 || n == 0xA0 || n == 0x1680 ||
    (0x2000 ≤ n && n ≤ 0x200A) || n == 0x2028 || n == 0x2029 || n == 0x202F || n == 0x205F ||
    n == 0x3000

/-- `char::is_control`: the Unicode general category `Cc`. -/
def isControl (c : Char) : Bool :=
  let n := c.toNat
  n ≤ 0x1F || (0x7F ≤ n && n ≤ 0x9F)

/-- `char::to_ascii_uppercase`. -/
def toAsciiUppercase (c : Char) : Char :=
  if 'a' ≤ c ∧ c ≤ 'z' then Char.ofNat (c.toNat - 32) else c

/-- `s.trim().is_empty()`. -/
def blank (s : String) : Bool :=
  s.toList.all isWhitespace

/-- `s.starts_with(prefix)`. -/
def startsWith (s lead : String) : Bool :=
  lead.toList.isPrefixOf s.toList

/-- `s.strip_prefix(lead)`. -/
def stripPrefix (s lead : String) : Option String :=
  if startsWith s lead then some (String.ofList (s.toList.drop lead.toList.length)) else none

/-- `s.trim_start()`. -/
def trimStart (s : String) : String :=
  String.ofList (s.toList.dropWhile isWhitespace)

/-- The pieces of `s.split(c)`. -/
def splitOn (c : Char) : List Char → List (List Char)
  | [] => [[]]
  | x :: xs =>
    if x = c then [] :: splitOn c xs
    else match splitOn c xs with
      | [] => [[x]]
      | piece :: pieces => (x :: piece) :: pieces

/-- `s.split_once(c)`. -/
def splitOnce (c : Char) (s : String) : Option (String × String) :=
  match s.toList.span (· != c) with
  | (_, []) => none
  | (before, _ :: after) => some (String.ofList before, String.ofList after)

/-- `s.rsplit_once(c)`. -/
def rsplitOnce (c : Char) (s : String) : Option (String × String) :=
  match s.toList.reverse.span (· != c) with
  | (_, []) => none
  | (after, _ :: before) => some (String.ofList before.reverse, String.ofList after.reverse)

/-- The text after the first occurrence of `pattern`, the second half of `s.split_once(pattern)`. -/
def afterFirst (pattern : List Char) : List Char → Option (List Char)
  | [] => if pattern = [] then some [] else none
  | x :: xs =>
    if pattern.isPrefixOf (x :: xs) then some ((x :: xs).drop pattern.length)
    else afterFirst pattern xs

/-- The first half of `s.split_once('_')`, for identifiers `prefix_suffix`, read from its end. -/
def suffixAfterUnderscore (id : String) : String :=
  match splitOnce '_' id with
  | some (_, suffix) => suffix
  | none => id

end Agentix.TaskStore
