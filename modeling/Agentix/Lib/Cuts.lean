import Mathlib.Data.List.Basic
import Mathlib.Algebra.GroupWithZero.Nat

/-! # Texts by their bytes

A text is cut at a number of bytes.  A cut that is inside a character fails; the largest cut that is
not is the boundary below it.
-/

namespace Agentix.Lib.Cuts

/-- The length of a text in bytes. -/
def size (text : List Char) : Nat :=
  (text.map Char.utf8Size).sum

/-- The largest position up to a number of bytes that is not inside a character. -/
def floorBoundary : List Char → Nat → Nat
  | [], _ => 0
  | c :: rest, n => if c.utf8Size ≤ n then c.utf8Size + floorBoundary rest (n - c.utf8Size) else 0

/-- The text before and after a number of bytes. -/
def cut : List Char → Nat → Option (List Char × List Char)
  | text, 0 => some ([], text)
  | [], _ + 1 => none
  | c :: rest, n + 1 =>
    if c.utf8Size ≤ n + 1 then
      (cut rest (n + 1 - c.utf8Size)).map fun parts => (c :: parts.1, parts.2)
    else none

variable {a b text before after : List Char} {n : Nat}

@[simp] theorem size_nil : size [] = 0 := rfl

@[simp] theorem size_cons (c : Char) : size (c :: text) = c.utf8Size + size text := rfl

@[simp] theorem size_append : size (a ++ b) = size a + size b := by
  simp [size]

theorem size_pos (nonempty : text ≠ []) : 0 < size text := by
  obtain ⟨c, rest, rfl⟩ := List.exists_cons_of_ne_nil nonempty
  have := c.utf8Size_pos
  rw [size_cons]
  omega

theorem floorBoundary_le (text : List Char) (n : Nat) : floorBoundary text n ≤ n := by
  induction text generalizing n with
  | nil => exact Nat.zero_le n
  | cons c rest ih =>
    have shorter := ih (n - c.utf8Size)
    rw [floorBoundary]
    split
    · omega
    · exact Nat.zero_le n

theorem cut_zero (text : List Char) : cut text 0 = some ([], text) := by
  cases text <;> rfl

theorem cut_size (before after : List Char) : cut (before ++ after) (size before) = some (before, after) := by
  induction before with
  | nil => exact cut_zero after
  | cons c rest ih =>
    have positive := c.utf8Size_pos
    have sum : size (c :: rest) = (c.utf8Size - 1 + size rest) + 1 := by
      rw [size_cons]
      omega
    have less : c.utf8Size - 1 + size rest + 1 - c.utf8Size = size rest := by omega
    rw [sum, List.cons_append, cut, if_pos (by omega), less, ih]
    rfl

theorem eq_of_cut (found : cut text n = some (before, after)) :
    text = before ++ after ∧ size before = n := by
  induction text generalizing n before with
  | nil =>
    cases n with
    | zero =>
      cases found
      exact ⟨rfl, rfl⟩
    | succ n => cases found
  | cons c rest ih =>
    cases n with
    | zero =>
      cases found
      exact ⟨rfl, rfl⟩
    | succ n =>
      rw [cut] at found
      split at found
      · rw [Option.map_eq_some_iff] at found
        obtain ⟨⟨early, late⟩, found, same⟩ := found
        cases same
        obtain ⟨rfl, length⟩ := ih found
        refine ⟨rfl, ?_⟩
        rw [size_cons, length]
        omega
      · cases found

/-- A cut at a boundary is never inside a character. -/
theorem exists_cut_floorBoundary (text : List Char) (n : Nat) :
    ∃ before after, cut text (floorBoundary text n) = some (before, after) := by
  suffices parts : ∃ before after, text = before ++ after ∧ size before = floorBoundary text n by
    obtain ⟨before, after, rfl, length⟩ := parts
    exact ⟨before, after, by rw [← length]; exact cut_size before after⟩
  induction text generalizing n with
  | nil => exact ⟨[], [], rfl, rfl⟩
  | cons c rest ih =>
    rw [floorBoundary]
    split
    · obtain ⟨before, after, rfl, length⟩ := ih (n - c.utf8Size)
      exact ⟨c :: before, after, rfl, by rw [size_cons, length]⟩
    · exact ⟨[], c :: rest, rfl, rfl⟩

end Agentix.Lib.Cuts
