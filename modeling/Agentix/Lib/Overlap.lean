import Mathlib.Data.List.Infix

/-! # Overlaps

How much of a pattern the end of a text is the start of.  The longest overlap with a text that grows
by one element is found among the overlaps with the text before; and these are, besides the longest,
the overlaps of the pattern with its own start.
-/

namespace Agentix.Lib

open List

variable {α : Type} {pattern text : List α} {x : α} {j k : Nat}

/-- The first `k` elements of the pattern end the text. -/
def Overlaps (pattern text : List α) (k : Nat) : Prop :=
  k ≤ pattern.length ∧ pattern.take k <:+ text

/-- No overlap is longer. -/
structure Longest (pattern text : List α) (k : Nat) : Prop where
  overlaps : Overlaps pattern text k
  le_of_overlaps : ∀ j, Overlaps pattern text j → j ≤ k

theorem Overlaps.zero (pattern text : List α) : Overlaps pattern text 0 := by
  simp [Overlaps]

theorem Overlaps.le_length (overlaps : Overlaps pattern text k) : k ≤ text.length := by
  have bound := overlaps.2.length_le
  rwa [length_take, Nat.min_eq_left overlaps.1] at bound

theorem Longest.nil (pattern : List α) : Longest pattern [] 0 where
  overlaps := .zero pattern []
  le_of_overlaps := fun _ overlaps => overlaps.le_length

theorem overlaps_concat : Overlaps pattern (text ++ [x]) (k + 1) ↔
    Overlaps pattern text k ∧ pattern[k]? = some x := by
  constructor
  · rintro ⟨inside, ends⟩
    rw [take_add_one, getElem?_eq_getElem (by omega), Option.toList_some] at ends
    obtain ⟨before, split⟩ := ends
    rw [← append_assoc] at split
    obtain ⟨same, last⟩ := append_inj' split rfl
    refine ⟨⟨by omega, before, same⟩, ?_⟩
    rw [getElem?_eq_getElem (by omega), singleton_inj.mp last]
  · rintro ⟨⟨-, before, same⟩, next⟩
    have inside := (List.getElem?_eq_some_iff.mp next).1
    refine ⟨inside, before, ?_⟩
    rw [take_add_one, next, ← same]
    simp

/-- The shorter overlaps are the overlaps of the pattern with the longer one. -/
theorem Overlaps.iff_of_lt (overlaps : Overlaps pattern text k) (shorter : j < k) :
    Overlaps pattern text j ↔ Overlaps pattern (pattern.take k).tail j := by
  have inside := overlaps.1
  have size : (pattern.take j).length = j := by
    rw [length_take]
    omega
  constructor
  · rintro ⟨bound, ends⟩
    refine ⟨bound, ?_⟩
    have within : pattern.take j <:+ pattern.take k :=
      suffix_of_suffix_length_le ends overlaps.2 (by simp only [length_take]; omega)
    cases started : pattern.take k with
    | nil =>
      have := congrArg length started
      rw [length_take, length_nil] at this
      omega
    | cons first rest =>
      rw [started] at within
      obtain same | within := suffix_cons_iff.mp within
      · have := congrArg length (same.trans started.symm)
        rw [length_take, length_take] at this
        omega
      · exact within
  · rintro ⟨bound, ends⟩
    exact ⟨bound, ends.trans ((tail_suffix _).trans overlaps.2)⟩

theorem Overlaps.next (overlaps : Overlaps pattern text k) (own : Longest pattern (pattern.take k).tail j)
    (some : 0 < k) : j < k ∧ Overlaps pattern text j ∧
      ∀ i, Overlaps pattern text i → i < k → i ≤ j := by
  have bound := own.overlaps.le_length
  rw [length_tail, length_take] at bound
  have shorter : j < k := by
    have := overlaps.1
    omega
  exact ⟨shorter, (overlaps.iff_of_lt shorter).mpr own.overlaps,
    fun i also below => own.le_of_overlaps i ((overlaps.iff_of_lt below).mp also)⟩

theorem Longest.concat (overlaps : Overlaps pattern text k) (goes : pattern[k]? = some x)
    (longest : ∀ j, Overlaps pattern text j → k < j → pattern[j]? ≠ some x) :
    Longest pattern (text ++ [x]) (k + 1) where
  overlaps := overlaps_concat.mpr ⟨overlaps, goes⟩
  le_of_overlaps := by
    intro j also
    cases j with
    | zero => omega
    | succ j =>
      obtain ⟨also, next⟩ := overlaps_concat.mp also
      by_contra above
      exact longest j also (by omega) next

theorem Longest.concat_zero (none : ∀ j, Overlaps pattern text j → pattern[j]? ≠ some x) :
    Longest pattern (text ++ [x]) 0 where
  overlaps := .zero pattern _
  le_of_overlaps := by
    intro j also
    cases j with
    | zero => omega
    | succ j =>
      obtain ⟨also, next⟩ := overlaps_concat.mp also
      exact absurd next (none j also)

end Agentix.Lib
