import Mathlib.Data.List.Nodup
import Mathlib.Data.List.Perm.Subperm

/-! # Unused names

A name that is taken is numbered until it is free.  Where the numbered names have different keys, as
many attempts as there are used keys and one more find a free one.
-/

namespace Agentix.Lib

open List Function

theorem toDigits_injective {m n : Nat} (same : Nat.toDigits 10 m = Nat.toDigits 10 n) : m = n := by
  have read := congrArg (fun digits => Nat.ofDigitChars 10 digits 0) same
  simpa only [Nat.ofDigitChars_toDigits (b := 10) (by decide) (by decide)] using read

theorem numbered_injective {base : String} {m n : Nat} (same : s!"{base}-{m}" = s!"{base}-{n}") :
    m = n := by
  have written : m.repr = n.repr := by simpa using same
  rw [Nat.repr_eq_ofList_toDigits, Nat.repr_eq_ofList_toDigits, String.ofList_inj] at written
  exact toDigits_injective written

theorem numbered_ne (base : String) (n : Nat) : s!"{base}-{n}" ≠ base := by
  intro same
  have length := congrArg String.length same
  have hyphen : (toString "-").length = 1 := rfl
  simp only [String.length_append, hyphen] at length
  have kept : (toString base).length = base.length := rfl
  omega

section Search

variable {ν κ : Type} [DecidableEq κ] (key : ν → κ) (used : List κ) (candidate : Nat → ν)

/-- The first candidate from `i` on whose key is not used, or the last one that is tried. -/
def firstFree : Nat → Nat → ν
  | 0, i => candidate i
  | fuel + 1, i =>
    if key (candidate i) ∈ used then firstFree fuel (i + 1) else candidate i

variable {key used candidate}

/-- Where the search ends with a used key, it has only met used ones. -/
theorem firstFree_used {fuel i : Nat} (taken : key (firstFree key used candidate fuel i) ∈ used) :
    ∀ j ≤ fuel, key (candidate (i + j)) ∈ used := by
  induction fuel generalizing i with
  | zero =>
    intro j least
    obtain rfl : j = 0 := by omega
    exact taken
  | succ fuel ih =>
    intro j least
    unfold firstFree at taken
    by_cases here : key (candidate i) ∈ used
    · rw [if_pos here] at taken
      cases j with
      | zero => exact here
      | succ j =>
        have later := ih taken j (by omega)
        rwa [Nat.add_assoc, Nat.add_comm 1 j] at later
    · rw [if_neg here] at taken
      exact absurd taken here

/-- Candidates with keys of their own outnumber the used keys. -/
theorem firstFree_unused (apart : Injective fun i => key (candidate i)) :
    key (firstFree key used candidate used.length 0) ∉ used := by
  intro taken
  have tried := firstFree_used taken
  have keys : ((range (used.length + 1)).map fun i => key (candidate i)).Nodup :=
    nodup_range.map apart
  have all_used : (range (used.length + 1)).map (fun i => key (candidate i)) ⊆ used := by
    intro k mem
    obtain ⟨i, tried_i, rfl⟩ := mem_map.mp mem
    have here := tried i (Nat.lt_succ_iff.mp (mem_range.mp tried_i))
    rwa [Nat.zero_add] at here
  have count := (subperm_of_subset keys all_used).length_le
  rw [length_map, length_range] at count
  omega

end Search

end Agentix.Lib
