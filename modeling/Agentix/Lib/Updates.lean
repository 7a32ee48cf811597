import Mathlib.Logic.Function.Basic

/-! # Partial maps with one changed entry -/

namespace Agentix.Lib

open Function

variable {κ υ : Type} [DecidableEq κ] {entries : κ → Option υ} {key other : κ} {value old : υ}

theorem of_update_none (found : update entries key none other = some value) :
    other ≠ key ∧ entries other = some value := by
  by_cases same : other = key
  · rw [same, update_self] at found
    cases found
  · exact ⟨same, (update_of_ne same _ _).symm.trans found⟩

theorem of_update_some (found : update entries key (some value) other = some old) :
    (other = key ∧ old = value) ∨ (other ≠ key ∧ entries other = some old) := by
  by_cases same : other = key
  · rw [same, update_self, Option.some.injEq] at found
    exact .inl ⟨same, found.symm⟩
  · exact .inr ⟨same, (update_of_ne same _ _).symm.trans found⟩

end Agentix.Lib
