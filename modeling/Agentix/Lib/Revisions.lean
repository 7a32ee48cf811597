import Agentix.Lib.Fallible
import Agentix.Lib.Rows

/-! # Revised rows

A table under optimistic concurrency: every row carries a revision, and a writer that read an
older one must be refused.  `Revises` says that a change of the table raised the revision of
every row it changed; the lemmas say so for edits in place, appended and removed rows, and for
one change after another.
-/

namespace Agentix.Lib

open List

section Revisions

variable {ρ κ : Type} (key : ρ → κ) (revision : ρ → Int)

variable {row row' : ρ}

/-- The row as it was, or under a greater revision. -/
def Raised (row row' : ρ) : Prop :=
  key row' = key row ∧ (row' = row ∨ revision row < revision row')

/-- Every row comes from one under its key, or is new under a key that may be. -/
def Revises (new : κ → Prop) (before after : List ρ) : Prop :=
  ∀ row' ∈ after, (∃ row ∈ before, Raised key revision row row') ∨
    (new (key row') ∧ 0 < revision row')

def Ahead (k : κ) (before after : List ρ) : Prop :=
  ∀ row' ∈ after, key row' = k → ∀ row ∈ before, key row = k → revision row < revision row'

variable {key revision} {new : κ → Prop} {before mid after : List ρ}

theorem Raised.refl (row : ρ) : Raised key revision row row := ⟨rfl, .inl rfl⟩

theorem Raised.up (same : key row' = key row) (greater : revision row < revision row') :
    Raised key revision row row' :=
  ⟨same, .inr greater⟩

theorem Raised.le (raised : Raised key revision row row') :
    revision row ≤ revision row' := by
  cases raised.2 with
  | inl same => exact same ▸ Int.le_refl _
  | inr greater => omega

theorem Raised.trans {a b c : ρ} (first : Raised key revision a b)
    (second : Raised key revision b c) : Raised key revision a c := by
  refine ⟨second.1.trans first.1, ?_⟩
  cases second.2 with
  | inl same =>
    rw [same]
    exact first.2
  | inr greater =>
    have least := first.le
    exact .inr (by omega)

theorem mem_modify {i : Nat} {f : ρ → ρ} (mem : row' ∈ before.modify i f) :
    row' ∈ before ∨ ∃ row, before[i]? = some row ∧ row' = f row := by
  obtain ⟨n, bound, rfl⟩ := mem_iff_getElem.mp mem
  rw [getElem_modify]
  simp only [length_modify] at bound
  split
  · rename_i here
    subst here
    exact .inr ⟨before[i], getElem?_eq_getElem bound, rfl⟩
  · exact .inl (getElem_mem bound)

theorem modify_mem (i : Fin before.length) (f : ρ → ρ) : f (before.get i) ∈ before.modify i f :=
  mem_iff_getElem.mpr ⟨i, by simp, by simp⟩

theorem modify_last {α : Type} (init : List α) (last : α) (f : α → α) :
    (init ++ [last]).modify init.length f = init ++ [f last] := by
  induction init with
  | nil => rfl
  | cons first rest ih =>
    rw [cons_append, length_cons, modify_succ_cons, ih,
      cons_append]

theorem get_replaced {i : Nat} (j : Fin (before.modify i fun _ => row).length)
    (same : (j : Nat) = i) : (before.modify i fun _ => row).get j = row := by
  simp [same]

/-! ## Changes -/

namespace Revises

variable {f : ρ → ρ}

theorem refl : Revises key revision new before before :=
  fun row mem => .inl ⟨row, mem, .refl row⟩

theorem trans (first : Revises key revision new before mid)
    (second : Revises key revision new mid after) : Revises key revision new before after := by
  intro row' mem'
  cases second row' mem' with
  | inr drawn => exact .inr drawn
  | inl found =>
    obtain ⟨row, mem, raised⟩ := found
    cases first row mem with
    | inl found =>
      obtain ⟨old, old_mem, earlier⟩ := found
      exact .inl ⟨old, old_mem, earlier.trans raised⟩
    | inr drawn =>
      have least := raised.le
      refine .inr ⟨?_, by omega⟩
      rw [raised.1]
      exact drawn.1

theorem mono {new' : κ → Prop} (revises : Revises key revision new before after)
    (more : ∀ k, new k → new' k) : Revises key revision new' before after :=
  fun row' mem => (revises row' mem).imp_right fun added => ⟨more _ added.1, added.2⟩

theorem of_subset (fewer : ∀ row ∈ after, row ∈ before) : Revises key revision new before after :=
  fun row mem => .inl ⟨row, fewer row mem, .refl row⟩

theorem filter {p : ρ → Bool} : Revises key revision new before (before.filter p) :=
  of_subset fun _ mem => (mem_filter.mp mem).1

theorem map (raises : ∀ row ∈ before, Raised key revision row (f row)) :
    Revises key revision new before (before.map f) := by
  intro row' mem'
  obtain ⟨row, mem, rfl⟩ := mem_map.mp mem'
  exact .inl ⟨row, mem, raises row mem⟩

theorem mapM {edit : ρ → Fallible ρ} (ok : before.mapM edit = .ok after)
    (raises : ∀ row row', edit row = .ok row' → Raised key revision row row') :
    Revises key revision new before after := by
  induction before generalizing after with
  | nil =>
    simp only [mapM_nil, pure_ok] at ok
    subst ok
    exact refl
  | cons head tail ih =>
    simp only [mapM_cons, bind_ok, pure_ok] at ok
    obtain ⟨head', edited, tail', rest, rfl⟩ := ok
    intro row' mem'
    cases mem' with
    | head => exact .inl ⟨head, mem_cons_self, raises head head' edited⟩
    | tail _ later =>
      refine (ih rest row' later).imp_left ?_
      rintro ⟨row, mem, raised⟩
      exact ⟨row, mem_cons_of_mem _ mem, raised⟩

theorem modify {i : Nat} (raises : ∀ row, before[i]? = some row → Raised key revision row (f row)) :
    Revises key revision new before (before.modify i f) := by
  intro row' mem'
  cases mem_modify mem' with
  | inl old => exact .inl ⟨row', old, .refl row'⟩
  | inr edited =>
    obtain ⟨row, found, rfl⟩ := edited
    exact .inl ⟨row, mem_of_getElem? found, raises row found⟩

theorem replace {i : Fin before.length} {row' : ρ}
    (raised : Raised key revision (before.get i) row') :
    Revises key revision new before (before.modify i fun _ => row') := by
  refine modify fun row found => ?_
  have same : before.get i = row := by simpa using found
  exact same ▸ raised

theorem append {row : ρ} (drawn : new (key row)) (positive : 0 < revision row) :
    Revises key revision new before (before ++ [row]) := by
  intro row' mem'
  cases mem_append.mp mem' with
  | inl old => exact .inl ⟨row', old, .refl row'⟩
  | inr added =>
    rw [mem_singleton.mp added]
    exact .inr ⟨drawn, positive⟩

theorem modify_ahead {k : κ} {i : Nat} (revises : Revises key revision new before mid)
    (ahead : Ahead key revision k before mid)
    (here : ∀ row, mid[i]? = some row → key row = k ∧ key (f row) = k ∧ revision row ≤ revision (f row)) :
    Revises key revision new before (mid.modify i f) := by
  intro row' mem'
  cases mem_modify mem' with
  | inl old => exact revises row' old
  | inr edited =>
    obtain ⟨row, found, rfl⟩ := edited
    obtain ⟨named, named', least⟩ := here row found
    have same := named'.trans named.symm
    have mem := mem_of_getElem? found
    refine (revises row mem).imp ?_ ?_
    · rintro ⟨old, old_mem, raised⟩
      have greater := ahead row mem named old old_mem (raised.1.symm.trans named)
      exact ⟨old, old_mem, .up (same.trans raised.1) (by omega)⟩
    · rintro ⟨drawn, positive⟩
      rw [same]
      exact ⟨drawn, by omega⟩

end Revises

theorem Ahead.modify {k : κ} {i : Nat} {f : ρ → ρ} (ahead : Ahead key revision k before mid)
    (grows : ∀ row, key (f row) = key row ∧ revision row ≤ revision (f row)) :
    Ahead key revision k before (mid.modify i f) := by
  intro row' mem' named
  cases mem_modify mem' with
  | inl old => exact ahead row' old named
  | inr edited =>
    obtain ⟨row, found, rfl⟩ := edited
    obtain ⟨same, least⟩ := grows row
    intro old old_mem old_named
    have below := ahead row (mem_of_getElem? found) (same.symm.trans named) old old_mem
      old_named
    omega

theorem Ahead.replace (distinct : Distinct key before) {i : Fin before.length} {row' : ρ}
    (same : key row' = key (before.get i)) (greater : revision (before.get i) < revision row') :
    Ahead key revision (key row') before (before.modify i fun _ => row') := by
  intro row mem named
  have only : ∀ old ∈ before, key old = key row' → old = before.get i :=
    fun old old_mem old_named => distinct.eq_of_key old_mem (get_mem _ _)
      (old_named.trans same)
  obtain ⟨n, bound, rfl⟩ := mem_iff_getElem.mp mem
  rw [getElem_modify] at named ⊢
  simp only [length_modify] at bound
  by_cases here : (i : Nat) = n
  · simp only [if_pos here]
    intro old old_mem old_named
    rw [only old old_mem old_named]
    exact greater
  · rw [if_neg here] at named
    exact absurd (distinct.index_eq i.isLt bound
      (congrArg key (only _ (getElem_mem bound) named)).symm) here

theorem Ahead.of_unused {k : κ} (unused : ∀ old ∈ before, key old ≠ k) :
    Ahead key revision k before after :=
  fun _ _ _ old old_mem old_named => absurd old_named (unused old old_mem)

/-- A row under the key of an earlier one is that row or beyond its revision. -/
def Supersedes (key : ρ → κ) (revision : ρ → Int) (before after : List ρ) : Prop :=
  ∀ row ∈ before, ∀ row' ∈ after, key row' = key row → row' ≠ row → revision row < revision row'

/-- In a table with distinct keys that new rows do not take, a row only changes under a greater
revision. -/
theorem Revises.supersedes (revises : Revises key revision new before after)
    (distinct : Distinct key before) (unused : ∀ row ∈ before, ¬ new (key row)) :
    Supersedes key revision before after := by
  intro row mem row' mem' same ne
  cases revises row' mem' with
  | inr added => exact absurd (same ▸ added.1) (unused row mem)
  | inl found =>
    obtain ⟨old, old_mem, kept, raised⟩ := found
    obtain rfl : old = row := distinct.eq_of_key old_mem mem (kept.symm.trans same)
    exact raised.resolve_left ne

end Revisions

end Agentix.Lib
