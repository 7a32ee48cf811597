import Mathlib.Data.List.Sort
import Mathlib.Data.List.Zip

/-! # The first rows of an order

A selection rearranges rows so that the first ones of an order come first.  Cut off and sorted they
are the first rows of the sorted list, whatever the rearrangement.
-/

namespace Agentix.Lib

open List

section Selection

variable {α : Type} (le : α → α → Prop)

/-- A rearrangement of rows whose `n` first ones come first, in some order. -/
structure Selector where
  select : Nat → List α → List α
  perm : ∀ n rows, (select n rows).Perm rows
  first : ∀ n rows, ∀ a ∈ (select n rows).take n, ∀ b ∈ (select n rows).drop n, le a b

variable {le} [DecidableRel le] [Std.Total le] [IsTrans α le] {rows : List α}

/-- To sort the rows is one way to select. -/
def Selector.sorting : Selector le where
  select := fun _ rows => rows.insertionSort le
  perm := fun _ rows => perm_insertionSort le rows
  first := by
    intro n rows a here b there
    have sorted := pairwise_insertionSort le rows
    rw [← take_append_drop n (rows.insertionSort le), pairwise_append] at sorted
    exact sorted.2.2 a here b there

/-- Which rows are selected does not depend on the rearrangement. -/
theorem Selector.sort_take (selector : Selector le) (n : Nat)
    (antisymm : ∀ a ∈ rows, ∀ b ∈ rows, le a b → le b a → a = b) :
    ((selector.select n rows).take n).insertionSort le = (rows.insertionSort le).take n := by
  let selected := (selector.select n rows).take n
  let others := (selector.select n rows).drop n
  have parts : selected ++ others = selector.select n rows := take_append_drop n _
  have perm : (selected.insertionSort le ++ others.insertionSort le).Perm
      (rows.insertionSort le) := by
    refine ((perm_insertionSort le _).append (perm_insertionSort le _)).trans ?_
    rw [parts]
    exact (selector.perm n rows).trans (perm_insertionSort le rows).symm
  have sorted : (selected.insertionSort le ++ others.insertionSort le).Pairwise le := by
    refine pairwise_append.mpr ⟨pairwise_insertionSort le _,
      pairwise_insertionSort le _, fun a here b there => ?_⟩
    exact selector.first n rows a ((mem_insertionSort le).mp here) b
      ((mem_insertionSort le).mp there)
  have whole : selected.insertionSort le ++ others.insertionSort le = rows.insertionSort le := by
    refine perm.eq_of_pairwise (fun a b here there => ?_) sorted (pairwise_insertionSort le _)
    have mem : a ∈ rows := (mem_insertionSort le).mp (perm.mem_iff.mp here)
    exact antisymm a mem b ((mem_insertionSort le).mp there)
  rw [← whole]
  by_cases few : rows.length ≤ n
  · have none : others = [] := by
      refine drop_eq_nil_of_le ?_
      rw [(selector.perm n rows).length_eq]
      exact few
    rw [none]
    simp only [insertionSort_nil, append_nil]
    refine (take_of_length_le ?_).symm
    rw [length_insertionSort]
    exact length_take_le n _
  · refine (take_left' ?_).symm
    rw [length_insertionSort, length_take, (selector.perm n rows).length_eq]
    omega

/-- A row that is among the first ones does not come after one that is not. -/
theorem le_of_mem_take_sort {n : Nat} {a b : α} (here : a ∈ (rows.insertionSort le).take n)
    (there : b ∈ rows) (left : b ∉ (rows.insertionSort le).take n) : le a b := by
  have sorted := pairwise_insertionSort le rows
  rw [← take_append_drop n (rows.insertionSort le), pairwise_append] at sorted
  have mem := (mem_insertionSort le).mpr there
  rw [← take_append_drop n (rows.insertionSort le), mem_append] at mem
  exact sorted.2.2 a here b (mem.resolve_left left)

end Selection

/-! ## Pairs of rows -/

section Pairs

variable {α β : Type} {left : List α} {right : List β} {a a' : α} {b b' : β}

theorem zip_right_unique (distinct : left.Nodup) (here : (a, b) ∈ left.zip right)
    (there : (a, b') ∈ left.zip right) : b = b' := by
  obtain ⟨i, bound, same⟩ := getElem_of_mem here
  obtain ⟨j, bound', same'⟩ := getElem_of_mem there
  simp only [getElem_zip, Prod.mk.injEq] at same same'
  have index : i = j := by
    apply (distinct.getElem_inj_iff).mp
    rw [same.1, same'.1]
  subst index
  exact same.2.symm.trans same'.2

theorem zip_left_unique (distinct : right.Nodup) (here : (a, b) ∈ left.zip right)
    (there : (a', b) ∈ left.zip right) : a = a' := by
  obtain ⟨i, bound, same⟩ := getElem_of_mem here
  obtain ⟨j, bound', same'⟩ := getElem_of_mem there
  simp only [getElem_zip, Prod.mk.injEq] at same same'
  have index : i = j := by
    apply (distinct.getElem_inj_iff).mp
    rw [same.2, same'.2]
  subst index
  exact same.1.symm.trans same'.1

/-- A list that is not longer has a partner for each of its rows. -/
theorem exists_zip_left (fits : left.length ≤ right.length) (mem : a ∈ left) :
    ∃ b, (a, b) ∈ left.zip right := by
  obtain ⟨i, bound, same⟩ := getElem_of_mem mem
  have here : i < (left.zip right).length := by
    rw [length_zip]
    omega
  refine ⟨right[i], ?_⟩
  have pair := getElem_mem here
  rwa [getElem_zip, same] at pair

theorem exists_zip_right (fits : right.length ≤ left.length) (mem : b ∈ right) :
    ∃ a, (a, b) ∈ left.zip right := by
  obtain ⟨i, bound, same⟩ := getElem_of_mem mem
  have here : i < (left.zip right).length := by
    rw [length_zip]
    omega
  refine ⟨left[i], ?_⟩
  have pair := getElem_mem here
  rwa [getElem_zip, same] at pair

end Pairs

end Agentix.Lib
