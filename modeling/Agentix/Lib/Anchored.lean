import Mathlib.Data.List.Perm.Basic

/-! # Placing items at anchors

New items go in front of the old ones they are anchored at.  In an ordered batch an item that is new
is anchored at the next item of the batch that is old.
-/

namespace Agentix.Lib

open List Prod

/-! ## Placing -/

section Placing

variable {α : Type} {old : List α} {fresh : List (α × Nat)}

def anchoredAt (fresh : List (α × Nat)) (i : Nat) : List α :=
  (fresh.filter fun item => item.2 = i).map fst

/-- The items anchored at an old one stand in front of it, and those anchored past the end last. -/
def placed (old : List α) (fresh : List (α × Nat)) : List α :=
  (old.zipIdx.flatMap fun entry => anchoredAt fresh entry.2 ++ [entry.1]) ++
    anchoredAt fresh old.length

theorem mem_anchoredAt {x : α} {i : Nat} : x ∈ anchoredAt fresh i ↔ (x, i) ∈ fresh := by
  simp [anchoredAt]

theorem placed_nil : placed old [] = old := by
  have none_anchored : ∀ i, anchoredAt ([] : List (α × Nat)) i = [] := fun _ => rfl
  simp only [placed, none_anchored, nil_append, append_nil]
  rw [← map_eq_flatMap, zipIdx_map_fst]

example : placed [1, 2] [(3, 1), (4, 2)] = [1, 3, 2, 4] := by decide +kernel

theorem placed_from_perm {k last : Nat} (length : last = k + old.length) :
    (((old.zipIdx k).flatMap fun entry => anchoredAt fresh entry.2 ++ [entry.1]) ++
      anchoredAt fresh last).Perm
        (old ++ (fresh.filter fun item => k ≤ item.2 && item.2 ≤ last).map fst) := by
  induction old generalizing k with
  | nil =>
    have only : (fresh.filter fun item => k ≤ item.2 && item.2 ≤ last) =
        fresh.filter fun item => item.2 = last := by
      refine filter_congr fun item _ => ?_
      rw [← Bool.decide_and, decide_eq_decide]
      simp only [length_nil] at length
      omega
    rw [only]
    simp [anchoredAt]
  | cons e rest ih =>
    have further : last = k + 1 + rest.length := by
      rw [length, length_cons]
      omega
    have here : ((fresh.filter fun item => k ≤ item.2 && item.2 ≤ last).filter
        fun item => item.2 = k) = fresh.filter fun item => item.2 = k := by
      rw [filter_filter]
      refine filter_congr fun item _ => ?_
      rw [← Bool.decide_and, ← Bool.decide_and, decide_eq_decide]
      omega
    have later : ((fresh.filter fun item => k ≤ item.2 && item.2 ≤ last).filter
        fun item => !decide (item.2 = k)) =
          fresh.filter fun item => k + 1 ≤ item.2 && item.2 ≤ last := by
      rw [filter_filter]
      refine filter_congr fun item _ => ?_
      rw [← decide_not, ← Bool.decide_and, ← Bool.decide_and, ← Bool.decide_and, decide_eq_decide]
      omega
    have split := filter_append_perm (fun item : α × Nat => decide (item.2 = k))
      (fresh.filter fun item => k ≤ item.2 && item.2 ≤ last)
    rw [here, later] at split
    have moved := (ih further).append_left (anchoredAt fresh k ++ [e])
    simp only [zipIdx_cons, flatMap_cons, append_assoc, cons_append,
      nil_append] at moved ⊢
    refine moved.trans (perm_middle.trans (List.Perm.cons e ?_))
    refine (perm_append_comm_assoc _ _ _).trans (List.Perm.append_left rest ?_)
    rw [anchoredAt, ← map_append]
    exact split.map fst

theorem placed_perm (within : ∀ item ∈ fresh, item.2 ≤ old.length) :
    (placed old fresh).Perm (old ++ fresh.map fst) := by
  have all : (fresh.filter fun item => 0 ≤ item.2 && item.2 ≤ old.length) = fresh := by
    rw [filter_eq_self]
    intro item mem
    simpa using within item mem
  have perm : (placed old fresh).Perm _ := placed_from_perm (Nat.zero_add old.length).symm
  rwa [all] at perm

theorem sublist_placed : old.Sublist (placed old fresh) := by
  have spread : ∀ k, old.Sublist
      ((old.zipIdx k).flatMap fun entry => anchoredAt fresh entry.2 ++ [entry.1]) := by
    induction old with
    | nil => exact fun _ => nil_sublist _
    | cons e rest ih =>
      intro k
      rw [zipIdx_cons, flatMap_cons, append_assoc]
      exact ((ih (k + 1)).cons_cons e).trans (sublist_append_right _ _)
  exact (spread 0).trans (sublist_append_left _ _)

/-- What is placed is in order, if the new items are so with what they are anchored at. -/
theorem pairwise_placed {r : α → α → Prop} (sorted : old.Pairwise r)
    (together : fresh.Pairwise fun x y => x.2 = y.2 → r x.1 y.1)
    (apart : ∀ x ∈ fresh, ∀ y ∈ fresh, x.2 < y.2 → r x.1 y.1)
    (before : ∀ x ∈ fresh, ∀ i e, old[i]? = some e → x.2 ≤ i → r x.1 e)
    (after : ∀ x ∈ fresh, ∀ i e, old[i]? = some e → i < x.2 → r e x.1) :
    (placed old fresh).Pairwise r := by
  have bucket : ∀ i, (anchoredAt fresh i).Pairwise r := by
    intro i
    rw [anchoredAt, pairwise_map, pairwise_filter]
    refine together.imp fun {x y} related here there => related ?_
    simp only [decide_eq_true_eq] at here there
    rw [here, there]
  have at_position : ∀ entry ∈ old.zipIdx, old[entry.2]? = some entry.1 := by
    intro entry mem
    exact mem_zipIdx_iff_getElem?.mp mem
  rw [placed, pairwise_append, pairwise_flatMap]
  refine ⟨⟨fun entry mem => ?_, ?_⟩, bucket _, ?_⟩
  · rw [pairwise_append]
    refine ⟨bucket _, pairwise_singleton _ _, fun x anchored e last => ?_⟩
    rw [mem_singleton.mp last]
    exact before _ (mem_anchoredAt.mp anchored) _ _ (at_position entry mem) (Nat.le_refl _)
  · rw [pairwise_iff_getElem]
    intro i j hi hj less x here y there
    simp only [getElem_zipIdx, Nat.zero_add, mem_append, mem_anchoredAt,
      mem_singleton] at here there
    rw [length_zipIdx] at hi hj
    obtain anchored | rfl := here
    · obtain anchored' | rfl := there
      · exact apart _ anchored _ anchored' less
      · exact before _ anchored j _ (getElem?_eq_getElem hj) (Nat.le_of_lt less)
    · obtain anchored' | rfl := there
      · exact after _ anchored' i _ (getElem?_eq_getElem hi) less
      · exact pairwise_iff_getElem.mp sorted i j hi hj less
  · intro x here y there
    have last := mem_anchoredAt.mp there
    obtain ⟨entry, mem, here⟩ := mem_flatMap.mp here
    have position := at_position entry mem
    have inside : entry.2 < old.length := (List.getElem?_eq_some_iff.mp position).1
    obtain anchored | same := mem_append.mp here
    · exact apart _ (mem_anchoredAt.mp anchored) _ last inside
    · rw [mem_singleton.mp same]
      exact after _ last _ _ position inside

end Placing

/-! ## Anchoring -/

section Anchoring

variable {β : Type} {position : β → Option Nat} {last : Nat} {batch : List β}

/-- The anchors of a batch, and what an item in front of the batch is anchored at. -/
def anchors (position : β → Option Nat) (last : Nat) : List β → List Nat × Nat
  | [] => ([], last)
  | item :: rest =>
    let (found, next) := anchors position last rest
    (next :: found, (position item).getD next)

theorem length_anchors : (anchors position last batch).1.length = batch.length := by
  induction batch with
  | nil => rfl
  | cons item rest ih => simp [anchors, ih]

theorem anchors_mem : ∀ anchor ∈ (anchors position last batch).2 :: (anchors position last batch).1,
    anchor = last ∨ ∃ item ∈ batch, position item = some anchor := by
  induction batch with
  | nil => simp [anchors]
  | cons item rest ih =>
    have older : ∀ anchor ∈ (anchors position last rest).2 :: (anchors position last rest).1,
        anchor = last ∨ ∃ other ∈ item :: rest, position other = some anchor := by
      intro anchor mem
      refine (ih anchor mem).imp_right ?_
      rintro ⟨other, there, known⟩
      exact ⟨other, mem_cons_of_mem _ there, known⟩
    intro anchor mem
    obtain rfl | later := mem_cons.mp mem
    · cases known : position item with
      | none =>
        refine older _ ?_
        simp [anchors, known]
      | some p => exact .inr ⟨item, mem_cons_self, by simp [anchors, known]⟩
    · exact older anchor later

/-- The old items of a batch have the order of their positions. -/
def Ascending (position : β → Option Nat) (batch : List β) : Prop :=
  batch.Pairwise fun x y => ∀ p q, position x = some p → position y = some q → p < q

/-- How two items of a batch with their anchors stand to each other, one before the other. -/
structure AnchoredBefore (position : β → Option Nat) (x y : β × Nat) : Prop where
  anchors : x.2 ≤ y.2
  known : ∀ p, position x.1 = some p → p < y.2
  next : ∀ q, position y.1 = some q → x.2 ≤ q

theorem next_le (inside : ∀ item ∈ batch, ∀ p, position item = some p → p < last)
    (ascending : Ascending position batch) :
    (∀ anchor ∈ (anchors position last batch).1, (anchors position last batch).2 ≤ anchor) ∧
      ∀ item ∈ batch, ∀ q, position item = some q → (anchors position last batch).2 ≤ q := by
  induction batch with
  | nil => simp [anchors]
  | cons item rest ih =>
    obtain ⟨first, ascending'⟩ := pairwise_cons.mp ascending
    obtain ⟨below, before⟩ := ih
      (fun other mem => inside other (mem_cons_of_mem _ mem)) ascending'
    cases known : position item with
    | none =>
      simp only [anchors, known, Option.getD_none, mem_cons, forall_eq_or_imp]
      refine ⟨⟨Nat.le_refl _, below⟩, fun q found => ?_, before⟩
      cases found
    | some p =>
      simp only [anchors, known, Option.getD_some, mem_cons, forall_eq_or_imp]
      have bound : ∀ anchor ∈ (anchors position last rest).2 :: (anchors position last rest).1,
          p ≤ anchor := by
        intro anchor mem
        obtain rfl | ⟨other, there, found⟩ := anchors_mem anchor mem
        · exact Nat.le_of_lt (inside item mem_cons_self p known)
        · exact Nat.le_of_lt (first other there p anchor known found)
      refine ⟨forall_mem_cons.mp bound, fun q found => ?_, fun other mem q found => ?_⟩
      · cases found
        exact Nat.le_refl _
      · exact Nat.le_of_lt (first other mem p q known found)

theorem pairwise_anchors (inside : ∀ item ∈ batch, ∀ p, position item = some p → p < last)
    (ascending : Ascending position batch) :
    (batch.zip (anchors position last batch).1).Pairwise (AnchoredBefore position) := by
  induction batch with
  | nil => exact List.Pairwise.nil
  | cons item rest ih =>
    obtain ⟨first, ascending'⟩ := pairwise_cons.mp ascending
    have inside' : ∀ other ∈ rest, ∀ p, position other = some p → p < last :=
      fun other mem => inside other (mem_cons_of_mem _ mem)
    obtain ⟨below, before⟩ := next_le inside' ascending'
    simp only [anchors, zip_cons_cons]
    refine pairwise_cons.mpr ⟨fun y mem => ?_, ih inside' ascending'⟩
    obtain ⟨there, anchored⟩ := of_mem_zip mem
    refine ⟨below _ anchored, fun p known => ?_, before _ there⟩
    obtain same | ⟨other, here, found⟩ := anchors_mem y.2 (mem_cons_of_mem _ anchored)
    · rw [same]
      exact inside item mem_cons_self p known
    · exact first other here p y.2 known found

end Anchoring

/-! ## Restricting -/

section Restricting

variable {α : Type} [DecidableEq α] {batch items : List α}

theorem pairwise_idxOf (distinct : batch.Nodup) :
    batch.Pairwise fun a b => batch.idxOf a < batch.idxOf b := by
  rw [pairwise_iff_getElem]
  intro i j hi hj less
  rwa [distinct.idxOf_getElem, distinct.idxOf_getElem]

theorem filter_eq_filter_iff (distinct : batch.Nodup) (unique : items.Nodup) :
    items.filter (· ∈ batch) = batch.filter (· ∈ items) ↔
      items.Pairwise fun a b => a ∈ batch → b ∈ batch → batch.idxOf a < batch.idxOf b := by
  have inBatch : (batch.filter (· ∈ items)).Pairwise fun a b => batch.idxOf a < batch.idxOf b :=
    (pairwise_idxOf distinct).sublist filter_sublist
  have restricted : (items.Pairwise fun a b => a ∈ batch → b ∈ batch →
      batch.idxOf a < batch.idxOf b) ↔
        (items.filter (· ∈ batch)).Pairwise fun a b => batch.idxOf a < batch.idxOf b := by
    simp only [pairwise_filter, decide_eq_true_eq]
  rw [restricted]
  constructor
  · intro same
    rwa [same]
  · intro sorted
    have perm : (items.filter (· ∈ batch)).Perm (batch.filter (· ∈ items)) := by
      rw [perm_ext_iff_of_nodup (unique.filter _) (distinct.filter _)]
      intro a
      simp [and_comm]
    refine perm.eq_of_pairwise (fun a b _ _ less greater => ?_) sorted inBatch
    exact absurd less (Nat.lt_asymm greater)

end Restricting

end Agentix.Lib
