import Mathlib.Order.Lattice
import Mathlib.Data.List.Basic

/-! # Maps with ordered keys

The entries of such a map stand in the order of their keys, so two maps with the same values are
the same map.
-/

namespace Agentix.Lib

open List

structure OrderedMap (κ α : Type) [LinearOrder κ] where
  entries : List (κ × α)
  sorted : entries.Pairwise fun a b => a.1 < b.1

namespace OrderedMap

variable {κ α : Type} [LinearOrder κ] {m m' : OrderedMap κ α} {k k' : κ} {v : α}
  {entries entries' : List (κ × α)}

def insertEntry (k : κ) (v : α) : List (κ × α) → List (κ × α)
  | [] => [(k, v)]
  | (k', w) :: rest =>
    if k < k' then (k, v) :: (k', w) :: rest
    else if k = k' then (k, v) :: rest
    else (k', w) :: insertEntry k v rest

theorem key_of_mem_insertEntry {entry : κ × α} (mem : entry ∈ insertEntry k v entries) :
    entry.1 = k ∨ entry ∈ entries := by
  induction entries with
  | nil => simp_all [insertEntry]
  | cons first rest ih =>
    unfold insertEntry at mem
    split at mem
    · obtain rfl | old := mem_cons.mp mem
      · exact .inl rfl
      · exact .inr old
    · split at mem
      · obtain rfl | old := mem_cons.mp mem
        · exact .inl rfl
        · exact .inr (mem_cons_of_mem _ old)
      · obtain rfl | new := mem_cons.mp mem
        · exact .inr mem_cons_self
        · exact (ih new).imp_right (mem_cons_of_mem _)

theorem sorted_insertEntry (sorted : entries.Pairwise fun a b => a.1 < b.1) :
    (insertEntry k v entries).Pairwise fun a b => a.1 < b.1 := by
  induction entries with
  | nil => simp [insertEntry]
  | cons first rest ih =>
    obtain ⟨least, rest_sorted⟩ := pairwise_cons.mp sorted
    unfold insertEntry
    split
    · rename_i before
      refine pairwise_cons.mpr ⟨?_, sorted⟩
      intro entry mem
      obtain rfl | later := mem_cons.mp mem
      · exact before
      · exact lt_trans before (least entry later)
    · split
      · rename_i same
        refine pairwise_cons.mpr ⟨?_, rest_sorted⟩
        intro entry mem
        exact same ▸ least entry mem
      · rename_i notBefore ne
        refine pairwise_cons.mpr ⟨?_, ih rest_sorted⟩
        intro entry mem
        obtain key | old := key_of_mem_insertEntry mem
        · rw [key]
          exact lt_of_le_of_ne (not_lt.mp notBefore) (Ne.symm ne)
        · exact least entry old

def empty : OrderedMap κ α := ⟨[], .nil⟩

def get (m : OrderedMap κ α) (k : κ) : Option α := m.entries.lookup k

def insert (m : OrderedMap κ α) (k : κ) (v : α) : OrderedMap κ α :=
  ⟨insertEntry k v m.entries, sorted_insertEntry m.sorted⟩

@[simp] theorem get_empty : (empty : OrderedMap κ α).get k = none := rfl

theorem lookup_cons_eq {entry : κ × α} : (entry :: entries).lookup k =
    if k = entry.1 then some entry.2 else entries.lookup k := by
  obtain ⟨k', w⟩ := entry
  by_cases same : k = k'
  · simp [same]
  · simp [lookup_cons, beq_false_of_ne same, same]

theorem lookup_insertEntry_self : (insertEntry k v entries).lookup k = some v := by
  induction entries with
  | nil => simp [insertEntry]
  | cons first rest ih =>
    simp only [insertEntry]
    split
    · simp
    · split
      · simp
      · rename_i ne
        simp [lookup_cons_eq, ne, ih]

theorem lookup_insertEntry_of_ne (ne : k' ≠ k) :
    (insertEntry k v entries).lookup k' = entries.lookup k' := by
  induction entries with
  | nil => simp [insertEntry, lookup_cons_eq, ne]
  | cons first rest ih =>
    simp only [insertEntry]
    split
    · simp [lookup_cons_eq, ne]
    · split
      · rename_i same
        simp [lookup_cons_eq, ne, ← same]
      · simp only [lookup_cons_eq, ih]

@[simp] theorem get_insert_self : (m.insert k v).get k = some v := lookup_insertEntry_self

theorem get_insert_of_ne (ne : k' ≠ k) : (m.insert k v).get k' = m.get k' :=
  lookup_insertEntry_of_ne ne

theorem lookup_eq_none (later : ∀ entry ∈ entries, k < entry.1) : entries.lookup k = none := by
  rw [lookup_eq_none_iff]
  intro entry mem
  simpa using ne_of_lt (later entry mem)

theorem entries_eq (sorted : entries.Pairwise fun a b => a.1 < b.1)
    (sorted' : entries'.Pairwise fun a b => a.1 < b.1)
    (same : ∀ k, entries.lookup k = entries'.lookup k) : entries = entries' := by
  induction entries generalizing entries' with
  | nil =>
    cases entries' with
    | nil => rfl
    | cons first' rest' => simpa [lookup_cons_eq] using same first'.1
  | cons first rest ih =>
    obtain ⟨least, rest_sorted⟩ := pairwise_cons.mp sorted
    cases entries' with
    | nil => simpa [lookup_cons_eq] using same first.1
    | cons first' rest' =>
      obtain ⟨least', rest_sorted'⟩ := pairwise_cons.mp sorted'
      have here := same first.1
      have there := same first'.1
      -- the least key of each list is known to the other
      have keys : first.1 = first'.1 := by
        obtain less | equal | greater := lt_trichotomy first.1 first'.1
        · have later : ∀ entry ∈ first' :: rest', first.1 < entry.1 := by
            intro entry mem
            obtain rfl | old := mem_cons.mp mem
            · exact less
            · exact lt_trans less (least' entry old)
          rw [lookup_eq_none later] at here
          simp [lookup_cons_eq] at here
        · exact equal
        · have later : ∀ entry ∈ first :: rest, first'.1 < entry.1 := by
            intro entry mem
            obtain rfl | old := mem_cons.mp mem
            · exact greater
            · exact lt_trans greater (least entry old)
          rw [lookup_eq_none later] at there
          simp [lookup_cons_eq] at there
      have firsts : first = first' := by
        refine Prod.ext keys ?_
        simpa [lookup_cons_eq, keys] using here
      subst firsts
      rw [ih rest_sorted rest_sorted']
      intro k
      by_cases first_key : k = first.1
      · rw [first_key, lookup_eq_none least, lookup_eq_none least']
      · have rests := same k
        simpa [lookup_cons_eq, first_key] using rests

theorem ext_get (same : ∀ k, m.get k = m'.get k) : m = m' := by
  obtain ⟨entries, sorted⟩ := m
  obtain ⟨entries', sorted'⟩ := m'
  obtain rfl := entries_eq sorted sorted' same
  rfl

end OrderedMap

end Agentix.Lib
