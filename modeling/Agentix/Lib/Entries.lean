import Mathlib.Data.List.Nodup

/-! # Maps that keep the order of insertion

The entries of such a map are a list: a known key keeps its place when it is set again, and a new
one goes to the end.
-/

namespace Agentix.Lib

open List Option Prod

abbrev Entries (κ α : Type) := List (κ × α)

namespace Entries

variable {κ α β : Type} [DecidableEq κ] {m : Entries κ α} {k k' : κ} {v w : α}

variable {rest : Entries κ α}

def get : Entries κ α → κ → Option α
  | [], _ => none
  | (k', v) :: rest, k => if k' = k then some v else get rest k

def set : Entries κ α → κ → α → Entries κ α
  | [], k, v => [(k, v)]
  | (k', w) :: rest, k, v => if k' = k then (k', v) :: rest else (k', w) :: set rest k v

def delete : Entries κ α → κ → Entries κ α
  | [], _ => []
  | (k', w) :: rest, k => if k' = k then rest else (k', w) :: delete rest k

def put (m : Entries κ α) (entry : κ × Option α) : Entries κ α :=
  match entry.2 with
  | none => m.delete entry.1
  | some v => m.set entry.1 v

/-- Every value is read in another way. -/
def mapValues (f : α → β) (m : Entries κ α) : Entries κ β :=
  m.map fun entry => (entry.1, f entry.2)

@[simp] theorem get_nil : get ([] : Entries κ α) k = none := rfl

@[simp] theorem get_set_self : (set m k v).get k = some v := by
  induction m with
  | nil => simp [set, get]
  | cons entry rest ih =>
    by_cases same : entry.1 = k <;> simp [set, get, same, ih]

theorem get_set_of_ne (ne : k' ≠ k) : (set m k v).get k' = m.get k' := by
  induction m with
  | nil => simp [set, get, Ne.symm ne]
  | cons entry rest ih =>
    by_cases same : entry.1 = k
    · simp [set, get, same, Ne.symm ne]
    · simp [set, get, same, ih]

example : (set ([] : Entries Nat Nat) 1 2).get 1 = some 2 := by decide +kernel

theorem get_delete_of_ne (ne : k' ≠ k) : (delete m k).get k' = m.get k' := by
  induction m with
  | nil => rfl
  | cons entry rest ih =>
    by_cases same : entry.1 = k
    · simp [delete, get, same, Ne.symm ne]
    · simp [delete, get, same, ih]

theorem get_eq_none : m.get k = none ↔ k ∉ m.map fst := by
  induction m with
  | nil => simp
  | cons entry rest ih =>
    by_cases same : entry.1 = k
    · simp [get, same]
    · simp [get, same, ih, Ne.symm same]

theorem get_append_of_none (absent : m.get k = none) :
    get (m ++ rest) k = rest.get k := by
  induction m with
  | nil => rfl
  | cons entry m ih =>
    by_cases same : entry.1 = k
    · simp [get, same] at absent
    · simp only [get, same, if_false] at absent
      simpa [get, same] using ih absent

theorem get_append_of_some (present : m.get k = some v) :
    get (m ++ rest) k = some v := by
  induction m with
  | nil => cases present
  | cons entry m ih =>
    by_cases same : entry.1 = k
    · simpa [get, same] using present
    · simp only [get, same, if_false] at present
      simpa [get, same] using ih present

theorem set_append_of_some (present : m.get k = some v) :
    set (m ++ rest) k w = set m k w ++ rest := by
  induction m with
  | nil => cases present
  | cons entry m ih =>
    by_cases same : entry.1 = k
    · simp [set, same]
    · simp only [get, same, if_false] at present
      simp [set, same, ih present]

theorem set_of_none (absent : m.get k = none) : set m k v = m ++ [(k, v)] := by
  induction m with
  | nil => rfl
  | cons entry rest ih =>
    by_cases same : entry.1 = k
    · simp [get, same] at absent
    · simp only [get, same, if_false] at absent
      simp [set, same, ih absent]

theorem delete_of_none (absent : m.get k = none) : delete m k = m := by
  induction m with
  | nil => rfl
  | cons entry rest ih =>
    by_cases same : entry.1 = k
    · simp [get, same] at absent
    · simp only [get, same, if_false] at absent
      simp [delete, same, ih absent]

theorem delete_append_single (absent : m.get k = none) : delete (m ++ [(k, v)]) k = m := by
  induction m with
  | nil => simp [delete]
  | cons entry rest ih =>
    by_cases same : entry.1 = k
    · simp [get, same] at absent
    · simp only [get, same, if_false] at absent
      simp [delete, same, ih absent]

/-- A new key that is set and deleted leaves no trace. -/
theorem delete_set_of_none (absent : m.get k = none) : delete (set m k v) k = m := by
  rw [set_of_none absent, delete_append_single absent]

@[simp] theorem set_set : set (set m k v) k w = set m k w := by
  induction m with
  | nil => simp [set]
  | cons entry rest ih =>
    by_cases same : entry.1 = k <;> simp [set, same, ih]

theorem set_of_get (present : m.get k = some v) : set m k v = m := by
  induction m with
  | nil => cases present
  | cons entry rest ih =>
    by_cases same : entry.1 = k
    · simp only [get, same, if_true, some.injEq] at present
      simp [set, ← same, ← present]
    · simp only [get, same, if_false] at present
      simp [set, same, ih present]

@[simp] theorem map_fst_set_of_some (present : m.get k = some w) :
    (set m k v).map fst = m.map fst := by
  induction m with
  | nil => cases present
  | cons entry rest ih =>
    by_cases same : entry.1 = k
    · simp [set, same]
    · simp only [get, same, if_false] at present
      simp [set, same, ih present]

section Values

variable {f : α → β}

@[simp] theorem get_mapValues : (mapValues f m).get k = (m.get k).map f := by
  induction m with
  | nil => rfl
  | cons entry rest ih =>
    simp only [mapValues] at ih
    by_cases same : entry.1 = k <;> simp [mapValues, get, same, ih]

theorem mapValues_set : mapValues f (set m k v) = set (mapValues f m) k (f v) := by
  induction m with
  | nil => rfl
  | cons entry rest ih =>
    simp only [mapValues] at ih
    by_cases same : entry.1 = k <;> simp [mapValues, set, same, ih]

theorem mapValues_delete : mapValues f (delete m k) = delete (mapValues f m) k := by
  induction m with
  | nil => rfl
  | cons entry rest ih =>
    simp only [mapValues] at ih
    by_cases same : entry.1 = k <;> simp [mapValues, delete, same, ih]

theorem mapValues_set_same (present : m.get k = some w) (same : f v = f w) :
    mapValues f (set m k v) = mapValues f m := by
  rw [mapValues_set, same]
  exact set_of_get (by rw [get_mapValues, present, map_some])

theorem mapValues_foldl_put (entries : List (κ × Option α)) :
    mapValues f (entries.foldl put m) =
      (entries.map fun entry => (entry.1, entry.2.map f)).foldl put (mapValues f m) := by
  induction entries generalizing m with
  | nil => rfl
  | cons entry rest ih =>
    rw [foldl_cons, ih, map_cons, foldl_cons]
    obtain ⟨k, _ | v⟩ := entry
    · simp only [put, mapValues_delete, map_none]
    · simp only [put, mapValues_set, map_some]

end Values

section Keys

variable (distinct : (m.map fst).Nodup)

include distinct

theorem get_delete_self : (delete m k).get k = none := by
  induction m with
  | nil => rfl
  | cons entry rest ih =>
    obtain ⟨fresh, distinct⟩ := nodup_cons.mp distinct
    by_cases same : entry.1 = k
    · subst same
      simpa [delete] using get_eq_none.mpr fresh
    · simp [delete, get, same, ih distinct]

theorem nodup_set : ((set m k v).map fst).Nodup := by
  cases held : m.get k with
  | some w => rwa [map_fst_set_of_some held]
  | none =>
    rw [set_of_none held, map_append]
    exact nodup_append_comm.mp (nodup_cons.mpr ⟨get_eq_none.mp held, distinct⟩)

theorem nodup_delete : ((delete m k).map fst).Nodup := by
  induction m with
  | nil => exact .nil
  | cons entry rest ih =>
    obtain ⟨fresh, distinct⟩ := nodup_cons.mp distinct
    by_cases same : entry.1 = k
    · simpa [delete, same] using distinct
    · simp only [delete, same, if_false, map_cons, nodup_cons]
      refine ⟨?_, ih distinct⟩
      rwa [← get_eq_none, get_delete_of_ne same, get_eq_none]

theorem mem_iff_get : (k, v) ∈ m ↔ m.get k = some v := by
  induction m with
  | nil => simp
  | cons entry rest ih =>
    obtain ⟨fresh, distinct⟩ := nodup_cons.mp distinct
    by_cases same : entry.1 = k
    · subst same
      have absent : (entry.1, v) ∉ rest := fun mem =>
        fresh (mem_map.mpr ⟨(entry.1, v), mem, rfl⟩)
      simp [get, absent, Prod.ext_iff, eq_comm]
    · have ne : (k, v) ≠ entry := fun equal => same (by rw [← equal])
      simp [get, same, ne, ih distinct]

theorem ext_get {m' : Entries κ α} (keys : m'.map fst = m.map fst)
    (same : ∀ k, m'.get k = m.get k) : m' = m := by
  induction m generalizing m' with
  | nil => simpa using keys
  | cons entry rest ih =>
    obtain ⟨fresh, distinct⟩ := nodup_cons.mp distinct
    cases m' with
    | nil => cases keys
    | cons entry' rest' =>
      obtain ⟨head, tail⟩ := cons.inj keys
      have value : entry'.2 = entry.2 := by
        simpa [get, head] using same entry.1
      have others : ∀ k, get rest' k = get rest k := by
        intro k
        by_cases here : entry.1 = k
        · subst here
          have absent : entry.1 ∉ rest'.map fst := by rwa [tail]
          rw [get_eq_none.mpr absent, get_eq_none.mpr fresh]
        · simpa [get, head, here] using same k
      rw [ih distinct tail others, Prod.ext head value]

theorem foldl_put_of_keys {m' : Entries κ α} {ids : List κ}
    (keys : m'.map fst = m.map fst) (covered : ∀ k, k ∉ ids → m.get k = m'.get k) :
    (ids.map fun id => (id, m'.get id)).foldl put m = m' := by
  induction ids generalizing m with
  | nil => exact (ext_get (keys ▸ distinct) keys.symm fun k => covered k (by simp)).symm ▸ rfl
  | cons id rest ih =>
    rw [map_cons, foldl_cons]
    have put_keys : (put m (id, m'.get id)).map fst = m.map fst := by
      cases held : m'.get id with
      | none =>
        have absent : m.get id = none := by rwa [get_eq_none, ← keys, ← get_eq_none]
        rw [put, delete_of_none absent]
      | some v =>
        have present : m.get id ≠ none := by
          rw [ne_eq, get_eq_none, ← keys, ← get_eq_none, held]
          simp
        obtain ⟨w, present⟩ := ne_none_iff_exists'.mp present
        exact map_fst_set_of_some present
    refine ih (put_keys ▸ distinct) (keys.trans put_keys.symm) fun k out => ?_
    by_cases same : k = id
    · subst same
      cases held : m'.get k with
      | none => exact get_delete_self distinct
      | some v => exact get_set_self
    · rw [← covered k (by simp [same, out])]
      cases held : m'.get id with
      | none => exact get_delete_of_ne same
      | some v => exact get_set_of_ne same

end Keys

end Entries

end Agentix.Lib
