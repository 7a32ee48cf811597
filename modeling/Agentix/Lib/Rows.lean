import Mathlib.Algebra.GroupWithZero.Nat
import Mathlib.Data.List.Basic
import Mathlib.Data.List.Count
import Mathlib.Data.List.Flatten
import Mathlib.Data.List.Nodup
import Mathlib.Logic.Relation

/-! # Worklist search over keyed rows

A row has a key and the keys of its successors.  `reaches` looks for a target among the
successors met from a stack of pending keys.  The fuel is never the reason it stops:
`reaches_eq_true_iff` says that it decides reachability.
-/

namespace Agentix.Lib

open Relation List

section Search

variable {ρ κ : Type} [DecidableEq κ] (rows : List ρ) (key : ρ → κ) (next : ρ → List κ)

variable {seen : List κ} {target : κ}

def rowOf (k : κ) : Option ρ :=
  rows.find? fun row => key row = k

/-- `a` has `b` among the successors of its row. -/
def Edge (a b : κ) : Prop :=
  ∃ row, rowOf rows key a = some row ∧ b ∈ next row

def searchLoop (target : κ) : Nat → List κ → List κ → Bool
  | 0, _, _ => false
  | _ + 1, [], _ => false
  | fuel + 1, k :: pending, seen =>
    if k ∈ seen then searchLoop target fuel pending seen
    else match rowOf rows key k with
      | some row =>
        if target ∈ next row then true
        else searchLoop target fuel ((next row).reverse ++ pending) (k :: seen)
      | none => searchLoop target fuel pending (k :: seen)

/-- The successors that rows with keys outside `seen` can still push. -/
def backlog (seen : List κ) : List ρ → Nat
  | [] => 0
  | row :: rest => (if key row ∈ seen then 0 else (next row).length) + backlog seen rest

/-- Whether `target` is a successor of a key met from `source`. -/
def reaches (source target : κ) : Bool :=
  searchLoop rows key next target (backlog key next [] rows + 2) [source] []

variable {rows key next}

theorem rowOf_some {k : κ} {row : ρ} (found : rowOf rows key k = some row) :
    row ∈ rows ∧ key row = k := by
  refine ⟨mem_of_find?_eq_some found, ?_⟩
  simpa using find?_some found

theorem backlog_skip (key : ρ → κ) (next : ρ → List κ) (k : κ) (seen : List κ)
    (rows : List ρ) : backlog key next (k :: seen) rows ≤ backlog key next seen rows := by
  induction rows with
  | nil => exact Nat.le_refl _
  | cons head tail ih =>
    simp only [backlog, mem_cons]
    split <;> split <;> simp_all
    omega

/-- Visiting a row removes its successors from the backlog, so they may move to the stack. -/
theorem backlog_visit {k : κ} {row : ρ} {rows : List ρ} (mem : row ∈ rows) (same : key row = k)
    (unseen : k ∉ seen) :
    (next row).length + backlog key next (k :: seen) rows ≤ backlog key next seen rows := by
  induction rows with
  | nil => cases mem
  | cons head tail ih =>
    rcases mem_cons.mp mem with rfl | later
    · have := backlog_skip key next k seen tail
      simp only [backlog, same, mem_cons_self, if_true, if_neg unseen]
      omega
    · have := ih later
      simp only [backlog, mem_cons]
      split <;> split <;> simp_all <;> omega

/-- What the search keeps: everything met from a seen key is seen or pending, and is not the
target. -/
def Explored (rows : List ρ) (key : ρ → κ) (next : ρ → List κ) (target : κ)
    (pending seen : List κ) : Prop :=
  ∀ a ∈ seen, ∀ b, Edge rows key next a b → b ≠ target ∧ (b ∈ seen ∨ b ∈ pending)

theorem searchLoop_sound {fuel : Nat} {pending : List κ}
    (found : searchLoop rows key next target fuel pending seen = true) :
    ∃ source ∈ pending, TransGen (Edge rows key next) source target := by
  induction fuel generalizing pending seen with
  | zero => simp [searchLoop] at found
  | succ fuel ih =>
    cases pending with
    | nil => simp [searchLoop] at found
    | cons k pending =>
      have later : ∀ {seen}, searchLoop rows key next target fuel pending seen = true →
          ∃ source ∈ k :: pending, TransGen (Edge rows key next) source target := by
        intro seen found
        obtain ⟨source, mem, path⟩ := ih found
        exact ⟨source, mem_cons_of_mem _ mem, path⟩
      simp only [searchLoop] at found
      split at found
      · exact later found
      · cases row : rowOf rows key k with
        | none => rw [row] at found; exact later found
        | some row' =>
          rw [row] at found
          simp only at found
          split at found
          · rename_i direct
            exact ⟨k, mem_cons_self, .single ⟨row', row, direct⟩⟩
          · obtain ⟨source, mem, path⟩ := ih found
            rcases mem_append.mp mem with fresh | old
            · exact ⟨k, mem_cons_self,
                .head ⟨row', row, mem_reverse.mp fresh⟩ path⟩
            · exact ⟨source, mem_cons_of_mem _ old, path⟩

/-- A search that ends without the target has explored a closed set around its stack. -/
theorem searchLoop_complete {fuel : Nat} {pending : List κ}
    (enough : pending.length + backlog key next seen rows < fuel)
    (failed : searchLoop rows key next target fuel pending seen = false)
    (explored : Explored rows key next target pending seen) :
    ∃ closed : List κ, (∀ a ∈ pending, a ∈ closed) ∧ (∀ a ∈ seen, a ∈ closed) ∧
      Explored rows key next target [] closed := by
  induction fuel generalizing pending seen with
  | zero => omega
  | succ fuel ih =>
    cases pending with
    | nil => exact ⟨seen, by simp, fun _ mem => mem, explored⟩
    | cons k pending =>
      simp only [searchLoop] at failed
      simp only [length_cons] at enough
      split at failed
      · rename_i old
        -- The key was seen before, so dropping it from the pending ones loses no edge.
        have explored' : Explored rows key next target pending seen := by
          intro a mem b edge
          obtain ⟨other, place⟩ := explored a mem b edge
          refine ⟨other, ?_⟩
          rcases place with place | place
          · exact .inl place
          · rcases mem_cons.mp place with rfl | place
            · exact .inl old
            · exact .inr place
        obtain ⟨closed, hp, hs, hc⟩ := ih (by omega) failed explored'
        exact ⟨closed, forall_mem_cons.mpr ⟨hs k old, hp⟩, hs, hc⟩
      · rename_i unseen
        cases row : rowOf rows key k with
        | none =>
          rw [row] at failed
          -- A key without a row has no edge that leaves it.
          have shrink := backlog_skip key next k seen rows
          have explored' : Explored rows key next target pending (k :: seen) := by
            intro a mem b edge
            rcases mem_cons.mp mem with rfl | mem
            · obtain ⟨row', found, _⟩ := edge
              rw [row] at found
              cases found
            · obtain ⟨other, place⟩ := explored a mem b edge
              refine ⟨other, ?_⟩
              rcases place with place | place
              · exact .inl (mem_cons_of_mem _ place)
              · rcases mem_cons.mp place with rfl | place
                · exact .inl mem_cons_self
                · exact .inr place
          obtain ⟨closed, hp, hs, hc⟩ := ih (by omega) failed explored'
          exact ⟨closed, forall_mem_cons.mpr ⟨hs k mem_cons_self, hp⟩,
            fun a mem => hs a (mem_cons_of_mem _ mem), hc⟩
        | some row' =>
          rw [row] at failed
          simp only at failed
          split at failed
          · cases failed
          · rename_i direct
            obtain ⟨inRows, same⟩ := rowOf_some row
            -- The row is visited once: its successors join the pending keys, and the backlog
            -- shrinks by as many.
            have shrink : (next row').length + backlog key next (k :: seen) rows ≤
                backlog key next seen rows := backlog_visit inRows same unseen
            have explored' : Explored rows key next target ((next row').reverse ++ pending)
                (k :: seen) := by
              intro a mem b edge
              rcases mem_cons.mp mem with rfl | mem
              · obtain ⟨row'', found, successor⟩ := edge
                rw [row] at found
                cases found
                refine ⟨?_, .inr ?_⟩
                · rintro rfl
                  exact direct successor
                · exact mem_append_left _ (mem_reverse.mpr successor)
              · obtain ⟨other, place⟩ := explored a mem b edge
                refine ⟨other, ?_⟩
                rcases place with place | place
                · exact .inl (mem_cons_of_mem _ place)
                · rcases mem_cons.mp place with rfl | place
                  · exact .inl mem_cons_self
                  · exact .inr (mem_append_right _ place)
            obtain ⟨closed, hp, hs, hc⟩ := ih
              (by simp only [length_append, length_reverse]; omega) failed explored'
            exact ⟨closed, forall_mem_cons.mpr ⟨hs k mem_cons_self,
              fun a mem => hp a (mem_append_right _ mem)⟩,
              fun a mem => hs a (mem_cons_of_mem _ mem), hc⟩

/-- The search decides whether a non-empty path leads from `source` to `target`. -/
theorem reaches_eq_true_iff {source : κ} :
    reaches rows key next source target = true ↔ TransGen (Edge rows key next) source target := by
  constructor
  · intro found
    obtain ⟨start, mem, path⟩ := searchLoop_sound found
    rw [mem_singleton] at mem
    exact mem ▸ path
  · intro path
    by_contra failed
    rw [Bool.not_eq_true] at failed
    obtain ⟨closed, hp, _, hc⟩ := searchLoop_complete (by simp; omega) failed
      (by intro a mem; cases mem)
    have stays : ∀ {a b}, a ∈ closed → TransGen (Edge rows key next) a b →
        b ≠ target ∧ b ∈ closed := by
      intro a b start steps
      induction steps with
      | single edge =>
        obtain ⟨other, place⟩ := hc a start _ edge
        exact ⟨other, place.resolve_right (by simp)⟩
      | tail _ edge ih =>
        obtain ⟨other, place⟩ := hc _ ih.2 _ edge
        exact ⟨other, place.resolve_right (by simp)⟩
    exact (stays (hp source (mem_singleton_self _)) path).1 rfl

end Search

end Agentix.Lib

/-! # Keyed rows

A table is a list of rows with at most one row per key.  Rows are edited in place,
appended under an unused key and removed; the lemmas say what is left under each key.
-/

namespace Agentix.Lib

open List

section Rows

variable {ρ κ : Type} {key : ρ → κ} {rows : List ρ}

/-- No two rows share a key. -/
def Distinct (key : ρ → κ) (rows : List ρ) : Prop :=
  (rows.map key).Nodup

namespace Distinct

theorem eq_of_key (distinct : Distinct key rows) {a b : ρ} (ha : a ∈ rows) (hb : b ∈ rows)
    (same : key a = key b) : a = b :=
  inj_on_of_nodup_map distinct ha hb same

theorem index_eq (distinct : Distinct key rows) {i j : Nat} (hi : i < rows.length)
    (hj : j < rows.length) (same : key rows[i] = key rows[j]) : i = j := by
  have hi' : i < (rows.map key).length := by simpa using hi
  have hj' : j < (rows.map key).length := by simpa using hj
  apply (@List.Nodup.getElem_inj_iff _ _ distinct i hi' j hj').mp
  simpa using same

theorem map (distinct : Distinct key rows) {f : ρ → ρ}
    (keeps : ∀ row ∈ rows, key (f row) = key row) : Distinct key (rows.map f) := by
  unfold Distinct at *
  rw [map_map]
  have same : rows.map (key ∘ f) = rows.map key := map_congr_left keeps
  rw [same]
  exact distinct

theorem filter (distinct : Distinct key rows) (p : ρ → Bool) : Distinct key (rows.filter p) :=
  List.Nodup.sublist (List.Sublist.map key filter_sublist) distinct

theorem append (distinct : Distinct key rows) {row : ρ} (fresh : ∀ old ∈ rows, key old ≠ key row) :
    Distinct key (rows ++ [row]) := by
  unfold Distinct at *
  rw [map_append, nodup_append]
  refine ⟨distinct, nodup_singleton _, ?_⟩
  intro a old b new
  obtain ⟨row', mem, rfl⟩ := mem_map.mp old
  rw [map_singleton, mem_singleton] at new
  exact new ▸ fresh row' mem

end Distinct

variable [DecidableEq κ]

theorem Distinct.rowOf_eq_some (distinct : Distinct key rows) {row : ρ} (mem : row ∈ rows) :
    rowOf rows key (key row) = some row := by
  cases found : rowOf rows key (key row) with
  | none => simpa using find?_eq_none.mp found row mem
  | some other =>
    obtain ⟨other_mem, same⟩ := rowOf_some found
    rw [distinct.eq_of_key other_mem mem same]

/-- The rows, with the ones of a key passed through `f`. -/
def alter (key : ρ → κ) (k : κ) (f : ρ → ρ) (rows : List ρ) : List ρ :=
  rows.map fun row => if key row = k then f row else row

theorem mem_alter {k : κ} {f : ρ → ρ} {row' : ρ} :
    row' ∈ alter key k f rows ↔
      ∃ row ∈ rows, (key row = k ∧ row' = f row) ∨ (key row ≠ k ∧ row' = row) := by
  unfold alter
  rw [mem_map]
  constructor
  · rintro ⟨row, mem, rfl⟩
    by_cases same : key row = k
    · exact ⟨row, mem, .inl ⟨same, if_pos same⟩⟩
    · exact ⟨row, mem, .inr ⟨same, if_neg same⟩⟩
  · rintro ⟨row, mem, ⟨same, rfl⟩ | ⟨other, rfl⟩⟩
    · exact ⟨row, mem, if_pos same⟩
    · exact ⟨row', mem, if_neg other⟩

theorem Distinct.alter {κ' : Type} {key' : ρ → κ'} (distinct : Distinct key' rows) {k : κ}
    {f : ρ → ρ} (keeps : ∀ row ∈ rows, key' (f row) = key' row) :
    Distinct key' (alter key k f rows) := by
  refine distinct.map fun row mem => ?_
  split
  · exact keeps row mem
  · rfl

/-- Seen through a view with distinct keys, an edit at an index is an edit at a key. -/
theorem map_modify_eq_alter {τ : Type} {view : τ → ρ} {rows : List τ} (i : Fin rows.length)
    {f : τ → τ} {g : ρ → ρ} (distinct : Distinct key (rows.map view))
    (agree : view (f (rows.get i)) = g (view (rows.get i))) :
    (rows.modify i f).map view = alter key (key (view (rows.get i))) g (rows.map view) := by
  apply ext_getElem
  · simp [Lib.alter]
  · intro n bound _
    simp only [length_map, length_modify] at bound
    simp only [Lib.alter, getElem_map, getElem_modify]
    by_cases here : (i : Nat) = n
    · subst here
      simpa using agree
    · have other : key (view rows[n]) ≠ key (view (rows.get i)) := by
        intro same
        exact here (distinct.index_eq (by simp) (by simpa using bound) (by simpa using same.symm))
      rw [if_neg here, if_neg other]

theorem map_modify_eq_self {τ : Type} {view : τ → ρ} {rows : List τ} (i : Fin rows.length)
    {f : τ → τ} (agree : view (f (rows.get i)) = view (rows.get i)) :
    (rows.modify i f).map view = rows.map view := by
  apply ext_getElem
  · simp
  · intro n bound _
    simp only [getElem_map, getElem_modify]
    split
    · rename_i here
      subst here
      simpa using agree
    · rfl

end Rows

end Agentix.Lib

/-! # Inserting rows

Rows that are inserted unless their key is taken, and rows that update the one under their key.
-/

namespace Agentix.Lib

open List

section Upsert

variable {ρ κ : Type} [DecidableEq κ] {key : ρ → κ} {row r : ρ} {rows new : List ρ}

variable {update : ρ → ρ}

/-- `INSERT OR IGNORE`: the row, unless one has its key. -/
def insertOrIgnore (key : ρ → κ) (row : ρ) (rows : List ρ) : List ρ :=
  if rows.any fun old => key old = key row then rows else rows ++ [row]

/-- `INSERT … ON CONFLICT DO UPDATE`: the row, or the update of the one under its key. -/
def upsert (key : ρ → κ) (row : ρ) (update : ρ → ρ) (rows : List ρ) : List ρ :=
  if rows.any fun old => key old = key row then alter key (key row) update rows
  else rows ++ [row]

theorem any_key {k : κ} : (rows.any fun old => key old = k) = true ↔ ∃ old ∈ rows, key old = k := by
  simp

theorem mem_insertOrIgnore_of_mem (mem : r ∈ rows) : r ∈ insertOrIgnore key row rows := by
  unfold insertOrIgnore
  split
  · exact mem
  · exact mem_append_left _ mem

theorem mem_insertOrIgnore (mem : r ∈ insertOrIgnore key row rows) : r ∈ rows ∨ r = row := by
  unfold insertOrIgnore at mem
  split at mem
  · exact .inl mem
  · simpa using mem

theorem exists_insertOrIgnore (key : ρ → κ) (row : ρ) (rows : List ρ) :
    ∃ r ∈ insertOrIgnore key row rows, key r = key row := by
  unfold insertOrIgnore
  split
  · rename_i taken
    exact any_key.mp taken
  · exact ⟨row, by simp, rfl⟩

theorem mem_foldl_insertOrIgnore_of_mem (mem : r ∈ rows) :
    r ∈ new.foldl (fun rows row => insertOrIgnore key row rows) rows := by
  induction new generalizing rows with
  | nil => exact mem
  | cons _ _ ih => exact ih (mem_insertOrIgnore_of_mem mem)

theorem mem_foldl_insertOrIgnore
    (mem : r ∈ new.foldl (fun rows row => insertOrIgnore key row rows) rows) :
    r ∈ rows ∨ r ∈ new := by
  induction new generalizing rows with
  | nil => exact .inl mem
  | cons head tail ih =>
    obtain here | later := ih mem
    · obtain old | rfl := mem_insertOrIgnore here
      · exact .inl old
      · exact .inr mem_cons_self
    · exact .inr (mem_cons_of_mem _ later)

theorem exists_foldl_insertOrIgnore (key : ρ → κ) (rows : List ρ) (inserted : row ∈ new) :
    ∃ r ∈ new.foldl (fun rows row => insertOrIgnore key row rows) rows, key r = key row := by
  induction new generalizing rows with
  | nil => cases inserted
  | cons head tail ih =>
    obtain rfl | later := mem_cons.mp inserted
    · obtain ⟨r, mem, same⟩ := exists_insertOrIgnore key row rows
      rw [foldl_cons]
      exact ⟨r, mem_foldl_insertOrIgnore_of_mem mem, same⟩
    · exact ih _ later

theorem mem_foldl_insertOrIgnore_id [DecidableEq ρ] :
    r ∈ new.foldl (fun rows row => insertOrIgnore id row rows) rows ↔ r ∈ rows ∨ r ∈ new := by
  refine ⟨mem_foldl_insertOrIgnore, ?_⟩
  rintro (old | inserted)
  · exact mem_foldl_insertOrIgnore_of_mem old
  · obtain ⟨row, mem, same⟩ := exists_foldl_insertOrIgnore id rows inserted
    rw [id, id] at same
    exact same ▸ mem

theorem mem_upsert (mem : r ∈ upsert key row update rows) :
    (r ∈ rows ∧ key r ≠ key row) ∨ r = row ∨
      ∃ old ∈ rows, key old = key row ∧ r = update old := by
  unfold upsert at mem
  split at mem
  · obtain ⟨old, here, ⟨same, rfl⟩ | ⟨other, rfl⟩⟩ := mem_alter.mp mem
    · exact .inr (.inr ⟨old, here, same, rfl⟩)
    · exact .inl ⟨here, other⟩
  · rename_i free
    obtain old | new := mem_append.mp mem
    · exact .inl ⟨old, fun same => free (any_key.mpr ⟨r, old, same⟩)⟩
    · exact .inr (.inl (mem_singleton.mp new))

theorem mem_upsert_iff : r ∈ upsert key row update rows ↔
    (r ∈ rows ∧ key r ≠ key row) ∨ (∃ old ∈ rows, key old = key row ∧ r = update old) ∨
      (∀ old ∈ rows, key old ≠ key row) ∧ r = row := by
  unfold upsert
  split
  · rename_i taken
    obtain ⟨old, here, same⟩ := any_key.mp taken
    rw [mem_alter]
    constructor
    · rintro ⟨old, here, ⟨same, rfl⟩ | ⟨other, rfl⟩⟩
      · exact .inr (.inl ⟨old, here, same, rfl⟩)
      · exact .inl ⟨here, other⟩
    · rintro (⟨here, other⟩ | ⟨old, here, same, rfl⟩ | ⟨free, rfl⟩)
      · exact ⟨r, here, .inr ⟨other, rfl⟩⟩
      · exact ⟨old, here, .inl ⟨same, rfl⟩⟩
      · exact absurd same (free old here)
  · rename_i free
    have unused : ∀ old ∈ rows, key old ≠ key row :=
      fun old here same => free (any_key.mpr ⟨old, here, same⟩)
    rw [mem_append, mem_singleton]
    constructor
    · rintro (old | rfl)
      · exact .inl ⟨old, unused r old⟩
      · exact .inr (.inr ⟨unused, rfl⟩)
    · rintro (⟨old, -⟩ | ⟨old, here, same, -⟩ | ⟨-, rfl⟩)
      · exact .inl old
      · exact absurd same (unused old here)
      · exact .inr rfl

theorem mem_upsert_of_ne (mem : r ∈ rows) (other : key r ≠ key row) :
    r ∈ upsert key row update rows := by
  unfold upsert
  split
  · exact mem_alter.mpr ⟨r, mem, .inr ⟨other, rfl⟩⟩
  · exact mem_append_left _ mem

theorem Distinct.upsert (distinct : Distinct key rows)
    (keeps : ∀ row ∈ rows, key (update row) = key row) :
    Distinct key (upsert key row update rows) := by
  unfold Lib.upsert
  split
  · exact distinct.alter keeps
  · rename_i free
    exact distinct.append fun old mem same => free (any_key.mpr ⟨old, mem, same⟩)

theorem Distinct.replace (distinct : Distinct key rows) :
    Distinct key (Lib.upsert key row (fun _ => row) rows) := by
  unfold Lib.upsert
  split
  · refine distinct.map fun old _ => ?_
    split
    · rename_i same
      exact same.symm
    · rfl
  · rename_i free
    exact distinct.append fun old mem same => free (any_key.mpr ⟨old, mem, same⟩)

end Upsert

end Agentix.Lib

/-! # Tallies

How many rows of a list have a key.  Rows that move between lists are neither lost nor doubled when
the sum of the tallies stays.
-/

namespace Agentix.Lib

open List

variable {ρ σ κ : Type} [DecidableEq κ] {key : ρ → κ} {k : κ} {rows rows' : List ρ} {row : ρ}

def tally (key : ρ → κ) (k : κ) (rows : List ρ) : Nat :=
  rows.countP fun row => key row = k

@[simp] theorem tally_nil : tally key k [] = 0 := rfl

@[simp] theorem tally_append :
    tally key k (rows ++ rows') = tally key k rows + tally key k rows' :=
  countP_append

@[simp] theorem tally_cons :
    tally key k (row :: rows) = (if key row = k then 1 else 0) + tally key k rows := by
  simp only [tally, countP_cons, decide_eq_true_eq]
  omega

theorem tally_of_perm (perm : rows.Perm rows') : tally key k rows = tally key k rows' :=
  perm.countP_eq _

theorem Distinct.sum_alter (distinct : Distinct key rows) (mem : row ∈ rows) (f : ρ → ρ)
    (weight : ρ → Nat) : ((Lib.alter key (key row) f rows).map weight).sum + weight row =
      (rows.map weight).sum + weight (f row) := by
  induction rows with
  | nil => cases mem
  | cons head tail ih =>
    obtain ⟨fresh, distinct⟩ := nodup_cons.mp distinct
    simp only [Lib.alter, map_cons, sum_cons]
    obtain rfl | mem := mem_cons.mp mem
    · have others : Lib.alter key (key row) f tail = tail := by
        refine (map_congr_left fun other there => ?_).trans (map_id _)
        have ne : key other ≠ key row := fun same => fresh (same ▸ mem_map_of_mem there)
        rw [if_neg ne, id]
      rw [if_pos rfl, show tail.map _ = tail from others]
      omega
    · have ne : key head ≠ key row := fun same => fresh (same ▸ mem_map_of_mem mem)
      have rest := ih distinct mem
      rw [Lib.alter] at rest
      rw [if_neg ne]
      omega

/-! ## Rows that containers hold -/

variable {held held' : σ → List ρ} {containers containers' : List σ} {container : σ}

end Agentix.Lib
