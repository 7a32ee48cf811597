import Agentix.Claude.Sent

/-! # Turns on the disk

A record holds the last turn.  What a new process loads has the turns of the live session in their
order, up to the status that it reads as unknown.
-/

namespace Agentix.Claude

open Lib List Option Prod Function

variable {V : Type}

variable {turns : List (Turn V)}

@[simp] theorem settle_id {turn : Turn V} : turn.settle.id = turn.id := by
  unfold Turn.settle
  split <;> rfl

@[simp] theorem settle_settle_turn {turn : Turn V} : turn.settle.settle = turn.settle := by
  unfold Turn.settle
  split <;> simp_all

/-- The turns that a new process reads. -/
def settledTurns (turns : List (Turn V)) : List (Turn V) := turns.map Turn.settle

@[simp] theorem map_id_settledTurns :
    (settledTurns turns).map Turn.id = turns.map Turn.id := by
  simp [settledTurns, comp_def]

@[simp] theorem settledTurns_settledTurns :
    settledTurns (settledTurns turns) = settledTurns turns := by
  simp [settledTurns, comp_def]

theorem settledTurns_append {more : List (Turn V)} :
    settledTurns (turns ++ more) = settledTurns turns ++ settledTurns more := map_append

/-- Turns that read the same have the same ids. -/
theorem map_id_of_settled {turns' : List (Turn V)}
    (same : settledTurns turns = settledTurns turns') :
    turns.map Turn.id = turns'.map Turn.id := by
  rw [← map_id_settledTurns, same, map_id_settledTurns]

/-! ## Turns under their ids -/

def Keyed (turns : Entries TurnId (Turn V)) : Prop := ∀ entry ∈ turns, entry.1 = entry.2.id

namespace Keyed

variable {turns : Entries TurnId (Turn V)} {turn old : Turn V} {before : List (Turn V)}

theorem nil : Keyed ([] : Entries TurnId (Turn V)) := by
  intro entry mem
  cases mem

theorem set (keyed : Keyed turns) : Keyed (turns.set turn.id turn) := by
  induction turns with
  | nil =>
    intro entry mem
    obtain rfl := mem_singleton.mp mem
    rfl
  | cons head rest ih =>
    have rest_keyed : Keyed rest := fun entry mem => keyed entry (mem_cons_of_mem _ mem)
    unfold Entries.set
    intro entry mem
    split at mem
    · rename_i same
      obtain rfl | mem := mem_cons.mp mem
      · exact same
      · exact rest_keyed entry mem
    · obtain rfl | mem := mem_cons.mp mem
      · exact keyed _ (mem_cons_self ..)
      · exact ih rest_keyed entry mem

theorem map_fst (keyed : Keyed turns) :
    turns.map fst = (turns.map snd).map Turn.id := by
  rw [List.map_map]
  exact map_congr_left keyed

theorem set_new (keyed : Keyed turns) (new : turn.id ∉ (turns.map snd).map Turn.id) :
    (turns.set turn.id turn).map snd = turns.map snd ++ [turn] := by
  have absent : turns.get turn.id = none := by rwa [Entries.get_eq_none, keyed.map_fst]
  rw [Entries.set_of_none absent, map_append]
  rfl

theorem set_last (keyed : Keyed turns) (last : turns.map snd = before ++ [old])
    (same : old.id = turn.id) (distinct : turn.id ∉ before.map Turn.id) :
    (turns.set turn.id turn).map snd = before ++ [turn] := by
  induction turns generalizing before with
  | nil =>
    rw [map_nil] at last
    simp at last
  | cons head rest ih =>
    obtain ⟨key, value⟩ := head
    have key_eq : key = value.id := keyed (key, value) (mem_cons_self ..)
    have rest_keyed : Keyed rest := fun entry mem => keyed entry (mem_cons_of_mem _ mem)
    cases before with
    | nil =>
      simp only [map_cons, nil_append, cons.injEq, map_eq_nil_iff] at last
      obtain ⟨rfl, rfl⟩ := last
      rw [Entries.set, if_pos (key_eq.trans same)]
      rfl
    | cons first before =>
      simp only [map_cons, cons_append, cons.injEq] at last
      obtain ⟨rfl, last⟩ := last
      rw [map_cons, mem_cons, not_or] at distinct
      have ne : key ≠ turn.id := fun equal => distinct.1 (by rw [← equal, key_eq])
      rw [Entries.set, if_neg ne, map_cons,
        ih rest_keyed last distinct.2]
      rfl

end Keyed

/-- The maps that `load` has filled. -/
def Disk.maps (disk : Disk V) : Maps V := disk.records.foldl Maps.apply disk.checkpoint.maps

theorem load_turns {disk : Disk V} : disk.load.turns = disk.maps.turns.map snd := rfl

theorem keyed_apply {maps : Maps V} {record : Record V} (keyed : Keyed maps.turns) :
    Keyed (maps.apply record).turns := by
  unfold Maps.apply
  cases record.turn with
  | none => exact keyed
  | some turn => exact keyed.set

theorem keyed_maps (disk : Disk V) : Keyed disk.maps.turns := by
  unfold Disk.maps
  induction disk.records using reverseRecOn with
  | nil =>
    show Keyed disk.checkpoint.maps.turns
    unfold Saved.maps
    induction disk.checkpoint.turns using reverseRecOn with
    | nil => exact Keyed.nil
    | append_singleton turns turn ih =>
      rw [foldl_append]
      exact ih.set
  | append_singleton records record ih =>
    rw [foldl_append]
    exact keyed_apply ih

/-! ## What a save does to the turns -/

namespace State

section Save

variable {s : State V} {ids : List RequestId} {turns before : List (Turn V)} {turn old : Turn V}

theorem maps_save : (s.save ids).disk.maps = s.disk.maps.apply (s.record ids) := by
  simp [State.save, Disk.maps, foldl_append]

theorem record_turn (last : s.turns = before ++ [turn]) (distinct : turn.id ∉ before.map Turn.id)
    (active : ∀ id, s.active = some id → turn.id = id) : (s.record ids).turn = some turn := by
  have out : before.find? (fun other => other.id = turn.id) = none := by
    rw [find?_eq_none]
    intro other mem
    simp only [decide_eq_true_eq]
    intro same
    exact distinct (mem_map.mpr ⟨other, mem, same⟩)
  unfold record activeTurn
  cases isActive : s.active with
  | none => simp [last]
  | some id =>
    obtain rfl := active id isActive
    simp [last, find?_append, out]

theorem save_new (agrees : settledTurns s.disk.load.turns = settledTurns turns)
    (last : s.turns = turns ++ [turn]) (new : turn.id ∉ turns.map Turn.id)
    (active : ∀ id, s.active = some id → turn.id = id) :
    settledTurns (s.save ids).disk.load.turns = settledTurns s.turns := by
  have ids_eq := map_id_of_settled agrees
  rw [load_turns] at agrees ids_eq
  rw [load_turns, maps_save, Maps.apply, record_turn last new active]
  dsimp only
  rw [(keyed_maps s.disk).set_new (by rwa [ids_eq]), settledTurns_append, agrees, last,
    settledTurns_append]

theorem save_last (agrees : settledTurns s.disk.load.turns = settledTurns (before ++ [old]))
    (last : s.turns = before ++ [turn]) (same : old.id = turn.id)
    (distinct : turn.id ∉ before.map Turn.id)
    (active : ∀ id, s.active = some id → turn.id = id) :
    settledTurns (s.save ids).disk.load.turns = settledTurns s.turns := by
  rw [load_turns, settledTurns_append] at agrees
  obtain ⟨before', rest, split, before_eq, rest_eq⟩ := map_eq_append_iff.mp agrees
  obtain ⟨old', rfl, old_eq⟩ := map_eq_singleton_iff.mp rest_eq
  have same' : old'.id = turn.id := by rw [← settle_id, old_eq, settle_id, same]
  have distinct' : turn.id ∉ before'.map Turn.id := by rwa [map_id_of_settled before_eq]
  rw [load_turns, maps_save, Maps.apply, record_turn last distinct active]
  dsimp only
  rw [(keyed_maps s.disk).set_last split same' distinct', settledTurns_append, last,
    settledTurns_append]
  exact congrArg (· ++ settledTurns [turn]) before_eq

theorem save_empty (agrees : settledTurns s.disk.load.turns = settledTurns s.turns)
    (empty : s.turns = []) : settledTurns (s.save ids).disk.load.turns = settledTurns s.turns := by
  have none_turn : (s.record ids).turn = none := by
    unfold record activeTurn
    cases s.active <;> simp [empty]
  rw [load_turns, maps_save, Maps.apply, none_turn, ← load_turns]
  exact agrees

end Save

/-! ## The invariant -/

variable {before : List (Turn V)}

/-- The turn of an unresolved receipt has not begun. -/
structure Owned (s : State V) (receipt : Receipt) : Prop where
  made : ∃ number, receipt.turnId = .random number ∧ number < s.randoms
  unbegun : receipt.state.isUnresolved = true → receipt.turnId ∉ s.turns.map Turn.id

structure Kept (s : State V) : Prop where
  distinct : (s.turns.map Turn.id).Nodup
  made : ∀ {number}, .random number ∈ s.turns.map Turn.id → number < s.randoms
  active : ∀ {id}, s.active = some id → ∃ before turn, s.turns = before ++ [turn] ∧ turn.id = id
  owned : ∀ {id receipt}, s.receipts.get id = some receipt → s.Owned receipt
  agrees : settledTurns s.disk.load.turns = settledTurns s.turns

/-- Each receipt has come from one with the same turn. -/
def Descends (s s' : State V) : Prop :=
  ∀ id receipt, s'.receipts.get id = some receipt →
    ∃ known, s.receipts.get id = some known ∧ receipt.turnId = known.turnId ∧
      (receipt.state.isUnresolved = true → known.state.isUnresolved = true)

variable {s s' : State V} {id : RequestId} {receipt : Receipt} {turnId : TurnId} {turn : Turn V}
  {ids : List RequestId} {number : Nat}

theorem Kept.active_last (kept : s.Kept) (last : s.turns = before ++ [turn]) (id : TurnId)
    (isActive : s.active = some id) : turn.id = id := by
  obtain ⟨before', turn', last', same⟩ := kept.active isActive
  rw [last] at last'
  obtain ⟨-, equal⟩ := append_inj' last' rfl
  rw [singleton_inj.mp equal]
  exact same

theorem Kept.last_distinct (kept : s.Kept) (last : s.turns = before ++ [turn]) :
    turn.id ∉ before.map Turn.id := by
  have nodup := kept.distinct
  rw [last, map_append, nodup_append] at nodup
  exact fun mem => nodup.2.2 _ mem _ (mem_singleton_self _) rfl

/-- Saving the turns that the disk has changes nothing. -/
theorem Kept.resave (kept : s.Kept) (turns : s'.turns = s.turns) (active : s'.active = s.active)
    (disk : s'.disk = s.disk) :
    settledTurns (s'.save ids).disk.load.turns = settledTurns s'.turns := by
  have agrees : settledTurns s'.disk.load.turns = settledTurns s.turns := disk ▸ kept.agrees
  obtain empty | ⟨before, turn, last⟩ := s.turns.eq_nil_or_concat
  · exact save_empty (turns ▸ agrees) (turns.trans empty)
  · rw [concat_eq_append] at last
    exact save_last (last ▸ agrees) (turns.trans last) rfl (kept.last_distinct last)
      (active ▸ kept.active_last last)

theorem Kept.stays (kept : s.Kept) (turns : s'.turns = s.turns)
    (active : s'.active = s.active ∨ s'.active = none) (randoms : s.randoms ≤ s'.randoms)
    (owned : ∀ {id receipt}, s'.receipts.get id = some receipt → s'.Owned receipt)
    (agrees : settledTurns s'.disk.load.turns = settledTurns s'.turns) : s'.Kept where
  distinct := turns ▸ kept.distinct
  made := by
    rw [turns]
    exact fun mem => Nat.lt_of_lt_of_le (kept.made mem) randoms
  active := by
    intro id isActive
    rw [turns]
    obtain same | idle := active
    · exact kept.active (same ▸ isActive)
    · rw [idle] at isActive
      cases isActive
  owned := owned
  agrees := agrees

theorem Owned.keeps (owned : s.Owned receipt) (turns : s'.turns.map Turn.id = s.turns.map Turn.id)
    (randoms : s.randoms ≤ s'.randoms) : s'.Owned receipt where
  made := by
    obtain ⟨number, its, lower⟩ := owned.made
    exact ⟨number, its, Nat.lt_of_lt_of_le lower randoms⟩
  unbegun := by
    rw [turns]
    exact owned.unbegun

theorem Kept.descends (kept : s.Kept) (turns : s'.turns.map Turn.id = s.turns.map Turn.id)
    (randoms : s.randoms ≤ s'.randoms) (descends : s.Descends s')
    (held : s'.receipts.get id = some receipt) : s'.Owned receipt := by
  obtain ⟨known, held, same, unresolved⟩ := descends id receipt held
  have owned := (kept.owned held).keeps turns randoms
  constructor
  · rw [same]
    exact owned.made
  · intro isUnresolved
    rw [same]
    exact owned.unbegun (unresolved isUnresolved)

theorem Descends.of_eq (same : s'.receipts = s.receipts) : s.Descends s' := by
  intro id receipt held
  exact ⟨receipt, same ▸ held, rfl, fun isUnresolved => isUnresolved⟩

theorem Descends.set {known : Receipt} (held : s.receipts.get id = some known)
    (receipts : s'.receipts = s.receipts.set id receipt) (same : receipt.turnId = known.turnId)
    (unresolved : receipt.state.isUnresolved = true → known.state.isUnresolved = true) :
    s.Descends s' := by
  intro other receipt' held'
  rw [receipts] at held'
  by_cases here : other = id
  · subst here
    rw [Entries.get_set_self, some.injEq] at held'
    subst held'
    exact ⟨known, held, same, unresolved⟩
  · rw [Entries.get_set_of_ne here] at held'
    exact ⟨receipt', held', rfl, fun isUnresolved => isUnresolved⟩

theorem Kept.begins (kept : s.Kept) (turns : s'.turns = s.turns ++ [turn])
    (active : s'.active = some turn.id) (made : turn.id = .random number) (lower : number < s'.randoms)
    (randoms : s.randoms ≤ s'.randoms) (new : turn.id ∉ s.turns.map Turn.id)
    (disk : s'.disk = s.disk)
    (owned : ∀ {id receipt}, s'.receipts.get id = some receipt → s'.Owned receipt) :
    (s'.save ids).Kept where
  distinct := by
    show (s'.turns.map Turn.id).Nodup
    rw [turns, map_append]
    exact nodup_append_comm.mp (nodup_cons.mpr ⟨new, kept.distinct⟩)
  made := by
    show ∀ {other}, .random other ∈ s'.turns.map Turn.id → other < s'.randoms
    intro other mem
    rw [turns, map_append] at mem
    obtain before | same := mem_append.mp mem
    · exact Nat.lt_of_lt_of_le (kept.made before) randoms
    · rw [map_singleton, mem_singleton, made, TurnId.random.injEq] at same
      exact same ▸ lower
  active := by
    show ∀ {id}, s'.active = some id → ∃ before turn, s'.turns = before ++ [turn] ∧ turn.id = id
    intro id isActive
    rw [active, some.injEq] at isActive
    exact ⟨s.turns, turn, turns, isActive⟩
  owned := by
    intro id receipt held
    exact (owned held).keeps rfl (Nat.le_refl _)
  agrees := by
    have before : settledTurns s'.disk.load.turns = settledTurns s.turns := disk ▸ kept.agrees
    refine save_new before turns new fun id isActive => ?_
    rw [active, some.injEq] at isActive
    exact isActive

theorem Kept.alters (kept : s.Kept) {turn' : Turn V} (last : s.turns = before ++ [turn])
    (turns : s'.turns = before ++ [turn']) (same : turn'.id = turn.id)
    (active : s'.active = s.active ∨ s'.active = none) (randoms : s'.randoms = s.randoms)
    (receipts : s'.receipts = s.receipts) (disk : s'.disk = s.disk) : (s'.save ids).Kept where
  distinct := by
    have kept_distinct := kept.distinct
    show (s'.turns.map Turn.id).Nodup
    rw [turns, map_append]
    rw [last, map_append] at kept_distinct
    rwa [map_singleton, same]
  made := by
    show ∀ {other}, .random other ∈ s'.turns.map Turn.id → other < s'.randoms
    have ids_eq : s'.turns.map Turn.id = s.turns.map Turn.id := by simp [turns, last, same]
    intro number
    rw [ids_eq, randoms]
    exact kept.made
  active := by
    show ∀ {id}, s'.active = some id → ∃ before turn, s'.turns = before ++ [turn] ∧ turn.id = id
    intro id isActive
    obtain still | idle := active
    · rw [still] at isActive
      exact ⟨before, turn', turns, same.trans (kept.active_last last id isActive)⟩
    · rw [idle] at isActive
      cases isActive
  owned := by
    intro id receipt held
    have held : s.receipts.get id = some receipt := by rwa [← receipts]
    refine (kept.owned held).keeps ?_ (Nat.le_of_eq randoms.symm)
    show s'.turns.map Turn.id = s.turns.map Turn.id
    simp [turns, last, same]
  agrees := by
    refine save_last (disk ▸ last ▸ kept.agrees) turns same.symm ?_ fun id isActive => ?_
    · rw [same]
      exact kept.last_distinct last
    · obtain still | idle := active
      · rw [still] at isActive
        exact same.trans (kept.active_last last id isActive)
      · rw [idle] at isActive
        cases isActive

end State

end Agentix.Claude
