import Agentix.Cards.Registry
import Mathlib.Data.List.Nodup

/-! # The registry forgets idle cards only

Every key of a generation is queued once, and the generations have no key in common.  A card that is
retained, or that has a handle outside of the registry, is not idle for a sweep, so it stays under its
messages.
-/

namespace Agentix.Cards.Registry

open Lib List Option

/-! ## Generations -/

/-- The keys are queued, and none of them twice. -/
def RegistryEntries.Queued (entries : RegistryEntries) : Prop :=
  entries.sweep.Nodup ∧ ∀ message, message ∈ entries.cards ↔ message ∈ entries.sweep

section Generations

variable {entries : RegistryEntries} {message : MessageRef} {card : CardRef} {sweep : List MessageRef}

theorem queued_empty : RegistryEntries.Queued {} :=
  ⟨nodup_nil, fun message => by simp [AList.notMem_empty]⟩

theorem RegistryEntries.Queued.append (queued : entries.Queued) (absent : message ∉ entries.cards) :
    RegistryEntries.Queued
      { cards := entries.cards.insert message card, sweep := entries.sweep ++ [message] } := by
  obtain ⟨nodup, same⟩ := queued
  refine ⟨?_, fun other => ?_⟩
  · rw [same] at absent
    exact nodup_append.mpr ⟨nodup, nodup_singleton _, by
      simp only [mem_singleton, forall_eq]
      exact fun other mem equal => absent (equal ▸ mem)⟩
  · rw [AList.mem_insert, mem_append, mem_singleton, same]
    exact or_comm

theorem RegistryEntries.Queued.replace (queued : entries.Queued) (present : message ∈ entries.cards) :
    RegistryEntries.Queued { entries with cards := entries.cards.insert message card } := by
  obtain ⟨nodup, same⟩ := queued
  refine ⟨nodup, fun other => ?_⟩
  rw [AList.mem_insert, ← same]
  constructor
  · rintro (rfl | mem)
    · exact present
    · exact mem
  · exact .inr

theorem RegistryEntries.Queued.insert (queued : entries.Queued) :
    (entries.insert message card).Queued := by
  rw [RegistryEntries.insert]
  split
  · rename_i present
    exact queued.replace present
  · rename_i absent
    exact queued.append absent

theorem RegistryEntries.Queued.erase (queued : entries.Queued) (first : entries.sweep = message :: sweep) :
    RegistryEntries.Queued { cards := entries.cards.erase message, sweep } := by
  obtain ⟨nodup, same⟩ := queued
  rw [first, nodup_cons] at nodup
  refine ⟨nodup.2, fun other => ?_⟩
  rw [AList.mem_erase, same, first, mem_cons]
  constructor
  · rintro ⟨ne, rfl | mem⟩
    · exact absurd rfl ne
    · exact mem
  · exact fun mem => ⟨fun equal => nodup.1 (equal ▸ mem), .inr mem⟩

theorem RegistryEntries.Queued.rotate (queued : entries.Queued)
    (first : entries.sweep = message :: sweep) :
    RegistryEntries.Queued { entries with sweep := sweep ++ [message] } := by
  obtain ⟨nodup, same⟩ := queued
  rw [first, nodup_cons] at nodup
  refine ⟨?_, fun other => ?_⟩
  · exact nodup_append.mpr ⟨nodup.2, nodup_singleton _, by
      simp only [mem_singleton, forall_eq]
      exact fun other mem equal => nodup.1 (equal ▸ mem)⟩
  · rw [same, first, mem_cons, mem_append, mem_singleton]
    exact or_comm

theorem RegistryEntries.Queued.first_mem (queued : entries.Queued)
    (first : entries.sweep = message :: sweep) : message ∈ entries.cards := by
  rw [queued.2, first]
  exact mem_cons_self

theorem RegistryEntries.Queued.keys_eq_nil (queued : entries.Queued) (drained : entries.sweep = []) :
    entries.cards.keys = [] := by
  apply eq_nil_iff_forall_not_mem.mpr
  intro message mem
  have queuedKey := (queued.2 message).mp (AList.mem_keys.mpr mem)
  rw [drained] at queuedKey
  cases queuedKey

theorem references_pos (found : entries.cards.lookup message = some card) :
    0 < entries.references card :=
  countP_pos_iff.mpr ⟨⟨message, card⟩, AList.mem_lookup_iff.mp found, by simp⟩

end Generations

/-! ## The invariant -/

structure Sound (s : State) : Prop where
  current : s.current.Queued
  compacting : ∀ old, s.compacting = some old → old.Queued
  disjoint : ∀ old, s.compacting = some old → ∀ message ∈ s.current.cards, message ∉ old.cards
  /-- A compaction starts behind a batch that found none. -/
  single : ∀ candidates, s.work = .prune candidates true → s.compacting = none

/-- A sweep must not forget the card. -/
def State.Needed (s : State) (card : CardRef) : Prop :=
  s.retain card = true ∨ 0 < s.handles card

section Operations

variable {s : State} {message other : MessageRef} {card : CardRef} {old : RegistryEntries}

theorem get_eq_some : s.get message = some card ↔
    s.current.cards.lookup message = some card ∨ s.current.cards.lookup message = none ∧
      ∃ old, s.compacting = some old ∧ old.cards.lookup message = some card := by
  rw [State.get, or_eq_some_iff, bind_eq_some_iff]

theorem get_of_old (sound : Sound s) (compacting : s.compacting = some old)
    (found : old.cards.lookup message = some card) : s.get message = some card := by
  refine get_eq_some.mpr (.inr ⟨?_, old, compacting, found⟩)
  rw [AList.lookup_eq_none]
  intro mem
  exact sound.disjoint old compacting message mem (AList.lookup_isSome.mp (by rw [found]; rfl))

theorem idle_eq_false (found : s.get message = some card) (needed : s.Needed card) :
    s.idle card = false := by
  have entry : 0 < s.current.references card + (s.compacting.map (·.references card)).getD 0 := by
    obtain here | ⟨-, old, compacting, there⟩ := get_eq_some.mp found
    · have := references_pos here
      omega
    · have := references_pos there
      rw [compacting, map_some, getD_some]
      omega
  rw [State.idle, decide_eq_false_iff_not]
  rintro ⟨single, clear⟩
  obtain retained | held := needed
  · rw [retained] at clear
    cases clear
  · rw [State.strongCount] at single
    omega

/-! ### Inserts -/

theorem sound_insert (sound : Sound s) (card : CardRef) : Sound (s.insert message card) := by
  have fresh : (∀ old, s.compacting = some old → message ∉ old.cards) →
      Sound { s with current := s.current.insert message card } := by
    intro absent
    refine ⟨sound.current.insert, sound.compacting, fun old compacting other mem => ?_, sound.single⟩
    rw [RegistryEntries.insert, AList.mem_insert] at mem
    obtain rfl | mem := mem
    · exact absent old compacting
    · exact sound.disjoint old compacting other mem
  rw [State.insert]
  cases compacting : s.compacting with
  | none =>
    rw [compacting] at fresh
    exact fresh fun old same => by cases same
  | some old =>
    simp only
    split
    · rename_i present
      have queued : RegistryEntries.Queued { old with cards := old.cards.insert message card } :=
        (sound.compacting old compacting).replace present
      refine ⟨sound.current, fun _ same => ?_, fun _ same other mem => ?_, fun candidates working => ?_⟩
      · cases same
        exact queued
      · cases same
        have absent := sound.disjoint old compacting other mem
        rw [AList.mem_insert, not_or]
        exact ⟨fun equal => absent (equal ▸ present), absent⟩
      · have none := sound.single candidates working
        rw [compacting] at none
        cases none
    · rename_i absent
      rw [compacting] at fresh
      exact fresh fun _ same => by
        cases same
        exact absent

theorem get_insert (sound : Sound s) : (s.insert message card).get message = some card := by
  rw [State.insert]
  cases compacting : s.compacting with
  | none => exact get_eq_some.mpr (.inl (AList.lookup_insert _))
  | some old =>
    simp only
    split
    · rename_i present
      refine get_eq_some.mpr (.inr ⟨?_, _, rfl, AList.lookup_insert _⟩)
      rw [AList.lookup_eq_none]
      exact fun mem => sound.disjoint old compacting message mem present
    · exact get_eq_some.mpr (.inl (AList.lookup_insert _))

theorem get_insert_ne (ne : message ≠ other) :
    (s.insert other card).get message = s.get message := by
  rw [State.insert]
  cases compacting : s.compacting with
  | none =>
    simp only [State.get, RegistryEntries.insert, compacting]
    rw [AList.lookup_insert_ne ne]
  | some old =>
    simp only
    split
    · simp only [State.get, compacting, bind_some]
      rw [AList.lookup_insert_ne ne]
    · simp only [State.get, RegistryEntries.insert, compacting]
      rw [AList.lookup_insert_ne ne]

/-! ### Visits -/

theorem sound_visit (sound : Sound s) : Sound s.visit := by
  have kept : ∀ entries : RegistryEntries, entries.Queued →
      (∀ message ∈ entries.cards, message ∈ s.current.cards) → Sound { s with current := entries } :=
    fun entries queued within => ⟨queued, sound.compacting,
      fun old compacting message mem => sound.disjoint old compacting message (within message mem),
      sound.single⟩
  rw [State.visit]
  split
  · exact sound
  · rename_i message sweep first
    split
    · rename_i absent
      exact absurd (sound.current.first_mem first) (AList.lookup_eq_none.mp absent)
    · split
      · exact kept _ (sound.current.erase first) fun other mem => (AList.mem_erase.mp mem).2
      · exact kept _ (sound.current.rotate first) fun other mem => mem

theorem visit_frame : s.visit.work = s.work ∧ s.visit.compacting = s.compacting := by
  rw [State.visit]
  split
  · exact ⟨rfl, rfl⟩
  · split
    · exact ⟨rfl, rfl⟩
    · split <;> exact ⟨rfl, rfl⟩

theorem get_visit (found : s.get message = some card) (needed : s.Needed card) :
    s.visit.get message = some card := by
  have busy := idle_eq_false found needed
  rw [State.visit]
  split
  · exact found
  · rename_i visited sweep first
    split
    · exact found
    · rename_i candidate entry
      split
      · rename_i idle
        have ne : message ≠ visited := by
          rintro rfl
          have same : s.get message = some candidate := get_eq_some.mpr (.inl entry)
          rw [found] at same
          cases same
          rw [busy] at idle
          cases idle
        simp only [State.get, AList.lookup_erase_ne ne]
        exact found
      · exact found

theorem sound_migrate (sound : Sound s) (compacting : s.compacting = some old)
    (migrating : ∀ candidates, s.work ≠ .prune candidates true) : Sound (s.migrate old) := by
  have queued := sound.compacting old compacting
  have disjoint := sound.disjoint old compacting
  rw [State.migrate]
  split
  · exact sound
  · rename_i message sweep first
    have present := queued.first_mem first
    have rest := queued.erase first
    have dropped : Sound { s with compacting := some ⟨old.cards.erase message, sweep⟩ } := by
      refine ⟨sound.current, fun _ same => ?_, fun _ same other mem => ?_,
        fun candidates working => absurd working (migrating candidates)⟩
      · cases same
        exact rest
      · cases same
        exact fun left => disjoint other mem (AList.mem_erase.mp left).2
    split
    · exact dropped
    · rename_i card entry
      simp only
      split
      · exact dropped
      · have absent : message ∉ s.current.cards := fun mem => disjoint message mem present
        refine ⟨sound.current.append absent, dropped.compacting, fun _ same other mem => ?_,
          dropped.single⟩
        cases same
        rw [AList.mem_erase]
        rintro ⟨ne, left⟩
        obtain same | mem := (AList.mem_insert _).mp mem
        · exact ne same
        · exact disjoint other mem left

theorem get_migrate (sound : Sound s) (compacting : s.compacting = some old)
    (found : s.get message = some card) (needed : s.Needed card) :
    (s.migrate old).get message = some card := by
  have busy := idle_eq_false found needed
  rw [State.migrate]
  split
  · exact found
  · rename_i visited sweep first
    by_cases ne : message = visited
    · subst ne
      have present := (sound.compacting old compacting).first_mem first
      obtain ⟨candidate, entry⟩ := isSome_iff_exists.mp (AList.lookup_isSome.mpr present)
      have same := get_of_old sound compacting entry
      rw [found] at same
      cases same
      simp only [entry, busy]
      exact get_eq_some.mpr (.inl (AList.lookup_insert _))
    · have dropped : State.get { s with compacting := some ⟨old.cards.erase visited, sweep⟩ } message =
          some card := by
        simp only [State.get, bind_some, AList.lookup_erase_ne ne]
        rw [State.get, compacting] at found
        exact found
      split
      · exact dropped
      · simp only
        split
        · exact dropped
        · simp only [State.get, AList.lookup_insert_ne ne]
          exact dropped

/-! ### Ends of batches -/

theorem sound_released (sound : Sound s) : Sound s.released := by
  rw [State.released]
  split
  · exact ⟨queued_empty, sound.compacting, fun _ _ message mem => absurd mem (AList.notMem_empty _),
      sound.single⟩
  · exact sound

theorem released_compacting : s.released.compacting = s.compacting := by
  rw [State.released]
  split <;> rfl

theorem get_released (found : s.get message = some card) : s.released.get message = some card := by
  rw [State.released]
  split
  · rename_i empty
    obtain here | ⟨-, there⟩ := get_eq_some.mp found
    · have mem := AList.mem_keys.mp (AList.lookup_isSome.mp (isSome_of_eq_some here))
      rw [empty] at mem
      cases mem
    · exact get_eq_some.mpr (.inr ⟨AList.lookup_empty _, there⟩)
  · exact found

theorem sound_compact (sound : Sound s) (ended : s.work = .none) (capacity : Nat) :
    Sound (s.compact capacity) := by
  rw [State.compact]
  split
  · refine ⟨queued_empty, fun _ same => ?_, fun _ _ message mem => absurd mem (AList.notMem_empty _),
      fun candidates working => ?_⟩
    · cases same
      exact sound.current
    · rw [ended] at working
      cases working
  · exact sound

theorem get_compact (single : s.compacting = none) (found : s.get message = some card) (capacity : Nat) :
    (s.compact capacity).get message = some card := by
  rw [State.compact]
  split
  · obtain here | ⟨-, old, compacting, -⟩ := get_eq_some.mp found
    · exact get_eq_some.mpr (.inr ⟨AList.lookup_empty _, _, rfl, here⟩)
    · rw [single] at compacting
      cases compacting
  · exact found

end Operations

/-! ## Runs -/

/-- The registry from its start, with every interleaving of its operations and the handles. -/
def system : System State Action := System.ofStep {} step

theorem sound_start : Sound {} :=
  ⟨queued_empty, fun _ same => (by cases same), fun _ same => (by cases same), fun _ same => (by cases same)⟩

section Steps

variable {s s' : State} {action : Action} {message : MessageRef} {card : CardRef}

/-- The entries of a state that is sound do not depend on handles and flags. -/
theorem Sound.congr (sound : Sound s) (current : s'.current = s.current)
    (compacting : s'.compacting = s.compacting)
    (work : ∀ candidates, s'.work = .prune candidates true → s'.compacting = none) : Sound s' := by
  obtain ⟨queued, queued', disjoint, -⟩ := sound
  rw [← current, ← compacting] at disjoint
  exact ⟨current ▸ queued, compacting ▸ queued', disjoint, work⟩

theorem get_congr (current : s'.current = s.current) (compacting : s'.compacting = s.compacting) :
    s'.get message = s.get message := by
  rw [State.get, State.get, current, compacting]

/-- What a step does to the entries. -/
inductive Changes (s : State) : Action → State → Prop
  | handles {action : Action} {s' : State} (current : s'.current = s.current)
      (compacting : s'.compacting = s.compacting)
      (work : ∀ candidates, s'.work = .prune candidates true → s'.compacting = none) :
      Changes s action s'
  | insert (message : MessageRef) (card : CardRef) : Changes s (.insert message card) (s.insert message card)
  | visit (candidates : Nat) (maintains : Bool) (working : s.work = .prune (candidates + 1) maintains) :
      Changes s .visit { s.visit with work := .prune candidates maintains }
  | migrate (candidates left : Nat) (old : RegistryEntries)
      (working : s.work = .migrate (candidates + 1)) (compacting : s.compacting = some old) :
      Changes s .visit { s.migrate old with work := .migrate left }
  | release (capacity : Nat) : Changes s (.finish capacity) { s.released with work := .none }
  | compact (capacity : Nat) (working : s.work = .prune 0 true) :
      Changes s (.finish capacity) ({ s.released with work := .none }.compact capacity)
  | settle (capacity : Nat) (old : RegistryEntries) (working : s.work = .migrate 0)
      (compacting : s.compacting = some old) (drained : old.sweep = []) :
      Changes s (.finish capacity) { s with work := .none, compacting := none }

theorem changes_of_step (sound : Sound s) (steps : step s action = some s') : Changes s action s' := by
  cases action with
  -- A handle of the card is taken or given back; the entries and the sweep stay.
  | create card =>
    simp only [step, ite_none_right_eq_some, some.injEq] at steps
    obtain ⟨-, rfl⟩ := steps
    exact .handles rfl rfl sound.single
  | clone card =>
    simp only [step, ite_none_right_eq_some, some.injEq] at steps
    obtain ⟨-, rfl⟩ := steps
    exact .handles rfl rfl sound.single
  | drop card =>
    simp only [step, ite_none_right_eq_some, some.injEq] at steps
    obtain ⟨-, rfl⟩ := steps
    exact .handles rfl rfl sound.single
  | setRetain card flag =>
    simp only [step, ite_none_right_eq_some, some.injEq] at steps
    obtain ⟨-, rfl⟩ := steps
    exact .handles rfl rfl sound.single
  | get message =>
    simp only [step, ite_none_right_eq_some] at steps
    obtain ⟨-, steps⟩ := steps
    split at steps
    · cases steps
      exact .handles rfl rfl sound.single
    · cases steps
      exact .handles rfl rfl sound.single
  | insert message card =>
    simp only [step, ite_none_right_eq_some, some.injEq] at steps
    obtain ⟨-, rfl⟩ := steps
    exact .insert message card
  -- At most one sweep works at a time: a second request finds it working.
  | prune =>
    simp only [step, ite_none_right_eq_some] at steps
    obtain ⟨-, steps⟩ := steps
    split at steps
    · cases steps
      exact .handles rfl rfl sound.single
    · cases steps
      exact .handles rfl rfl fun _ working => by cases working
  | maintain =>
    simp only [step, ite_none_right_eq_some] at steps
    obtain ⟨-, steps⟩ := steps
    split at steps
    · cases steps
      exact .handles rfl rfl fun _ working => by cases working
    · rename_i single
      cases steps
      exact .handles rfl rfl fun _ _ => single
  | visit =>
    simp only [step] at steps
    split at steps
    · rename_i candidates maintains working
      cases steps
      exact .visit candidates maintains working
    · rename_i candidates old working compacting
      cases steps
      exact .migrate candidates _ old working compacting
    · cases steps
  -- The sweep ends: a compaction settles only after the old table is drained.
  | finish capacity =>
    simp only [step] at steps
    split at steps
    · rename_i maintains working
      cases maintains with
      | false =>
        cases steps
        exact .release capacity
      | true =>
        cases steps
        exact .compact capacity working
    · rename_i old working compacting
      cases steps
      by_cases drained : old.sweep = []
      · rw [if_pos drained]
        exact .settle capacity old working compacting drained
      · rw [if_neg drained]
        exact .handles rfl compacting.symm fun _ working => by cases working
    · cases steps

theorem sound_step (sound : Sound s) (steps : step s action = some s') : Sound s' := by
  cases changes_of_step sound steps with
  | handles current compacting work => exact sound.congr current compacting work
  | insert message card => exact sound_insert sound card
  | visit candidates maintains working =>
    have visited := sound_visit sound
    refine visited.congr rfl rfl fun left pruning => ?_
    cases pruning
    exact visited.single _ (visit_frame.1.trans working)
  | migrate candidates left old working compacting =>
    have other : ∀ left, s.work ≠ .prune left true := fun left pruning => by
      rw [working] at pruning
      cases pruning
    exact (sound_migrate sound compacting other).congr rfl rfl fun _ pruning => by cases pruning
  | release capacity =>
    exact (sound_released sound).congr rfl rfl fun _ pruning => by cases pruning
  | compact capacity working =>
    have ended : Sound { s.released with work := .none } :=
      (sound_released sound).congr rfl rfl fun _ pruning => by cases pruning
    exact sound_compact ended rfl capacity
  | settle capacity old working compacting drained =>
    exact ⟨sound.current, fun _ same => (by cases same), fun _ same => (by cases same),
      fun _ pruning => (by cases pruning)⟩

/-- A step keeps a card under a message, unless nothing needs it or the message gets another one. -/
theorem get_step (sound : Sound s) (steps : step s action = some s')
    (found : s.get message = some card) (needed : s.Needed card)
    (same : ∀ other, action ≠ .insert message other) : s'.get message = some card := by
  cases changes_of_step sound steps with
  | handles current compacting work => exact (get_congr current compacting).trans found
  | insert inserted other =>
    have ne : message ≠ inserted := by
      rintro rfl
      exact same other rfl
    exact (get_insert_ne ne).trans found
  | visit candidates maintains working => exact get_visit found needed
  | migrate candidates left old working compacting => exact get_migrate sound compacting found needed
  | release capacity => exact get_released found
  | compact capacity working =>
    have single : s.released.compacting = none := released_compacting.trans (sound.single 0 working)
    exact get_compact (s := { s.released with work := .none }) single (get_released found) capacity
  | settle capacity old working compacting drained =>
    obtain here | ⟨-, _, present, there⟩ := get_eq_some.mp found
    · exact get_eq_some.mpr (.inl here)
    · rw [compacting] at present
      cases present
      have empty := (sound.compacting old compacting).keys_eq_nil drained
      have mem := AList.mem_keys.mp (AList.lookup_isSome.mp (isSome_of_eq_some there))
      rw [empty] at mem
      cases mem

theorem drained_of_step (sound : Sound s) (steps : step s action = some s') {old : RegistryEntries}
    (compacting : s.compacting = some old) (ended : s'.compacting = none) : old.sweep = [] := by
  cases changes_of_step sound steps with
  | handles current same work =>
    rw [same, compacting] at ended
    cases ended
  | insert message card =>
    simp only [State.insert, compacting] at ended
    split at ended
    · cases ended
    · cases ended
  | visit candidates maintains working =>
    rw [visit_frame.2, compacting] at ended
    cases ended
  | migrate candidates left other working same =>
    rw [State.migrate] at ended
    split at ended
    · rw [compacting] at ended
      cases ended
    · split at ended
      · cases ended
      · simp only at ended
        split at ended <;> cases ended
  | release capacity =>
    rw [released_compacting, compacting] at ended
    cases ended
  | compact capacity working =>
    rw [sound.single 0 working] at compacting
    cases compacting
  | settle capacity other working same drained =>
    rw [compacting] at same
    cases same
    exact drained

theorem sound_of_reachable (run : system.Reachable System.always s) : Sound s :=
  run.invariant Sound sound_start fun _ _ sound steps => sound_step sound steps

/-- The steps up to the first one from a state where nothing needs the card, and without a new card
for the message. -/
def Keeps (message : MessageRef) (card : CardRef) (s : State) (action : Action) : Prop :=
  s.Needed card ∧ ∀ other, action ≠ .insert message other

theorem get_path (sound : Sound s) (found : s.get message = some card)
    (path : system.Path (Keeps message card) s s') : s'.get message = some card := by
  suffices both : Sound s' ∧ s'.get message = some card from both.2
  induction path with
  | refl => exact ⟨sound, found⟩
  | tail _ next ih =>
    obtain ⟨sound, found⟩ := ih
    obtain ⟨action, ⟨needed, same⟩, steps⟩ := next
    exact ⟨sound_step sound steps, get_step sound steps found needed same⟩

/-- In every state of every run, the keys of a generation are the ones in its queue, and those of the
two generations are apart; a card stays under its message from its insertion until nothing needs it;
and a compaction ends when its generation is empty. -/
theorem forgets_idle_cards (run : system.Reachable System.always s) :
    (s.current.Queued ∧ ∀ old, s.compacting = some old →
      old.Queued ∧ ∀ message ∈ s.current.cards, message ∉ old.cards) ∧
    (∀ message card s', step s (.insert message card) = some s' → s'.get message = some card) ∧
    (∀ message card s', s.get message = some card → system.Path (Keeps message card) s s' →
      s'.get message = some card) ∧
    ∀ action s' old, step s action = some s' → s.compacting = some old → s'.compacting = none →
      old.cards.keys = [] ∧ old.sweep = [] := by
  have sound := sound_of_reachable run
  refine ⟨⟨sound.current, fun old compacting =>
    ⟨sound.compacting old compacting, sound.disjoint old compacting⟩⟩, ?_, ?_, ?_⟩
  · intro message card s' steps
    simp only [step, ite_none_right_eq_some, some.injEq] at steps
    obtain ⟨-, rfl⟩ := steps
    exact get_insert sound
  · exact fun message card s' found path => get_path sound found path
  · intro action s' old steps compacting ended
    have drained := drained_of_step sound steps compacting ended
    exact ⟨(sound.compacting old compacting).keys_eq_nil drained, drained⟩

end Steps

/-- A card that was inserted is found by its message, while its writer has it. -/
theorem inserted_card_found : ∃ s t,
    [Action.create 0, .insert "m" 0, .create 1].foldlM step {} = some s ∧
      [Action.drop 1, .prune, .get "m"].foldlM step s = some t ∧ t.get "m" = some 0 := by
  refine ⟨_, _, rfl, rfl, ?_⟩
  refine (forgets_idle_cards (System.reachable_of_foldlM [.create 0, .insert "m" 0, .create 1] rfl)).2.2.1
    "m" 0 _ rfl ?_
  refine Relation.ReflTransGen.head ⟨.drop 1, ⟨.inr (by decide), fun _ same => by cases same⟩, rfl⟩ ?_
  refine Relation.ReflTransGen.head ⟨.prune, ⟨.inr (by decide), fun _ same => by cases same⟩, rfl⟩ ?_
  exact .single ⟨.get "m", ⟨.inr (by decide), fun _ same => by cases same⟩, rfl⟩

end Agentix.Cards.Registry
