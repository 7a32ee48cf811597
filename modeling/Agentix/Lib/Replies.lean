import Mathlib.Data.List.Basic
import Mathlib.Data.List.Nodup
import Mathlib.Logic.Function.Basic

/-! # Alternation

Events that switch something on and off.
-/

namespace Agentix.Lib

open List

/-- The events switch on and off in turn, starting with on. -/
def Alternates (events : List Bool) : Prop :=
  ∀ i event, events[i]? = some event → event = decide (i % 2 = 0)

def isOn (events : List Bool) : Bool := events.length % 2 = 1

theorem alternates_nil : Alternates [] := by
  intro i event found
  simp at found

theorem Alternates.append {events : List Bool} {event : Bool} (alternates : Alternates events)
    (switches : event = !isOn events) : Alternates (events ++ [event]) := by
  intro i other found
  by_cases old : i < events.length
  · rw [getElem?_append_left old] at found
    exact alternates i other found
  · rw [getElem?_append_right (by omega), getElem?_singleton] at found
    split at found
    · rename_i last
      have last : i = events.length := by omega
      cases found
      subst last
      rw [switches, isOn]
      by_cases even : events.length % 2 = 0
      · simp [even]
      · have odd : events.length % 2 = 1 := by omega
        simp [odd]
    · cases found

theorem isOn_append {events : List Bool} {event : Bool} : isOn (events ++ [event]) = !isOn events := by
  simp only [isOn, length_append, length_singleton]
  by_cases even : events.length % 2 = 0
  · have odd : (events.length + 1) % 2 = 1 := by omega
    simp [even, odd]
  · have odd : events.length % 2 = 1 := by omega
    have even : (events.length + 1) % 2 = 0 := by omega
    simp [even, odd]

end Agentix.Lib

/-! # Replies to numbered calls

Calls wait for their replies in a table: an entry is taken out when the reply for its key arrives,
when the call is given up, or with all others when the peer is gone.  A reply that finds no entry is
dropped.
-/

namespace Agentix.Lib

open List Function

open Function (update)

variable {K R : Type}

/-- The receiving end of an entry. -/
inductive Slot (R : Type) where
  | vacant
  | waiting
  | answered (reply : R)
  | closed

structure Replies (K R : Type) where
  pending : K → Bool
  slot : K → Slot R
  /-- The replies that have been taken, oldest first. -/
  log : List (K × R)

namespace Replies

def empty : Replies K R := ⟨fun _ => false, fun _ => .vacant, []⟩

variable [DecidableEq K] (t : Replies K R) (key : K)

def register : Replies K R :=
  { t with pending := update t.pending key true, slot := update t.slot key .waiting }

def answer (reply : R) : Replies K R :=
  if t.pending key then
    { pending := update t.pending key false
      slot := update t.slot key (.answered reply)
      log := t.log ++ [(key, reply)] }
  else t

/-- The call is given up, or has its reply. -/
def remove : Replies K R :=
  { t with
    pending := update t.pending key false
    slot := if t.pending key then update t.slot key .closed else t.slot }

omit [DecidableEq K] in
/-- The peer is gone. -/
def clear : Replies K R :=
  { t with
    pending := fun _ => false
    slot := fun key => if t.pending key then .closed else t.slot key }

/-- An entry waits; a key that has its reply has it from the log, where keys stand once. -/
structure Sound (t : Replies K R) : Prop where
  waiting : ∀ key, t.pending key = true → t.slot key = .waiting
  answered : ∀ key reply, (key, reply) ∈ t.log ↔ t.slot key = .answered reply
  once : (t.log.map Prod.fst).Nodup

variable {t key}

omit [DecidableEq K] in
theorem sound_empty : (empty : Replies K R).Sound where
  waiting := nofun
  answered := by simp [empty]
  once := .nil

theorem Sound.register (sound : t.Sound) (fresh : t.slot key = .vacant) :
    (t.register key).Sound where
  waiting := by
    intro other pending
    by_cases same : other = key
    · simp [Replies.register, same]
    · simp only [Replies.register, update_of_ne same] at pending ⊢
      exact sound.waiting other pending
  answered := by
    intro other reply
    by_cases same : other = key
    · subst same
      have known := sound.answered other reply
      rw [fresh] at known
      simp [Replies.register, known]
    · simp only [Replies.register, update_of_ne same]
      exact sound.answered other reply
  once := sound.once

theorem Sound.answer {reply : R} (sound : t.Sound) : (t.answer key reply).Sound := by
  by_cases pending : t.pending key = true
  · simp only [Replies.answer, if_pos pending]
    have waits := sound.waiting key pending
    constructor
    · intro other here
      by_cases same : other = key
      · subst same
        simp at here
      · simp only [update_of_ne same] at here ⊢
        exact sound.waiting other here
    · intro other value
      by_cases same : other = key
      · subst same
        have known := sound.answered other value
        rw [waits] at known
        simp [known, eq_comm]
      · simp only [update_of_ne same, mem_append, mem_singleton,
          Prod.mk.injEq, same, false_and, or_false]
        exact sound.answered other value
    · rw [map_append, nodup_append]
      refine ⟨sound.once, by simp, ?_⟩
      rintro other here _ there rfl
      rw [map_singleton, mem_singleton] at there
      subst there
      obtain ⟨⟨_, value⟩, mem, rfl⟩ := mem_map.mp here
      have answered := (sound.answered _ value).mp mem
      rw [waits] at answered
      cases answered
  · simp only [Replies.answer, if_neg pending]
    exact sound

theorem Sound.remove (sound : t.Sound) : (t.remove key).Sound where
  waiting := by
    intro other here
    by_cases same : other = key
    · subst same
      simp [Replies.remove] at here
    · simp only [Replies.remove, update_of_ne same] at here
      have waits := sound.waiting other here
      by_cases pending : t.pending key = true <;>
        simp [Replies.remove, pending, update_of_ne same, waits]
  answered := by
    intro other reply
    rw [show (t.remove key).log = t.log from rfl, sound.answered]
    by_cases pending : t.pending key = true
    · by_cases same : other = key
      · subst same
        simp [Replies.remove, pending, sound.waiting other pending]
      · simp [Replies.remove, pending, update_of_ne same]
    · simp [Replies.remove, pending]
  once := sound.once

omit [DecidableEq K] in
theorem Sound.clear (sound : t.Sound) : t.clear.Sound where
  waiting := nofun
  answered := by
    intro other reply
    rw [show t.clear.log = t.log from rfl, sound.answered]
    by_cases pending : t.pending other = true
    · simp [Replies.clear, pending, sound.waiting other pending]
    · simp [Replies.clear, pending]
  once := sound.once

/-! ## What the operations leave alone -/

section

variable {other : K}

variable {reply : R}

@[simp] theorem register_slot_of_ne (ne : other ≠ key) :
    (t.register key).slot other = t.slot other := update_of_ne ne _ _

@[simp] theorem register_pending_of_ne (ne : other ≠ key) :
    (t.register key).pending other = t.pending other := update_of_ne ne _ _

theorem answer_slot_of_ne (ne : other ≠ key) :
    (t.answer key reply).slot other = t.slot other := by
  by_cases pending : t.pending key = true <;> simp [answer, pending, update_of_ne ne]

theorem pending_of_answer (pending : (t.answer key reply).pending other = true) :
    t.pending other = true := by
  by_cases here : t.pending key = true
  · by_cases same : other = key
    · rw [same]
      exact here
    · simpa [answer, here, update_of_ne same] using pending
  · simpa [answer, here] using pending

theorem log_of_answer {entry : K × R} (mem : entry ∈ t.log) :
    entry ∈ (t.answer key reply).log := by
  by_cases pending : t.pending key = true
  · simp [answer, pending, mem]
  · simp [answer, pending, mem]

theorem pending_of_remove (pending : (t.remove key).pending other = true) :
    other ≠ key ∧ t.pending other = true := by
  by_cases same : other = key
  · simp [remove, same] at pending
  · exact ⟨same, by simpa [remove, update_of_ne same] using pending⟩

theorem answer_vacant (sound : t.Sound) :
    (t.answer key reply).slot other = .vacant ↔ t.slot other = .vacant := by
  by_cases pending : t.pending key = true
  · by_cases same : other = key
    · subst same
      simp [answer, pending, sound.waiting other pending]
    · simp [answer, pending, update_of_ne same]
  · simp [answer, pending]

theorem remove_vacant (sound : t.Sound) :
    (t.remove key).slot other = .vacant ↔ t.slot other = .vacant := by
  by_cases pending : t.pending key = true
  · by_cases same : other = key
    · subst same
      simp [remove, pending, sound.waiting other pending]
    · simp [remove, pending, update_of_ne same]
  · simp [remove, pending]

omit [DecidableEq K] in
theorem clear_vacant (sound : t.Sound) : t.clear.slot other = .vacant ↔ t.slot other = .vacant := by
  by_cases pending : t.pending other = true
  · simp [clear, pending, sound.waiting other pending]
  · simp [clear, pending]

end

end Replies

end Agentix.Lib
