import Agentix.Delivery.Attempt
import Agentix.Lib.Updates
import Mathlib.Data.List.Pairwise
import Mathlib.Data.List.Perm.Subperm

/-! # Pacing of requests to Telegram

All requests share the limits.  A request reserves its place before it goes out, and sleeps without
the lock where it may not go out yet, so reservations, answers and cancelled callers come in any
order.
-/

namespace Agentix.Delivery.Telegram

open Lib List Function Option

inductive Event where
  | sent (chat : Option ChatId) (time : Nat)
  | limited (time : Nat) (delay : Nat)
  deriving DecidableEq

/-- The limits with the time of their last critical section, and what has happened. -/
structure World where
  limits : Limits := ⟨none, none, fun _ => none⟩
  clock : Nat := 0
  log : List Event := []

/-- The critical sections of `act`. -/
inductive Step where
  | reserving (chat : Option ChatId) (now : Nat)
  /-- The answer came at the first time, and the lock was taken at the last one. -/
  | blocking (time : Nat) (delay : Nat) (now : Nat)

namespace World

def step (w : World) : Step → Option World
  | .reserving chat now =>
    if now < w.clock then none
    else if w.limits.deadline chat now ≤ now then
      some ⟨w.limits.reserved chat now, now, w.log ++ [.sent chat now]⟩
    else some { w with clock := now }
  | .blocking time delay now =>
    if now < w.clock ∨ now < time then none
    else some ⟨w.limits.blocked time delay, now, w.log ++ [.limited time delay]⟩

def system : System World Step := .ofStep {} World.step

end World

variable {limits : Limits} {w w' : World} {chat : Option ChatId} {c : ChatId} {delay : Nat}
  {now time next : Nat}

theorem deadline_le : limits.deadline chat now ≤ now ↔
    (∀ next : Nat, limits.nextRequest = some next → next ≤ now) ∧
    (∀ blocked : Nat, limits.blockedUntil = some blocked → blocked ≤ now) ∧
    ∀ c, chat = some c → ∀ next : Nat, limits.nextChat c = some next → next ≤ now := by
  have known : ∀ o : Option Nat, o.getD now ≤ now ↔ ∀ time, o = some time → time ≤ now := by
    intro o
    cases o <;> simp
  unfold Limits.deadline
  cases chat with
  | none => simp [known]
  | some c => cases found : limits.nextChat c <;> simp [known, found]

theorem step_cases {step : Step} (next : w.step step = some w') :
    (∃ chat now, w.clock ≤ now ∧ w.limits.deadline chat now ≤ now ∧
      w' = ⟨w.limits.reserved chat now, now, w.log ++ [.sent chat now]⟩) ∨
    (∃ now, w.clock ≤ now ∧ w' = { w with clock := now }) ∨
    ∃ time delay now, w.clock ≤ now ∧ time ≤ now ∧
      w' = ⟨w.limits.blocked time delay, now, w.log ++ [.limited time delay]⟩ := by
  cases step with
  | reserving chat now =>
    simp only [World.step] at next
    split at next
    · cases next
    · split at next
      · rename_i due
        exact .inl ⟨chat, now, by omega, due, (some.inj next).symm⟩
      · exact .inr (.inl ⟨now, by omega, (some.inj next).symm⟩)
  | blocking time delay now =>
    simp only [World.step] at next
    split at next
    · cases next
    · exact .inr (.inr ⟨time, delay, now, by omega, by omega, (some.inj next).symm⟩)

theorem retained_eq_some {o : Option Nat} :
    retained now o = some next ↔ o = some next ∧ now < next := by
  simp [retained, filter_eq_some_iff]

theorem reserved_chat (found : (limits.reserved chat now).nextChat c = some next) :
    (chat = some c ∧ next = now + chatInterval c) ∨ (limits.nextChat c = some next ∧ now < next) := by
  cases chat with
  | none => exact .inr (retained_eq_some.mp found)
  | some own =>
    have updated : update (fun other => retained now (limits.nextChat other)) own
        (some (now + chatInterval own)) c = some next := found
    obtain ⟨rfl, rfl⟩ | ⟨-, found⟩ := of_update_some updated
    · exact .inl ⟨rfl, rfl⟩
    · exact .inr (retained_eq_some.mp found)

theorem reserved_waits (due : limits.deadline chat now ≤ now)
    (found : limits.nextChat c = some next) (waits : now < next) :
    (limits.reserved chat now).nextChat c = some next := by
  have kept := retained_eq_some.mpr ⟨found, waits⟩
  cases chat with
  | none => exact kept
  | some own =>
    have ne : c ≠ own := by
      rintro rfl
      have passed := (deadline_le.mp due).2.2 c rfl next found
      omega
    exact (update_of_ne (f := fun other => retained now (limits.nextChat other)) ne _).trans kept

/-! ## Pauses -/

/-- The request may follow the event. -/
def Event.Clears : Event → Option ChatId → Nat → Prop
  | .sent chat time, other, now =>
    time + 50 ≤ now ∧ ∀ c, chat = some c → other = some c → time + chatInterval c ≤ now
  | .limited time delay, _, now => time + delay + 100 ≤ now

/-- What is sent later keeps the pause behind the event. -/
def Event.Before (earlier later : Event) : Prop :=
  ∀ chat now, later = .sent chat now → earlier.Clears chat now

structure World.Sound (w : World) : Prop where
  next : ∀ {chat time}, .sent chat time ∈ w.log →
    ∃ next : Nat, w.limits.nextRequest = some next ∧ time + 50 ≤ next
  blocked : ∀ {time delay}, .limited time delay ∈ w.log →
    ∃ blocked : Nat, w.limits.blockedUntil = some blocked ∧ time + delay + 100 ≤ blocked
  chats : ∀ {c time}, .sent (some c) time ∈ w.log → time + chatInterval c ≤ w.clock ∨
    ∃ next : Nat, w.limits.nextChat c = some next ∧ time + chatInterval c ≤ next
  entries : ∀ {c} {next : Nat}, w.limits.nextChat c = some next →
    ∃ time, .sent (some c) time ∈ w.log ∧ next = time + chatInterval c
  fresh : ∀ {c} {next request : Nat}, w.limits.nextChat c = some next →
    w.limits.nextRequest = some request → request < next + 50
  request : ∀ next : Nat, w.limits.nextRequest = some next → next ≤ w.clock + 50
  log : w.log.Pairwise Event.Before

theorem sound_start : World.Sound {} := by
  constructor <;> simp

theorem sound_reserving (sound : w.Sound) (forward : w.clock ≤ now)
    (due : w.limits.deadline chat now ≤ now) :
    World.Sound ⟨w.limits.reserved chat now, now, w.log ++ [.sent chat now]⟩ := by
  obtain ⟨request, cooldown, own⟩ := deadline_le.mp due
  have requested : (w.limits.reserved chat now).nextRequest = some (now + 50) := rfl
  constructor
  -- The next request is fifty milliseconds after this one, which is the latest.
  case next =>
    intro other time mem
    refine ⟨_, requested, ?_⟩
    obtain old | new := mem_append.mp mem
    · obtain ⟨next, known, pause⟩ := sound.next old
      have passed := request next known
      omega
    · cases mem_singleton.mp new
      exact Nat.le_refl _
  case blocked =>
    intro time seconds mem
    obtain old | new := mem_append.mp mem
    · exact sound.blocked old
    · cases mem_singleton.mp new
  -- The entry of a chat whose interval has passed may be dropped.
  case chats =>
    intro c time mem
    by_cases passed : time + chatInterval c ≤ now
    · exact .inl passed
    · obtain old | new := mem_append.mp mem
      · obtain passed | ⟨next, found, pause⟩ := sound.chats old
        · omega
        · exact .inr ⟨next, reserved_waits due found (by omega), pause⟩
      · cases mem_singleton.mp new
        exact .inr ⟨_, update_self (f := fun other => retained now (w.limits.nextChat other)) ..,
          Nat.le_refl _⟩
  case entries =>
    intro c next found
    obtain ⟨rfl, rfl⟩ | ⟨found, -⟩ := reserved_chat found
    · exact ⟨now, by simp, rfl⟩
    · obtain ⟨time, mem, same⟩ := sound.entries found
      exact ⟨time, mem_append_left _ mem, same⟩
  case fresh =>
    intro c next request found known
    rw [requested, some.injEq] at known
    obtain ⟨-, rfl⟩ | ⟨-, waits⟩ := reserved_chat found
    · unfold chatInterval
      split <;> omega
    · omega
  case request =>
    intro next known
    rw [requested, some.injEq] at known
    dsimp only
    omega
  -- The deadline was past, so every pause that an earlier entry asks for is over.
  case log =>
    refine pairwise_append.mpr ⟨sound.log, pairwise_singleton _ _, ?_⟩
    intro earlier mem later new chat' now' same
    rw [mem_singleton.mp new, Event.sent.injEq] at same
    obtain ⟨rfl, rfl⟩ := same
    cases earlier with
    | sent other time =>
      refine ⟨?_, ?_⟩
      · obtain ⟨next, known, pause⟩ := sound.next mem
        exact Nat.le_trans pause (request next known)
      · rintro c rfl rfl
        obtain passed | ⟨next, found, pause⟩ := sound.chats mem
        · exact Nat.le_trans passed forward
        · exact Nat.le_trans pause (own c rfl next found)
    | limited time delay =>
      obtain ⟨blocked, known, pause⟩ := sound.blocked mem
      exact Nat.le_trans pause (cooldown blocked known)

theorem sound_blocking (sound : w.Sound) (forward : w.clock ≤ now) :
    World.Sound ⟨w.limits.blocked time delay, now, w.log ++ [.limited time delay]⟩ := by
  have old : ∀ {chat time'}, .sent chat time' ∈ w.log ++ [.limited time delay] →
      .sent chat time' ∈ w.log := by
    intro chat time' mem
    simpa using mem
  constructor
  case next => exact fun mem => sound.next (old mem)
  case blocked =>
    intro time' delay' mem
    refine ⟨_, rfl, ?_⟩
    obtain before | new := mem_append.mp mem
    · obtain ⟨blocked, known, pause⟩ := sound.blocked before
      simp only [known, elim_some]
      omega
    · cases mem_singleton.mp new
      cases w.limits.blockedUntil <;> simp
  case chats =>
    intro c time' mem
    exact (sound.chats (old mem)).imp_left fun passed => Nat.le_trans passed forward
  case entries =>
    intro c next found
    obtain ⟨time', mem, same⟩ := sound.entries found
    exact ⟨time', mem_append_left _ mem, same⟩
  case fresh => exact sound.fresh
  case request =>
    intro next known
    exact Nat.le_trans (sound.request next known) (Nat.add_le_add_right forward 50)
  case log =>
    refine pairwise_append.mpr ⟨sound.log, pairwise_singleton _ _, ?_⟩
    intro earlier _ later new chat now' same
    rw [mem_singleton.mp new] at same
    cases same

theorem sound_step {step : Step} (sound : w.Sound) (next : w.step step = some w') : w'.Sound := by
  obtain ⟨chat, now, forward, due, rfl⟩ | ⟨now, forward, rfl⟩ |
    ⟨time, delay, now, forward, -, rfl⟩ := step_cases next
  · exact sound_reserving sound forward due
  · exact { sound with
      chats := fun mem => (sound.chats mem).imp_left fun passed => Nat.le_trans passed forward
      request := fun next known => Nat.le_trans (sound.request next known) (Nat.add_le_add_right forward 50) }
  · exact sound_blocking sound forward

theorem sound_of_reachable (run : World.system.Reachable System.always w) : w.Sound :=
  run.invariant World.Sound sound_start fun _ _ sound next => sound_step sound next

/-- However many chats there are, the limiter remembers the times of 62 of them at most. -/
theorem chats_are_bounded (run : World.system.Reachable System.always w) {chats : List ChatId}
    (distinct : chats.Nodup) (known : ∀ c ∈ chats, (w.limits.nextChat c).isSome = true) :
    chats.length ≤ 62 := by
  have sound := sound_of_reachable run
  by_cases empty : chats = []
  · simp [empty]
  obtain ⟨c, mem⟩ := exists_mem_of_ne_nil _ empty
  obtain ⟨next, found⟩ := isSome_iff_exists.mp (known c mem)
  obtain ⟨time, mem, -⟩ := sound.entries found
  obtain ⟨request, requested, -⟩ := sound.next mem
  -- the chats were written to at times of which each has 50 ms for itself
  have sent : ∀ c ∈ chats, ∃ time, .sent (some c) time ∈ w.log ∧ time + 50 ≤ request ∧
      request < time + chatInterval c + 50 ∧ w.limits.nextChat c = some (time + chatInterval c) := by
    intro c mem
    obtain ⟨next, found⟩ := isSome_iff_exists.mp (known c mem)
    obtain ⟨time, mem, rfl⟩ := sound.entries found
    obtain ⟨next, known, pause⟩ := sound.next mem
    rw [requested, Option.some.injEq] at known
    have fresh := sound.fresh found requested
    exact ⟨time, mem, by omega, by omega, found⟩
  let slot : ChatId → Nat := fun c =>
    (request + chatInterval c - (w.limits.nextChat c).getD 0) / 50
  have slot_eq : ∀ {c} {time : Nat}, w.limits.nextChat c = some (time + chatInterval c) →
      slot c = (request - time) / 50 := by
    intro c time known
    simp only [slot, known, getD_some]
    exact congrArg (· / 50) (Nat.add_sub_add_right ..)
  have slots : (chats.map slot).Nodup := by
    refine distinct.map_on fun c mem c' mem' same => by_contra fun ne => ?_
    obtain ⟨time, sent₁, before₁, -, known₁⟩ := sent c mem
    obtain ⟨time', sent₂, before₂, -, known₂⟩ := sent c' mem'
    have apart : time + 50 ≤ time' ∨ time' + 50 ≤ time := by
      have either : Std.Symm fun a b : Event => a.Before b ∨ b.Before a := ⟨fun _ _ => Or.symm⟩
      have ordered : w.log.Pairwise fun a b => a.Before b ∨ b.Before a := sound.log.imp Or.inl
      obtain first | first := ordered.forall sent₁ sent₂ fun same => ne (by cases same; rfl)
      · exact .inl (first _ _ rfl).1
      · exact .inr (first _ _ rfl).1
    rw [slot_eq known₁, slot_eq known₂] at same
    omega
  have few : chats.map slot ⊆ range' 1 62 := by
    intro n mem
    obtain ⟨c, own, rfl⟩ := mem_map.mp mem
    obtain ⟨time, -, before, after, known⟩ := sent c own
    have small : chatInterval c ≤ 3100 := by
      unfold chatInterval
      split <;> simp
    rw [slot_eq known]
    exact mem_range'_1.mpr (by omega)
  simpa using (subperm_of_subset slots few).length_le

def pacedRun : List Step :=
  [.reserving (some (-7)) 0, .reserving (some (-7)) 40, .blocking 60 1000 70,
    .reserving (some 5) 1160, .reserving (some (-7)) 3100, .reserving (some 9) 3150]

def pacedWorld : World := (pacedRun.foldlM World.step {}).getD {}

theorem pacedWorld_reachable : World.system.Reachable System.always pacedWorld :=
  System.reachable_of_foldlM pacedRun rfl

theorem two_chats_are_remembered :
    (∀ c ∈ [-7, 9], (pacedWorld.limits.nextChat c).isSome = true) ∧ [(-7 : ChatId), 9].length ≤ 62 :=
  have known : ∀ c ∈ [-7, 9], (pacedWorld.limits.nextChat c).isSome = true := by decide
  ⟨known, chats_are_bounded pacedWorld_reachable (by decide) known⟩

end Agentix.Delivery.Telegram
