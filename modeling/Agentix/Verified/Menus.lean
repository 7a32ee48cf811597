import Agentix.Menus.CommandMenus

/-! # The latest command menu wins -/

namespace Agentix.Menus

open Lib List Option
open Bindings (ConversationRef)
open Function (update)

variable {M : Type}

def Event.number : Event M → Option Nat
  | .accepted _ request => some request.number
  | .attempted _ _ _ => none

namespace State

def Held (s : State M) (conversation : ConversationRef) (request : Request) : Prop :=
  (∃ entry, s.entry conversation = some entry ∧ entry.pending = some request) ∨
    ∃ worker at_ changed, s.workers worker = some at_ ∧ at_.conversation = conversation ∧
      at_.phase = .building request changed

/-- A request is refused on arrival. -/
def Refuses (s : State M) (conversation : ConversationRef) (sync supports : Bool) : Prop :=
  s.entry conversation = none ∧
    ((sync = true ∧ supports = false) ∨ maxMenuWorkers ≤ s.entries.keys.length)

structure LatestWins (s : State M) : Prop where
  /-- At most one publication of a conversation is in progress. -/
  alone : ∀ first second one two firstRequest firstMenu secondRequest secondMenu,
    s.workers first = some one → s.workers second = some two →
    one.phase = .publishing firstRequest firstMenu →
    two.phase = .publishing secondRequest secondMenu →
    one.conversation = two.conversation → first = second
  /-- Each accepted request has a number of its own. -/
  numbered : s.log.filterMap Event.number = range s.requests
  /-- A request that is not held and was never attempted has been replaced. -/
  replaced : ∀ before conversation request after,
    s.log = before ++ .accepted conversation request :: after →
    s.Held conversation request ∨ (∃ menu, .attempted conversation request menu ∈ s.log) ∨
      ∃ later, .accepted conversation later ∈ after
  /-- A request is accepted or refused on arrival. -/
  arrival : ∀ conversation attached sync supports,
    (s.Refuses conversation sync supports ∧
      s.enqueue conversation attached sync supports = s) ∨
    (¬ s.Refuses conversation sync supports ∧
      ∃ request, request.attached = attached ∧
        (s.enqueue conversation attached sync supports).log =
          s.log ++ [.accepted conversation request] ∧
        (s.enqueue conversation attached sync supports).Held conversation request)
  /-- Where nothing is left to do, the last attempt was for the last request. -/
  latest : ∀ conversation, s.entry conversation = none →
    lastAttempted conversation s.log = lastAccepted conversation s.log

variable {s s' : State M} {conversation : ConversationRef} {request : Request} {label : Step M}

/-- The last request is held, or its publication was the last attempt. -/
theorem Sound.held_or_attempted (sound : s.Sound)
    (last : lastAccepted conversation s.log = some request) :
    s.Held conversation request ∨ ∃ menu, .attempted conversation request menu ∈ s.log := by
  cases present : s.entry conversation with
  | none =>
    have same := sound.quiet present
    rw [last] at same
    exact .inr (attempted_of_last same)
  | some entry =>
    obtain ⟨worker, at_, found, rfl, alive⟩ := sound.owned present
    obtain ⟨entry', held, agrees⟩ := sound.live found alive
    rw [present] at held
    cases held
    cases pending : entry.pending with
    | some newer =>
      have isLast : lastAccepted at_.conversation s.log = some newer := by
        cases phase : at_.phase <;> simp only [Agrees, phase, pending] at agrees
        case building => exact agrees.1
        all_goals exact agrees
      rw [last] at isLast
      exact .inl (.inl ⟨entry, present, by rw [pending, isLast]⟩)
    | none =>
      cases phase : at_.phase <;> simp only [Agrees, phase, pending] at agrees
      case building built changed =>
        have same : request = built := some.inj (last.symm.trans agrees.1)
        exact .inl (.inr ⟨worker, at_, changed, found, rfl, by rw [phase, same]⟩)
      all_goals
        rw [last] at agrees
        exact .inr (attempted_of_last agrees)

theorem enqueue_arrival (s : State M) (conversation : ConversationRef)
    (attached sync supports : Bool) :
    (s.Refuses conversation sync supports ∧
      s.enqueue conversation attached sync supports = s) ∨
    (¬ s.Refuses conversation sync supports ∧
      ∃ request, request.attached = attached ∧
        (s.enqueue conversation attached sync supports).log =
          s.log ++ [.accepted conversation request] ∧
        (s.enqueue conversation attached sync supports).Held conversation request) := by
  cases present : s.entry conversation with
  | some entry =>
    refine .inr ⟨fun refuses => ?_, ?_⟩
    · rw [refuses.1] at present
      cases present
    · simp only [State.enqueue, present]
      exact ⟨_, rfl, rfl, .inl ⟨_, AList.lookup_insert _, rfl⟩⟩
  | none =>
    simp only [State.enqueue, present]
    split
    · rename_i skipped
      exact .inl ⟨⟨present, .inl (by simpa using skipped)⟩, rfl⟩
    · rename_i wanted
      split
      · rename_i full
        exact .inl ⟨⟨present, .inr full⟩, rfl⟩
      · rename_i room
        refine .inr ⟨?_, ⟨_, rfl, rfl, .inl ⟨_, AList.lookup_insert _, rfl⟩⟩⟩
        rintro ⟨-, skipped | full⟩
        · exact wanted (by simpa using skipped)
        · exact room full

theorem numbered_step (numbered : s.log.filterMap Event.number = range s.requests)
    (next : s.step label = some s') : s'.log.filterMap Event.number = range s'.requests := by
  cases label with
  | enqueue conversation attached sync supports =>
    simp only [State.step, some.injEq] at next
    subst next
    simp only [State.enqueue]
    split
    · simp [numbered, Event.number, range_succ]
    · split
      · exact numbered
      · split
        · exact numbered
        · simp [numbered, Event.number, range_succ]
  | take worker =>
    simp only [State.step, State.take, bind_eq_some_iff] at next
    obtain ⟨at_, found, next⟩ := next
    split at next
    · cases next
      split
      · exact numbered
      · split <;> exact numbered
    · cases next
  | superseded worker =>
    simp only [State.step, State.superseded, bind_eq_some_iff] at next
    obtain ⟨at_, found, next⟩ := next
    split at next
    · split at next <;> cases next
      exact numbered
    · cases next
  | built worker menu =>
    simp only [State.step, State.built, bind_eq_some_iff] at next
    obtain ⟨at_, found, next⟩ := next
    split at next <;> cases next
    show filterMap Event.number (s.log ++ [.attempted ..]) = range s.requests
    simp [Event.number, numbered]
  | published worker =>
    simp only [State.step, State.published, bind_eq_some_iff] at next
    obtain ⟨at_, found, next⟩ := next
    split at next <;> cases next
    exact numbered

/-- Whatever is enqueued and however the workers take turns. -/
theorem latest_menu_wins (s : State M) (run : (system M).Reachable System.always s) :
    s.LatestWins := by
  have sound := sound_of_reachable run
  constructor
  case alone =>
    intro first second one two _ _ _ _ isOne isTwo publishesOne publishesTwo same
    exact sound.single isOne isTwo (by simp [publishesOne]) (by simp [publishesTwo]) same
  case numbered =>
    exact run.invariant (fun s => s.log.filterMap Event.number = range s.requests) rfl
      fun _ _ numbered next => numbered_step numbered next
  case replaced =>
    intro before conversation request after split
    have cases : lastAccepted conversation s.log = some request ∨
        ∃ later, .accepted conversation later ∈ after := split ▸ last_or_replaced
    obtain last | later := cases
    · exact (sound.held_or_attempted last).imp id .inl
    · exact .inr (.inr later)
  case arrival => exact enqueue_arrival s
  case latest => exact fun _ absent => sound.quiet absent

/-! ## A run -/

def chat : ConversationRef := ⟨.telegram, "1"⟩

/-- The second request arrives while the menu of the first is published, and the third supersedes
the build of the second. -/
def rush : List (Step Nat) :=
  [.enqueue chat true false false, .take 0, .built 0 10, .enqueue chat false false false,
    .published 0, .take 0, .enqueue chat true true true, .superseded 0, .take 0, .built 0 12,
    .published 0, .take 0]

theorem last_menu_is_published : ∃ s, (system Nat).Reachable System.always s ∧ s.LatestWins ∧
    s.entry chat = none ∧ lastAttempted chat s.log = some ⟨2, true, true⟩ := by
  have ends : (rush.foldlM step start).map
      (fun s => (s.entry chat, lastAttempted chat s.log)) =
        some (none, some ⟨2, true, true⟩) := by decide
  obtain ⟨s, ran, ends⟩ := map_eq_some_iff.mp ends
  have reachable := System.reachable_of_foldlM _ ran
  exact ⟨s, reachable, latest_menu_wins s reachable, congrArg Prod.fst ends,
    congrArg Prod.snd ends⟩

end State

end Agentix.Menus
