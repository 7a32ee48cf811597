import Agentix.Bindings.Table
import Agentix.Lib.Run
import Agentix.Lib.Updates
import Mathlib.Data.List.AList

/-! # Command menus

Each conversation with something to publish has an entry and one worker.  The worker takes the
pending request of its entry, builds the menu, which a newer request interrupts, and publishes it,
which nothing interrupts; it leaves with its entry when nothing is pending.
-/

namespace Agentix.Menus

open Lib
open Bindings (ConversationRef)
open Function (update)

def maxMenuWorkers : Nat := 128

/-- A request, numbered as it is accepted. -/
structure Request where
  number : Nat
  attached : Bool
  sync : Bool
  deriving DecidableEq

structure Entry where
  pending : Option Request
  /-- The `Notify` that the next request uses. -/
  changed : Nat
  deriving DecidableEq

inductive Phase (M : Type) where
  /-- About to take the lock. -/
  | free
  | building (request : Request) (changed : Nat)
  | publishing (request : Request) (menu : M)
  | returned

structure Worker (M : Type) where
  conversation : ConversationRef
  phase : Phase M

/-- What happened to requests. -/
inductive Event (M : Type) where
  | accepted (conversation : ConversationRef) (request : Request)
  /-- The publication of the menu built for the request starts. -/
  | attempted (conversation : ConversationRef) (request : Request) (menu : M)

structure State (M : Type) where
  entries : AList fun _ : ConversationRef => Entry
  workers : Nat → Option (Worker M)
  spawned : Nat
  /-- `Notify` values that hold a permit. -/
  notified : Nat → Bool
  /-- The next new `Notify`. -/
  notifies : Nat
  requests : Nat
  log : List (Event M)

inductive Step (M : Type) where
  /-- `supports` is what the channel says about the synchronization of menus. -/
  | enqueue (conversation : ConversationRef) (attached sync supports : Bool)
  | take (worker : Nat)
  | superseded (worker : Nat)
  | built (worker : Nat) (menu : M)
  | published (worker : Nat)

namespace State

variable {M : Type}

def start : State M where
  entries := ∅
  workers := fun _ => none
  spawned := 0
  notified := fun _ => false
  notifies := 0
  requests := 0
  log := []

variable (s : State M)

def entry (conversation : ConversationRef) : Option Entry := s.entries.lookup conversation

def goto (worker : Nat) (at_ : Worker M) (phase : Phase M) : State M :=
  { s with workers := update s.workers worker (some { at_ with phase }) }

def enqueue (conversation : ConversationRef) (attached sync supports : Bool) : State M :=
  let skippedSync := sync && !supports
  match s.entry conversation with
  | some entry =>
    let request := ⟨s.requests, attached, sync && !skippedSync⟩
    { s with
      entries := s.entries.insert conversation ⟨some request, s.notifies⟩
      notified := update s.notified entry.changed true
      notifies := s.notifies + 1
      requests := s.requests + 1
      log := s.log ++ [.accepted conversation request] }
  | none =>
    if skippedSync then s
    else if s.entries.keys.length ≥ maxMenuWorkers then s
    else
      let request := ⟨s.requests, attached, sync⟩
      { s with
        entries := s.entries.insert conversation ⟨some request, s.notifies⟩
        workers := update s.workers s.spawned (some ⟨conversation, .free⟩)
        spawned := s.spawned + 1
        notifies := s.notifies + 1
        requests := s.requests + 1
        log := s.log ++ [.accepted conversation request] }

/-- The worker takes its request and the `Notify` under the lock, or leaves with its entry. -/
def take (worker : Nat) : Option (State M) :=
  (s.workers worker).bind fun at_ =>
    match at_.phase with
    | .free =>
      some (match s.entry at_.conversation with
        | none => s.goto worker at_ .returned
        | some entry =>
          match entry.pending with
          | some request =>
            { s.goto worker at_ (.building request entry.changed) with
              entries := s.entries.insert at_.conversation { entry with pending := none } }
          | none =>
            { s.goto worker at_ .returned with
              entries := s.entries.erase at_.conversation })
    | _ => none

/-- The permit is used up, but its `Notify` is not used again. -/
def superseded (worker : Nat) : Option (State M) :=
  (s.workers worker).bind fun at_ =>
    match at_.phase with
    | .building _ changed =>
      if s.notified changed then some (s.goto worker at_ .free) else none
    | _ => none

/-- A newer request may be announced between the two polls of one turn, so that the menu is ready
although the permit is there. -/
def built (worker : Nat) (menu : M) : Option (State M) :=
  (s.workers worker).bind fun at_ =>
    match at_.phase with
    | .building request _ =>
      some { s.goto worker at_ (.publishing request menu) with
        log := s.log ++ [.attempted at_.conversation request menu] }
    | _ => none

/-- The publication succeeds or fails. -/
def published (worker : Nat) : Option (State M) :=
  (s.workers worker).bind fun at_ =>
    match at_.phase with
    | .publishing _ _ => some (s.goto worker at_ .free)
    | _ => none

def step (s : State M) : Step M → Option (State M)
  | .enqueue conversation attached sync supports =>
    some (s.enqueue conversation attached sync supports)
  | .take worker => s.take worker
  | .superseded worker => s.superseded worker
  | .built worker menu => s.built worker menu
  | .published worker => s.published worker

def system (M : Type) : System (State M) (Step M) := .ofStep start step

end State

end Agentix.Menus

/-! # The latest request of a conversation

A conversation with an entry has one worker that has not left.  The last request accepted for the
conversation is pending, or the worker builds its menu, or its publication was the last attempt.
-/

namespace Agentix.Menus

open Lib Option Function List
open Bindings (ConversationRef)

variable {M : Type}

namespace Event

def acceptedFor (conversation : ConversationRef) : Event M → Option Request
  | .accepted other request => if other = conversation then some request else none
  | .attempted _ _ _ => none

def attemptedFor (conversation : ConversationRef) : Event M → Option Request
  | .accepted _ _ => none
  | .attempted other request _ => if other = conversation then some request else none

end Event

def lastAccepted (conversation : ConversationRef) (log : List (Event M)) : Option Request :=
  (log.filterMap (Event.acceptedFor conversation)).getLast?

def lastAttempted (conversation : ConversationRef) (log : List (Event M)) : Option Request :=
  (log.filterMap (Event.attemptedFor conversation)).getLast?

section Logs

variable {conversation other : ConversationRef} {request : Request} {menu : M}
  {log : List (Event M)}

@[simp] theorem lastAccepted_nil : lastAccepted conversation ([] : List (Event M)) = none := rfl

@[simp] theorem lastAttempted_nil : lastAttempted conversation ([] : List (Event M)) = none := rfl

@[simp] theorem lastAccepted_accepted :
    lastAccepted conversation (log ++ [.accepted other request]) =
      if other = conversation then some request else lastAccepted conversation log := by
  by_cases same : other = conversation <;> simp [lastAccepted, Event.acceptedFor, same]

@[simp] theorem lastAttempted_accepted :
    lastAttempted conversation (log ++ [.accepted other request]) =
      lastAttempted conversation log := by
  simp [lastAttempted, Event.attemptedFor]

@[simp] theorem lastAccepted_attempted :
    lastAccepted conversation (log ++ [.attempted other request menu]) =
      lastAccepted conversation log := by
  simp [lastAccepted, Event.acceptedFor]

@[simp] theorem lastAttempted_attempted :
    lastAttempted conversation (log ++ [.attempted other request menu]) =
      if other = conversation then some request else lastAttempted conversation log := by
  by_cases same : other = conversation <;> simp [lastAttempted, Event.attemptedFor, same]

theorem attempted_of_last (last : lastAttempted conversation log = some request) :
    ∃ menu, .attempted conversation request menu ∈ log := by
  obtain ⟨event, mem, read⟩ := mem_filterMap.mp (mem_of_getLast? last)
  cases event with
  | accepted => cases read
  | attempted other _ menu =>
    simp only [Event.attemptedFor, ite_none_right_eq_some, some.injEq] at read
    obtain ⟨rfl, rfl⟩ := read
    exact ⟨menu, mem⟩

theorem last_or_replaced {before after : List (Event M)} :
    lastAccepted conversation (before ++ .accepted conversation request :: after) = some request ∨
      ∃ later, .accepted conversation later ∈ after := by
  induction after using reverseRecOn with
  | nil => simp
  | append_singleton after event ih =>
    have regroup : before ++ .accepted conversation request :: (after ++ [event]) =
        (before ++ .accepted conversation request :: after) ++ [event] := by simp
    rw [regroup]
    cases event with
    | attempted other _ menu =>
      rw [lastAccepted_attempted]
      exact ih.imp id fun ⟨later, mem⟩ => ⟨later, by simp [mem]⟩
    | accepted other later =>
      rw [lastAccepted_accepted]
      by_cases same : other = conversation
      · exact .inr ⟨later, by simp [same]⟩
      · rw [if_neg same]
        exact ih.imp id fun ⟨later, mem⟩ => ⟨later, by simp [mem]⟩

end Logs

namespace State

section Fields

variable (s : State M) {worker : Nat} {at_ : Worker M} {phase : Phase M}
  {conversation : ConversationRef}

@[simp] theorem entry_goto : (s.goto worker at_ phase).entry conversation = s.entry conversation :=
  rfl

@[simp] theorem log_goto : (s.goto worker at_ phase).log = s.log := rfl

@[simp] theorem workers_goto :
    (s.goto worker at_ phase).workers = update s.workers worker (some ⟨at_.conversation, phase⟩) :=
  rfl

end Fields

/-- What the phase of a worker says about the entry of its conversation. -/
def Agrees (s : State M) (conversation : ConversationRef) (entry : Entry) : Phase M → Prop
  | .building request changed =>
    match entry.pending with
    | some newer => lastAccepted conversation s.log = some newer ∧
        changed < s.notifies ∧ s.notified changed = true
    | none => lastAccepted conversation s.log = some request ∧ changed = entry.changed
  | _ =>
    match entry.pending with
    | some newer => lastAccepted conversation s.log = some newer
    | none => lastAttempted conversation s.log = lastAccepted conversation s.log

structure Sound (s : State M) : Prop where
  fresh : ∀ worker, s.spawned ≤ worker → s.workers worker = none
  single : ∀ {first second one two}, s.workers first = some one → s.workers second = some two →
    one.phase ≠ .returned → two.phase ≠ .returned → one.conversation = two.conversation →
    first = second
  live : ∀ {worker at_}, s.workers worker = some at_ → at_.phase ≠ .returned →
    ∃ entry, s.entry at_.conversation = some entry ∧ s.Agrees at_.conversation entry at_.phase
  owned : ∀ {conversation entry}, s.entry conversation = some entry →
    ∃ worker at_, s.workers worker = some at_ ∧ at_.conversation = conversation ∧
      at_.phase ≠ .returned
  unannounced : ∀ {conversation entry}, s.entry conversation = some entry →
    entry.changed < s.notifies ∧ s.notified entry.changed = false
  apart : ∀ {one two first second}, s.entry one = some first → s.entry two = some second →
    first.changed = second.changed → one = two
  silent : ∀ changed, s.notifies ≤ changed → s.notified changed = false
  quiet : ∀ {conversation}, s.entry conversation = none →
    lastAttempted conversation s.log = lastAccepted conversation s.log

section Steps

variable {s s' : State M} {worker : Nat} {at_ : Worker M} {phase : Phase M}
  {conversation : ConversationRef} {entry : Entry}

theorem Agrees.frame (agrees : s.Agrees conversation entry phase)
    (accepted : lastAccepted conversation s'.log = lastAccepted conversation s.log)
    (attempted : lastAttempted conversation s'.log = lastAttempted conversation s.log)
    (notifies : s.notifies ≤ s'.notifies)
    (notified : ∀ changed, s.notified changed = true → s'.notified changed = true) :
    s'.Agrees conversation entry phase := by
  cases pending : entry.pending <;> cases phase <;>
    simp only [Agrees, pending, accepted, attempted] at agrees ⊢
  case none.building => exact agrees
  case some.building =>
    obtain ⟨last, used, permit⟩ := agrees
    exact ⟨last, by omega, notified _ permit⟩
  all_goals exact agrees

/-- A worker goes on with its entry, and nothing of another conversation changes. -/
theorem Sound.moves (sound : s.Sound) (found : s.workers worker = some at_)
    (active : at_.phase ≠ .returned) (stays : phase ≠ .returned)
    (present : s.entry at_.conversation = some entry) {entry' : Entry}
    (keeps : entry'.changed = entry.changed)
    (workers : s'.workers = update s.workers worker (some ⟨at_.conversation, phase⟩))
    (spawned : s'.spawned = s.spawned) (notified : s'.notified = s.notified)
    (notifies : s'.notifies = s.notifies)
    (own : s'.entry at_.conversation = some entry')
    (entries : ∀ conversation, conversation ≠ at_.conversation →
      s'.entry conversation = s.entry conversation)
    (logs : ∀ conversation, conversation ≠ at_.conversation →
      lastAccepted conversation s'.log = lastAccepted conversation s.log ∧
        lastAttempted conversation s'.log = lastAttempted conversation s.log)
    (agrees : s'.Agrees at_.conversation entry' phase) : s'.Sound := by
  -- the worker of another number is as before, and serves another conversation
  have others : ∀ {other one}, s'.workers other = some one → one.phase ≠ .returned →
      other ≠ worker → s.workers other = some one ∧ one.conversation ≠ at_.conversation := by
    intro other one there alive ne
    rw [workers, update_of_ne ne] at there
    exact ⟨there, fun same => ne (sound.single there found alive active same)⟩
  have itself : s'.workers worker = some ⟨at_.conversation, phase⟩ := by simp [workers]
  have entry_cases : ∀ {conversation entry''}, s'.entry conversation = some entry'' →
      ∃ before, s.entry conversation = some before ∧ entry''.changed = before.changed := by
    intro conversation entry'' there
    by_cases same : conversation = at_.conversation
    · subst same
      rw [own] at there
      cases there
      exact ⟨entry, present, keeps⟩
    · rw [entries _ same] at there
      exact ⟨entry'', there, rfl⟩
  constructor
  case fresh =>
    intro other unused
    rw [spawned] at unused
    have ne : other ≠ worker := by
      rintro rfl
      rw [sound.fresh _ unused] at found
      cases found
    rw [workers, update_of_ne ne, sound.fresh _ unused]
  case single =>
    intro first second one two isOne isTwo aliveOne aliveTwo same
    by_cases isFirst : first = worker <;> by_cases isSecond : second = worker
    · rw [isFirst, isSecond]
    · subst isFirst
      rw [itself] at isOne
      cases isOne
      exact absurd same.symm (others isTwo aliveTwo isSecond).2
    · subst isSecond
      rw [itself] at isTwo
      cases isTwo
      exact absurd same (others isOne aliveOne isFirst).2
    · exact sound.single (others isOne aliveOne isFirst).1 (others isTwo aliveTwo isSecond).1
        aliveOne aliveTwo same
  case live =>
    intro other one there alive
    by_cases same : other = worker
    · subst same
      rw [itself] at there
      cases there
      exact ⟨entry', own, agrees⟩
    · obtain ⟨before, ne⟩ := others there alive same
      obtain ⟨entry'', held, agreed⟩ := sound.live before alive
      refine ⟨entry'', by rw [entries _ ne, held], ?_⟩
      exact agreed.frame (logs _ ne).1 (logs _ ne).2 (by omega) (by simp [notified])
  case owned =>
    intro conversation entry'' there
    by_cases same : conversation = at_.conversation
    · subst same
      exact ⟨worker, _, itself, rfl, stays⟩
    · rw [entries _ same] at there
      obtain ⟨other, one, held, rfl, alive⟩ := sound.owned there
      have ne : other ≠ worker := by
        rintro rfl
        rw [found] at held
        cases held
        exact same rfl
      exact ⟨other, one, by rw [workers, update_of_ne ne, held], rfl, alive⟩
  case unannounced =>
    intro conversation entry'' there
    obtain ⟨before, held, same⟩ := entry_cases there
    rw [same, notifies, notified]
    exact sound.unannounced held
  case apart =>
    intro one two first second isFirst isSecond same
    obtain ⟨firstBefore, firstHeld, firstSame⟩ := entry_cases isFirst
    obtain ⟨secondBefore, secondHeld, secondSame⟩ := entry_cases isSecond
    exact sound.apart firstHeld secondHeld (by rw [← firstSame, same, secondSame])
  case silent =>
    rw [notifies, notified]
    exact sound.silent
  case quiet =>
    intro conversation absent
    have ne : conversation ≠ at_.conversation := by
      rintro rfl
      rw [own] at absent
      cases absent
    rw [(logs _ ne).1, (logs _ ne).2]
    rw [entries _ ne] at absent
    exact sound.quiet absent

theorem Sound.leaves (sound : s.Sound) (found : s.workers worker = some at_)
    (free : at_.phase = .free) (present : s.entry at_.conversation = some entry)
    (nothing : entry.pending = none) :
    Sound { s.goto worker at_ .returned with entries := s.entries.erase at_.conversation } := by
  have active : at_.phase ≠ .returned := by simp [free]
  -- With nothing pending, the last request accepted is the one last attempted.
  have settled : lastAttempted at_.conversation s.log = lastAccepted at_.conversation s.log := by
    obtain ⟨entry', held, agrees⟩ := sound.live found active
    rw [present] at held
    cases held
    simpa only [Agrees, free, nothing] using agrees
  -- The worker was the only one of its conversation.
  have others : ∀ {other one}, update s.workers worker (some ⟨at_.conversation, .returned⟩) other =
      some one → one.phase ≠ .returned →
      s.workers other = some one ∧ one.conversation ≠ at_.conversation := by
    intro other one there alive
    by_cases ne : other = worker
    · subst ne
      rw [update_self] at there
      cases there
      exact absurd rfl alive
    · rw [update_of_ne ne] at there
      exact ⟨there, fun same => ne (sound.single there found alive active same)⟩
  have entries : ∀ {conversation entry'},
      (s.entries.erase at_.conversation).lookup conversation = some entry' →
      conversation ≠ at_.conversation ∧ s.entry conversation = some entry' := by
    intro conversation entry' there
    by_cases same : conversation = at_.conversation
    · subst same
      rw [AList.lookup_erase] at there
      cases there
    · rw [AList.lookup_erase_ne same] at there
      exact ⟨same, there⟩
  constructor
  case fresh =>
    intro other unused
    have ne : other ≠ worker := by
      rintro rfl
      rw [sound.fresh _ unused] at found
      cases found
    rw [workers_goto, update_of_ne ne, sound.fresh _ unused]
  case single =>
    intro first second one two isOne isTwo aliveOne aliveTwo same
    exact sound.single (others isOne aliveOne).1 (others isTwo aliveTwo).1 aliveOne aliveTwo same
  case live =>
    intro other one there alive
    obtain ⟨before, ne⟩ := others there alive
    obtain ⟨entry', held, agrees⟩ := sound.live before alive
    refine ⟨entry', (AList.lookup_erase_ne ne).trans held, ?_⟩
    exact agrees.frame rfl rfl le_rfl fun _ => id
  case owned =>
    intro conversation entry' there
    obtain ⟨ne, before⟩ := entries there
    obtain ⟨other, one, held, rfl, alive⟩ := sound.owned before
    have another : other ≠ worker := by
      rintro rfl
      rw [found] at held
      cases held
      exact ne rfl
    exact ⟨other, one, by rw [workers_goto, update_of_ne another, held], rfl, alive⟩
  case unannounced =>
    intro conversation entry' there
    exact sound.unannounced (entries there).2
  case apart =>
    intro one two first second isFirst isSecond same
    exact sound.apart (entries isFirst).2 (entries isSecond).2 same
  case silent => exact sound.silent
  case quiet =>
    intro conversation absent
    by_cases same : conversation = at_.conversation
    · subst same
      exact settled
    · exact sound.quiet ((AList.lookup_erase_ne same).symm.trans absent)

theorem Sound.replaces (sound : s.Sound) (present : s.entry conversation = some entry)
    (request : Request) :
    Sound { s with
      entries := s.entries.insert conversation ⟨some request, s.notifies⟩
      notified := update s.notified entry.changed true
      notifies := s.notifies + 1
      requests := s.requests + 1
      log := s.log ++ [.accepted conversation request] } := by
  obtain ⟨used, unannounced⟩ := sound.unannounced present
  have permits : ∀ changed, s.notified changed = true →
      update s.notified entry.changed true changed = true := by
    intro changed permit
    by_cases same : changed = entry.changed
    · rw [same, update_self]
    · rw [update_of_ne same, permit]
  have entries : ∀ {other entry'},
      (s.entries.insert conversation ⟨some request, s.notifies⟩).lookup other = some entry' →
      (other = conversation ∧ entry' = ⟨some request, s.notifies⟩) ∨
        (other ≠ conversation ∧ s.entry other = some entry') := by
    intro other entry' there
    by_cases same : other = conversation
    · subst same
      rw [AList.lookup_insert] at there
      exact .inl ⟨rfl, (some.inj there).symm⟩
    · rw [AList.lookup_insert_ne same] at there
      exact .inr ⟨same, there⟩
  constructor
  case fresh => exact sound.fresh
  case single => exact sound.single
  case live =>
    intro worker at_ there alive
    obtain ⟨entry', held, agrees⟩ := sound.live there alive
    by_cases same : at_.conversation = conversation
    · subst same
      rw [present] at held
      cases held
      refine ⟨_, AList.lookup_insert _, ?_⟩
      cases phase : at_.phase with
      | building built changed =>
        rw [phase] at agrees
        refine ⟨by simp, ?_⟩
        -- the worker waits for the replaced `Notify`, or for an earlier one that has its permit
        cases pending : entry.pending with
        | none =>
          simp only [Agrees, pending] at agrees
          rw [agrees.2]
          exact ⟨by dsimp only; omega, by simp⟩
        | some newer =>
          simp only [Agrees, pending] at agrees
          exact ⟨by dsimp only; omega, permits _ agrees.2.2⟩
      | _ => simp [Agrees]
    · refine ⟨entry', (AList.lookup_insert_ne same).trans held, ?_⟩
      exact agrees.frame (by simp [Ne.symm same]) (by simp) (by simp) permits
  case owned =>
    intro other entry' there
    obtain ⟨rfl, -⟩ | ⟨-, before⟩ := entries there
    · exact sound.owned present
    · exact sound.owned before
  case unannounced =>
    intro other entry' there
    obtain ⟨-, rfl⟩ | ⟨ne, before⟩ := entries there
    · refine ⟨by simp, ?_⟩
      have another : s.notifies ≠ entry.changed := by omega
      exact (update_of_ne another _ _).trans (sound.silent _ le_rfl)
    · obtain ⟨used', unannounced'⟩ := sound.unannounced before
      have another : entry'.changed ≠ entry.changed := fun same =>
        ne (sound.apart before present same)
      exact ⟨by dsimp only; omega, (update_of_ne another _ _).trans unannounced'⟩
  case apart =>
    intro one two first second isFirst isSecond same
    obtain ⟨rfl, rfl⟩ | ⟨-, firstBefore⟩ := entries isFirst <;>
      obtain ⟨rfl, rfl⟩ | ⟨-, secondBefore⟩ := entries isSecond
    · rfl
    · have := (sound.unannounced secondBefore).1
      simp only at same
      omega
    · have := (sound.unannounced firstBefore).1
      simp only at same
      omega
    · exact sound.apart firstBefore secondBefore same
  case silent =>
    intro changed unused
    dsimp only at unused ⊢
    rw [update_of_ne (by omega)]
    exact sound.silent _ (by omega)
  case quiet =>
    intro other absent
    have ne : other ≠ conversation := by
      rintro rfl
      rw [State.entry, AList.lookup_insert] at absent
      cases absent
    have before := sound.quiet ((AList.lookup_insert_ne ne).symm.trans absent)
    simpa [Ne.symm ne] using before

theorem Sound.opens (sound : s.Sound) (absent : s.entry conversation = none) (request : Request) :
    Sound { s with
      entries := s.entries.insert conversation ⟨some request, s.notifies⟩
      workers := update s.workers s.spawned (some ⟨conversation, .free⟩)
      spawned := s.spawned + 1
      notifies := s.notifies + 1
      requests := s.requests + 1
      log := s.log ++ [.accepted conversation request] } := by
  have entries : ∀ {other entry'},
      (s.entries.insert conversation ⟨some request, s.notifies⟩).lookup other = some entry' →
      (other = conversation ∧ entry' = ⟨some request, s.notifies⟩) ∨
        (other ≠ conversation ∧ s.entry other = some entry') := by
    intro other entry' there
    by_cases same : other = conversation
    · subst same
      rw [AList.lookup_insert] at there
      exact .inl ⟨rfl, (some.inj there).symm⟩
    · rw [AList.lookup_insert_ne same] at there
      exact .inr ⟨same, there⟩
  -- The conversation had no entry, so no worker of it is alive.
  have idle : ∀ {worker at_}, s.workers worker = some at_ → at_.phase ≠ .returned →
      at_.conversation ≠ conversation := by
    intro worker at_ there alive same
    obtain ⟨entry', held, -⟩ := sound.live there alive
    rw [same, absent] at held
    cases held
  constructor
  case fresh =>
    intro worker unused
    dsimp only at unused ⊢
    rw [update_of_ne (by omega)]
    exact sound.fresh _ (by omega)
  case single =>
    intro first second one two isOne isTwo aliveOne aliveTwo same
    obtain ⟨rfl, rfl⟩ | ⟨-, oneBefore⟩ := of_update_some isOne <;>
      obtain ⟨rfl, rfl⟩ | ⟨-, twoBefore⟩ := of_update_some isTwo
    · rfl
    · exact absurd same.symm (idle twoBefore aliveTwo)
    · exact absurd same (idle oneBefore aliveOne)
    · exact sound.single oneBefore twoBefore aliveOne aliveTwo same
  case live =>
    intro worker at_ there alive
    obtain ⟨rfl, rfl⟩ | ⟨-, before⟩ := of_update_some there
    · exact ⟨_, AList.lookup_insert _, by simp [Agrees]⟩
    · have ne := idle before alive
      obtain ⟨entry', held, agrees⟩ := sound.live before alive
      refine ⟨entry', (AList.lookup_insert_ne ne).trans held, ?_⟩
      exact agrees.frame (by simp [Ne.symm ne]) (by simp) (by simp) fun _ => id
  case owned =>
    intro other entry' there
    obtain ⟨rfl, -⟩ | ⟨-, before⟩ := entries there
    · exact ⟨s.spawned, _, update_self .., rfl, by simp⟩
    · obtain ⟨worker, at_, held, rfl, alive⟩ := sound.owned before
      have ne : worker ≠ s.spawned := by
        rintro rfl
        rw [sound.fresh _ le_rfl] at held
        cases held
      exact ⟨worker, at_, (update_of_ne ne _ _).trans held, rfl, alive⟩
  case unannounced =>
    intro other entry' there
    obtain ⟨-, rfl⟩ | ⟨-, before⟩ := entries there
    · exact ⟨by simp, sound.silent _ le_rfl⟩
    · obtain ⟨used, unannounced⟩ := sound.unannounced before
      exact ⟨by dsimp only; omega, unannounced⟩
  case apart =>
    intro one two first second isFirst isSecond same
    obtain ⟨rfl, rfl⟩ | ⟨-, firstBefore⟩ := entries isFirst <;>
      obtain ⟨rfl, rfl⟩ | ⟨-, secondBefore⟩ := entries isSecond
    · rfl
    · have := (sound.unannounced secondBefore).1
      simp only at same
      omega
    · have := (sound.unannounced firstBefore).1
      simp only at same
      omega
    · exact sound.apart firstBefore secondBefore same
  case silent =>
    intro changed unused
    exact sound.silent _ (by dsimp only at unused; omega)
  case quiet =>
    intro other absent'
    have ne : other ≠ conversation := by
      rintro rfl
      rw [entry, AList.lookup_insert] at absent'
      cases absent'
    have before := sound.quiet ((AList.lookup_insert_ne ne).symm.trans absent')
    simpa [Ne.symm ne] using before

theorem Sound.enqueue (sound : s.Sound) (attached sync supports : Bool) :
    (s.enqueue conversation attached sync supports).Sound := by
  cases present : s.entry conversation with
  | some entry =>
    simp only [State.enqueue, present]
    exact sound.replaces present _
  | none =>
    simp only [State.enqueue, present]
    split
    · exact sound
    · split
      · exact sound
      · exact sound.opens present _

theorem Sound.take (sound : s.Sound) (next : s.take worker = some s') : s'.Sound := by
  simp only [State.take, bind_eq_some_iff] at next
  obtain ⟨at_, found, next⟩ := next
  cases phase : at_.phase <;> simp only [phase, reduceCtorEq] at next
  case free =>
    have active : at_.phase ≠ .returned := by simp [phase]
    obtain ⟨entry, present, agrees⟩ := sound.live found active
    simp only [present, some.injEq] at next
    cases pending : entry.pending with
    | none =>
      simp only [pending] at next
      subst next
      exact sound.leaves found phase present pending
    | some request =>
      simp only [pending] at next
      subst next
      simp only [Agrees, phase, pending] at agrees
      have keeps : { entry with pending := none }.changed = entry.changed := rfl
      refine sound.moves found active (by simp) present keeps rfl rfl rfl rfl
        (AList.lookup_insert _) ?_ (by simp) ?_
      · intro conversation ne
        exact AList.lookup_insert_ne ne
      · exact ⟨agrees, rfl⟩

theorem Sound.superseded (sound : s.Sound) (next : s.superseded worker = some s') : s'.Sound := by
  simp only [State.superseded, bind_eq_some_iff] at next
  obtain ⟨at_, found, next⟩ := next
  cases phase : at_.phase <;> simp only [phase, reduceCtorEq, ite_none_right_eq_some,
    some.injEq] at next
  case building request changed =>
    obtain ⟨announced, rfl⟩ := next
    have active : at_.phase ≠ .returned := by simp [phase]
    obtain ⟨entry, present, agrees⟩ := sound.live found active
    refine sound.moves found active (by simp) present rfl rfl rfl rfl rfl present (by simp)
      (by simp) ?_
    -- a permit for the `Notify` of the build is there only with a newer request
    cases pending : entry.pending with
    | none =>
      simp only [Agrees, phase, pending] at agrees
      rw [agrees.2, (sound.unannounced present).2] at announced
      cases announced
    | some newer =>
      simp only [Agrees, phase, pending] at agrees ⊢
      exact agrees.1

theorem Sound.built {menu : M} (sound : s.Sound) (next : s.built worker menu = some s') :
    s'.Sound := by
  simp only [State.built, bind_eq_some_iff] at next
  obtain ⟨at_, found, next⟩ := next
  cases phase : at_.phase <;> simp only [phase, reduceCtorEq, some.injEq] at next
  case building request changed =>
    subst next
    have active : at_.phase ≠ .returned := by simp [phase]
    obtain ⟨entry, present, agrees⟩ := sound.live found active
    refine sound.moves found active (by simp) present rfl rfl rfl rfl rfl present
      (fun _ _ => rfl) ?_ ?_
    · intro conversation ne
      simp [Ne.symm ne]
    · cases pending : entry.pending with
      | none =>
        simp only [Agrees, phase, pending] at agrees
        simp [Agrees, pending, agrees.1]
      | some newer =>
        simp only [Agrees, phase, pending] at agrees
        simp [Agrees, pending, agrees.1]

theorem Sound.published (sound : s.Sound) (next : s.published worker = some s') : s'.Sound := by
  simp only [State.published, bind_eq_some_iff] at next
  obtain ⟨at_, found, next⟩ := next
  cases phase : at_.phase <;> simp only [phase, reduceCtorEq, some.injEq] at next
  case publishing request menu =>
    subst next
    have active : at_.phase ≠ .returned := by simp [phase]
    obtain ⟨entry, present, agrees⟩ := sound.live found active
    refine sound.moves found active (by simp) present rfl rfl rfl rfl rfl present (by simp)
      (by simp) ?_
    rw [phase] at agrees
    exact agrees

theorem Sound.step {label : Step M} (sound : s.Sound) (next : s.step label = some s') :
    s'.Sound := by
  cases label with
  | enqueue conversation attached sync supports =>
    simp only [State.step, some.injEq] at next
    subst next
    exact sound.enqueue attached sync supports
  | take worker => exact sound.take next
  | superseded worker => exact sound.superseded next
  | built worker menu => exact sound.built next
  | published worker => exact sound.published next

end Steps

theorem Sound.start : (start : State M).Sound := by
  constructor <;> intros <;> simp_all [State.start, entry]

theorem sound_of_reachable {s : State M} (run : (system M).Reachable System.always s) : s.Sound :=
  run.invariant Sound Sound.start fun _ _ sound next => sound.step next

end State

end Agentix.Menus
