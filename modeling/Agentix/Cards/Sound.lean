import Agentix.Cards.Writes
import Mathlib.Data.List.Pairwise
import Mathlib.Data.Nat.Basic

/-! # What the calls of a card keep

Writes happen under the lock, by a call that found its revision current since it holds the lock.
A disable raises the barrier before it waits for the lock, so whoever writes an older revision
after it finds the barrier.
-/

namespace Agentix.Cards

open Lib List Function

/-! ## Points of a call -/

variable {point : UpdatePoint}

def UpdatePoint.holds : UpdatePoint → Bool
  | .entered | .locking => false
  | _ => true

/-- The revision was current under the lock. -/
def UpdatePoint.confirmed : UpdatePoint → Bool
  | .entered | .locking | .locked => false
  | _ => true

/-- The view is the one that is written. -/
def UpdatePoint.masked : UpdatePoint → Bool
  | .updating _ | .retired | .revalidating | .sending _ => true
  | _ => false

def DisablePoint.holds : DisablePoint → Bool
  | .locked _ | .disabling _ _ => true
  | _ => false

def DisablePoint.barrier : DisablePoint → Option Nat
  | .entered => none
  | .barred barrier | .locking barrier | .locked barrier | .disabling barrier _ => some barrier

/-- The barrier is on the card. -/
def DisablePoint.raised : DisablePoint → Bool
  | .entered | .barred _ => false
  | _ => true

theorem UpdatePoint.holds_of_masked (masked : point.masked) :
    point.holds := by
  cases point <;> simp_all [UpdatePoint.masked, holds]

theorem UpdatePoint.confirmed_of_masked (masked : point.masked) :
    point.confirmed := by
  cases point <;> simp_all [UpdatePoint.masked, confirmed]

theorem UpdatePoint.holds_of_confirmed (confirmed : point.confirmed) :
    point.holds := by
  cases point <;> simp_all [UpdatePoint.confirmed, holds]

theorem DisablePoint.raised_of_holds {point : DisablePoint} (holds : point.holds) :
    point.raised := by
  cases point <;> simp_all [DisablePoint.holds, raised]

/-! ## The invariant -/

/-- Revisions past the barrier were reserved after the call started. -/
def Follows (log : List Event) (call barrier : Nat) : Prop :=
  ∀ number, barrier < number → ∀ earlier later, log = earlier ++ .reserved number :: later →
    .disabling call ∈ earlier

structure UpdateFits (s : State) (id number : Nat) (view : OutboundView) (point : UpdatePoint) :
    Prop where
  reserved : .reserved number ∈ s.log
  lock : point.holds → s.holder = some id
  last : point.confirmed → ∀ call earlier old, .updated call earlier old ∈ s.log →
    earlier ≤ number
  masked : point.masked → ∀ call barrier, .disabled call barrier ∈ s.log → number ≤ barrier →
    view.enabled = false

structure DisableFits (s : State) (id : Nat) (point : DisablePoint) : Prop where
  started : .disabling id ∈ s.log
  lock : point.holds → s.holder = some id
  follows : ∀ barrier, point.barrier = some barrier → Follows s.log id barrier
  raised : ∀ barrier, point.barrier = some barrier → point.raised →
    barrier ≤ s.card.disabledThrough

def Call.Fits (s : State) (id : Nat) : Call → Prop
  | .idle | .returned => True
  | .update number view point => UpdateFits s id number view point
  | .disable point => DisableFits s id point

def Event.number : Event → Option Nat
  | .updated _ number _ => some number
  | _ => none

structure Sound (s : State) : Prop where
  reserved : ∀ number, .reserved number ∈ s.log ↔ 1 ≤ number ∧ number ≤ s.card.latest
  bounded : ∀ call number view, .updated call number view ∈ s.log → number ≤ s.card.latest
  calls : ∀ id, (s.calls id).Fits s id
  ordered : (s.log.filterMap Event.number).Pairwise (· ≤ ·)
  closed : ∀ call barrier, .disabled call barrier ∈ s.log →
    barrier ≤ s.card.disabledThrough ∧ .disabling call ∈ s.log ∧ Follows s.log call barrier
  quiet : ∀ before after disable barrier, s.log = before ++ .disabled disable barrier :: after →
    ∀ call number view, .updated call number view ∈ after → number ≤ barrier →
      view.enabled = false

theorem Event.mem_numbers {log : List Event} {number : Nat} :
    number ∈ log.filterMap Event.number ↔ ∃ call view, .updated call number view ∈ log := by
  simp only [mem_filterMap]
  constructor
  · rintro ⟨event, mem, same⟩
    cases event with
    | updated call n view => cases same; exact ⟨call, view, mem⟩
    | _ => cases same
  · rintro ⟨call, view, mem⟩
    exact ⟨_, mem, rfl⟩

theorem Sound.start (message : MessageRef) : Sound (.start message) where
  reserved number := by simp [State.start]; omega
  bounded _ _ _ mem := by simp [State.start] at mem
  calls _ := trivial
  ordered := by simp [State.start]
  closed _ _ mem := by simp [State.start] at mem
  quiet _ _ _ _ split := by simp [State.start] at split

/-! ## A call that moves on -/

section

variable {s s' : State} {id : Nat} {call : Call}

/-- One call moves, and nothing happens that is listed. -/
structure Moves (s s' : State) (id : Nat) : Prop where
  log : s'.log = s.log
  latest : s'.card.latest = s.card.latest
  disabled : s.card.disabledThrough ≤ s'.card.disabledThrough
  calls : ∀ other, other ≠ id → s'.calls other = s.calls other
  holder : ∀ other, other ≠ id → s.holder = some other → s'.holder = some other

theorem Call.Fits.moved (fits : call.Fits s id) (log : s'.log = s.log)
    (disabled : s.card.disabledThrough ≤ s'.card.disabledThrough)
    (holder : s.holder = some id → s'.holder = some id) : call.Fits s' id := by
  cases call with
  | idle => trivial
  | returned => trivial
  | update number view point =>
    refine ⟨?_, fun holds => holder (UpdateFits.lock fits holds), ?_, ?_⟩
    · rw [log]; exact UpdateFits.reserved fits
    · rw [log]; exact UpdateFits.last fits
    · rw [log]; exact UpdateFits.masked fits
  | disable point =>
    refine ⟨?_, fun holds => holder (DisableFits.lock fits holds), ?_, ?_⟩
    · rw [log]; exact DisableFits.started fits
    · rw [log]; exact DisableFits.follows fits
    · exact fun barrier same raised =>
        le_trans (DisableFits.raised fits barrier same raised) disabled

theorem Sound.moves (sound : Sound s) (moves : Moves s s' id)
    (fits : (s'.calls id).Fits s' id) : Sound s' where
  reserved number := by rw [moves.log, moves.latest]; exact sound.reserved number
  bounded := by rw [moves.log, moves.latest]; exact sound.bounded
  calls other := by
    by_cases same : other = id
    · rw [same]; exact fits
    · rw [moves.calls other same]
      exact (sound.calls other).moved moves.log moves.disabled (moves.holder other same)
  ordered := by rw [moves.log]; exact sound.ordered
  closed call barrier mem := by
    rw [moves.log] at mem ⊢
    obtain ⟨raised, history⟩ := sound.closed call barrier mem
    exact ⟨le_trans raised moves.disabled, history⟩
  quiet := by rw [moves.log]; exact sound.quiet

theorem Moves.goto (s : State) (id : Nat) (call : Call) : Moves s (s.goto id call) id where
  log := rfl
  latest := rfl
  disabled := le_rfl
  calls other different := by simp [State.goto, different]
  holder _ _ same := same

theorem Moves.leave (s : State) (id : Nat) : Moves s (s.leave id) id where
  log := rfl
  latest := rfl
  disabled := le_rfl
  calls other different := by simp [State.leave, different]
  holder other different same := by simp [State.leave, same, different]

theorem Sound.goto (sound : Sound s) (fits : call.Fits s id) : Sound (s.goto id call) := by
  refine sound.moves (Moves.goto s id call) ?_
  simp only [State.goto, update_self]
  exact fits.moved rfl le_rfl fun same => same

theorem Sound.leave (sound : Sound s) (id : Nat) : Sound (s.leave id) := by
  refine sound.moves (Moves.leave s id) ?_
  simp only [State.leave, update_self]
  trivial

theorem Sound.withCard (sound : Sound s) {card : Card} (latest : card.latest = s.card.latest)
    (disabled : card.disabledThrough = s.card.disabledThrough) : Sound (s.withCard card) := by
  have moves : Moves s (s.withCard card) 0 :=
    ⟨rfl, latest, Nat.le_of_eq disabled.symm, fun _ _ => rfl, fun _ _ => id⟩
  exact sound.moves moves ((sound.calls 0).moved rfl (Nat.le_of_eq disabled.symm) id)

theorem Sound.acquire (sound : Sound s) (free : s.holder = none) (id : Nat) :
    Sound (s.acquire id) := by
  have moves : Moves s (s.acquire id) id := by
    refine ⟨rfl, rfl, le_rfl, fun _ _ => rfl, fun other _ held => ?_⟩
    rw [free] at held; cases held
  refine sound.moves moves ?_
  exact (sound.calls id).moved rfl le_rfl fun held => by rw [free] at held; cases held

end

/-! ## What is listed -/

section

variable {s : State} {id number barrier : Nat} {view : OutboundView} {point : UpdatePoint}
  {other : DisablePoint}

variable {event : Event}

theorem Follows.emit {log : List Event} {call barrier : Nat} (follows : Follows log call barrier)
    (started : .disabling call ∈ log) (event : Event) : Follows (log ++ [event]) call barrier := by
  intro number beyond earlier later split
  obtain ⟨-, rfl, -⟩ | ⟨later', -, before⟩ := split_snoc split
  · exact started
  · exact follows number beyond earlier later' before

/-- The revisions past the last one follow every call that has started. -/
theorem Sound.follows_latest (sound : Sound s) (call : Nat) :
    Follows s.log call s.card.latest := by
  intro number beyond earlier later split
  have mem : .reserved number ∈ s.log := by rw [split]; simp
  have bound := ((sound.reserved number).mp mem).2
  omega

theorem Call.Fits.emit {s' : State} {call : Call} (fits : call.Fits s id)
    (log : s'.log = s.log ++ [event]) (holder : s'.holder = s.holder)
    (disabled : s'.card.disabledThrough = s.card.disabledThrough)
    (last : ∀ number view point, call = .update number view point → point.confirmed →
      ∀ call earlier old, event = .updated call earlier old → earlier ≤ number)
    (masked : ∀ number view point, call = .update number view point → point.masked →
      ∀ call barrier, event ≠ .disabled call barrier) :
    call.Fits s' id := by
  cases call with
  | idle => trivial
  | returned => trivial
  | update number view point =>
    have fits : UpdateFits s id number view point := fits
    refine ⟨?_, fun holds => ?_, fun confirmed call earlier old mem => ?_,
      fun writes call barrier mem => ?_⟩
    · rw [log]; exact mem_append_left _ fits.reserved
    · rw [holder]; exact fits.lock holds
    · rw [log, mem_append, mem_singleton] at mem
      obtain before | same := mem
      · exact fits.last confirmed call earlier old before
      · exact last number view point rfl confirmed call earlier old same.symm
    · rw [log, mem_append, mem_singleton] at mem
      obtain before | same := mem
      · exact fits.masked writes call barrier before
      · exact absurd same.symm (masked number view point rfl writes call barrier)
  | disable point =>
    have fits : DisableFits s id point := fits
    refine ⟨?_, fun holds => ?_, fun barrier same => ?_, fun barrier same raised => ?_⟩
    · rw [log]; exact mem_append_left _ fits.started
    · rw [holder]; exact fits.lock holds
    · rw [log]; exact (fits.follows barrier same).emit fits.started _
    · rw [disabled]; exact fits.raised barrier same raised

/-- Something is listed, and no call moves. -/
structure Emits (s s' : State) (event : Event) : Prop where
  log : s'.log = s.log ++ [event]
  latest : s.card.latest ≤ s'.card.latest
  disabled : s'.card.disabledThrough = s.card.disabledThrough
  calls : s'.calls = s.calls
  holder : s'.holder = s.holder

theorem Emits.mk_emit (s : State) (event : Event) : Emits s (s.emit event) event :=
  ⟨rfl, le_rfl, rfl, rfl, rfl⟩

/-- What an update that is delivered must meet. -/
structure Delivers (s : State) (number : Nat) (view : OutboundView) : Prop where
  bounded : number ≤ s.card.latest
  last : ∀ call earlier old, .updated call earlier old ∈ s.log → earlier ≤ number
  masked : ∀ call barrier, .disabled call barrier ∈ s.log → number ≤ barrier →
    view.enabled = false

theorem Sound.emits {s' : State} (sound : Sound s) (emits : Emits s s' event)
    (reserved : ∀ number, .reserved number ∈ s'.log ↔ 1 ≤ number ∧ number ≤ s'.card.latest)
    (delivers : ∀ call number view, event = .updated call number view → Delivers s number view)
    (disables : ∀ call barrier, event = .disabled call barrier → barrier ≤ s.card.disabledThrough ∧
      .disabling call ∈ s.log ∧ Follows s.log call barrier)
    (calls : ∀ id, (s.calls id).Fits s' id) : Sound s' where
  reserved := reserved
  bounded call number view mem := by
    rw [emits.log, mem_append, mem_singleton] at mem
    obtain mem | same := mem
    · exact le_trans (sound.bounded call number view mem) emits.latest
    · exact le_trans (delivers call number view same.symm).bounded emits.latest
  calls id := by rw [emits.calls]; exact calls id
  ordered := by
    rw [emits.log, filterMap_append, pairwise_append]
    refine ⟨sound.ordered, ?_, fun earlier before number now => ?_⟩
    · cases event <;> simp [Event.number, filterMap_cons]
    · obtain ⟨call, view, same⟩ := Event.mem_numbers.mp now
      obtain ⟨call', old, mem⟩ := Event.mem_numbers.mp before
      exact (delivers call number view (mem_singleton.mp same).symm).last call' earlier old
        mem
  closed call barrier mem := by
    rw [emits.log, mem_append, mem_singleton] at mem
    rw [emits.log, emits.disabled]
    have history : barrier ≤ s.card.disabledThrough ∧ .disabling call ∈ s.log ∧
        Follows s.log call barrier := by
      obtain mem | same := mem
      · exact sound.closed call barrier mem
      · exact disables call barrier same.symm
    obtain ⟨raised, started, follows⟩ := history
    exact ⟨raised, mem_append_left _ started, follows.emit started _⟩
  quiet before after disable barrier split call number view mem older := by
    rw [emits.log] at split
    obtain ⟨rfl, -, -⟩ | ⟨after', rfl, earlier⟩ := split_snoc split
    · cases mem
    · rw [mem_append, mem_singleton] at mem
      obtain mem | same := mem
      · exact sound.quiet before after' disable barrier earlier call number view mem older
      · refine (delivers call number view same.symm).masked disable barrier ?_ older
        rw [earlier]
        exact mem_append_right _ mem_cons_self

theorem Sound.reserved_emit (sound : Sound s) (other : ∀ number, event ≠ .reserved number)
    (number : Nat) :
    .reserved number ∈ (s.emit event).log ↔ 1 ≤ number ∧ number ≤ (s.emit event).card.latest := by
  have different : Event.reserved number ≠ event := fun same => other number same.symm
  simpa [State.emit, different] using sound.reserved number

theorem Sound.reserve (sound : Sound s) : Sound s.reserve := by
  have emits : Emits s s.reserve (.reserved (s.card.latest + 1)) :=
    ⟨rfl, Nat.le_succ _, rfl, rfl, rfl⟩
  refine sound.emits emits ?_ ?_ ?_ fun id => (sound.calls id).emit emits.log rfl rfl ?_ ?_
  · intro number
    simp only [State.reserve, State.emit, State.withCard, mem_append, mem_singleton,
      Event.reserved.injEq, sound.reserved number]
    omega
  · exact fun _ _ _ wrong => by cases wrong
  · exact fun _ _ wrong => by cases wrong
  · exact fun _ _ _ _ _ _ _ _ wrong => by cases wrong
  · exact fun _ _ _ _ _ _ _ wrong => by cases wrong

theorem Sound.disabling (sound : Sound s) (id : Nat) : Sound (s.emit (.disabling id)) := by
  refine sound.emits (.mk_emit s _) (sound.reserved_emit fun _ wrong => by cases wrong) ?_ ?_
    fun id => (sound.calls id).emit rfl rfl rfl ?_ ?_
  · exact fun _ _ _ wrong => by cases wrong
  · exact fun _ _ wrong => by cases wrong
  · exact fun _ _ _ _ _ _ _ _ wrong => by cases wrong
  · exact fun _ _ _ _ _ _ _ wrong => by cases wrong

/-- A call that writes under the lock delivers the latest revision, since nobody else wrote after
it looked. -/
theorem Sound.updated (sound : Sound s) (here : s.calls id = .update number view point)
    (writes : point.masked) : Sound (s.emit (.updated id number view)) := by
  have fits : UpdateFits s id number view point := by
    have mine := sound.calls id
    rwa [here] at mine
  have held := fits.lock (UpdatePoint.holds_of_masked writes)
  refine sound.emits (.mk_emit s _) (sound.reserved_emit fun _ wrong => by cases wrong) ?_ ?_
    fun other => (sound.calls other).emit rfl rfl rfl ?_ ?_
  · intro call number' view' same
    cases same
    exact ⟨((sound.reserved number).mp fits.reserved).2,
      fits.last (UpdatePoint.confirmed_of_masked writes), fits.masked writes⟩
  · exact fun _ _ wrong => by cases wrong
  · intro number' view' point' same confirmed call earlier old delivered
    cases delivered
    -- a confirmed call holds the lock, so it is this one
    have others : UpdateFits s other number' view' point' := by
      have its := sound.calls other
      rwa [same] at its
    have lock := others.lock (UpdatePoint.holds_of_confirmed confirmed)
    rw [held] at lock
    cases lock
    rw [here] at same
    cases same
    exact le_rfl
  · exact fun _ _ _ _ _ _ _ wrong => by cases wrong

/-- A disable returns under the lock, so no update is in the middle of its writing. -/
theorem Sound.disabled (sound : Sound s) (here : s.calls id = .disable other)
    (same : other.barrier = some barrier) (holds : other.holds) :
    Sound (s.emit (.disabled id barrier)) := by
  have fits : DisableFits s id other := by
    have mine := sound.calls id
    rwa [here] at mine
  have held := fits.lock holds
  refine sound.emits (.mk_emit s _) (sound.reserved_emit fun _ wrong => by cases wrong) ?_ ?_
    fun call => (sound.calls call).emit rfl rfl rfl ?_ ?_
  · exact fun _ _ _ wrong => by cases wrong
  · intro call barrier' listed
    cases listed
    exact ⟨fits.raised barrier same (DisablePoint.raised_of_holds holds), fits.started,
      fits.follows barrier same⟩
  · exact fun _ _ _ _ _ _ _ _ wrong => by cases wrong
  · intro number view point calls writes
    have others : UpdateFits s call number view point := by
      have its := sound.calls call
      rwa [calls] at its
    have lock := others.lock (UpdatePoint.holds_of_masked writes)
    rw [held] at lock
    cases lock
    rw [here] at calls
    cases calls

end

/-! ## Steps -/

section

variable {s s' : State} {id number barrier : Nat} {view : OutboundView} {label : Label}

variable {point : UpdatePoint} {attempt : WriteAttempt}

/-- The counters of a card, which its writes leave alone. -/
def Card.counters (card : Card) : Nat × Nat := (card.latest, card.disabledThrough)

@[simp] theorem Card.attempt_counters (card : Card) (replacement : Bool) :
    (card.attempt replacement).1.counters = card.counters := rfl

@[simp] theorem Card.restore_counters (card : Card) (attempt : WriteAttempt) :
    (card.restore attempt).counters = card.counters := rfl

@[simp] theorem Card.finish_counters {α : Type} (card : Card) (attempt : WriteAttempt)
    (result : Except ChannelError α) : (card.finish attempt result).counters = card.counters := by
  cases result with
  | ok _ => rfl
  | error error =>
    simp only [finish]
    split <;> rfl

@[simp] theorem Card.drop_counters (card : Card) (attempt : WriteAttempt) :
    (card.drop attempt).counters = card.counters := by
  simp only [drop]
  split <;> rfl

@[simp] theorem Card.apply_counters (card : Card) (number : Nat) :
    (card.apply number).counters = card.counters := rfl

@[simp] theorem Card.replace_counters (card : Card) (number : Nat) (message : MessageRef) :
    (card.replace number message).counters = card.counters := rfl

theorem Sound.written (sound : Sound s) {card : Card} (same : card.counters = s.card.counters) :
    Sound (s.withCard card) := by
  simp only [Card.counters, Prod.mk.injEq] at same
  exact sound.withCard same.1 same.2

theorem UpdateFits.written (fits : UpdateFits s id number view point) (card : Card) :
    UpdateFits (s.withCard card) id number view point :=
  ⟨fits.reserved, fits.lock, fits.last, fits.masked⟩

theorem DisableFits.written {point : DisablePoint} (fits : DisableFits s id point) {card : Card}
    (same : card.counters = s.card.counters) : DisableFits (s.withCard card) id point := by
  simp only [Card.counters, Prod.mk.injEq] at same
  refine ⟨fits.started, fits.lock, fits.follows, fun barrier at_ raised => ?_⟩
  show barrier ≤ card.disabledThrough
  rw [same.2]
  exact fits.raised barrier at_ raised

/-- A call goes on where it does not need more than before. -/
theorem UpdateFits.goes {point' : UpdatePoint} (fits : UpdateFits s id number view point)
    (holds : point'.holds → point.holds) (confirmed : point'.confirmed → point.confirmed)
    (masked : point'.masked → point.masked) : UpdateFits s id number view point' :=
  ⟨fits.reserved, fun now => fits.lock (holds now), fun now => fits.last (confirmed now),
    fun now => fits.masked (masked now)⟩

theorem DisableFits.goes {point point' : DisablePoint} (fits : DisableFits s id point)
    (barrier : point'.barrier = point.barrier) (holds : point'.holds → point.holds)
    (raised : point'.raised → point.raised) : DisableFits s id point' :=
  ⟨fits.started, fun now => fits.lock (holds now), by rw [barrier]; exact fits.follows,
    by rw [barrier]; exact fun b same now => fits.raised b same (raised now)⟩

theorem Sound.update_fits (sound : Sound s) (here : s.calls id = .update number view point) :
    UpdateFits s id number view point := by
  have fits := sound.calls id
  rwa [here] at fits

theorem Sound.disable_fits (sound : Sound s) {point : DisablePoint}
    (here : s.calls id = .disable point) : DisableFits s id point := by
  have fits := sound.calls id
  rwa [here] at fits

/-- A revision that is current is not older than any that was delivered. -/
theorem Sound.confirm (sound : Sound s) (here : s.calls id = .update number view .locked)
    (current : s.card.latest = number) : UpdateFits s id number view .validating := by
  have fits := sound.update_fits here
  refine ⟨fits.reserved, fun _ => fits.lock rfl, fun _ call earlier old delivered => ?_,
    fun masked => by cases masked⟩
  rw [← current]
  exact sound.bounded call earlier old delivered

/-- The view that is written has no action enabled where a disable that returned forbids it. -/
theorem Sound.mask (sound : Sound s) (here : s.calls id = .update number view .validating) :
    UpdateFits s id number (s.card.mask number view) point := by
  have fits := sound.update_fits here
  refine ⟨fits.reserved, fun _ => fits.lock rfl, fun _ => fits.last rfl,
    fun _ call barrier listed older => ?_⟩
  have raised := (sound.closed call barrier listed).1
  simp only [Card.mask]
  split
  · exact view.disable_enabled
  · rename_i exempt
    by_contra enabled
    exact exempt ⟨le_trans older raised, by simpa using enabled⟩

theorem Sound.write (sound : Sound s) (here : s.calls id = .update number view .validating) :
    Sound (s.write id number view) := by
  simp only [State.write]
  split
  · exact sound.leave id
  · split
    · exact (sound.written (Card.attempt_counters _ _)).goto ((sound.mask here).written _)
    · exact sound.goto (sound.mask here)

theorem Sound.send (sound : Sound s) (here : s.calls id = .update number view .revalidating) :
    Sound (s.send id number view) := by
  have fits := sound.update_fits here
  refine (sound.written (Card.attempt_counters _ _)).goto (UpdateFits.written ?_ _)
  exact fits.goes (fun _ => rfl) (fun _ => rfl) fun _ => rfl

theorem Sound.updateAnswered (sound : Sound s)
    (here : s.calls id = .update number view (.updating attempt))
    (result : Except ChannelError MessageRef) :
    Sound (s.updateAnswered id number view attempt result) := by
  have fits := sound.update_fits here
  simp only [State.updateAnswered]
  cases result with
  | ok message =>
    have written : Sound (s.withCard ((s.card.finish attempt (.ok message)).apply number)) :=
      sound.written (by simp)
    exact (written.updated here rfl).leave id
  | error error =>
    have written : Sound (s.withCard
        (s.card.finish (α := MessageRef) attempt (.error error))) :=
      sound.written (by simp)
    show Sound (if error.definite then _ else _)
    split
    · exact written.leave id
    · exact written.goto ((fits.written _).goes (fun _ => rfl) (fun _ => rfl) fun _ => rfl)

theorem Sound.sendAnswered (sound : Sound s)
    (here : s.calls id = .update number view (.sending attempt))
    (result : Except ChannelError MessageRef) :
    Sound (s.sendAnswered id number view attempt result) := by
  simp only [State.sendAnswered]
  cases result with
  | ok message =>
    have written : Sound (s.withCard
        ((s.card.finish attempt (.ok message)).replace number message)) :=
      sound.written (by simp)
    exact (written.updated here rfl).leave id
  | error error => exact (sound.written (by simp)).leave id

theorem Sound.dispatchUpdate (sound : Sound s) {point : WriteAttempt → UpdatePoint}
    (here : s.calls id = .update number view (point attempt))
    (same : ∀ attempt', UpdateFits s id number view (point attempt) →
      UpdateFits s id number view (point attempt'))
    (valid : Bool) :
    Sound (s.dispatchUpdate id number view point attempt valid) := by
  simp only [State.dispatchUpdate]
  split
  · exact sound.goto (same _ (sound.update_fits here))
  · exact (sound.written (by simp)).leave id

theorem Sound.disableActions (sound : Sound s) (here : s.calls id = .disable (.locked barrier)) :
    Sound (s.disableActions id barrier) := by
  simp only [State.disableActions]
  split
  · exact (sound.disabled here rfl rfl).leave id
  · split
    · exact (sound.disabled here rfl rfl).leave id
    · have fits := (sound.disable_fits here).written (Card.attempt_counters s.card false)
      exact (sound.written (Card.attempt_counters _ _)).goto
        (DisableFits.goes fits rfl (fun _ => rfl) fun _ => rfl)

theorem Sound.disableAnswered (sound : Sound s)
    (here : s.calls id = .disable (.disabling barrier attempt))
    (result : Except ChannelError MessageRef) :
    Sound (s.disableAnswered id barrier attempt result) := by
  simp only [State.disableAnswered]
  have written : Sound (s.withCard (s.card.finish attempt result)) := sound.written (by simp)
  cases result with
  | ok _ => exact (written.disabled here rfl rfl).leave id
  | error _ => exact written.leave id

theorem Sound.advance (sound : Sound s) (next : s.advance id = some s') : Sound s' := by
  simp only [State.advance] at next
  split at next
  · rename_i number view here
    split at next <;> cases next
    · refine sound.goto ((sound.update_fits here).goes ?_ ?_ ?_) <;> exact fun now => now
    · exact sound.leave id
  · rename_i number view here
    split at next <;> cases next
    rename_i free
    have fits := sound.update_fits here
    refine (sound.acquire free id).goto ⟨fits.reserved, fun _ => rfl, ?_, ?_⟩ <;>
      exact fun wrong => by cases wrong
  · rename_i number view here
    split at next <;> cases next
    · rename_i current
      exact sound.goto (sound.confirm here current)
    · exact sound.leave id
  · rename_i number view here
    split at next <;> cases next
    · refine sound.goto ((sound.update_fits here).goes ?_ ?_ ?_) <;> exact fun now => now
    · exact sound.leave id
  · rename_i here
    cases next
    have fits := sound.disable_fits here
    refine sound.goto ⟨fits.started, ?_, fun barrier same => ?_, ?_⟩
    · exact fun wrong => by cases wrong
    · cases same
      exact sound.follows_latest id
    · exact fun _ _ wrong => by cases wrong
  · rename_i barrier here
    cases next
    have fits := sound.disable_fits here
    -- the barrier is on the card before the call waits for the lock
    have moves : Moves s ((s.withCard { s.card with
        disabledThrough := max s.card.disabledThrough barrier }).goto id
          (.disable (.locking barrier))) id := by
      refine ⟨rfl, rfl, Nat.le_max_left _ _, fun other different => ?_, fun _ _ held => held⟩
      simp [State.goto, State.withCard, different]
    refine sound.moves moves ?_
    · simp only [State.goto, update_self]
      refine DisableFits.mk fits.started ?_ fits.follows fun raised same _ => ?_
      · exact fun wrong => by cases wrong
      · cases same
        exact Nat.le_max_right _ _
  · rename_i barrier here
    split at next <;> cases next
    rename_i free
    have fits := sound.disable_fits here
    exact (sound.acquire free id).goto ⟨fits.started, fun _ => rfl, fits.follows, fits.raised⟩
  · rename_i barrier here
    cases next
    exact sound.disableActions here
  · cases next

theorem Sound.validated (sound : Sound s) {valid : Bool}
    (next : s.validated id valid = some s') : Sound s' := by
  simp only [State.validated] at next
  split at next
  · rename_i number view here
    split at next <;> cases next
    · exact sound.write here
    · exact sound.leave id
  · rename_i number view here
    split at next <;> cases next
    · exact sound.send here
    · exact sound.leave id
  · cases next

theorem Sound.queued (sound : Sound s) (next : s.queued id = some s') : Sound s' := by
  simp only [State.queued] at next
  split at next
  · rename_i number view attempt here
    cases next
    refine sound.goto ((sound.update_fits here).goes ?_ ?_ ?_) <;> exact fun now => now
  · rename_i number view attempt here
    cases next
    refine sound.goto ((sound.update_fits here).goes ?_ ?_ ?_) <;> exact fun now => now
  · rename_i barrier attempt here
    cases next
    refine sound.goto ((sound.disable_fits here).goes rfl ?_ ?_) <;> exact fun now => now
  · cases next

theorem Sound.dispatch (sound : Sound s) {valid : Bool}
    (next : s.dispatch id valid = some s') : Sound s' := by
  simp only [State.dispatch] at next
  split at next
  · rename_i number view attempt here
    cases next
    refine sound.dispatchUpdate here (fun _ fits => fits.goes ?_ ?_ ?_) valid <;>
      exact fun now => now
  · rename_i number view attempt here
    cases next
    refine sound.dispatchUpdate here (fun _ fits => fits.goes ?_ ?_ ?_) valid <;>
      exact fun now => now
  · rename_i barrier attempt here
    cases next
    refine sound.goto ((sound.disable_fits here).goes rfl ?_ ?_) <;> exact fun now => now
  · cases next

theorem Sound.answered (sound : Sound s) {result : Except ChannelError MessageRef}
    (next : s.answered id result = some s') : Sound s' := by
  simp only [State.answered] at next
  split at next
  · rename_i number view attempt here
    cases next
    exact sound.updateAnswered here _
  · rename_i number view attempt here
    cases next
    exact sound.sendAnswered here _
  · rename_i barrier attempt here
    cases next
    exact sound.disableAnswered here _
  · cases next

theorem Sound.cancel (sound : Sound s) (next : s.cancel id = some s') : Sound s' := by
  simp only [State.cancel] at next
  split at next <;> cases next
  all_goals first
    | exact sound.leave id
    | exact (sound.written (Card.drop_counters _ _)).leave id

theorem Sound.step (sound : Sound s) (next : s.step label = some s') : Sound s' := by
  cases label with
  | reserve =>
    cases next
    exact sound.reserve
  | update call number view =>
    simp only [State.step] at next
    split at next <;> cases next
    rename_i ready
    refine sound.goto ⟨(sound.reserved number).mpr ready.2, ?_, ?_, ?_⟩ <;>
      exact fun wrong => by cases wrong
  | disable call =>
    simp only [State.step] at next
    split at next <;> cases next
    refine (sound.disabling call).goto (DisableFits.mk ?_ ?_ ?_ ?_)
    · exact mem_append_right _ (mem_singleton_self _)
    · exact fun wrong => by cases wrong
    · exact fun _ wrong => by cases wrong
    · exact fun _ wrong => by cases wrong
  | advance call => exact sound.advance next
  | validated call valid => exact sound.validated next
  | queued call => exact sound.queued next
  | dispatch call valid => exact sound.dispatch next
  | answered call result => exact sound.answered next
  | cancel call => exact sound.cancel next

end

theorem sound_of_reachable {message : MessageRef} {s : State}
    (run : (card message).Reachable System.always s) : Sound s :=
  run.invariant Sound (.start message) fun _ _ sound next => sound.step next

end Agentix.Cards
