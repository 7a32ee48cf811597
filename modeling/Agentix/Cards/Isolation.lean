import Agentix.Cards.Targets

/-! # Isolated messages

A write is under way in at most one call, which holds the lock; the card has no message meanwhile.
-/

namespace Agentix.Cards

open Lib Option

section

variable {s s' : State} {id : Nat} {label : Label} {message : MessageRef} {attempt : WriteAttempt}

variable {t : State}

theorem Sound.lock (sound : Sound s) (holds : (s.calls id).holds = true) :
    s.holder = some id := by
  have fits := sound.calls id
  match call : s.calls id with
  | .update number view point =>
    rw [call] at holds fits
    exact UpdateFits.lock fits holds
  | .disable point =>
    rw [call] at holds fits
    exact DisableFits.lock fits holds
  | .idle =>
    rw [call] at holds
    cases holds
  | .returned =>
    rw [call] at holds
    cases holds

theorem Sound.holds_alone (sound : Sound s) {other : Nat} (here : (s.calls id).holds = true)
    (there : (s.calls other).holds = true) : other = id := by
  have one := sound.lock here
  have two := sound.lock there
  rw [one, some.injEq] at two
  exact two.symm

/-! ## The card during a write -/

structure Isolated (s : State) : Prop where
  taken : ∀ id attempt, (s.calls id).attempt = some attempt →
    s.card.state.target = none ∧ s.card.retain = true ∧
      s.card.state.replacementUncertain = attempt.replacement ∧
      (s.calls id).sending = attempt.replacement ∧
      attempt.previous.isNone = attempt.replacement
  parked : ∀ id, (s.calls id).parked = true →
    s.card.state.target = none ∧ s.card.state.replacementUncertain = false
  uncertain : s.card.state.replacementUncertain = true → s.card.state.target = none

theorem Isolated.start (message : MessageRef) : Isolated (.start message) where
  taken _ _ opened := by cases opened
  parked _ parked := by cases parked
  uncertain wrong := by cases wrong

theorem forall_calls (property : Nat → Call → Prop) (next : s.step label = some s')
    (here : property label.call (s'.calls label.call))
    (others : ∀ other, other ≠ label.call → property other (s.calls other)) :
    ∀ id, property id (s'.calls id) := by
  intro id
  by_cases same : id = label.call
  · rw [same]
    exact here
  · rw [calls_of_step next same]
    exact others id same

theorem Sound.others_idle (sound : Sound s) (holds : (s.calls id).holds = true) {other : Nat}
    (ne : other ≠ id) :
    (s.calls other).attempt = none ∧ (s.calls other).parked = false := by
  have free : (s.calls other).holds ≠ true := fun there => ne (sound.holds_alone holds there)
  constructor
  · cases opened : (s.calls other).attempt with
    | none => rfl
    | some attempt => exact absurd (Call.holds_of_attempt opened) free
  · cases parked : (s.calls other).parked with
    | false => rfl
    | true => exact absurd (Call.holds_of_parked parked) free

theorem about_eq {call call' : Call}
    (about : call'.attempt.map WriteAttempt.about = call.attempt.map WriteAttempt.about)
    {attempt' : WriteAttempt} (opened : call'.attempt = some attempt') :
    ∃ attempt, call.attempt = some attempt ∧ attempt'.previous = attempt.previous ∧
      attempt'.replacement = attempt.replacement := by
  rw [opened, map_some] at about
  obtain ⟨attempt, opened, same⟩ := map_eq_some_iff.mp about.symm
  simp only [WriteAttempt.about, Prod.mk.injEq] at same
  exact ⟨attempt, opened, same.1.symm, same.2.symm⟩

theorem Sound.none_of_closed (sound : Sound s) (next : s.step label = some s')
    (holds : (s.calls label.call).holds = true)
    (closed : (s'.calls label.call).attempt = none) (id : Nat) : (s'.calls id).attempt = none :=
  forall_calls (fun _ call => call.attempt = none) next closed
    (fun _ ne => (sound.others_idle holds ne).1) id

theorem Isolated.of_closed (sound : Sound s) (next : s.step label = some s')
    (holds : (s.calls label.call).holds = true)
    (closed : (s'.calls label.call).attempt = none)
    (parked : (s'.calls label.call).parked = true →
      s'.card.state.target = none ∧ s'.card.state.replacementUncertain = false)
    (uncertain : s'.card.state.replacementUncertain = true → s'.card.state.target = none) :
    Isolated s' where
  taken id attempt opened := by
    rw [sound.none_of_closed next holds closed id] at opened
    cases opened
  parked id here := by
    by_cases same : id = label.call
    · rw [same] at here
      exact parked here
    · rw [calls_of_step next same, (sound.others_idle holds same).2] at here
      cases here
  uncertain := uncertain

theorem Isolated.step (isolated : Isolated s) (sound : Sound s) (next : s.step label = some s') :
    Isolated s' := by
  cases effect_of_step next with
  | keeps state retain about sending parked =>
    refine ⟨fun id attempt opened => ?_, fun id here => ?_, ?_⟩
    · rw [state, retain]
      by_cases same : id = label.call
      · subst same
        obtain ⟨old, opened, previous, replacement⟩ := about_eq about opened
        rw [sending, previous, replacement]
        exact isolated.taken _ old opened
      · rw [calls_of_step next same] at opened ⊢
        exact isolated.taken id attempt opened
    · rw [state]
      by_cases same : id = label.call
      · subst same
        obtain before | ⟨target, certain, -⟩ := parked here
        · exact isolated.parked _ before
        · exact ⟨target, certain⟩
      · rw [calls_of_step next same] at here
        exact isolated.parked id here
    · rw [state]
      exact isolated.uncertain
  | begins replacement idle holds opens card sending parked unparked target =>
    refine ⟨fun id attempt opened => ?_, fun id here => ?_, fun _ => by rw [card]; rfl⟩
    · by_cases same : id = label.call
      · subst same
        rw [opens, some.injEq] at opened
        subst opened
        rw [card, sending]
        simp only [Card.attempt, true_and]
        -- a replacement is sent where there is no message, and an update where there is one
        cases replacement with
        | true => simp [(isolated.parked _ parked).1]
        | false =>
          have known := target rfl
          have certain : s.card.state.replacementUncertain = false := by
            by_contra wrong
            rw [isolated.uncertain (by simpa using wrong)] at known
            cases known
          simpa [certain] using known
      · rw [calls_of_step next same, (sound.others_idle holds same).1] at opened
        cases opened
    · by_cases same : id = label.call
      · rw [same, unparked] at here
        cases here
      · rw [calls_of_step next same, (sound.others_idle holds same).2] at here
        cases here
  | @undoes attempt opened returned card =>
    refine .of_closed sound next (Call.holds_of_attempt opened) (by rw [returned]; rfl)
      (fun here => by rw [returned] at here; cases here) fun wrong => ?_
    obtain ⟨-, -, known, -⟩ := isolated.taken _ attempt opened
    rw [card] at wrong
    simp [Card.restore, known] at wrong
  | @confirms attempt number opened returned card updates =>
    refine .of_closed sound next (Call.holds_of_attempt opened) (by rw [returned]; rfl)
      (fun here => by rw [returned] at here; cases here) fun wrong => ?_
    obtain ⟨-, -, known, -⟩ := isolated.taken _ attempt opened
    obtain card | card := card <;> rw [card] at wrong <;>
      simp [Card.restore, Card.apply, known] at wrong
  | @replaces attempt number replacement opened returned card sends result =>
    refine .of_closed sound next (Call.holds_of_attempt opened) (by rw [returned]; rfl)
      (fun here => by rw [returned] at here; cases here) fun wrong => ?_
    rw [card] at wrong
    cases wrong
  | @strands attempt opened uncertain card closed sending parked =>
    obtain ⟨target, -, known, sends, -⟩ := isolated.taken _ attempt opened
    refine .of_closed sound next (Call.holds_of_attempt opened) closed (fun here => ?_) fun _ => ?_
    · rw [card]
      exact ⟨target, by rw [known, ← sends]; exact parked here⟩
    · rw [card]
      exact target

theorem isolated_of_reachable (run : (card message).Reachable System.always s) : Isolated s :=
  run.invariant Isolated (.start message) fun before _ isolated next =>
    isolated.step (sound_of_reachable before) next

/-! ## The messages of a card -/

/-- The message of the card, which a write that is under way has taken out. -/
def State.Targets (s : State) (message : MessageRef) : Prop :=
  s.card.state.target = some message ∨
    ∃ id attempt, (s.calls id).attempt = some attempt ∧ attempt.previous = some message

theorem targets_of_closed (sound : Sound s) (next : s.step label = some s')
    (holds : (s.calls label.call).holds = true)
    (closed : (s'.calls label.call).attempt = none) (targets : s'.Targets message) :
    s'.card.state.target = some message := by
  obtain here | ⟨id, attempt, opened, -⟩ := targets
  · exact here
  · rw [sound.none_of_closed next holds closed id] at opened
    cases opened

/-- A card only comes by a message that it has just sent. -/
theorem targets_of_step (sound : Sound s) (next : s.step label = some s')
    (targets : s'.Targets message) :
    s.Targets message ∨
      (s.calls label.call).sending = true ∧ label = .answered label.call (.ok message) := by
  cases effect_of_step next with
  | keeps state retain about sending parked =>
    left
    obtain here | ⟨id, attempt, opened, previous⟩ := targets
    · exact .inl (state ▸ here)
    · by_cases same : id = label.call
      · subst same
        obtain ⟨old, before, kept, -⟩ := about_eq about opened
        exact .inr ⟨_, old, before, kept ▸ previous⟩
      · rw [calls_of_step next same] at opened
        exact .inr ⟨id, attempt, opened, previous⟩
  | begins replacement idle holds opens card sending parked unparked target =>
    left
    obtain here | ⟨id, attempt, opened, previous⟩ := targets
    · rw [card] at here
      cases here
    · by_cases same : id = label.call
      · subst same
        rw [opens, some.injEq] at opened
        subst opened
        exact .inl previous
      · rw [calls_of_step next same] at opened
        exact .inr ⟨id, attempt, opened, previous⟩
  | @undoes attempt opened returned card =>
    have here := targets_of_closed sound next (Call.holds_of_attempt opened) (by rw [returned]; rfl)
      targets
    rw [card] at here
    exact .inl (.inr ⟨_, attempt, opened, here⟩)
  | @confirms attempt number opened returned card updates =>
    have here := targets_of_closed sound next (Call.holds_of_attempt opened) (by rw [returned]; rfl)
      targets
    obtain card | card := card <;> rw [card] at here <;>
      exact .inl (.inr ⟨_, attempt, opened, here⟩)
  | @replaces attempt number replacement opened returned card sends result =>
    have here := targets_of_closed sound next (Call.holds_of_attempt opened) (by rw [returned]; rfl)
      targets
    rw [card] at here
    simp only [Card.replace, some.injEq] at here
    exact .inr ⟨sends, by rw [← here]; exact result⟩
  | @strands attempt opened uncertain card closed sending parked =>
    have here := targets_of_closed sound next (Call.holds_of_attempt opened) closed targets
    rw [card] at here
    exact .inl (.inl here)

/-! ## After an uncertain write -/

/-- The channel does not name the message as one that it has just sent. -/
def Spares (message : MessageRef) (s : State) (label : Label) : Prop :=
  (s.calls label.call).sending = true → label ≠ .answered label.call (.ok message)

theorem not_targets_of_path (run : (card message).Reachable System.always s) {lost : MessageRef}
    (path : (card message).Path (Spares lost) s t) (gone : ¬ s.Targets lost) :
    ¬ t.Targets lost := by
  induction path with
  | refl => exact gone
  | @tail middle t before next ih =>
    obtain ⟨label, spares, step⟩ := next
    have sound := sound_of_reachable (run.path (System.Path.mono before fun _ _ _ => trivial))
    intro targets
    obtain old | ⟨sends, named⟩ := targets_of_step sound step targets
    · exact ih old
    · exact spares sends named

/-- What the registry does not forget: a card that lost its message. -/
structure Retained (s : State) : Prop where
  retain : s.card.retain = true
  lost : s.card.state.replaced = true ∨ ∀ message, ¬ s.Targets message

theorem replaced_of_step (next : s.step label = some s')
    (replaced : s.card.state.replaced = true) : s'.card.state.replaced = true := by
  cases effect_of_step next with
  | keeps state => rw [state]; exact replaced
  | begins _ _ _ _ card => rw [card]; exact replaced
  | undoes _ _ card => rw [card]; exact replaced
  | confirms _ _ _ card => obtain card | card := card <;> rw [card] <;> exact replaced
  | replaces _ _ _ card => rw [card]; rfl
  | strands _ _ card => rw [card]; exact replaced

theorem replaced_of_sent {id : Nat} (next : s.step (.answered id (.ok message)) = some s')
    (sends : (s.calls id).sending = true) : s'.card.state.replaced = true := by
  simp only [State.step, State.answered] at next
  cases call : s.calls id with
  | update number view stage =>
    cases stage with
    | sending attempt =>
      rw [call] at next
      cases next
      rfl
    | _ =>
      rw [call] at sends
      cases sends
  | _ =>
    rw [call] at sends
    cases sends

theorem Retained.step (retained : Retained s) (sound : Sound s)
    (next : s.step label = some s') : Retained s' := by
  -- without a replacement there is nothing that a write could put back
  have restored : ∀ {id attempt}, (s.calls id).attempt = some attempt →
      (s.card.restore attempt).retain = true := by
    intro id attempt opened
    simp only [Card.restore, Bool.or_eq_true, isNone_iff_eq_none]
    obtain replaced | lost := retained.lost
    · exact .inl replaced
    · right
      cases previous : attempt.previous with
      | none => rfl
      | some message => exact absurd (.inr ⟨id, attempt, opened, previous⟩) (lost message)
  constructor
  · cases effect_of_step next with
    | keeps _ retain => rw [retain]; exact retained.retain
    | begins _ _ _ _ card => rw [card]; rfl
    | undoes opened _ card => rw [card]; exact restored opened
    | confirms _ opened _ card => obtain card | card := card <;> rw [card] <;> exact restored opened
    | replaces _ opened _ card => rw [card]; exact restored opened
    | strands _ _ card => rw [card]; exact retained.retain
  · by_cases replaced : s'.card.state.replaced = true
    · exact .inl replaced
    · right
      intro message targets
      obtain old | ⟨sends, named⟩ := targets_of_step sound next targets
      · obtain before | lost := retained.lost
        · exact replaced (replaced_of_step next before)
        · exact lost message old
      · rw [named] at next
        exact replaced (replaced_of_sent next sends)

/-! ## After an uncertain replacement -/

/-- Nothing is known of the replacement that was sent. -/
structure Stuck (s : State) : Prop where
  uncertain : s.card.state.replacementUncertain = true
  target : s.card.state.target = none
  idle : ∀ id, (s.calls id).attempt = none
  parked : ∀ id, (s.calls id).parked = false

/-- What a current and valid update is answered before it writes. -/
def State.refusal (s : State) : Option ChannelError :=
  if s.card.state.replacementUncertain then
    some (.transport "replacement card delivery is uncertain")
  else none

theorem validated_of_refusal {error : ChannelError} {number : Nat} {view : OutboundView}
    (refused : s.refusal = some error) (here : s.calls id = .update number view .validating) :
    s.validated id true = some (s.leave id) := by
  have uncertain : s.card.state.replacementUncertain = true := by
    by_contra certain
    rw [State.refusal, if_neg certain] at refused
    cases refused
  simp only [State.validated, here, if_true, State.write, uncertain]

theorem Stuck.step (stuck : Stuck s) (next : s.step label = some s') : Stuck s' := by
  cases effect_of_step next with
  | keeps state retain about sending parked =>
    refine ⟨by rw [state]; exact stuck.uncertain, by rw [state]; exact stuck.target, ?_, ?_⟩
    · refine forall_calls (fun _ call => call.attempt = none) next ?_
        fun other _ => stuck.idle other
      rw [stuck.idle] at about
      simpa using about
    · refine forall_calls (fun _ call => call.parked = false) next ?_
        fun other _ => stuck.parked other
      by_contra wrong
      obtain before | ⟨-, certain, -⟩ := parked (by simpa using wrong)
      · rw [stuck.parked] at before
        cases before
      · rw [stuck.uncertain] at certain
        cases certain
  | begins replacement idle holds opens card sending parked unparked target =>
    -- a write begins with a message, or is parked
    cases replacement with
    | true =>
      rw [stuck.parked] at parked
      cases parked
    | false =>
      have known := target rfl
      rw [stuck.target] at known
      cases known
  | undoes opened =>
    rw [stuck.idle] at opened
    cases opened
  | confirms _ opened =>
    rw [stuck.idle] at opened
    cases opened
  | replaces _ opened =>
    rw [stuck.idle] at opened
    cases opened
  | strands opened =>
    rw [stuck.idle] at opened
    cases opened

theorem Stuck.path (stuck : Stuck s) (path : (card message).Path System.always s t) : Stuck t := by
  induction path with
  | refl => exact stuck
  | tail _ next ih =>
    obtain ⟨label, -, step⟩ := next
    exact ih.step step

theorem Retained.path (run : (card message).Reachable System.always s) (retained : Retained s)
    (path : (card message).Path System.always s t) : Retained t := by
  induction path with
  | refl => exact retained
  | tail before next ih =>
    obtain ⟨label, -, step⟩ := next
    exact ih.step (sound_of_reachable (run.path before)) step

/-! ## The end of an uncertain write -/

/-- The three calls that wait for a write. -/
theorem Call.attempt_cases {call : Call} (opened : call.attempt = some attempt) :
    (∃ number view, call = .update number view (.updating attempt)) ∨
    (∃ number view, call = .update number view (.sending attempt)) ∨
    ∃ barrier, call = .disable (.disabling barrier attempt) := by
  match call, opened with
  | .update number view (.updating _), rfl => exact .inl ⟨number, view, rfl⟩
  | .update number view (.sending _), rfl => exact .inr (.inl ⟨number, view, rfl⟩)
  | .disable (.disabling barrier _), rfl => exact .inr (.inr ⟨barrier, rfl⟩)

/-- What an uncertain write leaves behind. -/
structure Stranded (s s' : State) (label : Label) (attempt : WriteAttempt) : Prop where
  opened : (s.calls label.call).attempt = some attempt
  card : s'.card = s.card
  closed : (s'.calls label.call).attempt = none
  parked : (s'.calls label.call).parked = true → (s.calls label.call).sending = false

theorem stranded (next : s.step label = some s') (uncertain : Uncertain s label attempt) :
    Stranded s s' label attempt := by
  cases uncertain with
  | @answered id result _ error opened outcome lost =>
    simp only [State.step, State.answered] at next
    obtain ⟨number, view, here⟩ | ⟨number, view, here⟩ | ⟨barrier, here⟩ :=
      Call.attempt_cases opened
    · rw [here] at next
      simp only [outcome, State.updateAnswered, Card.finish_error, lost, Bool.false_eq_true,
        if_false, some.injEq] at next
      subst next
      refine ⟨opened, rfl, ?_, fun _ => by simp only [Label.call]; rw [here]; rfl⟩
      simp [State.goto, Label.call, Call.attempt]
    · rw [here] at next
      simp only [outcome, State.sendAnswered, Card.finish_error, lost, Bool.false_eq_true,
        if_false, some.injEq] at next
      subst next
      refine ⟨opened, rfl, ?_, ?_⟩ <;>
        simp [State.leave, State.withCard, Label.call, Call.attempt, Call.parked]
    · rw [here] at next
      simp only [outcome, State.disableAnswered, Card.finish_error, lost, Bool.false_eq_true,
        if_false, some.injEq] at next
      subst next
      refine ⟨opened, rfl, ?_, ?_⟩ <;>
        simp [State.leave, State.withCard, Label.call, Call.attempt, Call.parked]
  | @cancelled id _ opened dispatched =>
    have left : s' = (s.withCard s.card).leave id := by
      simp only [State.step, State.cancel] at next
      obtain ⟨number, view, here⟩ | ⟨number, view, here⟩ | ⟨barrier, here⟩ :=
        Call.attempt_cases opened <;> rw [here] at next <;>
        simpa [Card.drop, dispatched, eq_comm] using next
    subst left
    refine ⟨opened, rfl, ?_, ?_⟩ <;>
      simp [State.leave, State.withCard, Label.call, Call.attempt, Call.parked]

theorem Stranded.not_targets (stranded : Stranded s s' label attempt) (isolated : Isolated s)
    (sound : Sound s) (next : s.step label = some s') : ¬ s'.Targets message := by
  intro targets
  have here := targets_of_closed sound next (Call.holds_of_attempt stranded.opened)
    stranded.closed targets
  rw [stranded.card, (isolated.taken _ _ stranded.opened).1] at here
  cases here

theorem Stranded.retained (stranded : Stranded s s' label attempt) (isolated : Isolated s)
    (sound : Sound s) (next : s.step label = some s') : Retained s' where
  retain := by rw [stranded.card]; exact (isolated.taken _ _ stranded.opened).2.1
  lost := .inr fun _ => stranded.not_targets isolated sound next

theorem Stranded.stuck (stranded : Stranded s s' label attempt) (isolated : Isolated s)
    (sound : Sound s) (next : s.step label = some s') (replacement : attempt.replacement = true) :
    Stuck s' := by
  obtain ⟨target, -, uncertain, sends, -⟩ := isolated.taken _ _ stranded.opened
  have holds := Call.holds_of_attempt stranded.opened
  refine ⟨?_, ?_, sound.none_of_closed next holds stranded.closed, ?_⟩
  · rw [stranded.card, uncertain, replacement]
  · rw [stranded.card, target]
  · refine forall_calls (fun _ call => call.parked = false) next ?_
      fun other ne => (sound.others_idle holds ne).2
    by_contra parked
    have silent := stranded.parked (by simpa using parked)
    rw [sends, replacement] at silent
    cases silent

/-! ## Runs without uncertain writes -/

def Certain (s : State) (label : Label) : Prop :=
  ∀ attempt, ¬ Uncertain s label attempt

/-- The card has the message it started with. -/
structure Unchanged (message : MessageRef) (s : State) : Prop where
  targets : s.Targets message
  only : ∀ other, s.Targets other → other = message
  parked : ∀ id, (s.calls id).parked = false
  sending : ∀ id, (s.calls id).sending = false

theorem Unchanged.start (message : MessageRef) : Unchanged message (.start message) where
  targets := .inl rfl
  only other targets := by
    obtain here | ⟨id, attempt, opened, -⟩ := targets
    · exact (some.inj here).symm
    · cases opened
  parked _ := rfl
  sending _ := rfl

/-- A write that ends puts the message back. -/
theorem Unchanged.closed (unchanged : Unchanged message s) (sound : Sound s)
    (next : s.step label = some s') (opened : (s.calls label.call).attempt = some attempt)
    (returned : s'.calls label.call = .returned) (target : s'.card.state.target = attempt.previous)
    (isolated : Isolated s) : Unchanged message s' := by
  have holds := Call.holds_of_attempt opened
  have previous : attempt.previous = some message := by
    obtain here | ⟨id, other, there, previous⟩ := unchanged.targets
    · rw [(isolated.taken _ _ opened).1] at here
      cases here
    · have same := sound.holds_alone holds (Call.holds_of_attempt there)
      rw [same, opened, some.injEq] at there
      exact there ▸ previous
  refine ⟨.inl (target.trans previous), fun other targets => ?_, ?_, ?_⟩
  · have here := targets_of_closed sound next holds (by rw [returned]; rfl) targets
    rw [target, previous, some.injEq] at here
    exact here.symm
  · exact forall_calls (fun _ call => call.parked = false) next (by rw [returned]; rfl)
      fun other _ => unchanged.parked other
  · exact forall_calls (fun _ call => call.sending = false) next (by rw [returned]; rfl)
      fun other _ => unchanged.sending other

theorem Unchanged.step (unchanged : Unchanged message s) (isolated : Isolated s) (sound : Sound s)
    (next : s.step label = some s') (certain : Certain s label) : Unchanged message s' := by
  cases effect_of_step next with
  | keeps state retain about sending parked =>
    refine ⟨?_, fun other targets => ?_, ?_, ?_⟩
    · obtain here | ⟨id, attempt, opened, previous⟩ := unchanged.targets
      · exact .inl (state ▸ here)
      · by_cases same : id = label.call
        · subst same
          obtain ⟨new, after, kept, -⟩ := about_eq about.symm opened
          exact .inr ⟨_, new, after, kept ▸ previous⟩
        · exact .inr ⟨id, attempt, by rw [calls_of_step next same]; exact opened, previous⟩
    · obtain old | ⟨sends, -⟩ := targets_of_step sound next targets
      · exact unchanged.only other old
      · rw [unchanged.sending] at sends
        cases sends
    · refine forall_calls (fun _ call => call.parked = false) next ?_
        fun other _ => unchanged.parked other
      by_contra wrong
      obtain before | ⟨target, -, holds, idle⟩ := parked (by simpa using wrong)
      · rw [unchanged.parked] at before
        cases before
      · -- whoever has the message holds the lock
        obtain here | ⟨id, attempt, opened, -⟩ := unchanged.targets
        · rw [target] at here
          cases here
        · rw [sound.holds_alone holds (Call.holds_of_attempt opened), idle] at opened
          cases opened
    · refine forall_calls (fun _ call => call.sending = false) next ?_
        fun other _ => unchanged.sending other
      rw [sending, unchanged.sending]
  -- The call that holds the lock opens an attempt, which takes the message along.
  | begins replacement idle holds opens card sending parked unparked target =>
    rw [unchanged.parked] at parked
    refine ⟨?_, fun other targets => ?_, ?_, ?_⟩
    · obtain here | ⟨id, attempt, opened, -⟩ := unchanged.targets
      · exact .inr ⟨_, _, opens, here⟩
      · rw [sound.holds_alone holds (Call.holds_of_attempt opened), idle] at opened
        cases opened
    · obtain old | ⟨sends, -⟩ := targets_of_step sound next targets
      · exact unchanged.only other old
      · rw [unchanged.sending] at sends
        cases sends
    · exact forall_calls (fun _ call => call.parked = false) next unparked
        fun other _ => unchanged.parked other
    · exact forall_calls (fun _ call => call.sending = false) next
        (sending.trans parked.symm) fun other _ => unchanged.sending other
  -- An attempt that is undone or confirmed gives back the message it took.
  | undoes opened returned card =>
    exact unchanged.closed sound next opened returned (by rw [card]; rfl) isolated
  | confirms number opened returned card =>
    refine unchanged.closed sound next opened returned ?_ isolated
    obtain card | card := card <;> rw [card] <;> rfl
  -- Nobody is sending, so nothing is replaced.
  | replaces _ _ _ _ sends =>
    rw [unchanged.sending] at sends
    cases sends
  | strands _ uncertain => exact absurd uncertain (certain _)

theorem unchanged_of_reachable (run : (card message).Reachable Certain s) :
    Unchanged message s := by
  refine run.invariant (Unchanged message) (.start message) fun before certain unchanged next => ?_
  have always := before.mono fun _ _ _ => trivial
  exact unchanged.step (isolated_of_reachable always) (sound_of_reachable always) next certain

/-! ## Writes that change nothing -/

/-- The card as the write of a call found it. -/
def Found (before : CardState) (id : Nat) (s : State) : Prop :=
  ∀ attempt, (s.calls id).attempt = some attempt → (s.card.restore attempt).state = before

def Writing (id : Nat) (s : State) (_ : Label) : Prop :=
  (s.calls id).attempt.isSome = true

theorem found_of_begin (isolated : Isolated s) (next : s.step label = some s')
    (idle : (s.calls id).attempt = none) (opened : (s'.calls id).attempt = some attempt) :
    Found s.card.state id s' := by
  have same : id = label.call := by
    by_contra ne
    rw [calls_of_step next ne, idle] at opened
    cases opened
  subst same
  intro attempt opened
  cases effect_of_step next with
  | keeps _ _ about =>
    rw [opened, idle] at about
    cases about
  | begins replacement _ holds opens card _ parked _ target =>
    rw [opens, some.injEq] at opened
    subst opened
    rw [card]
    have certain : s.card.state.replacementUncertain = false := by
      cases replacement with
      | true => exact (isolated.parked _ parked).2
      | false =>
        by_contra wrong
        have known := target rfl
        rw [isolated.uncertain (by simpa using wrong)] at known
        cases known
    cases replacement <;> simp [Card.attempt, Card.restore, ← certain]
  | undoes _ returned => rw [returned] at opened; cases opened
  | confirms _ _ returned => rw [returned] at opened; cases opened
  | replaces _ _ returned => rw [returned] at opened; cases opened
  | strands _ _ _ closed => rw [closed] at opened; cases opened

theorem Found.step {before : CardState} (found : Found before id s) (sound : Sound s)
    (writing : Writing id s label) (next : s.step label = some s') : Found before id s' := by
  obtain ⟨open_, opened⟩ := isSome_iff_exists.mp writing
  have holds := Call.holds_of_attempt opened
  intro attempt opened'
  by_cases same : id = label.call
  · subst same
    cases effect_of_step next with
    | keeps state _ about =>
      obtain ⟨old, before, previous, replacement⟩ := about_eq about opened'
      rw [← found old before]
      simp only [Card.restore, state, previous, replacement]
    | begins _ idle => rw [idle] at opened; cases opened
    | undoes _ returned => rw [returned] at opened'; cases opened'
    | confirms _ _ returned => rw [returned] at opened'; cases opened'
    | replaces _ _ returned => rw [returned] at opened'; cases opened'
    | strands _ _ _ closed => rw [closed] at opened'; cases opened'
  · rw [calls_of_step next same] at opened'
    -- the lock keeps the other calls from the card
    have alone : (s.calls label.call).holds ≠ true := fun there =>
      same (sound.holds_alone there holds)
    cases effect_of_step next with
    | keeps state =>
      rw [← found attempt opened']
      simp only [Card.restore, state]
    | begins _ _ there => exact absurd there alone
    | undoes there => exact absurd (Call.holds_of_attempt there) alone
    | confirms _ there => exact absurd (Call.holds_of_attempt there) alone
    | replaces _ there => exact absurd (Call.holds_of_attempt there) alone
    | strands there => exact absurd (Call.holds_of_attempt there) alone

theorem found_of_path {before : CardState} (run : (card message).Reachable System.always s)
    (found : Found before id s) (path : (card message).Path (Writing id) s t) :
    Found before id t := by
  induction path with
  | refl => exact found
  | @tail middle t earlier next ih =>
    obtain ⟨label, writing, step⟩ := next
    have sound := sound_of_reachable (run.path (System.Path.mono earlier fun _ _ _ => trivial))
    exact ih.step sound writing step

/-- A write that definitely failed, or was not dispatched, is put back. -/
theorem restored_of_undone (next : s.step label = some s') (undone : Undone s id label) :
    ∃ attempt, (s.calls id).attempt = some attempt ∧
      s'.card.state = (s.card.restore attempt).state := by
  cases undone with
  | @failed result attempt error opened outcome definite =>
    refine ⟨attempt, opened, ?_⟩
    simp only [State.step, State.answered] at next
    obtain ⟨number, view, here⟩ | ⟨number, view, here⟩ | ⟨barrier, here⟩ :=
      Call.attempt_cases opened <;> rw [here] at next <;>
      simp only [outcome, State.updateAnswered, State.sendAnswered, State.disableAnswered,
        Card.finish_error, definite, if_true, some.injEq] at next <;>
      subst next <;> rfl
  | @cancelled attempt opened waiting =>
    refine ⟨attempt, opened, ?_⟩
    simp only [State.step, State.cancel] at next
    obtain ⟨number, view, here⟩ | ⟨number, view, here⟩ | ⟨barrier, here⟩ :=
      Call.attempt_cases opened <;> rw [here] at next <;>
      simp only [Card.drop, waiting, if_true, some.injEq] at next <;> subst next <;> rfl
  | @invalidated number view point valid attempt update opened expired =>
    refine ⟨attempt, opened, ?_⟩
    simp only [State.step, State.dispatch] at next
    obtain ⟨number, view, here⟩ | ⟨number, view, here⟩ | ⟨barrier, here⟩ :=
      Call.attempt_cases opened
    · rw [here] at next update
      cases update
      simp only [State.dispatchUpdate, expired, Bool.false_eq_true, if_false,
        some.injEq] at next
      subst next
      rfl
    · rw [here] at next update
      cases update
      simp only [State.dispatchUpdate, expired, Bool.false_eq_true, if_false,
        some.injEq] at next
      subst next
      rfl
    · rw [here] at update
      cases update

end

end Agentix.Cards
