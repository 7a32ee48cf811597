import Agentix.Cards.Sound

/-! # The message of a card

A write takes the message out of the card.  The message comes back when the write is known to have
happened or not to have happened; otherwise the card forgets it, and the next update sends a new
one.
-/

namespace Agentix.Cards

open Lib Function

/-! ## Writes -/

/-- The write whose outcome a call waits for. -/
def Call.attempt : Call → Option WriteAttempt
  | .update _ _ (.updating attempt) | .update _ _ (.sending attempt)
  | .disable (.disabling _ attempt) => some attempt
  | _ => none

/-- The card has no message for the call, which may send one. -/
def Call.parked : Call → Bool
  | .update _ _ .retired | .update _ _ .revalidating => true
  | _ => false

def Call.sending : Call → Bool
  | .update _ _ (.sending _) => true
  | _ => false

def Call.holds : Call → Bool
  | .update _ _ point => point.holds
  | .disable point => point.holds
  | _ => false

theorem Call.holds_of_attempt {call : Call} {attempt : WriteAttempt}
    (opened : call.attempt = some attempt) : call.holds = true := by
  match call, opened with
  | .update _ _ (.updating _), _ => rfl
  | .update _ _ (.sending _), _ => rfl
  | .disable (.disabling _ _), _ => rfl

theorem Call.holds_of_parked {call : Call} (parked : call.parked = true) : call.holds = true := by
  match call, parked with
  | .update _ _ .retired, _ => rfl
  | .update _ _ .revalidating, _ => rfl

/-- What the write is about: the message that was taken out, and whether a new one is sent. -/
def WriteAttempt.about (attempt : WriteAttempt) : Option MessageRef × Bool :=
  (attempt.previous, attempt.replacement)

/-- The write has left, and its outcome stays unknown. -/
inductive Uncertain (s : State) : Label → WriteAttempt → Prop
  | answered {id : Nat} {result : Except ChannelError MessageRef} {attempt : WriteAttempt}
      {error : ChannelError} (opened : (s.calls id).attempt = some attempt)
      (outcome : attempt.delivery.outcome result = .error error)
      (lost : error.definite = false) : Uncertain s (.answered id result) attempt
  | cancelled {id : Nat} {attempt : WriteAttempt} (opened : (s.calls id).attempt = some attempt)
      (dispatched : attempt.delivery.notDispatched = false) : Uncertain s (.cancel id) attempt

/-- The write of a call has definitely failed, or is given up before it is dispatched. -/
inductive Undone (s : State) (id : Nat) : Label → Prop
  | failed {result : Except ChannelError MessageRef} {attempt : WriteAttempt}
      {error : ChannelError} (opened : (s.calls id).attempt = some attempt)
      (outcome : attempt.delivery.outcome result = .error error)
      (definite : error.definite = true) : Undone s id (.answered id result)
  | cancelled {attempt : WriteAttempt} (opened : (s.calls id).attempt = some attempt)
      (waiting : attempt.delivery.notDispatched = true) : Undone s id (.cancel id)
  | invalidated {number : Nat} {view : OutboundView} {point : UpdatePoint} {valid : Bool}
      {attempt : WriteAttempt} (update : s.calls id = .update number view point)
      (opened : (s.calls id).attempt = some attempt)
      (expired : (valid && s.card.latest == number) = false) : Undone s id (.dispatch id valid)

/-! ## What a step does to the card -/

/-- What a step does with the message of the card. -/
inductive Effect (s : State) (label : Label) (s' : State) (id : Nat) : Prop
  | keeps (state : s'.card.state = s.card.state) (retain : s'.card.retain = s.card.retain)
      (about : (s'.calls id).attempt.map WriteAttempt.about =
        (s.calls id).attempt.map WriteAttempt.about)
      (sending : (s'.calls id).sending = (s.calls id).sending)
      (parked : (s'.calls id).parked = true → (s.calls id).parked = true ∨
        s.card.state.target = none ∧ s.card.state.replacementUncertain = false ∧
          (s.calls id).holds = true ∧ (s.calls id).attempt = none)
  | begins (replacement : Bool) (idle : (s.calls id).attempt = none)
      (holds : (s.calls id).holds = true)
      (opens : (s'.calls id).attempt = some (s.card.attempt replacement).2)
      (card : s'.card = (s.card.attempt replacement).1)
      (sending : (s'.calls id).sending = replacement)
      (parked : (s.calls id).parked = replacement) (unparked : (s'.calls id).parked = false)
      (target : replacement = false → s.card.state.target.isSome = true)
  | undoes {attempt : WriteAttempt} (opened : (s.calls id).attempt = some attempt)
      (returned : s'.calls id = .returned) (card : s'.card = s.card.restore attempt)
  | confirms {attempt : WriteAttempt} (number : Nat) (opened : (s.calls id).attempt = some attempt)
      (returned : s'.calls id = .returned)
      (card : s'.card = s.card.restore attempt ∨ s'.card = (s.card.restore attempt).apply number)
      (updates : (s.calls id).sending = false)
  | replaces {attempt : WriteAttempt} (number : Nat) {message : MessageRef}
      (opened : (s.calls id).attempt = some attempt) (returned : s'.calls id = .returned)
      (card : s'.card = (s.card.restore attempt).replace number message)
      (sends : (s.calls id).sending = true) (result : label = .answered id (.ok message))
  | strands {attempt : WriteAttempt} (opened : (s.calls id).attempt = some attempt)
      (uncertain : Uncertain s label attempt) (card : s'.card = s.card)
      (closed : (s'.calls id).attempt = none) (sending : (s'.calls id).sending = false)
      (parked : (s'.calls id).parked = true → (s.calls id).sending = false)

section

variable {s s' : State} {id : Nat}

variable {label : Label}

theorem Effect.same (card : s'.card.state = s.card.state) (retain : s'.card.retain = s.card.retain)
    (closed : (s'.calls id).attempt = none) (sending : (s'.calls id).sending = false)
    (parked : (s'.calls id).parked = false) (before : (s.calls id).attempt = none)
    (silent : (s.calls id).sending = false) :
    Effect s label s' id := by
  refine .keeps card retain ?_ ?_ ?_
  · rw [closed, before]
  · rw [sending, silent]
  · rw [parked]
    exact fun wrong => by cases wrong

/-- A call that begins no write, or whose write goes on. -/
theorem Effect.goto {call : Call}
    (about : call.attempt.map WriteAttempt.about = (s.calls id).attempt.map WriteAttempt.about)
    (sending : call.sending = (s.calls id).sending)
    (parked : call.parked = true → (s.calls id).parked = true ∨
      s.card.state.target = none ∧ s.card.state.replacementUncertain = false ∧
        (s.calls id).holds = true ∧ (s.calls id).attempt = none) :
    Effect s label (s.goto id call) id := by
  refine .keeps rfl rfl ?_ ?_ ?_ <;> simpa [State.goto]

theorem Effect.leave (closed : (s.calls id).attempt = none)
    (silent : (s.calls id).sending = false) : Effect s label (s.leave id) id := by
  refine Effect.same rfl rfl ?_ ?_ ?_ closed silent <;> simp [State.leave, Call.attempt,
    Call.sending, Call.parked]

theorem Effect.begin {replacement : Bool} {call : Call} (idle : (s.calls id).attempt = none)
    (holds : (s.calls id).holds = true) (opens : call.attempt = some (s.card.attempt replacement).2)
    (sending : call.sending = replacement) (parked : (s.calls id).parked = replacement)
    (unparked : call.parked = false)
    (target : replacement = false → s.card.state.target.isSome = true) :
    Effect s label ((s.withCard (s.card.attempt replacement).1).goto id call) id := by
  refine .begins replacement idle holds ?_ rfl ?_ parked ?_ target <;> simpa [State.goto]

theorem effect_write {number : Nat} {view : OutboundView}
    (here : s.calls id = .update number view .validating) :
    Effect s label (s.write id number view) id := by
  unfold State.write
  by_cases uncertain : s.card.state.replacementUncertain = true
  · rw [if_pos uncertain]
    exact .leave (by rw [here]; rfl) (by rw [here]; rfl)
  · rw [if_neg uncertain]
    cases target : s.card.state.target with
    | some message =>
      exact .begin (by rw [here]; rfl) (by rw [here]; rfl) rfl rfl (by rw [here]; rfl) rfl
        fun _ => by rw [target]; rfl
    | none =>
      refine .goto (by rw [here]; rfl) (by rw [here]; rfl) fun _ => .inr ⟨target, ?_, ?_, ?_⟩
      · simpa using uncertain
      · rw [here]; rfl
      · rw [here]; rfl

theorem Card.finish_error {card : Card} {attempt : WriteAttempt} {error : ChannelError} :
    card.finish attempt (.error error : Except ChannelError MessageRef) =
      if error.definite then card.restore attempt else card := rfl

theorem effect_failed {result : Except ChannelError MessageRef} {attempt : WriteAttempt}
    {error : ChannelError} (opened : (s.calls id).attempt = some attempt)
    (outcome : attempt.delivery.outcome result = .error error) :
    Effect s (.answered id result)
      ((s.withCard (s.card.finish attempt
        (.error error : Except ChannelError MessageRef))).leave id) id := by
  rw [Card.finish_error]
  cases definite : error.definite with
  | true =>
    rw [if_pos rfl]
    exact .undoes opened (by simp [State.leave]) rfl
  | false =>
    rw [if_neg (by simp)]
    refine .strands opened (.answered opened outcome definite) rfl ?_ ?_ ?_ <;>
      simp [State.leave, State.withCard, Call.attempt, Call.sending, Call.parked]

theorem effect_answered {result : Except ChannelError MessageRef}
    (next : s.answered id result = some s') : Effect s (.answered id result) s' id := by
  simp only [State.answered] at next
  split at next
  · rename_i number view attempt here
    cases next
    have opened : (s.calls id).attempt = some attempt := by rw [here]; rfl
    have silent : (s.calls id).sending = false := by rw [here]; rfl
    cases outcome : attempt.delivery.outcome result with
    | ok message =>
      exact .confirms number opened (by simp [State.updateAnswered, State.leave]) (.inr rfl) silent
    | error error =>
      simp only [State.updateAnswered]
      cases definite : error.definite with
      | true =>
        have failed := effect_failed opened outcome
        simpa [definite] using failed
      | false =>
        simp only [Bool.false_eq_true, if_false, Card.finish_error, definite]
        refine .strands opened (.answered opened outcome definite) rfl ?_ ?_ fun _ => silent <;>
          simp [State.goto, State.withCard, Call.attempt, Call.sending]
  · rename_i number view attempt here
    cases next
    have opened : (s.calls id).attempt = some attempt := by rw [here]; rfl
    cases outcome : attempt.delivery.outcome result with
    | ok message =>
      have same : result = .ok message := by
        cases result with
        | ok sent => exact outcome
        | error failure =>
          cases failure with
          | transport text =>
            simp only [Phase.outcome] at outcome
            split at outcome <;> cases outcome
          | _ => cases outcome
      refine .replaces number opened (by simp [State.sendAnswered, State.leave]) rfl
        (by rw [here]; rfl) (by rw [same])
    | error error => exact effect_failed opened outcome
  · rename_i barrier attempt here
    cases next
    have opened : (s.calls id).attempt = some attempt := by rw [here]; rfl
    cases outcome : attempt.delivery.outcome result with
    | ok message =>
      exact .confirms 0 opened (by simp [State.disableAnswered, State.leave]) (.inl rfl)
        (by rw [here]; rfl)
    | error error => exact effect_failed opened outcome
  · cases next

theorem effect_cancel (next : s.cancel id = some s') : Effect s (.cancel id) s' id := by
  have drops : ∀ {attempt}, (s.calls id).attempt = some attempt →
      Effect s (.cancel id) ((s.withCard (s.card.drop attempt)).leave id) id := by
    intro attempt opened
    unfold Card.drop
    cases waiting : attempt.delivery.notDispatched with
    | true => exact .undoes opened (by simp [State.leave]) rfl
    | false =>
      refine .strands opened (.cancelled opened waiting) rfl ?_ ?_ ?_ <;>
        simp [State.leave, State.withCard, Call.attempt, Call.sending, Call.parked]
  simp only [State.cancel] at next
  split at next <;> cases next
  case h_1 here => exact drops (by rw [here]; rfl)
  case h_2 here => exact drops (by rw [here]; rfl)
  case h_3 here => exact drops (by rw [here]; rfl)
  all_goals
    rename_i here
    exact .leave (by rw [here]; rfl) (by rw [here]; rfl)

theorem effect_dispatch {valid : Bool} (next : s.dispatch id valid = some s') :
    Effect s (.dispatch id valid) s' id := by
  -- an attempt whose scope has expired is put back
  have goes : ∀ {number view attempt} {point : WriteAttempt → UpdatePoint},
      s.calls id = .update number view (point attempt) →
      (∀ a, (Call.update number view (point a)).attempt = some a) →
      (∀ a, (Call.update number view (point a)).sending =
        (Call.update number view (point attempt)).sending) →
      (∀ a, (Call.update number view (point a)).parked = false) →
      Effect s (.dispatch id valid) (s.dispatchUpdate id number view point attempt valid) id := by
    intro number view attempt point here attempts sends parked
    unfold State.dispatchUpdate
    split
    · refine .goto ?_ (by rw [here]; exact sends _) fun wrong => ?_
      · rw [here, attempts, attempts]; rfl
      · rw [parked] at wrong; cases wrong
    · have opened : (s.calls id).attempt = some attempt := by rw [here]; exact attempts _
      exact .undoes opened (by simp [State.leave]) rfl
  simp only [State.dispatch] at next
  split at next
  · rename_i number view attempt here
    cases next
    exact goes here (fun _ => rfl) (fun _ => rfl) fun _ => rfl
  · rename_i number view attempt here
    cases next
    exact goes here (fun _ => rfl) (fun _ => rfl) fun _ => rfl
  · rename_i barrier attempt here
    cases next
    refine .goto ?_ (by rw [here]; rfl) (fun wrong => by cases wrong)
    rw [here]; rfl
  · cases next

theorem effect_advance (next : s.advance id = some s') : Effect s (.advance id) s' id := by
  simp only [State.advance] at next
  split at next
  · rename_i number view here
    split at next <;> cases next
    · exact .goto (by rw [here]; rfl) (by rw [here]; rfl) fun wrong => by cases wrong
    · exact .leave (by rw [here]; rfl) (by rw [here]; rfl)
  · rename_i number view here
    split at next <;> cases next
    refine .same rfl rfl ?_ ?_ ?_ (by rw [here]; rfl) (by rw [here]; rfl) <;>
      simp [State.goto, Call.attempt, Call.sending, Call.parked]
  · rename_i number view here
    split at next <;> cases next
    · exact .goto (by rw [here]; rfl) (by rw [here]; rfl) fun wrong => by cases wrong
    · exact .leave (by rw [here]; rfl) (by rw [here]; rfl)
  · rename_i number view here
    split at next <;> cases next
    · exact .goto (by rw [here]; rfl) (by rw [here]; rfl) fun _ => .inl (by rw [here]; rfl)
    · exact .leave (by rw [here]; rfl) (by rw [here]; rfl)
  · rename_i here
    cases next
    exact .goto (by rw [here]; rfl) (by rw [here]; rfl) fun wrong => by cases wrong
  · rename_i barrier here
    cases next
    refine .same rfl rfl ?_ ?_ ?_ (by rw [here]; rfl) (by rw [here]; rfl) <;>
      simp [State.goto, Call.attempt, Call.sending, Call.parked]
  · rename_i barrier here
    split at next <;> cases next
    refine .same rfl rfl ?_ ?_ ?_ (by rw [here]; rfl) (by rw [here]; rfl) <;>
      simp [State.goto, Call.attempt, Call.sending, Call.parked]
  · rename_i barrier here
    cases next
    have idle : (s.calls id).attempt = none := by rw [here]; rfl
    have silent : (s.calls id).sending = false := by rw [here]; rfl
    unfold State.disableActions
    split
    · refine .same rfl rfl ?_ ?_ ?_ idle silent <;>
        simp [State.leave, Call.attempt, Call.sending, Call.parked]
    · cases target : s.card.state.target with
      | none =>
        refine .same rfl rfl ?_ ?_ ?_ idle silent <;>
          simp [State.leave, Call.attempt, Call.sending, Call.parked]
      | some message =>
        exact .begin idle (by rw [here]; rfl) rfl rfl (by rw [here]; rfl) rfl
          fun _ => by rw [target]; rfl
  · cases next

theorem effect_validated {valid : Bool} (next : s.validated id valid = some s') :
    Effect s (.validated id valid) s' id := by
  simp only [State.validated] at next
  split at next
  · rename_i number view here
    split at next <;> cases next
    · exact effect_write here
    · exact .leave (by rw [here]; rfl) (by rw [here]; rfl)
  · rename_i number view here
    split at next <;> cases next
    · exact .begin (by rw [here]; rfl) (by rw [here]; rfl) rfl rfl (by rw [here]; rfl) rfl
        fun wrong => by cases wrong
    · exact .leave (by rw [here]; rfl) (by rw [here]; rfl)
  · cases next

theorem effect_queued (next : s.queued id = some s') : Effect s (.queued id) s' id := by
  simp only [State.queued] at next
  split at next <;> cases next
  all_goals
    rename_i here
    exact .goto (by rw [here]; rfl) (by rw [here]; rfl) fun wrong => by cases wrong

/-- The call that a step is of. -/
def Label.call : Label → Nat
  | .reserve => 0
  | .update call _ _ | .disable call | .advance call | .validated call _ | .queued call
  | .dispatch call _ | .answered call _ | .cancel call => call

theorem calls_of_step (next : s.step label = some s') {other : Nat} (ne : other ≠ label.call) :
    s'.calls other = s.calls other := by
  have moved : ∀ {t : State} {call : Call}, t.calls = s.calls →
      (t.goto label.call call).calls other = s.calls other := fun same => by
    simp only [State.goto, update_of_ne ne, same]
  have left : ∀ {t : State}, t.calls = s.calls → (t.leave label.call).calls other = s.calls other :=
    fun same => by simp only [State.leave, update_of_ne ne, same]
  cases label <;> simp only [State.step] at next
  case reserve => cases next; rfl
  case update => split at next <;> cases next; exact moved rfl
  case disable => split at next <;> cases next; exact moved rfl
  case advance =>
    simp only [State.advance, State.disableActions] at next
    split at next
    all_goals first
      | (split at next <;> cases next <;> first | exact moved rfl | exact left rfl)
      | (cases next; first | exact moved rfl | skip)
    all_goals (repeat' split) <;> exact moved rfl
  case validated =>
    simp only [State.validated, State.write, State.send] at next
    split at next
    all_goals first | (split at next <;> cases next) | cases next
    all_goals (repeat' split) <;> exact moved rfl
  case queued =>
    simp only [State.queued] at next
    split at next <;> cases next <;> exact moved rfl
  case dispatch =>
    simp only [State.dispatch, State.dispatchUpdate] at next
    split at next <;> cases next
    all_goals (repeat' split) <;> exact moved rfl
  case answered =>
    simp only [State.answered, State.updateAnswered, State.sendAnswered,
      State.disableAnswered] at next
    split at next <;> cases next
    all_goals (repeat' split) <;> exact moved rfl
  case cancel =>
    simp only [State.cancel] at next
    split at next <;> cases next <;> exact left rfl

theorem effect_of_step (next : s.step label = some s') :
    Effect s label s' label.call := by
  cases label with
  | reserve =>
    cases next
    exact .keeps rfl rfl rfl rfl .inl
  | update call number view =>
    simp only [State.step] at next
    split at next <;> cases next
    rename_i ready
    exact .goto (by rw [ready.1]; rfl) (by rw [ready.1]; rfl) fun wrong => by cases wrong
  | disable call =>
    simp only [State.step] at next
    split at next <;> cases next
    rename_i idle
    refine .same rfl rfl ?_ ?_ ?_ (by simp only [Label.call]; rw [idle]; rfl)
      (by simp only [Label.call]; rw [idle]; rfl) <;>
      simp [State.goto, Label.call, Call.attempt, Call.sending, Call.parked]
  | advance call => exact effect_advance next
  | validated call valid => exact effect_validated next
  | queued call => exact effect_queued next
  | dispatch call valid => exact effect_dispatch next
  | answered call result => exact effect_answered next
  | cancel call => exact effect_cancel next

end

end Agentix.Cards
