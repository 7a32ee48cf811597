import Agentix.Cards.Isolation
import Agentix.Cards.Sound

/-! # Card writes

Whatever the interleaving, a card shows newer revisions only, and no button of an older revision
comes back once a disable has returned.
-/

namespace Agentix.Cards

open Lib List

/-- In every interleaving of reservations, updates and disables, the successful updates are
delivered in the order of their revisions.  What is delivered after a disable returned `Ok` has no
enabled action, unless its revision was reserved after that disable started. -/
theorem only_latest_state_is_shown {message : MessageRef} {s : State}
    (run : (card message).Reachable System.always s) :
    (s.log.filterMap Event.number).Pairwise (· ≤ ·) ∧
    ∀ before after disable barrier, s.log = before ++ .disabled disable barrier :: after →
      ∀ call number view, .updated call number view ∈ after → view.enabled = true →
        .reserved number ∈ s.log ∧
        ∀ earlier later, s.log = earlier ++ .reserved number :: later →
          .disabling disable ∈ earlier := by
  have sound := sound_of_reachable run
  refine ⟨sound.ordered, fun before after disable barrier split call number view member enabled =>
    ?_⟩
  have listed : .updated call number view ∈ s.log := by
    rw [split]
    exact mem_append_right _ (mem_cons_of_mem _ member)
  have returned : .disabled disable barrier ∈ s.log := by
    rw [split]
    exact mem_append_right _ mem_cons_self
  have bounded := sound.bounded call number view listed
  by_cases older : number ≤ barrier
  · have quiet := sound.quiet before after disable barrier split call number view member older
    rw [quiet] at enabled
    cases enabled
  · have follows := (sound.closed disable barrier returned).2.2
    exact ⟨(sound.reserved number).mpr ⟨by omega, bounded⟩, follows number (by omega)⟩

/-- A question with one button. -/
def question : OutboundView := ⟨"Approve?", [⟨"Yes", false⟩]⟩

def plainUpdate (call number : Nat) : List Label :=
  [.reserve, .update call number question, .advance call, .advance call, .advance call,
    .validated call true, .answered call (.ok "card")]

def shownAgain : List Label :=
  plainUpdate 0 1 ++
    [.disable 1, .advance 1, .advance 1, .advance 1, .advance 1, .answered 1 (.ok "card")] ++
    plainUpdate 2 2

theorem question_is_shown_again :
    ∃ s, shownAgain.foldlM State.step (.start "card") = some s ∧
      s.log = [.reserved 1, .updated 0 1 question, .disabling 1, .disabled 1 1, .reserved 2,
        .updated 2 2 question] ∧
      ∀ earlier later, s.log = earlier ++ .reserved 2 :: later → .disabling 1 ∈ earlier := by
  obtain ⟨s, steps, log⟩ : ∃ s, shownAgain.foldlM State.step (.start "card") = some s ∧
      s.log = [.reserved 1, .updated 0 1 question, .disabling 1, .disabled 1 1, .reserved 2,
        .updated 2 2 question] := ⟨_, rfl, rfl⟩
  have run : (card "card").Reachable System.always s := System.reachable_of_foldlM _ steps
  have shown := (only_latest_state_is_shown run).2
    [.reserved 1, .updated 0 1 question, .disabling 1] [.reserved 2, .updated 2 2 question] 1 1
    log 2 2 question (by simp) rfl
  exact ⟨s, steps, log, shown.2⟩

end Agentix.Cards

/-! # Uncertain writes

A message whose write may still happen is left alone, at most one message is sent without knowing,
and writes that certainly did not happen leave no trace.
-/

namespace Agentix.Cards

open Lib

/-- Once the outcome of a write to a message is unknown, the card never comes back to that message,
unless the channel names it as one that it has just sent; the registry keeps the card.  Once the
outcome of a replacement is unknown, nothing is sent any more, and every current update fails.
Without uncertain writes the card keeps its message.  A write that definitely failed, or was given
up before it was dispatched, leaves the card as it found it. -/
theorem uncertain_writes_are_isolated {message : MessageRef} :
    (∀ s label s' attempt, (card message).Reachable System.always s →
      s.step label = some s' → Uncertain s label attempt →
      (∀ target, attempt.previous = some target →
        ∀ t, (card message).Path (Spares target) s' t → ¬ t.Targets target) ∧
      (∀ t, (card message).Path System.always s' t → t.card.retain = true) ∧
      (attempt.replacement = true → ∀ t, (card message).Path System.always s' t →
        (∀ id, (t.calls id).attempt = none) ∧
        ∀ id number view, t.calls id = .update number view .validating →
          t.refusal = some (.transport "replacement card delivery is uncertain") ∧
            t.validated id true = some (t.leave id))) ∧
    (∀ s, (card message).Reachable Certain s → ∀ other, s.Targets other ↔ other = message) ∧
    ∀ s label s₁ s₂ undoing s₃ id, (card message).Reachable System.always s →
      s.step label = some s₁ → (s.calls id).attempt = none →
      ((s₁.calls id).attempt).isSome = true → (card message).Path (Writing id) s₁ s₂ →
      s₂.step undoing = some s₃ → Undone s₂ id undoing → s₃.card.state = s.card.state := by
  refine ⟨fun s label s' attempt run next uncertain => ?_, fun s run other => ?_, ?_⟩
  · have sound := sound_of_reachable run
    have isolated := isolated_of_reachable run
    have after : (card message).Reachable System.always s' := run.step trivial next
    have left := stranded next uncertain
    refine ⟨fun target _ t path => ?_, fun t path => ?_, fun replacement t path => ?_⟩
    · exact not_targets_of_path after path (left.not_targets isolated sound next)
    · exact ((left.retained isolated sound next).path after path).retain
    · have stuck := (left.stuck isolated sound next replacement).path path
      refine ⟨stuck.idle, fun id number view here => ?_⟩
      have refused : t.refusal = some (.transport "replacement card delivery is uncertain") :=
        if_pos stuck.uncertain
      exact ⟨refused, validated_of_refusal refused here⟩
  · have unchanged := unchanged_of_reachable run
    refine ⟨unchanged.only other, fun same => ?_⟩
    rw [same]
    exact unchanged.targets
  · intro s label s₁ s₂ undoing s₃ id run next idle begins path last undone
    obtain ⟨attempt, opened⟩ := Option.isSome_iff_exists.mp begins
    have found := found_of_begin (isolated_of_reachable run) next idle opened
    have after : (card message).Reachable System.always s₁ := run.step trivial next
    obtain ⟨attempt', opened', restored⟩ := restored_of_undone last undone
    rw [restored]
    exact found_of_path after found path attempt' opened'

/-- A call up to its write. -/
def opensWrite (call number : Nat) : List Label :=
  [.reserve, .update call number question, .advance call, .advance call, .advance call,
    .validated call true]

/-- The card's message is lost in an update. -/
def losesMessage : List Label := opensWrite 0 1 ++ [.cancel 0]

/-- A message is sent in its place. -/
def sendsAnother : List Label := losesMessage ++ opensWrite 1 2 ++ [.advance 1, .validated 1 true]

/-- An update is cancelled in flight, its replacement too, and the next update fails; an update that
is queued again and then cancelled leaves the card as it was. -/
theorem lost_messages_stay_lost :
    (∃ s s', (opensWrite 0 1).foldlM State.step (.start "card") = some s ∧
      s.step (.cancel 0) = some s' ∧ ¬ s'.Targets "card") ∧
    (∃ s s' t, sendsAnother.foldlM State.step (.start "card") = some s ∧
      s.step (.cancel 1) = some s' ∧
      ((opensWrite 2 3).dropLast).foldlM State.step s' = some t ∧
      t.refusal = some (.transport "replacement card delivery is uncertain")) ∧
    (State.start "card").Targets "card" ∧
    ∃ s s₁ s₂ s₃, ((opensWrite 0 1).dropLast).foldlM State.step (.start "card") = some s ∧
      s.step (.validated 0 true) = some s₁ ∧ s₁.step (.queued 0) = some s₂ ∧
      s₂.step (.cancel 0) = some s₃ ∧ s₃.card.state = s.card.state := by
  obtain ⟨lost, unchanged, restored⟩ := @uncertain_writes_are_isolated "card"
  refine ⟨⟨_, _, rfl, rfl, ?_⟩, ⟨_, _, _, rfl, rfl, rfl, ?_⟩,
    (unchanged _ .start "card").mpr rfl, ⟨_, _, _, _, rfl, rfl, rfl, rfl, ?_⟩⟩
  · refine (lost _ (.cancel 0) _ _ (System.reachable_of_foldlM (opensWrite 0 1) rfl) rfl
      (.cancelled rfl rfl)).1 "card" rfl _ .refl
  · refine (((lost _ (.cancel 1) _ _ (System.reachable_of_foldlM sendsAnother rfl) rfl
      (.cancelled rfl rfl)).2.2 rfl _
      (System.path_of_foldlM ((opensWrite 2 3).dropLast) rfl)).2 2 3 question rfl).1
  · refine restored _ (.validated 0 true) _ _ (.cancel 0) _ 0
      (System.reachable_of_foldlM ((opensWrite 0 1).dropLast) rfl) rfl rfl rfl
      (.single ⟨.queued 0, rfl, rfl⟩) rfl (.cancelled rfl rfl)

end Agentix.Cards
