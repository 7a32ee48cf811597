import Agentix.Claude.Sent

/-! # Prompts of a Claude session are sent at most once -/

namespace Agentix.Claude

open Lib List Option

variable {V : Type}

namespace State

/-! ## The log grows -/

section Log

variable (s : State V) {ids : List RequestId} {id : RequestId} {turnId : TurnId} {saved : Bool}

variable {text : JsString} {s' : State V}

@[simp] theorem save_log : (s.save ids).log = s.log := rfl

@[simp] theorem note_log {event : Event} : (s.note event).log = s.log ++ [event] := rfl

@[simp] theorem setReceipt_log {receipt : Receipt} : (s.setReceipt id receipt).log = s.log := rfl

@[simp] theorem alterTurn_log {f : Turn V → Turn V} : (s.alterTurn turnId f).log = s.log := rfl

@[simp] theorem mark_log {state : ReceiptState} : (s.mark id turnId state).log = s.log := by
  unfold mark
  split
  · rfl
  · split <;> rfl

theorem begin_log {request : Option RequestId}
    (begun : s.begin request text turnId ids saved = some s') :
    s'.log = s.log ++ [.began request turnId] := by
  unfold State.begin at begun
  split at begun
  · cases begun
    rfl
  · cases begun

theorem prompt_log : s.log <+: (s.prompt id text saved).log := by
  unfold State.prompt
  split
  · exact prefix_refl _
  · split
    · exact prefix_refl _
    · cases s.receipts.get id with
      | some old =>
        dsimp only
        split
        · exact prefix_refl _
        · split
          · exact prefix_append ..
          · exact prefix_refl _
      | none =>
        dsimp only
        split
        · exact prefix_refl _
        · split <;> exact prefix_refl _

theorem sendFails_log {number : Nat} {notSent : Bool}
    (next : s.sendFails number notSent saved = some s') : s.log <+: s'.log := by
  unfold State.sendFails at next
  obtain ⟨send, -, rfl⟩ := map_eq_some_iff.mp next
  dsimp only
  split
  · exact prefix_append ..
  · split_ifs <;> simp

theorem acknowledge_log : s.log <+: (s.acknowledge id saved).log := by
  unfold State.acknowledge
  split
  · exact prefix_refl _
  · split
    · exact prefix_refl _
    · exact prefix_append ..
    all_goals
      split
      · exact prefix_refl _
      · dsimp only
        split
        · exact prefix_refl _
        · rename_i begun
          rw [note_log, begin_log _ begun, append_assoc]
          exact prefix_append ..

theorem reply_log : (s.reply id text saved).log = s.log := by
  unfold State.reply
  split
  · rfl
  · split_ifs <;> rfl

theorem closing_log {event : HookEvent} {transcript : Except Unit (Option (Transcript V))} :
    (s.closing event transcript saved).log = s.log := by
  unfold State.closing
  split
  · split <;> rfl
  · rfl

theorem submitted_log {usesPromptHook : Bool} {prompt : Option JsString} :
    s.log <+: (s.submitted usesPromptHook prompt saved).log := by
  unfold State.submitted
  dsimp only
  split
  · exact s.acknowledge_log
  · split
    · exact prefix_refl _
    · rename_i begun
      rw [begin_log _ begun]
      exact prefix_append ..

theorem hook_log {usesPromptHook : Bool} {event : HookEvent}
    {transcript : Except Unit (Option (Transcript V))} :
    s.log <+: (s.hook usesPromptHook event transcript saved).log := by
  unfold State.hook
  split
  · split <;> exact prefix_refl _
  · split
    · exact prefix_refl _
    · split
      · split
        · exact prefix_refl _
        · exact s.submitted_log
      · exact s.closing_log.symm ▸ prefix_refl _
      · exact s.closing_log.symm ▸ prefix_refl _
      · exact s.closing_log.symm ▸ prefix_refl _
      · exact prefix_refl _

theorem queueClear_log : s.log <+: (s.queueClear saved).log := by
  unfold State.queueClear
  split_ifs
  · exact prefix_refl _
  · exact prefix_refl _
  · exact prefix_append ..
  · exact prefix_refl _

theorem close_log : (s.close saved).log = s.log := by
  unfold State.close
  dsimp only
  split <;> rfl

theorem runMicrotask_log (next : s.runMicrotask = some s') : s.log <+: s'.log := by
  unfold State.runMicrotask at next
  obtain ⟨send, -, rfl⟩ := map_eq_some_iff.mp next
  exact prefix_append ..

variable {s} {s' : State V} {usesPromptHook : Bool} {label : Step V}

theorem run_log (next : s.run usesPromptHook label = some s') : s.log <+: s'.log := by
  cases label with
  | prompt id text saved =>
    cases next
    exact s.prompt_log
  | microtask => cases next
  | sendEnds number =>
    unfold State.run State.sendEnds at next
    obtain ⟨send, -, rfl⟩ := map_eq_some_iff.mp next
    exact prefix_refl _
  | sendFails number notSent saved => exact s.sendFails_log next
  | timeout id saved =>
    unfold State.run State.timeout at next
    obtain ⟨turnId, -, rfl⟩ := map_eq_some_iff.mp next
    dsimp only
    split <;> simp
  | acknowledge id saved =>
    cases next
    exact s.acknowledge_log
  | reply id text saved =>
    cases next
    exact s.reply_log.symm ▸ prefix_refl _
  | hook event transcript saved =>
    cases next
    exact s.hook_log
  | queueClear saved =>
    cases next
    exact s.queueClear_log
  | close saved =>
    cases next
    exact s.close_log.symm ▸ prefix_refl _
  | restart =>
    cases next
    exact prefix_refl _

theorem step_log (next : s.step usesPromptHook label = some s') : s.log <+: s'.log := by
  unfold State.step at next
  split at next
  · exact s.runMicrotask_log next
  · cases next
    exact prefix_refl _
  · cases next
  · exact run_log next

theorem path_log {initial : List (Turn V)}
    (path : (system usesPromptHook initial).Path System.always s s') : s.log <+: s'.log := by
  induction path with
  | refl => exact prefix_refl _
  | tail _ next ih =>
    obtain ⟨label, -, stepped⟩ := next
    exact ih.trans (step_log stepped)

end Log

/-! ## Main result -/

structure SentOnce (usesPromptHook : Bool) (initial : List (Turn V)) (s : State V) : Prop where
  starts : Started s.log
  begins : BeganOnce s.log
  /-- Every answer for a request has the turn that began for it. -/
  answers : ∀ id turnId, .answered id turnId ∈ s.log → .began (some id) turnId ∈ s.log
  /-- A cleared receipt stays cleared. -/
  cleared : ∀ later, (system usesPromptHook initial).Path System.always s later →
    ∀ id receipt, s.receipts.get id = some receipt → receipt.state = .cleared →
      ∃ still, later.receipts.get id = some still ∧ still.state = .cleared

theorem prompts_are_sent_at_most_once (usesPromptHook : Bool) (initial : List (Turn V))
    (s : State V) (run : (system usesPromptHook initial).Reachable System.always s) :
    s.SentOnce usesPromptHook initial := by
  have sound := sound_of_reachable run
  refine ⟨sound.started, sound.beganOnce, fun id turnId => (sound.tracks id).answered, ?_⟩
  intro later path id receipt held state
  have noted : .cleared id ∈ s.log := (sound.tracks id).cleared.mpr ⟨receipt, held, state⟩
  have kept : .cleared id ∈ later.log := (path_log path).subset noted
  exact ((sound_of_reachable (run.path path)).tracks id).cleared.mp kept

/-- A delivery fails with `notSent`, and the process of the second one is killed before its prompt
is acknowledged. -/
def resent : List (Step Unit) :=
  [.hook ⟨.sessionStart, [7], none, none⟩ (.error ()) true, .prompt [1] [104] true, .microtask,
    .sendFails 0 true true, .prompt [1] [104] true, .microtask, .restart,
    .hook ⟨.sessionStart, [7], none, none⟩ (.error ()) true, .acknowledge [1] true]

theorem resent_prompt_begins_once : ∃ s : State Unit, s.SentOnce false [] ∧
    s.log = [.started 0 ⟨[1], [104], .random 0⟩ [] none, .failed 0 true,
      .started 1 ⟨[1], [104], .random 1⟩ [] none, .began (some [1]) (.random 1),
      .answered [1] (.random 1)] := by
  have ends : (resent.foldlM (step false) (start [])).map State.log =
      some [.started 0 ⟨[1], [104], .random 0⟩ [] none, .failed 0 true,
        .started 1 ⟨[1], [104], .random 1⟩ [] none, .began (some [1]) (.random 1),
        .answered [1] (.random 1)] := by rfl
  obtain ⟨s, ran, log⟩ := map_eq_some_iff.mp ends
  exact ⟨s, prompts_are_sent_at_most_once false [] s (System.reachable_of_foldlM _ ran), log⟩

end State

end Agentix.Claude
