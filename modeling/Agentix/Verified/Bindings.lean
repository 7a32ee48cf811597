import Agentix.Bindings.Transitions

/-! # Bindings and buttons

The bindings keep their shape over every run, and no button acts under a later attachment.
-/

namespace Agentix.Bindings

open Lib List Option
open Lib.System (always)

/-! ## Runs -/

theorem exclusive_of_run {world : World} (run : engine.Reachable always world) :
    world.table.Exclusive :=
  run.invariant (fun world => world.table.Exclusive) .empty fun _ _ exclusive next => by
    subst next
    exact exclusive_after exclusive _

theorem persisted_of_run {world : World} (run : engine.Reachable always world) :
    Persisted world.state :=
  run.invariant (fun world => Persisted world.state) .empty fun _ _ persisted next => by
    subst next
    exact (persisted_after persisted _).1

theorem advances_of_path {world world' : World} (run : engine.Reachable always world)
    (path : engine.Path always world world') : Advances world.state world'.state := by
  induction path with
  | refl => exact .refl _
  | tail before next ih =>
    obtain ⟨action, -, rfl⟩ := next
    have persisted := persisted_of_run (run.path before)
    exact ih.trans (persisted_after persisted action).2

theorem session_of_epoch {state state' : SqliteState} (persisted : Persisted state)
    (advances : Advances state state') {c : ConversationRef} {e : Nat} {s s' : SessionId}
    (before : ⟨c, s, e⟩ ∈ state.bindings) (after : ⟨c, s', e⟩ ∈ state'.bindings) : s' = s := by
  cases advances.fresh _ after with
  | inl kept => exact (BindingRow.mk.inj (persisted.conversations.eq_of_key kept before rfl)).2.1
  | inr greater =>
    have current := persisted.epochOf_eq before
    simp only at current greater
    omega

theorem route_unique {table : BindingTable} (exclusive : table.Exclusive) {session : SessionId}
    {importance importance' : EventImportance} {c c' : ConversationRef}
    {delivery delivery' : DeliveryClass} (first : table.route session importance = some (c, delivery))
    (second : table.route session importance' = some (c', delivery')) :
    c' = c ∧ ∀ other, table.byConversation other = some session → other = c := by
  simp only [BindingTable.route] at first second
  cases owner : table.bySession session with
  | some bound =>
    rw [owner] at first second
    cases first
    cases second
    refine ⟨rfl, fun other here => ?_⟩
    rw [(exclusive.inverse other session).mp here] at owner
    exact some.inj owner
  | none =>
    simp only [owner] at first second
    split at first
    · split at second
      · cases drains : table.draining session with
        | none => simp [drains] at first
        | some drained =>
          simp only [drains, map_some, some.injEq, Prod.mk.injEq] at first second
          refine ⟨second.1.symm.trans first.1, fun other here => ?_⟩
          rw [(exclusive.inverse other session).mp here] at owner
          cases owner
      · cases second
    · cases first

/-! ## The shape of the bindings -/

/-- The maps in memory are inverse, no session that drains is bound, the persisted rows are
unique under their epochs, and the persisted epochs grow.  A binding in memory has its persisted
epoch, if restarts find their waiting switches at the epoch they were saved at; then the epochs in
memory grow between restarts too, and no epoch of a conversation is bound to two sessions. -/
theorem bindings_keep_their_shape :
    (∀ world, engine.Reachable always world →
      (∀ c s, world.table.byConversation c = some s ↔ world.table.bySession s = some c) ∧
      (∀ s, (world.table.draining s).isSome → world.table.bySession s = none) ∧
      Distinct BindingRow.conversation world.state.bindings ∧
      Distinct BindingRow.session world.state.bindings ∧
      (∀ row ∈ world.state.bindings,
        world.state.bindingEpochs row.conversation = some row.epoch) ∧
      ∀ s importance importance' c c' delivery delivery',
        world.table.route s importance = some (c, delivery) →
        world.table.route s importance' = some (c', delivery') →
        c' = c ∧ ∀ other, world.table.byConversation other = some s → other = c) ∧
    (∀ world world', engine.Reachable always world → engine.Path always world world' →
      (∀ c, world.state.epochOf c ≤ world'.state.epochOf c) ∧
      ∀ c e s s', ⟨c, s, e⟩ ∈ world.state.bindings → ⟨c, s', e⟩ ∈ world'.state.bindings →
        s' = s) ∧
    (∀ world world', engine.Reachable restorable world → engine.Path restorable world world' →
      (∀ c s, world.table.byConversation c = some s →
        ⟨c, s, world.table.epoch c⟩ ∈ world.state.bindings) ∧
      ∀ c s s', world.table.byConversation c = some s → world'.table.byConversation c = some s' →
        world.table.epoch c ≤ world'.table.epoch c ∧
          (world'.table.epoch c = world.table.epoch c → s' = s)) ∧
    ∀ world action, engine.Reachable restorable world → ¬ action.isRestart →
      ∀ c, world.table.epoch c ≤ (world.after action).table.epoch c := by
  refine ⟨fun world run => ?_, fun world world' run path => ?_, fun world world' run path => ?_,
    fun world action run running c => ?_⟩
  · have exclusive := exclusive_of_run run
    have persisted := persisted_of_run run
    exact ⟨exclusive.inverse, exclusive.drained, persisted.conversations, persisted.sessions,
      persisted.epochs, fun _ _ _ _ _ _ _ => route_unique exclusive⟩
  · have advances := advances_of_path run path
    exact ⟨advances.epochs, fun _ _ _ _ => session_of_epoch (persisted_of_run run) advances⟩
  · have shape := shape_of_run run
    have shape' := shape_of_run (run.path path)
    have advances := advances_of_path (run.mono fun _ _ _ => trivial)
      (path.mono fun _ _ _ => trivial)
    refine ⟨shape.bound, fun c s s' bound bound' => ?_⟩
    have row := shape.bound c s bound
    have row' := shape'.bound c s' bound'
    have epoch := shape.persisted.epochOf_eq row
    have epoch' := shape'.persisted.epochOf_eq row'
    have grown := advances.epochs c
    simp only at epoch epoch'
    refine ⟨by omega, fun same => ?_⟩
    rw [same] at row'
    exact session_of_epoch shape.persisted advances row row'
  · exact (moves_after (shape_of_run run) _ running).epoch_le (shape_of_run run)

def World.played (world : World) (actions : List Action) : World :=
  actions.foldl World.after world

theorem path_played {condition : World → Action → Prop} :
    ∀ {world : World} {actions : List Action}, actions.Forall (∀ world, condition world ·) →
      engine.Path condition world (world.played actions)
  | _, [], _ => .refl
  | _, action :: rest, met =>
    have ⟨first, others⟩ := (forall_cons _ action rest).mp met
    .head ⟨action, first _, rfl⟩ (path_played others)

theorem reachable_played {actions : List Action} :
    engine.Reachable always (World.empty.played actions) :=
  .path .start (path_played (forall_iff_forall_mem.mpr fun _ _ _ => trivial))

def telegramChat : ConversationRef := ⟨.telegram, "1"⟩

def attached : World :=
  World.empty.played [.attach telegramChat "first" false]

example : attached.table.byConversation telegramChat = some "first" := by decide +kernel

/-- Another session is attached while a switch still waits, and then the process starts again. -/
def forgottenSwitch : List Action :=
  [.saveSwitch { id := "switch", conversation := telegramChat, oldSession := "first", epoch := 1 },
   .attach telegramChat "second" false,
   .restart fun _ => .attached]

/-- A restart forgets the epoch of a conversation that is detached.  It binds a conversation at the
epoch of its waiting switch, under which another session was bound before. -/
theorem restarts_reuse_epochs :
    (∃ world, engine.Reachable always world ∧
      (world.after (.restart fun _ => .attached)).table.epoch telegramChat <
        world.table.epoch telegramChat) ∧
    ∃ world world', engine.Reachable always world ∧ engine.Path always world world' ∧
      world.table.epoch telegramChat = world'.table.epoch telegramChat ∧
      world.table.byConversation telegramChat = some "first" ∧
      world'.table.byConversation telegramChat = some "second" := by
  constructor
  · refine ⟨attached.after (.detach telegramChat false), ?_, by decide +kernel⟩
    exact .step reachable_played trivial rfl
  · refine ⟨attached, attached.played forgottenSwitch, reachable_played, ?_, by decide +kernel⟩
    exact path_played (forall_iff_forall_mem.mpr fun _ _ _ => trivial)

def restartedBetween : List Action :=
  [.restart fun _ => .attached, .attach telegramChat "second" true]

/-- A conversation that is attached to two sessions in turn, with a restart before the second. -/
theorem second_session_has_its_own_epoch :
    (attached.played restartedBetween).table.epoch telegramChat ≠
      attached.table.epoch telegramChat := by
  have attach : ∀ world session, restorable world (.attach telegramChat session true) :=
    fun _ _ => nofun
  have restart : restorable attached (.restart fun _ => .attached) :=
    fun _ _ _ _ pending => nomatch pending
  have reachable : engine.Reachable restorable attached :=
    .step .start (show restorable .empty (.attach telegramChat "first" false) from nofun) rfl
  have path : engine.Path restorable attached (attached.played restartedBetween) :=
    .head ⟨_, restart, rfl⟩ (.head ⟨_, attach _ "second", rfl⟩ .refl)
  have bound := (bindings_keep_their_shape.2.2.1 _ _ reachable path).2 telegramChat "first" "second"
    (by decide +kernel) (by decide +kernel)
  exact fun same => absurd (bound.2 same) (by decide)

/-! ## Buttons -/

/-- Where a transition changes the session of a conversation, its epoch grows or its persisted
session resumes, unless an attachment of another conversation takes the session.  A token is
accepted only while its conversation is bound to the session it was issued under, in runs in which
no such attachment comes after the issue. -/
theorem buttons_act_under_their_attachment {T : Type} :
    (∀ world action, engine.Reachable restorable world → ¬ action.isRestart →
      ∀ c, ¬ world.takes c action →
        (world.after action).table.byConversation c ≠ world.table.byConversation c →
        world.table.epoch c < (world.after action).table.epoch c ∨
          (world.resumes c action ∧ world.table.byConversation c = none ∧
            ∃ session, (world.after action).table.byConversation c = some session ∧
              ⟨c, session, (world.after action).table.epoch c⟩ ∈ world.state.bindings)) ∧
    ∀ (buttons : Buttons T) token c ownerId connectionGeneration groupId value session,
      (buttonEngine T).Reachable restorablePress buttons →
      buttons.world.table.byConversation c = some session →
      ∀ between later, (buttonEngine T).Path (undisturbed c token)
        (buttons.issue token c ownerId connectionGeneration groupId value) between →
      (buttonEngine T).Path (undisturbed c token) between later →
      ∀ c' ownerId' connectionGeneration' value',
        (later.consume token c' ownerId' connectionGeneration').1 = .ok value' →
        c' = c ∧ between.world.table.byConversation c = some session := by
  refine ⟨fun world action run running c untaken differ => ?_, ?_⟩
  · have shape := shape_of_run run
    obtain greater | ⟨taken, -⟩ | resumed := (moves_after shape _ running).changed shape differ
    · exact .inl greater
    · exact absurd taken untaken
    · exact .inr resumed
  · intro buttons token c ownerId connectionGeneration groupId value session run bound between later
      path path' c' ownerId' connectionGeneration' value' consumed
    obtain ⟨action, found, conversation, epoch⟩ := Buttons.consume_ok consumed
    have shape := Buttons.shape_of_run run
    have issued : Shape (buttons.issue token c ownerId connectionGeneration groupId value).world :=
      shape
    obtain ⟨found', grown, -⟩ :=
      Buttons.epoch_path (Buttons.shape_path issued path) path' found
    obtain ⟨registered, grown', kept⟩ := Buttons.epoch_path issued path found'
    -- what was issued carries the epoch of that moment
    simp only [Buttons.issue, ActionRegistry.issue, Function.update_self, some.injEq]
      at registered
    subst registered
    subst conversation
    refine ⟨rfl, ?_⟩
    cases kept session bound with
    | inl still => exact still
    | inr greater =>
      simp only [Buttons.issue] at epoch grown' greater
      omega

def Buttons.played {T : Type} (buttons : Buttons T) (presses : List (Press T)) : Buttons T :=
  presses.foldl Buttons.after buttons

theorem reachable_pressed {T : Type} {condition : Buttons T → Press T → Prop}
    {buttons : Buttons T} (run : (buttonEngine T).Reachable condition buttons) :
    ∀ {presses : List (Press T)}, (∀ press ∈ presses, ∀ buttons, condition buttons press) →
      (buttonEngine T).Reachable condition (buttons.played presses)
  | [], _ => run
  | press :: _, met =>
    reachable_pressed (run.step (met press mem_cons_self buttons) rfl)
      fun other mem => met other (mem_cons_of_mem _ mem)

def slackChat : ConversationRef := ⟨.slack, "2"⟩

def attachPress (conversation : ConversationRef) (session : SessionId) : Press Unit :=
  .transition (.attach conversation session false)

def stopButton : Press Unit := .issue "token" telegramChat "owner" 0 "group" ()

example : (Buttons.empty : Buttons Unit).world.table.epoch telegramChat = 0 := by decide +kernel

/-- A resumed session comes back under the epoch of its suspension.  A button of a conversation
whose session another conversation took is still accepted. -/
theorem taken_session_keeps_its_buttons :
    (∃ world session, engine.Reachable restorable world ∧
      (world.after (.resume session)).table.byConversation telegramChat ≠
        world.table.byConversation telegramChat ∧
      (world.after (.resume session)).table.epoch telegramChat =
        world.table.epoch telegramChat) ∧
    ∃ buttons : Buttons Unit, (buttonEngine Unit).Reachable restorablePress buttons ∧
      (buttons.after stopButton).world.table.byConversation telegramChat = some "first" ∧
      ((buttons.after stopButton).after (attachPress slackChat "first")).world.table.byConversation
        telegramChat = none ∧
      (((buttons.after stopButton).after (attachPress slackChat "first")).consume "token"
        telegramChat "owner" 0).1 = .ok () := by
  constructor
  · refine ⟨attached.after (.exit "first"), "first", ?_, by decide +kernel⟩
    have attach : engine.Reachable restorable attached :=
      .step .start (show restorable .empty (.attach telegramChat "first" false) from nofun) rfl
    exact attach.step (show restorable attached (.exit "first") from nofun) rfl
  · refine ⟨Buttons.empty.played [attachPress telegramChat "first"], ?_, ?_⟩
    · refine reachable_pressed .start fun press member buttons => ?_
      rw [mem_singleton.mp member]
      exact nofun
    · exact ⟨by decide +kernel, by decide +kernel, rfl⟩

/-- A button of a conversation that is bound, accepted after another session was attached
elsewhere. -/
theorem stop_button_accepted :
    (((Buttons.empty.played [attachPress telegramChat "first"]).after stopButton).played
      [attachPress slackChat "second"]).world.table.byConversation telegramChat = some "first" := by
  have attach : ∀ (buttons : Buttons Unit) conversation session,
      restorablePress buttons (attachPress conversation session) := fun _ _ _ => nofun
  have run : (buttonEngine Unit).Reachable restorablePress
      (Buttons.empty.played [attachPress telegramChat "first"]) :=
    .step .start (attach .empty telegramChat "first") rfl
  have path : (buttonEngine Unit).Path (undisturbed telegramChat "token")
      ((Buttons.empty.played [attachPress telegramChat "first"]).after stopButton)
      (((Buttons.empty.played [attachPress telegramChat "first"]).after stopButton).played
        [attachPress slackChat "second"]) := by
    refine .single ⟨attachPress slackChat "second", ⟨nofun, ?_⟩, rfl⟩
    exact fun taken => absurd taken.2 (by decide +kernel)
  exact (buttons_act_under_their_attachment.2 _ "token" telegramChat "owner" 0 "group" () "first" run
    (by decide +kernel) _ _ path .refl telegramChat "owner" 0 () rfl).2

end Agentix.Bindings
