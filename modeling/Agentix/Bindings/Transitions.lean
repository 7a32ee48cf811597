import Agentix.Bindings.Shape

/-! # The transitions of the engine are moves -/

namespace Agentix.Bindings

open Lib List Option

def World.takes (world : World) (c : ConversationRef) : Action → Prop
  | .attach conversation session _ =>
    c ≠ conversation ∧ world.table.byConversation c = some session
  | _ => False

def World.resumes (world : World) (c : ConversationRef) : Action → Prop
  | .resume session => ∃ row, world.state.rowOfSession session = some row ∧ row.conversation = c
  | _ => False

def Action.isRestart : Action → Prop
  | .restart _ => True
  | _ => False

variable {world : World} {conversation c : ConversationRef} {session : SessionId} {active : Bool}

namespace World

theorem handleSessionExit_cases (world : World) (session : SessionId) :
    world.handleSessionExit session = world ∨
      ∃ conversation epoch state', world.state.suspend conversation = some (epoch, state') ∧
        world.handleSessionExit session = ⟨(world.table.detach conversation false).2, state'⟩ := by
  unfold handleSessionExit
  split
  · exact .inl rfl
  · rename_i conversation bound
    split
    · exact .inl rfl
    · split
      · exact .inl rfl
      · rename_i epoch state' suspended
        exact .inr ⟨conversation, epoch, state', suspended, rfl⟩

theorem handleSessionResume_cases (persisted : Persisted world.state) (session : SessionId) :
    world.handleSessionResume session = world ∨
      ∃ row, world.state.rowOfSession session = some row ∧
        world.handleSessionResume session =
          ⟨(world.table.attachAtEpoch row.conversation session false row.epoch).2,
            world.state⟩ := by
  unfold handleSessionResume
  split
  · exact .inl rfl
  · rename_i row found
    have epoch : world.state.bindingEpoch row.conversation = some row.epoch := by
      rw [SqliteState.bindingEpoch,
        persisted.rowOf_eq (SqliteState.mem_of_rowOfSession found).1 rfl, map_some]
    rw [epoch]
    split
    · exact .inl rfl
    · exact .inr ⟨row, found, rfl⟩

theorem replaceSession_cases (world : World) (switch : SessionSwitch) (target : SessionId) :
    world.replaceSession switch target = world ∨
      ∃ next state', SqliteState.Completed world.state state' switch next target ∧
        world.replaceSession switch target =
          ⟨(world.table.attachAtEpoch next.conversation target false next.epoch).2, state'⟩ := by
  unfold replaceSession
  split
  · exact .inl rfl
  · rename_i next state' ok
    exact .inr ⟨next, state', SqliteState.completed ok, rfl⟩

/-- What a restored binding leaves: the table, or a row that is gone with its conversation. -/
theorem restoreBinding_cases (world : World) (status : RestoredBindingStatus)
    (conversation : ConversationRef) (session : SessionId) :
    (world.restoreBinding status conversation session).state = world.state ∨
      (world.restoreBinding status conversation session) =
        { world with state := world.state.detach conversation } := by
  unfold restoreBinding
  split
  · exact .inl rfl
  · split
    · exact .inr rfl
    · split
      · exact .inl rfl
      · exact .inl rfl

end World

/-! ## Moves -/

namespace Moves

variable {taken resumed : ConversationRef → Prop}

theorem refl (world : World) : Moves taken resumed world world :=
  .same rfl rfl id rfl rfl

theorem commitBinding (shape : Shape world)
    (takes : ∀ c, c ≠ conversation → world.table.byConversation c = some session → taken c) :
    Moves taken resumed world (world.commitBinding conversation session active) := by
  have row : ⟨conversation, session, world.state.epochOf conversation + 1⟩ ∈
      (world.state.attach conversation session).2.bindings := SqliteState.mem_attach.mpr (.inr rfl)
  change Moves taken resumed world ⟨(world.table.attachAtEpoch conversation session active
    (world.state.attach conversation session).1.epoch).2, _⟩
  rw [SqliteState.attach_epoch]
  exact .bind shape.persisted.attach .attach row (Nat.lt_succ_self _)
    (fun row mem other apart => SqliteState.mem_attach.mpr (.inl ⟨mem, other, apart⟩)) takes

theorem epochOf_bumped {state state' : SqliteState}
    (epochs : state'.bindingEpochs = SqliteState.bumped state.bindingEpochs conversation) :
    state.epochOf conversation < state'.epochOf conversation := by
  simp [SqliteState.epochOf, epochs, SqliteState.bumped_self]

theorem commitDetach (shape : Shape world) :
    Moves taken resumed world (world.commitDetach conversation active) :=
  .release shape.persisted.detach .detach (epochOf_bumped rfl)
    fun _ mem other => SqliteState.mem_detach.mpr ⟨mem, other⟩

theorem handleSessionExit (shape : Shape world) :
    Moves taken resumed world (world.handleSessionExit session) := by
  obtain same | ⟨conversation, epoch, state', suspended, eq⟩ :=
    world.handleSessionExit_cases session
  · rw [same]
    exact .refl world
  · rw [eq]
    exact .release (shape.persisted.suspend suspended) (.suspend suspended)
      (epochOf_bumped (SqliteState.suspend_bindingEpochs suspended))
      fun _ mem other => (SqliteState.mem_suspend suspended).mpr (.inl ⟨mem, other⟩)

theorem handleSessionResume (shape : Shape world)
    (resumes : ∀ row, world.state.rowOfSession session = some row → resumed row.conversation) :
    Moves taken resumed world (world.handleSessionResume session) := by
  obtain same | ⟨row, found, eq⟩ := World.handleSessionResume_cases shape.persisted session
  · rw [same]
    exact .refl world
  · rw [eq]
    obtain ⟨mem, here⟩ := SqliteState.mem_of_rowOfSession found
    refine .rebind ?_ (resumes row found)
    rw [← here]
    exact mem

theorem replaceSession (shape : Shape world) {switch : SessionSwitch} {target : SessionId} :
    Moves taken resumed world (world.replaceSession switch target) := by
  obtain same | ⟨next, state', completed, eq⟩ := world.replaceSession_cases switch target
  · rw [same]
    exact .refl world
  · rw [eq, completed.conversation, completed.epoch]
    have epoch : world.state.epochOf switch.conversation = switch.epoch :=
      shape.persisted.epochOf_eq completed.old
    refine .bind (shape.persisted.completeSessionSwitch completed)
      (.completeSessionSwitch shape.persisted completed) ?_ ?_ ?_ ?_
    · rw [completed.bindings, mem_alter]
      exact ⟨_, completed.old, .inl ⟨rfl, rfl⟩⟩
    · omega
    · intro row mem other _
      rw [completed.bindings, mem_alter]
      exact ⟨row, mem, .inr ⟨other, rfl⟩⟩
    · -- the target is persisted for no conversation, so none is bound to it
      intro c _ bound
      exact absurd rfl (completed.free _ (shape.bound c target bound))

theorem saveSessionSwitch {switch : SessionSwitch} :
    Moves taken resumed world
      { world with state := (world.state.saveSessionSwitch switch).2 } :=
  .same rfl rfl id SqliteState.saveSessionSwitch_kept.1 SqliteState.saveSessionSwitch_kept.2

theorem restoreBinding (shape : Shape world) {row : BindingRow} (mem : row ∈ world.state.bindings)
    (unbound : world.table.byConversation row.conversation = none)
    (current : ∀ switch, World.pendingSwitch world.state row.conversation = some switch →
      switch.epoch = row.epoch) (status : RestoredBindingStatus) :
    Moves taken (fun _ => True) world
      (world.restoreBinding status row.conversation row.session) := by
  unfold World.restoreBinding
  split
  · rename_i switch pending
    rw [current switch pending]
    exact .rebind mem trivial
  · split
    · have table : (world.table.detach row.conversation false).2 = world.table := by
        simp [BindingTable.detach, unbound]
      have moves : Moves taken (fun _ => True) world
          ⟨(world.table.detach row.conversation false).2,
            world.state.detach row.conversation⟩ := commitDetach shape
      rw [table] at moves
      exact moves
    · have epoch : world.state.bindingEpoch row.conversation = some row.epoch := by
        rw [SqliteState.bindingEpoch, shape.persisted.rowOf_eq mem rfl, map_some]
      rw [epoch]
      exact .rebind mem trivial

end Moves

theorem moves_after (shape : Shape world) (action : Action) (running : ¬ action.isRestart) :
    Moves (world.takes · action) (world.resumes · action) world (world.after action) := by
  cases action with
  | attach conversation session previousActive =>
    exact .commitBinding shape fun c other bound => ⟨other, bound⟩
  | detach conversation active => exact .commitDetach shape
  | exit session => exact .handleSessionExit shape
  | resume session => exact .handleSessionResume shape fun row found => ⟨row, found, rfl⟩
  | saveSwitch switch => exact .saveSessionSwitch
  | deleteSwitch switch => exact .same rfl rfl id rfl rfl
  | replace switch target => exact .replaceSession shape
  | finishDraining session => exact .same rfl rfl (·.finishDraining) rfl rfl
  | restart status => exact absurd trivial running

/-! ## Restarts -/

/-- Every binding with a switch that waits for its target was saved at the epoch it still has. -/
def World.restorable (world : World) : Prop :=
  ∀ row ∈ world.state.bindings, ∀ switch,
    World.pendingSwitch world.state row.conversation = some switch → switch.epoch = row.epoch

theorem Shape.forgotten (shape : Shape world) : Shape { world with table := .empty } where
  exclusive := .empty
  persisted := shape.persisted
  bound _ _ here := nomatch here
  behind _ := Nat.zero_le _

theorem Shape.empty : Shape .empty where
  exclusive := .empty
  persisted := .empty
  bound _ _ here := nomatch here
  behind _ := Nat.zero_le _

/-- The invariant of the loop over the persisted bindings. -/
theorem restoreEach_shape (status : ConversationRef → RestoredBindingStatus) :
    ∀ (rows : List BindingRow) (world : World), Shape world →
      (∀ row ∈ rows, row ∈ world.state.bindings) → Distinct BindingRow.conversation rows →
      (∀ row ∈ rows, world.table.byConversation row.conversation = none) →
      (∀ row ∈ rows, ∀ switch,
        World.pendingSwitch world.state row.conversation = some switch →
          switch.epoch = row.epoch) →
      Shape (World.restoreEach status rows world)
  | [], _, shape, _, _, _, _ => shape
  | row :: rest, world, shape, there, distinct, unbound, current => by
    have moves : Moves (fun _ => False) (fun _ => True) world
        (world.restoreBinding (status row.conversation) row.conversation row.session) :=
      .restoreBinding shape (there row mem_cons_self) (unbound row mem_cons_self)
        (current row mem_cons_self) _
    obtain ⟨apart, distinct'⟩ := nodup_cons.mp distinct
    have other : ∀ later ∈ rest, later.conversation ≠ row.conversation :=
      fun later here same => apart (same ▸ mem_map_of_mem here)
    have switches : ∀ c, World.pendingSwitch (world.restoreBinding (status row.conversation)
        row.conversation row.session).state c = World.pendingSwitch world.state c := by
      intro c
      obtain same | detached := world.restoreBinding_cases (status row.conversation)
        row.conversation row.session
      · rw [same]
      · rw [detached]
        rfl
    refine restoreEach_shape status rest _ (moves.shape shape) (fun later here => ?_) distinct'
      (fun later here => ?_) (fun later here switch pending => ?_)
    · have mem := there later (mem_cons_of_mem _ here)
      obtain same | detached := world.restoreBinding_cases (status row.conversation)
        row.conversation row.session
      · rw [same]
        exact mem
      · rw [detached]
        exact SqliteState.mem_detach.mpr ⟨mem, other later here⟩
    · have before := unbound later (mem_cons_of_mem _ here)
      unfold World.restoreBinding
      split
      · simp [BindingTable.attachAtEpoch_byConversation shape.exclusive, other later here, before]
      · split
        · exact before
        · split
          · exact before
          · simp [BindingTable.attachAtEpoch_byConversation shape.exclusive, other later here,
              before]
    · exact current later (mem_cons_of_mem _ here) switch ((switches _).symm.trans pending)

theorem restart_shape (shape : Shape world) (restorable : world.restorable)
    (status : ConversationRef → RestoredBindingStatus) : Shape (world.restart status) :=
  restoreEach_shape status _ _ shape.forgotten (fun _ mem => mem)
    shape.persisted.conversations (fun _ _ => rfl) restorable

/-! ## Every transition, whatever a restart finds -/

theorem restoreBinding_exclusive (exclusive : world.table.Exclusive)
    (status : RestoredBindingStatus) :
    (world.restoreBinding status conversation session).table.Exclusive := by
  unfold World.restoreBinding
  split
  · exact exclusive.attachAtEpoch
  · split
    · exact exclusive
    · split
      · exact exclusive
      · exact exclusive.attachAtEpoch

theorem restoreEach_exclusive (status : ConversationRef → RestoredBindingStatus) :
    ∀ (rows : List BindingRow) (world : World), world.table.Exclusive →
      (World.restoreEach status rows world).table.Exclusive
  | [], _, exclusive => exclusive
  | _ :: rest, _, exclusive =>
    restoreEach_exclusive status rest _ (restoreBinding_exclusive exclusive _)

theorem exclusive_after (exclusive : world.table.Exclusive) (action : Action) :
    (world.after action).table.Exclusive := by
  cases action with
  | attach => exact exclusive.attachAtEpoch
  | detach => exact exclusive.detach
  | exit session =>
    obtain same | ⟨_, _, _, -, eq⟩ := world.handleSessionExit_cases session
    · simpa only [World.after, same] using exclusive
    · simpa only [World.after, eq] using exclusive.detach
  | resume session =>
    simp only [World.after, World.handleSessionResume]
    split
    · exact exclusive
    · split
      · exact exclusive
      · split
        · exact exclusive
        · exact exclusive.attachAtEpoch
  | saveSwitch => exact exclusive
  | deleteSwitch => exact exclusive
  | replace switch target =>
    obtain same | ⟨_, _, -, eq⟩ := world.replaceSession_cases switch target
    · simpa only [World.after, same] using exclusive
    · simpa only [World.after, eq] using exclusive.attachAtEpoch
  | finishDraining => exact exclusive.finishDraining
  | restart status => exact restoreEach_exclusive status _ _ .empty

theorem restoreEach_persisted (status : ConversationRef → RestoredBindingStatus) :
    ∀ (rows : List BindingRow) (world : World), Persisted world.state →
      Persisted (World.restoreEach status rows world).state ∧
        Advances world.state (World.restoreEach status rows world).state
  | [], _, persisted => ⟨persisted, .refl _⟩
  | row :: rest, world, persisted => by
    have next : Persisted (world.restoreBinding (status row.conversation) row.conversation
          row.session).state ∧
        Advances world.state (world.restoreBinding (status row.conversation) row.conversation
          row.session).state := by
      obtain same | detached := world.restoreBinding_cases (status row.conversation)
        row.conversation row.session
      · rw [same]
        exact ⟨persisted, .refl _⟩
      · rw [detached]
        exact ⟨persisted.detach, .detach⟩
    obtain ⟨persisted', advances⟩ := restoreEach_persisted status rest _ next.1
    exact ⟨persisted', next.2.trans advances⟩

theorem persisted_after (persisted : Persisted world.state) (action : Action) :
    Persisted (world.after action).state ∧ Advances world.state (world.after action).state := by
  cases action with
  | attach => exact ⟨persisted.attach, .attach⟩
  | detach => exact ⟨persisted.detach, .detach⟩
  | exit session =>
    obtain same | ⟨_, _, _, suspended, eq⟩ := world.handleSessionExit_cases session
    · simpa only [World.after, same] using And.intro persisted (.refl _)
    · simpa only [World.after, eq] using
        And.intro (persisted.suspend suspended) (.suspend suspended)
  | resume session =>
    obtain same | ⟨_, _, eq⟩ := World.handleSessionResume_cases persisted session
    · simpa only [World.after, same] using And.intro persisted (.refl _)
    · simpa only [World.after, eq] using And.intro persisted (.refl _)
  | saveSwitch switch =>
    obtain ⟨bindings, epochs⟩ := world.state.saveSessionSwitch_kept 
    exact ⟨persisted.of_kept bindings epochs, .of_kept bindings epochs⟩
  | deleteSwitch => exact ⟨persisted.of_kept rfl rfl, .of_kept rfl rfl⟩
  | replace switch target =>
    obtain same | ⟨_, _, completed, eq⟩ := world.replaceSession_cases switch target
    · simpa only [World.after, same] using And.intro persisted (.refl _)
    · simpa only [World.after, eq] using And.intro (persisted.completeSessionSwitch completed)
        (.completeSessionSwitch persisted completed)
  | finishDraining => exact ⟨persisted, .refl _⟩
  | restart status => exact restoreEach_persisted status _ _ persisted

end Agentix.Bindings

/-! # Buttons

The registry of the actions beside the bindings.  Tokens are issued and consumed under the epoch
that the table holds at that moment; a new process starts with an empty registry.
-/

namespace Agentix.Bindings

open Lib Option Function

structure Buttons (T : Type) where
  world : World
  registry : ActionRegistry T

inductive Press (T : Type) where
  | transition (action : Action)
  | issue (token : String) (conversation : ConversationRef) (ownerId : String)
      (connectionGeneration : Nat) (groupId : String) (value : T)
  | retain (keep : RegisteredAction T → Bool)
  | consume (token : String) (conversation : ConversationRef) (ownerId : String)
      (connectionGeneration : Nat)

namespace Buttons

variable {T : Type}

def empty : Buttons T := ⟨.empty, ⟨fun _ => none⟩⟩

def issue (buttons : Buttons T) (token : String) (conversation : ConversationRef)
    (ownerId : String) (connectionGeneration : Nat) (groupId : String) (value : T) : Buttons T :=
  let bindingEpoch := buttons.world.table.epoch conversation
  let scope : ActionScope :=
    { conversation, ownerId, connectionGeneration, bindingEpoch, groupId }
  { buttons with registry := buttons.registry.issue token scope value }

/-- `Engine::handle_action` up to the action it found. -/
def consume (buttons : Buttons T) (token : String) (conversation : ConversationRef)
    (ownerId : String) (connectionGeneration : Nat) :
    Except ActionTokenError T × Buttons T :=
  let bindingEpoch := buttons.world.table.epoch conversation
  let (action, registry) :=
    buttons.registry.consume token conversation ownerId connectionGeneration bindingEpoch
  (action, { buttons with registry })

def after (buttons : Buttons T) : Press T → Buttons T
  | .transition action =>
    { world := buttons.world.after action
      registry := match action with
        | .restart _ => ⟨fun _ => none⟩
        | _ => buttons.registry }
  | .issue token conversation ownerId connectionGeneration groupId value =>
    buttons.issue token conversation ownerId connectionGeneration groupId value
  | .retain keep => { buttons with registry := buttons.registry.retain keep }
  | .consume token conversation ownerId connectionGeneration =>
    (buttons.consume token conversation ownerId connectionGeneration).2

end Buttons

/-- Bindings and buttons, one transition at a time. -/
def buttonEngine (T : Type) : System (Buttons T) (Press T) where
  start := .empty
  step buttons press buttons' := buttons' = buttons.after press

/-- A restart finds its waiting switches at the epoch they were saved at. -/
def restorable (world : World) (action : Action) : Prop :=
  action.isRestart → world.restorable

/-- The same of the transitions between the presses. -/
def restorablePress {T : Type} (buttons : Buttons T) : Press T → Prop
  | .transition action => restorable buttons.world action
  | _ => True

/-- Such a transition that neither takes the session of the conversation away nor draws the token
once more. -/
def undisturbed {T : Type} (conversation : ConversationRef) (token : String)
    (buttons : Buttons T) : Press T → Prop
  | .transition action =>
    restorable buttons.world action ∧ ¬ buttons.world.takes conversation action
  | .issue other _ _ _ _ _ => other ≠ token
  | _ => True

theorem shape_after {world : World} (shape : Shape world) {action : Action}
    (met : restorable world action) : Shape (world.after action) := by
  by_cases restart : action.isRestart
  · cases action with
    | restart status => exact restart_shape shape (met trivial) status
    | _ => exact absurd restart id
  · exact (moves_after shape _ restart).shape shape

theorem shape_of_run {world : World} (run : engine.Reachable restorable world) : Shape world :=
  run.invariant Shape .empty fun _ met shape next => by
    subst next
    exact shape_after shape met

namespace Buttons

variable {T : Type} {buttons buttons' : Buttons T} {press : Press T} {token : String}
  {conversation : ConversationRef}

variable {action : RegisteredAction T}

theorem shape_after (shape : Shape buttons.world) (met : restorablePress buttons press) :
    Shape (buttons.after press).world := by
  cases press with
  | transition action => exact Bindings.shape_after shape met
  | issue => exact shape
  | retain => exact shape
  | consume => exact shape

theorem restorablePress_of_undisturbed (met : undisturbed conversation token buttons press) :
    restorablePress buttons press := by
  cases press with
  | transition action => exact met.1
  | _ => trivial

theorem shape_of_run (run : (buttonEngine T).Reachable restorablePress buttons) :
    Shape buttons.world :=
  run.invariant (fun buttons => Shape buttons.world) .empty fun _ met shape next => by
    subst next
    exact shape_after shape met

/-- A registered token that was not just drawn was registered before, in the same process. -/
theorem registered_before (met : undisturbed conversation token buttons press)
    (found : (buttons.after press).registry.actions token = some action) :
    buttons.registry.actions token = some action ∧
      ∀ status, press ≠ .transition (.restart status) := by
  cases press with
  | transition label =>
    cases label with
    | restart status => exact nomatch found
    | _ => exact ⟨found, fun _ => nofun⟩
  | issue other =>
    simp only [after, issue, ActionRegistry.issue, update_of_ne (Ne.symm met)] at found
    exact ⟨found, fun _ => nofun⟩
  | retain keep =>
    simp only [after, ActionRegistry.retain, filter_eq_some_iff] at found
    exact ⟨found.1, fun _ => nofun⟩
  | consume other =>
    refine ⟨?_, fun _ => nofun⟩
    simp only [after, consume, ActionRegistry.consume] at found
    split at found
    · exact found
    · split at found
      · exact found
      · split at found
        · exact found
        · split at found
          · exact found
          · simp only [ActionRegistry.revokeGroup, ActionRegistry.retain,
              filter_eq_some_iff, update_apply] at found
            split at found
            · exact nomatch found.1
            · exact found.1

theorem epoch_after (shape : Shape buttons.world)
    (met : undisturbed conversation token buttons press)
    (found : (buttons.after press).registry.actions token = some action) :
    buttons.world.table.epoch conversation ≤ (buttons.after press).world.table.epoch conversation ∧
      (∀ session, buttons.world.table.byConversation conversation = some session →
        (buttons.after press).world.table.byConversation conversation = some session ∨
          buttons.world.table.epoch conversation <
            (buttons.after press).world.table.epoch conversation) := by
  obtain ⟨-, running⟩ := registered_before met found
  cases press with
  | transition label =>
    have moves := moves_after shape label (by
      cases label with
      | restart status => exact absurd rfl (running status)
      | _ => exact id)
    refine ⟨moves.epoch_le shape, fun session bound => ?_⟩
    by_cases kept : (buttons.world.after label).table.byConversation conversation =
        buttons.world.table.byConversation conversation
    · exact .inl (kept.trans bound)
    · obtain greater | ⟨taken, -⟩ | ⟨-, unbound, -⟩ := moves.changed shape kept
      · exact .inr greater
      · exact absurd taken met.2
      · rw [bound] at unbound
        cases unbound
  | issue => exact ⟨Nat.le_refl _, fun _ => .inl⟩
  | retain => exact ⟨Nat.le_refl _, fun _ => .inl⟩
  | consume => exact ⟨Nat.le_refl _, fun _ => .inl⟩

theorem shape_path {later : Buttons T} (shape : Shape buttons.world)
    (path : (buttonEngine T).Path (undisturbed conversation token) buttons later) :
    Shape later.world := by
  induction path with
  | refl => exact shape
  | tail _ next ih =>
    obtain ⟨press, met, rfl⟩ := next
    exact shape_after ih (restorablePress_of_undisturbed met)

theorem epoch_path {later : Buttons T} (shape : Shape buttons.world)
    (path : (buttonEngine T).Path (undisturbed conversation token) buttons later)
    (found : later.registry.actions token = some action) :
    buttons.registry.actions token = some action ∧
      buttons.world.table.epoch conversation ≤ later.world.table.epoch conversation ∧
      (∀ session, buttons.world.table.byConversation conversation = some session →
        later.world.table.byConversation conversation = some session ∨
          buttons.world.table.epoch conversation < later.world.table.epoch conversation) := by
  induction path with
  | refl => exact ⟨found, Nat.le_refl _, fun _ => .inl⟩
  | tail before next ih =>
    obtain ⟨press, met, rfl⟩ := next
    obtain ⟨found', grown, kept⟩ := ih (registered_before met found).1
    obtain ⟨grown', kept'⟩ := epoch_after (shape_path shape before) met found
    refine ⟨found', Nat.le_trans grown grown', fun session bound => ?_⟩
    cases kept session bound with
    | inl bound' =>
      cases kept' session bound' with
      | inl bound'' => exact .inl bound''
      | inr greater => exact .inr (by omega)
    | inr greater => exact .inr (by omega)

theorem consume_ok {ownerId : String} {connectionGeneration : Nat} {value : T}
    (consumed : (buttons.consume token conversation ownerId connectionGeneration).1 = .ok value) :
    ∃ action, buttons.registry.actions token = some action ∧
      action.scope.conversation = conversation ∧
      action.scope.bindingEpoch = buttons.world.table.epoch conversation :=
  ActionRegistry.consume_ok (Prod.ext consumed rfl)

end Buttons

end Agentix.Bindings
