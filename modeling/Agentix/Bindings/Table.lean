import Mathlib.Logic.Function.Basic

/-! # The binding table and the action registry

Which conversation is attached to which session, in memory, and the buttons whose tokens carry the
epoch of an attachment.  A hash map is a partial function.
-/

namespace Agentix.Bindings

open Function (update)

inductive ChannelKind where
  | telegram
  | feishu
  | slack
  deriving DecidableEq

structure ConversationRef where
  channel : ChannelKind
  conversationId : String
  deriving DecidableEq

abbrev SessionId := String

inductive EventImportance where
  | stream
  | critical
  deriving DecidableEq

inductive DeliveryClass where
  | live
  | draining
  deriving DecidableEq

structure AttachOutcome where
  previousSession : Option SessionId
  displacedConversation : Option ConversationRef
  epoch : Nat
  deriving DecidableEq

/-- Maintains the one-current-session-per-conversation and one-conversation-per-session
invariants.  Epochs start as `i64` of the database and stay far below the bound of `u64`. -/
structure BindingTable where
  byConversation : ConversationRef → Option SessionId
  bySession : SessionId → Option ConversationRef
  draining : SessionId → Option ConversationRef
  epochs : ConversationRef → Option Nat

namespace BindingTable

/-- `BindingTable::default`. -/
def empty : BindingTable :=
  ⟨fun _ => none, fun _ => none, fun _ => none, fun _ => none⟩

def currentSession (table : BindingTable) (conversation : ConversationRef) : Option SessionId :=
  table.byConversation conversation

def boundConversation (table : BindingTable) (session : SessionId) : Option ConversationRef :=
  table.bySession session

def epoch (table : BindingTable) (conversation : ConversationRef) : Nat :=
  (table.epochs conversation).getD 0

def leave (table : BindingTable) (conversation : ConversationRef) (active : Bool) : BindingTable :=
  match table.byConversation conversation with
  | none => table
  | some previous =>
    { table with
      byConversation := update table.byConversation conversation none
      bySession := update table.bySession previous none
      draining := update table.draining previous (if active then some conversation else none) }

def displace (table : BindingTable) (session : SessionId) : BindingTable :=
  match table.bySession session with
  | none => table
  | some displaced =>
    { table with
      bySession := update table.bySession session none
      byConversation := update table.byConversation displaced none }

def attach (table : BindingTable) (conversation : ConversationRef) (session : SessionId)
    (previousSessionActive : Bool) : AttachOutcome × BindingTable :=
  if table.byConversation conversation = some session then
    (⟨none, none, table.epoch conversation⟩, table)
  else
    let previousSession := table.byConversation conversation
    let left := table.leave conversation previousSessionActive
    let displacedConversation := left.bySession session
    let free := left.displace session
    let epoch := free.epoch conversation + 1
    ({ previousSession, displacedConversation, epoch },
      { byConversation := update free.byConversation conversation (some session)
        bySession := update free.bySession session (some conversation)
        draining := update free.draining session none
        epochs := update free.epochs conversation (some epoch) })

def attachAtEpoch (table : BindingTable) (conversation : ConversationRef) (session : SessionId)
    (previousSessionActive : Bool) (epoch : Nat) : AttachOutcome × BindingTable :=
  let (outcome, table) := table.attach conversation session previousSessionActive
  ({ outcome with epoch }, { table with epochs := update table.epochs conversation (some epoch) })

def route (table : BindingTable) (session : SessionId) (importance : EventImportance) :
    Option (ConversationRef × DeliveryClass) :=
  match table.bySession session with
  | some conversation => some (conversation, .live)
  | none =>
    if importance = .critical then
      (table.draining session).map fun conversation => (conversation, .draining)
    else none

def finishDraining (table : BindingTable) (session : SessionId) : BindingTable :=
  { table with draining := update table.draining session none }

def detach (table : BindingTable) (conversation : ConversationRef) (keepDraining : Bool) :
    Option SessionId × BindingTable :=
  match table.byConversation conversation with
  | none => (none, table)
  | some session =>
    (some session,
      { byConversation := update table.byConversation conversation none
        bySession := update table.bySession session none
        draining := if keepDraining then update table.draining session (some conversation)
          else table.draining
        epochs := update table.epochs conversation (some (table.epoch conversation + 1)) })

end BindingTable

/-! ## Actions -/

structure ActionScope where
  conversation : ConversationRef
  ownerId : String
  connectionGeneration : Nat
  bindingEpoch : Nat
  groupId : String
  deriving DecidableEq

inductive ActionTokenError where
  | unknown
  | routeMismatch
  | staleConnection
  | staleBinding
  deriving DecidableEq

structure RegisteredAction (T : Type) where
  scope : ActionScope
  value : T

/-- Stores opaque, single-use UI actions and validates their complete execution scope. -/
structure ActionRegistry (T : Type) where
  actions : String → Option (RegisteredAction T)

namespace ActionRegistry

variable {T : Type}

/-- The token is drawn by the caller. -/
def issue (registry : ActionRegistry T) (token : String) (scope : ActionScope) (value : T) :
    ActionRegistry T :=
  ⟨update registry.actions token (some ⟨scope, value⟩)⟩

def retain (registry : ActionRegistry T) (keep : RegisteredAction T → Bool) : ActionRegistry T :=
  ⟨fun token => (registry.actions token).filter keep⟩

def revokeGroup (registry : ActionRegistry T) (groupId : String) : ActionRegistry T :=
  registry.retain fun action => action.scope.groupId ≠ groupId

def consume (registry : ActionRegistry T) (token : String) (conversation : ConversationRef)
    (ownerId : String) (connectionGeneration bindingEpoch : Nat) :
    Except ActionTokenError T × ActionRegistry T :=
  match registry.actions token with
  | none => (.error .unknown, registry)
  | some registered =>
    if registered.scope.conversation ≠ conversation ∨ registered.scope.ownerId ≠ ownerId then
      (.error .routeMismatch, registry)
    else if registered.scope.connectionGeneration ≠ connectionGeneration then
      (.error .staleConnection, registry)
    else if registered.scope.bindingEpoch ≠ bindingEpoch then
      (.error .staleBinding, registry)
    else
      (.ok registered.value,
        (ActionRegistry.mk (update registry.actions token none)).revokeGroup
          registered.scope.groupId)

/-- A consumed token was registered for the conversation at the epoch it was consumed at. -/
theorem consume_ok {registry registry' : ActionRegistry T} {token ownerId : String}
    {conversation : ConversationRef} {connectionGeneration bindingEpoch : Nat} {value : T}
    (consumed : registry.consume token conversation ownerId connectionGeneration bindingEpoch =
      (.ok value, registry')) :
    ∃ registered, registry.actions token = some registered ∧
      registered.scope.conversation = conversation ∧
      registered.scope.bindingEpoch = bindingEpoch := by
  unfold consume at consumed
  split at consumed
  · cases consumed
  · rename_i registered found
    split at consumed
    · cases consumed
    · rename_i route
      split at consumed
      · cases consumed
      · split at consumed
        · cases consumed
        · rename_i current
          rw [not_or, not_not] at route
          exact ⟨registered, found, route.1, not_not.mp current⟩

end ActionRegistry

example : BindingTable.empty.currentSession ⟨.slack, "c"⟩ = none := by decide +kernel

end Agentix.Bindings

/-! # Exclusive bindings

The two maps of the binding table stay inverse to each other, and no session that drains is bound.
-/

namespace Agentix.Bindings

open Function

open Function (update)

namespace BindingTable

variable {table : BindingTable} {conversation c : ConversationRef} {session s : SessionId}
  {active : Bool}

/-! ## What the operations leave -/

@[simp] theorem leave_byConversation :
    (table.leave conversation active).byConversation c =
      if c = conversation then none else table.byConversation c := by
  unfold leave
  split
  · rename_i unbound
    split
    · rename_i same
      rw [same, unbound]
    · rfl
  · exact update_apply _ _ _ _

@[simp] theorem leave_bySession :
    (table.leave conversation active).bySession s =
      if table.byConversation conversation = some s then none else table.bySession s := by
  unfold leave
  split
  · rename_i unbound
    simp [unbound]
  · rename_i previous bound
    simp [bound, update_apply, eq_comm]

@[simp] theorem leave_draining :
    (table.leave conversation active).draining s =
      if table.byConversation conversation = some s then
        if active then some conversation else none
      else table.draining s := by
  unfold leave
  split
  · rename_i unbound
    simp [unbound]
  · rename_i previous bound
    simp [bound, update_apply, eq_comm]

@[simp] theorem leave_epochs : (table.leave conversation active).epochs = table.epochs := by
  unfold leave
  split <;> rfl

@[simp] theorem displace_byConversation :
    (table.displace session).byConversation c =
      if table.bySession session = some c then none else table.byConversation c := by
  unfold displace
  split
  · rename_i unbound
    simp [unbound]
  · rename_i displaced bound
    simp [bound, update_apply, eq_comm]

@[simp] theorem displace_bySession :
    (table.displace session).bySession s = if s = session then none else table.bySession s := by
  unfold displace
  split
  · rename_i unbound
    split
    · rename_i same
      rw [same, unbound]
    · rfl
  · exact update_apply _ _ _ _

@[simp] theorem displace_draining : (table.displace session).draining = table.draining := by
  unfold displace
  split <;> rfl

@[simp] theorem displace_epochs : (table.displace session).epochs = table.epochs := by
  unfold displace
  split <;> rfl

theorem attach_bound (bound : table.byConversation conversation = some session) :
    table.attach conversation session active =
      (⟨none, none, table.epoch conversation⟩, table) := if_pos bound

theorem attach_new (active : Bool) (new : table.byConversation conversation ≠ some session) :
    (∀ c, (table.attach conversation session active).2.byConversation c =
      if c = conversation then some session
      else if table.bySession session = some c then none else table.byConversation c) ∧
    (∀ s, (table.attach conversation session active).2.bySession s =
      if s = session then some conversation
      else if table.byConversation conversation = some s then none else table.bySession s) ∧
    (∀ s, (table.attach conversation session active).2.draining s =
      if s = session then none
      else if table.byConversation conversation = some s then
        if active then some conversation else none
      else table.draining s) ∧
    (table.attach conversation session active).2.epochs =
      update table.epochs conversation (some (table.epoch conversation + 1)) := by
  simp only [attach, if_neg new]
  refine ⟨fun c => ?_, fun s => ?_, fun s => ?_, ?_⟩
  · simp only [update_apply, displace_byConversation, leave_bySession, if_neg new,
      leave_byConversation]
    split
    · rfl
    · split <;> rfl
  · simp only [update_apply, displace_bySession, leave_bySession]
    split <;> rfl
  · simp only [update_apply, displace_draining, leave_draining]
  · simp only [displace_epochs, leave_epochs, epoch]

theorem attachAtEpoch_epoch {at_ : Nat} :
    (table.attachAtEpoch conversation session active at_).2.epoch c =
      if c = conversation then at_ else table.epoch c := by
  by_cases bound : table.byConversation conversation = some session
  · simp only [attachAtEpoch, attach_bound bound, epoch, update_apply]
    split <;> rfl
  · obtain ⟨-, -, -, epochs⟩ := attach_new active bound
    simp only [attachAtEpoch, epoch, epochs, update_apply]
    split <;> rfl

/-! ## What they keep -/

structure Exclusive (table : BindingTable) : Prop where
  inverse : ∀ c s, table.byConversation c = some s ↔ table.bySession s = some c
  drained : ∀ s, (table.draining s).isSome → table.bySession s = none

theorem Exclusive.empty : Exclusive empty := by
  constructor <;> simp [BindingTable.empty]

theorem Exclusive.attach (exclusive : Exclusive table) :
    Exclusive (table.attach conversation session active).2 := by
  by_cases bound : table.byConversation conversation = some session
  · rw [attach_bound bound]
    exact exclusive
  · obtain ⟨byConversation, bySession, draining, -⟩ := attach_new active bound
    have inverse := exclusive.inverse
    have drained := exclusive.drained
    constructor
    · intro c s
      rw [byConversation, bySession]
      have c_session := inverse c session
      have c_s := inverse c s
      have conversation_s := inverse conversation s
      grind
    · intro s
      rw [draining, bySession]
      have leaves := inverse conversation s
      have drains := drained s
      grind

theorem Exclusive.withEpochs (exclusive : Exclusive table) (epochs : ConversationRef → Option Nat) :
    Exclusive { table with epochs } :=
  ⟨exclusive.inverse, exclusive.drained⟩

theorem Exclusive.attachAtEpoch (exclusive : Exclusive table) {at_ : Nat} :
    Exclusive (table.attachAtEpoch conversation session active at_).2 :=
  exclusive.attach.withEpochs _

theorem Exclusive.finishDraining (exclusive : Exclusive table) :
    Exclusive (table.finishDraining session) := by
  refine ⟨exclusive.inverse, fun s drains => exclusive.drained s ?_⟩
  simp only [BindingTable.finishDraining, update_apply] at drains
  split at drains
  · cases drains
  · exact drains

theorem Exclusive.detach (exclusive : Exclusive table) :
    Exclusive (table.detach conversation active).2 := by
  unfold BindingTable.detach
  split
  · exact exclusive
  · rename_i session bound
    have inverse := exclusive.inverse
    have drained := exclusive.drained
    constructor
    · intro c s
      simp only [update_apply]
      have c_s := inverse c s
      have conversation_s := inverse conversation s
      have c_session := inverse c session
      grind
    · intro s
      have drains := drained s
      cases active <;> simp only [update_apply] <;> grind

end BindingTable

end Agentix.Bindings
