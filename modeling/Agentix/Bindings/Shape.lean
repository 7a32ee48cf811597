import Agentix.Bindings.Engine
import Agentix.Bindings.Table

/-! # The shape of the bindings

The persisted rows name each conversation and each session once and carry the epoch of their
conversation; a binding in memory is persisted under its epoch.
-/

namespace Agentix.Bindings

open Lib List Option Function

variable {conversation c : ConversationRef} {session s : SessionId} {active : Bool}

/-! ## Persisted rows -/

structure Persisted (state : SqliteState) : Prop where
  conversations : Distinct BindingRow.conversation state.bindings
  sessions : Distinct BindingRow.session state.bindings
  epochs : ∀ row ∈ state.bindings, state.bindingEpochs row.conversation = some row.epoch

/-- Epochs only grow, and a row that was not there before carries an epoch that was not either. -/
structure Advances (state state' : SqliteState) : Prop where
  epochs : ∀ c, state.epochOf c ≤ state'.epochOf c
  fresh : ∀ row ∈ state'.bindings, row ∈ state.bindings ∨
    state.epochOf row.conversation < row.epoch

theorem Advances.refl (state : SqliteState) : Advances state state :=
  ⟨fun _ => Nat.le_refl _, fun _ mem => .inl mem⟩

theorem Advances.trans {a b d : SqliteState} (first : Advances a b) (second : Advances b d) :
    Advances a d := by
  refine ⟨fun c => Nat.le_trans (first.epochs c) (second.epochs c), fun row mem => ?_⟩
  cases second.fresh row mem with
  | inl kept => exact first.fresh row kept
  | inr greater => exact .inr (Nat.lt_of_le_of_lt (first.epochs _) greater)

namespace SqliteState

variable {state state' : SqliteState}

variable {row : BindingRow}

theorem bumped_self (epochs : ConversationRef → Option Nat) :
    bumped epochs conversation conversation = some ((epochs conversation).getD 0 + 1) := by
  cases h : epochs conversation <;> simp [bumped, h]

theorem bumped_other (epochs : ConversationRef → Option Nat) (other : c ≠ conversation) :
    bumped epochs conversation c = epochs c :=
  update_of_ne other _ _

theorem mem_of_rowOfSession (found : state.rowOfSession session = some row) :
    row ∈ state.bindings ∧ row.session = session :=
  rowOf_some found

theorem mem_attach :
    row ∈ (state.attach conversation session).2.bindings ↔
      (row ∈ state.bindings ∧ row.conversation ≠ conversation ∧ row.session ≠ session) ∨
        row = ⟨conversation, session, state.epochOf conversation + 1⟩ := by
  simp only [attach, epochOf, bumped_self, getD_some, mem_append, mem_filter,
    mem_singleton, decide_eq_true_eq, and_assoc]

theorem attach_epoch :
    (state.attach conversation session).1.epoch = state.epochOf conversation + 1 := by
  simp only [attach, epochOf, bumped_self, getD_some]

theorem attach_bindingEpochs :
    (state.attach conversation session).2.bindingEpochs =
      bumped state.bindingEpochs conversation := rfl

theorem mem_detach :
    row ∈ (state.detach conversation).bindings ↔
      row ∈ state.bindings ∧ row.conversation ≠ conversation := by
  simp only [detach, mem_filter, decide_eq_true_eq]

theorem mem_suspend {epoch : Nat} (suspended : state.suspend conversation = some (epoch, state')) :
    row ∈ state'.bindings ↔
      (row ∈ state.bindings ∧ row.conversation ≠ conversation) ∨
        ∃ old ∈ state.bindings, old.conversation = conversation ∧
          row = { old with epoch := state.epochOf conversation + 1 } := by
  simp only [suspend, bumped_self, getD_some] at suspended
  split at suspended
  · cases suspended
  · cases suspended
    rw [mem_alter]
    constructor
    · rintro ⟨old, mem, ⟨same, rfl⟩ | ⟨other, rfl⟩⟩
      · exact .inr ⟨old, mem, same, rfl⟩
      · exact .inl ⟨mem, other⟩
    · rintro (⟨mem, other⟩ | ⟨old, mem, same, rfl⟩)
      · exact ⟨row, mem, .inr ⟨other, rfl⟩⟩
      · exact ⟨old, mem, .inl ⟨same, rfl⟩⟩

theorem suspend_bindingEpochs {epoch : Nat}
    (suspended : state.suspend conversation = some (epoch, state')) :
    state'.bindingEpochs = bumped state.bindingEpochs conversation := by
  simp only [suspend] at suspended
  split at suspended
  · cases suspended
  · cases suspended
    rfl

theorem saveSessionSwitch_kept {switch : SessionSwitch} :
    (state.saveSessionSwitch switch).2.bindings = state.bindings ∧
      (state.saveSessionSwitch switch).2.bindingEpochs = state.bindingEpochs := by
  simp only [saveSessionSwitch]
  split
  · split <;> exact ⟨rfl, rfl⟩
  · split <;> exact ⟨rfl, rfl⟩

/-- What a completed switch found and what it leaves. -/
structure Completed (state state' : SqliteState) (switch next : SessionSwitch)
    (target : SessionId) : Prop where
  old : ⟨switch.conversation, switch.oldSession, switch.epoch⟩ ∈ state.bindings
  free : ∀ row ∈ state.bindings, row.session ≠ target
  conversation : next.conversation = switch.conversation
  epoch : next.epoch = switch.epoch + 1
  bindings : state'.bindings = alter BindingRow.conversation switch.conversation
    (fun row => { row with session := target, epoch := row.epoch + 1 }) state.bindings
  bindingEpochs : state'.bindingEpochs = update state.bindingEpochs switch.conversation
    ((state.bindingEpochs switch.conversation).map (· + 1))

theorem completed {switch next : SessionSwitch} {target : SessionId}
    (ok : state.completeSessionSwitch switch target = some (next, state')) :
    Completed state state' switch next target := by
  simp only [completeSessionSwitch] at ok
  split at ok
  · rename_i switchable
    cases ok
    simp only [SqliteState.switchable, Bool.and_eq_true, List.any_eq_true, List.all_eq_true,
      decide_eq_true_eq] at switchable
    obtain ⟨⟨⟨row, mem, ⟨same, old⟩, epoch⟩, free⟩, -⟩ := switchable
    refine ⟨?_, free, rfl, rfl, rfl, rfl⟩
    rw [← same, ← old, ← epoch]
    exact mem
  · cases ok

end SqliteState

open SqliteState

namespace Persisted

variable {state state' : SqliteState}

theorem empty : Persisted SqliteState.empty := by
  constructor <;> simp [SqliteState.empty, Distinct]

theorem of_kept (persisted : Persisted state) (bindings : state'.bindings = state.bindings)
    (epochs : state'.bindingEpochs = state.bindingEpochs) : Persisted state' := by
  constructor
  · exact bindings ▸ persisted.conversations
  · exact bindings ▸ persisted.sessions
  · rw [bindings, epochs]
    exact persisted.epochs

theorem rowOf_eq (persisted : Persisted state) {row : BindingRow} (mem : row ∈ state.bindings)
    (same : row.conversation = conversation) : state.rowOf conversation = some row :=
  same ▸ persisted.conversations.rowOf_eq_some mem

theorem epochOf_eq (persisted : Persisted state) {row : BindingRow}
    (mem : row ∈ state.bindings) : state.epochOf row.conversation = row.epoch := by
  rw [epochOf, persisted.epochs row mem, getD_some]

theorem attach (persisted : Persisted state) :
    Persisted (state.attach conversation session).2 := by
  constructor
  · refine ((persisted.conversations.filter _).filter _).append fun row mem => ?_
    simp only [mem_filter, decide_eq_true_eq] at mem
    exact mem.1.2
  · refine ((persisted.sessions.filter _).filter _).append fun row mem => ?_
    simp only [mem_filter, decide_eq_true_eq] at mem
    exact mem.2
  · intro row mem
    rw [attach_bindingEpochs]
    obtain ⟨old, other, -⟩ | rfl := mem_attach.mp mem
    · rw [bumped_other _ other]
      exact persisted.epochs row old
    · exact bumped_self _

theorem detach (persisted : Persisted state) : Persisted (state.detach conversation) := by
  refine ⟨persisted.conversations.filter _, persisted.sessions.filter _, fun row mem => ?_⟩
  obtain ⟨old, other⟩ := mem_detach.mp mem
  exact (bumped_other _ other).trans (persisted.epochs row old)

theorem suspend (persisted : Persisted state) {epoch : Nat}
    (suspended : state.suspend conversation = some (epoch, state')) : Persisted state' := by
  have rows : ∀ row, row ∈ state'.bindings ↔ _ := fun _ => mem_suspend suspended
  have epochs := suspend_bindingEpochs suspended
  simp only [SqliteState.suspend] at suspended
  split at suspended
  · cases suspended
  · cases suspended
    refine ⟨persisted.conversations.alter fun _ _ => rfl, persisted.sessions.alter fun _ _ => rfl,
      fun row mem => ?_⟩
    rw [epochs]
    obtain ⟨old, other⟩ | ⟨old, -, same, rfl⟩ := (rows row).mp mem
    · rw [bumped_other _ other]
      exact persisted.epochs row old
    · simp only [same, bumped_self, epochOf]

theorem completeSessionSwitch (persisted : Persisted state) {switch next : SessionSwitch}
    {target : SessionId} (completed : Completed state state' switch next target) :
    Persisted state' := by
  have alone : ∀ row ∈ state.bindings, row.conversation = switch.conversation →
      row = ⟨switch.conversation, switch.oldSession, switch.epoch⟩ := fun row mem same =>
    persisted.conversations.eq_of_key mem completed.old same
  constructor
  · rw [completed.bindings]
    exact persisted.conversations.alter fun _ _ => rfl
  · -- only one row has the conversation, and no row has its target
    rw [completed.bindings, Distinct, alter, List.map_map]
    refine List.Nodup.map_on ?_ persisted.conversations.of_map
    intro a ha b hb same
    simp only [comp_apply] at same
    split at same <;> split at same
    · rename_i a_here b_here
      rw [alone a ha a_here, alone b hb b_here]
    · exact absurd same.symm (completed.free b hb)
    · exact absurd same (completed.free a ha)
    · exact persisted.sessions.eq_of_key ha hb same
  · intro row mem
    rw [completed.bindings, mem_alter] at mem
    rw [completed.bindingEpochs]
    obtain ⟨old, there, ⟨same, rfl⟩ | ⟨other, rfl⟩⟩ := mem
    · have epochs := persisted.epochs old there
      rw [same] at epochs
      simp only [same, update_self, epochs, map_some]
    · rw [update_of_ne other]
      exact persisted.epochs row there

end Persisted

/-! ## What the transactions advance -/

namespace Advances

variable {state state' : SqliteState}

theorem of_bumped (epochs : state'.bindingEpochs = bumped state.bindingEpochs conversation)
    (fresh : ∀ row ∈ state'.bindings, row ∈ state.bindings ∨
      row.conversation = conversation ∧ row.epoch = state.epochOf conversation + 1) :
    Advances state state' := by
  refine ⟨fun c => ?_, fun row mem => ?_⟩
  · by_cases same : c = conversation
    · subst same
      simp [epochOf, epochs, bumped_self]
    · simp [epochOf, epochs, bumped_other _ same]
  · obtain old | ⟨same, epoch⟩ := fresh row mem
    · exact .inl old
    · right
      rw [same]
      omega

theorem attach : Advances state (state.attach conversation session).2 := by
  refine of_bumped rfl fun row mem => ?_
  obtain ⟨old, -⟩ | rfl := mem_attach.mp mem
  · exact .inl old
  · exact .inr ⟨rfl, rfl⟩

theorem detach : Advances state (state.detach conversation) :=
  of_bumped rfl fun _ mem => .inl (mem_detach.mp mem).1

theorem suspend {epoch : Nat} (suspended : state.suspend conversation = some (epoch, state')) :
    Advances state state' := by
  refine of_bumped (suspend_bindingEpochs suspended) fun row mem => ?_
  obtain ⟨old, -⟩ | ⟨old, -, same, rfl⟩ := (mem_suspend suspended).mp mem
  · exact .inl old
  · exact .inr ⟨same, rfl⟩

theorem of_kept (bindings : state'.bindings = state.bindings)
    (epochs : state'.bindingEpochs = state.bindingEpochs) : Advances state state' := by
  refine ⟨fun c => Nat.le_of_eq ?_, fun row mem => .inl (bindings ▸ mem)⟩
  rw [epochOf, epochOf, epochs]

theorem completeSessionSwitch (persisted : Persisted state) {switch next : SessionSwitch}
    {target : SessionId} (completed : Completed state state' switch next target) :
    Advances state state' := by
  have epoch := persisted.epochs _ completed.old
  refine ⟨fun c => ?_, fun row mem => ?_⟩
  · rw [epochOf, epochOf, completed.bindingEpochs]
    by_cases same : c = switch.conversation
    · subst same
      simp [epoch]
    · simp [update_of_ne same]
  · rw [completed.bindings, mem_alter] at mem
    obtain ⟨old, there, ⟨same, rfl⟩ | ⟨-, rfl⟩⟩ := mem
    · right
      have greater := persisted.epochOf_eq there
      simp only [greater]
      omega
    · exact .inl there

end Advances

end Agentix.Bindings

/-! # Moves

Every transition of the engine binds one conversation under an epoch that was not used before,
binds it again to its persisted session, or releases it.  A restart forgets the table and binds
the persisted sessions again.
-/

namespace Agentix.Bindings

open Lib Option Function
open Function (update)

namespace BindingTable

variable {table : BindingTable} {conversation c : ConversationRef} {session s : SessionId}
  {active : Bool}

theorem attachAtEpoch_byConversation (exclusive : Exclusive table) {epoch : Nat} :
    (table.attachAtEpoch conversation session active epoch).2.byConversation c =
      if c = conversation then some session
      else if table.bySession session = some c then none else table.byConversation c := by
  by_cases bound : table.byConversation conversation = some session
  · have owner := (exclusive.inverse _ _).mp bound
    simp only [attachAtEpoch, attach_bound bound, owner, some.injEq]
    split
    · rename_i same
      rw [same, bound]
    · rename_i other
      rw [if_neg (Ne.symm other)]
  · exact (attach_new active bound).1 c

@[simp] theorem detach_byConversation :
    (table.detach conversation active).2.byConversation c =
      if c = conversation then none else table.byConversation c := by
  unfold detach
  split
  · rename_i unbound
    split
    · rename_i same
      rw [same, unbound]
    · rfl
  · exact update_apply _ _ _ _

theorem detach_epoch_of_bound (bound : table.byConversation conversation = some session) :
    (table.detach conversation active).2.epoch conversation = table.epoch conversation + 1 := by
  simp [detach, bound, epoch]

theorem detach_epoch_other (other : c ≠ conversation) :
    (table.detach conversation active).2.epoch c = table.epoch c := by
  unfold detach
  split
  · rfl
  · simp [epoch, update_of_ne other]

theorem detach_epoch_le (conversation c : ConversationRef) (active : Bool) :
    (table.detach conversation active).2.epoch c ≤ table.epoch c + 1 := by
  by_cases same : c = conversation
  · subst same
    cases bound : table.byConversation c with
    | none => simp [detach, bound]
    | some session => exact Nat.le_of_eq (detach_epoch_of_bound bound)
  · rw [detach_epoch_other same]
    exact Nat.le_succ _

end BindingTable

/-- What holds of the table in memory and the persisted rows together. -/
structure Shape (world : World) : Prop where
  exclusive : world.table.Exclusive
  persisted : Persisted world.state
  bound : ∀ c s, world.table.byConversation c = some s →
    ⟨c, s, world.table.epoch c⟩ ∈ world.state.bindings
  behind : ∀ c, world.table.epoch c ≤ world.state.epochOf c

/-- A transition that one conversation goes through.  Conversations that are `taken` lose their
session to another one; a conversation that is `resumed` was persisted all along. -/
inductive Moves (taken resumed : ConversationRef → Prop) (world : World) : World → Prop
  | same {world' : World} (table : world'.table.byConversation = world.table.byConversation)
      (epochs : world'.table.epochs = world.table.epochs)
      (exclusive : world.table.Exclusive → world'.table.Exclusive)
      (bindings : world'.state.bindings = world.state.bindings)
      (bindingEpochs : world'.state.bindingEpochs = world.state.bindingEpochs) :
      Moves taken resumed world world'
  | bind {conversation : ConversationRef} {session : SessionId} {active : Bool}
      {state' : SqliteState} {epoch : Nat} (persisted : Persisted state')
      (advances : Advances world.state state') (row : ⟨conversation, session, epoch⟩ ∈ state'.bindings)
      (fresh : world.state.epochOf conversation < epoch)
      (others : ∀ row ∈ world.state.bindings, row.conversation ≠ conversation →
        row.session ≠ session → row ∈ state'.bindings)
      (takes : ∀ c, c ≠ conversation → world.table.byConversation c = some session → taken c) :
      Moves taken resumed world
        ⟨(world.table.attachAtEpoch conversation session active epoch).2, state'⟩
  | rebind {conversation : ConversationRef} {session : SessionId} {active : Bool} {epoch : Nat}
      (row : ⟨conversation, session, epoch⟩ ∈ world.state.bindings)
      (resumes : resumed conversation) :
      Moves taken resumed world
        ⟨(world.table.attachAtEpoch conversation session active epoch).2, world.state⟩
  | release {conversation : ConversationRef} {active : Bool} {state' : SqliteState}
      (persisted : Persisted state')
      (advances : Advances world.state state')
      (greater : world.state.epochOf conversation < state'.epochOf conversation)
      (others : ∀ row ∈ world.state.bindings, row.conversation ≠ conversation →
        row ∈ state'.bindings) :
      Moves taken resumed world ⟨(world.table.detach conversation active).2, state'⟩

namespace Moves

variable {taken resumed : ConversationRef → Prop} {world world' : World}
  {conversation c : ConversationRef} {session : SessionId} {active : Bool}

theorem advances (moves : Moves taken resumed world world') :
    Advances world.state world'.state := by
  cases moves with
  | same _ _ _ bindings bindingEpochs => exact .of_kept bindings bindingEpochs
  | bind _ advances => exact advances
  | rebind => exact .refl _
  | release _ advances => exact advances

/-- Only the conversation that moves may be ahead of the persisted rows of the others. -/
private theorem shape_of_attachAtEpoch {table : BindingTable} {state : SqliteState} {epoch : Nat}
    (exclusive : table.Exclusive) (persisted : Persisted state)
    (row : ⟨conversation, session, epoch⟩ ∈ state.bindings)
    (others : ∀ c s, table.byConversation c = some s → c ≠ conversation → s ≠ session →
      ⟨c, s, table.epoch c⟩ ∈ state.bindings)
    (behind : ∀ c, table.epoch c ≤ state.epochOf c) :
    Shape ⟨(table.attachAtEpoch conversation session active epoch).2, state⟩ := by
  refine ⟨exclusive.attachAtEpoch, persisted, fun c s bound => ?_, fun c => ?_⟩
  · simp only [BindingTable.attachAtEpoch_byConversation exclusive] at bound
    simp only [BindingTable.attachAtEpoch_epoch]
    by_cases same : c = conversation
    · subst same
      rw [if_pos rfl, some.injEq] at bound
      rw [if_pos rfl, ← bound]
      exact row
    · rw [if_neg same] at bound ⊢
      split at bound
      · cases bound
      · rename_i free
        refine others c s bound same fun here => free ?_
        rw [← here]
        exact (exclusive.inverse c s).mp bound
  · simp only [BindingTable.attachAtEpoch_epoch]
    split
    · rename_i same
      subst same
      exact Nat.le_of_eq (persisted.epochOf_eq row).symm
    · exact behind c

theorem shape (moves : Moves taken resumed world world') (shape : Shape world) : Shape world' := by
  obtain ⟨exclusive, persisted, bound, behind⟩ := shape
  have behind' : ∀ c, world.table.epoch c ≤ world'.state.epochOf c := fun c =>
    Nat.le_trans (behind c) (moves.advances.epochs c)
  cases moves with
  | same table epochs keeps bindings bindingEpochs =>
    have epoch : ∀ c, world'.table.epoch c = world.table.epoch c := fun c => by
      rw [BindingTable.epoch, epochs, BindingTable.epoch]
    refine ⟨keeps exclusive, persisted.of_kept bindings bindingEpochs, fun c s here => ?_,
      fun c => ?_⟩
    · rw [epoch, bindings]
      exact bound c s (table ▸ here)
    · rw [epoch]
      exact behind' c
  | bind persisted' _ row _ others =>
    exact shape_of_attachAtEpoch exclusive persisted' row
      (fun c s here other apart => others _ (bound c s here) other apart) behind'
  | rebind row =>
    exact shape_of_attachAtEpoch exclusive persisted row (fun c s here _ _ => bound c s here)
      behind'
  | @release conversation active state' persisted' advances greater others =>
    refine ⟨exclusive.detach, persisted', fun c s here => ?_, fun c => ?_⟩
    · simp only [BindingTable.detach_byConversation] at here
      split at here
      · cases here
      · rename_i other
        rw [BindingTable.detach_epoch_other other]
        exact others _ (bound c s here) other
    · by_cases same : c = conversation
      · subst same
        have least := behind c
        have most := world.table.detach_epoch_le c c active
        simp only
        omega
      · simp only [BindingTable.detach_epoch_other same]
        exact behind' c

theorem epoch_le (moves : Moves taken resumed world world') (shape : Shape world) :
    world.table.epoch c ≤ world'.table.epoch c := by
  have least := shape.behind c
  cases moves with
  | same _ epochs => exact Nat.le_of_eq (by rw [BindingTable.epoch, BindingTable.epoch, epochs])
  | bind _ _ _ fresh =>
    simp only [BindingTable.attachAtEpoch_epoch]
    split
    · rename_i same
      subst same
      omega
    · exact Nat.le_refl _
  | rebind row =>
    simp only [BindingTable.attachAtEpoch_epoch]
    split
    · rename_i same
      subst same
      exact Nat.le_trans least (Nat.le_of_eq (shape.persisted.epochOf_eq row))
    · exact Nat.le_refl _
  | @release conversation active =>
    by_cases same : c = conversation
    · subst same
      cases bound : world.table.byConversation c with
      | none => simp [BindingTable.detach, bound]
      | some session =>
        simp only [BindingTable.detach_epoch_of_bound bound]
        exact Nat.le_succ _
    · simp only [BindingTable.detach_epoch_other same]
      exact Nat.le_refl _

theorem changed (moves : Moves taken resumed world world') (shape : Shape world)
    (differ : world'.table.byConversation c ≠ world.table.byConversation c) :
    world.table.epoch c < world'.table.epoch c ∨
      (taken c ∧ world'.table.byConversation c = none) ∨
      (resumed c ∧ world.table.byConversation c = none ∧
        ∃ session, world'.table.byConversation c = some session ∧
          ⟨c, session, world'.table.epoch c⟩ ∈ world.state.bindings) := by
  have least := shape.behind c
  cases moves with
  | same table => exact absurd (congrFun table c) differ
  | @bind conversation session active _ _ _ _ _ fresh _ takes =>
    simp only [BindingTable.attachAtEpoch_byConversation shape.exclusive,
      BindingTable.attachAtEpoch_epoch] at differ ⊢
    by_cases same : c = conversation
    · subst same
      left
      rw [if_pos rfl]
      omega
    · simp only [if_neg same] at differ ⊢
      by_cases owner : world.table.bySession session = some c
      · exact .inr (.inl ⟨takes c same ((shape.exclusive.inverse c session).mpr owner),
          if_pos owner⟩)
      · exact absurd (if_neg owner) differ
  | @rebind conversation session active _ row resumes =>
    simp only [BindingTable.attachAtEpoch_byConversation shape.exclusive,
      BindingTable.attachAtEpoch_epoch] at differ ⊢
    by_cases same : c = conversation
    · subst same
      rw [if_pos rfl] at differ
      right; right
      refine ⟨resumes, ?_, session, if_pos rfl, by rw [if_pos rfl]; exact row⟩
      -- a bound conversation is bound to its persisted session
      cases here : world.table.byConversation c with
      | none => rfl
      | some old =>
        have rows := shape.persisted.conversations.eq_of_key (shape.bound c old here) row rfl
        rw [here, (BindingRow.mk.inj rows).2.1] at differ
        exact absurd rfl differ
    · simp only [if_neg same] at differ
      split at differ
      · rename_i owner
        have here := shape.bound _ _ ((shape.exclusive.inverse c session).mpr owner)
        have rows := shape.persisted.sessions.eq_of_key here row rfl
        exact absurd (BindingRow.mk.inj rows).1 same
      · exact absurd rfl differ
  | @release conversation active =>
    simp only [BindingTable.detach_byConversation] at differ
    split at differ
    · rename_i same
      subst same
      cases bound : world.table.byConversation c with
      | none => exact absurd bound.symm differ
      | some session =>
        left
        simp only [BindingTable.detach_epoch_of_bound bound]
        exact Nat.lt_succ_self _
    · exact absurd rfl differ

end Moves

end Agentix.Bindings
