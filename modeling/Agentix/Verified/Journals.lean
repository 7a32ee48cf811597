import Agentix.Claude.Replay
import Mathlib.Tactic.DeriveEncodable

/-! # The Claude journal replays to the live state -/

namespace Agentix.Claude

open Lib List Option

variable {V : Type}

def State.live (s : State V) : Saved V := ⟨s.turns, s.receipts⟩

namespace Process

/-- The session is sound, and the files hold its records. -/
structure Intact (codec : Codec (Record V)) (p : Process V) : Prop where
  sound : p.session.Sound
  kept : p.session.Kept
  saved : p.store.saved = p.session.disk.checkpoint
  journal : p.store.journal = codec.journal p.session.disk.records
  size : p.store.size = p.store.journal.length

structure Replays (codec : Codec (Record V)) (usesPromptHook : Bool) (p : Process V) : Prop where
  /-- Killed between two operations. -/
  between : ∃ store disk, p.store.load codec = some (store, disk) ∧
    disk.load.settle = p.session.live.settle
  /-- Killed while an operation appends its record. -/
  during : ∀ label record after bytes,
    p.session.attempt usesPromptHook label = some (record, after) →
    ∃ store disk, (p.store.torn codec record bytes).load codec = some (store, disk) ∧
      (disk.load.settle = p.session.live.settle ∨ disk.load.settle = after.live.settle)

/-- An operation whose save fails leaves the turns and, as they are read, the receipts. -/
def Leaves (usesPromptHook : Bool) (p : Process V) (label : Step V) : Prop :=
  ∀ after, p.session.step usesPromptHook label = some after →
    after.turns = p.session.turns ∧ settled after.receipts = settled p.session.receipts

variable {codec : Codec (Record V)} {usesPromptHook : Bool} {p p' : Process V} {label : Step V}
  {record : Record V} {after : State V} {fragment : Bytes} {bytes : Nat}

theorem saves_of_saved (saved : label.saved = true) : label.saves = label := by
  cases label <;> first | rfl | (cases saved; rfl)

theorem undoes_saves {s : State V} : s.Undoes label.saves := by
  cases label with
  | hook event transcript saved =>
    obtain _ | _ | transcript := transcript <;> trivial
  | _ => trivial

theorem settle_live {s : State V} (sound : s.Sound) (kept : s.Kept) :
    s.disk.load.settle = s.live.settle := by
  have turns : settledTurns s.disk.load.turns = settledTurns s.turns := kept.agrees
  have receipts : settled s.disk.load.receipts = settled s.receipts := sound.agrees
  show (⟨settledTurns _, settled _⟩ : Saved V) = ⟨settledTurns _, settled _⟩
  rw [turns, receipts]
  rfl

/-- What is loaded is what was appended, without the fragment of the last line. -/
theorem load_records {store : ClaudeStateStore V} {records : List (Record V)}
    (journal : store.journal = codec.journal records ++ fragment) (clean : newline ∉ fragment) :
    store.load codec = some ({ store with
      journal := codec.journal records
      size := (codec.journal records).length }, ⟨store.saved, records⟩) := by
  unfold ClaudeStateStore.load
  rw [journal, codec.read_journal clean, codec.endOfLines_journal clean, map_some]
  dsimp only
  rw [take_left]

theorem Intact.load (intact : p.Intact codec) :
    p.store.load codec = some (p.store, p.session.disk) := by
  have journal : p.store.journal = codec.journal p.session.disk.records ++ [] := by
    rw [append_nil, intact.journal]
  rw [load_records journal (by simp), ← intact.journal, ← intact.size]
  exact congrArg (fun saved => some (p.store, (⟨saved, _⟩ : Disk V))) intact.saved

theorem attempt_some (intact : p.Intact codec)
    (attempted : p.session.attempt usesPromptHook label = some (record, after)) :
    p.session.step usesPromptHook label.saves = some after ∧ after.Sound ∧ after.Kept ∧
      after.disk = { p.session.disk with records := p.session.disk.records ++ [record] } := by
  obtain ⟨after', next, found⟩ := bind_eq_some_iff.mp attempted
  obtain ⟨record', head, same⟩ := map_eq_some_iff.mp found
  obtain ⟨rfl, rfl⟩ := Prod.mk.inj same
  have effect := State.step_effect intact.kept intact.sound undoes_saves next
  refine ⟨next, intact.sound.step next, intact.kept.step intact.sound undoes_saves next, ?_⟩
  obtain still | ⟨-, record, disk⟩ := effect.disk
  · simp [still] at head
  · rw [disk] at head ⊢
    have is : record = record' := by simpa using head
    rw [is]

theorem Intact.restarts (intact : p.Intact codec) {randoms : Nat}
    (lower : p.session.randoms ≤ randoms) :
    Intact codec ⟨{ p.session.restart with randoms }, p.store⟩ where
  sound := intact.sound.restart.still rfl rfl rfl rfl rfl rfl intact.sound.restart.agrees
  kept := by
    have restarted := intact.kept.restart intact.sound
    exact restarted.stays rfl (.inl rfl) lower
      (fun held => (restarted.owned held).keeps rfl lower) restarted.agrees
  saved := intact.saved
  journal := intact.journal
  size := intact.size

theorem Intact.torn (intact : p.Intact codec)
    (attempted : p.session.attempt usesPromptHook label = some (record, after)) :
    ∃ store, (p.store.torn codec record bytes).load codec =
        some (store, (p.reached codec record after bytes).disk) ∧
      Intact codec ⟨(p.reached codec record after bytes).restart, store⟩ := by
  obtain ⟨-, sound, kept, disk⟩ := attempt_some intact attempted
  unfold Process.reached
  split
  · rename_i cut
    have journal : (p.store.torn codec record bytes).journal =
        codec.journal p.session.disk.records ++ (codec.line record).take bytes := by
      rw [← intact.journal]
      rfl
    refine ⟨p.store, ?_, intact.restarts (Nat.le_max_left ..)⟩
    rw [load_records journal (codec.newline_notMem_take cut), ← intact.journal, ← intact.size]
    exact congrArg (fun saved => some (p.store, (⟨saved, _⟩ : Disk V))) intact.saved
  · rename_i whole
    have journal : (p.store.torn codec record bytes).journal =
        codec.journal after.disk.records ++ [] := by
      rw [disk, codec.journal_snoc, append_nil, ← intact.journal]
      show p.store.journal ++ _ = _
      rw [take_of_length_le (Nat.le_of_not_lt whole)]
    have saved : p.store.saved = after.disk.checkpoint := by
      rw [disk]
      exact intact.saved
    let loaded : ClaudeStateStore V :=
      ⟨p.store.saved, codec.journal after.disk.records, (codec.journal after.disk.records).length⟩
    refine ⟨loaded, ?_, sound.restart, kept.restart sound, saved, rfl, rfl⟩
    rw [load_records journal (by simp)]
    exact congrArg (fun saved => some (loaded, (⟨saved, _⟩ : Disk V))) saved

theorem Intact.replays (intact : p.Intact codec) : p.Replays codec usesPromptHook where
  between := ⟨p.store, p.session.disk, intact.load, settle_live intact.sound intact.kept⟩
  during := by
    intro label record after bytes attempted
    obtain ⟨-, sound, kept, -⟩ := attempt_some intact attempted
    obtain ⟨store, loads, -⟩ := intact.torn attempted
    refine ⟨store, _, loads, ?_⟩
    unfold Process.reached
    split
    · have same := settle_live intact.sound intact.kept
      exact .inl same
    · exact .inr (settle_live sound kept)

theorem Intact.leaves (intact : p.Intact codec) (failed : label.saved = false)
    (undoes : p.session.Undoes label) : p.Leaves usesPromptHook label := by
  intro after next
  have effect := State.step_effect intact.kept intact.sound undoes next
  have disk : after.disk = p.session.disk :=
    effect.disk.resolve_right fun saved => by
      rw [failed] at saved
      cases saved.1
  refine ⟨effect.turns failed, ?_⟩
  rw [← (intact.sound.step next).agrees, disk, intact.sound.agrees]

/-! ## The steps -/

theorem Intact.written_failed (intact : p.Intact codec) (failed : label.saved = false) :
    p.written codec usesPromptHook label bytes = p.store := by
  unfold Process.written
  split
  · rfl
  · rw [failed, if_neg (by simp)]
    unfold ClaudeStateStore.append
    dsimp only
    rw [intact.size, take_left, ← intact.size]

theorem Intact.written (intact : p.Intact codec) (undoes : p.session.Undoes label)
    (next : p.session.step usesPromptHook label = some after) :
    Intact codec ⟨after, p.written codec usesPromptHook label bytes⟩ := by
  have effect := State.step_effect intact.kept intact.sound undoes next
  have sound := intact.sound.step next
  have kept := intact.kept.step intact.sound undoes next
  -- the files are as before
  have still : after.disk = p.session.disk → Intact codec ⟨after, p.store⟩ := fun disk =>
    ⟨sound, kept, disk ▸ intact.saved, disk ▸ intact.journal, intact.size⟩
  cases saved : label.saved with
  | false =>
    rw [intact.written_failed saved]
    refine still (effect.disk.resolve_right fun succeeded => ?_)
    rw [saved] at succeeded
    cases succeeded.1
  | true =>
    unfold Process.written
    cases attempted : p.session.attempt usesPromptHook label with
    | none =>
      refine still ?_
      obtain disk | ⟨-, record, disk⟩ := effect.disk
      · exact disk
      · simp [State.attempt, saves_of_saved saved, next, disk] at attempted
    | some attempt =>
      obtain ⟨record, after'⟩ := attempt
      obtain ⟨next', -, -, disk'⟩ := attempt_some intact attempted
      rw [saves_of_saved saved, next, some.injEq] at next'
      subst next'
      dsimp only
      rw [saved, if_pos rfl]
      refine ⟨sound, kept, ?_, ?_, ?_⟩
      · show p.store.saved = after.disk.checkpoint
        rw [disk']
        exact intact.saved
      · show p.store.journal ++ codec.line record = _
        rw [disk', codec.journal_snoc, intact.journal]
      · show p.store.size + (codec.line record).length = _
        rw [intact.size, ← length_append]
        rfl

theorem Intact.step {task : Task V} (intact : p.Intact codec) (undoes : p.Undoes task)
    (next : p.step codec usesPromptHook task = some p') : p'.Intact codec := by
  cases task with
  | run label bytes =>
    have ran : (p.session.step usesPromptHook label).map (fun session =>
        (⟨session, p.written codec usesPromptHook label bytes⟩ : Process V)) = some p' := by
      cases label <;> first | exact next | cases next
    obtain ⟨after, stepped, rfl⟩ := map_eq_some_iff.mp ran
    exact intact.written undoes stepped
  | kill during =>
    cases during with
    | none =>
      have next : Process.reload codec p.store p.session = some p' := next
      rw [Process.reload, intact.load, map_some, some.injEq] at next
      subst next
      exact intact.restarts (Nat.le_refl _)
    | some during =>
      obtain ⟨⟨record, after⟩, attempted, next⟩ := bind_eq_some_iff.mp next
      obtain ⟨store, loads, torn⟩ := intact.torn attempted
      dsimp only at next
      rw [Process.reload, loads, map_some, some.injEq] at next
      subst next
      exact torn

theorem Intact.start {initial : List (Turn V)}
    (native : ∀ turn ∈ initial, ∃ uuid, turn.id = .native uuid) :
    (Process.start initial).Intact codec where
  sound := State.Sound.start initial
  kept := State.Kept.start native
  saved := rfl
  journal := rfl
  size := rfl

/-- Where each operation whose save fails takes back what it has changed, what is loaded is the live
session, or that with the interrupted operation applied. -/
theorem claude_journal_replays (codec : Codec (Record V)) (usesPromptHook : Bool)
    (initial : List (Turn V)) (native : ∀ turn ∈ initial, ∃ uuid, turn.id = .native uuid)
    (p : Process V)
    (run : (system codec usesPromptHook initial).Reachable Process.Undoes p) :
    p.Replays codec usesPromptHook ∧ ∀ label, label.saved = false → p.session.Undoes label →
      p.Leaves usesPromptHook label := by
  have intact : p.Intact codec :=
    run.invariant (Intact codec) (Intact.start native) fun _ undoes intact next =>
      intact.step undoes next
  exact ⟨intact.replays, fun label failed undoes => intact.leaves failed undoes⟩

/-! ## A run -/

deriving instance Encodable for TurnId, TurnStatus, Turn, ReceiptState, Receipt, Record

def format : Codec (Record Unit) := .ofEncodable

/-- The append of a prompt fails, and its turn is there when the process is killed. -/
def accepting : List (Task Unit) :=
  [.run (.hook ⟨.sessionStart, [7], none, none⟩ (.error ()) true) 0, .run (.prompt [1] [104] false) 3,
    .run (.prompt [1] [104] true) 0, .run .microtask 0, .run (.acknowledge [1] true) 0]

theorem met_accepting : ∀ task ∈ accepting, ∀ p : Process Unit, p.Undoes task := by
  intro task mem p
  simp only [accepting, mem_cons, not_mem_nil, or_false] at mem
  obtain rfl | rfl | rfl | rfl | rfl := mem <;> trivial

def begun (text : JsString) : Turn Unit := ⟨.random 1, .inProgress, [104], text, [], [], none⟩

/-- A reply whose append fails. -/
def lostReply : Step Unit := .reply [1] [120] false

theorem accepting_ends : ∃ p : Process Unit,
    (system format false []).Path Process.Undoes (start []) p ∧ p.session.turns = [begun []] ∧
      (p.session.step false lostReply).map State.turns = some [begun [120]] := by
  have ends : (accepting.foldlM (step format false) (start [])).map
      (fun p => (p.session.turns, (p.session.step false lostReply).map State.turns)) =
        some ([begun []], some [begun [120]]) := by rfl
  obtain ⟨p, ran, same⟩ := map_eq_some_iff.mp ends
  obtain ⟨turns, replied⟩ := Prod.mk.inj same
  exact ⟨p, System.path_of_labels _ met_accepting ran, turns, replied⟩

theorem accepted_turn_replays : ∃ p : Process Unit,
    p.session.turns = [begun []] ∧ p.Replays format false := by
  obtain ⟨p, path, turns, -⟩ := accepting_ends
  exact ⟨p, turns, (claude_journal_replays format false [] (by simp) p
    (System.Reachable.start.path path)).1⟩

/-- The live turn has the text of the reply, and the disk has not. -/
theorem lost_reply_diverges :
    ¬ ∀ p, (system format false []).Reachable System.always p → p.Replays format false := by
  intro claimed
  obtain ⟨p, path, turns, replied⟩ := accepting_ends
  have run : (system format false []).Reachable Process.Undoes p :=
    System.Reachable.start.path path
  have intact : p.Intact format :=
    run.invariant (Intact format) (Intact.start (by simp)) fun _ undoes intact next =>
      intact.step undoes next
  obtain ⟨after, next, after_turns⟩ := map_eq_some_iff.mp replied
  let failed : Process Unit := ⟨after, p.written format false lostReply 0⟩
  have stepped : p.step format false (.run lostReply 0) = some failed := by
    show (p.session.step false lostReply).map _ = _
    rw [next]
    rfl
  have anyway : (system format false []).Reachable System.always p :=
    run.mono fun _ _ _ => trivial
  obtain ⟨store, disk, loaded, agrees⟩ := (claimed failed (anyway.step trivial stepped)).between
  have store_eq : failed.store = p.store := intact.written_failed rfl
  rw [store_eq, intact.load, some.injEq] at loaded
  obtain ⟨-, rfl⟩ := Prod.mk.inj loaded
  rw [settle_live intact.sound intact.kept] at agrees
  have texts : settledTurns p.session.turns = settledTurns after.turns :=
    congrArg Saved.turns agrees
  rw [turns, after_turns] at texts
  cases texts

end Process

end Agentix.Claude
