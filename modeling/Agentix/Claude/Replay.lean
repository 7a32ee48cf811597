import Agentix.Claude.Turns
import Agentix.Lib.Journal

/-! # The journal replays to the live session

An operation whose save fails takes back what it has changed of the live turns, except for the text
of a reply and the items of a transcript.  Where these are as before, the disk agrees with the live
session after every step.
-/

namespace Agentix.Claude

open Lib List Option Prod
open Function (update)

variable {V : Type}

def HookName.closes : HookName → Bool
  | .stop | .stopFailure | .sessionEnd => true
  | .sessionStart | .userPromptSubmit | .other => false

/-- Whether the append of the step succeeds. -/
def Step.saved : Step V → Bool
  | .prompt _ _ saved | .sendFails _ _ saved | .timeout _ saved | .acknowledge _ saved
  | .reply _ _ saved | .hook _ _ saved | .queueClear saved | .close saved => saved
  | .microtask | .sendEnds _ | .restart => true

namespace State

variable {usesPromptHook : Bool} {transcript : Except Unit (Option (Transcript V))}
  {event : HookEvent} {text : JsString} {between : State V} {f : Turn V → Turn V}

/-- Where the save fails, the active turn had the text, or the items and tools, already. -/
def Undoes (s : State V) : Step V → Prop
  | .reply id text false => ∀ receipt turn, s.receipts.get id = some receipt →
      receipt.state = .accepted → s.active = some receipt.turnId → s.activeTurn = some turn →
      isBlank text = false → turn.agentText = lastPart text
  | .hook event (.ok (some transcript)) false => ∀ turn, s.identity = some event.sessionId →
      event.name.closes = true → s.activeTurn = some turn → transcript.userText = turn.userText →
      turn.items = transcript.items ∧ turn.tools = transcript.tools
  | _ => True

variable {s s' : State V} {id : RequestId} {receipt : Receipt} {turnId : TurnId} {turn : Turn V}
  {ids : List RequestId} {number : Nat} {send : Send} {saved : Bool}

/-! ## Steps that leave the turns -/

theorem Descends.delete (sound : s.Sound) (receipts : s'.receipts = s.receipts.delete id) :
    s.Descends s' := by
  intro other receipt held
  rw [receipts] at held
  by_cases here : other = id
  · subst here
    rw [Entries.get_delete_self sound.keys] at held
    cases held
  · rw [Entries.get_delete_of_ne here] at held
    exact ⟨receipt, held, rfl, fun isUnresolved => isUnresolved⟩

theorem Kept.marks (kept : s.Kept) (descends : s.Descends s') (turns : s'.turns = s.turns)
    (active : s'.active = s.active) (randoms : s'.randoms = s.randoms) (disk : s'.disk = s.disk) :
    s'.Kept := by
  have ids_eq : s'.turns.map Turn.id = s.turns.map Turn.id := by rw [turns]
  have lower : s.randoms ≤ s'.randoms := Nat.le_of_eq randoms.symm
  exact kept.stays turns (.inl active) lower (kept.descends ids_eq lower descends)
    (by rw [disk, turns, kept.agrees])

theorem Kept.save (kept : s.Kept) : (s.save ids).Kept :=
  kept.stays rfl (.inl rfl) (Nat.le_refl _)
    (fun held => (kept.owned held).keeps rfl (Nat.le_refl _)) (kept.resave rfl rfl rfl)

theorem Kept.perhaps (kept : s.Kept) : (if saved then s.save ids else s).Kept := by
  split
  · exact kept.save
  · exact kept

theorem Kept.still (kept : s.Kept) (turns : s'.turns = s.turns) (active : s'.active = s.active)
    (randoms : s'.randoms = s.randoms) (disk : s'.disk = s.disk)
    (receipts : s'.receipts = s.receipts) : s'.Kept :=
  kept.marks (.of_eq receipts) turns active randoms disk

theorem Descends.waits (sound : s.Sound) (waiter : s.waiters.get id = some turnId)
    (held : s.receipts.get id = some receipt)
    (receipts : s'.receipts = s.receipts.set id { receipt with state := .uncertain }) :
    s.Descends s' := by
  obtain ⟨known, held', pending, -⟩ := sound.waiting waiter
  rw [held, some.injEq] at held'
  subst held'
  exact .set held receipts rfl fun _ => by rw [pending]; rfl

theorem Kept.doubts (kept : s.Kept) (sound : s.Sound) (waiter : s.waiters.get id = some turnId)
    (held : s.receipts.get id = some receipt) :
    Kept { s with
      receipts := s.receipts.set id { receipt with state := .uncertain }
      waiters := s.waiters.delete id } :=
  kept.marks (.waits sound waiter held rfl) rfl rfl rfl rfl

theorem Kept.sendFails {notSent : Bool} (kept : s.Kept) (sound : s.Sound)
    (next : s.sendFails number notSent saved = some s') : s'.Kept := by
  obtain ⟨send, runs, result⟩ := map_eq_some_iff.mp next
  cases waiter : s.waiters.get send.id with
  | none =>
    simp only [waiter] at result
    subst result
    exact kept.still rfl rfl rfl rfl rfl
  | some turnId =>
    obtain ⟨before, receipt, last, pending, same, held⟩ := sound.waits waiter
    rw [sound.sendFails_eq runs waiter held, some.injEq] at next
    subst next
    let failed : State V := { s with
      sends := update s.sends number none
      log := s.log ++ [.failed number notSent]
      waiters := s.waiters.delete send.id }
    have doubted : Kept { failed with
        receipts := s.receipts.set send.id { receipt with state := .uncertain } } :=
      (kept.doubts sound waiter held).still rfl rfl rfl rfl rfl
    have deleted : Kept { failed with receipts := s.receipts.delete send.id } :=
      kept.marks (.delete sound rfl) rfl rfl rfl rfl
    cases saved with
    | false => exact doubted
    | true =>
      cases notSent with
      | true => exact deleted.save
      | false => exact doubted.save

theorem Kept.timeout (kept : s.Kept) (sound : s.Sound) (next : s.timeout id saved = some s') :
    s'.Kept := by
  obtain ⟨turnId, waiter, -⟩ := map_eq_some_iff.mp next
  obtain ⟨receipt, held, -⟩ := sound.waiting waiter
  rw [sound.timeout_eq waiter held, some.injEq] at next
  subst next
  exact (kept.doubts sound waiter held).perhaps

theorem Kept.close (kept : s.Kept) (sound : s.Sound) : (s.close saved).Kept := by
  obtain ⟨-, written, unwritten⟩ | ⟨id, turnId, receipt, -, waiter, held, -, closed⟩ :=
    sound.disconnects
  · cases saved with
    | false => exact unwritten.symm ▸ kept
    | true =>
      rw [written]
      exact kept.save
  · rw [closed]
    exact (kept.doubts sound waiter held).perhaps

theorem Kept.queueClear (kept : s.Kept) : (s.queueClear saved).Kept := by
  have cleared : s.Descends { s with receipts := s.receipts.mapValues clearUncertain } := by
    intro id receipt there
    have there : (s.receipts.mapValues clearUncertain).get id = some receipt := there
    rw [Entries.get_mapValues, map_eq_some_iff] at there
    obtain ⟨known, held, rfl⟩ := there
    refine ⟨known, held, ?_, ?_⟩
    all_goals
      unfold clearUncertain
      split
      · simp [ReceiptState.isUnresolved]
      · simp
  unfold State.queueClear
  split
  · exact kept
  · split
    · exact kept
    · split
      · have marked := kept.marks cleared rfl rfl rfl rfl
        have saves : (State.save { s with receipts := s.receipts.mapValues clearUncertain }
          s.uncertainIds).Kept := marked.save
        exact saves.still rfl rfl rfl rfl rfl
      · exact kept

theorem Kept.prompt (kept : s.Kept) : (s.prompt id text saved).Kept := by
  unfold State.prompt
  split
  · exact kept
  · split
    · exact kept
    · cases held : s.receipts.get id with
      | some old =>
        dsimp only
        split
        · exact kept
        · split
          · exact kept.still rfl rfl rfl rfl rfl
          · exact kept
      | none =>
        dsimp only
        split
        · exact kept
        · let asked : State V := { s with
            randoms := s.randoms + 1
            receipts := s.receipts.set id ⟨text, .random s.randoms, .pending⟩ }
          have owned : ∀ {other known}, asked.receipts.get other = some known →
              asked.Owned known := by
            intro other known there
            have there : (s.receipts.set id ⟨text, .random s.randoms, .pending⟩).get other =
              some known := there
            by_cases same : other = id
            · subst same
              rw [Entries.get_set_self, some.injEq] at there
              subst there
              refine ⟨⟨s.randoms, rfl, Nat.lt_succ_self _⟩, fun _ mem => ?_⟩
              exact Nat.lt_irrefl _ (kept.made mem)
            · rw [Entries.get_set_of_ne same] at there
              exact (kept.owned there).keeps rfl (Nat.le_succ _)
          split
          · have marked : asked.Kept :=
              kept.stays rfl (.inl rfl) (Nat.le_succ _) owned kept.agrees
            have saves : (asked.save [id]).Kept := marked.save
            exact saves.still rfl rfl rfl rfl rfl
          · refine kept.stays rfl (.inl rfl) (Nat.le_succ _) (fun there => ?_) kept.agrees
            have there : ((s.receipts.set id ⟨text, .random s.randoms, .pending⟩).delete id).get _ =
              some _ := there
            rw [Entries.delete_set_of_none held] at there
            exact (kept.owned there).keeps rfl (Nat.le_succ _)

/-! ## Turns that begin -/

theorem Kept.acknowledge (kept : s.Kept) (sound : s.Sound) : (s.acknowledge id saved).Kept := by
  unfold State.acknowledge
  cases held : s.receipts.get id with
  | none => exact kept
  | some receipt =>
    dsimp only
    cases state : receipt.state with
    | cleared => exact kept
    | accepted => exact kept.still rfl rfl rfl rfl rfl
    | pending | uncertain =>
      have unresolved : receipt.state.isUnresolved = true := by
        rw [state]
        rfl
      dsimp only
      split
      · exact kept
      · cases saved with
        | false => exact kept
        | true =>
          obtain ⟨⟨number, made, lower⟩, unbegun⟩ := kept.owned held
          let turn : Turn V := ⟨receipt.turnId, .inProgress, receipt.text, [], [], [], none⟩
          let accepted : State V := { s with
            receipts := s.receipts.set id { receipt with state := .accepted }
            turns := s.turns ++ [turn]
            active := some receipt.turnId }
          -- no other receipt is unresolved
          have resolved : ∀ {other known}, accepted.receipts.get other = some known →
              accepted.Owned known := by
            intro other known there
            have there : (s.receipts.set id { receipt with state := .accepted }).get other =
              some known := there
            by_cases same : other = id
            · subst same
              rw [Entries.get_set_self, some.injEq] at there
              subst there
              exact ⟨⟨number, made, lower⟩, fun isUnresolved => by cases isUnresolved⟩
            · rw [Entries.get_set_of_ne same] at there
              refine ⟨(kept.owned there).made, fun isUnresolved => ?_⟩
              obtain ⟨before, last⟩ := sound.last held unresolved
              obtain ⟨before', last'⟩ := sound.last there isUnresolved
              rw [last] at last'
              have equal := singleton_inj.mp (append_inj' last' rfl).2
              exact absurd (congrArg fst equal).symm same
          have begun : (accepted.save [id]).Kept :=
            kept.begins rfl rfl made lower (Nat.le_refl _) (unbegun unresolved) rfl resolved
          exact begun.still rfl rfl rfl rfl rfl

theorem Kept.submitted {prompt : Option JsString} (kept : s.Kept) (sound : s.Sound) :
    (s.submitted usesPromptHook prompt saved).Kept := by
  unfold State.submitted
  dsimp only
  split
  · exact kept.acknowledge sound
  · have owned : ∀ {id receipt}, s.receipts.get id = some receipt →
        Owned { s with randoms := s.randoms + 1 } receipt := fun there =>
      (kept.owned there).keeps rfl (Nat.le_succ _)
    cases saved with
    | false => exact kept.stays rfl (.inl rfl) (Nat.le_succ _) owned kept.agrees
    | true =>
      have new : TurnId.random s.randoms ∉ s.turns.map Turn.id := fun mem =>
        Nat.lt_irrefl _ (kept.made mem)
      let turn : Turn V := ⟨.random s.randoms, .inProgress, prompt.getD [], [], [], [], none⟩
      let begun : State V := { s with
        randoms := s.randoms + 1
        turns := s.turns ++ [turn]
        active := some (.random s.randoms) }
      have apart : ∀ {id receipt}, begun.receipts.get id = some receipt → begun.Owned receipt := by
        intro id receipt there
        obtain ⟨⟨number, made, lower⟩, unbegun⟩ := kept.owned there
        refine ⟨⟨number, made, Nat.lt_succ_of_lt lower⟩, fun isUnresolved mem => ?_⟩
        have mem : receipt.turnId ∈ (s.turns ++ [turn]).map Turn.id := mem
        rw [map_append, mem_append] at mem
        obtain before | same := mem
        · exact unbegun isUnresolved before
        · rw [map_singleton, mem_singleton, made, TurnId.random.injEq] at same
          omega
      have result : (begun.save []).Kept :=
        kept.begins rfl rfl rfl (Nat.lt_succ_self _) (Nat.le_succ _) new rfl apart
      exact result.still rfl rfl rfl rfl rfl

/-! ## Turns that change -/

theorem Kept.activeTurn (kept : s.Kept) (active : s.activeTurn = some turn) :
    s.active = some turn.id ∧ ∃ before, s.turns = before ++ [turn] := by
  obtain ⟨id, isActive, found⟩ := bind_eq_some_iff.mp active
  have same : turn.id = id := by simpa using find?_some found
  obtain ⟨before, last, turns, last_id⟩ := kept.active isActive
  have distinct := kept.last_distinct turns
  rw [turns, find?_append] at found
  have out : before.find? (fun other => other.id = id) = none := by
    rw [find?_eq_none]
    intro other mem
    simp only [decide_eq_true_eq]
    exact fun equal => distinct (mem_map.mpr ⟨other, mem, equal.trans last_id.symm⟩)
  have is_last : last = turn := by simpa [out, last_id] using found
  exact ⟨same ▸ isActive, before, is_last ▸ turns⟩

theorem alter_last {before : List (Turn V)} (distinct : turn.id ∉ before.map Turn.id) :
    alter Turn.id turn.id f (before ++ [turn]) = before ++ [f turn] := by
  have others : before.map (fun row => if row.id = turn.id then f row else row) = before := by
    rw [map_congr_left fun row mem => if_neg ?_, List.map_id']
    exact fun same => distinct (mem_map.mpr ⟨row, mem, same⟩)
  simp [alter, others]

theorem Kept.alterTurn (kept : s.Kept) (active : s.activeTurn = some turn)
    (same : ∀ turn, (f turn).id = turn.id) {now : Option TurnId}
    (idle : now = s.active ∨ now = none) :
    (State.save { s.alterTurn turn.id f with active := now } ids).Kept := by
  obtain ⟨-, before, turns⟩ := kept.activeTurn active
  refine kept.alters turns ?_ (same turn) idle rfl rfl rfl
  show alter Turn.id turn.id f s.turns = _
  rw [turns, alter_last (kept.last_distinct turns)]

theorem Kept.alterTurn_self (kept : s.Kept) (active : s.activeTurn = some turn)
    (same : f turn = turn) : s.alterTurn turn.id f = s := by
  obtain ⟨-, before, turns⟩ := kept.activeTurn active
  have altered : alter Turn.id turn.id f s.turns = s.turns := by
    rw [turns, alter_last (kept.last_distinct turns), same]
  unfold State.alterTurn
  rw [altered]

theorem Kept.active_isSome (kept : s.Kept) (isActive : s.active = some turnId) :
    ∃ turn, s.activeTurn = some turn ∧ turn.id = turnId := by
  obtain ⟨before, turn, turns, same⟩ := kept.active isActive
  have mem : turn ∈ s.turns := by simp [turns]
  have found : (s.turns.find? fun turn => turn.id = turnId).isSome := by
    rw [find?_isSome]
    exact ⟨turn, mem, by simpa using same⟩
  obtain ⟨found, is⟩ := isSome_iff_exists.mp found
  exact ⟨found, by rw [State.activeTurn, isActive]; exact is, by simpa using find?_some is⟩

theorem Kept.reply (kept : s.Kept) (undoes : s.Undoes (.reply id text saved)) :
    (s.reply id text saved).Kept ∧ (saved = false → s.reply id text saved = s) := by
  unfold State.reply
  cases held : s.receipts.get id with
  | none => exact ⟨kept, fun _ => rfl⟩
  | some receipt =>
    dsimp only
    split
    · exact ⟨kept, fun _ => rfl⟩
    · rename_i current
      simp only [ne_eq, not_or, not_not] at current
      obtain ⟨accepted, isActive⟩ := current
      split
      · exact ⟨kept, fun _ => rfl⟩
      · rename_i written
        obtain ⟨turn, active, same⟩ := kept.active_isSome isActive
        have text_eq : saved = false → turn.agentText = lastPart text := by
          rintro rfl
          exact undoes receipt turn held accepted isActive active (by simpa using written)
        rw [← same]
        generalize lastPart text = part at text_eq
        cases saved with
        | true =>
          have altered : (State.save { s.alterTurn turn.id fun turn =>
              { turn with agentText := part } with active := s.active } []).Kept := by
            refine kept.alterTurn active (fun turn => ?_) (.inl rfl)
            rfl
          exact ⟨altered, fun failed => by cases failed⟩
        | false =>
          have unchanged : s.alterTurn turn.id (fun turn =>
              { turn with agentText := part }) = s :=
            kept.alterTurn_self active (by rw [← text_eq rfl])
          exact ⟨by simpa [unchanged] using kept, fun _ => by simpa using unchanged⟩

theorem withTranscript_id {transcript : Option (Transcript V)} (turn : Turn V) :
    (withTranscript transcript turn).id = turn.id := by
  unfold withTranscript
  split
  · rfl
  · split <;> rfl

theorem closeTurn_id {transcript : Option (Transcript V)} (turn : Turn V) :
    (closeTurn event transcript turn).id = turn.id := by
  unfold closeTurn
  cases event.lastAssistantMessage with
  | none => exact withTranscript_id turn
  | some message =>
    dsimp only
    generalize lastPart message = part
    split <;> exact withTranscript_id turn

theorem restore_closeTurn {transcript : Option (Transcript V)}
    (same : ∀ last, transcript = some last → last.userText = turn.userText →
      turn.items = last.items ∧ turn.tools = last.tools) :
    { closeTurn event transcript turn with status := turn.status, agentText := turn.agentText } =
      turn := by
  have items : withTranscript transcript turn = turn := by
    unfold withTranscript
    cases transcript with
    | none => rfl
    | some last =>
      dsimp only
      split
      · rename_i user
        obtain ⟨items, tools⟩ := same last rfl user
        rw [← items, ← tools]
      · rfl
  unfold closeTurn
  rw [items]
  cases event.lastAssistantMessage with
  | none => rfl
  | some message =>
    dsimp only
    split <;> rfl

theorem alterTurn_alterTurn {g : Turn V → Turn V} (same : ∀ turn, (f turn).id = turn.id) :
    (s.alterTurn turnId f).alterTurn turnId g = s.alterTurn turnId (g ∘ f) := by
  have composed : alter Turn.id turnId g (alter Turn.id turnId f s.turns) =
      alter Turn.id turnId (g ∘ f) s.turns := by
    unfold alter
    rw [List.map_map]
    refine map_congr_left fun turn _ => ?_
    by_cases here : turn.id = turnId <;> simp [here, same]
  unfold State.alterTurn
  rw [composed]

theorem Kept.closing (kept : s.Kept)
    (same : saved = false → ∀ turn last, s.activeTurn = some turn → transcript = .ok (some last) →
      last.userText = turn.userText → turn.items = last.items ∧ turn.tools = last.tools) :
    (s.closing event transcript saved).Kept ∧
      (saved = false → s.closing event transcript saved = s) := by
  unfold State.closing
  cases active : s.activeTurn with
  | none => exact ⟨kept, fun _ => rfl⟩
  | some turn =>
    cases transcript with
    | error _ => exact ⟨kept, fun _ => rfl⟩
    | ok transcript =>
      dsimp only
      cases saved with
      | true => exact ⟨kept.alterTurn active closeTurn_id (.inr rfl), fun failed => by cases failed⟩
      | false =>
        have restored : s.alterTurn turn.id ((fun closed : Turn V =>
            { closed with status := turn.status, agentText := turn.agentText }) ∘
              closeTurn event transcript) = s :=
          kept.alterTurn_self active (restore_closeTurn fun last is user =>
            same rfl turn last active (by rw [is]) user)
        rw [if_neg (by simp), alterTurn_alterTurn closeTurn_id, restored]
        exact ⟨kept, fun _ => rfl⟩

theorem Undoes.closing (undoes : s.Undoes (.hook event transcript saved))
    (ours : s.identity = some event.sessionId) (closing : event.name.closes = true)
    (failed : saved = false) (turn : Turn V) (last : Transcript V)
    (active : s.activeTurn = some turn) (is : transcript = .ok (some last))
    (user : last.userText = turn.userText) : turn.items = last.items ∧ turn.tools = last.tools := by
  subst failed is
  exact undoes turn ours closing active user

theorem Kept.hook (kept : s.Kept) (sound : s.Sound)
    (undoes : s.Undoes (.hook event transcript saved)) :
    (s.hook usesPromptHook event transcript saved).Kept := by
  unfold State.hook
  cases identity : s.identity with
  | none =>
    dsimp only
    split
    · exact kept.still rfl rfl rfl rfl rfl
    · exact kept
  | some sessionId =>
    dsimp only
    split
    · exact kept
    · rename_i ours
      have ours : event.sessionId = sessionId := by simpa using ours
      have closes : event.name.closes = true → (s.closing event transcript saved).Kept :=
        fun closing => (kept.closing (undoes.closing (by rw [identity, ours]) closing)).1
      cases name : event.name with
      | userPromptSubmit =>
        dsimp only
        split
        · exact kept
        · exact kept.submitted sound
      | stop => exact closes (by rw [name]; rfl)
      | stopFailure => exact closes (by rw [name]; rfl)
      | sessionEnd => exact closes (by rw [name]; rfl)
      | sessionStart => exact kept
      | other => exact kept

/-! ## All steps -/

theorem Kept.restart (kept : s.Kept) (sound : s.Sound) : s.restart.Kept := by
  have receipts : s.restart.receipts = settled s.receipts := sound.agrees
  have turns : s.restart.turns = settledTurns s.turns := kept.agrees
  have ids_eq : s.restart.turns.map Turn.id = s.turns.map Turn.id := by
    rw [turns, map_id_settledTurns]
  constructor
  · rw [ids_eq]
    exact kept.distinct
  · intro number
    rw [ids_eq]
    exact kept.made
  · intro id isActive
    cases isActive
  · intro id receipt held
    refine kept.descends ids_eq (Nat.le_refl _) ?_ held
    intro other known there
    rw [receipts, get_settled, map_eq_some_iff] at there
    obtain ⟨older, there, rfl⟩ := there
    exact ⟨older, there, settle_turnId, by rw [settle_isUnresolved]; exact fun its => its⟩
  · rw [turns, settledTurns_settledTurns]
    exact kept.agrees

theorem Kept.step {label : Step V} (kept : s.Kept) (sound : s.Sound) (undoes : s.Undoes label)
    (next : s.step usesPromptHook label = some s') : s'.Kept := by
  unfold State.step at next
  cases free : s.microtask with
  | some send =>
    rw [free] at next
    cases label with
    | microtask =>
      obtain ⟨send, -, rfl⟩ := map_eq_some_iff.mp next
      exact kept.still rfl rfl rfl rfl rfl
    | restart =>
      cases next
      exact kept.restart sound
    | _ => cases next
  | none =>
    rw [free] at next
    cases label with
    | prompt id text saved =>
      cases next
      exact kept.prompt
    | microtask => cases next
    | sendEnds number =>
      obtain ⟨send, -, rfl⟩ := map_eq_some_iff.mp next
      exact kept.still rfl rfl rfl rfl rfl
    | sendFails number notSent saved => exact kept.sendFails sound next
    | timeout id saved => exact kept.timeout sound next
    | acknowledge id saved =>
      cases next
      exact kept.acknowledge sound
    | reply id text saved =>
      cases next
      exact (kept.reply undoes).1
    | hook event transcript saved =>
      cases next
      exact kept.hook sound undoes
    | queueClear saved =>
      cases next
      exact kept.queueClear
    | close saved =>
      cases next
      exact kept.close sound
    | restart =>
      cases next
      exact kept.restart sound

/-! ## What a step does to the disk -/

/-- A step appends a record where its save succeeds, and leaves the turns where it fails. -/
structure Effect (saved : Bool) (s s' : State V) : Prop where
  disk : s'.disk = s.disk ∨ (saved = true ∧
    ∃ record, s'.disk = { s.disk with records := s.disk.records ++ [record] })
  turns : saved = false → s'.turns = s.turns

theorem Effect.unsaved (disk : s'.disk = s.disk) (turns : s'.turns = s.turns) :
    Effect saved s s' := ⟨.inl disk, fun _ => turns⟩

theorem Effect.saves (disk : between.disk = s.disk) (saves : s'.disk = (between.save ids).disk) :
    Effect true s s' := by
  refine ⟨.inr ⟨rfl, between.record ids, ?_⟩, fun failed => by cases failed⟩
  rw [saves, State.save, disk]

theorem Effect.perhaps (disk : between.disk = s.disk) (turns : between.turns = s.turns) :
    Effect saved s (if saved then between.save ids else between) := by
  cases saved with
  | true => exact .saves disk rfl
  | false => exact .unsaved disk turns

theorem prompt_effect : Effect saved s (s.prompt id text saved) := by
  unfold State.prompt
  split
  · exact .unsaved rfl rfl
  · split
    · exact .unsaved rfl rfl
    · cases s.receipts.get id with
      | some old =>
        dsimp only
        split
        · exact .unsaved rfl rfl
        · split <;> exact .unsaved rfl rfl
      | none =>
        dsimp only
        split
        · exact .unsaved rfl rfl
        · cases saved with
          | true =>
            let asked : State V := { s with
              randoms := s.randoms + 1
              receipts := s.receipts.set id ⟨text, .random s.randoms, .pending⟩ }
            have disk : asked.disk = s.disk := rfl
            exact .saves disk rfl
          | false => exact .unsaved rfl rfl

theorem sendFails_effect {notSent : Bool} (sound : s.Sound)
    (next : s.sendFails number notSent saved = some s') : Effect saved s s' := by
  obtain ⟨send, runs, result⟩ := map_eq_some_iff.mp next
  cases waiter : s.waiters.get send.id with
  | none =>
    simp only [waiter] at result
    subst result
    exact .unsaved rfl rfl
  | some turnId =>
    obtain ⟨receipt, held, -⟩ := sound.waiting waiter
    rw [sound.sendFails_eq runs waiter held, some.injEq] at next
    subst next
    cases saved with
    | true =>
      let failed : State V := { s with
        sends := update s.sends number none
        log := s.log ++ [.failed number notSent]
        waiters := s.waiters.delete send.id
        receipts := if notSent then s.receipts.delete send.id
          else s.receipts.set send.id { receipt with state := .uncertain } }
      have disk : failed.disk = s.disk := rfl
      exact .saves disk rfl
    | false => exact .unsaved rfl rfl

theorem timeout_effect (sound : s.Sound) (next : s.timeout id saved = some s') :
    Effect saved s s' := by
  obtain ⟨turnId, waiter, -⟩ := map_eq_some_iff.mp next
  obtain ⟨receipt, held, -⟩ := sound.waiting waiter
  rw [sound.timeout_eq waiter held, some.injEq] at next
  subst next
  exact .perhaps rfl rfl

theorem close_effect (sound : s.Sound) : Effect saved s (s.close saved) := by
  obtain ⟨-, written, unwritten⟩ | ⟨id, turnId, receipt, -, waiter, held, -, closed⟩ :=
    sound.disconnects
  · cases saved with
    | false => exact .unsaved (by rw [unwritten]) (by rw [unwritten])
    | true =>
      rw [written]
      exact .saves rfl rfl
  · rw [closed]
    exact .perhaps rfl rfl

theorem queueClear_effect : Effect saved s (s.queueClear saved) := by
  unfold State.queueClear
  split
  · exact .unsaved rfl rfl
  · split
    · exact .unsaved rfl rfl
    · cases saved with
      | false => exact .unsaved rfl rfl
      | true =>
        let cleared : State V := { s with receipts := s.receipts.mapValues clearUncertain }
        have disk : cleared.disk = s.disk := rfl
        exact .saves disk rfl

theorem begin_effect {request : Option RequestId}
    (begun : between.begin request text turnId ids saved = some s') (disk : between.disk = s.disk) :
    saved = true ∧
      ∃ record, s'.disk = { s.disk with records := s.disk.records ++ [record] } := by
  cases saved with
  | false => cases begun
  | true =>
    obtain rfl := some.inj begun
    exact ⟨rfl, _, by rw [← disk]; rfl⟩

theorem acknowledge_effect : Effect saved s (s.acknowledge id saved) := by
  unfold State.acknowledge
  cases s.receipts.get id with
  | none => exact .unsaved rfl rfl
  | some receipt =>
    dsimp only
    split
    · exact .unsaved rfl rfl
    · exact .unsaved rfl rfl
    all_goals
      split
      · exact .unsaved rfl rfl
      · split
        · exact .unsaved rfl rfl
        · rename_i begun
          have effect := begin_effect begun rfl
          exact ⟨.inr effect, fun failed => by rw [effect.1] at failed; cases failed⟩

theorem submitted_effect {prompt : Option JsString} :
    Effect saved s (s.submitted usesPromptHook prompt saved) := by
  unfold State.submitted
  dsimp only
  split
  · exact acknowledge_effect
  · split
    · exact .unsaved rfl rfl
    · rename_i begun
      have effect := begin_effect begun rfl
      exact ⟨.inr effect, fun failed => by rw [effect.1] at failed; cases failed⟩

theorem reply_effect (kept : s.Kept) (undoes : s.Undoes (.reply id text saved)) :
    Effect saved s (s.reply id text saved) := by
  refine ⟨?_, fun failed => by rw [(kept.reply undoes).2 failed]⟩
  unfold State.reply
  split
  · exact .inl rfl
  · split
    · exact .inl rfl
    · split
      · exact .inl rfl
      · cases saved with
        | false => exact .inl rfl
        | true => exact .inr ⟨rfl, _, rfl⟩

theorem closing_effect (closed : saved = false → s.closing event transcript saved = s) :
    Effect saved s (s.closing event transcript saved) := by
  refine ⟨?_, fun failed => by rw [closed failed]⟩
  unfold State.closing
  split
  · cases saved with
    | false => exact .inl rfl
    | true => exact .inr ⟨rfl, _, rfl⟩
  · exact .inl rfl

theorem hook_effect (kept : s.Kept) (undoes : s.Undoes (.hook event transcript saved)) :
    Effect saved s (s.hook usesPromptHook event transcript saved) := by
  unfold State.hook
  cases identity : s.identity with
  | none =>
    dsimp only
    split <;> exact .unsaved rfl rfl
  | some sessionId =>
    dsimp only
    split
    · exact .unsaved rfl rfl
    · rename_i ours
      have ours : event.sessionId = sessionId := by simpa using ours
      have closes : event.name.closes = true →
          Effect saved s (s.closing event transcript saved) := fun closing =>
        closing_effect (kept.closing (undoes.closing (by rw [identity, ours]) closing)).2
      cases name : event.name with
      | userPromptSubmit =>
        dsimp only
        split
        · exact .unsaved rfl rfl
        · exact submitted_effect
      | stop => exact closes (by rw [name]; rfl)
      | stopFailure => exact closes (by rw [name]; rfl)
      | sessionEnd => exact closes (by rw [name]; rfl)
      | sessionStart => exact .unsaved rfl rfl
      | other => exact .unsaved rfl rfl

theorem step_effect {label : Step V} (kept : s.Kept) (sound : s.Sound) (undoes : s.Undoes label)
    (next : s.step usesPromptHook label = some s') :
    Effect label.saved s s' := by
  unfold State.step at next
  have restarts : Effect true s s.restart := ⟨.inl rfl, fun failed => by cases failed⟩
  cases free : s.microtask with
  | some send =>
    rw [free] at next
    cases label with
    | microtask =>
      obtain ⟨send, -, rfl⟩ := map_eq_some_iff.mp next
      exact .unsaved rfl rfl
    | restart =>
      cases next
      exact restarts
    | _ => cases next
  | none =>
    rw [free] at next
    cases label with
    | prompt id text saved =>
      cases next
      exact prompt_effect
    | microtask => cases next
    | sendEnds number =>
      obtain ⟨send, -, rfl⟩ := map_eq_some_iff.mp next
      exact .unsaved rfl rfl
    | sendFails number notSent saved => exact sendFails_effect sound next
    | timeout id saved => exact timeout_effect sound next
    | acknowledge id saved =>
      cases next
      exact acknowledge_effect
    | reply id text saved =>
      cases next
      exact reply_effect kept undoes
    | hook event transcript saved =>
      cases next
      exact hook_effect kept undoes
    | queueClear saved =>
      cases next
      exact queueClear_effect
    | close saved =>
      cases next
      exact close_effect sound
    | restart =>
      cases next
      exact restarts

/-! ## The first process -/

section Initial

variable {initial : List (Turn V)}

theorem mem_keys_set {m : Entries TurnId (Turn V)} {key other : TurnId}
    (mem : other ∈ (m.set key turn).map fst) : other = key ∨ other ∈ m.map fst := by
  cases held : m.get key with
  | some old => exact .inr (by rwa [Entries.map_fst_set_of_some held] at mem)
  | none =>
    rw [Entries.set_of_none held, map_append, mem_append] at mem
    obtain before | same := mem
    · exact .inr before
    · exact .inl (mem_singleton.mp same)

theorem start_keys : let keys := (⟨initial, []⟩ : Saved V).maps.turns.map fst
    keys.Nodup ∧ keys ⊆ initial.map Turn.id := by
  show let keys := (initial.foldl (fun turns turn => Entries.set turns turn.id turn)
      ([] : Entries TurnId (Turn V))).map fst
    keys.Nodup ∧ keys ⊆ initial.map Turn.id
  induction initial using reverseRecOn with
  | nil => exact ⟨.nil, fun _ mem => mem⟩
  | append_singleton turns turn ih =>
    obtain ⟨distinct, known⟩ := ih
    rw [foldl_append]
    refine ⟨Entries.nodup_set distinct, fun key mem => ?_⟩
    rw [map_append, mem_append]
    obtain same | before := mem_keys_set mem
    · exact .inr (by simp [same])
    · exact .inl (known before)

theorem Kept.start (native : ∀ turn ∈ initial, ∃ uuid, turn.id = .native uuid) :
    (State.start initial).Kept := by
  obtain ⟨distinct, known⟩ := @start_keys V initial
  let disk : Disk V := ⟨⟨initial, []⟩, []⟩
  have turns : (State.start initial).turns = settledTurns disk.load.turns := rfl
  have ids_eq : (State.start initial).turns.map Turn.id = disk.maps.turns.map fst := by
    rw [turns, map_id_settledTurns, load_turns, (keyed_maps disk).map_fst]
  constructor
  · rw [ids_eq]
    exact distinct
  · intro number mem
    rw [ids_eq] at mem
    obtain ⟨turn, there, same⟩ := mem_map.mp (known mem)
    obtain ⟨uuid, is⟩ := native turn there
    rw [is] at same
    cases same
  · intro id isActive
    cases isActive
  · intro id receipt held
    cases held
  · rw [turns, settledTurns_settledTurns]
    rfl

end Initial

end State

end Agentix.Claude

/-! # The journal of a Claude session

Updates of turns and receipts after a checkpoint, never replayed as prompts.  A process is a session
with the files that it writes; it is killed between two operations, or while one appends its record.
-/

namespace Agentix.Claude

open Lib

variable {V : Type}

structure ClaudeStateStore (V : Type) where
  /-- The checkpoint, which is written as a whole. -/
  saved : Saved V
  journal : Bytes
  size : Nat

namespace ClaudeStateStore

variable (codec : Codec (Record V)) (store : ClaudeStateStore V)

/-- What is read, and the store from which the fragment of a killed append is cut. -/
def load : Option (ClaudeStateStore V × Disk V) :=
  (codec.read store.journal).map fun records =>
    let stop := endOfLines store.journal
    ({ store with journal := store.journal.take stop, size := stop }, ⟨store.saved, records⟩)

/-- A failure comes after a part of the line, which is cut off again. -/
def append (record : Record V) (failure : Option Nat) : ClaudeStateStore V :=
  let line := codec.line record
  match failure with
  | none => { store with journal := store.journal ++ line, size := store.size + line.length }
  | some written => { store with journal := (store.journal ++ line.take written).take store.size }

/-- The process was killed when a part of the line was written. -/
def torn (record : Record V) (written : Nat) : ClaudeStateStore V :=
  { store with journal := store.journal ++ (codec.line record).take written }

end ClaudeStateStore

/-- The step whose append succeeds. -/
def Step.saves : Step V → Step V
  | .prompt id text _ => .prompt id text true
  | .sendFails number notSent _ => .sendFails number notSent true
  | .timeout id _ => .timeout id true
  | .acknowledge id _ => .acknowledge id true
  | .reply id text _ => .reply id text true
  | .hook event transcript _ => .hook event transcript true
  | .queueClear _ => .queueClear true
  | .close _ => .close true
  | .microtask => .microtask
  | .sendEnds number => .sendEnds number
  | .restart => .restart

structure Process (V : Type) where
  session : State V
  store : ClaudeStateStore V

/-- Where the append of a step fails, `written` bytes of its line were written. -/
inductive Task (V : Type) where
  | run (label : Step V) (written : Nat)
  /-- Killed between two operations, or when an operation had written a part of its line. -/
  | kill (during : Option (Step V × Nat))

/-- What the last record of the disk adds to a session. -/
def State.attempt (usesPromptHook : Bool) (s : State V) (label : Step V) :
    Option (Record V × State V) :=
  (s.step usesPromptHook label.saves).bind fun after =>
    (after.disk.records.drop s.disk.records.length).head?.map fun record => (record, after)

namespace Process

variable (codec : Codec (Record V)) (usesPromptHook : Bool) (p : Process V)

def start (initial : List (Turn V)) : Process V := ⟨.start initial, ⟨⟨initial, []⟩, [], 0⟩⟩

/-- A new process reads the files; UUIDs that were made are not made again. -/
def reload (store : ClaudeStateStore V) (reached : State V) : Option (Process V) :=
  (store.load codec).map fun (store, disk) =>
    ⟨.fromDisk disk reached.started reached.randoms reached.log, store⟩

def written (label : Step V) (bytes : Nat) : ClaudeStateStore V :=
  match p.session.attempt usesPromptHook label with
  | none => p.store
  | some (record, _) => p.store.append codec record (if label.saved then none else some bytes)

/-- How far an operation came that was killed; it is done once its line is complete. -/
def reached (record : Record V) (after : State V) (written : Nat) : State V :=
  if written < (codec.line record).length then
    { p.session with randoms := max p.session.randoms after.randoms }
  else after

def step : Task V → Option (Process V)
  | .run .restart _ => none
  | .run label bytes => (p.session.step usesPromptHook label).map fun session =>
      ⟨session, p.written codec usesPromptHook label bytes⟩
  | .kill none => reload codec p.store p.session
  | .kill (some (label, bytes)) =>
    (p.session.attempt usesPromptHook label).bind fun (record, after) =>
      reload codec (p.store.torn codec record bytes) (p.reached codec record after bytes)

def system (initial : List (Turn V)) : System (Process V) (Task V) :=
  .ofStep (start initial) (step codec usesPromptHook)

end Process

/-- The steps of the session take back what they have changed. -/
def Process.Undoes (p : Process V) : Task V → Prop
  | .run label _ => p.session.Undoes label
  | .kill _ => True

end Agentix.Claude
