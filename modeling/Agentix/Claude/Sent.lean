import Agentix.Claude.Session
import Agentix.Lib.Updates

/-! # Prompts are sent at most once

The invariant of a session: what is unresolved is the last receipt, a waiter is for a pending one,
and the log agrees with the receipts.
-/

namespace Agentix.Claude

open Lib List Option Function Prod

variable {V : Type}

namespace State

variable {saved usesPromptHook : Bool} {text : JsString}

structure Sound (s : State V) : Prop where
  keys : (s.receipts.map fst).Nodup
  waiterKeys : (s.waiters.map fst).Nodup
  /-- Only the last receipt can be unresolved. -/
  last : ∀ {id receipt}, s.receipts.get id = some receipt → receipt.state.isUnresolved = true →
    ∃ before, s.receipts = before ++ [(id, receipt)]
  waiting : ∀ {id turnId}, s.waiters.get id = some turnId →
    ∃ receipt, s.receipts.get id = some receipt ∧ receipt.state = .pending ∧
      receipt.turnId = turnId
  agrees : settled s.disk.load.receipts = settled s.receipts
  tracks : ∀ id, Tracks id (s.receipts.get id) s.log
  numbers : ∀ {number send others active}, .started number send others active ∈ s.log →
    number < s.started
  failures : ∀ {number notSent}, .failed number notSent ∈ s.log → number < s.started
  running : ∀ {number send}, s.sends number = some send →
    (∃ others active, .started number send others active ∈ s.log) ∧
      ∀ notSent, .failed number notSent ∉ s.log
  /-- The closure of a running delivery is that of the waiter. -/
  closure : ∀ {number send turnId}, s.sends number = some send →
    s.waiters.get send.id = some turnId → send.turnId = turnId ∧
      ∃ receipt, s.receipts.get send.id = some receipt ∧ receipt.text = send.text
  repeated : ∀ {number send others active later send' others' active'},
    .started number send others active ∈ s.log → .started later send' others' active' ∈ s.log →
    send.id = send'.id → number < later → .failed number true ∈ s.log
  microtask : ∀ {send}, s.microtask = some send → s.active = none ∧
    s.waiters.get send.id = some send.turnId ∧
    (∃ receipt, s.receipts.get send.id = some receipt ∧ receipt.text = send.text) ∧
    ∀ {number send' others active}, .started number send' others active ∈ s.log →
      send'.id = send.id → .failed number true ∈ s.log
  started : Started s.log
  beganOnce : BeganOnce s.log

variable {s s' : State V} {id : RequestId} {receipt : Receipt} {turnId : TurnId} {number : Nat}
  {send : Send} {ids : List RequestId}

theorem Sound.waits (sound : s.Sound) (waiter : s.waiters.get id = some turnId) :
    ∃ before receipt, s.receipts = before ++ [(id, receipt)] ∧ receipt.state = .pending ∧
      receipt.turnId = turnId ∧ s.receipts.get id = some receipt := by
  obtain ⟨receipt, held, pending, same⟩ := sound.waiting waiter
  obtain ⟨before, last⟩ := sound.last held (by rw [pending]; rfl)
  exact ⟨before, receipt, last, pending, same, held⟩

/-- Turns, the active one and ids that are made do not matter without a microtask. -/
theorem Sound.still (sound : s.Sound) (free : s'.microtask = none)
    (receipts : s'.receipts = s.receipts) (waiters : s'.waiters = s.waiters)
    (sends : s'.sends = s.sends) (started : s'.started = s.started) (log : s'.log = s.log)
    (agrees : settled s'.disk.load.receipts = settled s'.receipts) : s'.Sound where
  keys := receipts ▸ sound.keys
  waiterKeys := waiters ▸ sound.waiterKeys
  last := by
    rw [receipts]
    exact sound.last
  waiting := by
    rw [receipts, waiters]
    exact sound.waiting
  agrees := agrees
  tracks := by
    rw [receipts, log]
    exact sound.tracks
  numbers := by
    rw [started, log]
    exact sound.numbers
  failures := by
    rw [started, log]
    exact sound.failures
  running := by
    rw [sends, log]
    exact sound.running
  closure := by
    rw [sends, waiters, receipts]
    exact sound.closure
  repeated := by
    rw [log]
    exact sound.repeated
  microtask := by
    intro send there
    rw [free] at there
    cases there
  started := log ▸ sound.started
  beganOnce := log ▸ sound.beganOnce

theorem Sound.goes {notes : List Event} (sound : s.Sound) (free : s'.microtask = none)
    (started : s'.started = s.started) (log : s'.log = s.log ++ notes)
    (quiet : ∀ number send others active, .started number send others active ∉ notes)
    (failed : ∀ number notSent, .failed number notSent ∈ notes → number < s.started)
    (sends : ∀ {number send}, s'.sends number = some send →
      s.sends number = some send ∧ ∀ notSent, .failed number notSent ∉ notes)
    (waiters : ∀ {id turnId}, s'.waiters.get id = some turnId →
      s.waiters.get id = some turnId ∧ s'.receipts.get id = s.receipts.get id)
    (keys : (s'.receipts.map fst).Nodup) (waiterKeys : (s'.waiters.map fst).Nodup)
    (last : ∀ {id receipt}, s'.receipts.get id = some receipt →
      receipt.state.isUnresolved = true → ∃ before, s'.receipts = before ++ [(id, receipt)])
    (agrees : settled s'.disk.load.receipts = settled s'.receipts)
    (tracks : ∀ id, Tracks id (s'.receipts.get id) s'.log) (beganOnce : BeganOnce s'.log) :
    s'.Sound where
  keys := keys
  waiterKeys := waiterKeys
  last := last
  waiting := by
    intro id turnId waiter
    obtain ⟨waiter, same⟩ := waiters waiter
    rw [same]
    exact sound.waiting waiter
  agrees := agrees
  tracks := tracks
  -- No send starts in this step, so the starts of the log are those of before.
  numbers := by
    intro number send others active mem
    rw [log] at mem
    obtain before | new := mem_append.mp mem
    · exact started ▸ sound.numbers before
    · exact absurd new (quiet _ _ _ _)
  failures := by
    intro number notSent mem
    rw [log] at mem
    rw [started]
    obtain before | new := mem_append.mp mem
    · exact sound.failures before
    · exact failed number notSent new
  running := by
    intro number send runs
    obtain ⟨runs, unfailed⟩ := sends runs
    obtain ⟨⟨others, active, mem⟩, before⟩ := sound.running runs
    rw [log]
    refine ⟨⟨others, active, mem_append_left _ mem⟩, fun notSent failure => ?_⟩
    obtain old | new := mem_append.mp failure
    · exact before notSent old
    · exact unfailed notSent new
  closure := by
    intro number send turnId runs waiter
    obtain ⟨waiter, same⟩ := waiters waiter
    rw [same]
    exact sound.closure (sends runs).1 waiter
  repeated := by
    intro number send others active later send' others' active' first second same earlier
    rw [log] at first second ⊢
    have old : ∀ {number send others active},
        .started number send others active ∈ s.log ++ notes →
        .started number send others active ∈ s.log := fun mem =>
      (mem_append.mp mem).resolve_right (quiet _ _ _ _)
    exact mem_append_left _ (sound.repeated (old first) (old second) same earlier)
  microtask := by
    intro send there
    rw [free] at there
    cases there
  started := log ▸ sound.started.append quiet
  beganOnce := beganOnce

theorem Sound.sendEnds (sound : s.Sound) (free : s.microtask = none)
    (next : s.sendEnds number = some s') : s'.Sound := by
  obtain ⟨send, runs, rfl⟩ := map_eq_some_iff.mp next
  have log : s.log = s.log ++ [] := (append_nil _).symm
  exact sound.goes free rfl log (by simp) (by simp) (fun runs' => ⟨(of_update_none runs').2, by simp⟩)
    (fun there => ⟨there, rfl⟩) sound.keys sound.waiterKeys sound.last sound.agrees sound.tracks
    sound.beganOnce

/-- A running delivery has started, and the earlier ones of its request have failed. -/
theorem Sound.runs (sound : s.Sound) (runs : s.sends number = some send) :
    number < s.started ∧ ∀ {other send' others active},
      .started other send' others active ∈ s.log → send'.id = send.id → other ≠ number →
        .failed other true ∈ s.log := by
  obtain ⟨⟨others, active, mem⟩, unfailed⟩ := sound.running runs
  refine ⟨sound.numbers mem, fun {other} send' others' active' there same ne => ?_⟩
  obtain earlier | later := Nat.lt_or_gt_of_ne ne
  · exact sound.repeated there mem same earlier
  · exact absurd (sound.repeated mem there same.symm later) (unfailed true)

theorem Sound.unwaited (sound : s.Sound) {other : RequestId}
    (waiter : (s.waiters.delete id).get other = some turnId) :
    other ≠ id ∧ s.waiters.get other = some turnId := by
  by_cases same : other = id
  · rw [same, Entries.get_delete_self sound.waiterKeys] at waiter
    cases waiter
  · rw [Entries.get_delete_of_ne same] at waiter
    exact ⟨same, waiter⟩

theorem Sound.fails_tracks (sound : s.Sound) (number : Nat) (notSent : Bool) (id : RequestId) :
    Tracks id (s.receipts.get id) (s.log ++ [.failed number notSent]) :=
  (sound.tracks id).append (by simp [Event.about])

/-- The delivery has not been sent, and its receipt is gone. -/
theorem Sound.unsent (sound : s.Sound)
    (runs : s.sends number = some send) (waiter : s.waiters.get send.id = some turnId)
    (microtask : s'.microtask = none) (receipts : s'.receipts = s.receipts.delete send.id)
    (waiters : s'.waiters = s.waiters.delete send.id)
    (sends : s'.sends = update s.sends number none) (started : s'.started = s.started)
    (log : s'.log = s.log ++ [.failed number true])
    (disk : s'.disk.load.receipts = s.disk.load.receipts.put (send.id, none)) : s'.Sound := by
  obtain ⟨before, receipt, last, pending, -, held⟩ := sound.waits waiter
  have absent : Entries.get before send.id = none := by
    have keys := sound.keys
    rw [last, map_append] at keys
    rw [Entries.get_eq_none]
    exact (nodup_cons.mp (nodup_append_comm.mp keys)).1
  have left : s.receipts.delete send.id = before := by
    rw [last, Entries.delete_append_single absent]
  have gone : (s.receipts.delete send.id).get send.id = none :=
    Entries.get_delete_self sound.keys
  refine sound.goes microtask started log (by simp) ?_ ?_ ?_ ?_ ?_ ?_ ?_ ?_ ?_
  · intro other notSent mem
    simp only [mem_singleton, Event.failed.injEq] at mem
    rw [mem.1]
    exact (sound.runs runs).1
  · intro other send' runs'
    obtain ⟨ne, runs'⟩ := of_update_none (sends ▸ runs')
    exact ⟨runs', by simp [ne]⟩
  · intro other turnId' waiter'
    obtain ⟨ne, waiter'⟩ := sound.unwaited (waiters ▸ waiter')
    exact ⟨waiter', by rw [receipts, Entries.get_delete_of_ne ne]⟩
  · exact receipts ▸ Entries.nodup_delete sound.keys
  · exact waiters ▸ Entries.nodup_delete sound.waiterKeys
  · intro other receipt' there unresolved
    rw [receipts] at there
    have ne : other ≠ send.id := by
      rintro rfl
      rw [gone] at there
      cases there
    rw [Entries.get_delete_of_ne ne] at there
    -- an unresolved receipt would be the last one, but that was another
    obtain ⟨before', last'⟩ := sound.last there unresolved
    rw [last] at last'
    have same := (append_inj' last' rfl).2
    simp only [cons.injEq, Prod.mk.injEq, and_true] at same
    exact absurd same.1.symm ne
  · rw [disk, receipts, settled, Entries.put, Entries.mapValues_delete]
    have agrees := sound.agrees
    simp only [settled] at agrees
    rw [agrees, settled, Entries.mapValues_delete]
  · intro other
    rw [receipts, log]
    by_cases same : other = send.id
    · subst same
      rw [gone]
      have isOpen : IsOpen (s.receipts.get send.id) := by
        rw [held]
        exact isOpen_some (by rw [pending]; rfl)
      refine (sound.fails_tracks number true send.id).opens isOpen isOpen_none ?_
      · intro other send' others active mem same
        have mem := (mem_append.mp mem).resolve_right (by simp)
        by_cases isIt : other = number
        · exact .inl (by simp [isIt])
        · exact .inl (mem_append_left _ ((sound.runs runs).2 mem same isIt))
    · rw [Entries.get_delete_of_ne same]
      exact sound.fails_tracks number true other
  · rw [log]
    exact sound.beganOnce.append (by simp)

theorem Sound.get_set (sound : s.Sound) (held : s.receipts.get id = some receipt)
    {receipt' : Receipt} (resolves : receipt'.state.isUnresolved = true →
      receipt.state.isUnresolved = true) {other : RequestId} {known : Receipt}
    (there : (s.receipts.set id receipt').get other = some known)
    (unresolved : known.state.isUnresolved = true) :
    ∃ before, s.receipts.set id receipt' = before ++ [(other, known)] := by
  by_cases same : other = id
  · subst same
    rw [Entries.get_set_self, some.injEq] at there
    subst there
    obtain ⟨before, last⟩ := sound.last held (resolves unresolved)
    have absent : Entries.get before other = none := by
      have keys := sound.keys
      rw [last, map_append] at keys
      rw [Entries.get_eq_none]
      exact (nodup_cons.mp (nodup_append_comm.mp keys)).1
    refine ⟨before, ?_⟩
    rw [last, ← Entries.set_of_none absent, Entries.set_set, Entries.set_of_none absent]
  · rw [Entries.get_set_of_ne same] at there
    obtain ⟨before, last⟩ := sound.last there unresolved
    -- the changed receipt is one of those before the last one
    have elsewhere : Entries.get before id = some receipt := by
      rw [last] at held
      cases found : Entries.get before id with
      | none =>
        rw [Entries.get_append_of_none found] at held
        simp [Entries.get, same] at held
      | some known' =>
        rw [Entries.get_append_of_some found] at held
        exact held
    exact ⟨Entries.set before id receipt', by rw [last, Entries.set_append_of_some elsewhere]⟩

theorem Sound.doubted {notes : List Event} (sound : s.Sound)
    (waiter : s.waiters.get id = some turnId) (held : s.receipts.get id = some receipt)
    (microtask : s'.microtask = none)
    (receipts : s'.receipts = s.receipts.set id { receipt with state := .uncertain })
    (waiters : s'.waiters = s.waiters.delete id)
    (sends : ∀ {number send}, s'.sends number = some send →
      s.sends number = some send ∧ ∀ notSent, .failed number notSent ∉ notes)
    (started : s'.started = s.started) (log : s'.log = s.log ++ notes)
    (failures : ∀ note ∈ notes, ∃ number notSent, note = .failed number notSent ∧
      number < s.started)
    (agrees : settled s'.disk.load.receipts = settled s'.receipts) : s'.Sound := by
  obtain ⟨-, receipt', -, pending, -, held'⟩ := sound.waits waiter
  rw [held, some.injEq] at held'
  subst held'
  have unresolved : receipt.state.isUnresolved = true := by rw [pending]; rfl
  have about : ∀ note ∈ notes, note.about = none := by
    intro note mem
    obtain ⟨number, notSent, rfl, -⟩ := failures note mem
    rfl
  refine sound.goes microtask started log ?_ ?_ sends ?_ ?_ ?_ ?_ agrees ?_ ?_
  · intro number send others active mem
    cases about _ mem
  · intro number notSent mem
    obtain ⟨number', notSent', same, below⟩ := failures _ mem
    cases same
    exact below
  · intro other turnId' waiter'
    obtain ⟨ne, waiter'⟩ := sound.unwaited (waiters ▸ waiter')
    exact ⟨waiter', by rw [receipts, Entries.get_set_of_ne ne]⟩
  · exact receipts ▸ Entries.nodup_set sound.keys
  · exact waiters ▸ Entries.nodup_delete sound.waiterKeys
  · rw [receipts]
    exact sound.get_set held fun _ => unresolved
  · intro other
    rw [receipts, log]
    have noted : Tracks other (s.receipts.get other) (s.log ++ notes) :=
      (sound.tracks other).append fun note mem same => by
        rw [about note mem] at same
        cases same
    by_cases same : other = id
    · subst same
      rw [Entries.get_set_self]
      rw [held] at noted
      exact noted.opens (isOpen_some unresolved) (isOpen_some rfl) fun _ _ => .inr rfl
    · rwa [Entries.get_set_of_ne same]
  · rw [log]
    refine sound.beganOnce.append fun id turnId mem => ?_
    cases about _ mem

theorem Sound.doubt_agrees (sound : s.Sound) {receipts : Receipts}
    (same : settled receipts = settled s.receipts) {s'' : State V} (disk : s''.disk = s.disk)
    (is : s''.receipts = receipts) :
    settled (if saved then s''.save ids else s'').disk.load.receipts = settled receipts := by
  split
  · rw [← is, settled_load_save, disk, sound.agrees, is, same]
    have keys : ((settled s.receipts).map fst).Nodup := by
      rw [map_fst_settled]
      exact sound.keys
    exact Entries.foldl_put_of_keys keys rfl fun _ _ => rfl
  · rw [disk, sound.agrees, same]

theorem settled_set (held : s.receipts.get id = some receipt)
    (unresolved : receipt.state.isUnresolved = true) :
    settled (s.receipts.set id { receipt with state := .uncertain }) = settled s.receipts :=
  Entries.mapValues_set_same held (settle_uncertain unresolved)

theorem Sound.sendFails_eq {notSent : Bool} (sound : s.Sound) (runs : s.sends number = some send)
    (waiter : s.waiters.get send.id = some turnId) (held : s.receipts.get send.id = some receipt) :
    s.sendFails number notSent saved =
      let failed : State V := { s with
        sends := update s.sends number none
        log := s.log ++ [.failed number notSent]
        waiters := s.waiters.delete send.id }
      let doubted := s.receipts.set send.id { receipt with state := .uncertain }
      some (if saved then State.save { failed with
          receipts := if notSent then s.receipts.delete send.id else doubted } [send.id]
        else { failed with receipts := doubted }) := by
  obtain ⟨before, known, last, pending, same, held'⟩ := sound.waits waiter
  obtain ⟨ours, known', held'', text⟩ := sound.closure runs waiter
  obtain rfl : known = receipt := some.inj (held'.symm.trans held)
  obtain rfl : known' = known := some.inj (held''.symm.trans held)
  have closure_eq : (⟨send.text, send.turnId, .uncertain⟩ : Receipt) =
      { known' with state := .uncertain } := by
    rw [← text, ours, ← same]
  let failed : State V := { s with
    sends := update s.sends number none
    log := s.log ++ [.failed number notSent]
    waiters := s.waiters.delete send.id }
  have marked : failed.mark send.id send.turnId .uncertain =
      failed.setReceipt send.id { known' with state := .uncertain } := by
    have there : failed.receipts.get send.id = some known' := held
    simp [mark, there, ours, same]
  have absent : Entries.get before send.id = none := by
    have keys := sound.keys
    rw [last, map_append] at keys
    rw [Entries.get_eq_none]
    exact (nodup_cons.mp (nodup_append_comm.mp keys)).1
  have again : (s.receipts.delete send.id).set send.id { known' with state := .uncertain } =
      s.receipts.set send.id { known' with state := .uncertain } := by
    rw [last, Entries.delete_append_single absent, ← Entries.set_of_none absent, Entries.set_set]
  unfold State.sendFails
  rw [runs, map_some]
  simp only [waiter]
  rw [closure_eq]
  congr 1
  cases saved with
  | true =>
    cases notSent with
    | true => rfl
    | false => exact congrArg (fun after => State.save after [send.id]) marked
  | false =>
    -- the storage error makes the receipt uncertain, whatever the failure was
    cases notSent with
    | true => exact congrArg (fun receipts => { failed with receipts }) again
    | false =>
      show (failed.mark send.id send.turnId .uncertain).setReceipt send.id _ = _
      rw [marked]
      exact congrArg (fun receipts => { failed with receipts }) Entries.set_set

theorem Sound.sendFails {notSent : Bool} (sound : s.Sound) (free : s.microtask = none)
    (next : s.sendFails number notSent saved = some s') : s'.Sound := by
  obtain ⟨send, runs, result⟩ := map_eq_some_iff.mp next
  have below := (sound.runs runs).1
  have failures : ∀ note ∈ [Event.failed number notSent], ∃ number' notSent',
      note = .failed number' notSent' ∧ number' < s.started := by
    intro note mem
    rw [mem_singleton.mp mem]
    exact ⟨number, notSent, rfl, below⟩
  have ended : ∀ {other send'}, update s.sends number none other = some send' →
      s.sends other = some send' ∧
        ∀ notSent', .failed other notSent' ∉ [Event.failed number notSent] := by
    intro other send' runs'
    obtain ⟨ne, runs'⟩ := of_update_none runs'
    exact ⟨runs', by simp [ne]⟩
  cases waiter : s.waiters.get send.id with
  | none =>
    simp only [waiter] at result
    subst result
    refine sound.goes free rfl rfl (by simp) ?_ ended (fun there => ⟨there, rfl⟩) sound.keys
      sound.waiterKeys sound.last sound.agrees (sound.fails_tracks number notSent)
      (sound.beganOnce.append (by simp))
    intro other notSent' mem
    simp only [mem_singleton, Event.failed.injEq] at mem
    rw [mem.1]
    exact below
  | some turnId =>
    obtain ⟨before, receipt, last, pending, same, held⟩ := sound.waits waiter
    have unresolved : receipt.state.isUnresolved = true := by rw [pending]; rfl
    have same_settled := settled_set held unresolved
    rw [sound.sendFails_eq runs waiter held, some.injEq] at next
    cases saved with
    | false =>
      subst next
      refine sound.doubted waiter held free rfl rfl ended rfl rfl failures ?_
      exact sound.agrees.trans same_settled.symm
    | true =>
      cases notSent with
      | true =>
        subst next
        refine sound.unsent runs waiter free rfl rfl rfl rfl rfl ?_
        show (State.save _ [send.id]).disk.load.receipts = _
        rw [load_save]
        simp only [map_cons, map_nil, foldl_cons, foldl_nil, if_true]
        rw [Entries.get_delete_self sound.keys]
      | false =>
        subst next
        refine sound.doubted waiter held free rfl rfl ended rfl rfl failures ?_
        have agrees : ∀ after : State V, after.disk = s.disk →
            after.receipts = s.receipts.set send.id { receipt with state := .uncertain } →
            settled (if true then after.save [send.id] else after).disk.load.receipts =
              settled (s.receipts.set send.id { receipt with state := .uncertain }) :=
          fun after disk is => sound.doubt_agrees same_settled disk is
        exact agrees _ rfl rfl

theorem Sound.timeout_eq (sound : s.Sound) (waiter : s.waiters.get id = some turnId)
    (held : s.receipts.get id = some receipt) :
    s.timeout id saved =
      let doubted : State V := { s with
        receipts := s.receipts.set id { receipt with state := .uncertain }
        waiters := s.waiters.delete id }
      some (if saved then doubted.save [id] else doubted) := by
  obtain ⟨before, known, last, pending, same, held'⟩ := sound.waits waiter
  obtain rfl : known = receipt := some.inj (held'.symm.trans held)
  have marked : State.mark { s with waiters := s.waiters.delete id } id turnId .uncertain =
      State.setReceipt { s with waiters := s.waiters.delete id } id
        { known with state := .uncertain } := by
    simp [mark, held, same]
  unfold State.timeout
  rw [waiter, map_some, marked]
  rfl

theorem Sound.timeout (sound : s.Sound) (free : s.microtask = none)
    (next : s.timeout id saved = some s') : s'.Sound := by
  obtain ⟨turnId, waiter, -⟩ := map_eq_some_iff.mp next
  obtain ⟨before, receipt, last, pending, same, held⟩ := sound.waits waiter
  have unresolved : receipt.state.isUnresolved = true := by rw [pending]; rfl
  have log : s.log = s.log ++ [] := (append_nil _).symm
  rw [sound.timeout_eq waiter held, some.injEq] at next
  have agrees : settled s'.disk.load.receipts =
      settled (s.receipts.set id { receipt with state := .uncertain }) := by
    subst next
    exact sound.doubt_agrees (settled_set held unresolved) rfl rfl
  have fields : s'.microtask = s.microtask ∧
      s'.receipts = s.receipts.set id { receipt with state := .uncertain } ∧
      s'.waiters = s.waiters.delete id ∧ s'.sends = s.sends ∧ s'.started = s.started ∧
      s'.log = s.log := by
    subst next
    cases saved <;> exact ⟨rfl, rfl, rfl, rfl, rfl, rfl⟩
  obtain ⟨microtask, receipts, waiters, sends, started, log'⟩ := fields
  exact sound.doubted waiter held (microtask.trans free) receipts waiters
    (fun runs => ⟨sends ▸ runs, by simp⟩) started (log'.trans log) (by simp)
    (agrees.trans (by rw [receipts]))

theorem Sound.set_agrees (sound : s.Sound) (disk : s'.disk = s.disk)
    (receipts : s'.receipts = s.receipts.set id receipt) :
    settled (s'.save [id]).disk.load.receipts = settled s'.receipts := by
  rw [settled_load_save, disk, sound.agrees, receipts]
  simp only [map_cons, map_nil, foldl_cons, foldl_nil, get_settled,
    Entries.get_set_self, map_some]
  exact (Entries.mapValues_set ..).symm

theorem Sound.answers (sound : s.Sound) (free : s.microtask = none)
    (held : s.receipts.get id = some receipt) (accepted : receipt.state = .accepted) :
    (s.note (.answered id receipt.turnId)).Sound := by
  have began : .began (some id) receipt.turnId ∈ s.log :=
    (sound.tracks id).began.mpr ⟨receipt, held, accepted, rfl⟩
  refine sound.goes free rfl rfl (by simp) (by simp) (fun runs => ⟨runs, by simp⟩)
    (fun there => ⟨there, rfl⟩) sound.keys sound.waiterKeys sound.last sound.agrees ?_
    (sound.beganOnce.append (by simp))
  intro other
  show Tracks other (s.receipts.get other) (s.log ++ [.answered id receipt.turnId])
  by_cases same : other = id
  · subst same
    have tracks := sound.tracks other
    constructor
    · intro number send others active mem its
      have mem := (mem_append.mp mem).resolve_right (by simp)
      exact (tracks.owned mem its).imp_left (mem_append_left _)
    · intro turnId
      rw [← tracks.began]
      simp
    · intro turnId mem
      obtain before | new := mem_append.mp mem
      · exact mem_append_left _ (tracks.answered before)
      · simp only [mem_singleton, Event.answered.injEq, true_and] at new
        rw [new]
        exact mem_append_left _ began
    · rw [← tracks.cleared]
      simp
  · exact (sound.tracks other).append (by simp [Event.about, Ne.symm same])

theorem Sound.accepts (sound : s.Sound) (held : s.receipts.get id = some receipt)
    (unresolved : receipt.state.isUnresolved = true) (microtask : s'.microtask = none)
    (receipts : s'.receipts = s.receipts.set id { receipt with state := .accepted })
    (waiters : s'.waiters = s.waiters.delete id) (sends : s'.sends = s.sends)
    (started : s'.started = s.started)
    (log : s'.log = s.log ++ [.began (some id) receipt.turnId, .answered id receipt.turnId])
    (agrees : settled s'.disk.load.receipts = settled s'.receipts) : s'.Sound := by
  have tracks := sound.tracks id
  have isOpen : IsOpen (s.receipts.get id) := by
    rw [held]
    exact isOpen_some unresolved
  have unbegun : ∀ turnId, .began (some id) turnId ∉ s.log := fun turnId mem =>
    isOpen.not_accepted (tracks.began.mp mem)
  have uncleared : .cleared id ∉ s.log := fun mem => isOpen.not_cleared (tracks.cleared.mp mem)
  refine sound.goes microtask started log (by simp) (by simp) ?_ ?_ ?_ ?_ ?_ agrees ?_ ?_
  · intro number send runs
    rw [sends] at runs
    exact ⟨runs, by simp⟩
  · intro other turnId' waiter'
    obtain ⟨ne, waiter'⟩ := sound.unwaited (waiters ▸ waiter')
    exact ⟨waiter', by rw [receipts, Entries.get_set_of_ne ne]⟩
  · exact receipts ▸ Entries.nodup_set sound.keys
  · exact waiters ▸ Entries.nodup_delete sound.waiterKeys
  · rw [receipts]
    exact sound.get_set held fun _ => unresolved
  · intro other
    rw [receipts, log]
    by_cases same : other = id
    · subst same
      rw [Entries.get_set_self]
      constructor
      · exact fun _ _ => .inr rfl
      · intro turnId
        simp [unbegun, eq_comm]
      · intro turnId mem
        obtain before | new := mem_append.mp mem
        · exact mem_append_left _ (tracks.answered before)
        · have same : turnId = receipt.turnId := by simpa using new
          simp [same]
      · simp [uncleared]
    · rw [Entries.get_set_of_ne same]
      exact (sound.tracks other).append (by simp [Event.about, Ne.symm same])
  · rw [log, append_cons]
    refine BeganOnce.append ?_ (by simp)
    intro before other turnId after split
    obtain ⟨rfl, rfl, same⟩ | ⟨after', rfl, earlier⟩ := split_snoc split
    · simp only [Event.began.injEq, some.injEq] at same
      obtain ⟨rfl, rfl⟩ := same
      exact ⟨unbegun, uncleared⟩
    · exact sound.beganOnce before other turnId after' earlier

theorem Sound.acknowledge (sound : s.Sound) (free : s.microtask = none) (id : RequestId) :
    (s.acknowledge id saved).Sound := by
  unfold State.acknowledge
  cases held : s.receipts.get id with
  | none => exact sound
  | some receipt =>
    dsimp only
    cases state : receipt.state with
    | cleared => exact sound
    | accepted => exact sound.answers free held state
    | pending | uncertain =>
      have unresolved : receipt.state.isUnresolved = true := by
        rw [state]
        rfl
      dsimp only
      split
      · exact sound
      · cases saved with
        | false => exact sound
        | true =>
          refine sound.accepts held unresolved free rfl rfl rfl rfl ?_ ?_
          · show (s.log ++ [_]) ++ [_] = _
            rw [append_assoc]
            rfl
          · exact sound.set_agrees rfl rfl

theorem Sound.mem_unresolved (sound : s.Sound) :
    id ∈ s.unresolved ↔
      ∃ receipt, s.receipts.get id = some receipt ∧ receipt.state.isUnresolved = true := by
  simp only [unresolved, List.mem_map, mem_filter]
  constructor
  · rintro ⟨⟨id', receipt⟩, ⟨mem, isUnresolved⟩, rfl⟩
    exact ⟨receipt, (Entries.mem_iff_get sound.keys).mp mem, isUnresolved⟩
  · rintro ⟨receipt, held, isUnresolved⟩
    exact ⟨(id, receipt), ⟨(Entries.mem_iff_get sound.keys).mpr held, isUnresolved⟩, rfl⟩

theorem Sound.asks (sound : s.Sound) (idle : s.active = none) (resolved : s.unresolved = [])
    (new : s.receipts.get id = none) (turnId : TurnId) :
    Sound { State.save { s with
        randoms := s.randoms + 1
        receipts := s.receipts.set id ⟨text, turnId, .pending⟩ } [id] with
      waiters := s.waiters.set id turnId
      microtask := some ⟨id, text, turnId⟩ } := by
  have none_unresolved : ∀ {other receipt}, s.receipts.get other = some receipt →
      receipt.state.isUnresolved ≠ true := by
    intro other receipt there unresolved
    have mem := sound.mem_unresolved.mpr ⟨receipt, there, unresolved⟩
    rw [resolved] at mem
    cases mem
  have no_waiter : ∀ other turnId', s.waiters.get other ≠ some turnId' := by
    intro other turnId' waiter
    obtain ⟨receipt, there, pending, -⟩ := sound.waiting waiter
    exact none_unresolved there (by rw [pending]; rfl)
  have waiter_eq : ∀ {other turnId'}, (s.waiters.set id turnId).get other = some turnId' →
      other = id ∧ turnId' = turnId := by
    intro other turnId' waiter
    by_cases same : other = id
    · subst same
      rw [Entries.get_set_self, some.injEq] at waiter
      exact ⟨rfl, waiter.symm⟩
    · rw [Entries.get_set_of_ne same] at waiter
      exact absurd waiter (no_waiter _ _)
  have failed : ∀ {number send' others active}, .started number send' others active ∈ s.log →
      send'.id = id → .failed number true ∈ s.log := by
    intro number send' others active mem same
    refine ((sound.tracks id).owned mem same).resolve_right ?_
    rw [new]
    simp
  constructor
  case keys => exact Entries.nodup_set sound.keys
  case waiterKeys => exact Entries.nodup_set sound.waiterKeys
  case last =>
    intro other receipt there unresolved
    by_cases same : other = id
    · subst same
      have there : (s.receipts.set other ⟨text, turnId, .pending⟩).get other = some receipt := there
      rw [Entries.get_set_self, some.injEq] at there
      exact ⟨s.receipts, there ▸ Entries.set_of_none new⟩
    · exact absurd unresolved (none_unresolved ((Entries.get_set_of_ne same).symm.trans there))
  case waiting =>
    intro other turnId' waiter
    obtain ⟨rfl, rfl⟩ := waiter_eq waiter
    exact ⟨_, Entries.get_set_self, rfl, rfl⟩
  case agrees =>
    have saves : settled (State.save { s with
        randoms := s.randoms + 1
        receipts := s.receipts.set id ⟨text, turnId, .pending⟩ } [id]).disk.load.receipts =
          settled (s.receipts.set id ⟨text, turnId, .pending⟩) := sound.set_agrees rfl rfl
    exact saves
  case tracks =>
    intro other
    show Tracks other ((s.receipts.set id ⟨text, turnId, .pending⟩).get other) s.log
    by_cases same : other = id
    · subst same
      rw [Entries.get_set_self]
      exact (sound.tracks other).opens (new ▸ isOpen_none) (isOpen_some rfl) fun _ _ => .inr rfl
    · rw [Entries.get_set_of_ne same]
      exact sound.tracks other
  case numbers => exact sound.numbers
  case failures => exact sound.failures
  case running => exact sound.running
  case closure =>
    intro number send' turnId' runs waiter
    obtain ⟨same, -⟩ := waiter_eq waiter
    -- a delivery of the request that still runs would have left a receipt
    obtain ⟨⟨others, active, mem⟩, unfailed⟩ := sound.running runs
    exact absurd (failed mem same) (unfailed true)
  case repeated => exact sound.repeated
  case microtask =>
    intro send' there
    obtain rfl := some.inj there
    exact ⟨idle, Entries.get_set_self, ⟨_, Entries.get_set_self, rfl⟩, failed⟩
  case started => exact sound.started
  case beganOnce => exact sound.beganOnce

theorem Sound.prompt (sound : s.Sound) (free : s.microtask = none) (id : RequestId) :
    (s.prompt id text saved).Sound := by
  unfold State.prompt
  split
  · exact sound
  · split
    · exact sound
    · cases held : s.receipts.get id with
      | some old =>
        dsimp only
        split
        · exact sound
        · split
          · rename_i accepted
            exact sound.answers free held accepted
          · exact sound
      | none =>
        dsimp only
        split
        · exact sound
        · rename_i idle
          simp only [not_or, not_isSome_iff_eq_none, ne_eq, Decidable.not_not] at idle
          split
          · exact sound.asks idle.1 idle.2 held _
          · refine sound.still free ?_ rfl rfl rfl rfl ?_
            · exact Entries.delete_set_of_none held
            · show settled s.disk.load.receipts = settled ((s.receipts.set id _).delete id)
              rw [Entries.delete_set_of_none held, sound.agrees]

theorem Sound.runMicrotask (sound : s.Sound) (next : s.runMicrotask = some s') : s'.Sound := by
  obtain ⟨send, there, rfl⟩ := map_eq_some_iff.mp next
  obtain ⟨idle, waiter, ⟨receipt, held, text⟩, failed⟩ := sound.microtask there
  obtain ⟨before, receipt', last, pending, -, held'⟩ := sound.waits waiter
  -- The send of the microtask is the last one unresolved, so no other waits beside it.
  have alone : (s.unresolved.filter fun other => other ≠ send.id) = [] := by
    rw [filter_eq_nil_iff]
    intro other mem
    obtain ⟨known, found, unresolved⟩ := sound.mem_unresolved.mp mem
    obtain ⟨before', last'⟩ := sound.last found unresolved
    rw [last] at last'
    have same := (append_inj' last' rfl).2
    simp only [cons.injEq, Prod.mk.injEq, and_true] at same
    simp [same.1]
  -- The log grows by this start alone.
  have old : ∀ {number send' others active},
      .started number send' others active ∈ s.log ++
        [.started s.started send (s.unresolved.filter fun other => other ≠ send.id) s.active] →
      .started number send' others active ∈ s.log ∨ (number = s.started ∧ send' = send) := by
    intro number send' others active mem
    refine (mem_append.mp mem).imp_right fun new => ?_
    simp only [mem_singleton, Event.started.injEq] at new
    exact ⟨new.1, new.2.1⟩
  constructor
  case keys => exact sound.keys
  case waiterKeys => exact sound.waiterKeys
  case last => exact sound.last
  case waiting => exact sound.waiting
  case agrees => exact sound.agrees
  case tracks =>
    intro other
    have tracks := sound.tracks other
    by_cases same : other = send.id
    · subst same
      constructor
      · intro number send' others active mem its
        obtain before | ⟨rfl, rfl⟩ := old mem
        · exact (tracks.owned before its).imp_left (mem_append_left _)
        · exact .inr (by simp [held])
      · intro turnId
        rw [← tracks.began]
        simp
      · intro turnId mem
        exact mem_append_left _ (tracks.answered (by simpa using mem))
      · rw [← tracks.cleared]
        simp
    · exact tracks.append (by simp [Event.about, Ne.symm same])
  case numbers =>
    intro number send' others active mem
    obtain before | ⟨rfl, -⟩ := old mem
    · exact Nat.lt_succ_of_lt (sound.numbers before)
    · exact Nat.lt_succ_self _
  case failures =>
    intro number notSent mem
    exact Nat.lt_succ_of_lt (sound.failures (by simpa using mem))
  case running =>
    intro number send' runs
    dsimp only at runs ⊢
    by_cases new : number = s.started
    · subst new
      rw [update_self, some.injEq] at runs
      subst runs
      refine ⟨⟨_, _, mem_append_right _ (mem_singleton_self _)⟩, fun notSent mem => ?_⟩
      have before : .failed s.started notSent ∈ s.log := by simpa using mem
      exact Nat.lt_irrefl _ (sound.failures before)
    · rw [update_of_ne new] at runs
      obtain ⟨⟨others, active, mem⟩, unfailed⟩ := sound.running runs
      exact ⟨⟨others, active, mem_append_left _ mem⟩, fun notSent mem =>
        unfailed notSent (by simpa using mem)⟩
  case closure =>
    intro number send' turnId' runs waiter'
    dsimp only at runs waiter'
    by_cases new : number = s.started
    · subst new
      rw [update_self, some.injEq] at runs
      subst runs
      rw [waiter, some.injEq] at waiter'
      exact ⟨waiter', receipt, held, text⟩
    · rw [update_of_ne new] at runs
      exact sound.closure runs waiter'
  -- A second start of one send comes after the first failed: the last start before this
  -- one has failed, and no later one exists.
  case repeated =>
    intro number send₁ others active later send₂ others' active' first second same earlier
    dsimp only at first second ⊢
    obtain before | ⟨rfl, rfl⟩ := old first
    · obtain before' | ⟨rfl, rfl⟩ := old second
      · exact mem_append_left _ (sound.repeated before before' same earlier)
      · exact mem_append_left _ (failed before same)
    · obtain before' | ⟨rfl, rfl⟩ := old second
      · exact absurd (sound.numbers before') (by omega)
      · omega
  case microtask =>
    intro send' there'
    cases there'
  case started =>
    intro before number send' others active after split
    obtain ⟨rfl, rfl, same⟩ | ⟨after', rfl, shorter⟩ := split_snoc split
    · simp only [Event.started.injEq] at same
      obtain ⟨rfl, rfl, rfl, rfl⟩ := same
      exact ⟨alone, idle, fun _ _ _ _ mem its => failed mem its⟩
    · exact sound.started before number send' others active after' shorter
  case beganOnce => exact sound.beganOnce.append (by simp)

theorem Sound.begins (sound : s.Sound) (free : s.microtask = none) {turnId : TurnId}
    (begun : s.begin none text turnId [] saved = some s') :
    s'.Sound := by
  cases saved with
  | false => cases begun
  | true =>
    obtain rfl := some.inj begun
    refine sound.goes free rfl rfl (by simp) (by simp) (fun runs => ⟨runs, by simp⟩)
      (fun there => ⟨there, rfl⟩) sound.keys sound.waiterKeys sound.last ?_ ?_
      (sound.beganOnce.append (by simp))
    · show settled (State.save _ []).disk.load.receipts = settled s.receipts
      rw [load_save_nil]
      exact sound.agrees
    · exact fun id => (sound.tracks id).append (by simp [Event.about])

theorem Sound.hook {event : HookEvent} {transcript : Except Unit (Option (Transcript V))}
    (sound : s.Sound) (free : s.microtask = none) :
    (s.hook usesPromptHook event transcript saved).Sound := by
  have closes : (s.closing event transcript saved).Sound := by
    unfold closing
    split
    · dsimp only
      split
      · refine sound.still free rfl rfl rfl rfl rfl ?_
        show settled (State.save _ []).disk.load.receipts = settled s.receipts
        rw [load_save_nil]
        exact sound.agrees
      · exact sound.still free rfl rfl rfl rfl rfl sound.agrees
    · exact sound
  unfold State.hook
  split
  · split
    · exact sound.still free rfl rfl rfl rfl rfl sound.agrees
    · exact sound
  · split
    · exact sound
    · cases event.name with
      | userPromptSubmit =>
        dsimp only
        split
        · exact sound
        · unfold submitted
          dsimp only
          have made : Sound { s with randoms := s.randoms + 1 } :=
            sound.still free rfl rfl rfl rfl rfl sound.agrees
          split
          · exact sound.acknowledge free _
          · split
            · exact made
            · rename_i begun
              exact made.begins free begun
      | stop => exact closes
      | stopFailure => exact closes
      | sessionEnd => exact closes
      | sessionStart => exact sound
      | other => exact sound

theorem Sound.reply (sound : s.Sound) (free : s.microtask = none) :
    (s.reply id text saved).Sound := by
  unfold State.reply
  split
  · exact sound
  · split
    · exact sound
    · split
      · exact sound
      · dsimp only
        split
        · refine sound.still free rfl rfl rfl rfl rfl ?_
          show settled (State.save _ []).disk.load.receipts = settled s.receipts
          rw [load_save_nil]
          exact sound.agrees
        · exact sound.still free rfl rfl rfl rfl rfl sound.agrees

theorem Sound.mem_uncertainIds (sound : s.Sound) :
    id ∈ s.uncertainIds ↔
      ∃ receipt, s.receipts.get id = some receipt ∧ receipt.state = .uncertain := by
  simp only [uncertainIds, List.mem_map, mem_filter, decide_eq_true_eq]
  constructor
  · rintro ⟨⟨id', receipt⟩, ⟨mem, uncertain⟩, rfl⟩
    exact ⟨receipt, (Entries.mem_iff_get sound.keys).mp mem, uncertain⟩
  · rintro ⟨receipt, held, uncertain⟩
    exact ⟨(id, receipt), ⟨(Entries.mem_iff_get sound.keys).mpr held, uncertain⟩, rfl⟩

theorem clearUncertain_eq (certain : receipt.state ≠ .uncertain) :
    clearUncertain receipt = receipt := if_neg certain

theorem Sound.clears (sound : s.Sound) (free : s.microtask = none) (unwaited : s.waiters = []) :
    Sound { State.save { s with receipts := s.receipts.mapValues clearUncertain } s.uncertainIds with
      log := s.log ++ s.uncertainIds.map Event.cleared } := by
  have cleared_notes : ∀ note ∈ s.uncertainIds.map Event.cleared,
      ∃ id ∈ s.uncertainIds, note = .cleared id := by
    intro note mem
    obtain ⟨id, there, rfl⟩ := mem_map.mp mem
    exact ⟨id, there, rfl⟩
  have keys : (s.receipts.mapValues clearUncertain).map fst = s.receipts.map fst := by
    simp [Entries.mapValues, comp_def]
  refine sound.goes free rfl rfl ?_ ?_ ?_ ?_ ?_ sound.waiterKeys ?_ ?_ ?_ ?_
  · intro number send others active mem
    obtain ⟨_, _, same⟩ := cleared_notes _ mem
    cases same
  · intro number notSent mem
    obtain ⟨_, _, same⟩ := cleared_notes _ mem
    cases same
  · intro number send runs
    refine ⟨runs, fun notSent mem => ?_⟩
    obtain ⟨_, _, same⟩ := cleared_notes _ mem
    cases same
  · intro id turnId waiter
    have waiter : s.waiters.get id = some turnId := waiter
    rw [unwaited] at waiter
    cases waiter
  · show ((s.receipts.mapValues clearUncertain).map fst).Nodup
    rw [keys]
    exact sound.keys
  · intro id receipt there unresolved
    have there : (s.receipts.mapValues clearUncertain).get id = some receipt := there
    rw [Entries.get_mapValues, map_eq_some_iff] at there
    obtain ⟨known, held, rfl⟩ := there
    -- only a pending receipt is still unresolved
    have certain : known.state ≠ .uncertain := by
      intro uncertain
      rw [clearUncertain, if_pos uncertain] at unresolved
      cases unresolved
    rw [clearUncertain_eq certain] at unresolved ⊢
    obtain ⟨before, last⟩ := sound.last held unresolved
    refine ⟨before.mapValues clearUncertain, ?_⟩
    show s.receipts.mapValues clearUncertain = _
    rw [last, Entries.mapValues, map_append]
    simp [Entries.mapValues, clearUncertain_eq certain]
  · show settled (State.save { s with receipts := s.receipts.mapValues clearUncertain }
      s.uncertainIds).disk.load.receipts = settled (s.receipts.mapValues clearUncertain)
    rw [settled_load_save]
    show _ = settled (s.receipts.mapValues clearUncertain)
    rw [sound.agrees]
    have distinct : ((settled s.receipts).map fst).Nodup := by
      rw [map_fst_settled]
      exact sound.keys
    refine Entries.foldl_put_of_keys distinct ?_ fun id certain => ?_
    · rw [map_fst_settled, keys, map_fst_settled]
    · rw [get_settled, get_settled, Entries.get_mapValues]
      cases held : s.receipts.get id with
      | none => rfl
      | some receipt =>
        have state : receipt.state ≠ .uncertain := fun uncertain =>
          certain (sound.mem_uncertainIds.mpr ⟨receipt, held, uncertain⟩)
        rw [map_some, map_some, map_some, clearUncertain_eq state]
  · intro id
    show Tracks id ((s.receipts.mapValues clearUncertain).get id) _
    rw [Entries.get_mapValues]
    by_cases uncertain : id ∈ s.uncertainIds
    · obtain ⟨receipt, held, state⟩ := sound.mem_uncertainIds.mp uncertain
      have isOpen : IsOpen (s.receipts.get id) := by
        rw [held]
        exact isOpen_some (by rw [state]; rfl)
      rw [held, map_some]
      refine (sound.tracks id).clears isOpen (by rw [clearUncertain, if_pos state])
        (mem_map_of_mem uncertain) ?_
      intro note mem
      obtain ⟨other, _, rfl⟩ := cleared_notes note mem
      by_cases same : other = id
      · exact .inl (by rw [same])
      · exact .inr (by simpa [Event.about] using same)
    · have still : (s.receipts.get id).map clearUncertain = s.receipts.get id := by
        cases held : s.receipts.get id with
        | none => rfl
        | some receipt =>
          have state : receipt.state ≠ .uncertain := fun isUncertain =>
            uncertain (sound.mem_uncertainIds.mpr ⟨receipt, held, isUncertain⟩)
          rw [map_some, clearUncertain_eq state]
      rw [still]
      refine (sound.tracks id).append fun note mem => ?_
      obtain ⟨other, there, rfl⟩ := cleared_notes note mem
      simp only [Event.about, ne_eq, some.injEq]
      exact fun same => uncertain (same ▸ there)
  · refine sound.beganOnce.append fun id turnId mem => ?_
    obtain ⟨_, _, same⟩ := cleared_notes _ mem
    cases same

theorem Sound.queueClear (sound : s.Sound) (free : s.microtask = none) :
    (s.queueClear saved).Sound := by
  unfold State.queueClear
  split
  · exact sound
  · split
    · exact sound
    · rename_i idle
      split
      · exact sound.clears free (by simpa using (not_or.mp idle).2)
      · exact sound

theorem Sound.waiters_cases (sound : s.Sound) :
    s.waiters = [] ∨ ∃ id turnId, s.waiters = [(id, turnId)] := by
  cases waiters : s.waiters with
  | nil => exact .inl rfl
  | cons first rest =>
    refine .inr ⟨first.1, first.2, ?_⟩
    cases rest with
    | nil => rfl
    | cons second rest =>
      have mem : ∀ entry ∈ s.waiters, s.waiters.get entry.1 = some entry.2 := fun entry there =>
        (Entries.mem_iff_get sound.waiterKeys).mp there
      obtain ⟨before, receipt, last, -⟩ := sound.waits (mem first (by simp [waiters]))
      obtain ⟨before', receipt', last', -⟩ := sound.waits (mem second (by simp [waiters]))
      rw [last] at last'
      have same := (append_inj' last' rfl).2
      simp only [cons.injEq, Prod.mk.injEq, and_true] at same
      have distinct := sound.waiterKeys
      rw [waiters] at distinct
      simp [same.1] at distinct

theorem Sound.disconnects (sound : s.Sound) : (s.waiters = [] ∧ s.close true = State.save s [] ∧
      s.close false = s) ∨
    ∃ id turnId receipt, s.waiters = [(id, turnId)] ∧ s.waiters.get id = some turnId ∧
      s.receipts.get id = some receipt ∧ receipt.state.isUnresolved = true ∧
      ∀ saved, s.close saved =
        let doubted : State V := { s with
          receipts := s.receipts.set id { receipt with state := .uncertain }
          waiters := s.waiters.delete id }
        if saved then doubted.save [id] else doubted := by
  obtain none | ⟨id, turnId, one⟩ := sound.waiters_cases
  · have same : ({ s with waiters := [] } : State V) = s := by rw [← none]
    refine .inl ⟨none, ?_, ?_⟩
    · show State.save { s with receipts := _, waiters := [] } (s.waiters.map fst) = _
      rw [none]
      exact congrArg (fun s => State.save s []) same
    · show ({ s with receipts := _, waiters := [] } : State V) = _
      rw [none]
      exact same
  · have waiter : s.waiters.get id = some turnId := by simp [one, Entries.get]
    obtain ⟨before, receipt, last, pending, same, held⟩ := sound.waits waiter
    have unresolved : receipt.state.isUnresolved = true := by rw [pending]; rfl
    refine .inr ⟨id, turnId, receipt, one, waiter, held, unresolved, fun saved => ?_⟩
    unfold State.close
    simp [one, disconnected, held, Entries.delete]

theorem Sound.close (sound : s.Sound) (free : s.microtask = none) :
    (s.close saved).Sound := by
  have log : s.log = s.log ++ [] := (append_nil _).symm
  obtain ⟨-, written, unwritten⟩ | ⟨id, turnId, receipt, -, waiter, held, unresolved, closed⟩ :=
    sound.disconnects
  · cases saved with
    | false => exact unwritten.symm ▸ sound
    | true =>
      rw [written]
      refine sound.still free rfl rfl rfl rfl rfl ?_
      rw [load_save_nil]
      exact sound.agrees
  · rw [closed]
    have agrees : settled (if saved then State.save { s with
          receipts := s.receipts.set id { receipt with state := .uncertain }
          waiters := s.waiters.delete id } [id]
        else { s with
          receipts := s.receipts.set id { receipt with state := .uncertain }
          waiters := s.waiters.delete id }).disk.load.receipts =
          settled (s.receipts.set id { receipt with state := .uncertain }) :=
      sound.doubt_agrees (settled_set held unresolved) rfl rfl
    cases saved with
    | false =>
      exact sound.doubted waiter held free rfl rfl (fun runs => ⟨runs, by simp⟩) rfl log
        (by simp) agrees
    | true =>
      exact sound.doubted waiter held free rfl rfl (fun runs => ⟨runs, by simp⟩) rfl log
        (by simp) agrees

theorem Sound.restart (sound : s.Sound) : s.restart.Sound := by
  have receipts : s.restart.receipts = settled s.receipts := sound.agrees
  constructor
  case keys =>
    rw [receipts, map_fst_settled]
    exact sound.keys
  case waiterKeys => exact .nil
  case last =>
    intro id receipt there unresolved
    rw [receipts, get_settled, map_eq_some_iff] at there
    obtain ⟨known, held, rfl⟩ := there
    obtain ⟨before, last⟩ := sound.last held (by simpa using unresolved)
    refine ⟨settled before, ?_⟩
    rw [receipts, last]
    simp [settled, Entries.mapValues]
  case waiting =>
    intro id turnId waiter
    cases waiter
  case agrees =>
    rw [receipts, settled_settled]
    exact sound.agrees
  case tracks =>
    intro id
    rw [receipts, get_settled]
    exact (sound.tracks id).settle
  case numbers => exact sound.numbers
  case failures => exact sound.failures
  case running =>
    intro number send runs
    cases runs
  case closure =>
    intro number send turnId runs
    cases runs
  case repeated => exact sound.repeated
  case microtask =>
    intro send there
    cases there
  case started => exact sound.started
  case beganOnce => exact sound.beganOnce

theorem Sound.start (initial : List (Turn V)) : (start initial).Sound := by
  constructor
  case tracks =>
    intro id
    constructor <;> simp [State.start, fromDisk, Disk.load, Saved.maps, Maps.saved, Saved.settle,
      Entries.mapValues]
  case started =>
    intro before number send others active after split
    simp [State.start, fromDisk] at split
  case beganOnce =>
    intro before id turnId after split
    simp [State.start, fromDisk] at split
  all_goals
    simp [State.start, fromDisk, Disk.load, Saved.maps, Maps.saved, Saved.settle, settled,
      Entries.mapValues]

theorem Sound.step {label : Step V} (sound : s.Sound)
    (next : s.step usesPromptHook label = some s') : s'.Sound := by
  unfold State.step at next
  cases free : s.microtask with
  | some send =>
    rw [free] at next
    cases label with
    | microtask => exact sound.runMicrotask next
    | restart =>
      cases next
      exact sound.restart
    | _ => cases next
  | none =>
    rw [free] at next
    cases label with
    | prompt id text saved =>
      cases next
      exact sound.prompt free id
    | microtask => cases next
    | sendEnds number => exact sound.sendEnds free next
    | sendFails number notSent saved => exact sound.sendFails free next
    | timeout id saved => exact sound.timeout free next
    | acknowledge id saved =>
      cases next
      exact sound.acknowledge free id
    | reply id text saved =>
      cases next
      exact sound.reply free
    | hook event transcript saved =>
      cases next
      exact sound.hook free
    | queueClear saved =>
      cases next
      exact sound.queueClear free
    | close saved =>
      cases next
      exact sound.close free
    | restart =>
      cases next
      exact sound.restart

theorem sound_of_reachable {initial : List (Turn V)}
    (run : (system usesPromptHook initial).Reachable System.always s) : s.Sound :=
  run.invariant Sound (Sound.start initial) fun _ _ sound next => sound.step next

end State

end Agentix.Claude
