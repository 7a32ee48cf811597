import Agentix.MemoryStore.Context

/-! # Context retries are stable -/

namespace Agentix.MemoryStore

open Lib List Option

variable {encode : ContextLine → String} {store store' s : ContextStore} {request : ContextRequest}
  {candidates : Option (List Memory)} {packet : ContextPacket} {now : Int} {m : Memory}
  {ref : MemoryRef} {key : String × String × String} {r : ContextReceipt}

/-! ## References -/

variable {call : ContextCall} {first : ContextPacket} {db : Database} {refs : List MemoryRef}
  {projectId : String}

theorem referenced_eq_some :
    db.referenced projectId now ref = some m ↔ db.memory ref.id = some m ∧
      m.revision = ref.revision ∧ m.usable projectId now = true := by
  simp [Database.referenced, filter_eq_some_iff]

theorem ref_of_referenced (found : db.referenced projectId now ref = some m) : m.ref = ref := by
  obtain ⟨row, revision, -⟩ := referenced_eq_some.mp found
  have id : m.id = ref.id := (rowOf_some row).2
  unfold Memory.ref
  rw [id, revision]

theorem rows_sublist (refs : List MemoryRef) :
    ((refs.filterMap (db.referenced projectId now)).map Memory.ref).Sublist refs := by
  induction refs with
  | nil => exact List.Sublist.refl _
  | cons ref rest ih =>
    cases found : db.referenced projectId now ref with
    | none =>
      rw [filterMap_cons_none found]
      exact ih.cons _
    | some m =>
      rw [filterMap_cons_some found, map_cons, ref_of_referenced found]
      exact ih.cons_cons _

/-! ## One request -/

/-- The packet of the rows of some references, and its receipt. -/
structure Prepared (encode : ContextLine → String) (store store' : ContextStore)
    (request : ContextRequest) (now : Int) (packet : ContextPacket) (refs : List MemoryRef) : Prop
    where
  preview : contextPreview encode request.projectId
    (refs.filterMap (store.db.referenced request.projectId now)) request.budget now = .ok packet
  persisted : store' = store.persist request packet now

theorem prepared_of_prepareContext
    (ok : store.prepareContext encode request candidates now = .ok (some packet, store')) :
    request.validate = .ok () ∧ ∃ refs, store.references request candidates = some refs ∧
      Prepared encode store store' request now packet refs := by
  simp only [ContextStore.prepareContext, bind_ok, ensure_ok] at ok
  obtain ⟨⟨⟩, valid, -, -, ok⟩ := ok
  refine ⟨valid, ?_⟩
  cases found : store.references request candidates with
  | none => simp [found] at ok
  | some refs =>
    simp only [found, bind_ok, pure_ok, Prod.mk.injEq, some.injEq] at ok
    obtain ⟨_, preview, rfl, rfl⟩ := ok
    exact ⟨refs, rfl, preview, rfl⟩

theorem prepared_of_answer (ok : store.answer encode request now call = .ok (some packet, store')) :
    request.validate = .ok () ∧ ∃ candidates refs,
      store.references request candidates = some refs ∧
        Prepared encode store store' request now packet refs := by
  cases call with
  | context candidates =>
    simp only [ContextStore.answer, ContextStore.context, bind_ok, pure_ok, ensure_ok,
      Prod.mk.injEq, Prod.exists] at ok
    obtain ⟨_, _, prepared, -, -, rfl, rfl⟩ := ok
    exact (prepared_of_prepareContext prepared).imp_right fun spec => ⟨_, spec⟩
  | cached =>
    simp only [ContextStore.answer, ContextStore.cachedContext, bind_ok] at ok
    obtain ⟨⟨⟩, -, ok⟩ := ok
    split at ok
    · exact (prepared_of_prepareContext ok).imp_right fun spec => ⟨_, spec⟩
    · simp at ok

theorem Prepared.kept (prepared : Prepared encode store store' request now packet refs) :
    ∃ kept omitted, kept.Sublist
        (refs.filterMap (store.db.referenced request.projectId now)) ∧
      packet = packetOf encode kept omitted ∧ (kept.map Memory.id).Nodup ∧
      (packetText encode kept).utf8ByteSize ≤ request.budget := by
  have preview := prepared.preview
  simp only [contextPreview, bind_ok, pure_ok, ensure_ok] at preview
  obtain ⟨⟨⟩, -, filled⟩ := preview
  have start : ({} : ContextPacket) = packetOf encode [] 0 := rfl
  rw [start] at filled
  have unique : (([] : List Memory).map Memory.id).Nodup := nodup_nil
  have room : (packetText encode ([] : List Memory)).utf8ByteSize ≤ request.budget := Nat.zero_le _
  obtain ⟨kept, omitted, sublist, same, -, distinct, size⟩ := foldl_include 0 unique room
  exact ⟨kept, omitted, sublist, filled.symm.trans same, distinct, size⟩

theorem Prepared.mem_kept {kept : List Memory}
    (sublist : kept.Sublist (refs.filterMap (store.db.referenced request.projectId now)))
    (mem : m ∈ kept) :
    store.db.memory m.id = some m ∧ m.usable request.projectId now = true := by
  obtain ⟨ref, -, found⟩ := mem_filterMap.mp (sublist.subset mem)
  have same := ref_of_referenced found
  obtain ⟨row, -, usable⟩ := referenced_eq_some.mp found
  refine ⟨?_, usable⟩
  have id : m.id = ref.id := congrArg MemoryRef.id same
  rw [id]
  exact row

/-! ## Receipts -/

theorem mem_persist (mem : r ∈ (store.persist request packet now).receipts) :
    r.key = request.key ∧ r.data = packet ∨ r ∈ store.receipts ∧ r.key ≠ request.key := by
  unfold ContextStore.persist upsert at mem
  dsimp only at mem
  split at mem
  · obtain ⟨old, here, ⟨same, rfl⟩ | ⟨other, rfl⟩⟩ := mem_alter.mp mem
    · left
      split
      · exact ⟨rfl, rfl⟩
      · rename_i current
        simp only [Bool.or_eq_true, decide_eq_true_eq, not_or, Decidable.not_not, ne_eq] at current
        exact ⟨same, current.1⟩
    · exact .inr ⟨here, other⟩
  · rename_i free
    obtain old | new := mem_append.mp mem
    · exact .inr ⟨old, fun same => free (any_key.mpr ⟨r, old, same⟩)⟩
    · rw [mem_singleton.mp new]
      exact .inl ⟨rfl, rfl⟩

theorem mem_persist_of_mem (mem : r ∈ store.receipts) (other : r.key ≠ request.key) :
    r ∈ (store.persist request packet now).receipts := by
  unfold ContextStore.persist upsert
  dsimp only
  split
  · exact mem_alter.mpr ⟨r, mem, .inr ⟨other, rfl⟩⟩
  · exact mem_append_left _ mem

theorem exists_persist : ∃ r ∈ (store.persist request packet now).receipts,
    r.key = request.key := by
  unfold ContextStore.persist upsert
  dsimp only
  split
  · rename_i taken
    obtain ⟨old, here, same⟩ := any_key.mp taken
    refine ⟨_, mem_alter.mpr ⟨old, here, .inl ⟨same, rfl⟩⟩, ?_⟩
    split
    · rfl
    · exact same
  · exact ⟨⟨request.key, packet, now⟩, by simp, rfl⟩

theorem references_of_receipt (known : ∃ r ∈ store.receipts, r.key = request.key)
    (candidates : Option (List Memory)) : ∃ r ∈ store.receipts, r.key = request.key ∧
      store.receipt request.key = some r ∧
        store.references request candidates = some r.data.items := by
  cases found : store.receipt request.key with
  | none =>
    obtain ⟨r, mem, same⟩ := known
    have absent := find?_eq_none.mp found r mem
    simp [same] at absent
  | some r =>
    obtain ⟨mem, same⟩ := rowOf_some found
    refine ⟨r, mem, same, rfl, ?_⟩
    simp [ContextStore.references, found]

theorem persist_eq_self (known : ∃ r ∈ store.receipts, r.key = request.key)
    (current : ∀ r ∈ store.receipts, r.key = request.key →
      r.data = packet ∧ now - 3600 < r.updatedAt) :
    store.persist request packet now = store := by
  unfold ContextStore.persist upsert
  dsimp only
  rw [if_pos (any_key.mpr known)]
  have same : alter ContextReceipt.key request.key (fun r => if (decide (r.data ≠ packet) ||
      decide (r.updatedAt ≤ now - 3600)) = true then ⟨request.key, packet, now⟩ else r)
      store.receipts = store.receipts := by
    unfold alter
    conv_rhs => rw [← map_id store.receipts]
    refine map_congr_left fun r mem => ?_
    split
    · rename_i key
      obtain ⟨data, fresh⟩ := current r mem key
      have keep : ¬(decide (r.data ≠ packet) || decide (r.updatedAt ≤ now - 3600)) = true := by
        simp [data, fresh]
      exact if_neg keep
    · rfl
  rw [same]

/-! ## Retries -/

/-- The bound on the candidates of a request. -/
def ContextCall.Bounded : ContextCall → Prop
  | .context candidates => candidates.length ≤ 100
  | .cached => True

theorem answer_of_receipt (valid : request.validate = .ok ()) (bounded : call.Bounded)
    (known : (store.receipt request.key).isSome = true)
    (references : ∀ candidates, store.references request candidates = some refs)
    (preview : contextPreview encode request.projectId
      (refs.filterMap (store.db.referenced request.projectId now)) request.budget now =
        .ok packet) :
    store.answer encode request now call =
      .ok (some packet, store.persist request packet now) := by
  cases call with
  | context candidates =>
    have bound : candidates.length ≤ 100 := bounded
    simp only [ContextStore.answer, ContextStore.context, ContextStore.prepareContext, valid,
      references, preview, ensure, all_some, bound, decide_true, if_true]
    rfl
  | cached =>
    simp only [ContextStore.answer, ContextStore.cachedContext, ContextStore.prepareContext, valid,
      references, preview, ensure, known, all_none, if_true]
    rfl

/-- Receipts are not cleaned up that were used in the last thirty days. -/
def Retains (key : String × String × String) (store : ContextStore) : ContextStep → Prop
  | .cleanup now => ∀ r ∈ store.receipts, r.key = key → now - 2592000 ≤ r.updatedAt
  | _ => True

/-- The receipts of a turn have items of its first packet only, and there is one. -/
structure Narrows (key : String × String × String) (first : ContextPacket) (store : ContextStore) :
    Prop where
  known : ∃ r ∈ store.receipts, r.key = key
  items : ∀ r ∈ store.receipts, r.key = key → r.data.items.Sublist first.items

theorem Prepared.items_sublist (prepared : Prepared encode store store' request now packet refs) :
    packet.items.Sublist refs := by
  obtain ⟨kept, omitted, sublist, rfl, -⟩ := prepared.kept
  exact (sublist.map Memory.ref).trans (rows_sublist refs)

theorem Narrows.answer (narrows : Narrows key first store)
    (ok : store.answer encode request now call = .ok (some packet, store'))
    (same : request.key = key) : packet.items.Sublist first.items := by
  obtain ⟨-, candidates, refs, references, prepared⟩ := prepared_of_answer ok
  obtain ⟨r, mem, key_eq, -, known⟩ :=
    references_of_receipt (by rw [same]; exact narrows.known : ∃ r ∈ store.receipts, r.key = request.key) candidates
  obtain rfl := some.inj (references.symm.trans known)
  exact prepared.items_sublist.trans (narrows.items r mem (key_eq.trans same))

theorem answer_none (ok : store.answer encode request now call = .ok (none, store')) :
    store' = store := by
  cases call with
  | context candidates =>
    simp [ContextStore.answer, ContextStore.context] at ok
  | cached =>
    simp only [ContextStore.answer, ContextStore.cachedContext, bind_ok] at ok
    obtain ⟨⟨⟩, -, ok⟩ := ok
    split at ok
    · rename_i known
      simp only [ContextStore.prepareContext, bind_ok, ensure_ok] at ok
      obtain ⟨⟨⟩, -, -, -, ok⟩ := ok
      cases found : store.references request none with
      | none =>
        simp only [found, pure_ok, Prod.mk.injEq, true_and] at ok
        exact ok.symm
      | some refs => simp [found] at ok
    · simp only [pure_ok, Prod.mk.injEq, true_and] at ok
      exact ok.symm

theorem Narrows.step {label : ContextStep} (narrows : Narrows key first store)
    (retains : Retains key store label) :
    Narrows key first (store.step encode label) := by
  cases label with
  | change db => exact ⟨narrows.known, narrows.items⟩
  | cleanup now =>
    have stays : ∀ r ∈ store.receipts, r.key = key →
        r ∈ (store.cleanupContext now).receipts := by
      intro r mem same
      refine mem_filter.mpr ⟨mem, ?_⟩
      have recent := retains r mem same
      simp only [decide_eq_true_eq]
      intro old
      have before := (mem_filter.mp (mem_of_mem_take old)).2
      rw [decide_eq_true_eq] at before
      omega
    obtain ⟨r, mem, same⟩ := narrows.known
    refine ⟨⟨r, stays r mem same, same⟩, ?_⟩
    intro r mem same
    exact narrows.items r (mem_of_mem_filter mem) same
  | request request call now =>
    unfold ContextStore.step
    dsimp only
    cases result : store.answer encode request now call with
    | error message => exact narrows
    | ok answered =>
      obtain ⟨packet, store'⟩ := answered
      cases packet with
      | none => exact answer_none result ▸ narrows
      | some packet =>
        obtain ⟨-, candidates, refs, -, prepared⟩ := prepared_of_answer result
        have persisted := prepared.persisted
        subst persisted
        by_cases same : request.key = key
        · refine ⟨same ▸ exists_persist, ?_⟩
          intro r mem key_eq
          obtain ⟨-, rfl⟩ | ⟨-, other⟩ := mem_persist mem
          · exact narrows.answer result same
          · exact absurd (key_eq.trans same.symm) other
        · constructor
          · obtain ⟨r, mem, key_eq⟩ := narrows.known
            have other : r.key ≠ request.key := fun equal => same (equal.symm.trans key_eq)
            exact ⟨r, mem_persist_of_mem mem other, key_eq⟩
          · intro r mem key_eq
            obtain ⟨own, -⟩ | ⟨old, -⟩ := mem_persist mem
            · exact absurd (own.symm.trans key_eq) same
            · exact narrows.items r old key_eq

theorem Narrows.path (narrows : Narrows key first store)
    (path : (contexts encode).Path (Retains key) store s) : Narrows key first s := by
  refine invariant_of_steps (Narrows key first) ?_ path narrows
  rintro a b ⟨label, retains, rfl⟩ narrows
  exact narrows.step retains

theorem Prepared.again {later : Int}
    (prepared : Prepared encode store store' request now packet refs)
    (valid : request.validate = .ok ())
    (unexpired : ∀ item ∈ packet.items, ∀ m, store.db.memory item.id = some m →
      m.expired later = false) :
    contextPreview encode request.projectId
      (packet.items.filterMap (store.db.referenced request.projectId later)) request.budget later =
        .ok { packet with omitted := 0 } := by
  obtain ⟨kept, omitted, sublist, rfl, distinct, size⟩ := prepared.kept
  have usable : ∀ m ∈ kept, m.usable request.projectId later = true := by
    intro m mem
    obtain ⟨row, before⟩ := Prepared.mem_kept sublist mem
    have fresh := unexpired m.ref (mem_map_of_mem mem) m row
    simp only [Memory.usable, Bool.and_eq_true, Bool.not_eq_true'] at before ⊢
    exact ⟨before.1, fresh⟩
  have rows : (kept.map Memory.ref).filterMap
      (store.db.referenced request.projectId later) = kept := by
    rw [filterMap_map]
    conv_rhs => rw [← filterMap_some (l := kept)]
    refine filterMap_congr fun m mem => ?_
    exact referenced_eq_some.mpr ⟨(Prepared.mem_kept sublist mem).1, rfl, usable m mem⟩
  have all : kept.foldl (includeMemory encode request.projectId request.budget later)
      (packetOf encode [] 0) = packetOf encode kept 0 :=
    foldl_include_all usable distinct size
  have few : kept.length ≤ 100 := by
    have preview := prepared.preview
    simp only [contextPreview, bind_ok, ensure_ok] at preview
    obtain ⟨⟨⟩, ⟨-, -, bound⟩, -⟩ := preview
    exact Nat.le_trans sublist.length_le bound
  have budget : 128 ≤ request.budget ∧ request.budget ≤ 65536 := by
    simp only [ContextRequest.validate, bind_ok, ensure_ok] at valid
    obtain ⟨⟨⟩, -, bounds⟩ := valid
    exact bounds
  unfold contextPreview packetOf
  dsimp only
  rw [rows]
  have start : ({} : ContextPacket) = packetOf encode [] 0 := rfl
  rw [start, all, ensure, if_pos ⟨budget.1, budget.2, few⟩]
  rfl

theorem context_retries_are_stable (encode : ContextLine → String) (store store' : ContextStore)
    (request : ContextRequest) (call : ContextCall) (packet : ContextPacket) (now : Int)
    (prepared : store.answer encode request now call = .ok (some packet, store')) :
    (∀ call' later, ContextCall.Bounded call' →
      (∀ item ∈ packet.items, ∀ m, store.db.memory item.id = some m → m.expired later = false) →
      ∃ again store'', store'.answer encode request later call' = .ok (some again, store'') ∧
        again.text = packet.text ∧ again.items = packet.items ∧
        (packet.omitted = 0 →
          (∀ r ∈ store'.receipts, r.key = request.key → later - 3600 < r.updatedAt) →
          again = packet ∧ store'' = store')) ∧
    ∀ s, (contexts encode).Path (Retains request.key) store' s →
      ∀ request' call' later again s', request'.key = request.key →
        s.answer encode request' later call' = .ok (some again, s') →
        again.items.Sublist packet.items ∧ again.text.utf8ByteSize ≤ request'.budget ∧
          ∀ item ∈ again.items, ∃ m, s.db.memory item.id = some m ∧ m.revision = item.revision ∧
            m.usable request.projectId later = true := by
  obtain ⟨valid, candidates, refs, -, spec⟩ := prepared_of_answer prepared
  have persisted := spec.persisted
  subst persisted
  have known : ∃ r ∈ (store.persist request packet now).receipts, r.key = request.key :=
    exists_persist
  have data : ∀ r ∈ (store.persist request packet now).receipts, r.key = request.key →
      r.data = packet := by
    intro r member same
    obtain ⟨-, data⟩ | ⟨-, other⟩ := mem_persist member
    · exact data
    · exact absurd same other
  constructor
  · intro call' later bounded unexpired
    let again : ContextPacket := { packet with omitted := 0 }
    obtain ⟨r, member, same, found, -⟩ := references_of_receipt known none
    have references : ∀ candidates,
        (store.persist request packet now).references request candidates =
          some packet.items := by
      intro candidates
      obtain ⟨r', member', same', -, references⟩ := references_of_receipt known candidates
      rw [references, data r' member' same']
    have answered : (store.persist request packet now).answer encode request later call' =
        .ok (some again, (store.persist request packet now).persist request again later) :=
      answer_of_receipt valid bounded (by rw [found]; rfl) references (spec.again valid unexpired)
    refine ⟨again, _, answered, rfl, rfl, fun whole recent => ?_⟩
    have same : again = packet := by
      simp only [again, ← whole]
    rw [same]
    exact ⟨rfl, persist_eq_self known fun r member key => ⟨data r member key, recent r member key⟩⟩
  · intro s path request' call' later again s' same answered
    have narrows : Narrows request.key packet (store.persist request packet now) :=
      ⟨known, fun r member key => by rw [data r member key]⟩
    have narrowed := narrows.path path
    refine ⟨narrowed.answer answered same, ?_⟩
    obtain ⟨-, _, refs', -, spec'⟩ := prepared_of_answer answered
    obtain ⟨kept, omitted, sublist, rfl, -, size⟩ := spec'.kept
    refine ⟨size, ?_⟩
    intro item member
    obtain ⟨m, here, rfl⟩ := List.mem_map.mp member
    obtain ⟨row, usable⟩ := Prepared.mem_kept sublist here
    have project : request'.projectId = request.projectId := congrArg Prod.fst same
    exact ⟨m, row, rfl, project ▸ usable⟩

/-! ## A turn -/

/-- An active memory of Project `p`. -/
def recalled : Memory where
  id := "m"
  projectId := "p"
  revision := 1
  status := .active
  actor := .agent
  createdAt := 0
  updatedAt := 0
  reason := ""
  supersedes := none
  supersededBy := none
  derivedFrom := []
  content := ⟨none, "t", "c", "", "", [], none, [], .userDecision, []⟩

/-- The store after the turn's packet was prepared with a budget. -/
def recalledStore : ContextStore := ⟨{ memories := [recalled] }, []⟩

def turn (budget : Nat) : ContextRequest := ⟨"p", "s", "t", budget⟩

example : packetText ContextLine.title [recalled] ≠ "" := by decide +kernel

set_option maxRecDepth 20000 in
theorem context_retry_of_recalled :
    ∃ again store'', (recalledStore.persist (turn 1024)
        (packetOf ContextLine.title [recalled] 0) 0).answer ContextLine.title (turn 1024) 60 .cached =
          .ok (some again, store'') ∧
      again.text = packetText ContextLine.title [recalled] ∧ again.items = [⟨"m", 1⟩] :=
  have prepared : recalledStore.answer ContextLine.title (turn 1024) 0 (.context [recalled]) =
      .ok (some (packetOf ContextLine.title [recalled] 0),
        recalledStore.persist (turn 1024) (packetOf ContextLine.title [recalled] 0) 0) := by
    rfl
  have ⟨again, store'', answered, text, items, _⟩ :=
    (context_retries_are_stable _ _ _ _ _ _ _ prepared).1 .cached 60 trivial (by decide +kernel)
  ⟨again, store'', answered, text, items⟩

set_option maxRecDepth 20000 in
/-- A packet that omitted the memory is not returned again, and an hourly retry writes. -/
theorem omitted_is_lost :
    recalledStore.answer ContextLine.title (turn 128) 0 (.context [recalled]) =
        .ok (some ⟨"", [], 1⟩, recalledStore.persist (turn 128) ⟨"", [], 1⟩ 0) ∧
      (recalledStore.persist (turn 128) ⟨"", [], 1⟩ 0).answer ContextLine.title (turn 128) 0
          (.context [recalled]) =
        .ok (some ⟨"", [], 0⟩, recalledStore.persist (turn 128) ⟨"", [], 0⟩ 0) ∧
      (recalledStore.persist (turn 128) ⟨"", [], 0⟩ 0).answer ContextLine.title (turn 128) 3600
          .cached =
        .ok (some ⟨"", [], 0⟩, recalledStore.persist (turn 128) ⟨"", [], 0⟩ 3600) ∧
      recalledStore.persist (turn 128) ⟨"", [], 0⟩ 0 ≠
        recalledStore.persist (turn 128) ⟨"", [], 0⟩ 3600 := by
  refine ⟨rfl, rfl, rfl, fun same => ?_⟩
  have receipts := congrArg ContextStore.receipts same
  revert receipts
  decide +kernel

end Agentix.MemoryStore
