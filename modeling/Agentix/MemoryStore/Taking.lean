import Agentix.MemoryStore.Queue
import Mathlib.Algebra.GroupWithZero.Nat
import Mathlib.Data.List.Perm.Basic
import Mathlib.Order.Basic

/-! # The parts of a message

The parts that an extraction works on are of a bounded size, follow each other, and are the text.
-/

namespace Agentix.MemoryStore

open List

namespace Payload

/-- `payload["text"]`. -/
def text : Payload → String
  | .message _ _ text _ _ => text
  | _ => ""

/-- `payload["offset"]`. -/
def offset : Payload → Nat
  | .message _ _ _ offset _ => offset
  | _ => 0

/-- `payload["next_offset"]`. -/
def nextOffset : Payload → Option Nat
  | .message _ _ _ _ nextOffset => nextOffset
  | _ => none

end Payload

/-- The parts cover the text of the message from an offset on. -/
structure Covers (message : SourceMessage) (start : Nat) (text : List Char)
    (parts : List Payload) : Prop where
  named : ∀ part ∈ parts, part = .message message.id message.role part.text part.offset
    part.nextOffset
  bounded : ∀ part ∈ parts, part.text ≠ "" ∧ part.text.utf8ByteSize ≤ 16384
  whole : parts.flatMap (fun part => part.text.toList) = text
  contiguous : ∀ before part after, parts = before ++ part :: after →
    part.offset = start + (before.map fun p => p.text.utf8ByteSize).sum ∧
      part.nextOffset = if after = [] then none else some (part.offset + part.text.utf8ByteSize)

theorem takeBytes_append (room : Nat) (text : List Char) :
    (takeBytes room text).1 ++ (takeBytes room text).2 = text := by
  induction text generalizing room with
  | nil => rfl
  | cons c rest ih =>
    unfold takeBytes
    split
    · simp only [cons_append, ih]
    · rfl

theorem size_ofList_cons (c : Char) (rest : List Char) :
    (String.ofList (c :: rest)).utf8ByteSize = c.utf8Size + (String.ofList rest).utf8ByteSize := by
  rw [String.ofList_cons, String.utf8ByteSize_append, String.utf8ByteSize_singleton]

theorem takeBytes_size (room : Nat) (text : List Char) :
    (String.ofList (takeBytes room text).1).utf8ByteSize ≤ room := by
  induction text generalizing room with
  | nil => exact Nat.zero_le _
  | cons c rest ih =>
    unfold takeBytes
    split
    · rename_i fits
      have shorter := ih (room - c.utf8Size)
      rw [size_ofList_cons]
      omega
    · exact Nat.zero_le _

/-- A character has at most four bytes, so that every part takes one. -/
theorem takeBytes_ne_nil {room : Nat} (wide : 4 ≤ room) (c : Char) (rest : List Char) :
    (takeBytes room (c :: rest)).1 ≠ [] := by
  have narrow : c.utf8Size ≤ room := Nat.le_trans c.utf8Size_le_four wide
  simp [takeBytes, narrow]

theorem covers_messageParts (message : SourceMessage) {fuel : Nat} {start : Nat}
    {text : List Char} (enough : text.length ≤ fuel) :
    Covers message start text (messageParts message fuel start text) := by
  induction fuel generalizing start text with
  | zero =>
    obtain rfl := length_eq_zero_iff.mp (Nat.le_zero.mp enough)
    constructor <;> simp [messageParts]
  | succ fuel ih =>
    cases text with
    | nil => constructor <;> simp [messageParts]
    | cons c rest =>
      have whole := takeBytes_append 16384 (c :: rest)
      have size := takeBytes_size 16384 (c :: rest)
      have full : (takeBytes 16384 (c :: rest)).1 ≠ [] := takeBytes_ne_nil (by omega) c rest
      simp only [messageParts]
      generalize (takeBytes 16384 (c :: rest)).1 = taken at whole size full
      generalize (takeBytes 16384 (c :: rest)).2 = left at whole
      have shorter : left.length ≤ fuel := by
        have lengths := congrArg length whole
        have some_taken := length_pos_iff.mpr full
        rw [length_append] at lengths
        omega
      have later : Covers message (start + (String.ofList taken).utf8ByteSize) left _ :=
        ih shorter
      have ends : left = [] ↔
          messageParts message fuel (start + (String.ofList taken).utf8ByteSize) left = [] := by
        constructor
        · rintro rfl
          simp [messageParts]
        · intro none_left
          rw [none_left] at later
          exact later.whole.symm
      constructor
      · intro part mem
        obtain rfl | further := mem_cons.mp mem
        · rfl
        · exact later.named part further
      · intro part mem
        obtain rfl | further := mem_cons.mp mem
        · exact ⟨by simpa [Payload.text] using full, size⟩
        · exact later.bounded part further
      · rw [flatMap_cons, later.whole, ← whole]
        simp [Payload.text]
      · intro before part after split
        cases before with
        | nil =>
          obtain ⟨rfl, rfl⟩ := cons.inj split
          refine ⟨rfl, ?_⟩
          simp only [Payload.nextOffset, Payload.offset, Payload.text, ends]
        | cons first others =>
          obtain ⟨rfl, further⟩ := cons.inj split
          obtain ⟨offset, next⟩ := later.contiguous others part after further
          refine ⟨?_, next⟩
          rw [offset, map_cons, sum_cons]
          simp only [Payload.text]
          omega

theorem covers_parts (message : SourceMessage) :
    Covers message 0 message.text.toList message.parts :=
  covers_messageParts message (Nat.le_refl _)

end Agentix.MemoryStore

/-! # The turns of the sources

The intake of a source with the row of `source_turns` that it inserts or updates, and what intakes
make of an empty store.
-/

namespace Agentix.MemoryStore

open Lib
open TaskStore (startsWith)

/-- A row of `source_turns`. -/
structure SourceTurn where
  turn : TurnKey
  projectId : String
  firstSequence : Int
  receiptId : String
  revision : Int
  recordedAt : Int
  messageCount : Nat
  deriving DecidableEq

/-- The memory database with its table of turns. -/
structure SourceStore where
  db : Database := {}
  sourceTurns : List SourceTurn := []

def Source.row (source : Source) : SourceTurn where
  turn := source.turn
  projectId := source.projectId
  firstSequence := source.sequence
  receiptId := source.receiptId
  revision := source.revision
  recordedAt := source.recordedAt
  messageCount := source.messages.length

/-- The update of a turn that another receipt has a row for. -/
def SourceTurn.update (source : Source) (old : SourceTurn) : SourceTurn :=
  { old with
    firstSequence := min old.firstSequence source.sequence
    receiptId := if old.revision < source.revision then source.receiptId else old.receiptId
    recordedAt := if old.revision < source.revision then source.recordedAt else old.recordedAt
    messageCount :=
      if old.revision < source.revision then source.messages.length else old.messageCount
    revision := max old.revision source.revision }

variable [Environment]

/-- `MemoryStore::ingest`. -/
def SourceStore.ingest (store : SourceStore) (source : Source) : Fallible (Bool × SourceStore) := do
  let (fresh, db) ← store.db.ingest source
  if fresh then
    let sourceTurns :=
      upsert SourceTurn.turn source.row (SourceTurn.update source) store.sourceTurns
    return (true, { db, sourceTurns })
  else return (false, { store with db })

def SourceStore.ingestAll (store : SourceStore) : List Source → Fallible SourceStore
  | [] => .ok store
  | source :: rest => do
    let (_, store) ← store.ingest source
    store.ingestAll rest

end Agentix.MemoryStore

/-! # What intakes make of an empty store

The tables are a function of the set of sources: the heads, the turns and the pending work are those
of the latest revisions.
-/

namespace Agentix.MemoryStore

open Lib List
open TaskStore (startsWith)

variable {sources receipts : List Source} {s x y : Source} {db db' : Database}

/-! ## The latest revisions -/

def latestSources (sources : List Source) : List Source :=
  sources.filter fun x => sources.all fun y => decide (y.turn = x.turn → y.revision ≤ x.revision)

theorem mem_latestSources : x ∈ latestSources sources ↔
    x ∈ sources ∧ ∀ y ∈ sources, y.turn = x.turn → y.revision ≤ x.revision := by
  simp only [latestSources, mem_filter, all_eq_true, decide_eq_true_eq]

theorem exists_latest (mem : y ∈ sources) :
    ∃ x ∈ latestSources sources, x.turn = y.turn := by
  have greatest : ∀ rows : List Source, (∃ z ∈ rows, z.turn = y.turn) →
      ∃ x ∈ rows, x.turn = y.turn ∧ ∀ z ∈ rows, z.turn = y.turn → z.revision ≤ x.revision := by
    intro rows
    induction rows with
    | nil => simp
    | cons first rest ih =>
      intro some_row
      by_cases later : ∃ z ∈ rest, z.turn = y.turn
      · obtain ⟨x, here, same, most⟩ := ih later
        by_cases beats : first.turn = y.turn ∧ x.revision < first.revision
        · refine ⟨first, mem_cons_self, beats.1, ?_⟩
          intro z there of
          obtain rfl | older := mem_cons.mp there
          · exact Int.le_refl _
          · exact Int.le_trans (most z older of) (Int.le_of_lt beats.2)
        · refine ⟨x, mem_cons_of_mem _ here, same, ?_⟩
          intro z there of
          obtain rfl | older := mem_cons.mp there
          · exact Int.not_lt.mp fun more => beats ⟨of, more⟩
          · exact most z older of
      · obtain ⟨z, there, of⟩ := some_row
        have only : z = first := by
          obtain rfl | older := mem_cons.mp there
          · rfl
          · exact absurd ⟨z, older, of⟩ later
        subst only
        refine ⟨z, mem_cons_self, of, fun z' there' of' => ?_⟩
        obtain rfl | older := mem_cons.mp there'
        · exact Int.le_refl _
        · exact absurd ⟨z', older, of'⟩ later
  obtain ⟨x, here, same, most⟩ := greatest sources ⟨y, mem, rfl⟩
  exact ⟨x, mem_latestSources.mpr ⟨here, fun z there of => most z there (of.trans same)⟩, same⟩

/-- Receipts that a store can take in: valid ones with identifiers of their own, in which the
revisions of a turn differ and have one Project. -/
structure Coherent (receipts : List Source) : Prop where
  accepted : ∀ x ∈ receipts, (x.receiptId ≠ "" ∧ x.projectId ≠ "" ∧ 0 < x.revision) ∧
    x.messages.all fun m => m.id ≠ "" && (m.role = "user" || m.role = "assistant")
  ids : ∀ x ∈ receipts, ∀ y ∈ receipts, x.receiptId = y.receiptId → x = y
  revisions : ∀ x ∈ receipts, ∀ y ∈ receipts, x.turn = y.turn → x.revision = y.revision → x = y
  projects : ∀ x ∈ receipts, ∀ y ∈ receipts, x.turn = y.turn → x.projectId = y.projectId

theorem Coherent.subset (coherent : Coherent receipts) (known : ∀ x ∈ sources, x ∈ receipts) :
    Coherent sources where
  accepted x here := coherent.accepted x (known x here)
  ids x here y there := coherent.ids x (known x here) y (known y there)
  revisions x here y there := coherent.revisions x (known x here) y (known y there)
  projects x here y there := coherent.projects x (known x here) y (known y there)

theorem Coherent.latest_eq (coherent : Coherent sources) (here : x ∈ latestSources sources)
    (there : y ∈ latestSources sources) (same : x.turn = y.turn) : x = y := by
  obtain ⟨mem, most⟩ := mem_latestSources.mp here
  obtain ⟨mem', most'⟩ := mem_latestSources.mp there
  have equal : x.revision = y.revision :=
    Int.le_antisymm (most' x mem same) (most y mem' same.symm)
  exact coherent.revisions x mem y mem' same equal

/-! ## The rows of the latest revisions -/

/-- The row of `source_heads` for the latest revision of a turn. -/
def Source.head (source : Source) : SourceHead :=
  ⟨source.turn, source.projectId, source.revision, source.receiptId⟩

def firstSequence (sources : List Source) (source : Source) : Int :=
  (sources.filter fun y => y.turn = source.turn).foldl (fun first y => min first y.sequence)
    source.sequence

/-- The row of `source_turns` for the latest revision of a turn. -/
def Source.turnRow (sources : List Source) (source : Source) : SourceTurn :=
  { source.row with firstSequence := firstSequence sources source }

def Source.item (source : Source) (id : Nat) (payload : Payload) : WorkItem :=
  { id, projectId := source.projectId, receiptId := source.receiptId, kind := .extract, payload,
    priority := if startsWith source.turnId "legacy:" then 1 else 0 }

def Source.work (source : Source) : List WorkItem :=
  (source.messages.flatMap SourceMessage.parts).map (source.item 0)

def Database.pendingWork (db : Database) : List WorkItem :=
  (db.workItems.filter fun item => item.state = .pending).map fun item => { item with id := 0 }

theorem le_foldl_min (rows : List Source) (first n : Int) :
    n ≤ rows.foldl (fun first y => min first y.sequence) first ↔
      n ≤ first ∧ ∀ y ∈ rows, n ≤ y.sequence := by
  induction rows generalizing first with
  | nil => simp
  | cons y rest ih =>
    rw [foldl_cons, ih, Int.le_min, forall_mem_cons, and_assoc]

theorem le_firstSequence (mem : x ∈ sources) {n : Int} :
    n ≤ firstSequence sources x ↔ ∀ y ∈ sources, y.turn = x.turn → n ≤ y.sequence := by
  rw [firstSequence, le_foldl_min]
  simp only [mem_filter, decide_eq_true_eq, and_imp]
  exact and_iff_right_of_imp fun all => all x mem rfl

/-- A further receipt of a turn may be its first one. -/
theorem firstSequence_append (known : x ∈ sources) (mem : y ∈ sources ++ [s])
    (same : x.turn = s.turn) (turn : y.turn = s.turn) :
    firstSequence (sources ++ [s]) y = min (firstSequence sources x) s.sequence := by
  refine eq_of_forall_le_iff fun n => ?_
  rw [le_firstSequence mem, Int.le_min, le_firstSequence known]
  simp only [mem_append, mem_singleton, or_imp, forall_and, forall_eq, turn, same,
    forall_const]

theorem firstSequence_other (mem : x ∈ sources) (other : s.turn ≠ x.turn) :
    firstSequence (sources ++ [s]) x = firstSequence sources x := by
  refine eq_of_forall_le_iff fun n => ?_
  rw [le_firstSequence (mem_append_left _ mem), le_firstSequence mem]
  simp only [mem_append, mem_singleton, or_imp, forall_and, forall_eq, other, false_imp_iff,
    and_true]

theorem firstSequence_first (first : ∀ y ∈ sources, y.turn ≠ s.turn) :
    firstSequence (sources ++ [s]) s = s.sequence := by
  have none_before : sources.filter (fun y => y.turn = s.turn) = [] := by
    rw [filter_eq_nil_iff]
    simpa using first
  simp [firstSequence, filter_append, none_before]

/-! ## A further source -/

theorem latestSources_newer (newer : ∀ y ∈ sources, y.turn = s.turn → y.revision < s.revision) :
    latestSources (sources ++ [s]) =
      (latestSources sources).filter (fun x => x.turn ≠ s.turn) ++ [s] := by
  have last : ([s].filter fun x => (sources ++ [s]).all fun y =>
      decide (y.turn = x.turn → y.revision ≤ x.revision)) = [s] := by
    rw [filter_eq_self]
    intro x mem
    rw [mem_singleton.mp mem]
    simp only [all_eq_true, decide_eq_true_eq, mem_append, mem_singleton]
    rintro y (old | rfl) same
    · exact Int.le_of_lt (newer y old same)
    · exact Int.le_refl _
  rw [latestSources, filter_append, last, latestSources, filter_filter]
  refine congrArg (· ++ [s]) (filter_congr fun x mem => ?_)
  rw [Bool.eq_iff_iff]
  simp only [all_append, all_cons, all_nil, Bool.and_true, Bool.and_eq_true,
    all_eq_true, decide_eq_true_eq]
  constructor
  · rintro ⟨most, last⟩
    refine ⟨fun same => ?_, most⟩
    exact absurd (newer x mem same) (Int.not_lt.mpr (last same.symm))
  · rintro ⟨other, most⟩
    exact ⟨most, fun same => absurd same.symm other⟩

theorem latestSources_older (known : x ∈ sources) (same : x.turn = s.turn)
    (older : s.revision < x.revision) : latestSources (sources ++ [s]) = latestSources sources := by
  have last : ([s].filter fun x => (sources ++ [s]).all fun y =>
      decide (y.turn = x.turn → y.revision ≤ x.revision)) = [] := by
    rw [filter_eq_nil_iff]
    intro x' mem
    rw [mem_singleton.mp mem]
    simp only [all_eq_true, decide_eq_true_eq, not_forall]
    exact ⟨x, mem_append_left _ known, same, Int.not_le.mpr older⟩
  rw [latestSources, filter_append, last, append_nil, latestSources]
  refine filter_congr fun z mem => ?_
  rw [Bool.eq_iff_iff]
  simp only [all_append, all_cons, all_nil, Bool.and_true, Bool.and_eq_true,
    all_eq_true, decide_eq_true_eq]
  refine and_iff_left_of_imp fun most turn => ?_
  exact Int.le_trans (Int.le_of_lt older) (most x known (same.trans turn))

/-! ## What an intake writes -/

theorem foldl_insertWork (db : Database) (source : Source) (payloads : List Payload) :
    ∃ items workSequence,
      payloads.foldl (fun db payload => db.insertWork source .extract payload) db =
        { db with workItems := db.workItems ++ items, workSequence } ∧
      (∀ item ∈ items, item.state = .pending) ∧
      items.map (fun item => { item with id := 0 }) = payloads.map (source.item 0) := by
  induction payloads generalizing db with
  | nil => exact ⟨[], db.workSequence, by simp, by simp, rfl⟩
  | cons payload rest ih =>
    obtain ⟨items, workSequence, written, pending, same⟩ :=
      ih (db.insertWork source .extract payload)
    refine ⟨source.item (db.workSequence + 1) payload :: items, workSequence, ?_,
      forall_mem_cons.mpr ⟨rfl, pending⟩, ?_⟩
    · rw [foldl_cons, written]
      simp only [Database.insertWork, Database.addWork, append_assoc, singleton_append]
      rfl
    · rw [map_cons, map_cons, same]
      rfl

/-- Work of an empty store is pending or was cancelled. -/
def Waiting (db : Database) : Prop :=
  ∀ item ∈ db.workItems, item.state = .pending ∨ item.state = .cancelled

theorem enqueueHead_spec (db : Database) (source : Source) :
    ∃ items workSequence schedulerProjects, db.enqueueHead source = { db with
        sourceHeads := upsert SourceHead.turn source.head
          (fun old => { old with revision := source.revision, receiptId := source.receiptId })
          db.sourceHeads
        workItems := db.workItems ++ items
        workSequence
        schedulerProjects } ∧
      (∀ item ∈ items, item.state = .pending) ∧
      items.map (fun item => { item with id := 0 }) = source.work := by
  obtain ⟨items, workSequence, written, pending, same⟩ := foldl_insertWork
    (Database.insertScheduler { db with
      sourceHeads := upsert SourceHead.turn source.head
        (fun old => { old with revision := source.revision, receiptId := source.receiptId })
        db.sourceHeads } source.projectId) source (source.messages.flatMap SourceMessage.parts)
  exact ⟨items, workSequence, _, written, pending, same⟩

theorem pendingWork_append {items : List WorkItem} (pending : ∀ item ∈ items, item.state = .pending)
    (written : db'.workItems = db.workItems ++ items) :
    db'.pendingWork = db.pendingWork ++ items.map fun item => { item with id := 0 } := by
  have all : (items.filter fun item => item.state = .pending) = items := by
    rw [filter_eq_self]
    exact fun item mem => decide_eq_true (pending item mem)
  rw [Database.pendingWork, written, filter_append, map_append, all]
  rfl

theorem pendingWork_superseded (unclaimed : Waiting db) (receiptId : String) :
    (db.updateWork (fun item => item.receiptId = receiptId && item.active)
      WorkItem.superseded).pendingWork =
        db.pendingWork.filter fun item => item.receiptId ≠ receiptId := by
  have left : ∀ rows : List WorkItem, (∀ item ∈ rows, item.state = .pending ∨
      item.state = .cancelled) →
      (rows.map fun item => if (item.receiptId = receiptId && item.active) = true then
        item.superseded else item).filter (fun item => item.state = .pending) =
      rows.filter fun item => item.receiptId ≠ receiptId && item.state = .pending := by
    intro rows
    induction rows with
    | nil => simp
    | cons item rest ih =>
      intro known
      obtain ⟨first, others⟩ := forall_mem_cons.mp known
      rw [map_cons, filter_cons, filter_cons, ih others]
      by_cases here : item.receiptId = receiptId
      · obtain pending | cancelled := first
        · simp [here, WorkItem.active, WorkItem.superseded, pending]
        · simp [here, WorkItem.active, cancelled]
      · simp [here]
  rw [Database.pendingWork, Database.pendingWork, filter_map, filter_filter]
  exact congrArg (map _) (left db.workItems unclaimed)

theorem Waiting.superseded (unclaimed : Waiting db) (receiptId : String) :
    Waiting (db.updateWork (fun item => item.receiptId = receiptId && item.active)
      WorkItem.superseded) := by
  intro item mem
  obtain ⟨old, here, rfl⟩ := mem_map.mp mem
  split
  · exact .inr rfl
  · exact unclaimed old here

end Agentix.MemoryStore
