import Agentix.MemoryStore.Run

/-! # Saved versions

What a save has checked and what it leaves in the tables of memories.
-/

namespace Agentix.MemoryStore

open Lib List Option

variable {db db' : Database} {memory : Memory}

/-! ## The tables a save writes -/

namespace Database

theorem mem_writeMemory {m : Memory} :
    m ∈ (db.writeMemory memory).memories ↔
      m = memory ∨ (m ∈ db.memories ∧ m.id ≠ memory.id) := by
  unfold writeMemory
  split
  · rename_i taken
    obtain ⟨old, here, same⟩ := any_key.mp taken
    rw [mem_alter]
    constructor
    · rintro ⟨row, mem, ⟨-, rfl⟩ | ⟨other, rfl⟩⟩
      · exact .inl rfl
      · exact .inr ⟨mem, other⟩
    · rintro (rfl | ⟨mem, other⟩)
      · exact ⟨old, here, .inl ⟨same, rfl⟩⟩
      · exact ⟨m, mem, .inr ⟨other, rfl⟩⟩
  · rename_i free
    rw [mem_append, mem_singleton]
    constructor
    · rintro (mem | rfl)
      · exact .inr ⟨mem, fun same => free (any_key.mpr ⟨m, mem, same⟩)⟩
      · exact .inl rfl
    · rintro (rfl | ⟨mem, -⟩)
      · exact .inr rfl
      · exact .inl mem

theorem distinct_writeMemory (distinct : Distinct Memory.id db.memories) :
    Distinct Memory.id (db.writeMemory memory).memories := by
  unfold writeMemory
  split
  · -- every altered row keeps its identifier, since it is the one of the memory
    unfold Distinct alter
    rw [List.map_map]
    have same : db.memories.map (Memory.id ∘ fun m => if m.id = memory.id then memory else m) =
        db.memories.map Memory.id := by
      refine map_congr_left fun m _ => ?_
      simp only [Function.comp_apply]
      split
      · rename_i same
        exact same.symm
      · rfl
    rw [same]
    exact distinct
  · rename_i free
    exact distinct.append fun old mem same => free (any_key.mpr ⟨old, mem, same⟩)

theorem mem_touched {row : CompactionRow}
    (mem : row ∈ (db.writeMemory memory).memoryCompactions) :
    (row ∈ db.memoryCompactions ∧
      (row.memoryId = memory.id → ∀ m ∈ db.memories, m.id ≠ memory.id)) ∨
    (row.memoryId = memory.id ∧ row.revision = memory.revision ∧ row.dirty = memory.dirty ∧
      (row.workId = none ∨ ∃ old ∈ db.memoryCompactions, old.memoryId = memory.id ∧
        old.workId = row.workId)) := by
  unfold writeMemory at mem
  split at mem
  · obtain ⟨old, here, ⟨same, rfl⟩ | ⟨other, rfl⟩⟩ := mem_alter.mp mem
    · exact .inr ⟨same, rfl, rfl, .inr ⟨old, here, same, rfl⟩⟩
    · exact .inl ⟨here, fun same => absurd same other⟩
  · rename_i free
    obtain old | new := mem_append.mp mem
    · exact .inl ⟨old, fun _ m here same => free (any_key.mpr ⟨m, here, same⟩)⟩
    · rw [mem_singleton.mp new]
      exact .inr ⟨rfl, rfl, rfl, .inl rfl⟩

theorem mem_writeMemory_compactions {row : CompactionRow} (mem : row ∈ db.memoryCompactions)
    (other : row.memoryId ≠ memory.id) : row ∈ (db.writeMemory memory).memoryCompactions := by
  unfold writeMemory
  split
  · exact mem_alter.mpr ⟨row, mem, .inr ⟨other, rfl⟩⟩
  · exact mem_append_left _ mem

theorem exists_touched
    (compacted : ∀ m ∈ db.memories, ∃ row ∈ db.memoryCompactions, row.memoryId = m.id) :
    ∃ row ∈ (db.writeMemory memory).memoryCompactions, row.memoryId = memory.id := by
  unfold writeMemory
  split
  · rename_i taken
    obtain ⟨m, here, same⟩ := any_key.mp taken
    obtain ⟨row, mem, of⟩ := compacted m here
    exact ⟨_, mem_alter.mpr ⟨row, mem, .inl ⟨by rw [of, same], rfl⟩⟩, by rw [of, same]⟩
  · exact ⟨_, mem_append_right _ (mem_singleton.mpr rfl), rfl⟩

theorem distinct_touched (distinct : Distinct CompactionRow.memoryId db.memoryCompactions)
    (followed : ∀ row ∈ db.memoryCompactions, ∃ m ∈ db.memories, row.memoryId = m.id) :
    Distinct CompactionRow.memoryId (db.writeMemory memory).memoryCompactions := by
  unfold writeMemory
  split
  · exact distinct.alter fun row _ => rfl
  · rename_i free
    refine distinct.append fun row mem same => ?_
    obtain ⟨m, here, of⟩ := followed row mem
    exact free (any_key.mpr ⟨m, here, by rw [← of, same]⟩)

theorem mem_writeEvidence {row : EvidenceRow} :
    row ∈ (db.writeEvidence memory).memoryEvidence ↔
      (row ∈ db.memoryEvidence ∧ row.memoryId ≠ memory.id) ∨
        (row.memoryId = memory.id ∧ ∃ e ∈ memory.content.evidence,
          e.receiptId = row.receiptId) := by
  have inserted : (db.writeEvidence memory).memoryEvidence =
      (memory.content.evidence.map fun e => EvidenceRow.mk memory.id e.receiptId).foldl
        (fun rows row => insertOrIgnore id row rows)
        (db.memoryEvidence.filter fun row => row.memoryId ≠ memory.id) := by
    rw [foldl_map]
    rfl
  rw [inserted, mem_foldl_insertOrIgnore_id, mem_filter, List.mem_map, decide_eq_true_eq]
  refine or_congr Iff.rfl ⟨?_, ?_⟩
  · rintro ⟨e, here, rfl⟩
    exact ⟨rfl, e, here, rfl⟩
  · rintro ⟨same, e, here, receipt⟩
    exact ⟨e, here, by rw [receipt, ← same]⟩

end Database

/-! ## What a save has checked -/

variable [Environment]

structure Saved (db db' : Database) (memory : Memory) : Prop where
  valid : memory.status.searchable → ∀ e ∈ memory.content.evidence, db.sourceValid e.receiptId
  unrevoked : memory.status.searchable → ∀ m ∈ db.memories, m.id = memory.id →
    m.status ≠ .invalidated
  identity : ∀ prior, db.memory memory.id = some prior → ∀ fact, prior.content.fact = some fact →
    memory.content.factKey = some fact.key ∧ memory.content.factValue = some fact.value
  alone : memory.status = .active → ∀ row ∈ db.memoryFacts, row.projectId = memory.projectId →
    memory.content.factKey = some row.factKey → row.status = .active → row.memoryId = memory.id
  fresh : ∀ v ∈ db.memoryVersions, v.id = memory.id → v.revision ≠ memory.revision
  tables : db' = { db with
    memories := (db.writeMemory memory).memories
    memoryCompactions := (db.writeMemory memory).memoryCompactions
    memoryEvidence := (db.writeEvidence memory).memoryEvidence
    memoryFacts := match memory.content.fact with
      | none => db.memoryFacts
      | some fact => upsert FactRow.memoryId
          ⟨memory.id, memory.projectId, fact.key, memory.status⟩
          (fun row => { row with status := memory.status }) db.memoryFacts
    memoryVersions := db.memoryVersions ++ [memory] }

theorem indexed {indexed : Database} (ok : db.indexFact memory = .ok indexed) :
    (memory.status = .active → ∀ row ∈ db.memoryFacts, row.projectId = memory.projectId →
      memory.content.factKey = some row.factKey → row.status = .active →
        row.memoryId = memory.id) ∧
    indexed = { db with memoryFacts := match memory.content.fact with
      | none => db.memoryFacts
      | some fact => upsert FactRow.memoryId
          ⟨memory.id, memory.projectId, fact.key, memory.status⟩
          (fun row => { row with status := memory.status }) db.memoryFacts } := by
  unfold Database.indexFact at ok
  split at ok
  · rename_i absent
    cases ok
    refine ⟨fun _ row _ _ same => ?_, by simp [absent]⟩
    simp [MemoryInput.factKey, absent] at same
  · rename_i fact present
    simp only [bind_ok, ensure_ok, pure_ok] at ok
    obtain ⟨⟨⟩, free, rfl⟩ := ok
    refine ⟨fun active row mem project same status => ?_, by simp [present]⟩
    simp only [MemoryInput.factKey, present, map_some, some.injEq] at same
    by_contra other
    refine free ⟨active, ?_⟩
    simp only [List.any_eq_true, Bool.and_eq_true, decide_eq_true_eq]
    exact ⟨row, mem, ⟨⟨project, same.symm⟩, status⟩, other⟩

theorem saved_of_ok (ok : db.save memory = .ok db') : Saved db db' memory := by
  simp only [Database.save, bind_ok] at ok
  obtain ⟨⟨⟩, validated, ⟨⟩, identified, facts, index, version⟩ := ok
  have tables : ((db.writeMemory memory).writeEvidence memory) = { db with
      memories := (db.writeMemory memory).memories
      memoryCompactions := (db.writeMemory memory).memoryCompactions
      memoryEvidence := (db.writeEvidence memory).memoryEvidence } := by
    simp only [Database.writeEvidence, Database.writeMemory]
    split <;> rfl
  obtain ⟨alone, rfl⟩ := indexed index
  rw [tables] at alone version
  simp only [Database.writeVersion, bind_ok, ensure_ok, pure_ok] at version
  obtain ⟨⟨⟩, fresh, rfl⟩ := version
  constructor
  · intro searchable e mem
    simp only [Database.validateMemory, searchable, if_true, bind_ok, ensure_ok] at validated
    obtain ⟨⟨⟩, -, valid⟩ := validated
    exact all_eq_true.mp valid e mem
  · intro searchable m mem same status
    simp only [Database.validateMemory, searchable, if_true, bind_ok, ensure_ok] at validated
    obtain ⟨⟨⟩, unrevoked, -⟩ := validated
    simp only [Bool.not_eq_true', List.any_eq_false, Bool.and_eq_true, decide_eq_true_eq]
      at unrevoked
    exact unrevoked m mem ⟨same, status⟩
  · intro prior found fact present
    simp only [Database.validateVersion, found, bind_some, present, ensure_ok,
      Option.any_eq_true, Bool.and_eq_true, decide_eq_true_eq] at identified
    obtain ⟨current, here, key, value⟩ := identified
    simp only [MemoryInput.factKey, MemoryInput.factValue, here, map_some, key, value,
      and_self]
  · exact alone
  · intro v mem same revision
    simp only [Bool.not_eq_true', List.any_eq_false, Bool.and_eq_true, decide_eq_true_eq] at fresh
    exact fresh v mem ⟨same, revision⟩
  · rfl

end Agentix.MemoryStore

/-! # Writes

The single writes of a transaction, each with what the code has checked before it.
-/

namespace Agentix.MemoryStore

open Lib List

variable [Environment]

/-! ## Evidence -/

def Vouched (db : Database) (projectId : String) (evidence : Evidence) : Prop :=
  ∃ quotation, db.quoted projectId evidence = .ok quotation ∧
    ∀ s ∈ db.suppressions, s.projectId = projectId →
      s.evidenceKey ≠ Environment.digest (Database.evidenceIdentity quotation)

def Suppressed (db : Database) (projectId : String) (content : MemoryInput) : Prop :=
  ∀ e ∈ content.evidence, ∃ quotation, db.quoted projectId e = .ok quotation ∧
    ∃ s ∈ db.suppressions, s.projectId = projectId ∧
      s.evidenceKey = Environment.digest (Database.evidenceIdentity quotation)

/-! ## Transactions -/

/-- What is fixed while a transaction writes: how it began, the lease it gives, the revisions it
has seen, and the work it ends whatever becomes of its seed. -/
structure Transaction where
  config : AgentConfig
  now : Int
  base : Database
  given : Option WorkLease := none
  seen : List (String × Nat) := []
  lost : WorkItem → Prop := fun _ => False

structure Revises (db : Database) (prior memory : Memory) : Prop where
  id : memory.id = prior.id
  project : memory.projectId = prior.projectId
  revision : memory.revision = prior.revision + 1
  alive : prior.status ≠ .forgotten
  revoked : prior.status = .invalidated → memory.status = .invalidated ∨ memory.status = .forgotten
  forgets : memory.status = .forgotten → memory.content = prior.content ∧
    ∀ v ∈ db.memoryVersions, v.id = memory.id → Suppressed db memory.projectId v.content

/-- Where a saved version comes from. -/
inductive Grounded (base db : Database) (memory : Memory) : Prop
  | first (revision : memory.revision = 1) (searchable : memory.status.searchable = true)
      (vouched : ∀ e ∈ memory.content.evidence, Vouched base memory.projectId e)
  | next {prior : Memory} (known : prior ∈ db.memoryVersions) (revises : Revises db prior memory)
      (evidence : ∀ e ∈ memory.content.evidence,
        e ∈ prior.content.evidence ∨ Vouched base memory.projectId e)

/-- The changes of a work item. -/
inductive Change (t : Transaction) : WorkItem → WorkItem → Prop
  | revoke {item : WorkItem} (revocable : item.revocable) : Change t item item.revoked
  | supersede {item : WorkItem} (active : item.active) : Change t item item.superseded
  | expire {item : WorkItem} (running : item.state = .running) (expired : item.expired t.now)
      (exhausted : item.exhausted) : Change t item item.expiredOut
  | grant {item : WorkItem} {lease : WorkLease} (given : t.given = some lease)
      (active : item.active) (left : ¬ item.exhausted) :
      Change t item (item.granted lease t.config)
  | finish {item : WorkItem} (running : item.state = .running) (result : Outcome) :
      Change t item (item.finished result)
  | fail {item : WorkItem} (running : item.state = .running) (error : String) (retry : Bool) :
      Change t item (item.failedWith error t.now retry)
  | retry {item : WorkItem} (failed : item.state = .failed) : Change t item item.retried

omit [Environment] in
/-- A change keeps what the item is about. -/
theorem Change.about {t : Transaction} {item item' : WorkItem} (change : Change t item item') :
    item'.id = item.id ∧ item'.projectId = item.projectId ∧ item'.receiptId = item.receiptId ∧
      item'.kind = item.kind ∧ item'.payload = item.payload := by
  cases change <;> exact ⟨rfl, rfl, rfl, rfl, rfl⟩

/-- A receipt that new work may be for. -/
inductive Licensed (db : Database) (receiptId : String) : Prop
  | valid (valid : db.sourceValid receiptId)
  | worked {item : WorkItem} (member : item ∈ db.workItems) (active : item.active)
      (same : item.receiptId = receiptId)
  | cited {m : Memory} (member : m ∈ db.memories) (searchable : m.status.searchable)
      {e : Evidence} (cited : e ∈ m.content.evidence) (same : e.receiptId = receiptId)

/-- The seed of an item changed, was seen or cannot be compacted. -/
def Spent (t : Transaction) (db : Database) (item : WorkItem) : Prop :=
  ∀ seed, item.payload.seed = some seed → ∀ m ∈ db.memories, revisionOf m = revisionOf seed →
    m.compactable t.now → revisionOf m ∈ t.seen

inductive Write (t : Transaction) : Database → Database → Prop
  | save {db db' : Database} {memory : Memory} (grounded : Grounded t.base db memory)
      (ok : db.save memory = .ok db') : Write t db db'
  | suppress {db db' : Database} {projectId id : String}
      (ok : db.suppressHistory projectId id = .ok db') : Write t db db'
  | observe {db : Database} {memory : Memory}
      (seen : revisionOf memory ∈ t.seen ∨ memory ∈ db.memories ∧ memory.compactable t.now = false) :
      Write t db (db.observed t.now memory)
  | schedule {db : Database} {memory : Memory} {evidence : Evidence} (member : memory ∈ db.memories)
      (compactable : memory.compactable t.now)
      (first : memory.content.evidence.head? = some evidence) :
      Write t db (db.scheduleSeed memory evidence.receiptId t.now)
  | add {db : Database} {projectId receiptId : String} {kind : WorkKind} {payload : Payload}
      {priority : Nat} (seedless : payload.seed = none) (licensed : Licensed db receiptId) :
      Write t db (db.addWork projectId receiptId kind payload priority)
  | change {db : Database} {selected : WorkItem → Bool} {change : WorkItem → WorkItem}
      (changes : ∀ item ∈ db.workItems, selected item → Change t item (change item))
      (ended : ∀ item ∈ db.workItems, selected item →
        (change item).active ∨ (change item).state = .failed ∨ t.lost item ∨ Spent t db item) :
      Write t db (db.updateWork selected change)
  /-- The tables that nothing else is derived from. -/
  | frame {db : Database} (instance_ : Option String) (heads : List SourceHead)
      (projects : List SchedulerProject) (tick : Nat) (origins : List FactOrigin)
      (reviews : List ReviewRow) :
      Write t db { db with
        sourceInstance := instance_, sourceHeads := heads, schedulerProjects := projects,
        schedulerTick := tick, memoryFactOrigins := origins, memoryReviews := reviews }

abbrev Writes (t : Transaction) : Database → Database → Prop :=
  Relation.ReflTransGen (Write t)

/-! ## What the writes keep -/

/-- The sources and their bindings stay, and no version or suppression goes away. -/
structure Extends (db db' : Database) : Prop where
  sources : db'.sources = db.sources
  sourceJobs : db'.sourceJobs = db.sourceJobs
  sourceJobTurns : db'.sourceJobTurns = db.sourceJobTurns
  cancelledJobs : db'.cancelledJobs = db.cancelledJobs
  versions : db.memoryVersions ⊆ db'.memoryVersions
  suppressions : db.suppressions ⊆ db'.suppressions

namespace Extends

variable {db db' db'' : Database}

omit [Environment] in
theorem refl (db : Database) : Extends db db :=
  ⟨rfl, rfl, rfl, rfl, List.Subset.refl _, List.Subset.refl _⟩

omit [Environment] in
theorem trans (first : Extends db db') (second : Extends db' db'') : Extends db db'' where
  sources := by rw [second.sources, first.sources]
  sourceJobs := by rw [second.sourceJobs, first.sourceJobs]
  sourceJobTurns := by rw [second.sourceJobTurns, first.sourceJobTurns]
  cancelledJobs := by rw [second.cancelledJobs, first.cancelledJobs]
  versions := List.Subset.trans first.versions second.versions
  suppressions := List.Subset.trans first.suppressions second.suppressions

omit [Environment] in
theorem quoted (grown : Extends db db') (projectId : String) :
    db'.quoted projectId = db.quoted projectId := by
  funext e
  unfold Database.quoted
  rw [grown.sources]

theorem suppressed (grown : Extends db db') {projectId : String} {content : MemoryInput}
    (suppressed : Suppressed db projectId content) : Suppressed db' projectId content := by
  intro e mem
  obtain ⟨quotation, quoted, s, here, same⟩ := suppressed e mem
  exact ⟨quotation, by rw [grown.quoted]; exact quoted, s, grown.suppressions here, same⟩

end Extends

/-! ## Suppressions -/

section Suppression

variable {db db' : Database} {projectId id : String}

/-- The keys of the evidence of a content, one for each of its quotations. -/
theorem keys_of_ok {content : MemoryInput} {keys : List String}
    (ok : db.evidenceKeys projectId content = .ok keys) :
    ∀ e ∈ content.evidence, ∃ quotation, db.quoted projectId e = .ok quotation ∧
      Environment.digest (Database.evidenceIdentity quotation) ∈ keys := by
  simp only [Database.evidenceKeys, bind_ok, pure_ok] at ok
  obtain ⟨quotations, quoted, ⟨⟩, -, rfl⟩ := ok
  intro e mem
  obtain ⟨quotation, here, same⟩ := mem_of_mapM_eq_ok quoted mem
  exact ⟨quotation, same, mem_map_of_mem here⟩

theorem vouched_of_ok {content : MemoryInput}
    (ok : db.validateEvidence projectId content = .ok ()) :
    ∀ e ∈ content.evidence, Vouched db projectId e := by
  simp only [Database.validateEvidence, bind_ok, ensure_ok] at ok
  obtain ⟨⟨⟩, -, keys, keyed, remembered⟩ := ok
  intro e mem
  obtain ⟨quotation, quoted, key⟩ := keys_of_ok keyed e mem
  refine ⟨quotation, quoted, fun s here project same => ?_⟩
  have free := all_eq_true.mp remembered _ key
  simp only [Bool.not_eq_true', any_eq_false, Bool.and_eq_true, decide_eq_true_eq] at free
  exact free s here ⟨project, same⟩

theorem suppressVersion_of_ok {version : Memory}
    (ok : Database.suppressVersion projectId id db version = .ok db') :
    ∃ suppressions, db' = { db with suppressions } ∧ db.suppressions ⊆ suppressions ∧
      Suppressed db' projectId version.content := by
  simp only [Database.suppressVersion, bind_ok, pure_ok] at ok
  obtain ⟨keys, keyed, rfl⟩ := ok
  have inserted : keys.foldl (fun rows key => insertOrIgnore
        (fun s : Suppression => (s.projectId, s.evidenceKey)) ⟨projectId, key, id⟩ rows)
        db.suppressions =
      (keys.map fun key => Suppression.mk projectId key id).foldl (fun rows row => insertOrIgnore
        (fun s : Suppression => (s.projectId, s.evidenceKey)) row rows) db.suppressions := by
    rw [foldl_map]
  refine ⟨_, rfl, ?_, ?_⟩
  · intro s mem
    rw [inserted]
    exact mem_foldl_insertOrIgnore_of_mem mem
  · intro e mem
    obtain ⟨quotation, quoted, key⟩ := keys_of_ok keyed e mem
    have new : Suppression.mk projectId (Environment.digest (Database.evidenceIdentity quotation))
        id ∈ keys.map fun key => Suppression.mk projectId key id :=
      mem_map.mpr ⟨_, key, rfl⟩
    obtain ⟨s, here, same⟩ := exists_foldl_insertOrIgnore
      (fun s : Suppression => (s.projectId, s.evidenceKey)) db.suppressions new
    rw [← inserted] at here
    simp only [Prod.mk.injEq] at same
    exact ⟨quotation, quoted, s, here, same⟩

omit [Environment] in
theorem extends_suppressions {suppressions : List Suppression}
    (grown : db.suppressions ⊆ suppressions) : Extends db { db with suppressions } :=
  { Extends.refl db with suppressions := grown }

theorem suppressVersions_of_ok {versions : List Memory}
    (ok : versions.foldlM (Database.suppressVersion projectId id) db = .ok db') :
    ∃ suppressions, db' = { db with suppressions } ∧ db.suppressions ⊆ suppressions ∧
      ∀ v ∈ versions, Suppressed db' projectId v.content := by
  induction versions generalizing db with
  | nil =>
    simp only [foldlM_nil, pure_ok] at ok
    subst ok
    exact ⟨_, rfl, List.Subset.refl _, fun v none => by cases none⟩
  | cons version rest ih =>
    simp only [foldlM_cons, bind_ok] at ok
    obtain ⟨middle, first, later⟩ := ok
    obtain ⟨one, rfl, grown, here⟩ := suppressVersion_of_ok first
    obtain ⟨all, rfl, more, there⟩ := ih later
    refine ⟨all, rfl, List.Subset.trans grown more, fun v mem => ?_⟩
    obtain rfl | mem := mem_cons.mp mem
    · exact Extends.suppressed (extends_suppressions more) here
    · exact there v mem

theorem suppressHistory_of_ok (ok : db.suppressHistory projectId id = .ok db') :
    ∃ suppressions, db' = { db with suppressions } ∧ db.suppressions ⊆ suppressions ∧
      ∀ v ∈ db.memoryVersions, v.id = id → Suppressed db' projectId v.content := by
  obtain ⟨suppressions, rfl, grown, suppressed⟩ := suppressVersions_of_ok ok
  refine ⟨suppressions, rfl, grown, fun v mem same => suppressed v ?_⟩
  exact mem_filter.mpr ⟨mem, decide_eq_true same⟩

end Suppression

/-! ## Runs of writes -/

section Runs

variable {t : Transaction} {db db' : Database}

theorem Write.extends (write : Write t db db') : Extends db db' := by
  cases write with
  | save grounded ok =>
    rw [(saved_of_ok ok).tables]
    exact { Extends.refl db with versions := subset_append_left _ _ }
  | suppress ok =>
    obtain ⟨suppressions, rfl, grown, -⟩ := suppressHistory_of_ok ok
    exact extends_suppressions grown
  | observe => exact { Extends.refl db with }
  | schedule => exact { Extends.refl db with }
  | add => exact { Extends.refl db with }
  | change => exact { Extends.refl db with }
  | frame => exact { Extends.refl db with }

theorem Writes.extends (writes : Writes t db db') : Extends db db' := by
  induction writes with
  | refl => exact Extends.refl db
  | tail _ write ih => exact ih.trans write.extends

/-- Evidence checked inside a transaction is vouched for where the transaction began. -/
theorem Writes.vouched (writes : Writes t t.base db) {projectId : String} {content : MemoryInput}
    (ok : db.validateEvidence projectId content = .ok ()) :
    ∀ e ∈ content.evidence, Vouched t.base projectId e := by
  intro e mem
  obtain ⟨quotation, quoted, free⟩ := vouched_of_ok ok e mem
  refine ⟨quotation, ?_, fun s here => free s (writes.extends.suppressions here)⟩
  rw [← writes.extends.quoted]
  exact quoted

end Runs

end Agentix.MemoryStore
