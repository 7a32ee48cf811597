import Agentix.MemoryStore.Writes

/-! # Consistent tables

The versions of a memory are numbered from one, its row is the last of them, and the tables of
facts, evidence and compactions follow the row.  A compaction refers to the work item of its seed.
-/

namespace Agentix.MemoryStore

open Lib List Option

variable [Environment]

/-- A later version of a memory. -/
structure Follows (v m : Memory) : Prop where
  id : m.id = v.id
  project : m.projectId = v.projectId
  revision : v.revision ≤ m.revision
  fact : ∀ fact, v.content.fact = some fact →
    m.content.factKey = some fact.key ∧ m.content.factValue = some fact.value

structure Consistent (db : Database) : Prop where
  memories : Distinct Memory.id db.memories
  versions : Distinct (fun v : Memory => (v.id, v.revision)) db.memoryVersions
  facts : Distinct FactRow.memoryId db.memoryFacts
  compactions : Distinct CompactionRow.memoryId db.memoryCompactions
  positive : ∀ m ∈ db.memories, 1 ≤ m.revision
  written : ∀ m ∈ db.memories, m ∈ db.memoryVersions
  current : ∀ v ∈ db.memoryVersions, ∃ m ∈ db.memories, Follows v m
  complete : ∀ m ∈ db.memories, ∀ n, 1 ≤ n → n ≤ m.revision →
    ∃ v ∈ db.memoryVersions, v.id = m.id ∧ v.revision = n
  factRow : ∀ m ∈ db.memories, ∀ fact, m.content.fact = some fact →
    ∃ row ∈ db.memoryFacts, row.memoryId = m.id
  indexed : ∀ row ∈ db.memoryFacts, ∃ m ∈ db.memories, row.memoryId = m.id ∧
    row.projectId = m.projectId ∧ m.content.factKey = some row.factKey ∧ row.status = m.status
  cited : ∀ m ∈ db.memories, ∀ e ∈ m.content.evidence, ⟨m.id, e.receiptId⟩ ∈ db.memoryEvidence
  compacted : ∀ m ∈ db.memories, ∃ row ∈ db.memoryCompactions, row.memoryId = m.id
  compacts : ∀ row ∈ db.memoryCompactions, ∃ m ∈ db.memories, row.memoryId = m.id ∧
    row.revision = m.revision
  items : Distinct WorkItem.id db.workItems
  numbered : ∀ item ∈ db.workItems, item.id ≤ db.workSequence
  assigned : ∀ row ∈ db.memoryCompactions, ∀ id, row.workId = some id → id ≤ db.workSequence
  seeded : ∀ row ∈ db.memoryCompactions, ∀ item ∈ db.workItems, row.workId = some item.id →
    ∃ seed, item.payload.seed = some seed ∧ seed.id = row.memoryId
  scheduled : ∀ item ∈ db.workItems, ∀ seed, item.payload.seed = some seed →
    item.kind = .consolidate ∧ seed ∈ db.memoryVersions ∧
      ∃ e ∈ seed.content.evidence, e.receiptId = item.receiptId

theorem Consistent.empty : Consistent {} := by
  constructor <;> simp [Distinct]

theorem Follows.refl (m : Memory) : Follows m m where
  id := rfl
  project := rfl
  revision := Nat.le_refl _
  fact fact present := by simp only [MemoryInput.factKey, MemoryInput.factValue, present,
    map_some, and_self]

section

variable {db db' : Database} {memory : Memory}

namespace Consistent

theorem memory_eq (consistent : Consistent db) {a b : Memory} (ha : a ∈ db.memories)
    (hb : b ∈ db.memories) (same : a.id = b.id) : a = b :=
  consistent.memories.eq_of_key ha hb same

theorem memory_of_mem (consistent : Consistent db) {m : Memory} (mem : m ∈ db.memories) :
    db.memory m.id = some m :=
  consistent.memories.rowOf_eq_some mem

end Consistent

omit [Environment] in
theorem mem_of_load {projectId id : String} (ok : db.load projectId id = .ok memory) :
    memory ∈ db.memories ∧ memory.projectId = projectId ∧ memory.id = id := by
  simp only [Database.load, orElseError_eq_ok] at ok
  have named := find?_some ok
  simp only [Bool.and_eq_true, decide_eq_true_eq] at named
  exact ⟨mem_of_find?_eq_some ok, named⟩

/-! ## The place of a saved version -/

/-- A save adds a memory, or the next version of a row. -/
inductive Place (db : Database) (memory : Memory) : Prop
  | new (first : memory.revision = 1) (free : ∀ m ∈ db.memories, m.id ≠ memory.id)
  | after {prior : Memory} (member : prior ∈ db.memories) (id : memory.id = prior.id)
      (project : memory.projectId = prior.projectId)
      (revision : memory.revision = prior.revision + 1)

/-- A version that is numbered one further than a known one follows the row itself, since the
number would be taken otherwise. -/
theorem Consistent.prior_current (consistent : Consistent db) (saved : Saved db db' memory)
    {prior : Memory} (known : prior ∈ db.memoryVersions) (id : memory.id = prior.id)
    (revision : memory.revision = prior.revision + 1) : prior ∈ db.memories := by
  obtain ⟨m, mem, follows⟩ := consistent.current prior known
  have last : m.revision = prior.revision := by
    by_contra other
    have bound := follows.revision
    obtain ⟨v, here, same, number⟩ :=
      consistent.complete m mem memory.revision (by omega) (by omega)
    exact saved.fresh v here (by rw [same, follows.id, id]) number
  have same : m = prior := consistent.versions.eq_of_key (consistent.written m mem) known
    (by simp only [follows.id, last])
  exact same ▸ mem

theorem Consistent.first_new {base : Database} (consistent : Consistent base)
    (extended : Extends base db) (saved : Saved db db' memory) (first : memory.revision = 1) :
    ∀ m ∈ base.memories, m.id ≠ memory.id := by
  intro m mem same
  obtain ⟨v, here, id, number⟩ :=
    consistent.complete m mem 1 (Nat.le_refl 1) (consistent.positive m mem)
  exact saved.fresh v (extended.versions here) (by rw [id, same]) (by rw [number, first])

theorem Grounded.place {base : Database} (grounded : Grounded base db memory)
    (consistent : Consistent db) (saved : Saved db db' memory) : Place db memory := by
  cases grounded with
  | first revision => exact .new revision (consistent.first_new (.refl db) saved revision)
  | next known revises =>
    exact .after (consistent.prior_current saved known revises.id revises.revision) revises.id
      revises.project revises.revision

/-! ## Saves -/

theorem Follows.trans {u v m : Memory} (first : Follows u v) (second : Follows v m) :
    Follows u m where
  id := by rw [second.id, first.id]
  project := by rw [second.project, first.project]
  revision := Nat.le_trans first.revision second.revision
  fact fact present := by
    obtain ⟨key, value⟩ := first.fact fact present
    simp only [MemoryInput.factKey, MemoryInput.factValue, map_eq_some_iff] at key value
    obtain ⟨middle, here, sameKey⟩ := key
    obtain ⟨_, again, sameValue⟩ := value
    obtain rfl := some.inj (here.symm.trans again)
    rw [← sameKey, ← sameValue]
    exact second.fact middle here

section Save

variable {m : Memory}

theorem Saved.mem_memories (saved : Saved db db' memory) :
    m ∈ db'.memories ↔ m = memory ∨ (m ∈ db.memories ∧ m.id ≠ memory.id) := by
  rw [saved.tables]
  exact Database.mem_writeMemory

theorem Saved.mem_versions (saved : Saved db db' memory) :
    m ∈ db'.memoryVersions ↔ m ∈ db.memoryVersions ∨ m = memory := by
  rw [saved.tables, mem_append, mem_singleton]

theorem Saved.follows (saved : Saved db db' memory) (consistent : Consistent db)
    (place : Place db memory) (mem : m ∈ db.memories) (same : m.id = memory.id) :
    Follows m memory := by
  cases place with
  | new _ free => exact absurd same (free m mem)
  | after here id project revision =>
    rename_i prior
    obtain rfl := consistent.memory_eq mem here (by rw [same, id])
    refine ⟨id, project, by omega, fun fact present => ?_⟩
    refine saved.identity m ?_ fact present
    rw [id]
    exact consistent.memory_of_mem mem

variable (saved : Saved db db' memory) (consistent : Consistent db) (place : Place db memory)
include saved consistent place

theorem Saved.indexed {row : FactRow} (mem : row ∈ db.memoryFacts)
    (same : row.memoryId = memory.id) :
    row.projectId = memory.projectId ∧ memory.content.factKey = some row.factKey := by
  obtain ⟨m, here, id, project, key, -⟩ := consistent.indexed row mem
  have follows := saved.follows consistent place here (by rw [← id, same])
  refine ⟨by rw [project, follows.project], ?_⟩
  simp only [MemoryInput.factKey, map_eq_some_iff] at key
  obtain ⟨fact, present, same⟩ := key
  rw [← same]
  exact (follows.fact fact present).1

theorem Saved.mem_facts {row : FactRow} :
    row ∈ db'.memoryFacts ↔ (row ∈ db.memoryFacts ∧ row.memoryId ≠ memory.id) ∨
      (row.memoryId = memory.id ∧ row.projectId = memory.projectId ∧
        memory.content.factKey = some row.factKey ∧ row.status = memory.status) := by
  rw [saved.tables]
  cases present : memory.content.fact with
  | none =>
    have keyless : memory.content.factKey = none := by simp [MemoryInput.factKey, present]
    constructor
    · intro mem
      refine .inl ⟨mem, fun same => ?_⟩
      have keyed := (saved.indexed consistent place mem same).2
      simp [keyless] at keyed
    · rintro (⟨mem, -⟩ | ⟨-, -, keyed, -⟩)
      · exact mem
      · simp [keyless] at keyed
  | some fact =>
    have key : memory.content.factKey = some fact.key := by simp [MemoryInput.factKey, present]
    constructor
    · intro mem
      obtain ⟨old, other⟩ | rfl | ⟨old, here, same, rfl⟩ := mem_upsert mem
      · exact .inl ⟨old, other⟩
      · exact .inr ⟨rfl, rfl, key, rfl⟩
      · obtain ⟨project, keyed⟩ := saved.indexed consistent place here same
        exact .inr ⟨same, project, keyed, rfl⟩
    · rintro (⟨mem, other⟩ | ⟨same, project, keyed, status⟩)
      · exact mem_upsert_of_ne mem other
      · rw [key, some.injEq] at keyed
        have shape : row = ⟨memory.id, memory.projectId, fact.key, memory.status⟩ := by
          rw [← same, ← project, keyed, ← status]
        show row ∈ upsert _ _ _ _
        unfold upsert
        split
        · rename_i taken
          obtain ⟨old, here, of⟩ := any_key.mp taken
          change old.memoryId = memory.id at of
          obtain ⟨oldProject, oldKey⟩ := saved.indexed consistent place here of
          rw [key, some.injEq] at oldKey
          refine mem_alter.mpr ⟨old, here, .inl ⟨of, ?_⟩⟩
          rw [shape, ← oldProject, oldKey, ← of]
        · exact mem_append_right _ (mem_singleton.mpr shape)

theorem Consistent.save : Consistent db' where
  memories := by
    rw [saved.tables]
    exact Database.distinct_writeMemory consistent.memories
  versions := by
    rw [saved.tables]
    refine consistent.versions.append fun v mem same => ?_
    rw [Prod.mk.injEq] at same
    exact saved.fresh v mem same.1 same.2
  facts := by
    rw [saved.tables]
    cases memory.content.fact with
    | none => exact consistent.facts
    | some fact => exact consistent.facts.upsert fun row _ => rfl
  compactions := by
    rw [saved.tables]
    refine Database.distinct_touched consistent.compactions fun row mem => ?_
    obtain ⟨m, here, of, -⟩ := consistent.compacts row mem
    exact ⟨m, here, of⟩
  positive m mem := by
    obtain rfl | ⟨old, -⟩ := saved.mem_memories.mp mem
    · cases place with
      | new first => omega
      | after _ _ _ revision => omega
    · exact consistent.positive m old
  written m mem := by
    obtain rfl | ⟨old, -⟩ := saved.mem_memories.mp mem
    · exact saved.mem_versions.mpr (.inr rfl)
    · exact saved.mem_versions.mpr (.inl (consistent.written m old))
  -- The versions of the saved row follow it, as its revision is the next one.
  current v mem := by
    obtain old | rfl := saved.mem_versions.mp mem
    · obtain ⟨m, here, follows⟩ := consistent.current v old
      by_cases same : m.id = memory.id
      · exact ⟨memory, saved.mem_memories.mpr (.inl rfl),
          follows.trans (saved.follows consistent place here same)⟩
      · exact ⟨m, saved.mem_memories.mpr (.inr ⟨here, same⟩), follows⟩
    · exact ⟨v, saved.mem_memories.mpr (.inl rfl), Follows.refl v⟩
  complete m mem n positive bound := by
    obtain rfl | ⟨old, -⟩ := saved.mem_memories.mp mem
    · -- the last number is the saved version, the ones before it are those of its row
      by_cases last : n = m.revision
      · exact ⟨m, saved.mem_versions.mpr (.inr rfl), rfl, last.symm⟩
      · cases place with
        | new first => omega
        | after here id _ revision =>
          obtain ⟨v, known, same, number⟩ := consistent.complete _ here n positive (by omega)
          exact ⟨v, saved.mem_versions.mpr (.inl known), by rw [same, id], number⟩
    · obtain ⟨v, known, named⟩ := consistent.complete m old n positive bound
      exact ⟨v, saved.mem_versions.mpr (.inl known), named⟩
  factRow m mem fact present := by
    obtain rfl | ⟨old, other⟩ := saved.mem_memories.mp mem
    · refine ⟨⟨m.id, m.projectId, fact.key, m.status⟩, ?_, rfl⟩
      refine (saved.mem_facts consistent place).mpr (.inr ⟨rfl, rfl, ?_, rfl⟩)
      simp only [MemoryInput.factKey, present, map_some]
    · obtain ⟨row, here, of⟩ := consistent.factRow m old fact present
      exact ⟨row, (saved.mem_facts consistent place).mpr (.inl ⟨here, by rw [of]; exact other⟩), of⟩
  -- The index row of the memory is replaced, the others keep the memory they stand for.
  indexed row mem := by
    obtain ⟨old, other⟩ | named := (saved.mem_facts consistent place).mp mem
    · obtain ⟨m, here, of, rest⟩ := consistent.indexed row old
      exact ⟨m, saved.mem_memories.mpr (.inr ⟨here, by rw [← of]; exact other⟩), of, rest⟩
    · exact ⟨memory, saved.mem_memories.mpr (.inl rfl), named⟩
  cited m mem e quoted := by
    rw [saved.tables]
    refine Database.mem_writeEvidence.mpr ?_
    obtain rfl | ⟨old, other⟩ := saved.mem_memories.mp mem
    · exact .inr ⟨rfl, e, quoted, rfl⟩
    · exact .inl ⟨consistent.cited m old e quoted, other⟩
  compacted m mem := by
    rw [saved.tables]
    obtain rfl | ⟨old, other⟩ := saved.mem_memories.mp mem
    · exact Database.exists_touched consistent.compacted
    · obtain ⟨row, here, of⟩ := consistent.compacted m old
      exact ⟨row, Database.mem_writeMemory_compactions here (by rw [of]; exact other), of⟩
  -- A compaction is moved to the saved revision when it is of this memory.
  compacts row mem := by
    rw [saved.tables] at mem
    obtain ⟨old, absent⟩ | ⟨of, revision, -⟩ := Database.mem_touched mem
    · obtain ⟨m, here, of, revision⟩ := consistent.compacts row old
      have other : m.id ≠ memory.id := fun same => absent (by rw [of, same]) m here same
      exact ⟨m, saved.mem_memories.mpr (.inr ⟨here, other⟩), of, revision⟩
    · exact ⟨memory, saved.mem_memories.mpr (.inl rfl), of, revision⟩
  items := by
    rw [saved.tables]
    exact consistent.items
  numbered := by
    rw [saved.tables]
    exact consistent.numbered
  assigned row mem id assigned := by
    rw [saved.tables] at mem ⊢
    obtain ⟨old, -⟩ | ⟨-, -, -, none | ⟨old, here, -, same⟩⟩ := Database.mem_touched mem
    · exact consistent.assigned row old id assigned
    · rw [none] at assigned
      cases assigned
    · exact consistent.assigned old here id (by rw [same, assigned])
  seeded row mem item present assigned := by
    rw [saved.tables] at mem present
    obtain ⟨old, -⟩ | ⟨of, -, -, none | ⟨old, here, same, work⟩⟩ := Database.mem_touched mem
    · exact consistent.seeded row old item present assigned
    · rw [none] at assigned
      cases assigned
    · rw [of, ← same]
      exact consistent.seeded old here item present (by rw [work, assigned])
  scheduled item present seed seeded := by
    rw [saved.tables] at present
    obtain ⟨kind, known, cited⟩ := consistent.scheduled item present seed seeded
    exact ⟨kind, saved.mem_versions.mpr (.inl known), cited⟩

end Save

/-! ## Runs of writes -/

theorem Consistent.mark (consistent : Consistent db) (mark : CompactionRow → CompactionRow)
    (change : WorkItem → WorkItem)
    (keeps : ∀ row, (mark row).memoryId = row.memoryId ∧ (mark row).revision = row.revision ∧
      (mark row).workId = row.workId)
    (about : ∀ item ∈ db.workItems, (change item).id = item.id ∧
      (change item).receiptId = item.receiptId ∧ (change item).kind = item.kind ∧
      (change item).payload = item.payload) :
    Consistent { db with
      memoryCompactions := db.memoryCompactions.map mark
      workItems := db.workItems.map change } :=
  { consistent with
    compactions := consistent.compactions.map fun row _ => (keeps row).1
    compacted := fun m mem => by
      obtain ⟨row, here, of⟩ := consistent.compacted m mem
      exact ⟨mark row, mem_map_of_mem here, by rw [(keeps row).1, of]⟩
    compacts := fun row mem => by
      obtain ⟨old, here, rfl⟩ := mem_map.mp mem
      obtain ⟨m, there, of, revision⟩ := consistent.compacts old here
      exact ⟨m, there, by rw [(keeps old).1, of], by rw [(keeps old).2.1, revision]⟩
    items := consistent.items.map fun item mem => (about item mem).1
    numbered := fun item mem => by
      obtain ⟨old, here, rfl⟩ := mem_map.mp mem
      rw [(about old here).1]
      exact consistent.numbered old here
    assigned := fun row mem id assigned => by
      obtain ⟨old, here, rfl⟩ := mem_map.mp mem
      exact consistent.assigned old here id (by rw [← (keeps old).2.2, assigned])
    seeded := fun row mem item present assigned => by
      obtain ⟨old, here, rfl⟩ := mem_map.mp mem
      obtain ⟨before, there, rfl⟩ := mem_map.mp present
      obtain ⟨sameId, -, -, samePayload⟩ := about before there
      rw [samePayload, (keeps old).1]
      exact consistent.seeded old here before there (by rw [← (keeps old).2.2, assigned, sameId])
    scheduled := fun item present seed seeded => by
      obtain ⟨before, there, rfl⟩ := mem_map.mp present
      obtain ⟨-, receipt, kind, payload⟩ := about before there
      rw [kind, receipt]
      exact consistent.scheduled before there seed (by rw [← payload, seeded]) }

theorem Consistent.addWork (consistent : Consistent db) (projectId receiptId : String)
    (kind : WorkKind) (payload : Payload) (priority : Nat)
    (scheduled : ∀ seed, payload.seed = some seed → kind = .consolidate ∧
      seed ∈ db.memoryVersions ∧ ∃ e ∈ seed.content.evidence, e.receiptId = receiptId) :
    Consistent (db.addWork projectId receiptId kind payload priority) :=
  { consistent with
    items := consistent.items.append fun item mem same => by
      have bound := consistent.numbered item mem
      change item.id = db.workSequence + 1 at same
      omega
    numbered := fun item mem => by
      obtain old | new := mem_append.mp mem
      · exact Nat.le_succ_of_le (consistent.numbered item old)
      · rw [mem_singleton.mp new]
        exact Nat.le_refl _
    assigned := fun row mem id assigned =>
      Nat.le_succ_of_le (consistent.assigned row mem id assigned)
    seeded := fun row mem item present assigned => by
      obtain old | new := mem_append.mp present
      · exact consistent.seeded row mem item old assigned
      · rw [mem_singleton.mp new] at assigned
        have bound : db.workSequence + 1 ≤ db.workSequence :=
          consistent.assigned row mem _ assigned
        omega
    scheduled := fun item present seed seeded => by
      obtain old | new := mem_append.mp present
      · exact consistent.scheduled item old seed seeded
      · rw [mem_singleton.mp new] at seeded ⊢
        exact scheduled seed seeded }

/-- The row of a seed refers to the work that was added for it last. -/
theorem Consistent.scheduleSeed (consistent : Consistent db) {evidence : Evidence} {now : Int}
    (known : memory ∈ db.memoryVersions) (cited : evidence ∈ memory.content.evidence) :
    Consistent (db.scheduleSeed memory evidence.receiptId now) := by
  have added := consistent.addWork memory.projectId evidence.receiptId .consolidate
    (.compact memory) 3 fun seed seeded => by
      cases seeded
      exact ⟨rfl, known, evidence, cited, rfl⟩
  have altered : ∀ {row : CompactionRow},
      row ∈ (db.scheduleSeed memory evidence.receiptId now).memoryCompactions →
      ∃ old ∈ db.memoryCompactions, row.memoryId = old.memoryId ∧ row.revision = old.revision ∧
        (row.workId = old.workId ∨
          old.memoryId = memory.id ∧ row.workId = some (db.workSequence + 1)) := by
    intro row mem
    obtain ⟨old, here, ⟨same, rfl⟩ | ⟨-, rfl⟩⟩ := mem_alter.mp mem
    · exact ⟨old, here, rfl, rfl, .inr ⟨same, rfl⟩⟩
    · exact ⟨row, here, rfl, rfl, .inl rfl⟩
  exact { added with
    compactions := added.compactions.alter fun row _ => rfl
    compacted := fun m mem => by
      obtain ⟨row, here, of⟩ := added.compacted m mem
      by_cases same : row.memoryId = memory.id
      · exact ⟨_, mem_alter.mpr ⟨row, here, .inl ⟨same, rfl⟩⟩, of⟩
      · exact ⟨row, mem_alter.mpr ⟨row, here, .inr ⟨same, rfl⟩⟩, of⟩
    compacts := fun row mem => by
      obtain ⟨old, here, id, revision, -⟩ := altered mem
      rw [id, revision]
      exact consistent.compacts old here
    assigned := fun row mem id assigned => by
      obtain ⟨old, here, -, -, same | ⟨-, last⟩⟩ := altered mem
      · exact added.assigned old here id (by rw [← same, assigned])
      · rw [last, some.injEq] at assigned
        exact assigned ▸ Nat.le_refl _
    seeded := fun row mem item present assigned => by
      obtain ⟨old, here, id, -, same | ⟨of, last⟩⟩ := altered mem
      · rw [id]
        exact added.seeded old here item present (by rw [← same, assigned])
      · rw [last, some.injEq] at assigned
        obtain before | new := mem_append.mp present
        · have bound := consistent.numbered item before
          omega
        · rw [mem_singleton.mp new, id, of]
          exact ⟨memory, rfl, rfl⟩ }

theorem Consistent.write {t : Transaction} (consistent : Consistent db) (write : Write t db db') :
    Consistent db' := by
  cases write with
  | save grounded ok =>
    have saved := saved_of_ok ok
    exact consistent.save saved (grounded.place consistent saved)
  | suppress ok =>
    obtain ⟨suppressions, rfl, -⟩ := suppressHistory_of_ok ok
    exact { consistent with }
  | observe =>
    rename_i memory _
    have marked := consistent.mark (fun row =>
      if row.memoryId = memory.id ∧ row.revision = memory.revision then
        { row with dirty := false, checkedAt := t.now }
      else row) id (fun row => by split <;> exact ⟨rfl, rfl, rfl⟩) fun _ _ => ⟨rfl, rfl, rfl, rfl⟩
    rw [List.map_id] at marked
    exact marked
  | schedule mem _ first =>
    exact consistent.scheduleSeed (consistent.written _ mem) (mem_of_mem_head? first)
  | add seedless =>
    refine consistent.addWork _ _ _ _ _ fun seed seeded => ?_
    rw [seedless] at seeded
    cases seeded
  | change changes =>
    refine consistent.mark _ _ (fun row => ?_) fun item mem => ?_
    · split <;> exact ⟨rfl, rfl, rfl⟩
    · split
      · rename_i selected
        obtain ⟨id, -, receipt, kind, payload⟩ := (changes item mem selected).about
        exact ⟨id, receipt, kind, payload⟩
      · exact ⟨rfl, rfl, rfl, rfl⟩
  | frame => exact { consistent with }

theorem Consistent.writes {t : Transaction} (consistent : Consistent db)
    (writes : Writes t db db') : Consistent db' :=
  invariant_of_steps Consistent (fun _ _ write before => before.write write) writes consistent

end

end Agentix.MemoryStore
