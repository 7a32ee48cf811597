import Agentix.MemoryStore.Leasing

/-! # Dirty revisions

How the store keeps track of the revisions that wait for their compaction.
-/

namespace Agentix.MemoryStore

open Lib List

/-- What an item is about. -/
structure SameWork (item item' : WorkItem) : Prop where
  id : item'.id = item.id
  receipt : item'.receiptId = item.receiptId
  kind : item'.kind = item.kind
  payload : item'.payload = item.payload

/-- The item is for the current revision of a memory. -/
def Seeds (item : WorkItem) (m : Memory) : Prop :=
  ∃ seed, item.payload.seed = some seed ∧ revisionOf seed = revisionOf m

def Tracked (db : Database) (m : Memory) : Prop :=
  ∃ row ∈ db.memoryCompactions, row.memoryId = m.id ∧
    (row.dirty ∨ row.suspended ∨
      ∃ item ∈ db.workItems, row.workId = some item.id ∧ item.active ∧ Seeds item m)

/-- The work on a revision was ended whatever becomes of it. -/
def Dropped (lost : WorkItem → Prop) (db : Database) (m : Memory) : Prop :=
  ∃ item ∈ db.workItems, Seeds item m ∧ ∃ old, lost old ∧ SameWork old item

def Covered (now : Int) (seen : List (String × Nat)) (lost : WorkItem → Prop) (db : Database) :
    Prop :=
  ∀ m ∈ db.memories, m.compactable now →
    revisionOf m ∈ seen ∨ Tracked db m ∨ Dropped lost db m

theorem SameWork.refl (item : WorkItem) : SameWork item item := ⟨rfl, rfl, rfl, rfl⟩

theorem SameWork.trans {a b c : WorkItem} (first : SameWork a b) (second : SameWork b c) :
    SameWork a c where
  id := by rw [second.id, first.id]
  receipt := by rw [second.receipt, first.receipt]
  kind := by rw [second.kind, first.kind]
  payload := by rw [second.payload, first.payload]

theorem Change.sameWork {t : Transaction} {item item' : WorkItem} (change : Change t item item') :
    SameWork item item' := by
  obtain ⟨id, -, receipt, kind, payload⟩ := change.about
  exact ⟨id, receipt, kind, payload⟩

theorem Seeds.same {item item' : WorkItem} {m : Memory} (seeds : Seeds item m)
    (same : SameWork item item') : Seeds item' m := by
  obtain ⟨seed, seeded, revision⟩ := seeds
  exact ⟨seed, by rw [same.payload, seeded], revision⟩

section

variable [Environment] {t : Transaction} {db db' : Database} {m : Memory} {lost : WorkItem → Prop}
  {seen : List (String × Nat)} {now : Int}

variable {memory : Memory}

/-- No item of a queue goes away. -/
theorem Write.sameWork (write : Write t db db') :
    ∀ item ∈ db.workItems, ∃ item' ∈ db'.workItems, SameWork item item' := by
  intro item mem
  cases write with
  | save _ ok =>
    rw [(saved_of_ok ok).tables]
    exact ⟨item, mem, .refl item⟩
  | suppress ok =>
    obtain ⟨_, rfl, -⟩ := suppressHistory_of_ok ok
    exact ⟨item, mem, .refl item⟩
  | observe => exact ⟨item, mem, .refl item⟩
  | schedule => exact ⟨item, mem_append_left _ mem, .refl item⟩
  | add => exact ⟨item, mem_append_left _ mem, .refl item⟩
  | change changes =>
    refine ⟨_, mem_map_of_mem mem, ?_⟩
    split
    · rename_i selected
      exact (changes item mem selected).sameWork
    · exact .refl item
  | frame => exact ⟨item, mem, .refl item⟩

theorem Writes.sameWork (writes : Writes t db db') :
    ∀ item ∈ db.workItems, ∃ item' ∈ db'.workItems, SameWork item item' := by
  induction writes with
  | refl => exact fun item mem => ⟨item, mem, .refl item⟩
  | tail _ write ih =>
    intro item mem
    obtain ⟨item', here, same⟩ := ih item mem
    obtain ⟨item'', there, same'⟩ := write.sameWork item' here
    exact ⟨item'', there, same.trans same'⟩

omit [Environment] in
theorem Dropped.mono (dropped : Dropped lost db m)
    (kept : ∀ item ∈ db.workItems, ∃ item' ∈ db'.workItems, SameWork item item') :
    Dropped lost db' m := by
  obtain ⟨item, mem, seeds, old, ended, same⟩ := dropped
  obtain ⟨item', mem', same'⟩ := kept item mem
  exact ⟨item', mem', seeds.same same', old, ended, same.trans same'⟩

omit [Environment] in
theorem Tracked.mono (tracked : Tracked db m) (items : db.workItems ⊆ db'.workItems)
    (rows : ∀ row ∈ db.memoryCompactions, row.memoryId = m.id → row ∈ db'.memoryCompactions) :
    Tracked db' m := by
  obtain ⟨row, mem, of, tracks⟩ := tracked
  refine ⟨row, rows row mem of, of, ?_⟩
  obtain dirty | suspended | ⟨item, here, rest⟩ := tracks
  · exact .inl dirty
  · exact .inr (.inl suspended)
  · exact .inr (.inr ⟨item, items here, rest⟩)

/-! ## Writes -/

theorem tracked_of_save (consistent : Consistent db) (saved : Saved db db' memory)
    (mem : m ∈ db'.memories) (compactable : m.compactable now) :
    Tracked db' m ∨ m ∈ db.memories ∧ (Tracked db m → Tracked db' m) := by
  obtain rfl | ⟨old, other⟩ := saved.mem_memories.mp mem
  · refine .inl ?_
    obtain ⟨row, here, of⟩ : ∃ row ∈ (db.writeMemory m).memoryCompactions, row.memoryId = m.id :=
      Database.exists_touched consistent.compacted
    refine ⟨row, ?_, of, .inl ?_⟩
    · rw [saved.tables]
      exact here
    · obtain ⟨known, absent⟩ | ⟨-, -, dirty, -⟩ := Database.mem_touched here
      · obtain ⟨m', there, of', -⟩ := consistent.compacts row known
        exact absurd (by rw [← of', of]) (absent of m' there)
      · simp only [Memory.compactable, Bool.and_eq_true, decide_eq_true_eq] at compactable
        simp [dirty, Memory.dirty, compactable.1]
  · refine .inr ⟨old, fun tracked => tracked.mono ?_ fun row known of => ?_⟩
    · rw [saved.tables]
      exact List.Subset.refl _
    · rw [saved.tables]
      exact Database.mem_writeMemory_compactions known (by rw [of]; exact other)

omit [Environment] in
theorem Tracked.observe (tracked : Tracked db m)
    (followed : ∀ row ∈ db.memoryCompactions, row.memoryId = m.id → row.revision = m.revision)
    (other : revisionOf m ≠ revisionOf memory) : Tracked (db.observed now memory) m := by
  refine tracked.mono (List.Subset.refl _) fun row known of => ?_
  refine mem_map.mpr ⟨row, known, if_neg fun marked => other ?_⟩
  rw [revisionOf, revisionOf, ← marked.1, ← marked.2, of, followed row known of]

theorem tracked_scheduleSeed {receiptId : String} (consistent : Consistent db)
    (mem : memory ∈ db.memories) : Tracked (db.scheduleSeed memory receiptId now) memory := by
  obtain ⟨row, known, of⟩ := consistent.compacted memory mem
  refine ⟨_, mem_alter.mpr ⟨row, known, .inl ⟨of, rfl⟩⟩, of, .inr (.inr ?_)⟩
  exact ⟨_, mem_append_right _ (mem_singleton.mpr rfl), rfl, rfl, memory, rfl, rfl⟩

omit [Environment] in
theorem exists_updated {row : CompactionRow} (known : row ∈ db.memoryCompactions)
    (selected : WorkItem → Bool) (change : WorkItem → WorkItem) :
    ∃ row' ∈ (db.updateWork selected change).memoryCompactions, row'.memoryId = row.memoryId ∧
      row'.workId = row.workId ∧ row'.dirty = row.dirty ∧ (row.suspended → row'.suspended) ∧
      ∀ item ∈ db.workItems, selected item → (change item).state = .failed →
        row.workId = some (change item).id →
        ((change item).payload.seed.any fun seed => seed.revision = row.revision) →
        row'.suspended := by
  refine ⟨_, mem_map_of_mem known, ?_⟩
  split
  · exact ⟨rfl, rfl, rfl, fun _ => rfl, fun _ _ _ _ _ _ => rfl⟩
  · rename_i kept
    refine ⟨rfl, rfl, rfl, id, fun item here chosen failed work seeds => absurd ?_ kept⟩
    refine any_eq_true.mpr ⟨change item, mem_filter.mpr ⟨?_, ?_⟩, ?_⟩
    · exact mem_map_of_mem (mem_filter.mpr ⟨here, chosen⟩)
    · exact decide_eq_true failed
    · rw [Bool.and_eq_true]
      exact ⟨decide_eq_true work, seeds⟩

omit [Environment] in
theorem Tracked.change {selected : WorkItem → Bool} {change : WorkItem → WorkItem}
    (tracked : Tracked db m)
    (followed : ∀ row ∈ db.memoryCompactions, row.memoryId = m.id → row.revision = m.revision)
    (mem : m ∈ db.memories) (compactable : m.compactable t.now)
    (changes : ∀ item ∈ db.workItems, selected item → Change t item (change item))
    (ended : ∀ item ∈ db.workItems, selected item →
      (change item).active ∨ (change item).state = .failed ∨ t.lost item ∨ Spent t db item) :
    revisionOf m ∈ t.seen ∨ Tracked (db.updateWork selected change) m ∨
      Dropped t.lost (db.updateWork selected change) m := by
  obtain ⟨row, known, of, tracks⟩ := tracked
  obtain ⟨row', known', id, work, dirtiness, stays, suspends⟩ :=
    exists_updated known selected change
  have of' : row'.memoryId = m.id := by rw [id, of]
  obtain dirty | suspended | ⟨item, here, refers, active, seeds⟩ := tracks
  · exact .inr (.inl ⟨row', known', of', .inl (dirtiness ▸ dirty)⟩)
  · exact .inr (.inl ⟨row', known', of', .inr (.inl (stays suspended))⟩)
  · have there : (if selected item then change item else item) ∈
        (db.updateWork selected change).workItems := mem_map_of_mem here
    by_cases chosen : selected item
    · rw [if_pos chosen] at there
      have same := (changes item here chosen).sameWork
      obtain active | failed | lost | spent := ended item here chosen
      · refine .inr (.inl ⟨row', known', of', .inr (.inr ⟨_, there, ?_, active, seeds.same same⟩)⟩)
        rw [work, refers, same.id]
      · refine .inr (.inl ⟨row', known', of', .inr (.inl ?_)⟩)
        refine suspends item here chosen failed (by rw [refers, same.id]) ?_
        obtain ⟨seed, seeded, revision⟩ := seeds
        rw [same.payload, seeded, followed row known of]
        exact decide_eq_true (Prod.mk.inj revision).2
      · exact .inr (.inr ⟨_, there, seeds.same same, item, lost, same⟩)
      · obtain ⟨seed, seeded, revision⟩ := seeds
        exact .inl (spent seed seeded m mem revision.symm compactable)
    · rw [if_neg chosen] at there
      refine .inr (.inl ⟨row', known', of', .inr (.inr ⟨item, there, ?_, active, seeds⟩)⟩)
      rw [work, refers]

theorem Covered.write (covered : Covered t.now seen t.lost db) (consistent : Consistent db)
    (known : t.seen ⊆ seen) (write : Write t db db') : Covered t.now seen t.lost db' := by
  have kept := write.sameWork
  -- a write that leaves the memories keeps what is seen or dropped
  have same : db'.memories = db.memories → (∀ m ∈ db.memories, m.compactable t.now → Tracked db m →
      revisionOf m ∈ t.seen ∨ Tracked db' m ∨ Dropped t.lost db' m) →
      Covered t.now seen t.lost db' := by
    intro memories tracks m mem compactable
    rw [memories] at mem
    obtain seen | tracked | dropped := covered m mem compactable
    · exact .inl seen
    · obtain seen | rest := tracks m mem compactable tracked
      · exact .inl (known seen)
      · exact .inr rest
    · exact .inr (.inr (dropped.mono kept))
  have followed : ∀ m ∈ db.memories, ∀ row ∈ db.memoryCompactions, row.memoryId = m.id →
      row.revision = m.revision := by
    intro m mem row listed of
    obtain ⟨m', here, of', revision⟩ := consistent.compacts row listed
    rw [revision, consistent.memory_eq here mem (by rw [← of', of])]
  cases write with
  | save grounded ok =>
    intro m mem compactable
    obtain tracked | ⟨old, tracks⟩ :=
      tracked_of_save consistent (saved_of_ok ok) mem compactable
    · exact .inr (.inl tracked)
    · obtain seen | tracked | dropped := covered m old compactable
      · exact .inl seen
      · exact .inr (.inl (tracks tracked))
      · exact .inr (.inr (dropped.mono kept))
  | suppress ok =>
    obtain ⟨_, rfl, -⟩ := suppressHistory_of_ok ok
    exact same rfl fun m mem _ tracked => .inr (.inl tracked)
  | observe marked =>
    rename_i memory
    refine same rfl fun m mem compactable tracked => ?_
    by_cases marks : revisionOf m = revisionOf memory
    · obtain seen | ⟨here, unfit⟩ := marked
      · rw [marks]
        exact .inl seen
      · rw [← consistent.memory_eq mem here (Prod.mk.inj marks).1, compactable] at unfit
        cases unfit
    · exact .inr (.inl (tracked.observe (followed m mem) marks))
  | schedule here fit first =>
    rename_i memory evidence
    refine same rfl fun m mem compactable tracked => .inr (.inl ?_)
    by_cases own : m.id = memory.id
    · rw [consistent.memory_eq mem here own]
      exact tracked_scheduleSeed consistent here
    · refine tracked.mono (subset_append_left _ _) fun row listed of => ?_
      exact mem_alter.mpr ⟨row, listed, .inr ⟨by rw [of]; exact own, rfl⟩⟩
  | add =>
    refine same rfl fun m mem _ tracked => .inr (.inl ?_)
    exact tracked.mono (subset_append_left _ _) fun row listed _ => listed
  | change changes ended =>
    exact same rfl fun m mem compactable tracked =>
      tracked.change (followed m mem) mem compactable changes ended
  | frame => exact same rfl fun m mem _ tracked => .inr (.inl tracked)

theorem Covered.writes (covered : Covered t.now seen t.lost db) (consistent : Consistent db)
    (known : t.seen ⊆ seen) (writes : Writes t db db') : Covered t.now seen t.lost db' := by
  induction writes with
  | refl => exact covered
  | tail before write ih =>
    exact ih.write (consistent.writes before) known write

omit [Environment] in
theorem Covered.mono {lost' : WorkItem → Prop} {seen' : List (String × Nat)} {later : Int}
    (covered : Covered now seen lost db) (forward : now ≤ later) (more : seen ⊆ seen')
    (drops : ∀ item, lost item → lost' item) : Covered later seen' lost' db := by
  intro m mem compactable
  have before : m.compactable now := by
    simp only [Memory.compactable, MemoryInput.unexpired, Bool.and_eq_true, Option.all_eq_true,
      decide_eq_true_eq] at compactable ⊢
    exact ⟨compactable.1, fun expiry present => by have := compactable.2 expiry present; omega⟩
  obtain known | tracked | ⟨item, here, seeds, old, ended, same⟩ := covered m mem before
  · exact .inl (more known)
  · exact .inr (.inl tracked)
  · exact .inr (.inr ⟨item, here, seeds, old, drops old ended, same⟩)

theorem Seeds.cites (consistent : Consistent db) {item : WorkItem} (listed : item ∈ db.workItems)
    (mem : m ∈ db.memories) (seeds : Seeds item m) :
    item.payload.seed = some m ∧ ∃ e ∈ m.content.evidence, e.receiptId = item.receiptId := by
  obtain ⟨seed, seeded, revision⟩ := seeds
  obtain ⟨-, known, cites⟩ := consistent.scheduled item listed seed seeded
  have same : seed = m :=
    consistent.versions.eq_of_key known (consistent.written m mem) revision
  exact same ▸ ⟨seeded, cites⟩

end

end Agentix.MemoryStore
