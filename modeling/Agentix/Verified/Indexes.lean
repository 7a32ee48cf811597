import Agentix.MemoryStore.IndexKept
import Agentix.MemoryStore.Run

/-! # Indexes

The versions, the evidence, the full-text rows and the vectors agree with the memories in every
reachable state.
-/

namespace Agentix.MemoryStore

open Lib List

/-- The versions of a memory are numbered up to its row, which is the last of them, and the evidence
rows are those of the receipts that the rows cite. -/
structure RowsAgree (db : Database) : Prop where
  memories : Distinct Memory.id db.memories
  versions : Distinct (fun v : Memory => (v.id, v.revision)) db.memoryVersions
  owned : ∀ v ∈ db.memoryVersions, ∃ m ∈ db.memories, m.id = v.id
  revisions : ∀ m ∈ db.memories, ∀ n,
    (∃ v ∈ db.memoryVersions, v.id = m.id ∧ v.revision = n) ↔ 1 ≤ n ∧ n ≤ m.revision
  last : ∀ m ∈ db.memories, ∀ v ∈ db.memoryVersions, v.id = m.id → v.revision = m.revision → v = m
  evidence : ∀ row, row ∈ db.memoryEvidence ↔
    ∃ m ∈ db.memories, row.memoryId = m.id ∧ ∃ e ∈ m.content.evidence, e.receiptId = row.receiptId

section

variable [Environment]

/-- A memory has a full-text row if it is active or conflicted, and the row is of its content.  The
vectors of the generation of a profile have its dimensions, every vector is for the revision that its
memory has, and a search finds active memories by such vectors only. -/
structure IndexAgrees [Indexing] (db : Database) (index : SearchIndex) : Prop where
  fts : Distinct FtsRow.memoryId index.memoryFts
  mem_fts : ∀ row, row ∈ index.memoryFts ↔
    ∃ m ∈ db.memories, (m.status = .active ∨ m.status = .conflicted) ∧ row = m.ftsRow
  dimensions : ∀ p ∈ index.embeddingProfiles, ∀ v ∈ index.memoryVectors,
    v.projectId = p.projectId → v.generation = p.generation → v.vector.length = p.dimensions
  current : ∀ v ∈ index.memoryVectors, ∃ m ∈ db.memories, m.id = v.memoryId ∧
    m.projectId = v.projectId ∧ m.revision = v.revision
  found : ∀ now projectId generation vector limit ids,
    index.vectorCandidates db now projectId generation vector limit = .ok ids →
      ∀ id ∈ ids, ∃ m ∈ db.memories, m.id = id ∧ m.projectId = projectId ∧ m.embeddable now ∧
        ∃ v ∈ index.memoryVectors, v.memoryId = id ∧ v.generation = generation ∧
          v.revision = m.revision

theorem Consistent.rowsAgree {db : Database} (consistent : Consistent db) (exact_ : Exact db) :
    RowsAgree db where
  memories := consistent.memories
  versions := consistent.versions
  owned v known := by
    obtain ⟨m, mem, follows⟩ := consistent.current v known
    exact ⟨m, mem, follows.id⟩
  revisions m mem n := by
    constructor
    · rintro ⟨v, known, same, rfl⟩
      exact ⟨exact_.first v known, consistent.revision_le known mem same⟩
    · rintro ⟨positive, bound⟩
      exact consistent.complete m mem n positive bound
  last m mem v known same revision :=
    consistent.versions.eq_of_key known (consistent.written m mem) (by rw [same, revision])
  evidence row := by
    constructor
    · exact exact_.cited row
    · rintro ⟨m, mem, of, e, cites, receipt⟩
      have cited := consistent.cited m mem e cites
      rw [receipt, ← of] at cited
      exact cited

omit [Environment] in
theorem searchable_iff {status : Status} :
    status.searchable ↔ status = .active ∨ status = .conflicted := by
  cases status <;> simp [Status.searchable]

variable [Indexing] {db : Database} {index : SearchIndex}

omit [Environment] in
/-- A candidate comes from a vector of the generation, for an active memory as it is. -/
theorem mem_vectorCandidates {now : Int} {projectId : String} {generation : Nat}
    {vector : List UInt32} {limit : Nat} {ids : List String}
    (ok : index.vectorCandidates db now projectId generation vector limit = .ok ids) {id : String}
    (mem : id ∈ ids) : ∃ v ∈ index.memoryVectors, v.memoryId = id ∧ v.projectId = projectId ∧
      v.generation = generation ∧ index.current db now v := by
  unfold SearchIndex.vectorCandidates at ok
  split at ok
  · cases ok
    cases mem
  · simp only [bind_ok, ensure_ok, pure_ok] at ok
    obtain ⟨⟨⟩, -, query, -, ⟨⟩, -, rfl⟩ := ok
    obtain ⟨scored, taken, rfl⟩ := mem_map.mp mem
    have sorted := mem_mergeSort.mp (mem_of_mem_take taken)
    obtain ⟨v, here, score⟩ := mem_filterMap.mp sorted
    split at score
    · cases score
    · cases score
      simp only [mem_filter, Bool.and_eq_true, decide_eq_true_eq] at here
      exact ⟨v, here.1, rfl, here.2.1.1, here.2.1.2, here.2.2⟩

theorem Mirrors.indexAgrees (mirrors : Mirrors db index) (consistent : Consistent db) :
    IndexAgrees db index where
  fts := mirrors.fts
  mem_fts row := by
    rw [mirrors.mem_fts row]
    simp only [searchable_iff]
  dimensions p profile v stored project generation := by
    obtain ⟨p', profile', project', -, sized⟩ := mirrors.sized v stored
    have same := mirrors.profiles.eq_of_key profile' profile (project'.trans project)
    subst same
    exact sized generation
  current v stored := by
    obtain ⟨m, mem, id, project, revision, -⟩ := mirrors.current v stored
    exact ⟨m, mem, id, project, revision⟩
  found now projectId generation vector limit ids ok id mem := by
    obtain ⟨v, stored, of, project, same, current⟩ := mem_vectorCandidates ok mem
    simp only [SearchIndex.current, Bool.and_eq_true, any_eq_true, decide_eq_true_eq]
      at current
    obtain ⟨-, m, here, ⟨id', revision⟩, embeddable⟩ := current
    obtain ⟨m', here', id'', project', -⟩ := mirrors.current v stored
    have row := consistent.memory_eq here here' (id'.trans id''.symm)
    subst row
    exact ⟨m, here, id'.trans of, project'.trans project, embeddable, v, stored, of, same,
      revision.symm⟩

/-- In every reachable state the versions and the evidence agree with the memories and so does the
index, and no later call changes a version. -/
theorem indexes_agree_with_memories {config : AgentConfig} {opened : Int}
    {condition : IndexedState → Int × IndexOperation → Prop} {s s' : IndexedState}
    (run : (indexedStore config opened).Reachable condition s)
    (path : (indexedStore config opened).Path condition s s') :
    RowsAgree s'.state.db ∧ IndexAgrees s'.state.db s'.index ∧
      s.state.db.memoryVersions <+: s'.state.db.memoryVersions := by
  have reached := run.path path
  have consistent := (sound_of_reachable (reachable_state reached)).consistent
  have agrees := agrees_of_reachable reached
  exact ⟨consistent.rowsAgree agrees.exact_, agrees.mirrors.indexAgrees consistent,
    versions_grow_of_path run path⟩

end

/-! ## A revised memory -/

/-- Words of ASCII letters, and vectors along one axis. -/
@[reducible] def axes : Indexing where
  cutForSearch text := (text.toList.splitOnP fun c => !c.isAlphanum).map String.ofList
  isAlphanumeric := Char.isAlphanum
  digest := id
  finite bits := bits = 0 || bits = 0x3f800000
  normed vector := vector.count 0x3f800000 = 1
  scaled _ bits := if bits = 0 then 0 else 0x3ff0000000000000
  similarity query stored := if query = stored then 1 else 0

def indexedRun (s : IndexedState) (calls : List (Int × IndexOperation)) : IndexedState :=
  calls.foldl
    (fun s call => @IndexedState.after Plain.environment axes s Plain.config call.1 call.2) s

theorem path_indexedRun (s : IndexedState) (calls : List (Int × IndexOperation)) :
    (@indexedStore Plain.environment axes Plain.config 0).Path System.always s
      (indexedRun s calls) := by
  induction calls generalizing s with
  | nil => exact .refl
  | cons call rest ih =>
    exact .head ⟨call, trivial, rfl⟩ (ih _)

/-- A memory with a vector. -/
def embeddedNote : IndexedState :=
  indexedRun { state := .empty 0 } [
    (1, .call (.ingest (Plain.turn "receipt" "p" "turn" none))),
    (2, .call (.create "p" (Plain.note "receipt") .agent "a")),
    (3, .reserveEmbedding "p" "model" (some 2)),
    (4, .putEmbedding "p" "a" 1 1 [0x3f800000, 0])]

/-- The vector of the first revision comes again after the second revision. -/
def revisedNote : IndexedState :=
  indexedRun embeddedNote [
    (5, .call (.update "p" "a" 1 { Plain.note "receipt" with title := "Server" } .agent)),
    (6, .putEmbedding "p" "a" 1 1 [0x3f800000, 0])]

theorem late_vector_is_refused :
    embeddedNote.index.memoryVectors.map (fun v => (v.memoryId, v.revision)) = [("a", 1)] ∧
    revisedNote.state.db.memories.map (fun m => (m.id, m.revision)) = [("a", 2)] ∧
    revisedNote.index.memoryVectors = [] ∧
    RowsAgree revisedNote.state.db ∧
    @IndexAgrees Plain.environment axes revisedNote.state.db revisedNote.index ∧
    embeddedNote.state.db.memoryVersions <+: revisedNote.state.db.memoryVersions := by
  have run : (@indexedStore Plain.environment axes Plain.config 0).Reachable System.always
      embeddedNote := .path .start (path_indexedRun _ _)
  exact ⟨by decide +kernel, by decide +kernel, by decide +kernel,
    @indexes_agree_with_memories Plain.environment axes Plain.config 0 _ _ _ run
      (path_indexedRun embeddedNote _)⟩

end Agentix.MemoryStore
