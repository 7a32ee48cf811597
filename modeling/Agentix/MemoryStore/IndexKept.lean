import Agentix.MemoryStore.History
import Agentix.MemoryStore.SearchIndex

/-! # The index of reachable states

The rows of the index follow the memories through every call: a write of a memory is a save, and a
save writes the index too.
-/

namespace Agentix.MemoryStore

open Lib List Option

/-! ## The versions and the evidence -/

/-- The evidence rows are those of the receipts that the memories cite. -/
structure Exact (db : Database) : Prop where
  first : ∀ v ∈ db.memoryVersions, 1 ≤ v.revision
  cited : ∀ row ∈ db.memoryEvidence, ∃ m ∈ db.memories, row.memoryId = m.id ∧
    ∃ e ∈ m.content.evidence, e.receiptId = row.receiptId

theorem Exact.empty : Exact {} := by
  constructor <;> simp

section

variable [Environment] {t : Transaction} {db db' : Database} {memory : Memory}

/-- What a write does to the memories, their versions and their evidence. -/
inductive Effect (db db' : Database) : Prop
  | save {memory : Memory} (place : Place db memory) (saved : Saved db db' memory)
  | kept (memories : db'.memories = db.memories) (versions : db'.memoryVersions = db.memoryVersions)
      (evidence : db'.memoryEvidence = db.memoryEvidence)

theorem Write.effect (write : Write t db db') (consistent : Consistent db) : Effect db db' := by
  cases write with
  | save grounded ok =>
    have saved := saved_of_ok ok
    exact .save (grounded.place consistent saved) saved
  | suppress ok =>
    obtain ⟨_, rfl, -⟩ := suppressHistory_of_ok ok
    exact .kept rfl rfl rfl
  | observe => exact .kept rfl rfl rfl
  | schedule => exact .kept rfl rfl rfl
  | add => exact .kept rfl rfl rfl
  | change => exact .kept rfl rfl rfl
  | frame => exact .kept rfl rfl rfl

theorem Saved.versions (saved : Saved db db' memory) :
    db'.memoryVersions = db.memoryVersions ++ [memory] := by
  rw [saved.tables]

theorem Saved.mem_evidence (saved : Saved db db' memory) {row : EvidenceRow} :
    row ∈ db'.memoryEvidence ↔ (row ∈ db.memoryEvidence ∧ row.memoryId ≠ memory.id) ∨
      (row.memoryId = memory.id ∧ ∃ e ∈ memory.content.evidence, e.receiptId = row.receiptId) := by
  rw [saved.tables]
  exact Database.mem_writeEvidence

theorem Effect.versions_grow (effect : Effect db db') :
    db.memoryVersions <+: db'.memoryVersions := by
  cases effect with
  | save _ saved =>
    rw [saved.versions]
    exact prefix_append _ _
  | kept _ versions => exact versions ▸ prefix_rfl

theorem Exact.effect (exact_ : Exact db) (effect : Effect db db') : Exact db' := by
  cases effect with
  | @save memory place saved =>
    constructor
    · intro v known
      obtain old | rfl := saved.mem_versions.mp known
      · exact exact_.first v old
      · cases place with
        | new first => omega
        | after _ _ _ revision => omega
    · intro row mem
      obtain ⟨old, other⟩ | ⟨same, cites⟩ := saved.mem_evidence.mp mem
      · obtain ⟨m, here, of, cites⟩ := exact_.cited row old
        exact ⟨m, saved.mem_memories.mpr (.inr ⟨here, of ▸ other⟩), of, cites⟩
      · exact ⟨memory, saved.mem_memories.mpr (.inl rfl), same, cites⟩
  | kept memories versions evidence =>
    constructor
    · rw [versions]
      exact exact_.first
    · rw [memories, evidence]
      exact exact_.cited

end

/-! ## The rows of the index -/

section

variable [Environment] [Indexing] {t : Transaction} {db db' db'' : Database} {memory : Memory}
  {index index' : SearchIndex}

/-- The full-text rows are those of the memories that are found, and a vector is for the row of its
memory as it is. -/
structure Mirrors (db : Database) (index : SearchIndex) : Prop where
  fts : Distinct FtsRow.memoryId index.memoryFts
  mem_fts : ∀ row, row ∈ index.memoryFts ↔
    ∃ m ∈ db.memories, m.status.searchable ∧ row = m.ftsRow
  vectors : Distinct (fun v : VectorRow => (v.memoryId, v.generation)) index.memoryVectors
  profiles : Distinct EmbeddingProfile.projectId index.embeddingProfiles
  current : ∀ v ∈ index.memoryVectors, ∃ m ∈ db.memories, m.id = v.memoryId ∧
    m.projectId = v.projectId ∧ m.revision = v.revision ∧ m.status = .active
  filled : ∀ v ∈ index.memoryVectors, v.vector ≠ []
  sized : ∀ v ∈ index.memoryVectors, ∃ p ∈ index.embeddingProfiles, p.projectId = v.projectId ∧
    v.generation ≤ p.generation ∧
      (v.generation = p.generation → v.vector.length = p.dimensions)

theorem Mirrors.empty : Mirrors {} {} := by
  constructor <;> simp [Distinct]

theorem Mirrors.of_same (mirrors : Mirrors db index) (memories : db'.memories = db.memories) :
    Mirrors db' index where
  fts := mirrors.fts
  mem_fts := by
    rw [memories]
    exact mirrors.mem_fts
  vectors := mirrors.vectors
  profiles := mirrors.profiles
  current := by
    rw [memories]
    exact mirrors.current
  filled := mirrors.filled
  sized := mirrors.sized

/-! ## Saves -/

namespace SearchIndex

@[simp] theorem ftsRow_memoryId (m : Memory) : m.ftsRow.memoryId = m.id := rfl

@[simp] theorem indexMemory_memoryVectors (index : SearchIndex) (m : Memory) :
    (index.indexMemory m).memoryVectors = index.memoryVectors := rfl

@[simp] theorem indexMemory_embeddingProfiles (index : SearchIndex) (m : Memory) :
    (index.indexMemory m).embeddingProfiles = index.embeddingProfiles := rfl

theorem mem_indexMemory {row : FtsRow} : row ∈ (index.indexMemory memory).memoryFts ↔
    (row ∈ index.memoryFts ∧ row.memoryId ≠ memory.id) ∨
      (memory.status.searchable ∧ row = memory.ftsRow) := by
  simp only [indexMemory]
  split
  · rename_i searchable
    simp [searchable]
  · rename_i hidden
    simp [hidden]

theorem distinct_indexMemory (distinct : Distinct FtsRow.memoryId index.memoryFts) :
    Distinct FtsRow.memoryId (index.indexMemory memory).memoryFts := by
  have others : Distinct FtsRow.memoryId
      (index.memoryFts.filter fun row => row.memoryId ≠ memory.id) := distinct.filter _
  simp only [indexMemory]
  split
  · refine others.append fun old mem same => ?_
    simp only [mem_filter, decide_eq_true_eq] at mem
    exact mem.2 same
  · exact others

@[simp] theorem saved_embeddingProfiles (index : SearchIndex) (m : Memory) :
    (index.saved m).embeddingProfiles = index.embeddingProfiles := rfl

theorem mem_saved_memoryVectors {v : VectorRow} : v ∈ (index.saved memory).memoryVectors ↔
    v ∈ index.memoryVectors ∧ v.memoryId ≠ memory.id := by
  simp [saved]

end SearchIndex

/-- A save takes the vectors of the memory away, and its row is written anew. -/
theorem Mirrors.saved (mirrors : Mirrors db index) (saved : Saved db db' memory) :
    Mirrors db' (index.saved memory) where
  fts := SearchIndex.distinct_indexMemory mirrors.fts
  mem_fts row := by
    refine SearchIndex.mem_indexMemory.trans ⟨?_, ?_⟩
    · rintro (⟨old, other⟩ | ⟨searchable, rfl⟩)
      · obtain ⟨m, here, searchable, rfl⟩ := (mirrors.mem_fts row).mp old
        exact ⟨m, saved.mem_memories.mpr (.inr ⟨here, other⟩), searchable, rfl⟩
      · exact ⟨memory, saved.mem_memories.mpr (.inl rfl), searchable, rfl⟩
    · rintro ⟨m, mem, searchable, rfl⟩
      obtain rfl | ⟨here, other⟩ := saved.mem_memories.mp mem
      · exact .inr ⟨searchable, rfl⟩
      · exact .inl ⟨(mirrors.mem_fts _).mpr ⟨m, here, searchable, rfl⟩, other⟩
  vectors := mirrors.vectors.filter _
  profiles := mirrors.profiles
  current v mem := by
    obtain ⟨old, other⟩ := SearchIndex.mem_saved_memoryVectors.mp mem
    obtain ⟨m, here, id, rest⟩ := mirrors.current v old
    exact ⟨m, saved.mem_memories.mpr (.inr ⟨here, id ▸ other⟩), id, rest⟩
  filled v mem := mirrors.filled v (SearchIndex.mem_saved_memoryVectors.mp mem).1
  sized v mem := mirrors.sized v (SearchIndex.mem_saved_memoryVectors.mp mem).1

namespace SearchIndex

theorem follow_same (index : SearchIndex)
    (versions : db'.memoryVersions = db.memoryVersions) : index.follow db db' = index := by
  rw [follow, versions, drop_length]
  rfl

theorem follow_append (index : SearchIndex)
    (versions : db'.memoryVersions = db.memoryVersions ++ [memory]) :
    index.follow db db' = index.saved memory := by
  rw [follow, versions, drop_left]
  rfl

/-- What two parts of a transaction do to the index, they do together. -/
theorem follow_trans (index : SearchIndex) (first : db.memoryVersions <+: db'.memoryVersions)
    (second : db'.memoryVersions <+: db''.memoryVersions) :
    (index.follow db db').follow db' db'' = index.follow db db'' := by
  obtain ⟨new, versions⟩ := first
  obtain ⟨newer, versions'⟩ := second
  simp only [follow]
  rw [← versions', ← versions, drop_left, drop_left, append_assoc, drop_left,
    foldl_append]

end SearchIndex

variable {generation : Nat} {projectId : String}

theorem Mirrors.effect (mirrors : Mirrors db index) (effect : Effect db db') :
    Mirrors db' (index.follow db db') := by
  cases effect with
  | save _ saved =>
    rw [index.follow_append saved.versions]
    exact mirrors.saved saved
  | kept memories versions =>
    rw [index.follow_same versions]
    exact mirrors.of_same memories

theorem Writes.indexed (writes : Writes t db db') (consistent : Consistent db) (exact_ : Exact db)
    (mirrors : Mirrors db index) : db.memoryVersions <+: db'.memoryVersions ∧ Exact db' ∧
      Mirrors db' (index.follow db db') := by
  induction writes with
  | refl =>
    rw [index.follow_same rfl]
    exact ⟨prefix_rfl, exact_, mirrors⟩
  | tail before write ih =>
    obtain ⟨grown, exact', mirrors'⟩ := ih
    have effect := write.effect (consistent.writes before)
    refine ⟨grown.trans effect.versions_grow, exact'.effect effect, ?_⟩
    rw [← index.follow_trans grown effect.versions_grow]
    exact mirrors'.effect effect

/-! ## Calls of the index -/

theorem Mirrors.indexMemory (mirrors : Mirrors db index) (consistent : Consistent db)
    (mem : memory ∈ db.memories) : Mirrors db (index.indexMemory memory) := by
  refine { mirrors with fts := SearchIndex.distinct_indexMemory mirrors.fts, mem_fts := ?_ }
  intro row
  refine SearchIndex.mem_indexMemory.trans ⟨?_, ?_⟩
  · rintro (⟨old, -⟩ | ⟨searchable, rfl⟩)
    · exact (mirrors.mem_fts row).mp old
    · exact ⟨memory, mem, searchable, rfl⟩
  · rintro ⟨m, here, searchable, rfl⟩
    by_cases same : m.id = memory.id
    · rw [consistent.memory_eq here mem same] at searchable ⊢
      exact .inr ⟨searchable, rfl⟩
    · exact .inl ⟨(mirrors.mem_fts _).mpr ⟨m, here, searchable, rfl⟩, same⟩

theorem Mirrors.reindexFts (mirrors : Mirrors db index) (consistent : Consistent db)
    {after : String} {limit : Nat} (ok : index.reindexFts db projectId after limit = .ok index') :
    Mirrors db index' := by
  simp only [SearchIndex.reindexFts, bind_ok, ensure_ok, pure_ok] at ok
  obtain ⟨⟨⟩, -, rfl⟩ := ok
  have known : ∀ m ∈ ((db.memories.filter fun m =>
      m.projectId = projectId && decide (after < m.id)).mergeSort
        fun a b => decide (a.id ≤ b.id)).take limit, m ∈ db.memories := by
    intro m mem
    have sorted := mem_mergeSort.mp (mem_of_mem_take mem)
    exact mem_of_mem_filter sorted
  revert known
  generalize take limit _ = rows
  intro known
  induction rows generalizing index with
  | nil => exact mirrors
  | cons m rest ih =>
    obtain ⟨here, later⟩ := forall_mem_cons.mp known
    exact ih (mirrors.indexMemory consistent here) later

theorem Mirrors.reserveEmbedding (mirrors : Mirrors db index) {fingerprint : String}
    {dimensions : Option Nat}
    (ok : index.reserveEmbedding projectId fingerprint dimensions = .ok (generation, index')) :
    Mirrors db index' := by
  simp only [SearchIndex.reserveEmbedding, bind_ok, ensure_ok] at ok
  obtain ⟨⟨⟩, -, ok⟩ := ok
  split at ok
  · cases ok
    exact mirrors
  · cases ok
    refine { mirrors with profiles := mirrors.profiles.replace, sized := ?_ }
    intro v mem
    obtain ⟨p, here, project, bound, length⟩ := mirrors.sized v mem
    by_cases same : p.projectId = projectId
    · have found : index.profile projectId = some p := same ▸ mirrors.profiles.rowOf_eq_some here
      refine ⟨_, mem_upsert_iff.mpr (.inr (.inl ⟨p, here, same, rfl⟩)), ?_, ?_, ?_⟩
      · exact same ▸ project
      · simp only [found, map_some, getD_some]
        omega
      · simp only [found, map_some, getD_some]
        omega
    · exact ⟨p, mem_upsert_of_ne here same, project, bound, length⟩

/-- The dimensions of a profile that vectors were stored for do not change. -/
theorem Mirrors.resolveDimensions (mirrors : Mirrors db index) {dimensions : Nat} {resolved : Bool}
    (ok : index.resolveDimensions projectId generation dimensions = .ok (resolved, index')) :
    Mirrors db index' := by
  simp only [SearchIndex.resolveDimensions, bind_ok, ensure_ok, pure_ok,
    Prod.mk.injEq] at ok
  obtain ⟨⟨⟩, -, -, rfl⟩ := ok
  refine { mirrors with profiles := mirrors.profiles.map fun p _ => ?_, sized := ?_ }
  · split <;> rfl
  · intro v mem
    obtain ⟨p, here, project, bound, length⟩ := mirrors.sized v mem
    refine ⟨_, mem_map_of_mem here, ?_⟩
    split
    · rename_i selected
      refine ⟨project, bound, fun same => ?_⟩
      have sized := length same
      have filled := length_pos_of_ne_nil (mirrors.filled v mem)
      simp only [Bool.and_eq_true, Bool.or_eq_true, decide_eq_true_eq] at selected
      dsimp only
      omega
    · exact ⟨project, bound, length⟩

omit [Environment] in
theorem normalize_length {vector : List UInt32} {normalized : List UInt64}
    (ok : SearchIndex.normalize vector = .ok normalized) :
    normalized ≠ [] ∧ normalized.length = vector.length := by
  simp only [SearchIndex.normalize, bind_ok, ensure_ok, pure_ok] at ok
  obtain ⟨⟨⟩, ⟨filled, -⟩, ⟨⟩, -, rfl⟩ := ok
  exact ⟨by simpa using filled, length_map _⟩

omit [Environment] [Indexing] in
theorem expected_eq_some {now : Int} {id : String} {revision : Nat} {p : EmbeddingProfile}
    (found : index.expected db now projectId id revision generation = some p) :
    p ∈ index.embeddingProfiles ∧ p.projectId = projectId ∧ p.generation = generation ∧
      ∃ m ∈ db.memories, m.id = id ∧ m.projectId = projectId ∧ m.revision = revision ∧
        m.status = .active := by
  have selected := find?_some found
  simp only [Bool.and_eq_true, decide_eq_true_eq, List.any_eq_true] at selected
  obtain ⟨⟨project, same⟩, m, mem, ⟨⟨of, id⟩, revision⟩, embeddable⟩ := selected
  simp only [Memory.embeddable, Bool.and_eq_true, decide_eq_true_eq] at embeddable
  exact ⟨mem_of_find?_eq_some found, project, same, m, mem, id, of.trans project, revision,
    embeddable.1⟩

/-- A vector is stored for the row as it is, whatever it was computed from. -/
theorem Mirrors.putEmbedding (mirrors : Mirrors db index) (consistent : Consistent db) {now : Int}
    {id : String} {revision : Nat} {vector : List UInt32} {put : Bool}
    (ok : index.putEmbedding db now projectId id revision generation vector = .ok (put, index')) :
    Mirrors db index' := by
  unfold SearchIndex.putEmbedding at ok
  split at ok
  · cases ok
    exact mirrors
  · rename_i p found
    obtain ⟨profile, project, same, m, mem, of, within, revised, active⟩ :=
      expected_eq_some found
    simp only [bind_ok, ensure_ok, pure_ok, Prod.mk.injEq] at ok
    obtain ⟨⟨⟩, length, normalized, normal, -, rfl⟩ := ok
    obtain ⟨filled, as_long⟩ := normalize_length normal
    have stored : ∀ v ∈ (upsert (fun v : VectorRow => (v.memoryId, v.generation))
        (VectorRow.mk id projectId generation revision normalized)
        (fun v => { v with revision, vector := normalized }) index.memoryVectors),
        v ∈ index.memoryVectors ∨ v = VectorRow.mk id projectId generation revision normalized := by
      intro v there
      obtain ⟨old, -⟩ | rfl | ⟨old, here, key, rfl⟩ := mem_upsert there
      · exact .inl old
      · exact .inr rfl
      · -- the row under the key is of the memory, so its Project is the same
        obtain ⟨m', here', of', within', -⟩ := mirrors.current old here
        rw [Prod.mk.injEq] at key
        have row := consistent.memory_eq here' mem (by rw [of', key.1, of])
        refine .inr ?_
        rw [← within', row, within, key.1, key.2]
    refine { mirrors with vectors := ?_, current := ?_, filled := ?_, sized := ?_ }
    · exact mirrors.vectors.upsert fun _ _ => rfl
    · intro v there
      obtain old | rfl := stored v there
      · exact mirrors.current v old
      · exact ⟨m, mem, of, within, revised, active⟩
    · intro v there
      obtain old | rfl := stored v there
      · exact mirrors.filled v old
      · exact filled
    · intro v there
      obtain old | rfl := stored v there
      · exact mirrors.sized v old
      · exact ⟨p, profile, project, same.ge, fun _ => as_long.trans length⟩

theorem Mirrors.cleanupDerived (mirrors : Mirrors db index) (now : Int)
    (page : List (String × Nat)) : Mirrors db (index.cleanupDerived db now page) := by
  refine { mirrors with vectors := ?_, current := ?_, filled := ?_, sized := ?_ }
  · exact mirrors.vectors.filter _
  · exact fun v mem => mirrors.current v (mem_of_mem_filter mem)
  · exact fun v mem => mirrors.filled v (mem_of_mem_filter mem)
  · exact fun v mem => mirrors.sized v (mem_of_mem_filter mem)

end

/-! ## Runs -/

section Runs

variable [Environment] [Indexing] {config : AgentConfig} {opened : Int}
  {condition : IndexedState → Int × IndexOperation → Prop} {s s' : IndexedState}

theorem reachable_state (run : (indexedStore config opened).Reachable condition s) :
    (store config opened).Reachable System.always s.state := by
  induction run with
  | start => exact .start
  | @step s s' label before met next ih =>
    cases next
    obtain ⟨now, operation⟩ := label
    cases operation with
    | call operation =>
      show (store config opened).Reachable _ (s.state.after config now operation)
      exact reachable_after ih trivial
    | reindexFts =>
      simp only [IndexedState.after]
      split <;> exact ih
    | _ => exact ih

structure Agrees (s : IndexedState) : Prop where
  exact_ : Exact s.state.db
  mirrors : Mirrors s.state.db s.index

theorem Mirrors.orKeep {α : Type} {db : Database} {index : SearchIndex}
    (mirrors : Mirrors db index) {result : Fallible (α × SearchIndex)}
    (kept : ∀ a changed, result = .ok (a, changed) → Mirrors db changed) :
    Mirrors db (index.orKeep result) := by
  cases result with
  | error => exact mirrors
  | ok answer => exact kept answer.1 answer.2 rfl

/-- A call of the store: its writes start where the intake left the sources. -/
theorem Agrees.call (agrees : Agrees s) (sound : Sound s.state.db) (now : Int)
    (operation : Operation) :
    s.state.db.memoryVersions <+:
        (s.after config now (.call operation)).state.db.memoryVersions ∧
      Agrees (s.after config now (.call operation)) := by
  simp only [IndexedState.after]
  obtain failed | ⟨answer, ok, done⟩ := after_cases config s.state now operation
  · rw [failed]
    dsimp only
    rw [s.index.follow_same rfl]
    exact ⟨prefix_rfl, agrees.exact_, agrees.mirrors⟩
  · have commits := perform_commits sound.consistent sound.settled sound.sourced ok
    obtain ⟨_, _, _, _, taken⟩ := operation.intake_eq s.state.db
    have versions : (operation.intake s.state.db).memoryVersions = s.state.db.memoryVersions := by
      rw [taken]
    have exact' : Exact (operation.intake s.state.db) := by
      rw [taken]
      exact ⟨agrees.exact_.first, agrees.exact_.cited⟩
    have mirrors' : Mirrors (operation.intake s.state.db) s.index := by
      rw [taken]
      exact agrees.mirrors.of_same rfl
    obtain ⟨grown, kept, mirrored⟩ := Writes.indexed commits.writes
      (sound.consistent.intake operation) exact' mirrors'
    rw [versions] at grown
    have same : s.index.follow (operation.intake s.state.db) answer.db =
        s.index.follow s.state.db answer.db := by
      rw [SearchIndex.follow, SearchIndex.follow, versions]
    rw [done]
    exact ⟨grown, kept, same ▸ mirrored⟩

theorem Agrees.after (agrees : Agrees s) (sound : Sound s.state.db) (now : Int)
    (operation : IndexOperation) :
    s.state.db.memoryVersions <+: (s.after config now operation).state.db.memoryVersions ∧
      Agrees (s.after config now operation) := by
  cases operation with
  | call operation => exact agrees.call sound now operation
  | reserveEmbedding =>
    exact ⟨prefix_rfl, agrees.exact_,
      agrees.mirrors.orKeep fun _ _ ok => agrees.mirrors.reserveEmbedding ok⟩
  | resolveDimensions =>
    exact ⟨prefix_rfl, agrees.exact_,
      agrees.mirrors.orKeep fun _ _ ok => agrees.mirrors.resolveDimensions ok⟩
  | putEmbedding =>
    exact ⟨prefix_rfl, agrees.exact_,
      agrees.mirrors.orKeep fun _ _ ok => agrees.mirrors.putEmbedding sound.consistent ok⟩
  | reindexFts projectId after limit =>
    simp only [IndexedState.after]
    split
    · rename_i index ok
      exact ⟨prefix_rfl, agrees.exact_, agrees.mirrors.reindexFts sound.consistent ok⟩
    · exact ⟨prefix_rfl, agrees⟩
  | cleanupDerived page =>
    exact ⟨prefix_rfl, agrees.exact_, agrees.mirrors.cleanupDerived now page⟩

theorem agrees_of_reachable (run : (indexedStore config opened).Reachable condition s) :
    Agrees s := by
  induction run with
  | start => exact ⟨.empty, .empty⟩
  | @step s s' label before met next agrees =>
    cases next
    exact (agrees.after (sound_of_reachable (reachable_state before)) label.1 label.2).2

theorem versions_grow_of_path (run : (indexedStore config opened).Reachable condition s)
    (path : (indexedStore config opened).Path condition s s') :
    s.state.db.memoryVersions <+: s'.state.db.memoryVersions := by
  induction path with
  | refl => exact prefix_rfl
  | tail before next ih =>
    obtain ⟨label, -, rfl⟩ := next
    have reached := run.path before
    exact ih.trans ((agrees_of_reachable reached).after
      (sound_of_reachable (reachable_state reached)) label.1 label.2).1

end Runs

end Agentix.MemoryStore
