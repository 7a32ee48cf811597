import Agentix.MemoryStore.Performing

/-! # Histories

What follows a version that was invalidated or forgotten, and where the evidence of a version comes
from.
-/

namespace Agentix.MemoryStore

open Lib List

variable [Environment]

structure Histories (db : Database) : Prop where
  revoked : ∀ v ∈ db.memoryVersions, ∀ w ∈ db.memoryVersions, w.id = v.id →
    v.revision ≤ w.revision → v.status = .invalidated →
    w.status = .invalidated ∨ w.status = .forgotten
  last : ∀ v ∈ db.memoryVersions, v.status = .forgotten → v ∈ db.memories
  suppressed : ∀ v ∈ db.memoryVersions, v.status = .forgotten →
    ∀ u ∈ db.memoryVersions, u.id = v.id → Suppressed db v.projectId u.content

theorem Histories.empty : Histories {} := by
  constructor <;> simp

section

variable {t : Transaction} {base db db' : Database} {memory : Memory}

theorem Grounded.prior (grounded : Grounded base db memory) (consistent : Consistent db)
    (saved : Saved db db' memory) :
    (memory.status.searchable ∧ ∀ v ∈ db.memoryVersions, v.id ≠ memory.id) ∨
      ∃ prior ∈ db.memories, Revises db prior memory := by
  cases grounded with
  | first revision searchable =>
    refine .inl ⟨searchable, fun v known same => ?_⟩
    obtain ⟨m, mem, follows⟩ := consistent.current v known
    exact consistent.first_new (.refl db) saved revision m mem (by rw [follows.id, same])
  | next known revises =>
    exact .inr ⟨_, consistent.prior_current saved known revises.id revises.revision, revises⟩

theorem Consistent.revision_le (consistent : Consistent db) {v m : Memory}
    (known : v ∈ db.memoryVersions) (mem : m ∈ db.memories) (same : v.id = m.id) :
    v.revision ≤ m.revision := by
  obtain ⟨current, here, follows⟩ := consistent.current v known
  rw [← consistent.memory_eq here mem (by rw [follows.id, same])]
  exact follows.revision

theorem Histories.extends (histories : Histories db) (extended : Extends db db')
    (versions : db'.memoryVersions = db.memoryVersions) (memories : db'.memories = db.memories) :
    Histories db' where
  revoked := by
    rw [versions]
    exact histories.revoked
  last := by
    rw [versions, memories]
    exact histories.last
  suppressed := by
    rw [versions]
    intro v known forgotten u earlier same
    exact extended.suppressed (histories.suppressed v known forgotten u earlier same)

theorem Histories.save (histories : Histories db) (consistent : Consistent db)
    (grounded : Grounded base db memory) (saved : Saved db db' memory)
    (extended : Extends db db') : Histories db' := by
  have place := grounded.prior consistent saved
  constructor
  · intro v known w later same order revoked
    obtain oldV | rfl := saved.mem_versions.mp known
    · obtain oldW | rfl := saved.mem_versions.mp later
      · exact histories.revoked v oldV w oldW same order revoked
      · -- the version before the saved one was invalidated or forgotten
        obtain ⟨-, new⟩ | ⟨prior, mem, revises⟩ := place
        · exact absurd same.symm (new v oldV)
        · have before := histories.revoked v oldV prior (consistent.written prior mem)
            (by rw [← same, revises.id])
            (consistent.revision_le oldV mem (by rw [← same, revises.id])) revoked
          obtain invalidated | forgotten := before
          · exact revises.revoked invalidated
          · exact absurd forgotten revises.alive
    · obtain oldW | rfl := saved.mem_versions.mp later
      · -- no version of the memory is later than the saved one
        obtain ⟨-, new⟩ | ⟨prior, mem, revises⟩ := place
        · exact absurd same (new w oldW)
        · have bound := consistent.revision_le oldW mem (by rw [same, revises.id])
          have next := revises.revision
          omega
      · exact .inl revoked
  · intro v known forgotten
    obtain old | rfl := saved.mem_versions.mp known
    · refine saved.mem_memories.mpr (.inr ⟨histories.last v old forgotten, fun same => ?_⟩)
      obtain ⟨-, new⟩ | ⟨prior, mem, revises⟩ := place
      · exact new v old same
      · have current := histories.last v old forgotten
        rw [consistent.memory_eq current mem (by rw [same, revises.id])] at forgotten
        exact revises.alive forgotten
    · exact saved.mem_memories.mpr (.inl rfl)
  · intro v known forgotten u earlier same
    obtain old | rfl := saved.mem_versions.mp known
    · obtain oldU | rfl := saved.mem_versions.mp earlier
      · exact extended.suppressed (histories.suppressed v old forgotten u oldU same)
      · obtain ⟨-, new⟩ | ⟨prior, mem, revises⟩ := place
        · exact absurd same.symm (new v old)
        · have current := histories.last v old forgotten
          rw [consistent.memory_eq current mem (by rw [← same, revises.id])] at forgotten
          exact absurd forgotten revises.alive
    · obtain ⟨searchable, -⟩ | ⟨prior, mem, revises⟩ := place
      · rw [forgotten] at searchable
        cases searchable
      · obtain ⟨content, suppressed⟩ := revises.forgets forgotten
        obtain oldU | rfl := saved.mem_versions.mp earlier
        · exact extended.suppressed (suppressed u oldU same)
        · rw [content]
          exact extended.suppressed
            (suppressed prior (consistent.written prior mem) revises.id.symm)

theorem Histories.write (histories : Histories db) (consistent : Consistent db)
    (write : Write t db db') : Histories db' := by
  have extended := write.extends
  cases write with
  | save grounded ok => exact histories.save consistent grounded (saved_of_ok ok) extended
  | suppress ok =>
    obtain ⟨_, rfl, -⟩ := suppressHistory_of_ok ok
    exact histories.extends extended rfl rfl
  | observe => exact histories.extends extended rfl rfl
  | schedule => exact histories.extends extended rfl rfl
  | add => exact histories.extends extended rfl rfl
  | change => exact histories.extends extended rfl rfl
  | frame => exact histories.extends extended rfl rfl

theorem Histories.writes (histories : Histories db) (consistent : Consistent db)
    (writes : Writes t db db') : Histories db' := by
  induction writes with
  | refl => exact histories
  | tail before write ih =>
    exact ih.write (consistent.writes before) write

end

/-! ## Growth -/

/-- A store later: no source, version or suppression goes away. -/
structure Grown (db db' : Database) : Prop where
  sources : db.sources <+: db'.sources
  versions : db.memoryVersions ⊆ db'.memoryVersions
  suppressions : db.suppressions ⊆ db'.suppressions

section

variable {db db' db'' : Database} {projectId : String} {e : Evidence}

omit [Environment] in
theorem Grown.refl (db : Database) : Grown db db :=
  ⟨prefix_rfl, List.Subset.refl _, List.Subset.refl _⟩

omit [Environment] in
theorem Grown.trans (first : Grown db db') (second : Grown db' db'') : Grown db db'' where
  sources := first.sources.trans second.sources
  versions := List.Subset.trans first.versions second.versions
  suppressions := List.Subset.trans first.suppressions second.suppressions

omit [Environment] in
theorem Extends.grown (extended : Extends db db') : Grown db db' where
  sources := extended.sources ▸ prefix_rfl
  versions := extended.versions
  suppressions := extended.suppressions

omit [Environment] in
theorem grown_intake (db : Database) (operation : Operation) : Grown db (operation.intake db) := by
  cases operation with
  | ingest source =>
    simp only [Operation.intake]
    split
    · exact .refl db
    · unfold Database.bindReceipts
      split <;> exact ⟨prefix_append _ _, List.Subset.refl _, List.Subset.refl _⟩
  | bindCancelledSource source =>
    simp only [Operation.intake, Database.bindCancelledSource]
    split <;> exact ⟨prefix_rfl, List.Subset.refl _, List.Subset.refl _⟩
  | invalidateJob => exact ⟨prefix_rfl, List.Subset.refl _, List.Subset.refl _⟩
  | _ => exact .refl db

omit [Environment] in
theorem Grown.quoted (grown : Grown db db') {quotation : Source × SourceMessage}
    (ok : db.quoted projectId e = .ok quotation) : db'.quoted projectId e = .ok quotation := by
  simp only [Database.quoted, bind_ok, orElseError_eq_ok] at ok ⊢
  obtain ⟨source, found, rest⟩ := ok
  obtain ⟨more, same⟩ := grown.sources
  refine ⟨source, ?_, rest⟩
  rw [← same, find?_append, found, Option.some_or]

theorem Grown.suppressed (grown : Grown db db') {content : MemoryInput}
    (suppressed : Suppressed db projectId content) : Suppressed db' projectId content := by
  intro e mem
  obtain ⟨quotation, quoted, s, here, same⟩ := suppressed e mem
  exact ⟨quotation, grown.quoted quoted, s, grown.suppressions here, same⟩

theorem Histories.intake (histories : Histories db) (operation : Operation) :
    Histories (operation.intake db) := by
  have grown := grown_intake db operation
  obtain ⟨_, _, _, _, taken⟩ := operation.intake_eq db
  refine ⟨?_, ?_, fun v known forgotten u earlier same => ?_⟩
  · rw [taken]
    exact histories.revoked
  · rw [taken]
    exact histories.last
  · rw [taken] at known earlier
    exact grown.suppressed (histories.suppressed v known forgotten u earlier same)

/-! ## Evidence of new versions -/

/-- Evidence that is quoted in one state and was not forgotten in another one before. -/
def Allowed (before db : Database) (projectId : String) (e : Evidence) : Prop :=
  ∃ quotation, db.quoted projectId e = .ok quotation ∧
    ∀ s ∈ before.suppressions, s.projectId = projectId →
      s.evidenceKey ≠ Environment.digest (Database.evidenceIdentity quotation)

def Acquired (before db : Database) (v : Memory) : Prop :=
  ∀ e ∈ v.content.evidence,
    (∃ prior ∈ db.memoryVersions, prior.id = v.id ∧ v.revision = prior.revision + 1 ∧
      e ∈ prior.content.evidence) ∨ Allowed before db v.projectId e

theorem Acquired.grown {before earlier : Database} {v : Memory} (acquired : Acquired before db v)
    (older : Grown earlier before) (grown : Grown db db') : Acquired earlier db' v := by
  intro e cited
  obtain ⟨prior, known, rest⟩ | ⟨quotation, quoted, free⟩ := acquired e cited
  · exact .inl ⟨prior, grown.versions known, rest⟩
  · exact .inr ⟨quotation, grown.quoted quoted, fun s here => free s (older.suppressions here)⟩

theorem Write.acquired {t : Transaction} (write : Write t db db') (grown : Grown t.base db) {v : Memory}
    (known : v ∈ db'.memoryVersions) : v ∈ db.memoryVersions ∨ Acquired t.base db' v := by
  have extended := write.extends
  cases write with
  | save grounded ok =>
    obtain old | rfl := (saved_of_ok ok).mem_versions.mp known
    · exact .inl old
    · refine .inr fun e cited => ?_
      have allowed : Vouched t.base v.projectId e → Allowed t.base db' v.projectId e := by
        rintro ⟨quotation, quoted, free⟩
        exact ⟨quotation, (grown.trans extended.grown).quoted quoted, free⟩
      cases grounded with
      | first _ _ vouched => exact .inr (allowed (vouched e cited))
      | next earlier revises evidence =>
        obtain kept | vouched := evidence e cited
        · exact .inl ⟨_, extended.versions earlier, revises.id.symm, revises.revision, kept⟩
        · exact .inr (allowed vouched)
  | suppress ok =>
    obtain ⟨_, rfl, -⟩ := suppressHistory_of_ok ok
    exact .inl known
  | observe => exact .inl known
  | schedule => exact .inl known
  | add => exact .inl known
  | change => exact .inl known
  | frame => exact .inl known

theorem Writes.acquired {t : Transaction} (writes : Writes t t.base db) {v : Memory}
    (known : v ∈ db.memoryVersions) : v ∈ t.base.memoryVersions ∨ Acquired t.base db v := by
  induction writes with
  | refl => exact .inl known
  | tail before write ih =>
    have grown := (Writes.extends before).grown
    obtain old | new := write.acquired grown known
    · obtain older | acquired := ih old
      · exact .inl older
      · exact .inr (acquired.grown (.refl _) write.extends.grown)
    · exact .inr new

end

/-! ## Runs -/

section Runs

variable {config : AgentConfig} {opened : Int} {condition : State → Int × Operation → Prop}
  {s s' : State}

/-- What a call leaves of the histories: no source, version or suppression goes away, and the
evidence of a new version is that of the version before it or was not forgotten before the call. -/
theorem grown_after (config : AgentConfig) (now : Int) (operation : Operation)
    (sound : Sound s.db) :
    Grown s.db (s.after config now operation).db ∧
      ∀ v ∈ (s.after config now operation).db.memoryVersions, v ∈ s.db.memoryVersions ∨
        Acquired s.db (s.after config now operation).db v := by
  obtain failed | ⟨answer, ok, done⟩ := after_cases config s now operation
  · rw [failed]
    exact ⟨.refl _, fun v known => .inl known⟩
  · have commits := perform_commits sound.consistent sound.settled sound.sourced ok
    have taken := grown_intake s.db operation
    have written := commits.writes.extends.grown
    have versions : (operation.intake s.db).memoryVersions = s.db.memoryVersions := by
      obtain ⟨_, _, _, _, taken⟩ := operation.intake_eq s.db
      rw [taken]
    rw [done]
    refine ⟨taken.trans written, fun v known => ?_⟩
    obtain old | acquired := Writes.acquired commits.writes known
    · exact .inl (versions ▸ old)
    · exact .inr (acquired.grown taken (.refl _))

theorem histories_of_reachable (run : (store config opened).Reachable condition s) :
    Histories s.db := by
  induction run with
  | start => exact .empty
  | @step s s' label before met next histories =>
    cases next
    obtain failed | ⟨answer, ok, done⟩ := after_cases config s label.1 label.2
    · rw [failed]
      exact histories
    · have sound := sound_of_reachable before
      have commits := perform_commits sound.consistent sound.settled sound.sourced ok
      rw [done]
      exact (histories.intake label.2).writes (sound.consistent.intake label.2) commits.writes

theorem grown_of_path (run : (store config opened).Reachable condition s)
    (path : (store config opened).Path condition s s') :
    Grown s.db s'.db ∧
      ∀ v ∈ s'.db.memoryVersions, v ∈ s.db.memoryVersions ∨ Acquired s.db s'.db v := by
  induction path with
  | refl => exact ⟨.refl _, fun v known => .inl known⟩
  | tail before next ih =>
    obtain ⟨label, -, rfl⟩ := next
    obtain ⟨earlier, origin⟩ := ih
    obtain ⟨grown, new⟩ := grown_after config label.1 label.2
      (sound_of_reachable (run.path before))
    refine ⟨earlier.trans grown, fun v known => ?_⟩
    obtain old | acquired := new v known
    · obtain older | acquired := origin v old
      · exact .inl older
      · exact .inr (acquired.grown (.refl _) grown)
    · exact .inr (acquired.grown earlier (.refl _))

end Runs

end Agentix.MemoryStore
