import Agentix.MemoryStore.Applying

/-! # Completions of proposals

A consolidation or a split commits with what it has observed, and its work is done.
-/

namespace Agentix.MemoryStore

open Lib List

variable [Environment]

section

variable {t : Transaction} {start db db' : Database} {p p' : Progress} {memory : Memory}
  {lease : WorkLease} {ids : Nat → String} {now : Int}

/-! ## Observations -/

variable {changed : List Memory} {seed : Memory}

theorem observeAll_commits {rows : List Memory} (commits : Commits t start db)
    (seen : ∀ m ∈ rows, revisionOf m ∈ t.seen) :
    Commits t start (rows.foldl (Database.observed t.now) db) := by
  induction rows generalizing db with
  | nil => exact commits
  | cons m rest ih =>
    refine ih (commits.write ?_ rfl) fun m mem =>
      seen m (mem_cons_of_mem _ mem)
    exact .observe (.inl (seen m mem_cons_self))

omit [Environment] in
theorem observeAll_tables (now : Int) (rows : List Memory) (db : Database) :
    (rows.foldl (Database.observed now) db).memories = db.memories ∧
      (rows.foldl (Database.observed now) db).workItems = db.workItems := by
  induction rows generalizing db with
  | nil => exact ⟨rfl, rfl⟩
  | cons m rest ih => exact ih (db.observed now m)

/-- What is observed after the work is done changes no work. -/
theorem Completes.observeAll {rows : List Memory} (completes : Completes t lease db)
    (seen : ∀ m ∈ rows, revisionOf m ∈ t.seen) :
    Completes t lease (rows.foldl (Database.observed t.now) db) where
  commits := observeAll_commits completes.commits seen
  fenced := completes.fenced
  finished := by
    rw [(observeAll_tables t.now rows db).2]
    exact completes.finished

omit [Environment] in
theorem mem_consolidated {current : Memory} (present : lease.payload.seed = some seed)
    (loaded : db.load lease.projectId seed.id = .ok current) :
    revisionOf current ∈ consolidated db lease changed := by
  simp only [Database.load, orElseError_eq_ok] at loaded
  simp only [consolidated, present, loaded]
  exact mem_map_of_mem (mem_append_left _ (by simp))

omit [Environment] in
theorem mem_consolidated_of_changed {m : Memory} (present : lease.payload.seed = some seed)
    (mem : m ∈ changed) :
    revisionOf m ∈ consolidated db lease changed := by
  simp only [consolidated, present]
  exact mem_map_of_mem (mem_append_right _ mem)

omit [Environment] in
/-- What was seen of the seed does not depend on the work that ends. -/
theorem consolidated_congr (same : db'.memories = db.memories) :
    consolidated db' lease changed = consolidated db lease changed := by
  simp only [consolidated, same]

theorem spent_of_seen {item : WorkItem} {current : Memory} (consistent : Consistent db)
    (present : lease.payload.seed = some seed)
    (loaded : db.load lease.projectId seed.id = .ok current) (seen : revisionOf current ∈ t.seen)
    (same : item.payload = lease.payload) :
    Spent t db item := by
  intro known seeded m mem revision _
  rw [same, present, Option.some.injEq] at seeded
  subst seeded
  obtain ⟨here, -, named⟩ := mem_of_load loaded
  have id : m.id = seed.id := (Prod.mk.inj revision).1
  rw [consistent.memory_eq mem here (by rw [id, named])]
  exact seen

/-! ## Consolidations -/

/-- A proposal is applied from where its transaction began. -/
theorem stage_of_base (consistent : Consistent t.base) (settled : Settled t.base) :
    Stage t (Progress.changed { db := t.base } ++ []) (Progress.db { db := t.base }) :=
  .begin consistent settled

theorem completeConsolidation_of_ok {decisions : List ConsolidationDecision}
    (consistent : Consistent t.base) (settled : Settled t.base)
    (ok : t.base.completeConsolidation lease decisions t.now ids = .ok (changed, db'))
    (seen : t.seen = consolidated db' lease changed)
    (forged : ∀ item, Forged lease item → t.lost item) : Completes t lease db' := by
  simp only [Database.completeConsolidation, bind_ok, ensure_ok, pure_ok,
    Prod.mk.injEq] at ok
  obtain ⟨⟨⟩, -, candidates, -, ⟨⟩, -, ⟨⟩, fence, ⟨⟩, -, ⟨⟩, -, progress, decided, ⟨⟩, checked,
    observed, observe, rfl, rfl⟩ := ok
  obtain ⟨item, fenced⟩ := fenced_of_ok fence
  have stage := (applyDecisions_of_ok (stage_of_base consistent settled) decided).stage
  rw [append_nil] at stage
  have commits := stage.commits checked
  have mem : item ∈ progress.db.workItems := by
    rw [stage.items]
    exact fenced.member
  unfold Database.observeChanged at observe
  split at observe
  · rename_i seed present
    simp only [bind_ok, pure_ok] at observe
    obtain ⟨current, loaded, rfl⟩ := observe
    -- the tables of memories are those of the progress
    have sight : t.seen = consolidated progress.db lease progress.changed := by
      rw [seen]
      exact consolidated_congr (observeAll_tables _ _ _).1
    have seedSeen : revisionOf current ∈ t.seen := by
      rw [sight]
      exact mem_consolidated present loaded
    have finished := Completes.finish commits fenced mem (.consolidated decisions)
      (fun _ same => spent_of_seen commits.consistent present loaded seedSeen same) forged
    refine finished.observeAll fun m listed => ?_
    obtain rfl | listed := mem_cons.mp listed
    · exact seedSeen
    · rw [sight]
      exact mem_consolidated_of_changed present listed
  · rename_i seedless
    cases observe
    have finished := Completes.finish commits fenced mem (.consolidated decisions)
      (fun _ same => spent_of_seedless (by rw [same, seedless])) forged
    refine finished.observeAll fun m listed => ?_
    rw [seen]
    simp only [consolidated, seedless]
    exact mem_map_of_mem listed

/-! ## Parts -/

omit [Environment] in
theorem searchable_alive (searchable : memory.status.searchable) :
    memory.status ≠ .forgotten ∧ memory.status ≠ .invalidated := by
  constructor <;>
  · intro gone
    rw [gone] at searchable
    cases searchable

/-- A step of a split, which neither forgets nor revokes a memory. -/
structure Parted (t : Transaction) (before after : Progress) : Prop where
  applied : Applied t [] before after
  kept : ∀ m ∈ after.db.memories, m.status = .forgotten ∨ m.status = .invalidated →
    m ∈ before.db.memories

theorem Parted.refl (stage : Stage t (p.changed ++ []) p.db) : Parted t p p :=
  ⟨.refl stage, fun _ mem _ => mem⟩

theorem Parted.trans {p'' : Progress} (first : Parted t p p') (second : Parted t p' p'') :
    Parted t p p'' where
  applied := first.applied.trans second.applied
  kept m mem gone := first.kept m (second.kept m mem gone) gone

theorem parted_of_write (ok : p.write memory = .ok p') (stage : Stage t (p.changed ++ []) p.db)
    (grounded : Grounded t.base p.db memory)
    (alive : memory.status ≠ .forgotten ∧ memory.status ≠ .invalidated) :
    Parted t p p' ∧ memory ∈ p'.db.memoryVersions := by
  obtain ⟨applied, known⟩ := applied_of_write ok stage grounded
  refine ⟨⟨applied, fun m mem gone => ?_⟩, known⟩
  simp only [Progress.write, Progress.save, bind_ok, pure_ok] at ok
  obtain ⟨_, ⟨db, save, rfl⟩, rfl⟩ := ok
  obtain rfl | ⟨old, -⟩ := (saved_of_ok save).mem_memories.mp mem
  · obtain forgotten | revoked := gone
    · exact absurd forgotten alive.1
    · exact absurd revoked alive.2
  · exact old

/-- The origins of parts are read by nothing that is written. -/
theorem insertOrigin_write (memoryId sourceMemoryId : String) (sourceRevision : Nat) :
    Write t db (insertOrigin memoryId sourceMemoryId sourceRevision db) :=
  .frame _ _ _ _ _ _

section Parts

variable {origins : List String} {part : FactPart} {target next : Memory}
  (stage : Stage t (p.changed ++ []) p.db)
  (vouched : ∀ e ∈ part.content.evidence, Vouched t.base lease.projectId e)
include stage vouched

theorem createPart_of_ok (ok : createPart lease ids now origins part p = .ok (memory, p')) :
    Parted t p p' := by
  simp only [createPart, Progress.newMemory, bind_ok, pure_ok, Prod.mk.injEq] at ok
  obtain ⟨⟨⟩, -, written, write, rfl, rfl⟩ := ok
  obtain ⟨⟨⟨applied, extended⟩, kept⟩, -⟩ :=
    parted_of_write write stage (.first rfl rfl vouched) ⟨by simp [Database.newMemory], by simp [Database.newMemory]⟩
  exact ⟨⟨applied, extended⟩, kept⟩

variable (numbered : Numbered p lease target next)
include numbered

theorem mergePart_of_ok (ok : mergePart origins part next p = .ok (memory, p')) :
    Parted t p p' := by
  simp only [mergePart, bind_ok, pure_ok, Prod.mk.injEq] at ok
  obtain ⟨⟨⟩, -, merged, preserve, written, write, rfl, rfl⟩ := ok
  have searchable : next.status.searchable := numbered.status ▸ numbered.searchable
  have alive := searchable_alive searchable
  have evidence : ∀ e ∈ merged.evidence,
      e ∈ target.content.evidence ∨ Vouched t.base next.projectId e := by
    intro e mem
    obtain new | old := mem_preserved preserve e mem
    · rw [numbered.project, numbered.projectId]
      exact .inr (vouched e new)
    · rw [numbered.content] at old
      exact .inl old
  exact (parted_of_write write stage (.next (stage.known numbered.member)
    (numbered.revises rfl rfl rfl alive.1) evidence) alive).1

theorem supersedePart_of_ok
    (ok : supersedePart lease ids now origins part next p = .ok (memory, p')) :
    Parted t p p' := by
  simp only [supersedePart, Progress.newMemory, bind_ok, pure_ok, Prod.mk.injEq] at ok
  obtain ⟨⟨⟩, -, middle, retire, written, write, rfl, rfl⟩ := ok
  obtain ⟨⟨⟨retired, extended⟩, kept⟩, -⟩ := parted_of_write retire stage
    (.same (stage.known numbered.member) (numbered.revises rfl rfl rfl (by simp)) numbered.content)
    ⟨by simp, by simp⟩
  have replaced := (parted_of_write write retired (.first rfl rfl vouched)
    ⟨by simp [Database.newMemory], by simp [Database.newMemory]⟩).1
  exact Parted.trans ⟨⟨retired, extended⟩, kept⟩ replaced

theorem conflictPart_of_ok
    (ok : conflictPart lease ids now origins part next p = .ok (memory, p')) :
    Parted t p p' := by
  simp only [conflictPart, Progress.newMemory, bind_ok, pure_ok, Prod.mk.injEq] at ok
  obtain ⟨middle, dispute, written, write, rfl, rfl⟩ := ok
  obtain ⟨⟨⟨disputed, extended⟩, kept⟩, -⟩ := parted_of_write dispute stage
    (.same (stage.known numbered.member) (numbered.revises rfl rfl rfl (by simp)) numbered.content)
    ⟨by simp, by simp⟩
  have claimed := (parted_of_write write disputed (.first rfl rfl vouched)
    ⟨by simp, by simp⟩).1
  exact Parted.trans ⟨⟨disputed, extended⟩, kept⟩ claimed

end Parts

theorem applyPart_of_ok {origins : List String} {part : FactPart}
    (stage : Stage t (p.changed ++ []) p.db)
    (vouched : ∀ e ∈ part.content.evidence, Vouched t.base lease.projectId e)
    (ok : applyPart lease ids now origins part p = .ok (memory, p')) : Parted t p p' := by
  simp only [applyPart, bind_ok] at ok
  obtain ⟨⟨⟩, -, ok⟩ := ok
  split at ok
  · exact createPart_of_ok stage vouched ok
  · simp only [bind_ok, partTarget, orElseError_eq_ok, ensure_ok, pure_ok] at ok
    obtain ⟨⟨⟩, -, target, ⟨id, -, found, loaded, ⟨⟩, ⟨-, searchable⟩, ⟨⟩, -, ⟨⟩, -, rfl⟩, ok⟩ := ok
    obtain ⟨mem, project, named⟩ := mem_of_load loaded
    have numbered : Numbered p lease found { found with
        revision := found.revision + 1, updatedAt := now, reason := part.reason } :=
      ⟨mem, by rw [named]; exact loaded, searchable, rfl, rfl, rfl, rfl, rfl, project⟩
    unfold reconcilePart at ok
    split at ok
    · exact mergePart_of_ok stage vouched numbered ok
    · exact supersedePart_of_ok stage vouched numbered ok
    · exact conflictPart_of_ok stage vouched numbered ok
    · cases ok

theorem applyParts_of_ok {origins : List String} {seed : Memory} {keys : List FactKey}
    {parts : List FactPart} (stage : Stage t (p.changed ++ []) p.db)
    (ok : applyParts lease ids now origins seed keys parts p = .ok p') : Parted t p p' := by
  induction parts generalizing p keys with
  | nil =>
    cases ok
    exact .refl stage
  | cons part rest ih =>
    simp only [applyParts, bind_ok] at ok
    obtain ⟨⟨⟩, -, fact, -, ⟨⟩, -, ⟨⟩, checked, ⟨memory, middle⟩, one, later⟩ := ok
    have parted := applyPart_of_ok stage (stage.writes.vouched checked) one
    have noted := parted.applied.stage.write
      (insertOrigin_write memory.id seed.id seed.revision) rfl rfl
    obtain ⟨⟨applied, extended⟩, kept⟩ := ih noted later
    exact parted.trans ⟨⟨applied, (insertOrigin_write (t := t) memory.id seed.id
      seed.revision).extends.trans extended⟩, kept⟩

/-! ## Retirement -/

theorem retire_of_ok {reason : String} {prior : Memory} (stage : Stage t (p.changed ++ []) p.db)
    (known : prior ∈ p.db.memoryVersions)
    (alive : prior.status ≠ .forgotten ∧ prior.status ≠ .invalidated)
    (ok : retire now reason prior p = .ok p') : Parted t p p' := by
  simp only [retire, bind_ok] at ok
  obtain ⟨⟨⟩, -, ⟨⟩, -, write⟩ := ok
  -- the origins of all parts are noted first
  have noted : ∀ (parts : List Memory) (db : Database), Stage t (p.changed ++ []) db →
      Stage t (p.changed ++ []) (parts.foldl (fun db part =>
        insertOrigin part.id prior.id prior.revision db) db) ∧
      Extends db (parts.foldl (fun db part => insertOrigin part.id prior.id prior.revision db) db) ∧
      (parts.foldl (fun db part => insertOrigin part.id prior.id prior.revision db) db).memories =
        db.memories := by
    intro parts
    induction parts with
    | nil => exact fun db stage => ⟨stage, .refl db, rfl⟩
    | cons part rest ih =>
      intro db stage
      have origin : Write t db _ := insertOrigin_write part.id prior.id prior.revision
      obtain ⟨stage, extended, same⟩ := ih _ (stage.write origin rfl rfl)
      exact ⟨stage, origin.extends.trans extended, same⟩
  obtain ⟨noted, extended, same⟩ :=
    noted (p.changed.filter fun m => m.content.fact.isSome) p.db stage
  obtain ⟨⟨⟨applied, more⟩, kept⟩, -⟩ := parted_of_write write noted
    (.same (extended.versions known) ⟨rfl, rfl, rfl, alive.1, fun revoked => absurd revoked alive.2,
      fun gone => by cases gone⟩ rfl) ⟨by simp, by simp⟩
  refine ⟨⟨applied, extended.trans more⟩, fun m mem gone => ?_⟩
  have before := kept m mem gone
  change m ∈ Database.memories _ at before
  rw [same] at before
  exact before

theorem retireRelated_of_ok {base : Database} {assessment : RelatedDecision}
    (consistent : Consistent base) (begun : Parted t { db := base } p)
    (assessed : validateSnapshot base lease.projectId assessment = .ok ())
    (ok : retireRelated lease now p assessment = .ok p') : Parted t { db := base } p' := by
  unfold retireRelated at ok
  split at ok
  · simp only [bind_ok] at ok
    obtain ⟨prior, loaded, retire⟩ := ok
    simp only [validateSnapshot, bind_ok, ensure_ok] at assessed
    obtain ⟨before, found, -, searchable⟩ := assessed
    obtain ⟨here, -, named⟩ := mem_of_load loaded
    obtain ⟨there, -, named'⟩ := mem_of_load found
    have stage := begun.applied.stage
    refine begun.trans (retire_of_ok stage (stage.known here) ?_ retire)
    -- a memory that is gone now would have been gone when it was assessed
    have gone : ¬ (prior.status = .forgotten ∨ prior.status = .invalidated) := by
      intro gone
      have same := consistent.memory_eq (begun.kept prior here gone) there (by rw [named, named'])
      have alive := searchable_alive searchable
      rw [← same] at alive
      obtain forgotten | revoked := gone
      · exact alive.1 forgotten
      · exact alive.2 revoked
    exact ⟨fun forgotten => gone (.inl forgotten), fun revoked => gone (.inr revoked)⟩
  · cases ok
    exact begun

/-! ## Splits -/

theorem completeFactCompaction_of_ok {proposal : FactCompaction} {changed : List Memory}
    (consistent : Consistent t.base) (settled : Settled t.base)
    (ok : t.base.completeFactCompaction lease proposal t.now ids = .ok (changed, db'))
    (seen : t.seen = consolidated db' lease changed)
    (forged : ∀ item, Forged lease item → t.lost item) : Completes t lease db' := by
  simp only [Database.completeFactCompaction, bind_ok, ensure_ok, orElseError_eq_ok,
    pure_ok, Prod.mk.injEq] at ok
  obtain ⟨⟨⟩, -, seed, present, ⟨⟩, -, ⟨⟩, -, ⟨⟩, fence, current, valid, parts, applied, retired,
    retire, progress, related, ⟨⟩, checked, seedNow, loaded, rfl, rfl⟩ := ok
  obtain ⟨item, fenced⟩ := fenced_of_ok fence
  simp only [validateSplit, bind_ok, ensure_ok, pure_ok] at valid
  obtain ⟨seedThen, found, ⟨⟩, fresh, ⟨⟩, -, ⟨⟩, assessed, rfl⟩ := valid
  obtain ⟨here, -, -⟩ := mem_of_load found
  have searchable : seedThen.status.searchable := by
    simp only [seedIsCurrent, Memory.compactable, Bool.and_eq_true] at fresh
    exact fresh.2.1.2
  have split := applyParts_of_ok (stage_of_base consistent settled) applied
  have retiredSeed : Parted t { db := t.base } retired := by
    unfold retireSeed at retire
    split at retire
    · cases retire
      exact split
    · refine split.trans (retire_of_ok split.applied.stage ?_ (searchable_alive searchable) retire)
      exact split.applied.extended.versions (consistent.written _ here)
  have all : Parted t { db := t.base } progress := by
    refine foldlM_induction (motive := Parted t { db := t.base })
      (fun assessment mem before after ok begun => ?_) related retiredSeed
    have checked := forM_eq_ok assessed mem
    simp only [validateAssessment, bind_ok, ensure_ok] at checked
    obtain ⟨⟨⟩, -, ⟨⟩, snapshot, -⟩ := checked
    exact retireRelated_of_ok consistent begun snapshot ok
  have stage := all.applied.stage
  rw [append_nil] at stage
  have commits := stage.commits checked
  obtain ⟨sameMemories, sameItems⟩ := observeAll_tables t.now progress.changed progress.db
  have sight : t.seen = consolidated progress.db lease progress.changed := by
    rw [seen]
    exact consolidated_congr sameMemories
  have loadedNow : progress.db.load lease.projectId seed.id = .ok seedNow := by
    simpa only [Database.load, sameMemories] using loaded
  have seedSeen : revisionOf seedNow ∈ t.seen := by
    rw [sight]
    exact mem_consolidated present loadedNow
  have observed : Commits t t.base
      (progress.changed.foldl (Database.observed t.now) progress.db) := by
    refine observeAll_commits commits fun m mem => ?_
    rw [sight]
    exact mem_consolidated_of_changed present mem
  have final : Commits t t.base
      ((progress.changed.foldl (Database.observed t.now) progress.db).observed t.now seedNow) :=
    observed.write (.observe (.inl seedSeen)) rfl
  refine .finish final fenced ?_ _ (fun _ same => ?_) forged
  · show item ∈ Database.workItems (progress.changed.foldl (Database.observed t.now) progress.db)
    rw [sameItems, stage.items]
    exact fenced.member
  · exact spent_of_seen final.consistent present loaded seedSeen same

end

end Agentix.MemoryStore
