import Agentix.MemoryStore.Working

/-! # Revocation

What the revocation of a Job leaves: no memory is served that cites a receipt of the Job, and no
work is done for one.
-/

namespace Agentix.MemoryStore

open Lib List

variable [Environment]

/-- Nothing that cites a receipt of the Job is served or worked on. -/
structure Cleared (projectId jobId : String) (db : Database) : Prop where
  memories : ∀ m ∈ db.memories, m.status.searchable → ∀ e ∈ m.content.evidence,
    db.boundTo projectId jobId e.receiptId = false
  items : ∀ item ∈ db.workItems, item.revocable → db.boundTo projectId jobId item.receiptId = false

section

variable {t : Transaction} {start db db' : Database} {projectId jobId : String} {cancelledAt : Int}

variable {c : CancelledJob}

omit [Environment] in
theorem Extends.boundTo (grown : Extends db db') (receiptId : String) :
    db'.boundTo projectId jobId receiptId = db.boundTo projectId jobId receiptId := by
  unfold Database.boundTo
  rw [grown.sourceJobs]

/-! ## Writes -/

omit [Environment] in
/-- No change puts an item back among those that a revocation cancels. -/
theorem Change.revocable {item item' : WorkItem} (change : Change t item item')
    (after : item'.revocable) : item.revocable := by
  have of_active : item.active → item.revocable := by
    intro active
    simp [WorkItem.revocable, active]
  cases change with
  | revoke => cases after
  | supersede => cases after
  | expire running => exact of_active (by simp [WorkItem.active, running])
  | grant _ active => exact of_active active
  | finish => cases after
  | fail running => exact of_active (by simp [WorkItem.active, running])
  | retry failed => simp [WorkItem.revocable, failed]

omit [Environment] in
theorem not_valid_of_bound (cancelled : c ∈ db.cancelledJobs) {receiptId : String}
    (bound : db.boundTo c.projectId c.jobId receiptId) :
    db.sourceValid receiptId = false := by
  simp only [Database.boundTo, any_eq_true, Bool.and_eq_true, decide_eq_true_eq] at bound
  obtain ⟨s, mem, ⟨same, project⟩, job⟩ := bound
  simp only [Database.sourceValid, Bool.not_eq_false', any_eq_true, Bool.and_eq_true,
    decide_eq_true_eq]
  exact ⟨s, mem, same, c, cancelled, project.symm, job.symm⟩

omit [Environment] in
theorem Licensed.unbound (cancelled : c ∈ db.cancelledJobs)
    (cleared : Cleared c.projectId c.jobId db) {receiptId : String}
    (licensed : Licensed db receiptId) : db.boundTo c.projectId c.jobId receiptId = false := by
  cases licensed with
  | valid valid =>
    by_contra bound
    rw [Bool.not_eq_false] at bound
    rw [not_valid_of_bound cancelled bound] at valid
    cases valid
  | worked mem active same =>
    rw [← same]
    refine cleared.items _ mem ?_
    simp [WorkItem.revocable, active]
  | cited mem searchable cited same =>
    rw [← same]
    exact cleared.memories _ mem searchable _ cited

theorem Cleared.write (cancelled : c ∈ db.cancelledJobs) (cleared : Cleared c.projectId c.jobId db)
    (write : Write t db db') :
    Cleared c.projectId c.jobId db' := by
  have bound : ∀ receiptId, db'.boundTo c.projectId c.jobId receiptId =
      db.boundTo c.projectId c.jobId receiptId := write.extends.boundTo
  -- A work item is added with a licence, which a cancelled Job does not give.
  have added : ∀ item : WorkItem, Licensed db item.receiptId →
      ∀ other ∈ db.workItems ++ [item], other.revocable →
        db.boundTo c.projectId c.jobId other.receiptId = false := by
    intro item licensed other mem revocable
    obtain old | new := mem_append.mp mem
    · exact cleared.items other old revocable
    · rw [mem_singleton.mp new]
      exact licensed.unbound cancelled cleared
  constructor
  · intro m mem searchable e quoted
    rw [bound]
    cases write with
    -- The new evidence was checked against the cancelled Jobs before it was written.
    | save grounded ok =>
      obtain rfl | ⟨old, -⟩ := (saved_of_ok ok).mem_memories.mp mem
      · have valid := (saved_of_ok ok).valid searchable e quoted
        by_contra bound
        rw [Bool.not_eq_false] at bound
        rw [not_valid_of_bound cancelled bound] at valid
        cases valid
      · exact cleared.memories m old searchable e quoted
    | suppress ok =>
      obtain ⟨_, rfl, -⟩ := suppressHistory_of_ok ok
      exact cleared.memories m mem searchable e quoted
    | observe => exact cleared.memories m mem searchable e quoted
    | schedule => exact cleared.memories m mem searchable e quoted
    | add => exact cleared.memories m mem searchable e quoted
    | change => exact cleared.memories m mem searchable e quoted
    | frame => exact cleared.memories m mem searchable e quoted
  · intro item mem revocable
    rw [bound]
    cases write with
    | save _ ok =>
      rw [(saved_of_ok ok).tables] at mem
      exact cleared.items item mem revocable
    | suppress ok =>
      obtain ⟨_, rfl, -⟩ := suppressHistory_of_ok ok
      exact cleared.items item mem revocable
    | observe => exact cleared.items item mem revocable
    | schedule here compactable first =>
      refine added _ ?_ item mem revocable
      refine .cited here ?_ (mem_of_mem_head? first) rfl
      simp only [Memory.compactable, Bool.and_eq_true] at compactable
      exact compactable.1.2
    | add _ licensed => exact added _ licensed item mem revocable
    | change changes =>
      obtain ⟨old, here, rfl⟩ := mem_map.mp mem
      split
      · rename_i selected
        have change := changes old here selected
        rw [if_pos selected] at revocable
        rw [change.about.2.2.1]
        exact cleared.items old here (change.revocable revocable)
      · rename_i selected
        rw [if_neg selected] at revocable
        exact cleared.items old here revocable
    | frame => exact cleared.items item mem revocable

theorem Cleared.writes (cancelled : c ∈ db.cancelledJobs) (cleared : Cleared c.projectId c.jobId db)
    (writes : Writes t db db') :
    Cleared c.projectId c.jobId db' := by
  induction writes with
  | refl => exact cleared
  | tail before write ih =>
    refine ih.write ?_ write
    rw [(Writes.extends before).cancelledJobs]
    exact cancelled

/-! ## Invalidation -/

/-- What is left of the memories and the work while some memories are invalidated. -/
structure Invalidated (ids : List String) (db db' : Database) : Prop where
  memories : ∀ m ∈ db'.memories, m.status.searchable → m ∈ db.memories ∧ m.id ∉ ids
  items : ∀ item ∈ db'.workItems, item.revocable → item ∈ db.workItems
  heads : db'.sourceHeads = db.sourceHeads

omit [Environment] in
theorem Invalidated.trans {first second : List String} {middle : Database}
    (before : Invalidated first db middle) (after : Invalidated second middle db') :
    Invalidated (first ++ second) db db' where
  memories m mem searchable := by
    obtain ⟨here, notSecond⟩ := after.memories m mem searchable
    obtain ⟨there, notFirst⟩ := before.memories m here searchable
    refine ⟨there, fun mem => ?_⟩
    obtain one | two := mem_append.mp mem
    · exact notFirst one
    · exact notSecond two
  items item mem revocable :=
    before.items item (after.items item mem revocable) revocable
  heads := by rw [after.heads, before.heads]

theorem invalidateMemory_of_ok {id : String} (commits : Commits t start db)
    (alive : ∀ m ∈ db.memories, m.id = id → m.status ≠ .forgotten)
    (ok : Database.invalidateMemory projectId jobId cancelledAt db id = .ok db') :
    Commits t start db' ∧ Invalidated [id] db db' ∧
      ∀ m ∈ db'.memories, m.status = .forgotten → m ∈ db.memories := by
  simp only [Database.invalidateMemory, bind_ok, pure_ok] at ok
  obtain ⟨prior, loaded, saved, save, rfl⟩ := ok
  obtain ⟨mem, -, rfl⟩ := mem_of_load loaded
  have tables := saved_of_ok save
  have revoked : Commits t start saved := by
    refine commits.save ?_ save rfl
    refine .same (commits.known mem) ?_ rfl
    exact ⟨rfl, rfl, rfl, alive prior mem rfl, fun _ => .inl rfl, fun gone => by cases gone⟩
  refine ⟨revoked.change (fun item _ selected => ?_) fun item here selected => ?_, ⟨?_, ?_, ?_⟩, ?_⟩
  · simp only [Bool.and_eq_true] at selected
    exact .revoke selected.2
  · -- the work was for the seed that is invalidated now, which cannot be compacted
    refine .inr (.inr (.inr fun seed seeded m there revision compactable => ?_))
    simp only [Bool.and_eq_true, decide_eq_true_eq, mem_map, mem_filter] at selected
    obtain ⟨⟨row, ⟨listed, of⟩, work⟩, -⟩ := selected
    obtain ⟨known, present, named⟩ := revoked.consistent.seeded row listed item here work
    rw [seeded, Option.some.injEq] at present
    subst present
    have same : m.id = prior.id := by
      rw [← of, ← named]
      exact (Prod.mk.injEq .. ▸ revision).1
    obtain rfl | ⟨-, other⟩ := tables.mem_memories.mp there
    · simp [Memory.compactable, Status.searchable] at compactable
    · exact absurd same other
  · intro m there searchable
    obtain rfl | ⟨old, other⟩ := tables.mem_memories.mp there
    · cases searchable
    · exact ⟨old, fun listed => other (mem_singleton.mp listed)⟩
  · intro item there revocable
    obtain ⟨old, here, rfl⟩ := mem_map.mp there
    rw [tables.tables] at here
    split at revocable
    · cases revocable
    · rename_i unselected
      rw [if_neg unselected]
      exact here
  · show saved.sourceHeads = db.sourceHeads
    rw [tables.tables]
  · intro m there forgotten
    obtain rfl | ⟨old, -⟩ := tables.mem_memories.mp there
    · cases forgotten
    · exact old

theorem invalidateMemories_of_ok {ids : List String} (commits : Commits t start db)
    (alive : ∀ m ∈ db.memories, m.id ∈ ids → m.status ≠ .forgotten)
    (ok : ids.foldlM (Database.invalidateMemory projectId jobId cancelledAt) db = .ok db') :
    Commits t start db' ∧ Invalidated ids db db' := by
  induction ids generalizing db with
  | nil =>
    cases ok
    exact ⟨commits, fun m mem _ => ⟨mem, by simp⟩, fun item mem _ => mem, rfl⟩
  | cons id rest ih =>
    simp only [foldlM_cons, bind_ok] at ok
    obtain ⟨middle, first, later⟩ := ok
    obtain ⟨commits, one, kept⟩ := invalidateMemory_of_ok commits
      (fun m mem same => alive m mem (same ▸ mem_cons_self)) first
    obtain ⟨commits, others⟩ := ih commits (fun m mem listed forgotten =>
      alive m (kept m mem forgotten) (mem_cons_of_mem _ listed) forgotten) later
    exact ⟨commits, one.trans others⟩

theorem invalidate_of_ok (consistent : Consistent db) (settled : Settled db)
    (lost : ∀ item ∈ db.workItems, item.revocable →
      db.boundTo projectId jobId item.receiptId → t.lost item)
    (ok : db.invalidate projectId jobId cancelledAt = .ok db') :
    Commits t db db' ∧ Cleared projectId jobId db' ∧ Invalidated [] db db' := by
  have revoked : Commits t db (db.updateWork
      (fun item => db.boundTo projectId jobId item.receiptId && item.revocable)
      WorkItem.revoked) := by
    refine (Commits.refl consistent settled).change (fun item _ selected => ?_)
      fun item mem selected => ?_
    · simp only [Bool.and_eq_true] at selected
      exact .revoke selected.2
    · simp only [Bool.and_eq_true] at selected
      exact .inr (.inr (.inl (lost item mem selected.2 selected.1)))
  have alive : ∀ m ∈ db.memories, m.id ∈ db.citing projectId jobId → m.status ≠ .forgotten := by
    intro m mem listed
    obtain ⟨other, cites, same⟩ := mem_map.mp listed
    obtain ⟨here, cites⟩ := mem_filter.mp cites
    rw [consistent.memory_eq mem here same.symm]
    simp only [Bool.and_eq_true, decide_eq_true_eq] at cites
    exact cites.1.2
  obtain ⟨done, left⟩ := invalidateMemories_of_ok revoked alive ok
  have bound : ∀ receiptId, db'.boundTo projectId jobId receiptId =
      db.boundTo projectId jobId receiptId := done.writes.extends.boundTo
  -- what can still be revoked was not bound to the Job, so it has not been touched
  have untouched : ∀ item ∈ db'.workItems, item.revocable →
      item ∈ db.workItems ∧ db.boundTo projectId jobId item.receiptId = false := by
    intro item mem revocable
    obtain ⟨old, here, same⟩ := mem_map.mp (left.items item mem revocable)
    split at same
    · subst same
      cases revocable
    · rename_i unselected
      subst same
      exact ⟨here, by simpa [revocable] using unselected⟩
  refine ⟨done, ⟨fun m mem searchable e quoted => ?_, fun item mem revocable => ?_⟩,
    fun m mem searchable => ?_, fun item mem revocable => ?_, left.heads⟩
  · obtain ⟨here, unlisted⟩ := left.memories m mem searchable
    rw [bound]
    by_contra cites
    rw [Bool.not_eq_false] at cites
    refine unlisted (mem_map_of_mem (mem_filter.mpr ⟨here, ?_⟩))
    have row := consistent.cited m here e quoted
    simp only [Bool.and_eq_true, decide_eq_true_eq, any_eq_true]
    refine ⟨⟨fun revoked => ?_, fun forgotten => ?_⟩, _, row, rfl, cites⟩
    · rw [revoked] at searchable
      cases searchable
    · rw [forgotten] at searchable
      cases searchable
  · rw [bound]
    exact (untouched item mem revocable).2
  · exact ⟨(left.memories m mem searchable).1, by simp⟩
  · exact (untouched item mem revocable).1

theorem invalidateAll_of_ok {jobs : List CancelledJob} (consistent : Consistent db)
    (settled : Settled db) (cancelled : ∀ c ∈ jobs, c ∈ db.cancelledJobs ∧ c.projectId = projectId)
    (lost : ∀ c ∈ jobs, ∀ item ∈ db.workItems, item.revocable →
      db.boundTo projectId c.jobId item.receiptId → t.lost item)
    (ok : jobs.foldlM (fun db c => db.invalidate projectId c.jobId c.cancelledAt) db = .ok db') :
    Commits t db db' ∧ (∀ c ∈ jobs, Cleared projectId c.jobId db') ∧ Invalidated [] db db' := by
  induction jobs generalizing db with
  | nil =>
    cases ok
    exact ⟨.refl consistent settled, by simp, fun m mem _ => ⟨mem, by simp⟩, fun item mem _ => mem, rfl⟩
  | cons job rest ih =>
    simp only [foldlM_cons, bind_ok] at ok
    obtain ⟨middle, first, later⟩ := ok
    obtain ⟨commits, cleared, left⟩ := invalidate_of_ok consistent settled
      (lost job mem_cons_self) first
    have extended := commits.writes.extends
    obtain ⟨others, clearedOthers, leftOthers⟩ := ih commits.consistent
      commits.settled
      (fun c mem => by
        rw [extended.cancelledJobs]
        exact cancelled c (mem_cons_of_mem _ mem))
      (fun c mem item here revocable bound => by
        rw [extended.boundTo] at bound
        exact lost c (mem_cons_of_mem _ mem) item (left.items item here revocable)
          revocable bound)
      later
    refine ⟨commits.trans others, fun c mem => ?_, left.trans leftOthers⟩
    obtain rfl | mem := mem_cons.mp mem
    · obtain ⟨listed, rfl⟩ := cancelled c mem_cons_self
      refine cleared.writes ?_ others.writes
      rw [extended.cancelledJobs]
      exact listed
    · exact clearedOthers c mem

end

end Agentix.MemoryStore
