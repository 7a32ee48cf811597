import Agentix.MemoryStore.Revoking

/-! # Intake

The bindings of turns and receipts to Jobs, and the intake of a source.
-/

namespace Agentix.MemoryStore

open Lib List

/-- The receipts of a turn are bound to every Job the turn is bound to. -/
structure Sourced (db : Database) : Prop where
  receipts : Distinct Source.receiptId db.sources
  owned : ∀ row ∈ db.sourceJobs, ∃ source ∈ db.sources, source.receiptId = row.receiptId ∧
    source.projectId = row.projectId
  closed : ∀ turn ∈ db.sourceJobTurns, ∀ source ∈ db.sources, source.turn = turn.turn →
    source.projectId = turn.projectId →
    SourceJob.mk source.receiptId turn.projectId turn.jobId ∈ db.sourceJobs

theorem Sourced.empty : Sourced {} := by
  constructor <;> simp [Distinct]

section

variable {db : Database} {source : Source} {row : SourceJob}

/-! ## Bindings -/

/-- The rows that `index_receipts` inserts. -/
def boundRows (db : Database) (source : Source) : List SourceJob :=
  (db.sourceJobTurns.filter fun t => t.turn = source.turn).flatMap fun t =>
    (db.sources.filter fun s => s.turn = t.turn && s.projectId = t.projectId).map fun s =>
      SourceJob.mk s.receiptId s.projectId t.jobId

theorem mem_boundRows : row ∈ boundRows db source ↔
    ∃ turn ∈ db.sourceJobTurns, turn.turn = source.turn ∧ ∃ s ∈ db.sources,
      s.turn = turn.turn ∧ s.projectId = turn.projectId ∧
        row = ⟨s.receiptId, turn.projectId, turn.jobId⟩ := by
  simp only [boundRows, mem_flatMap, mem_filter, decide_eq_true_eq, mem_map,
    Bool.and_eq_true]
  constructor
  · rintro ⟨turn, ⟨bound, same⟩, s, ⟨mem, of, project⟩, rfl⟩
    exact ⟨turn, bound, same, s, mem, of, project, by rw [project]⟩
  · rintro ⟨turn, bound, same, s, mem, of, project, rfl⟩
    exact ⟨turn, ⟨bound, same⟩, s, ⟨mem, of, project⟩, by rw [project]⟩

theorem mem_indexReceipts (mem : row ∈ (db.indexReceipts source).sourceJobs) :
    row ∈ db.sourceJobs ∨ row ∈ boundRows db source :=
  mem_foldl_insertOrIgnore mem

theorem indexReceipts_of_mem (mem : row ∈ db.sourceJobs) :
    row ∈ (db.indexReceipts source).sourceJobs :=
  mem_foldl_insertOrIgnore_of_mem mem

/-- The bindings of every turn but one are complete. -/
structure SourcedBut (turn : TurnKey) (db : Database) : Prop where
  receipts : Distinct Source.receiptId db.sources
  owned : ∀ row ∈ db.sourceJobs, ∃ source ∈ db.sources, source.receiptId = row.receiptId ∧
    source.projectId = row.projectId
  closed : ∀ t ∈ db.sourceJobTurns, t.turn ≠ turn → ∀ source ∈ db.sources, source.turn = t.turn →
    source.projectId = t.projectId →
    SourceJob.mk source.receiptId t.projectId t.jobId ∈ db.sourceJobs

theorem Sourced.but (sourced : Sourced db) (turn : TurnKey) : SourcedBut turn db where
  receipts := sourced.receipts
  owned := sourced.owned
  closed t mem _ := sourced.closed t mem

/-- Once the receipts of the turn are indexed, all of them are bound. -/
theorem SourcedBut.bound (but : SourcedBut source.turn db) (inserted : row ∈ boundRows db source) :
    row ∈ (db.indexReceipts source).sourceJobs := by
  obtain ⟨other, mem, same⟩ := exists_foldl_insertOrIgnore
    (fun s : SourceJob => (s.receiptId, s.jobId)) db.sourceJobs inserted
  change other ∈ (db.indexReceipts source).sourceJobs at mem
  obtain ⟨turn, -, -, s, here, -, project, rfl⟩ := mem_boundRows.mp inserted
  obtain ⟨receipt, job⟩ := Prod.mk.inj same
  change other.receiptId = s.receiptId at receipt
  change other.jobId = turn.jobId at job
  have sameProject : other.projectId = turn.projectId := by
    -- a receipt has one source, and both rows have its Project
    obtain old | new := mem_indexReceipts mem
    · obtain ⟨s', there, of, project'⟩ := but.owned other old
      rw [← project', but.receipts.eq_of_key there here (by rw [of, receipt]), project]
    · obtain ⟨turn', -, -, s', there, -, project', rfl⟩ := mem_boundRows.mp new
      show turn'.projectId = turn.projectId
      rw [← project', but.receipts.eq_of_key there here receipt, project]
  have equal : other = ⟨s.receiptId, turn.projectId, turn.jobId⟩ := by
    rw [← receipt, ← job, ← sameProject]
  exact equal ▸ mem

theorem SourcedBut.indexReceipts (but : SourcedBut source.turn db) :
    Sourced (db.indexReceipts source) where
  receipts := but.receipts
  owned row mem := by
    obtain old | new := mem_indexReceipts mem
    · exact but.owned row old
    · obtain ⟨turn, -, -, s, here, -, project, rfl⟩ := mem_boundRows.mp new
      exact ⟨s, here, rfl, project⟩
  closed turn mem s here same project := by
    by_cases own : turn.turn = source.turn
    · exact but.bound (mem_boundRows.mpr ⟨turn, mem, own, s, here, same, project, rfl⟩)
    · exact indexReceipts_of_mem (but.closed turn mem own s here same project)

theorem mem_bindTurn {turn : SourceJobTurn} {jobId : String}
    (mem : turn ∈ (db.bindTurn source jobId).sourceJobTurns) :
    turn ∈ db.sourceJobTurns ∨ turn = ⟨source.turn, source.projectId, jobId⟩ :=
  mem_insertOrIgnore mem

theorem SourcedBut.bindTurn (but : SourcedBut source.turn db) (jobId : String) :
    SourcedBut source.turn (db.bindTurn source jobId) where
  receipts := but.receipts
  owned := but.owned
  closed turn mem other s here same project := by
    obtain old | rfl := mem_bindTurn mem
    · exact but.closed turn old other s here same project
    · exact absurd rfl other

theorem Sourced.append (sourced : Sourced db) (fresh : db.source source.receiptId = none) :
    SourcedBut source.turn { db with sources := db.sources ++ [source] } where
  receipts := by
    refine sourced.receipts.append fun old mem same => ?_
    have absent := find?_eq_none.mp fresh old mem
    simp [same] at absent
  owned row mem := by
    obtain ⟨s, here, of⟩ := sourced.owned row mem
    exact ⟨s, mem_append_left _ here, of⟩
  closed turn mem other s here same project := by
    obtain old | new := mem_append.mp here
    · exact sourced.closed turn mem s old same project
    · rw [mem_singleton.mp new] at same
      exact absurd same.symm other

/-! ## What an intake binds -/

theorem SourcedBut.bindReceipts (but : SourcedBut source.turn db) :
    Sourced (db.bindReceipts source) := by
  unfold Database.bindReceipts
  split
  · exact but.indexReceipts
  · exact (but.bindTurn _).indexReceipts

theorem Sourced.bindCancelledSource (sourced : Sourced db) :
    Sourced (db.bindCancelledSource source) := by
  unfold Database.bindCancelledSource
  split
  · exact sourced
  · exact ((sourced.but _).bindTurn _).indexReceipts

theorem Sourced.mem_bindCancelledSource (sourced : Sourced db)
    (mem : row ∈ (db.bindCancelledSource source).sourceJobs) :
    row ∈ db.sourceJobs ∨ (source.projectId, source.jobId) = (row.projectId, some row.jobId) := by
  unfold Database.bindCancelledSource at mem
  split at mem
  · exact .inl mem
  · rename_i jobId owner
    obtain old | new := mem_indexReceipts mem
    · exact .inl old
    · obtain ⟨turn, bound, -, s, here, same, project, rfl⟩ := mem_boundRows.mp new
      obtain old | rfl := mem_bindTurn bound
      · exact .inl (sourced.closed turn old s here same project)
      · exact .inr (by rw [owner])

theorem SourcedBut.mem_indexReceipts {taken : Database} (but : SourcedBut source.turn taken)
    (sourced : Sourced db) (sources : taken.sources = db.sources ++ [source])
    (jobs : taken.sourceJobs = db.sourceJobs)
    (turns : ∀ t ∈ taken.sourceJobTurns, t ∈ db.sourceJobTurns ∨ t.projectId = source.projectId)
    (mem : row ∈ (taken.indexReceipts source).sourceJobs) :
    row ∈ db.sourceJobs ∨
      SourceJob.mk source.receiptId row.projectId row.jobId ∈
        (taken.indexReceipts source).sourceJobs := by
  obtain old | new := mem_foldl_insertOrIgnore mem
  · exact .inl (jobs ▸ old)
  · obtain ⟨turn, bound, own, s, here, same, project, rfl⟩ := mem_boundRows.mp new
    by_cases ours : turn.projectId = source.projectId
    · refine .inr (but.bound (mem_boundRows.mpr ⟨turn, bound, own, source, ?_, ?_⟩))
      · rw [sources]
        exact mem_append_right _ (mem_singleton.mpr rfl)
      · exact ⟨own.symm, ours.symm, rfl⟩
    · rw [sources] at here
      obtain old | last := mem_append.mp here
      · obtain known | theirs := turns turn bound
        · exact .inl (sourced.closed turn known s old same project)
        · exact absurd theirs ours
      · rw [mem_singleton.mp last] at project
        exact absurd project.symm ours

theorem Sourced.mem_bindReceipts (sourced : Sourced db) (fresh : db.source source.receiptId = none)
    (mem : row ∈ ({ db with sources := db.sources ++ [source] }.bindReceipts source).sourceJobs) :
    row ∈ db.sourceJobs ∨ SourceJob.mk source.receiptId row.projectId row.jobId ∈
      ({ db with sources := db.sources ++ [source] }.bindReceipts source).sourceJobs := by
  have but := sourced.append fresh
  unfold Database.bindReceipts at mem ⊢
  cases owner : source.jobId with
  | none =>
    rw [owner] at mem
    exact but.mem_indexReceipts sourced rfl rfl (fun t here => .inl here) mem
  | some jobId =>
    rw [owner] at mem
    refine (but.bindTurn jobId).mem_indexReceipts sourced rfl rfl (fun t here => ?_) mem
    obtain old | rfl := mem_bindTurn here
    · exact .inl old
    · exact .inr rfl

end

/-! ## What a call takes in and ends -/

/-- The work of a receipt that an older revision of the turn left behind. -/
def Superseded (db : Database) (source : Source) (item : WorkItem) : Prop :=
  item ∈ db.workItems ∧ item.active = true ∧ ∃ head ∈ db.sourceHeads,
    head.turn = source.turn ∧ head.revision < source.revision ∧ item.receiptId = head.receiptId

def RevokedWith (db : Database) (source : Source) (item : WorkItem) : Prop :=
  ∃ c ∈ db.cancelledJobs, db.boundTo c.projectId c.jobId source.receiptId = true ∧
    db.boundTo c.projectId c.jobId item.receiptId = true

namespace Operation

/-- The sources, bindings and cancellations that a call takes in before it writes. -/
def intake (db : Database) : Operation → Database
  | .ingest source =>
    match db.source source.receiptId with
    | some _ => db
    | none => { db with sources := db.sources ++ [source] }.bindReceipts source
  | .bindCancelledSource source => db.bindCancelledSource source
  | .invalidateJob projectId jobId revision cancelledAt =>
    db.cancelJob projectId jobId revision cancelledAt
  | _ => db

/-- The work that a call ends whatever becomes of its seed. -/
def loses (db : Database) (operation : Operation) (item : WorkItem) : Prop :=
  (∃ lease, operation.lease = some lease ∧ Forged lease item) ∨
    match operation with
    | .ingest source => Superseded db source item ∨ RevokedWith (operation.intake db) source item
    | .invalidateJob projectId jobId _ _ => db.boundTo projectId jobId item.receiptId = true
    | _ => False

theorem intake_eq (db : Database) (operation : Operation) :
    ∃ sources sourceJobs sourceJobTurns cancelledJobs, operation.intake db =
      { db with sources, sourceJobs, sourceJobTurns, cancelledJobs } := by
  unfold intake
  split
  · split
    · exact ⟨_, _, _, _, rfl⟩
    · unfold Database.bindReceipts
      split <;> exact ⟨_, _, _, _, rfl⟩
  · unfold Database.bindCancelledSource
    split <;> exact ⟨_, _, _, _, rfl⟩
  · exact ⟨_, _, _, _, rfl⟩
  · exact ⟨_, _, _, _, rfl⟩

end Operation

section

variable [Environment] {t : Transaction} {start db db' : Database} {source : Source}

theorem Consistent.intake (consistent : Consistent db) (operation : Operation) :
    Consistent (operation.intake db) := by
  obtain ⟨_, _, _, _, taken⟩ := operation.intake_eq db
  rw [taken]
  exact { consistent with }

omit [Environment] in
theorem Settled.intake (settled : Settled db) (operation : Operation) :
    Settled (operation.intake db) := by
  obtain ⟨_, _, _, _, taken⟩ := operation.intake_eq db
  rw [taken]
  exact settled

/-! ## Intake of a source -/

theorem enqueueHead_commits (commits : Commits t start db)
    (valid : db.sourceValid source.receiptId) : Commits t start (db.enqueueHead source) := by
  have headed : Commits t start (Database.insertScheduler { db with
      sourceHeads := upsert SourceHead.turn
        ⟨source.turn, source.projectId, source.revision, source.receiptId⟩
        (fun old => { old with revision := source.revision, receiptId := source.receiptId })
        db.sourceHeads } source.projectId) :=
    commits.write (.frame _ _ _ _ _ _) rfl
  refine (headed.insertAll id (.valid valid) fun payload mem => ?_).1
  obtain ⟨message, -, part⟩ := mem_flatMap.mp mem
  exact seedless_parts payload part

theorem enqueueSource_commits (commits : Commits t start db)
    (valid : db.sourceValid source.receiptId)
    (lost : ∀ head ∈ db.sourceHeads, head.turn = source.turn → head.revision < source.revision →
      ∀ item ∈ db.workItems, item.active → item.receiptId = head.receiptId → t.lost item)
    (ok : db.enqueueSource source = .ok db') : Commits t start db' := by
  unfold Database.enqueueSource at ok
  split at ok
  · cases ok
    exact enqueueHead_commits commits valid
  · rename_i prior found
    simp only [bind_ok] at ok
    obtain ⟨⟨⟩, -, ok⟩ := ok
    split at ok
    · split at ok
      · simp only [bind_ok] at ok
        obtain ⟨_, -, ⟨⟩, -, done⟩ := ok
        cases done
        exact commits
      · cases ok
        exact commits
    · rename_i newer
      cases ok
      have turn : prior.turn = source.turn := by simpa using find?_some found
      have superseded : Commits t start (db.updateWork
          (fun item => item.receiptId = prior.receiptId && item.active) WorkItem.superseded) := by
        refine commits.change (fun item _ selected => ?_) fun item mem selected => ?_
        · simp only [Bool.and_eq_true] at selected
          exact .supersede selected.2
        · simp only [Bool.and_eq_true, decide_eq_true_eq] at selected
          exact .inr (.inr (.inl (lost prior (mem_of_find?_eq_some found) turn (by omega) item
            mem selected.2 selected.1)))
      exact enqueueHead_commits superseded valid

/-- The intake of a source revokes what the Jobs it is bound to no longer allow. -/
theorem ingest_of_ok {fresh : Bool} (consistent : Consistent db) (settled : Settled db)
    (sourced : Sourced db) (base : t.base = (Operation.ingest source).intake db)
    (lost : ∀ item, (Operation.ingest source).loses db item → t.lost item)
    (ok : db.ingest source = .ok (fresh, db')) :
    Commits t t.base db' ∧ (db.source source.receiptId = none → ∀ c ∈ t.base.cancelledJobs,
      t.base.boundTo c.projectId c.jobId source.receiptId → Cleared c.projectId c.jobId db') := by
  have consistentBase : Consistent t.base := base ▸ consistent.intake _
  have settledBase : Settled t.base := base ▸ settled.intake _
  simp only [Database.ingest, bind_ok] at ok
  obtain ⟨⟨⟩, -, ⟨⟩, -, ⟨⟩, -, ok⟩ := ok
  split at ok
  · rename_i existing found
    simp only [bind_ok] at ok
    obtain ⟨⟨⟩, -, done⟩ := ok
    cases done
    have same : t.base = db := by
      rw [base]
      simp only [Operation.intake, found]
    refine ⟨?_, fun absent => ?_⟩
    · rw [← same]
      exact .refl consistentBase settledBase
    · rw [absent] at found
      cases found
  · rename_i absent
    simp only [bind_ok] at ok
    obtain ⟨indexed, index, ok⟩ := ok
    have same : t.base = { db with sources := db.sources ++ [source] }.bindReceipts source := by
      rw [base]
      simp only [Operation.intake, absent]
    have bound : Sourced t.base := by
      rw [same]
      exact (sourced.append absent).bindReceipts
    -- Binding receipts writes only the two link tables, so the new source is still there.
    have taken : source ∈ t.base.sources := by
      obtain ⟨_, _, shape⟩ : ∃ jobs turns, t.base =
          { db with
            sources := db.sources ++ [source], sourceJobs := jobs, sourceJobTurns := turns } := by
        rw [same]
        unfold Database.bindReceipts
        split <;> exact ⟨_, _, rfl⟩
      rw [shape]
      exact mem_append_right _ (mem_singleton.mpr rfl)
    -- The Jobs invalidated here are the cancelled ones bound to the new receipt.
    have mem_jobs : ∀ c, c ∈ ((t.base.sourceJobs.filter fun s => s.receiptId = source.receiptId).flatMap
        fun s => t.base.cancelledJobs.filter fun c =>
          c.projectId = s.projectId && c.jobId = s.jobId) ↔
        c ∈ t.base.cancelledJobs ∧ t.base.boundTo c.projectId c.jobId source.receiptId := by
      intro c
      simp only [mem_flatMap, mem_filter, decide_eq_true_eq, Bool.and_eq_true,
        Database.boundTo, any_eq_true]
      constructor
      · rintro ⟨s, ⟨mem, receipt⟩, cancelled, project, job⟩
        exact ⟨cancelled, s, mem, ⟨receipt, project.symm⟩, job.symm⟩
      · rintro ⟨cancelled, s, mem, ⟨receipt, project⟩, job⟩
        exact ⟨s, ⟨mem, receipt⟩, cancelled, project.symm, job.symm⟩
    -- A receipt names its source alone, so the binding is in the Project of the source.
    have project : ∀ c, t.base.boundTo c.projectId c.jobId source.receiptId →
        (c : CancelledJob).projectId = source.projectId := by
      intro c bind
      simp only [Database.boundTo, any_eq_true, Bool.and_eq_true, decide_eq_true_eq] at bind
      obtain ⟨s, mem, ⟨receipt, owner⟩, -⟩ := bind
      obtain ⟨src, here, of, its⟩ := bound.owned s mem
      rw [← owner, ← its, bound.receipts.eq_of_key here taken (by rw [of, receipt])]
    simp only [Database.indexSource] at index
    rw [← same] at index
    obtain ⟨commits, cleared, left⟩ := invalidateAll_of_ok (t := t) consistentBase settledBase
      (fun c mem => by
        obtain ⟨cancelled, bind⟩ := (mem_jobs c).mp mem
        exact ⟨cancelled, project c bind⟩)
      (fun c mem item _ _ bind => by
        obtain ⟨cancelled, with_⟩ := (mem_jobs c).mp mem
        refine lost item (.inr (.inr ⟨c, base ▸ cancelled, base ▸ with_, ?_⟩))
        rw [project c with_, ← base]
        exact bind)
      index
    have done : ∀ final, Commits t indexed final → ∀ c ∈ t.base.cancelledJobs,
        t.base.boundTo c.projectId c.jobId source.receiptId →
        Cleared c.projectId c.jobId final := by
      intro final writes c cancelled bind
      have now := cleared c ((mem_jobs c).mpr ⟨cancelled, bind⟩)
      rw [← project c bind] at now
      refine now.writes ?_ writes.writes
      rw [commits.writes.extends.cancelledJobs]
      exact cancelled
    split at ok
    · rename_i valid
      simp only [bind_ok] at ok
      obtain ⟨enqueued, enqueue, finished⟩ := ok
      cases finished
      have queued := enqueueSource_commits (t := t) (.refl commits.consistent commits.settled) valid
        (fun head mem turn older item here active receipt => by
          rw [left.heads] at mem
          refine lost item (.inr (.inl ⟨?_, active, head, ?_, turn, older, receipt⟩))
          · have old := left.items item here (by simp [WorkItem.revocable, active])
            obtain ⟨_, _, _, _, shape⟩ := (Operation.ingest source).intake_eq db
            rw [base, shape] at old
            exact old
          · obtain ⟨_, _, _, _, shape⟩ := (Operation.ingest source).intake_eq db
            rw [base, shape] at mem
            exact mem)
        enqueue
      exact ⟨commits.trans queued, fun _ => done _ queued⟩
    · cases ok
      exact ⟨commits, fun _ => done _ (.refl commits.consistent commits.settled)⟩

end

end Agentix.MemoryStore
