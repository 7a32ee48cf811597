import Agentix.MemoryStore.Stage

/-! # Work transactions

The transactions that add work, and those that give, finish, fail and retry it.
-/

namespace Agentix.MemoryStore

open Lib List Option

variable [Environment]

def Forged (lease : WorkLease) (item : WorkItem) : Prop :=
  item.id = lease.id ∧ (item.kind, item.payload) ≠ (lease.kind, lease.payload)

section

variable {t : Transaction} {start db db' : Database} {lease : WorkLease}

/-! ## Fences -/

variable {projectId : String} {item : WorkItem}

/-- The running item that a lease was fenced by. -/
structure Fenced (db : Database) (lease : WorkLease) (now : Int) (item : WorkItem) : Prop where
  member : item ∈ db.workItems
  id : item.id = lease.id
  project : item.projectId = lease.projectId
  receipt : item.receiptId = lease.receiptId
  running : item.state = .running
  generation : item.generation = lease.generation
  owner : item.owner = some lease.owner
  unexpired : item.unexpired now

omit [Environment] in
theorem fenced_of_ok {now : Int} (ok : db.fence lease now = .ok ()) : ∃ item, Fenced db lease now item := by
  simp only [Database.fence, ensure_ok, List.any_eq_true, Bool.and_eq_true,
    decide_eq_true_eq] at ok
  obtain ⟨item, mem, ⟨⟨⟨⟨⟨id, project⟩, receipt⟩, running⟩, generation⟩, owner⟩, unexpired⟩ := ok
  exact ⟨item, mem, id, project, receipt, running, generation, owner, unexpired⟩

/-! ## Additions -/

omit [Environment] in
theorem Licensed.addWork {receiptId : String} (licensed : Licensed db receiptId)
    (projectId receipt : String) (kind : WorkKind) (payload : Payload) (priority : Nat) :
    Licensed (db.addWork projectId receipt kind payload priority) receiptId := by
  cases licensed with
  | valid valid => exact .valid valid
  | worked mem active same => exact .worked (mem_append_left _ mem) active same
  | cited mem searchable cited same => exact .cited mem searchable cited same

theorem Commits.insertAll {α : Type} {rows : List α} {source : Source} {kind : WorkKind}
    (payload : α → Payload) (commits : Commits t start db) (licensed : Licensed db source.receiptId)
    (seedless : ∀ a ∈ rows, (payload a).seed = none) :
    Commits t start (rows.foldl (fun db a => db.insertWork source kind (payload a)) db) ∧
      db.workItems ⊆ (rows.foldl (fun db a => db.insertWork source kind (payload a)) db).workItems
      := by
  induction rows generalizing db with
  | nil => exact ⟨commits, List.Subset.refl _⟩
  | cons head tail ih =>
    obtain ⟨rest, grown⟩ := ih
      (commits.write (.add (seedless head mem_cons_self) licensed) rfl)
      (licensed.addWork _ _ _ _ _) fun a mem => seedless a (mem_cons_of_mem _ mem)
    exact ⟨rest, List.Subset.trans (subset_append_left _ _) grown⟩

omit [Environment] in
theorem seedless_parts {message : SourceMessage} :
    ∀ payload ∈ message.parts, payload.seed = none := by
  have parts : ∀ fuel offset text, ∀ payload ∈ messageParts message fuel offset text,
      payload.seed = none := by
    intro fuel
    induction fuel with
    | zero =>
      intro offset text payload mem
      cases text <;> cases mem
    | succ fuel ih =>
      intro offset text payload mem
      cases text with
      | nil => cases mem
      | cons head tail =>
        simp only [messageParts] at mem
        obtain rfl | later := mem_cons.mp mem
        · rfl
        · exact ih _ _ payload later
  exact parts _ _ _

/-! ## Ends -/

theorem Commits.finish (commits : Commits t start db) (mem : item ∈ db.workItems)
    (id : item.id = lease.id) (running : item.state = .running) (result : Outcome)
    (ended : item.kind = lease.kind → item.payload = lease.payload → Spent t db item)
    (forged : ∀ item, Forged lease item → t.lost item) :
    Commits t start (db.finish lease result) := by
  have only : ∀ other ∈ db.workItems, other.id = lease.id → other = item :=
    fun other here same => commits.consistent.items.eq_of_key here mem (by rw [same, id])
  refine commits.change (fun other here selected => ?_) fun other here selected => ?_
  · rw [only other here (of_decide_eq_true selected)]
    exact .finish running result
  · rw [only other here (of_decide_eq_true selected)]
    by_cases same : (item.kind, item.payload) = (lease.kind, lease.payload)
    · obtain ⟨kind, payload⟩ := Prod.mk.inj same
      exact .inr (.inr (.inr (ended kind payload)))
    · exact .inr (.inr (.inl (forged item ⟨id, same⟩)))

/-- What the completion of a lease leaves. -/
structure Completes (t : Transaction) (lease : WorkLease) (db : Database) : Prop where
  commits : Commits t t.base db
  fenced : ∃ item, Fenced t.base lease t.now item
  finished : ∃ item ∈ db.workItems, item.id = lease.id ∧ item.state = .done

omit [Environment] in
theorem finished_of_mem (mem : item ∈ db.workItems) (id : item.id = lease.id)
    (result : Outcome) :
    ∃ item ∈ (db.finish lease result).workItems, item.id = lease.id ∧ item.state = .done := by
  refine ⟨_, mem_map_of_mem mem, ?_⟩
  rw [if_pos (decide_eq_true id)]
  exact ⟨id, rfl⟩

theorem Completes.finish (commits : Commits t t.base db) (fenced : Fenced t.base lease t.now item)
    (mem : item ∈ db.workItems) (result : Outcome)
    (ended : item.kind = lease.kind → item.payload = lease.payload → Spent t db item)
    (forged : ∀ item, Forged lease item → t.lost item) :
    Completes t lease (db.finish lease result) where
  commits := commits.finish mem fenced.id fenced.running result ended forged
  fenced := ⟨item, fenced⟩
  finished := finished_of_mem mem fenced.id result

omit [Environment] in
/-- Work without a seed ends with nothing to see. -/
theorem spent_of_seedless (seedless : item.payload.seed = none) :
    Spent t db item := by
  intro seed present
  rw [seedless] at present
  cases present

theorem failWork_commits (commits : Commits t start t.base) {error : String} {retry : Bool}
    (ok : t.base.failWorkWithRetry lease error t.now retry = .ok db') : Commits t start db' := by
  simp only [Database.failWorkWithRetry, bind_ok, ensure_ok, pure_ok] at ok
  obtain ⟨⟨⟩, fence, ⟨⟩, -, rfl⟩ := ok
  obtain ⟨item, fenced⟩ := fenced_of_ok fence
  refine commits.change (fun other here selected => ?_) fun other here selected => ?_
  · have same := commits.consistent.items.eq_of_key here fenced.member
      (by rw [of_decide_eq_true selected, fenced.id])
    rw [same]
    exact .fail fenced.running error retry
  · show WorkItem.active _ = true ∨ _
    simp only [WorkItem.active, WorkItem.failedWith]
    split
    · exact .inr (.inl rfl)
    · exact .inl rfl

theorem retryWork_commits (commits : Commits t start t.base) {id : Nat}
    (ok : t.base.retryWork projectId id = .ok db') : Commits t start db' := by
  simp only [Database.retryWork, bind_ok, ensure_ok, pure_ok] at ok
  obtain ⟨⟨⟩, -, rfl⟩ := ok
  refine commits.change (fun item _ selected => ?_) fun item _ _ => .inl rfl
  simp only [Database.retryable, Bool.and_eq_true, decide_eq_true_eq] at selected
  exact .retry selected.1.2

/-! ## Claims -/

theorem Commits.failExpired (commits : Commits t start db) (id : Option Nat) :
    Commits t start (db.failExpired t.now id) := by
  refine commits.change (fun item _ selected => ?_) fun item _ _ => .inr (.inl rfl)
  simp only [Bool.and_eq_true, decide_eq_true_eq] at selected
  exact .expire selected.1.1.1 selected.1.1.2 selected.1.2

/-- What a claim does after expired work has failed. -/
inductive Claimed (db : Database) (config : AgentConfig) (now : Int) (id : Option Nat)
    (owner : String) : Option WorkLease → Database → Prop
  | nothing : Claimed db config now id owner none (db.failExpired now id)
  | lease {item : WorkItem} (member : item ∈ (db.failExpired now id).workItems)
      (claimable : (db.failExpired now id).claimable config now id item)
      (room : (db.failExpired now id).running now < config.maxConcurrentLoops) :
      Claimed db config now id owner (some (Database.leaseOf item owner config now))
        ((db.failExpired now id).grant (Database.leaseOf item owner config now) config)

omit [Environment] in
theorem claimed_of_ok {config : AgentConfig} {id : Option Nat} {owner : String}
    {given : Option WorkLease}
    (ok : db.claimSelectedWork owner config now id = .ok (given, db')) :
    Claimed db config now id owner given db' := by
  simp only [Database.claimSelectedWork, bind_ok, ensure_ok] at ok
  obtain ⟨⟨⟩, -, ok⟩ := ok
  split at ok
  · cases ok
    exact .nothing
  · rename_i room
    split at ok
    · cases ok
      exact .nothing
    · rename_i item next
      cases ok
      unfold Database.nextItem at next
      obtain ⟨entry, first, rfl⟩ := map_eq_some_iff.mp next
      have sorted := mem_of_mem_head? first
      obtain ⟨scheduled, claimable⟩ := mem_filter.mp ((mem_insertionSort _).mp sorted)
      obtain ⟨item, mem, listed⟩ := mem_filterMap.mp scheduled
      obtain ⟨project, -, rfl⟩ := map_eq_some_iff.mp listed
      exact .lease mem claimable (by omega)

theorem claim_commits (commits : Commits t start t.base) {id : Option Nat} {owner : String}
    (ok : t.base.claimSelectedWork owner t.config t.now id = .ok (t.given, db')) :
    Commits t start db' := by
  have expired := commits.failExpired id
  obtain claimed := claimed_of_ok ok
  generalize given : t.given = lease at claimed
  cases claimed with
  | nothing => exact expired
  | lease mem claimable room =>
    rename_i item
    simp only [Database.claimable, Bool.and_eq_true, Bool.or_eq_true, decide_eq_true_eq,
      Bool.not_eq_true'] at claimable
    obtain ⟨⟨⟨ready, left⟩, -⟩, -⟩ := claimable
    have active : item.active := by
      unfold WorkItem.active
      obtain ⟨pending, -⟩ | ⟨running, -⟩ := ready
      · simp [pending]
      · simp [running]
    have granted : Commits t start ((t.base.failExpired t.now id).updateWork
        (fun other => other.id = item.id)
        (WorkItem.granted (Database.leaseOf item owner t.config t.now) t.config)) := by
      refine expired.change (fun other here selected => ?_) fun other _ _ => .inl rfl
      have same := expired.consistent.items.eq_of_key here mem (of_decide_eq_true selected)
      rw [same]
      exact .grant given active (by simp [left])
    exact granted.write (.frame _ _ _ _ _ _) rfl

/-! ## Extractions and reviews -/

theorem completeExtraction_of_ok (commits : Commits t t.base t.base)
    {candidates : List MemoryInput}
    (ok : t.base.completeExtraction lease candidates t.now = .ok db')
    (forged : ∀ item, Forged lease item → t.lost item) : Completes t lease db' := by
  simp only [Database.completeExtraction, bind_ok, ensure_ok, pure_ok] at ok
  obtain ⟨⟨⟩, ⟨extracts, -⟩, ⟨⟩, fence, ⟨⟩, -, inserted, insert, rfl⟩ := ok
  obtain ⟨item, fenced⟩ := fenced_of_ok fence
  have added : Commits t t.base inserted ∧ item ∈ inserted.workItems := by
    unfold Database.insertBatches at insert
    split at insert
    · cases insert
      exact ⟨commits, fenced.member⟩
    · simp only [bind_ok, orElseError_eq_ok, pure_ok] at insert
      obtain ⟨source, found, rfl⟩ := insert
      have same : item.receiptId = source.receiptId := by
        rw [fenced.receipt]
        exact (rowOf_some found).2.symm
      have active : item.active := by simp [WorkItem.active, fenced.running]
      obtain ⟨added, grown⟩ := commits.insertAll .candidates
        (.worked fenced.member active same) fun _ _ => rfl
      exact ⟨added, grown fenced.member⟩
  refine .finish added.1 fenced added.2 _ (fun kind _ seed seeded => ?_) forged
  -- a seed is never extracted from
  obtain ⟨consolidates, -⟩ := added.1.consistent.scheduled item added.2 seed seeded
  rw [kind, extracts] at consolidates
  cases consolidates

theorem skipObsolete_of_ok (commits : Commits t t.base t.base) {skipped : Bool}
    (ok : t.base.skipObsoleteCompaction lease t.now = .ok (skipped, db'))
    (forged : ∀ item, Forged lease item → t.lost item) :
    if skipped then Completes t lease db' else db' = t.base := by
  unfold Database.skipObsoleteCompaction at ok
  split at ok
  · cases ok
    rfl
  · rename_i seed present
    simp only [bind_ok] at ok
    obtain ⟨⟨⟩, fence, current, loaded, ok⟩ := ok
    obtain ⟨item, fenced⟩ := fenced_of_ok fence
    obtain ⟨here, -, named⟩ := mem_of_load loaded
    split at ok
    · rename_i obsolete
      cases ok
      refine .finish commits fenced fenced.member _ (fun _ same => ?_) forged
      -- the seed of the lease is no longer a current version that may be compacted
      intro known seeded m mem revision compactable
      rw [same, present, some.injEq] at seeded
      subst seeded
      simp only [revisionOf, Prod.mk.injEq] at revision
      have only := commits.consistent.memory_eq mem here (by rw [revision.1, named])
      subst only
      obtain changed | unfit := obsolete
      · exact absurd revision.2 changed
      · rw [compactable] at unfit
        cases unfit
    · cases ok
      rfl

theorem completeReview_of_ok (commits : Commits t t.base t.base) {decision : ReviewDecision}
    (ok : t.base.completeReview lease decision t.now = .ok db')
    (forged : ∀ item, Forged lease item → t.lost item) : Completes t lease db' := by
  simp only [Database.completeReview, bind_ok, ensure_ok] at ok
  obtain ⟨⟨⟩, -, ok⟩ := ok
  split at ok
  · rename_i expected fingerprint review
    simp only [bind_ok] at ok
    obtain ⟨⟨⟩, fence, current, loaded, ok⟩ := ok
    obtain ⟨item, fenced⟩ := fenced_of_ok fence
    obtain ⟨mem, -, -⟩ := mem_of_load loaded
    have seedless : item.payload = lease.payload → item.payload.seed = none := by
      intro same
      rw [same, review]
      rfl
    split at ok
    · rename_i archives
      simp only [bind_ok, pure_ok] at ok
      obtain ⟨archived, save, rfl⟩ := ok
      have kept : Commits t t.base archived := by
        refine commits.save ?_ save rfl
        refine .same (commits.known mem) (.searchable rfl rfl rfl ?_ (by simp)) rfl
        rw [archives.2.2.2]
        rfl
      refine .finish kept fenced ?_ _ (fun _ same => spent_of_seedless (seedless same)) forged
      rw [(saved_of_ok save).tables]
      exact fenced.member
    · cases ok
      exact .finish commits fenced fenced.member _
        (fun _ same => spent_of_seedless (seedless same)) forged
  · cases ok

/-! ## Schedules -/

theorem enqueuePage_commits {force : Bool} {debounce : Nat} {rows : List Memory}
    {ids : List Nat} (commits : Commits t start db) (present : ∀ m ∈ rows, m ∈ db.memories)
    (ok : Database.enqueuePage force debounce t.now rows db = .ok (ids, db')) :
    Commits t start db' := by
  induction rows generalizing db ids with
  | nil =>
    cases ok
    exact commits
  | cons memory rest ih =>
    simp only [Database.enqueuePage, bind_ok] at ok
    obtain ⟨⟨id, middle⟩, first, ⟨later, last⟩, others, done⟩ := ok
    cases done
    have here := present memory mem_cons_self
    have one : Commits t start middle ∧ middle.memories = db.memories := by
      simp only [Database.enqueueCompaction] at first
      split at first
      · rename_i unfit
        cases first
        refine ⟨commits.write (.observe (.inr ⟨here, ?_⟩)) rfl, rfl⟩
        simpa using unfit
      · rename_i fit
        split at first
        · cases first
          exact ⟨commits, rfl⟩
        · simp only [bind_ok, orElseError_eq_ok, pure_ok] at first
          obtain ⟨evidence, head, made⟩ := first
          cases made
          have known : Commits t start (db.insertScheduler memory.projectId) :=
            commits.write (.frame _ _ _ _ _ _) rfl
          refine ⟨known.write (.schedule ?_ ?_ head) rfl, rfl⟩
          · exact here
          · simpa using fit
    refine ih one.1 (fun m mem => ?_) others
    rw [one.2]
    exact present m (mem_cons_of_mem _ mem)

theorem scheduleCompaction_commits (commits : Commits t start t.base) {after : String} {limit : Nat}
    {force : Bool} {debounce : Nat} {page : CompactionPage}
    (ok : t.base.scheduleCompaction projectId after limit force debounce t.now = .ok (page, db')) :
    Commits t start db' := by
  simp only [Database.scheduleCompaction, bind_ok] at ok
  obtain ⟨⟨⟩, -, ⟨ids, db'⟩, page, done⟩ := ok
  cases done
  refine enqueuePage_commits commits (fun m mem => ?_) page
  have listed := (mem_insertionSort _).mp (mem_of_mem_take mem)
  exact (mem_filter.mp listed).1

theorem scheduleBackground_commits (commits : Commits t start t.base) {scheduled : Nat}
    (ok : t.base.scheduleBackgroundCompaction projectId t.config t.now = .ok (scheduled, db')) :
    Commits t start db' := by
  unfold Database.scheduleBackgroundCompaction at ok
  split at ok
  · cases ok
    exact commits
  · simp only [bind_ok] at ok
    obtain ⟨⟨ids, db'⟩, page, done⟩ := ok
    cases done
    refine enqueuePage_commits commits (fun m mem => ?_) page
    obtain ⟨row, -, found⟩ := mem_filterMap.mp (mem_of_mem_take mem)
    exact (rowOf_some found).1

theorem scheduleReviews_commits (commits : Commits t start t.base) {fingerprint : String}
    {limit scheduled : Nat}
    (ok : t.base.scheduleReviews projectId fingerprint limit t.now = .ok (scheduled, db')) :
    Commits t start db' := by
  simp only [Database.scheduleReviews, bind_ok, ensure_ok] at ok
  obtain ⟨⟨⟩, -, last, reviews, done⟩ := ok
  cases done
  have kept : Commits t start db' ∧ db'.memories = t.base.memories := by
    refine foldlM_induction (motive := fun db => Commits t start db ∧ db.memories = t.base.memories)
      (fun m mem before after ok kept => ?_) reviews ⟨commits, rfl⟩
    obtain ⟨commits, same⟩ := kept
    have listed := mem_filter.mp ((mem_insertionSort _).mp (mem_of_mem_take mem))
    simp only [Bool.and_eq_true, decide_eq_true_eq] at listed
    simp only [Database.scheduleReview, bind_ok, orElseError_eq_ok, pure_ok] at ok
    obtain ⟨evidence, first, rfl⟩ := ok
    have known : Commits t start (before.insertScheduler m.projectId) :=
      commits.write (.frame _ _ _ _ _ _) rfl
    have added : Commits t start ((before.insertScheduler m.projectId).addWork m.projectId
        evidence.receiptId .consolidate (.review m fingerprint) 2) := by
      refine known.write (.add rfl (.cited ?_ ?_ (mem_of_mem_head? first) rfl)) rfl
      · show m ∈ before.memories
        rw [same]
        exact listed.1
      · rw [listed.2.1.1.2]
        rfl
    exact ⟨added.write (.frame _ _ _ _ _ _) rfl, same⟩
  exact kept.1

end

end Agentix.MemoryStore
