import Agentix.MemoryStore.Leasing
import Agentix.MemoryStore.Run
import Agentix.MemoryStore.Taken

/-! # The work queue

Over every run whose clock does not go back, the leases stay within their limits, a lease that is
stale changes nothing, and no work is committed twice.
-/

namespace Agentix.MemoryStore

open Lib

section

variable [Environment] {config : AgentConfig} {opened now : Int} {s s' : State}
  {operation : Operation}

variable {item : WorkItem}

omit [Environment] in
theorem Limits.later {later : Int} {items : List WorkItem} (limits : Limits config now items)
    (distinct : Distinct WorkItem.id items) (forward : now ≤ later) : Limits config later items :=
  limits.mono distinct fun _ mem leased => ⟨mem, leased_later forward leased⟩

/-! ## Stale leases -/

/-- A lease that expired, or whose item was taken by a later lease or ended. -/
def Stale (s : State) (now : Int) (lease : WorkLease) : Prop :=
  lease.leaseUntil ≤ now ∨ ∀ item ∈ s.db.workItems, item.id = lease.id →
    item.state ≠ .running ∨ item.generation ≠ lease.generation

omit [Environment] in
/-- What passes the fence under a lease that was given is not stale. -/
theorem Leasing.not_stale (leasing : Leasing config s)
    (distinct : Distinct WorkItem.id s.db.workItems) {lease : WorkLease} (given : lease ∈ s.leases)
    (fenced : Fenced s.db lease now item) : ¬ Stale s now lease := by
  rintro (expired | ended)
  · obtain ⟨held, here, grants⟩ := leasing.granted lease given
    have same := distinct.eq_of_key here fenced.member (by rw [grants.id, fenced.id])
    subst same
    obtain ⟨-, until_⟩ := grants.held fenced.running fenced.generation
    have unexpired := fenced.unexpired
    simp only [WorkItem.unexpired, until_, Option.any_some, decide_eq_true_eq] at unexpired
    omega
  · obtain idle | other := ended item fenced.member fenced.id
    · exact idle fenced.running
    · exact other fenced.generation

theorem after_of_stale (run : (store config opened).Reachable Forward s) {lease : WorkLease}
    (given : lease ∈ s.leases) (presented : operation.lease = some lease)
    (stale : Stale s now lease) : s.after config now operation = { s with clock := now } := by
  have sound := sound_of_reachable run
  obtain failed | ⟨answer, ok, done⟩ := after_cases config s now operation
  · exact failed
  · obtain ⟨item, fenced⟩ | nothing :=
      perform_fenced sound.consistent sound.settled presented ok
    · exact absurd stale
        ((leasing_of_reachable run).not_stale sound.consistent.items given fenced)
    · have jobs : operation.halfApplied s.halfApplied = s.halfApplied := by
        cases operation <;> first | rfl | cases presented
      rw [done, nothing, jobs]
      simp

/-! ## Settled work -/

theorem settled_after (sound : Sound s.db) (mem : item ∈ s.db.workItems)
    (settled : item.state = .done ∨ item.state = .cancelled) :
    item ∈ (s.after config now operation).db.workItems := by
  have kept : ∀ db, Unclaimed s.db db → item ∈ db.workItems := by
    intro db unclaimed
    obtain ⟨item', there, later⟩ := unclaimed.kept item mem
    exact later.settled settled ▸ there
  obtain failed | ⟨answer, ok, done⟩ := after_cases config s now operation
  · rw [failed]
    exact mem
  · rw [done]
    cases given : answer.lease with
    | none => exact kept _ (unclaimed_of_perform sound ok given)
    | some lease =>
      obtain ⟨-, owner, id, -, claimed⟩ := perform_claims given ok
      obtain ⟨expires, keeps⟩ := unclaimed_failExpired s.db now id
      generalize answer.db = db' at claimed
      cases claimed with
      | lease granted claimable =>
        -- the granted item was pending or running
        refine (mem_grant (keeps sound.consistent.items) granted rfl).mpr
          (.inr ⟨kept _ expires, fun same => ?_⟩)
        rw [← (keeps sound.consistent.items).eq_of_key (kept _ expires) granted same] at claimable
        obtain done | cancelled := settled
        · simp [Database.claimable, done] at claimable
        · simp [Database.claimable, cancelled] at claimable

theorem settled_of_path (run : (store config opened).Reachable Forward s)
    (path : (store config opened).Path Forward s s') (mem : item ∈ s.db.workItems)
    (settled : item.state = .done ∨ item.state = .cancelled) :
    item ∈ s'.db.workItems := by
  induction path with
  | refl => exact mem
  | tail before next ih =>
    obtain ⟨label, -, rfl⟩ := next
    exact settled_after (sound_of_reachable (run.path before)) ih settled

/-! ## Safety -/

/-- Safety of the work queue, while the clock does not go back: the leases that run are within the
limits of the configuration at every later time, a completion or failure under a stale lease
changes nothing, done and cancelled items stay as they are, the work of an item is completed at most
once, and no item is attempted too often. -/
theorem work_queue_is_safe (run : (store config opened).Reachable Forward s) :
    (∀ now, s.clock ≤ now →
      held now (fun _ => true) s.db.workItems ≤ config.maxConcurrentLoops ∧
      ∀ projectId,
        held now (ofSort projectId .extract) s.db.workItems ≤ config.maxExtractionLoopsPerProject ∧
        held now (ofSort projectId .consolidate) s.db.workItems ≤ 1) ∧
    (∀ lease ∈ s.leases, ∀ now operation, operation.lease = some lease → Stale s now lease →
      s.after config now operation = { s with clock := now }) ∧
    (∀ s', (store config opened).Path Forward s s' → ∀ item ∈ s.db.workItems,
      item.state = .done ∨ item.state = .cancelled → item ∈ s'.db.workItems) ∧
    (s.completions.map fun c => c.lease.id).Nodup ∧
    (∀ c ∈ s.completions, ∃ item ∈ s.db.workItems, item.id = c.lease.id ∧ item.state = .done) ∧
    ∀ item ∈ s.db.workItems, item.attempts ≤ config.maxAttempts := by
  have leasing := leasing_of_reachable run
  refine ⟨fun now forward => ?_, fun lease given now operation => after_of_stale run given,
    fun s' path item => settled_of_path run path, leasing.once, leasing.finished,
    fun item member => (leasing.attempts item member).1⟩
  have limits := leasing.limits.later (sound_of_reachable run).consistent.items forward
  exact ⟨limits.total, fun projectId => ⟨limits.extraction projectId, limits.consolidation projectId⟩⟩

end

def turnIngested : State :=
  @State.after Plain.environment Plain.config (.empty 0) 1
    (.ingest (Plain.turn "receipt" "p" "turn" none))

def turnClaimed : State :=
  @State.after Plain.environment Plain.config turnIngested 2 (.claim "worker" none)

theorem claimed_turn_is_safe :
    turnClaimed.db.workItems.map (fun item => (item.id, item.state, item.attempts)) =
      [(1, .running, 1)] ∧
    held 2 (ofSort "p" .extract) turnClaimed.db.workItems = 1 ∧
    (∀ lease ∈ turnClaimed.leases, ∀ now operation, operation.lease = some lease →
      Stale turnClaimed now lease →
      @State.after Plain.environment Plain.config turnClaimed now operation =
        { turnClaimed with clock := now }) := by
  have first : (0 : Int) ≤ 1 := by decide
  have second : (1 : Int) ≤ 2 := by decide
  have run : (@store Plain.environment Plain.config 0).Reachable Forward turnClaimed :=
    @reachable_after Plain.environment _ _ _ _
      (@reachable_after Plain.environment _ _ _ _ .start 1 _ first) 2
      (.claim "worker" none) second
  exact ⟨by decide +kernel, by decide +kernel,
    (@work_queue_is_safe Plain.environment _ _ _ run).2.1⟩

end Agentix.MemoryStore

/-! # Intakes

The intake of sources does not depend on the order of the receipts.
-/

namespace Agentix.MemoryStore

open Lib List

section

variable [Environment] {receipts one other : List Source} {bound : Option String}

theorem ingestAll_holds (coherent : Coherent receipts) (nodup : receipts.Nodup)
    (ours : ∀ x ∈ receipts, bound.all fun instance_ => instance_ = x.instanceId)
    (every : ∀ x, x ∈ one ↔ x ∈ receipts) :
    ∃ store, SourceStore.ingestAll { db := { sourceInstance := bound } } one = .ok store ∧
      Holds receipts store := by
  obtain ⟨store, ran, taken, sources, distinct⟩ := (Taken.empty bound).ingestAll coherent ours
    (fun _ mem => absurd mem not_mem_nil) nodup_nil fun x => (every x).mp
  refine ⟨store, ran, taken.holds coherent nodup distinct fun x => ?_⟩
  rw [sources x, every x]
  exact or_iff_right not_mem_nil

/-- For receipts with identifiers of their own, in which the revisions of a turn differ and have one
Project, two orders in which each occurs leave the same sources, heads, turns and pending work.  The
work is on the parts of the latest revision of each turn, and the parts of a message are bounded,
follow each other and make up its text. -/
theorem intake_is_order_independent (coherent : Coherent receipts) (nodup : receipts.Nodup)
    (ours : ∀ x ∈ receipts, bound.all fun instance_ => instance_ = x.instanceId)
    (every : ∀ x, x ∈ one ↔ x ∈ receipts) (every' : ∀ x, x ∈ other ↔ x ∈ receipts) :
    ∃ left right : SourceStore,
      SourceStore.ingestAll { db := { sourceInstance := bound } } one = .ok left ∧
      SourceStore.ingestAll { db := { sourceInstance := bound } } other = .ok right ∧
      left.db.sources.Perm right.db.sources ∧
      left.db.sourceHeads.Perm right.db.sourceHeads ∧
      left.sourceTurns.Perm right.sourceTurns ∧
      left.db.pendingWork.Perm right.db.pendingWork ∧
      left.db.pendingWork.Perm ((latestSources receipts).flatMap Source.work) ∧
      (∀ x ∈ receipts, ∃ y ∈ latestSources receipts, y.turn = x.turn ∧ x.revision ≤ y.revision) ∧
      ∀ x ∈ latestSources receipts, ∀ message ∈ x.messages,
        Covers message 0 message.text.toList message.parts := by
  obtain ⟨left, ran, holds⟩ := ingestAll_holds coherent nodup ours every
  obtain ⟨right, ran', holds'⟩ := ingestAll_holds coherent nodup ours every'
  refine ⟨left, right, ran, ran', holds.sources.trans holds'.sources.symm,
    holds.sourceHeads.trans holds'.sourceHeads.symm,
    holds.sourceTurns.trans holds'.sourceTurns.symm,
    holds.pendingWork.trans holds'.pendingWork.symm, holds.pendingWork, fun x member => ?_,
    fun _ _ message _ => covers_parts message⟩
  obtain ⟨y, latest, turn⟩ := exists_latest member
  exact ⟨y, latest, turn, (mem_latestSources.mp latest).2 x member turn.symm⟩

end

def oldRevision : Source := Plain.turn "old" "p" "turn" none

def newRevision : Source :=
  { Plain.turn "new" "p" "turn" none with
    revision := 2
    messages := [{ id := "m", role := "user", text := "The server listens on port 9090." }] }

theorem late_revision_changes_nothing :
    latestSources [oldRevision, newRevision] = [newRevision] ∧
    ∃ left right : SourceStore,
      @SourceStore.ingestAll Plain.environment {} [oldRevision, newRevision] = .ok left ∧
      @SourceStore.ingestAll Plain.environment {} [newRevision, oldRevision, newRevision] =
        .ok right ∧
      left.db.pendingWork.Perm right.db.pendingWork ∧
      left.db.pendingWork.Perm ([newRevision].flatMap Source.work) := by
  have latest : latestSources [oldRevision, newRevision] = [newRevision] := by decide +kernel
  have coherent : Coherent [oldRevision, newRevision] :=
    ⟨by decide, by decide, by decide, by decide⟩
  have every : ∀ x, x ∈ [newRevision, oldRevision, newRevision] ↔
      x ∈ [oldRevision, newRevision] := by
    intro x
    simp only [mem_cons, not_mem_nil, or_false]
    rw [or_comm, or_assoc, or_self]
  obtain ⟨left, right, ran, ran', -, -, -, same, work, -, -⟩ :=
    @intake_is_order_independent Plain.environment _ _ _ none coherent (by decide) (by decide)
      (fun _ => Iff.rfl) every
  exact ⟨latest, left, right, ran, ran', same, latest ▸ work⟩

end Agentix.MemoryStore
