import Agentix.MemoryStore.Dirty
import Agentix.MemoryStore.History
import Agentix.MemoryStore.Run

/-! # Compaction

Over the runs in which no newer revision of a turn ends the compaction of a current memory, no
revision is lost that waits for its compaction.
-/

namespace Agentix.MemoryStore

open Lib
open Lib.System (always)

section

variable [Environment] {config : AgentConfig} {opened now : Int} {s : State} {operation : Operation}
  {answer : Answer} {m : Memory}

variable {db : Database}

/-- The clock does not go back, a worker presents a lease it was given, and no newer revision of a
turn ends the work on the current revision of a memory. -/
def Spares (s : State) (label : Int × Operation) : Prop :=
  Orderly s label ∧ ∀ source, label.2 = .ingest source → ∀ item, Superseded s.db source item →
    ∀ m ∈ s.db.memories, ¬ Seeds item m

/-- The revisions that completed work has seen. -/
def observations (s : State) : List (String × Nat) :=
  s.completions.flatMap Completion.observed

/-! ## Work that is ended -/

omit [Environment] in
theorem not_forged (leasing : Leasing config s) {lease : WorkLease} (given : lease ∈ s.leases)
    (kept : ∀ item ∈ s.db.workItems, ∃ item' ∈ db.workItems, SameWork item item')
    (distinct : Distinct WorkItem.id db.workItems) {item old : WorkItem}
    (listed : item ∈ db.workItems) (same : SameWork old item) : ¬ Forged lease old := by
  rintro ⟨id, other⟩
  obtain ⟨granted, here, grants⟩ := leasing.granted lease given
  obtain ⟨granted', there, same'⟩ := kept granted here
  have equal := distinct.eq_of_key listed there (by rw [same.id, same'.id, id, grants.id])
  subst equal
  refine other (Prod.mk.injEq .. ▸ ⟨?_, ?_⟩)
  · rw [← same.kind, same'.kind, grants.kind]
  · rw [← same.payload, same'.payload, grants.payload]

theorem current_before (consistent : Consistent s.db) (consistent' : Consistent db)
    (grown : Grown s.db db) (known : m ∈ s.db.memoryVersions) (mem : m ∈ db.memories) :
    ∃ m' ∈ s.db.memories, revisionOf m' = revisionOf m := by
  obtain ⟨m', here, follows⟩ := consistent.current m known
  have bound := consistent'.revision_le (grown.versions (consistent.written m' here)) mem
    follows.id
  have order := follows.revision
  refine ⟨m', here, ?_⟩
  rw [revisionOf, revisionOf, follows.id]
  congr 1
  omega

theorem not_revoked {projectId jobId : String} (consistent : Consistent db)
    (cleared : Cleared projectId jobId db) (mem : m ∈ db.memories)
    (searchable : m.status.searchable) {item : WorkItem} (listed : item ∈ db.workItems)
    (seeds : Seeds item m) : db.boundTo projectId jobId item.receiptId = false := by
  obtain ⟨-, e, cited, receipt⟩ := seeds.cites consistent listed mem
  rw [← receipt]
  exact cleared.memories m mem searchable e cited

theorem fresh_of_ingest {source : Source}
    (ok : (Operation.ingest source).perform config now s.db = .ok answer)
    (changed : answer.db ≠ s.db) : s.db.source source.receiptId = none := by
  simp only [Operation.perform, Database.ingest, bind_ok, pure_ok] at ok
  obtain ⟨⟨fresh, db'⟩, ⟨⟨⟩, -, ⟨⟩, -, ⟨⟩, -, taken⟩, rfl⟩ := ok
  cases found : s.db.source source.receiptId with
  | none => rfl
  | some existing =>
    simp only [found, bind_ok, pure_ok] at taken
    obtain ⟨⟨⟩, -, done⟩ := taken
    cases done
    exact absurd rfl changed

theorem not_dropped (leasing : Leasing config s) (sound : Sound s.db)
    (spares : Spares s (now, operation))
    (ok : operation.perform config now s.db = .ok answer) (changed : answer.db ≠ s.db)
    (mem : m ∈ answer.db.memories) (searchable : m.status.searchable) :
    ¬ Dropped (operation.loses s.db) answer.db m := by
  rintro ⟨item, listed, seeds, old, lost, same⟩
  have commits := perform_commits sound.consistent sound.settled sound.sourced ok
  have consistent' := commits.consistent
  have grown := (grown_intake s.db operation).trans commits.writes.extends.grown
  have bound : ∀ projectId jobId, (operation.intake s.db).boundTo projectId jobId old.receiptId =
      answer.db.boundTo projectId jobId item.receiptId := by
    intro projectId jobId
    rw [same.receipt]
    exact (commits.writes.extends.boundTo _).symm
  obtain ⟨lease, presented, forged⟩ | lost := lost
  · refine not_forged leasing (spares.1.2 lease presented) (fun other here => ?_) consistent'.items
      listed same forged
    refine Writes.sameWork commits.writes other ?_
    show other ∈ (operation.intake s.db).workItems
    rw [(intake_work s.db operation).1]
    exact here
  · cases operation with
    | ingest source =>
      obtain superseded | ⟨c, cancelled, own, theirs⟩ := lost
      · obtain ⟨seeded, -⟩ := seeds.cites consistent' listed mem
        rw [same.payload] at seeded
        obtain ⟨-, known, -⟩ := sound.consistent.scheduled old superseded.1 m seeded
        obtain ⟨m', here, revision⟩ :=
          current_before sound.consistent consistent' grown known mem
        exact spares.2 source rfl old superseded m' here ⟨m, seeded, revision.symm⟩
      · have fresh := fresh_of_ingest ok changed
        simp only [Operation.perform, bind_ok, pure_ok] at ok
        obtain ⟨⟨new, db'⟩, made, rfl⟩ := ok
        have cleared := (ingest_of_ok (t := (Operation.ingest source).transaction config now s.db
          { db := db' }) sound.consistent sound.settled sound.sourced rfl (fun item lost => lost)
          made).2 fresh c cancelled own
        have free := not_revoked consistent' cleared mem searchable listed seeds
        rw [← bound, theirs] at free
        cases free
    | invalidateJob projectId jobId revision cancelledAt =>
      simp only [Operation.perform, Database.invalidateJob, bind_ok, pure_ok] at ok
      obtain ⟨db', made, rfl⟩ := ok
      let call := Operation.invalidateJob projectId jobId revision cancelledAt
      have cleared := (invalidate_of_ok (t := call.transaction config now s.db { db := db' })
        (sound.consistent.intake call) (sound.settled.intake call)
        (fun item _ _ bound => .inr bound) made).2.1
      have free := not_revoked consistent' cleared mem searchable listed seeds
      rw [← bound] at free
      exact absurd lost (by
        change (call.intake s.db).boundTo projectId jobId old.receiptId ≠ true
        rw [free]
        simp)
    | _ => exact lost

/-! ## Runs -/

theorem covered_after (leasing : Leasing config s) (sound : Sound s.db)
    (spares : Spares s (now, operation))
    (covered : Covered s.clock (observations s) (fun _ => False) s.db) :
    Covered now (observations (s.after config now operation)) (fun _ => False)
      (s.after config now operation).db := by
  have forward : s.clock ≤ now := spares.1.1
  obtain failed | ⟨answer, ok, done⟩ := after_cases config s now operation
  · rw [failed]
    exact covered.mono forward (List.Subset.refl _) fun _ never => never
  · have seen : observations s ⊆ observations (s.after config now operation) := by
      rw [done]
      simp [observations]
    have sees : (operation.transaction config now s.db answer).seen ⊆
        observations (s.after config now operation) := by
      rw [done]
      cases completed : answer.completion with
      | none => simp [Operation.transaction, completed]
      | some c => simp [Operation.transaction, observations, completed]
    by_cases changed : answer.db = s.db
    · have same : (s.after config now operation).db = s.db := by rw [done, ← changed]
      rw [same]
      exact covered.mono forward seen fun _ never => never
    · have commits := perform_commits sound.consistent sound.settled sound.sourced ok
      have base : Covered now (observations (s.after config now operation)) (operation.loses s.db)
          (operation.intake s.db) := by
        obtain ⟨_, _, _, _, taken⟩ := operation.intake_eq s.db
        rw [taken]
        exact covered.mono forward seen fun _ never => never.elim
      have written := Covered.writes (t := operation.transaction config now s.db answer) base
        (sound.consistent.intake operation) sees commits.writes
      intro m mem compactable
      have here : m ∈ answer.db.memories := by
        rw [done] at mem
        exact mem
      have searchable : m.status.searchable := by
        simp only [Memory.compactable, Bool.and_eq_true] at compactable
        exact compactable.1.2
      obtain known | tracked | dropped := written m here compactable
      · exact .inl known
      · refine .inr (.inl ?_)
        rw [done]
        exact tracked
      · exact absurd dropped (not_dropped leasing sound spares ok changed here searchable)

theorem covered_of_reachable (run : (store config opened).Reachable Spares s) :
    Covered s.clock (observations s) (fun _ => False) s.db := by
  induction run with
  | start =>
    intro m none
    cases none
  | @step s s' label before spares next covered =>
    cases next
    have run := before.mono fun s label spares => spares.1.1
    have after := covered_after (leasing_of_reachable run) (sound_of_reachable before) spares covered
    have clock : (s.after config label.1 label.2).clock = label.1 := by
      obtain failed | ⟨answer, -, done⟩ := after_cases config s label.1 label.2
      · rw [failed]
      · rw [done]
    rw [clock]
    exact after

/-- No dirty revision is lost: in the runs in which no newer revision of a turn ends the work on the
current revision of a memory, every active or conflicted memory of an agent that has not expired is
dirty or suspended in its current revision, or that revision is the seed of pending or running
compaction work, or completed consolidation work has seen it. -/
theorem no_dirty_revision_is_lost (run : (store config opened).Reachable Spares s) :
    ∀ m ∈ s.db.memories, m.actor = .agent → m.status = .active ∨ m.status = .conflicted →
      m.content.unexpired s.clock →
      (∃ row ∈ s.db.memoryCompactions, row.memoryId = m.id ∧ row.revision = m.revision ∧
        (row.dirty ∨ row.suspended ∨ ∃ item ∈ s.db.workItems, row.workId = some item.id ∧
          item.active ∧ item.payload = .compact m)) ∨
      ∃ c ∈ s.completions, revisionOf m ∈ c.observed := by
  intro m member agent served unexpired
  have consistent := (sound_of_reachable run).consistent
  have searchable : m.status.searchable := by
    obtain active | conflicted := served
    · rw [active]
      rfl
    · rw [conflicted]
      rfl
  have compactable : m.compactable s.clock := by
    simp [Memory.compactable, agent, searchable, unexpired]
  obtain known | ⟨row, listed, of, tracks⟩ | ⟨-, -, -, -, never, -⟩ :=
    covered_of_reachable run m member compactable
  · exact .inr (List.mem_flatMap.mp known)
  · obtain ⟨m', here, of', revision⟩ := consistent.compacts row listed
    have same : m' = m := consistent.memory_eq here member (by rw [← of', of])
    refine .inl ⟨row, listed, of, by rw [revision, same], ?_⟩
    obtain dirty | suspended | ⟨item, there, refers, active, seeds⟩ := tracks
    · exact .inl dirty
    · exact .inr (.inl suspended)
    · refine .inr (.inr ⟨item, there, refers, active, ?_⟩)
      have seeded := (seeds.cites consistent there member).1
      cases payload : item.payload with
      | compact seed =>
        rw [payload, Payload.seed, Option.some.injEq] at seeded
        rw [seeded]
      | _ =>
        rw [payload] at seeded
        cases seeded
  · exact never.elim

end

/-! ## Revisions that are not compacted -/

/-- A revision that may be compacted is neither dirty nor suspended, and no compaction or review is
pending, running or done. -/
def Unattended (s : State) (m : Memory) : Prop :=
  m.compactable s.clock ∧
  (∀ row ∈ s.db.memoryCompactions, row.memoryId = m.id → ¬ row.dirty ∧ ¬ row.suspended) ∧
  ∀ item ∈ s.db.workItems, item.active ∨ item.state = .done →
    item.payload.seed = none ∧ item.payload.isReview = false

instance (s : State) (m : Memory) : Decidable (Unattended s m) :=
  inferInstanceAs (Decidable (_ ∧ _ ∧ _))

def portFact : MemoryInput :=
  { Plain.note "receipt" with
    fact := some { entity := "server", factAttribute := "port", qualifiers := [], value := "8080" } }

def extraction : WorkLease where
  id := 1
  projectId := "p"
  receiptId := "receipt"
  kind := .extract
  payload := .message "m" "user" "The server listens on port 8080." 0 none
  generation := 1
  owner := "worker"
  leaseUntil := 302

def reconciliation : WorkLease where
  id := 2
  projectId := "p"
  receiptId := "receipt"
  kind := .consolidate
  payload := .candidates [portFact]
  generation := 1
  owner := "worker"
  leaseUntil := 304

/-- A fact that a consolidation of candidates has written. -/
def factReconciled : State :=
  Plain.run [
    (1, .ingest (Plain.turn "receipt" "p" "turn" none)),
    (2, .claim "worker" none),
    (3, .completeExtraction extraction [portFact]),
    (4, .claim "worker" none),
    (5, .completeConsolidation reconciliation
      [{ candidate := 0, action := .create, target := none, expectedRevision := none,
         content := none, reason := "new" }]
      fun _ => "a")]

/-- A compaction that a newer revision of its turn has ended before it began. -/
def compactionSuperseded : State :=
  Plain.run [
    (1, .ingest (Plain.turn "receipt" "p" "turn" none)),
    (2, .create "p" (Plain.note "receipt") .agent "a"),
    (3, .scheduleCompaction "p" "" 10 true 30),
    (4, .ingest { Plain.turn "newer receipt" "p" "turn" none with revision := 2 })]

example : compactionSuperseded.db.memories.map revisionOf = [("a", 1)] := by decide +kernel

theorem revisions_without_compaction :
    ((@store Plain.environment Plain.config 0).Reachable always factReconciled ∧
      factReconciled.leases = [extraction, reconciliation] ∧
      ∃ m ∈ factReconciled.db.memories, Unattended factReconciled m) ∧
    (@store Plain.environment Plain.config 0).Reachable always compactionSuperseded ∧
      ∃ m ∈ compactionSuperseded.db.memories, Unattended compactionSuperseded m :=
  ⟨⟨Plain.reachable_run _, by decide +kernel, by decide +kernel⟩, Plain.reachable_run _,
    by decide +kernel⟩

def turnTaken : State :=
  @State.after Plain.environment Plain.config (.empty 0) 1
    (.ingest (Plain.turn "receipt" "p" "turn" none))

def noteTaken : State :=
  @State.after Plain.environment Plain.config turnTaken 2
    (.create "p" (Plain.note "receipt") .agent "a")

theorem taken_note_is_kept :
    noteTaken.db.memories.map revisionOf = [("a", 1)] ∧
    ∀ m ∈ noteTaken.db.memories, m.actor = .agent → m.status = .active ∨ m.status = .conflicted →
      m.content.unexpired noteTaken.clock →
      (∃ row ∈ noteTaken.db.memoryCompactions, row.memoryId = m.id ∧ row.revision = m.revision ∧
        (row.dirty ∨ row.suspended ∨ ∃ item ∈ noteTaken.db.workItems,
          row.workId = some item.id ∧ item.active ∧ item.payload = .compact m)) ∨
      ∃ c ∈ noteTaken.completions, revisionOf m ∈ c.observed := by
  have first : Spares (.empty 0) (1, .ingest (Plain.turn "receipt" "p" "turn" none)) := by
    refine ⟨⟨by decide, fun lease none => by cases none⟩, fun source _ item superseded => ?_⟩
    cases superseded.1
  have second : Spares turnTaken (2, .create "p" (Plain.note "receipt") .agent "a") := by
    refine ⟨⟨by decide +kernel, fun lease none => by cases none⟩, fun source ingests => ?_⟩
    cases ingests
  have run : (@store Plain.environment Plain.config 0).Reachable Spares noteTaken :=
    @reachable_after Plain.environment _ _ _ _
      (@reachable_after Plain.environment _ _ _ _ .start _ _ first) _ _ second
  exact ⟨by decide +kernel, @no_dirty_revision_is_lost Plain.environment _ _ _ run⟩

/-! ## The books of compaction -/

/-- What the store keeps of the compaction of its memories. -/
structure Booked (db : Database) : Prop where
  rows : Distinct CompactionRow.memoryId db.memoryCompactions
  memories : ∀ m ∈ db.memories, ∃ row ∈ db.memoryCompactions,
    row.memoryId = m.id ∧ row.revision = m.revision
  items : Distinct WorkItem.id db.workItems
  /-- The work that a row refers to is on its memory. -/
  work : ∀ row ∈ db.memoryCompactions, ∀ item ∈ db.workItems, row.workId = some item.id →
    ∃ seed, item.payload.seed = some seed ∧ seed.id = row.memoryId
  /-- What is worked on is a version of a memory, for a receipt that it cites. -/
  seeds : ∀ item ∈ db.workItems, ∀ seed, item.payload.seed = some seed →
    item.kind = .consolidate ∧ seed ∈ db.memoryVersions ∧
      (∃ m ∈ db.memories, m.id = seed.id ∧ m.projectId = seed.projectId ∧
        seed.revision ≤ m.revision) ∧
      ∃ e ∈ seed.content.evidence, e.receiptId = item.receiptId

theorem compactions_are_booked [Environment] {config : AgentConfig} {opened : Int} {s : State}
    (run : (store config opened).Reachable always s) : Booked s.db := by
  have consistent := (sound_of_reachable run).consistent
  constructor
  case rows => exact consistent.compactions
  case memories =>
    intro m mem
    obtain ⟨row, listed, of⟩ := consistent.compacted m mem
    obtain ⟨m', mem', of', revision⟩ := consistent.compacts row listed
    refine ⟨row, listed, of, ?_⟩
    rw [revision, consistent.memory_eq mem' mem (of'.symm.trans of)]
  case items => exact consistent.items
  case work => exact consistent.seeded
  case seeds =>
    intro item mem seed carried
    obtain ⟨kind, version, cited⟩ := consistent.scheduled item mem seed carried
    obtain ⟨m, mem', follows⟩ := consistent.current seed version
    exact ⟨kind, version, ⟨m, mem', follows.id, follows.project, follows.revision⟩, cited⟩

theorem ended_compaction_is_booked :
    (∃ item ∈ compactionSuperseded.db.workItems, item.payload.seed.isSome = true) ∧
      Booked compactionSuperseded.db :=
  ⟨by decide +kernel, @compactions_are_booked Plain.environment _ _ _ (Plain.reachable_run _)⟩

end Agentix.MemoryStore
