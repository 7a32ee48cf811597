import Agentix.MemoryStore.Deciding
import Agentix.MemoryStore.Performing
import Agentix.MemoryStore.Run
import Mathlib.Data.List.MinMax
import Mathlib.Order.Nat

/-! # Facts

Over every run of the memory store, a fact has at most one active version, no active one beside a
conflicted one, and the identity and value that one memory began with.
-/

namespace Agentix.MemoryStore

open Lib
open Lib.System (always)

section

variable [Environment] {config : AgentConfig} {opened : Int}

/-! ## Active versions -/

def Unique (db : Database) : Prop :=
  ∀ a ∈ db.memoryFacts, ∀ b ∈ db.memoryFacts, a.status = .active → b.status = .active →
    a.projectId = b.projectId → a.factKey = b.factKey → a.memoryId = b.memoryId

theorem Unique.save {db db' : Database} {memory : Memory} (unique : Unique db)
    (consistent : Consistent db) (saved : Saved db db' memory) (place : Place db memory) :
    Unique db' := by
  intro a ha b hb activeA activeB project key
  obtain ⟨oldA, otherA⟩ | ⟨idA, projectA, keyA, statusA⟩ := (saved.mem_facts consistent place).mp ha
  · obtain ⟨oldB, otherB⟩ | ⟨idB, projectB, keyB, statusB⟩ :=
      (saved.mem_facts consistent place).mp hb
    · exact unique a oldA b oldB activeA activeB project key
    · have active : memory.status = .active := by rw [← statusB, activeB]
      have same := saved.alone active a oldA (by rw [project, projectB]) (by rw [keyB, key]) activeA
      exact absurd same otherA
  · obtain ⟨oldB, otherB⟩ | ⟨idB, projectB, keyB, statusB⟩ :=
      (saved.mem_facts consistent place).mp hb
    · have active : memory.status = .active := by rw [← statusA, activeA]
      have same := saved.alone active b oldB (by rw [← project, projectA]) (by rw [keyA, key])
        activeB
      exact absurd same otherB
    · rw [idA, idB]

theorem Unique.writes {t : Transaction} {db db' : Database} (unique : Unique db)
    (consistent : Consistent db) (writes : Writes t db db') : Unique db' := by
  induction writes with
  | refl => exact unique
  | tail before write ih =>
    have consistent := consistent.writes before
    cases write with
    | save grounded ok =>
      have saved := saved_of_ok ok
      exact ih.save consistent saved (grounded.place consistent saved)
    | suppress ok =>
      obtain ⟨_, rfl, -⟩ := suppressHistory_of_ok ok
      exact ih
    | observe => exact ih
    | schedule => exact ih
    | add => exact ih
    | change => exact ih
    | frame => exact ih

/-! ## Runs -/

variable {condition : State → Int × Operation → Prop} {s s' : State}

theorem unique_of_reachable (run : (store config opened).Reachable condition s) :
    Unique s.db := by
  induction run with
  | start =>
    intro a none
    cases none
  | @step s s' label before met next unique =>
    cases next
    obtain failed | ⟨answer, ok, done⟩ := after_cases config s label.1 label.2
    · rw [failed]
      exact unique
    · have sound := sound_of_reachable before
      have commits := perform_commits sound.consistent sound.settled sound.sourced ok
      obtain ⟨_, _, _, _, taken⟩ := label.2.intake_eq s.db
      rw [done]
      refine Unique.writes ?_ (sound.consistent.intake label.2) commits.writes
      rw [taken]
      exact unique

theorem versions_of_path (run : (store config opened).Reachable condition s)
    (path : (store config opened).Path condition s s') :
    s.db.memoryVersions ⊆ s'.db.memoryVersions := by
  induction path with
  | refl => exact List.Subset.refl _
  | @tail s₁ s₂ before next ih =>
    obtain ⟨label, -, rfl⟩ := next
    obtain failed | ⟨answer, ok, done⟩ := after_cases config s₁ label.1 label.2
    · rw [failed]
      exact ih
    · have sound := sound_of_reachable (run.path before)
      have commits := perform_commits sound.consistent sound.settled sound.sourced ok
      obtain ⟨_, _, _, _, taken⟩ := label.2.intake_eq s₁.db
      have grown := commits.writes.extends.versions
      rw [taken] at grown
      rw [done]
      exact List.Subset.trans ih grown

/-- One settled version per fact: of a fact in a Project at most one memory is active, none is
active beside a conflicted one, the index of facts has the status and key of every memory, and a
memory keeps the identity and value of its fact. -/
theorem facts_are_settled (run : (store config opened).Reachable always s) :
    (∀ a ∈ s.db.memories, ∀ b ∈ s.db.memories, ∀ key, a.projectId = b.projectId →
      a.content.factKey = some key → b.content.factKey = some key →
      a.status = .active → (b.status = .active → a = b) ∧ b.status ≠ .conflicted) ∧
    (∀ m ∈ s.db.memories, ∀ key, m.content.factKey = some key →
      ⟨m.id, m.projectId, key, m.status⟩ ∈ s.db.memoryFacts) ∧
    (∀ row ∈ s.db.memoryFacts, ∃ m ∈ s.db.memories, row.memoryId = m.id ∧
      row.projectId = m.projectId ∧ m.content.factKey = some row.factKey ∧
      row.status = m.status) ∧
    (∀ s', (store config opened).Path always s s' →
      ∀ v, v ∈ s.db.memories ∨ v ∈ s.db.memoryVersions → ∀ fact, v.content.fact = some fact →
        ∃ m ∈ s'.db.memories, m.id = v.id ∧ m.content.factKey = some fact.key ∧
          m.content.factValue = some fact.value) := by
  have sound := sound_of_reachable run
  have row : ∀ m ∈ s.db.memories, ∀ key, m.content.factKey = some key →
      ⟨m.id, m.projectId, key, m.status⟩ ∈ s.db.memoryFacts := by
    intro m member key keyed
    obtain ⟨fact, present, -⟩ := Option.map_eq_some_iff.mp keyed
    obtain ⟨row, here, of⟩ := sound.consistent.factRow m member fact present
    obtain ⟨owner, there, id, project, own, status⟩ := sound.consistent.indexed row here
    have same := sound.consistent.memory_eq there member (by rw [← id, of])
    subst same
    rw [keyed, Option.some.injEq] at own
    have shape : row = ⟨owner.id, owner.projectId, key, owner.status⟩ := by
      rw [← id, ← project, own, ← status]
    exact shape ▸ here
  refine ⟨fun a ha b hb key project keyA keyB active => ⟨fun activeB => ?_, fun conflicted => ?_⟩,
    row, sound.consistent.indexed, fun s' path v recorded fact present => ?_⟩
  · have same := unique_of_reachable run _ (row a ha key keyA) _ (row b hb key keyB) active activeB
      project rfl
    exact sound.consistent.memory_eq ha hb same
  · have unsettled := unsettled_iff.mpr
      ⟨⟨_, row a ha key keyA, rfl, rfl, active⟩, ⟨_, row b hb key keyB, project.symm, rfl, conflicted⟩⟩
    rw [sound.settled] at unsettled
    cases unsettled
  · have sound' := sound_of_reachable (run.path path)
    have version : v ∈ s.db.memoryVersions := by
      obtain current | version := recorded
      · exact sound.consistent.written v current
      · exact version
    obtain ⟨m, here, follows⟩ := sound'.consistent.current v (versions_of_path run path version)
    exact ⟨m, here, follows.id, follows.fact fact present⟩

end

/-- The port of a server, as somebody noted it. -/
def portNote : MemoryInput where
  fact := some { entity := "server", factAttribute := "port", qualifiers := [], value := "8080" }
  title := "Port"
  conclusion := "The server listens on port 8080."
  rationale := ""
  scope := "server"
  tags := []
  kind := .observation
  evidence := []

def portNoted : State :=
  @State.after Plain.environment Plain.config (.empty 0) 1 (.create "p" portNote .human "a")

theorem noted_port_is_settled :
    portNoted.db.memories.map (fun m => (m.id, m.status)) = [("a", .active)] ∧
    (∀ row ∈ portNoted.db.memoryFacts, ∃ m ∈ portNoted.db.memories, row.memoryId = m.id ∧
      row.projectId = m.projectId ∧
      @MemoryInput.factKey Plain.environment m.content = some row.factKey ∧
      row.status = m.status) := by
  have run : (@store Plain.environment Plain.config 0).Reachable always portNoted :=
    @reachable_after Plain.environment _ _ _ _ .start _ _ trivial
  exact ⟨by decide +kernel, (@facts_are_settled Plain.environment _ _ _ run).2.2.1⟩

end Agentix.MemoryStore

/-! # Consolidations and their own writes -/

namespace Agentix.MemoryStore

open Lib List
open Lib.System (always)

section

variable [Environment]

/-! ## Revisions that are raised -/

def storedRevision (versions : List Memory) (id : String) : Nat :=
  ((versions.filter fun v => v.id = id).map Memory.revision).foldr max 0

def Raises (versions written : List Memory) : Prop :=
  ∀ before m after, written = before ++ m :: after →
    m.revision = storedRevision (versions ++ before) m.id + 1

section Raising

variable {db db' : Database} {memory : Memory} {t : Transaction}

theorem Place.raises (place : Place db memory) (consistent : Consistent db) :
    memory.revision = storedRevision db.memoryVersions memory.id + 1 := by
  cases place with
  | new revision free =>
    have none_stored : (db.memoryVersions.filter fun v => v.id = memory.id) = [] := by
      rw [filter_eq_nil_iff]
      intro v known
      obtain ⟨m, mem, follows⟩ := consistent.current v known
      simpa [← follows.id] using free m mem
    rw [storedRevision, none_stored, revision]
    rfl
  | after mem id project revision =>
    rename_i prior
    have last : storedRevision db.memoryVersions memory.id = prior.revision := by
      refine Nat.le_antisymm (max_le_of_forall_le _ _ fun n stored => ?_)
        (le_max_of_le (x := prior.revision) ?_ (Nat.le_refl _))
      · obtain ⟨v, here, rfl⟩ := mem_map.mp stored
        obtain ⟨known, same⟩ := mem_filter.mp here
        obtain ⟨m, there, follows⟩ := consistent.current v known
        rw [decide_eq_true_eq] at same
        have equal := consistent.memory_eq there mem (by rw [follows.id, same, id])
        exact equal ▸ follows.revision
      · refine mem_map_of_mem (mem_filter.mpr ⟨consistent.written prior mem, ?_⟩)
        rw [decide_eq_true_eq, id]
    rw [last, revision]

theorem Writes.raises (consistent : Consistent db) (writes : Writes t db db') :
    ∃ written, db'.memoryVersions = db.memoryVersions ++ written ∧
      Raises db.memoryVersions written := by
  induction writes with
  | refl => exact ⟨[], by simp, fun before m after same => by simp at same⟩
  | @tail middle last earlier write ih =>
    obtain ⟨written, versions, raises⟩ := ih
    cases write with
    | save grounded ok =>
      rename_i memory
      have saved := saved_of_ok ok
      have between := consistent.writes earlier
      have raised := (grounded.place between saved).raises between
      refine ⟨written ++ [memory], ?_, fun before m after split => ?_⟩
      · rw [saved.tables]
        simp [versions]
      · obtain ⟨-, rfl, rfl⟩ | ⟨after', -, earlier⟩ := split_snoc split
        · rw [← versions]
          exact raised
        · exact raises before m after' earlier
    | suppress ok =>
      obtain ⟨suppressions, rfl, -⟩ := suppressHistory_of_ok ok
      exact ⟨written, versions, raises⟩
    | observe | schedule | add | change | frame => exact ⟨written, versions, raises⟩

end Raising

/-! ## Memories that are conflicted by then -/

/-- The memory is conflicted in the store, or an earlier decision of the proposal makes it so. -/
def conflictedBy (base : Database) (before : List ConsolidationDecision) (id : String) : Bool :=
  ((base.memory id).any fun m => m.status = .conflicted) || before.any fun d => d.marks id

/-- A decision has one related conflict at most, or is settled against a conflicted memory. -/
def Apart (base : Database) (before : List ConsolidationDecision)
    (decision : ConsolidationDecision) : Prop :=
  countConflicts decision.related ≤ 1 ∨ decision.action = .conflict ∨
    decision.action = .merge ∧ ∃ id, decision.target = some id ∧ conflictedBy base before id = true

/-- The decisions of the proposal, each after the ones before it. -/
def AllApart (base : Database) (before decisions : List ConsolidationDecision) : Prop :=
  ∀ earlier decision later, decisions = earlier ++ decision :: later →
    Apart base (before ++ earlier) decision

section Decisions

variable {t : Transaction} {ids : Nat → String} {p p' : Progress} {lease : WorkLease} {now : Int}
  {candidates : List MemoryInput} {indices : List Nat} {before decisions : List ConsolidationDecision}
  {decision : ConsolidationDecision} {base db' : Database} {changed : List Memory}

/-- The statuses of the rows follow the decisions. -/
def Disputed (base : Database) (before : List ConsolidationDecision) (p : Progress) : Prop :=
  ∀ m ∈ p.db.memories, (∃ b ∈ base.memories, b.id = m.id) → m.status.searchable = true →
    (m.status = .conflicted ↔ conflictedBy base before m.id = true)

theorem Disputed.start (consistent : Consistent base) : Disputed base [] { db := base } := by
  intro m mem _ _
  simp [conflictedBy, consistent.memory_of_mem mem]

omit [Environment] in
theorem conflictedBy_snoc {id : String} : conflictedBy base (before ++ [decision]) id = true ↔
    conflictedBy base before id = true ∨ decision.marks id = true := by
  simp [conflictedBy, or_assoc]

omit [Environment] in
theorem Disputed.moved (tracked : Disputed base before p) (unused : Unused base ids)
    (moves : Moves ids (fun id => decision.marks id = true) p p') :
    Disputed base (before ++ [decision]) p' := by
  rintro m' mem ⟨b, here, same⟩ searchable
  obtain ⟨n, -, -, drawn⟩ | ⟨m, there, id, spec⟩ := moves.rows m' mem
  · exact absurd (same.trans drawn) (unused.free n b here)
  · obtain ⟨alive, iff⟩ := spec searchable
    rw [iff, tracked m there ⟨b, here, same.trans id.symm⟩ alive, id, conflictedBy_snoc]

section Step

variable (ready : Ready t ids [] p) (unused : Unused t.base ids) (named : Named t ids decision)
  (tracked : Disputed t.base before p)
include ready unused named tracked

theorem apart_of_ok (ok : applyDecision lease ids now candidates indices p decision = .ok p') :
    Apart t.base before decision := by
  obtain few | conflict | ⟨merge, m, mem, targeted, searchable, conflicted⟩ :=
    (applyDecision_moves ready unused named ok).2
  · exact .inl few
  · exact .inr (.inl conflict)
  · refine .inr (.inr ⟨merge, m.id, targeted, ?_⟩)
    obtain based | ⟨n, -, drawn⟩ := ready.drawn m mem
    · exact (tracked m mem based searchable).mp conflicted
    · exact absurd (drawn ▸ targeted) (named.target n)

theorem checked_of_apart (apart : Apart t.base before decision) :
    Checked (applyDecision lease ids now candidates indices p decision) := by
  refine checked_applyDecision ready unused named ?_
  obtain few | conflict | ⟨merge, id, targeted, conflicted⟩ := apart
  · exact .inl few
  · exact .inr (.inl conflict)
  · refine .inr (.inr ⟨merge, fun m mem same searchable => ?_⟩)
    obtain rfl : id = m.id := Option.some.inj (targeted.symm.trans same)
    obtain based | ⟨n, -, drawn⟩ := ready.drawn m mem
    · exact (tracked m mem based searchable).mpr conflicted
    · exact absurd (drawn ▸ targeted) (named.target n)

end Step

omit [Environment] in
theorem allApart_cons : AllApart base before (decision :: decisions) ↔
    Apart base before decision ∧ AllApart base (before ++ [decision]) decisions := by
  constructor
  · intro all
    refine ⟨?_, fun earlier d later split => ?_⟩
    · have first := all [] decision decisions rfl
      rwa [append_nil] at first
    · have further := all (decision :: earlier) d later (by rw [split]; rfl)
      rwa [append_assoc]
  · rintro ⟨first, others⟩ earlier d later split
    cases earlier with
    | nil =>
      obtain ⟨rfl, -⟩ := cons.inj split
      rwa [append_nil]
    | cons head earlier =>
      obtain ⟨rfl, tail⟩ := cons.inj split
      have further := others earlier d later tail
      rwa [append_assoc] at further

theorem allApart_of_ok (ready : Ready t ids [] p) (unused : Unused t.base ids)
    (named : ∀ d ∈ decisions, Named t ids d) (tracked : Disputed t.base before p)
    (ok : applyDecisions lease ids now candidates indices decisions p = .ok p') :
    AllApart t.base before decisions := by
  induction decisions generalizing p indices before with
  | nil =>
    intro earlier d later split
    simp at split
  | cons decision rest ih =>
    simp only [applyDecisions, bind_ok] at ok
    obtain ⟨middle, applied, others⟩ := ok
    have here := named decision mem_cons_self
    have moves := (applyDecision_moves ready unused here applied).1
    refine allApart_cons.mpr ⟨apart_of_ok ready unused here tracked applied, ?_⟩
    exact ih (ready.moved (applyDecision_of_ok ready.stage applied) moves)
      (fun d mem => named d (mem_cons_of_mem _ mem)) (tracked.moved unused moves) others

theorem checked_applyDecisions (ready : Ready t ids [] p) (unused : Unused t.base ids)
    (named : ∀ d ∈ decisions, Named t ids d) (tracked : Disputed t.base before p)
    (apart : AllApart t.base before decisions) :
    Checked (applyDecisions lease ids now candidates indices decisions p) := by
  induction decisions generalizing p indices before with
  | nil => exact .ok
  | cons decision rest ih =>
    obtain ⟨first, others⟩ := allApart_cons.mp apart
    have here := named decision mem_cons_self
    refine .bind (checked_of_apart ready unused here tracked first) fun middle applied => ?_
    have moves := (applyDecision_moves ready unused here applied).1
    exact ih (ready.moved (applyDecision_of_ok ready.stage applied) moves)
      (fun d mem => named d (mem_cons_of_mem _ mem)) (tracked.moved unused moves) others

/-! ## Whole proposals -/

/-- The identifiers that are drawn are new to the store and to the proposal. -/
structure Fresh (db : Database) (decisions : List ConsolidationDecision) (ids : Nat → String) : Prop
    where
  unused : Unused db ids
  unnamed : ∀ n, ∀ d ∈ decisions, d.target ≠ some (ids n)

omit [Environment] in
/-- The related memories of the proposal are those that its snapshot found. -/
theorem Fresh.named (fresh : Fresh t.base decisions ids) (snapshot :
      (decisions.flatMap ConsolidationDecision.related).forM
        (validateSnapshot t.base lease.projectId) = .ok ()) :
    ∀ d ∈ decisions, Named t ids d := by
  have found : ∀ related : List RelatedDecision,
      related.forM (validateSnapshot t.base lease.projectId) = .ok () →
        ∀ r ∈ related, ∃ m ∈ t.base.memories, m.id = r.id := by
    intro related
    induction related with
    | nil => exact fun _ r none_related => absurd none_related not_mem_nil
    | cons first rest ih =>
      intro validated r mem
      have unfolded : validateSnapshot t.base lease.projectId first >>=
          (fun _ => rest.forM (validateSnapshot t.base lease.projectId)) = .ok () := validated
      simp only [bind_ok] at unfolded
      obtain ⟨⟨⟩, here, others⟩ := unfolded
      obtain rfl | later := mem_cons.mp mem
      · simp only [validateSnapshot, bind_ok] at here
        obtain ⟨prior, loaded, -⟩ := here
        obtain ⟨known, -, id⟩ := mem_of_load loaded
        exact ⟨prior, known, id⟩
      · exact ih others r later
  intro d mem
  refine ⟨fun r related => found _ snapshot r ?_, fun n => fresh.unnamed n d mem⟩
  exact mem_flatMap.mpr ⟨d, mem, related⟩

theorem applied_of_ok (ok : base.completeConsolidation lease decisions now ids = .ok (changed, db')) :
    (decisions.flatMap ConsolidationDecision.related).forM
        (validateSnapshot base lease.projectId) = .ok () ∧
      ∃ candidates p, applyDecisions lease ids now candidates [] decisions { db := base } = .ok p ∧
        db'.memoryVersions = p.db.memoryVersions := by
  simp only [Database.completeConsolidation, bind_ok, ensure_ok, pure_ok,
    Prod.mk.injEq] at ok
  obtain ⟨⟨⟩, -, candidates, -, ⟨⟩, -, ⟨⟩, -, ⟨⟩, -, ⟨⟩, snapshot, p, applied, ⟨⟩, -,
    observed, observe, -, rfl⟩ := ok
  refine ⟨snapshot, candidates, p, applied, ?_⟩
  have observes : ∀ (rows : List Memory) (db : Database),
      (rows.foldl (Database.observed now) db).memoryVersions = db.memoryVersions := by
    intro rows
    induction rows with
    | nil => exact fun _ => rfl
    | cons m rest ih => exact fun db => ih (db.observed now m)
  unfold Database.observeChanged at observe
  split at observe
  · simp only [bind_ok, pure_ok] at observe
    obtain ⟨current, -, rfl⟩ := observe
    exact observes _ _
  · cases observe
    exact observes _ _

section Proposals

-- the limits of the configuration play no part in the transaction
variable (config : AgentConfig)
include config

theorem ready_of_sound (sound : Sound base) :
    Ready { config, now, base } ids [] { db := base } :=
  ⟨.begin sound.consistent sound.settled, fun m mem => .inl ⟨m, mem, rfl⟩⟩

theorem checked_completeConsolidation (sound : Sound base) (fresh : Fresh base decisions ids)
    (apart : AllApart base [] decisions) :
    Checked (base.completeConsolidation lease decisions now ids) := by
  refine .bind (.ensure (by decide)) fun _ _ => .bind checked_candidates fun candidates _ =>
    .bind (.ensure (by decide)) fun _ _ => .bind checked_fence fun _ _ =>
    .bind checked_validateSeed fun _ _ =>
    .bind (.forM fun _ => checked_validateSnapshot) fun _ snapshot => .bind ?_ fun _ _ =>
    .bind checked_checkSettled fun _ _ => .bind checked_observeChanged fun _ _ => .ok
  have ready : Ready { config, now, base } ids [] { db := base } := ready_of_sound config sound
  have named : ∀ d ∈ decisions, Named { config, now, base } ids d := Fresh.named fresh snapshot
  exact checked_applyDecisions ready fresh.unused named (.start sound.consistent) apart

theorem allApart_of_commit (sound : Sound base) (fresh : Fresh base decisions ids)
    (ok : base.completeConsolidation lease decisions now ids = .ok (changed, db')) :
    AllApart base [] decisions ∧ ∃ written, db'.memoryVersions = base.memoryVersions ++ written ∧
      Raises base.memoryVersions written := by
  obtain ⟨snapshot, candidates, p, applied, versions⟩ := applied_of_ok ok
  have ready : Ready { config, now, base } ids [] { db := base } := ready_of_sound config sound
  have named : ∀ d ∈ decisions, Named { config, now, base } ids d := Fresh.named fresh snapshot
  refine ⟨allApart_of_ok ready fresh.unused named (.start sound.consistent) applied, ?_⟩
  rw [versions]
  exact Writes.raises sound.consistent (applyDecisions_of_ok ready.stage applied).stage.writes

end Proposals

end Decisions

theorem consolidation_commits {config : AgentConfig} {opened : Int} {s : State}
    (run : (store config opened).Reachable always s) (lease : WorkLease)
    (decisions : List ConsolidationDecision) (now : Int) (ids : Nat → String)
    (fresh : Fresh s.db decisions ids)
    (passes : ∀ message, s.db.completeConsolidation lease decisions now ids = .error message →
      message = versionTaken) :
    (∃ changed db', s.db.completeConsolidation lease decisions now ids = .ok (changed, db') ∧
      ∃ written, db'.memoryVersions = s.db.memoryVersions ++ written ∧
        Raises s.db.memoryVersions written) ↔ AllApart s.db [] decisions := by
  have sound := sound_of_reachable run
  constructor
  · rintro ⟨changed, db', ok, -⟩
    exact (allApart_of_commit config sound fresh ok).1
  · intro apart
    cases result : s.db.completeConsolidation lease decisions now ids with
    | error message =>
      have checked : Checked (s.db.completeConsolidation lease decisions now ids) :=
        checked_completeConsolidation config sound fresh apart
      rw [result] at checked
      exact absurd (congrArg Except.error (passes message result)) checked
    | ok done =>
      obtain ⟨changed, db'⟩ := done
      exact ⟨changed, db', rfl, (allApart_of_commit config sound fresh result).2⟩

end

/-! ## A candidate that contradicts what is known -/

def noteExtraction : WorkLease where
  id := 1
  projectId := "p"
  receiptId := "receipt"
  kind := .extract
  payload := .message "m" "user" "The server listens on port 8080." 0 none
  generation := 1
  owner := "worker"
  leaseUntil := 304

def noteConsolidation : WorkLease where
  id := 2
  projectId := "p"
  receiptId := "receipt"
  kind := .consolidate
  payload := .candidates [Plain.note "receipt"]
  generation := 1
  owner := "worker"
  leaseUntil := 306

/-- Two memories, and the lease of a candidate. -/
def twoNoted : State :=
  Plain.run [
    (1, .ingest (Plain.turn "receipt" "p" "turn" none)),
    (2, .create "p" (Plain.note "receipt") .agent "a"),
    (3, .create "p" (Plain.note "receipt") .agent "b"),
    (4, .claim "worker" none),
    (5, .completeExtraction noteExtraction [Plain.note "receipt"]),
    (6, .claim "worker" none)]

def contradicting (memories : List String) : ConsolidationDecision where
  candidate := 0
  action := .create
  target := none
  expectedRevision := none
  content := none
  reason := "new"
  related := memories.map fun id => ⟨id, 1, .conflict, "contradicts", none, none⟩

def newIds (n : Nat) : String := String.ofList (replicate (n + 1) 'x')

def contradictionOf (memories : List String) : Fallible (List Memory × Database) :=
  @Database.completeConsolidation Plain.environment twoNoted.db noteConsolidation
    [contradicting memories] 7 newIds

example : twoNoted.db.memories.map Memory.id = ["a", "b"] := by decide +kernel

theorem contradiction_commits : ∃ changed db', contradictionOf ["a"] = .ok (changed, db') ∧
    ∃ written, db'.memoryVersions = twoNoted.db.memoryVersions ++ written ∧
      Raises twoNoted.db.memoryVersions written := by
  have fresh : Fresh twoNoted.db [contradicting ["a"]] newIds := by
    refine ⟨⟨fun n k same => ?_, fun n m member same => ?_⟩, fun n d member => ?_⟩
    · have lengths := congrArg (fun id => id.toList.length) same
      simpa [newIds] using lengths
    · have known : ∀ m ∈ twoNoted.db.memories, 'x' ∉ m.id.toList := by decide +kernel
      exact known m member (by simp [same, newIds])
    · rw [mem_singleton.mp member]
      exact fun absent => by cases absent
  have passes : failure (contradictionOf ["a"]) = none := by decide +kernel
  have apart : AllApart twoNoted.db [] [contradicting ["a"]] := by
    intro earlier d later split
    have member : d ∈ [contradicting ["a"]] := by simp [split]
    rw [mem_singleton.mp member]
    exact .inl (by decide)
  have run : (@store Plain.environment Plain.config 0).Reachable always twoNoted :=
    Plain.reachable_run _
  refine (@consolidation_commits Plain.environment Plain.config 0 twoNoted run
    noteConsolidation [contradicting ["a"]] 7 newIds fresh fun message failed => ?_).mpr apart
  have refused : failure (contradictionOf ["a"]) = some message := failure_eq_some.mpr failed
  rw [passes] at refused
  cases refused

/-- One candidate that contradicts two memories, each of which it may contradict alone. -/
theorem second_contradiction_fails :
    (@store Plain.environment Plain.config 0).Reachable always twoNoted ∧
      (∃ done, contradictionOf ["a"] = .ok done) ∧ (∃ done, contradictionOf ["b"] = .ok done) ∧
      contradictionOf ["a", "b"] = .error versionTaken :=
  ⟨Plain.reachable_run _, failure_eq_none.mp (by decide +kernel),
    failure_eq_none.mp (by decide +kernel), failure_eq_some.mp (by decide +kernel)⟩

end Agentix.MemoryStore
