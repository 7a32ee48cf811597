import Agentix.MemoryStore.History
import Agentix.MemoryStore.Run

/-! # Forgotten evidence

Over every run of the memory store, what is forgotten in a Project stays forgotten there.
-/

namespace Agentix.MemoryStore

open Lib
open Lib.System (always)

section

variable [Environment] {config : AgentConfig} {opened : Int} {s s' : State}

/-- A version cites a message, as a tombstone identifies it. -/
def Cites (db : Database) (v : Memory) (identity : EvidenceIdentity) : Prop :=
  ∃ e ∈ v.content.evidence,
    (db.quoted v.projectId e).toOption.map Database.evidenceIdentity = some identity

instance (db : Database) (v : Memory) (identity : EvidenceIdentity) :
    Decidable (Cites db v identity) :=
  inferInstanceAs (Decidable (∃ e ∈ v.content.evidence,
    (db.quoted v.projectId e).toOption.map Database.evidenceIdentity = some identity))

omit [Environment] in
theorem cites_iff {db : Database} {v : Memory} {identity : EvidenceIdentity} :
    Cites db v identity ↔ ∃ e ∈ v.content.evidence, ∃ quotation,
      db.quoted v.projectId e = .ok quotation ∧
        Database.evidenceIdentity quotation = identity := by
  refine exists_congr fun e => and_congr_right fun _ => ?_
  cases db.quoted v.projectId e <;> simp [Except.toOption]

theorem Consistent.same_project {db : Database} (consistent : Consistent db) {v w : Memory}
    (first : v ∈ db.memoryVersions) (second : w ∈ db.memoryVersions) (same : v.id = w.id) :
    v.projectId = w.projectId := by
  obtain ⟨m, mem, follows⟩ := consistent.current v first
  obtain ⟨m', mem', follows'⟩ := consistent.current w second
  have equal := consistent.memory_eq mem mem' (by rw [follows.id, follows'.id, same])
  rw [← follows.project, ← follows'.project, equal]

/-- What a forgotten memory cites is suppressed in its Project, in every later state. -/
theorem Histories.suppresses {db db' : Database} (histories : Histories db) (consistent : Consistent db)
    (grown : Grown db db') {m u : Memory} (mem : m ∈ db.memories)
    (forgotten : m.status = .forgotten) (earlier : u ∈ db.memoryVersions) (same : u.id = m.id)
    {identity : EvidenceIdentity} (cites : Cites db' u identity) :
    ∃ row ∈ db.suppressions, row.projectId = m.projectId ∧
      row.evidenceKey = Environment.digest identity := by
  have written := consistent.written m mem
  obtain ⟨e, cited, quotation, quoted, rfl⟩ := cites_iff.mp cites
  obtain ⟨before, quotedBefore, row, here, project, key⟩ :=
    histories.suppressed m written forgotten u earlier same e cited
  rw [consistent.same_project earlier written same, grown.quoted quotedBefore,
    Except.ok.injEq] at quoted
  exact ⟨row, here, project, by rw [key, quoted]⟩

/-- Forgetting is permanent within a Project: a forgotten memory stays as it is, and where a
version of the Project that is written later cites a message that a version of the forgotten memory
cited, the preceding version of the same memory cites it already. -/
theorem forgetting_is_permanent (run : (store config opened).Reachable always s)
    (path : (store config opened).Path always s s') {m : Memory} (member : m ∈ s.db.memories)
    (forgotten : m.status = .forgotten) :
    m ∈ s'.db.memories ∧
    ∀ u ∈ s.db.memoryVersions, u.id = m.id → ∀ identity, Cites s'.db u identity →
      ∀ v ∈ s'.db.memoryVersions, v ∉ s.db.memoryVersions → v.projectId = m.projectId →
        Cites s'.db v identity →
          ∃ prior ∈ s'.db.memoryVersions, prior.id = v.id ∧ v.revision = prior.revision + 1 ∧
            Cites s'.db prior identity := by
  have consistent := (sound_of_reachable run).consistent
  have consistent' := (sound_of_reachable (run.path path)).consistent
  have histories' := histories_of_reachable (run.path path)
  have written := consistent.written m member
  obtain ⟨grown, origin⟩ := grown_of_path run path
  have kept := histories'.last m (grown.versions written) forgotten
  refine ⟨kept, fun u earlier same identity cites v later new project again => ?_⟩
  obtain old | acquired := origin v later
  · exact absurd old new
  · obtain ⟨e, cited, quotation, quoted, rfl⟩ := cites_iff.mp again
    obtain ⟨prior, known, id, revision, kept⟩ | ⟨quotation', quoted', free⟩ := acquired e cited
    · refine ⟨prior, known, id, revision, cites_iff.mpr ⟨e, kept, quotation, ?_, rfl⟩⟩
      rw [consistent'.same_project known later id]
      exact quoted
    · -- evidence that is new to the memory is none that was suppressed before
      rw [quoted, Except.ok.injEq] at quoted'
      subst quoted'
      obtain ⟨row, here, of, key⟩ := (histories_of_reachable run).suppresses consistent grown
        member forgotten earlier same cites
      exact absurd key (free row here (by rw [of, project]))

end

/-- A message that two Projects have in their turns, and that one of them has forgotten. -/
def portForgotten : State :=
  Plain.run [
    (1, .ingest (Plain.turn "receipt" "p" "turn" none)),
    (2, .ingest (Plain.turn "other receipt" "q" "other turn" none)),
    (3, .create "p" (Plain.note "receipt") .human "a"),
    (4, .setStatus "p" "a" 1 .forgotten "obsolete" .human)]

def portRemembered : State :=
  @State.after Plain.environment Plain.config portForgotten 5
    (.create "q" (Plain.note "other receipt") .human "b")

example : portRemembered.db.memories.map Memory.id = ["a", "b"] := by decide +kernel

theorem forgetting_ends_at_the_project :
    (@store Plain.environment Plain.config 0).Reachable always portForgotten ∧
    (@store Plain.environment Plain.config 0).Path always portForgotten portRemembered ∧
    ∃ identity, ∃ m ∈ portForgotten.db.memories, m.status = .forgotten ∧
      ∃ u ∈ portForgotten.db.memoryVersions, u.id = m.id ∧ Cites portRemembered.db u identity ∧
      ∃ v ∈ portRemembered.db.memoryVersions, v ∉ portForgotten.db.memoryVersions ∧
        v.id ≠ m.id ∧ Cites portRemembered.db v identity ∧
        ∀ prior ∈ portRemembered.db.memoryVersions,
          ¬ (prior.id = v.id ∧ v.revision = prior.revision + 1) := by
  refine ⟨Plain.reachable_run _, Plain.path_after _ _ _,
    ⟨"instance", "session", "m", "The server listens on port 8080."⟩, ?_⟩
  decide +kernel

theorem forgotten_port_stays :
    ∃ m ∈ portForgotten.db.memories, m.status = .forgotten ∧ m ∈ portRemembered.db.memories := by
  have run : (@store Plain.environment Plain.config 0).Reachable always portForgotten :=
    Plain.reachable_run _
  have path : (@store Plain.environment Plain.config 0).Path always portForgotten portRemembered :=
    Plain.path_after _ _ _
  have present : ∃ m ∈ portForgotten.db.memories, m.status = .forgotten := by decide +kernel
  obtain ⟨m, member, forgotten⟩ := present
  exact ⟨m, member, forgotten,
    (@forgetting_is_permanent Plain.environment _ _ _ _ run path m member forgotten).1⟩

end Agentix.MemoryStore

/-! # Revoked evidence

Over every run of the memory store, once the cancellation of a Job is applied nothing that cites its
receipts is served or worked on, and no revoked memory comes back.
-/

namespace Agentix.MemoryStore

open Lib List
open Lib.System (always)

section

variable [Environment] {config : AgentConfig} {opened now : Int} {s s' : State}
  {operation : Operation}

def Bound (db : Database) (projectId jobId receiptId : String) : Prop :=
  ∃ source ∈ db.sources, source.receiptId = receiptId ∧ source.projectId = projectId ∧
    ⟨source.turn, projectId, jobId⟩ ∈ db.sourceJobTurns

omit [Environment] in
theorem Sourced.boundTo {db : Database} (sourced : Sourced db) {projectId jobId receiptId : String}
    (bound : Bound db projectId jobId receiptId) : db.boundTo projectId jobId receiptId := by
  obtain ⟨source, mem, rfl, rfl, turn⟩ := bound
  have row := sourced.closed _ turn source mem rfl rfl
  simp only [Database.boundTo, any_eq_true, Bool.and_eq_true, decide_eq_true_eq]
  exact ⟨_, row, ⟨rfl, rfl⟩, rfl⟩

def CancellationsApplied (s : State) : Prop :=
  ∀ c ∈ s.db.cancelledJobs, (c.projectId, c.jobId) ∉ s.halfApplied →
    Cleared c.projectId c.jobId s.db

omit [Environment] in
/-- What is cleared stays cleared while no receipt it cites is bound to the Job. -/
theorem Cleared.bind {db db' : Database} {projectId jobId : String}
    (cleared : Cleared projectId jobId db) (memories : db'.memories = db.memories)
    (items : db'.workItems = db.workItems)
    (rows : ∀ row ∈ db'.sourceJobs, row.projectId = projectId → row.jobId = jobId →
      row ∈ db.sourceJobs) : Cleared projectId jobId db' := by
  have unbound : ∀ receiptId, db.boundTo projectId jobId receiptId = false →
      db'.boundTo projectId jobId receiptId = false := by
    intro receiptId free
    by_contra bound
    simp only [Database.boundTo, Bool.not_eq_false, any_eq_true, Bool.and_eq_true,
      decide_eq_true_eq] at bound
    obtain ⟨row, mem, ⟨receipt, project⟩, job⟩ := bound
    simp only [Database.boundTo, any_eq_false, Bool.and_eq_true, decide_eq_true_eq] at free
    exact free row (rows row mem project job) ⟨⟨receipt, project⟩, job⟩
  refine ⟨fun m mem searchable e cited => ?_, fun item mem revocable => ?_⟩
  · rw [memories] at mem
    exact unbound _ (cleared.memories m mem searchable e cited)
  · rw [items] at mem
    exact unbound _ (cleared.items item mem revocable)

theorem Commits.cleared {t : Transaction} {db db' : Database} (commits : Commits t db db')
    {c : CancelledJob} (cancelled : c ∈ db'.cancelledJobs)
    (cleared : Cleared c.projectId c.jobId db) : Cleared c.projectId c.jobId db' := by
  refine cleared.writes ?_ commits.writes
  rw [← commits.writes.extends.cancelledJobs]
  exact cancelled

theorem cleared_of_ingest {source : Source} {answer : Answer} (sound : Sound s.db)
    (applied : CancellationsApplied s)
    (ok : (Operation.ingest source).perform config now s.db = .ok answer) :
    ∀ c ∈ answer.db.cancelledJobs, (c.projectId, c.jobId) ∉ s.halfApplied →
      Cleared c.projectId c.jobId answer.db := by
  intro c cancelled free
  have commits := perform_commits sound.consistent sound.settled sound.sourced ok
  have listed : c ∈ ((Operation.ingest source).intake s.db).cancelledJobs := by
    rw [← commits.writes.extends.cancelledJobs]
    exact cancelled
  obtain ⟨_, _, _, _, taken⟩ := (Operation.ingest source).intake_eq s.db
  have before : c ∈ s.db.cancelledJobs := by
    simp only [Operation.intake] at listed
    split at listed
    · exact listed
    · unfold Database.bindReceipts at listed
      split at listed <;> exact listed
  cases found : s.db.source source.receiptId with
  | some existing =>
    refine commits.cleared cancelled ?_
    simp only [Operation.intake, found]
    exact applied c before free
  | none =>
    by_cases own : ((Operation.ingest source).intake s.db).boundTo c.projectId c.jobId
        source.receiptId
    · simp only [Operation.perform, bind_ok, pure_ok] at ok
      obtain ⟨⟨fresh, db'⟩, made, rfl⟩ := ok
      exact (ingest_of_ok (t := Operation.transaction config now s.db (.ingest source) { db := db' })
        sound.consistent sound.settled sound.sourced rfl (fun item lost => lost) made).2 found c
        listed own
    · refine commits.cleared cancelled ((applied c before free).bind ?_ ?_ fun row mem project job => ?_)
      · rw [taken]
      · rw [taken]
      · simp only [Operation.intake, found] at mem own
        obtain old | bound := sound.sourced.mem_bindReceipts found mem
        · exact old
        · refine absurd ?_ own
          simp only [Database.boundTo, any_eq_true, Bool.and_eq_true, decide_eq_true_eq]
          exact ⟨_, bound, ⟨rfl, project⟩, job⟩

theorem CancellationsApplied.after (applied : CancellationsApplied s) (sound : Sound s.db) :
    CancellationsApplied (s.after config now operation) := by
  obtain failed | ⟨answer, ok, done⟩ := after_cases config s now operation
  · rw [failed]
    exact applied
  · rw [done]
    intro c cancelled free
    change c ∈ answer.db.cancelledJobs at cancelled
    change (c.projectId, c.jobId) ∉ operation.halfApplied s.halfApplied at free
    show Cleared c.projectId c.jobId answer.db
    have commits := perform_commits sound.consistent sound.settled sound.sourced ok
    have taken : c ∈ (operation.intake s.db).cancelledJobs := by
      rw [← commits.writes.extends.cancelledJobs]
      exact cancelled
    cases operation with
    | ingest source => exact cleared_of_ingest sound applied ok c cancelled free
    | bindCancelledSource source =>
      -- the Job that receipts were bound to is half applied now
      obtain ⟨_, _, _, _, shape⟩ := (Operation.bindCancelledSource source).intake_eq s.db
      have before : c ∈ s.db.cancelledJobs := by
        simp only [Operation.intake, Database.bindCancelledSource] at taken
        split at taken <;> exact taken
      simp only [Operation.halfApplied, mem_append, not_or] at free
      refine commits.cleared cancelled
        ((applied c before free.2).bind ?_ ?_ fun row mem project job => ?_)
      · rw [shape]
      · rw [shape]
      · obtain old | same := sound.sourced.mem_bindCancelledSource mem
        · exact old
        · rw [project, job, Prod.mk.injEq] at same
          refine absurd ?_ free.1
          rw [same.1, same.2]
          simp
    | invalidateJob projectId jobId revision cancelledAt =>
      by_cases own : (c.projectId, c.jobId) = (projectId, jobId)
      · obtain ⟨rfl, rfl⟩ := Prod.mk.inj own
        simp only [Operation.perform, Database.invalidateJob, bind_ok, pure_ok] at ok
        obtain ⟨db', made, rfl⟩ := ok
        let call := Operation.invalidateJob c.projectId c.jobId revision cancelledAt
        exact (invalidate_of_ok (t := call.transaction config now s.db { db := db' })
          (sound.consistent.intake call) (sound.settled.intake call)
          (fun item _ _ bound => .inr bound) made).2.1
      · have before : c ∈ s.db.cancelledJobs := by
          obtain ⟨old, -⟩ | rfl | ⟨old, -, same, rfl⟩ := mem_upsert taken
          · exact old
          · exact absurd rfl own
          · exact absurd same own
        have kept : (c.projectId, c.jobId) ∉ s.halfApplied := fun listed =>
          free (mem_filter.mpr ⟨listed, decide_eq_true own⟩)
        exact commits.cleared cancelled
          ((applied c before kept).bind rfl rfl fun row mem _ _ => mem)
    | _ => exact commits.cleared cancelled (applied c taken free)

theorem cancellations_applied (run : (store config opened).Reachable always s) :
    CancellationsApplied s := by
  induction run with
  | start =>
    intro c none
    cases none
  | step before _ next ih =>
    cases next
    exact ih.after (sound_of_reachable before)

/-- Revoked evidence is never served: unless the cancellation of a Job is only half applied, no
active or conflicted memory cites a receipt that is bound to the cancelled Job, no work on such a
receipt is pending or running, and what was invalidated once is invalidated or forgotten in every
later state. -/
theorem revoked_is_never_served (run : (store config opened).Reachable always s) :
    (∀ c ∈ s.db.cancelledJobs, (c.projectId, c.jobId) ∉ s.halfApplied →
      ∀ receiptId, Bound s.db c.projectId c.jobId receiptId →
        (∀ m ∈ s.db.memories, m.status.searchable → ∀ e ∈ m.content.evidence,
          e.receiptId ≠ receiptId) ∧
        ∀ item ∈ s.db.workItems, item.active → item.receiptId ≠ receiptId) ∧
    (∀ v ∈ s.db.memoryVersions, v.status = .invalidated →
      ∀ s', (store config opened).Path always s s' → ∀ m ∈ s'.db.memories, m.id = v.id →
        m.status = .invalidated ∨ m.status = .forgotten) := by
  refine ⟨fun c cancelled whole receiptId bound => ?_, fun v known revoked s' path m member same => ?_⟩
  · have cleared := cancellations_applied run c cancelled whole
    have bound := (sound_of_reachable run).sourced.boundTo bound
    refine ⟨fun m member searchable e cited same => ?_, fun item member active same => ?_⟩
    · have free := cleared.memories m member searchable e cited
      rw [same, bound] at free
      cases free
    · have free := cleared.items item member (by simp [WorkItem.revocable, active])
      rw [same, bound] at free
      cases free
  · have run' := run.path path
    have consistent := (sound_of_reachable run').consistent
    have later := (grown_of_path run path).1.versions known
    exact (histories_of_reachable run').revoked v later m (consistent.written m member) same
      (consistent.revision_le later member same.symm) revoked

end

/-- A memory of a turn whose Job is cancelled. -/
def turnRevoked : State :=
  Plain.run [
    (1, .ingest (Plain.turn "receipt" "p" "turn" (some "j"))),
    (2, .create "p" (Plain.note "receipt") .human "a"),
    (3, .bindCancelledSource (Plain.turn "receipt" "p" "turn" (some "j"))),
    (4, .invalidateJob "p" "j" 1 3)]

example : turnRevoked.db.sourceJobs.map SourceJob.jobId = ["j"] := by decide +kernel

theorem revoked_turn_is_not_served :
    turnRevoked.db.memories.map (fun m => (m.id, m.status)) = [("a", .invalidated)] ∧
    (∀ item ∈ turnRevoked.db.workItems, item.active → item.receiptId ≠ "receipt") := by
  have bound : Bound turnRevoked.db "p" "j" "receipt" :=
    ⟨Plain.turn "receipt" "p" "turn" (some "j"), by decide +kernel, rfl, rfl, by decide +kernel⟩
  have run : (@store Plain.environment Plain.config 0).Reachable always turnRevoked :=
    Plain.reachable_run _
  have revoked := (@revoked_is_never_served Plain.environment _ _ _ run).1 ⟨"p", "j", 1, 3⟩
    (by decide +kernel) (by decide +kernel) "receipt" bound
  exact ⟨by decide +kernel, revoked.2⟩

/-- A newer revision of a turn comes without its Job. -/
def turnRevised : State :=
  Plain.run [
    (1, .ingest (Plain.turn "receipt" "p" "turn" (some "j"))),
    (2, .ingest { Plain.turn "newer receipt" "p" "turn" none with revision := 2 })]

end Agentix.MemoryStore
