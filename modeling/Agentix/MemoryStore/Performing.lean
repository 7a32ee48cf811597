import Agentix.MemoryStore.Splitting

/-! # Calls

Every call of the store is an intake followed by checked writes, which leave the tables consistent
and the facts settled.
-/

namespace Agentix.MemoryStore

open Lib

variable [Environment]

/-- The transaction of a call that succeeds. -/
def Operation.transaction (config : AgentConfig) (now : Int) (db : Database)
    (operation : Operation) (answer : Answer) : Transaction where
  config := config
  now := now
  base := operation.intake db
  given := answer.lease
  seen := (answer.completion.map Completion.observed).getD []
  lost := operation.loses db

section

variable {config : AgentConfig} {now : Int} {db : Database} {operation : Operation}
  {answer : Answer}

variable {lease : WorkLease}

omit [Environment] in
theorem loses_of_forged (db : Database) (presented : operation.lease = some lease) (item : WorkItem)
    (forged : Forged lease item) : operation.loses db item :=
  .inl ⟨lease, presented, forged⟩

/-- A call that succeeds has written what the checks of the code allow. -/
theorem perform_commits (consistent : Consistent db) (settled : Settled db) (sourced : Sourced db)
    (ok : operation.perform config now db = .ok answer) :
    Commits (operation.transaction config now db answer) (operation.intake db) answer.db := by
  have consistentBase := consistent.intake operation
  have settledBase := settled.intake operation
  have stage : Stage (operation.transaction config now db answer) []
      (operation.transaction config now db answer).base := .begin consistentBase settledBase
  have commits : Commits (operation.transaction config now db answer) (operation.intake db)
      (operation.intake db) := .refl consistentBase settledBase
  cases operation with
  | bindSource instance_ =>
    simp only [Operation.perform, Database.bindSource, bind_ok, pure_ok] at ok
    obtain ⟨_, ⟨⟨⟩, -, ⟨⟩, -, rfl⟩, rfl⟩ := ok
    exact commits.write (.frame _ _ _ _ _ _) rfl
  | ingest source =>
    simp only [Operation.perform, bind_ok, pure_ok] at ok
    obtain ⟨⟨fresh, db'⟩, made, rfl⟩ := ok
    exact (ingest_of_ok consistent settled sourced rfl (fun item lost => lost) made).1
  -- The source was bound on intake, which the base of the transaction already has.
  | bindCancelledSource source =>
    cases ok
    exact commits
  | invalidateJob projectId jobId revision cancelledAt =>
    simp only [Operation.perform, Database.invalidateJob, bind_ok, pure_ok] at ok
    obtain ⟨db', made, rfl⟩ := ok
    refine (invalidate_of_ok consistentBase settledBase (fun item _ _ bound => ?_) made).1
    exact .inr bound
  | create =>
    simp only [Operation.perform, bind_ok, pure_ok] at ok
    obtain ⟨⟨memory, db'⟩, made, rfl⟩ := ok
    exact create_commits stage made
  | supersede =>
    simp only [Operation.perform, bind_ok, pure_ok] at ok
    obtain ⟨⟨memory, db'⟩, made, rfl⟩ := ok
    exact supersede_commits stage made
  | update =>
    simp only [Operation.perform, bind_ok, pure_ok] at ok
    obtain ⟨⟨memory, db'⟩, made, rfl⟩ := ok
    exact update_commits stage made
  | setStatus =>
    simp only [Operation.perform, bind_ok, pure_ok] at ok
    obtain ⟨⟨memory, db'⟩, made, rfl⟩ := ok
    exact setStatus_commits stage made
  | scheduleCompaction =>
    simp only [Operation.perform, bind_ok, pure_ok] at ok
    obtain ⟨⟨page, db'⟩, made, rfl⟩ := ok
    exact scheduleCompaction_commits commits made
  | scheduleBackgroundCompaction =>
    simp only [Operation.perform, bind_ok, pure_ok] at ok
    obtain ⟨⟨scheduled, db'⟩, made, rfl⟩ := ok
    exact scheduleBackground_commits commits made
  | scheduleReviews =>
    simp only [Operation.perform, bind_ok, pure_ok] at ok
    obtain ⟨⟨scheduled, db'⟩, made, rfl⟩ := ok
    exact scheduleReviews_commits commits made
  | claim =>
    simp only [Operation.perform, bind_ok, pure_ok] at ok
    obtain ⟨⟨lease, db'⟩, made, rfl⟩ := ok
    exact claim_commits commits made
  | completeExtraction lease =>
    simp only [Operation.perform, Operation.complete, bind_ok, pure_ok] at ok
    obtain ⟨db', made, rfl⟩ := ok
    exact (completeExtraction_of_ok commits made (loses_of_forged db rfl)).commits
  | completeConsolidation lease decisions ids =>
    simp only [Operation.perform, Operation.complete, bind_ok, pure_ok] at ok
    obtain ⟨⟨changed, db'⟩, made, answered⟩ := ok
    have completes : Completes
        ((Operation.completeConsolidation lease decisions ids).transaction config now db answer) lease db' :=
      completeConsolidation_of_ok consistentBase settledBase made (answered ▸ rfl)
        (loses_of_forged db rfl)
    subst answered
    exact completes.commits
  | completeFactCompaction lease proposal ids =>
    simp only [Operation.perform, Operation.complete, bind_ok, pure_ok] at ok
    obtain ⟨⟨changed, db'⟩, made, answered⟩ := ok
    have completes : Completes
        ((Operation.completeFactCompaction lease proposal ids).transaction config now db answer) lease db' :=
      completeFactCompaction_of_ok consistentBase settledBase made (answered ▸ rfl)
        (loses_of_forged db rfl)
    subst answered
    exact completes.commits
  | completeReview lease =>
    simp only [Operation.perform, Operation.complete, bind_ok, pure_ok] at ok
    obtain ⟨db', made, rfl⟩ := ok
    exact (completeReview_of_ok commits made (loses_of_forged db rfl)).commits
  -- Only an obsolete compaction is completed; any other is left as it stands.
  | skipObsoleteCompaction lease =>
    simp only [Operation.perform, Operation.complete, bind_ok, pure_ok] at ok
    obtain ⟨⟨skipped, db'⟩, made, rfl⟩ := ok
    have skips := skipObsolete_of_ok commits made (loses_of_forged db rfl)
    cases skipped with
    | true =>
      rw [if_pos rfl] at skips
      exact skips.commits
    | false =>
      rw [if_neg (by simp)] at skips
      subst skips
      exact commits
  | failWork =>
    simp only [Operation.perform, bind_ok, pure_ok] at ok
    obtain ⟨db', made, rfl⟩ := ok
    exact failWork_commits commits made
  | retryWork =>
    simp only [Operation.perform, bind_ok, pure_ok] at ok
    obtain ⟨db', made, rfl⟩ := ok
    exact retryWork_commits commits made

theorem perform_completes (consistent : Consistent db) (settled : Settled db)
    (ok : operation.perform config now db = .ok answer) {c : Completion}
    (completed : answer.completion = some c) :
    operation.lease = some c.lease ∧
      Completes (operation.transaction config now db answer) c.lease answer.db := by
  have commits := Commits.refl (t := operation.transaction config now db answer)
    (consistent.intake operation) (settled.intake operation)
  cases operation with
  | completeExtraction lease =>
    simp only [Operation.perform, Operation.complete, bind_ok, pure_ok] at ok
    obtain ⟨db', made, rfl⟩ := ok
    cases completed
    exact ⟨rfl, completeExtraction_of_ok commits made (loses_of_forged db rfl)⟩
  | completeConsolidation lease =>
    simp only [Operation.perform, Operation.complete, bind_ok, pure_ok] at ok
    obtain ⟨⟨changed, db'⟩, made, rfl⟩ := ok
    cases completed
    exact ⟨rfl, completeConsolidation_of_ok consistent settled made rfl (loses_of_forged db rfl)⟩
  | completeFactCompaction lease =>
    simp only [Operation.perform, Operation.complete, bind_ok, pure_ok] at ok
    obtain ⟨⟨changed, db'⟩, made, rfl⟩ := ok
    cases completed
    exact ⟨rfl, completeFactCompaction_of_ok consistent settled made rfl (loses_of_forged db rfl)⟩
  | completeReview lease =>
    simp only [Operation.perform, Operation.complete, bind_ok, pure_ok] at ok
    obtain ⟨db', made, rfl⟩ := ok
    cases completed
    exact ⟨rfl, completeReview_of_ok commits made (loses_of_forged db rfl)⟩
  | skipObsoleteCompaction lease =>
    simp only [Operation.perform, Operation.complete, bind_ok, pure_ok] at ok
    obtain ⟨⟨skipped, db'⟩, made, rfl⟩ := ok
    have skips := skipObsolete_of_ok commits made (loses_of_forged db rfl)
    cases skipped with
    | true =>
      cases completed
      rw [if_pos rfl] at skips
      exact ⟨rfl, skips⟩
    | false => cases completed
  | claim =>
    simp only [Operation.perform, bind_ok, pure_ok] at ok
    obtain ⟨_, -, rfl⟩ := ok
    cases completed
  | bindCancelledSource =>
    cases ok
    cases completed
  | _ =>
    simp only [Operation.perform, bind_ok, pure_ok] at ok
    obtain ⟨_, -, rfl⟩ := ok
    cases completed

theorem perform_claims (given : answer.lease = some lease)
    (ok : operation.perform config now db = .ok answer) :
    answer.completion = none ∧ ∃ owner id, operation = .claim owner id ∧
      Claimed db config now id owner (some lease) answer.db := by
  cases operation with
  | claim owner id =>
    simp only [Operation.perform, bind_ok, pure_ok] at ok
    obtain ⟨⟨lease, db'⟩, made, rfl⟩ := ok
    cases given
    exact ⟨rfl, owner, id, rfl, claimed_of_ok made⟩
  | bindCancelledSource =>
    cases ok
    cases given
  | completeExtraction =>
    simp only [Operation.perform, Operation.complete, bind_ok, pure_ok] at ok
    obtain ⟨_, -, rfl⟩ := ok
    cases given
  | completeConsolidation =>
    simp only [Operation.perform, Operation.complete, bind_ok, pure_ok] at ok
    obtain ⟨_, -, rfl⟩ := ok
    cases given
  | completeFactCompaction =>
    simp only [Operation.perform, Operation.complete, bind_ok, pure_ok] at ok
    obtain ⟨_, -, rfl⟩ := ok
    cases given
  | completeReview =>
    simp only [Operation.perform, Operation.complete, bind_ok, pure_ok] at ok
    obtain ⟨_, -, rfl⟩ := ok
    cases given
  | skipObsoleteCompaction =>
    simp only [Operation.perform, Operation.complete, bind_ok, pure_ok] at ok
    obtain ⟨_, -, rfl⟩ := ok
    cases given
  | _ =>
    simp only [Operation.perform, bind_ok, pure_ok] at ok
    obtain ⟨_, -, rfl⟩ := ok
    cases given

/-- A completion or failure was fenced, or it found nothing to do. -/
theorem perform_fenced (consistent : Consistent db) (settled : Settled db)
    (presented : operation.lease = some lease) (ok : operation.perform config now db = .ok answer) :
    (∃ item, Fenced db lease now item) ∨ answer = { db } := by
  cases completed : answer.completion with
  | some c =>
    obtain ⟨same, completes⟩ := perform_completes consistent settled ok completed
    rw [presented, Option.some.injEq] at same
    subst same
    have unchanged : operation.intake db = db := by
      cases operation <;> first | rfl | cases presented
    have fenced := completes.fenced
    change ∃ item, Fenced (operation.intake db) _ _ item at fenced
    rw [unchanged] at fenced
    exact .inl fenced
  | none =>
    cases operation with
    | failWork =>
      cases presented
      simp only [Operation.perform, Database.failWorkWithRetry, bind_ok, pure_ok] at ok
      obtain ⟨_, ⟨⟨⟩, fence, -⟩, -⟩ := ok
      exact .inl (fenced_of_ok fence)
    | skipObsoleteCompaction =>
      cases presented
      simp only [Operation.perform, Operation.complete, bind_ok, pure_ok] at ok
      obtain ⟨⟨skipped, db'⟩, made, rfl⟩ := ok
      have skips := skipObsolete_of_ok (t := Operation.transaction config now db
        (.skipObsoleteCompaction lease) { db := db' }) (.refl consistent settled) made
        (loses_of_forged db rfl)
      cases skipped with
      | true => cases completed
      | false =>
        rw [if_neg (by simp)] at skips
        exact .inr (by rw [skips]; rfl)
    | completeExtraction =>
      simp only [Operation.perform, Operation.complete, bind_ok, pure_ok] at ok
      obtain ⟨_, -, rfl⟩ := ok
      cases completed
    | completeConsolidation =>
      simp only [Operation.perform, Operation.complete, bind_ok, pure_ok] at ok
      obtain ⟨_, -, rfl⟩ := ok
      cases completed
    | completeFactCompaction =>
      simp only [Operation.perform, Operation.complete, bind_ok, pure_ok] at ok
      obtain ⟨_, -, rfl⟩ := ok
      cases completed
    | completeReview =>
      simp only [Operation.perform, Operation.complete, bind_ok, pure_ok] at ok
      obtain ⟨_, -, rfl⟩ := ok
      cases completed
    | _ => cases presented

/-! ## Runs -/

omit [Environment] in
theorem Sourced.extends {db' : Database} (sourced : Sourced db) (extended : Extends db db') :
    Sourced db' where
  receipts := by
    rw [extended.sources]
    exact sourced.receipts
  owned := by
    rw [extended.sources, extended.sourceJobs]
    exact sourced.owned
  closed := by
    rw [extended.sources, extended.sourceJobs, extended.sourceJobTurns]
    exact sourced.closed

omit [Environment] in
theorem Sourced.intake (sourced : Sourced db) (operation : Operation) :
    Sourced (operation.intake db) := by
  cases operation with
  | ingest source =>
    simp only [Operation.intake]
    split
    · exact sourced
    · rename_i fresh
      exact (sourced.append fresh).bindReceipts
  | bindCancelledSource => exact sourced.bindCancelledSource
  | invalidateJob => exact { sourced with }
  | _ => exact sourced

/-- What every call keeps. -/
structure Sound (db : Database) : Prop where
  consistent : Consistent db
  settled : Settled db
  sourced : Sourced db

theorem Sound.empty : Sound {} :=
  ⟨.empty, fun _ _ => rfl, .empty⟩

theorem Sound.perform (sound : Sound db) (ok : operation.perform config now db = .ok answer) :
    Sound answer.db := by
  have commits := perform_commits sound.consistent sound.settled sound.sourced ok
  exact ⟨commits.consistent, commits.settled,
    (sound.sourced.intake operation).extends commits.writes.extends⟩

end

section Runs

variable {config : AgentConfig} {opened : Int} {condition : State → Int × Operation → Prop}
  {s s' : State}

theorem reachable_after (run : (store config opened).Reachable condition s) {now : Int}
    {operation : Operation} (met : condition s (now, operation)) :
    (store config opened).Reachable condition (s.after config now operation) :=
  .step run met rfl

theorem after_cases (config : AgentConfig) (s : State) (now : Int) (operation : Operation) :
    s.after config now operation = { s with clock := now } ∨
      ∃ answer, operation.perform config now s.db = .ok answer ∧
        s.after config now operation =
          { db := answer.db, clock := now, leases := s.leases ++ answer.lease.toList,
            completions := s.completions ++ answer.completion.toList,
            halfApplied := operation.halfApplied s.halfApplied } := by
  unfold State.after
  cases operation.perform config now s.db with
  | error => exact .inl rfl
  | ok answer => exact .inr ⟨answer, rfl, rfl⟩

theorem sound_of_reachable (run : (store config opened).Reachable condition s) : Sound s.db := by
  induction run with
  | start => exact .empty
  | @step s s' label before met next sound =>
    cases next
    obtain failed | ⟨answer, ok, done⟩ := after_cases config s label.1 label.2
    · rw [failed]
      exact sound
    · rw [done]
      exact sound.perform ok

end Runs

end Agentix.MemoryStore
