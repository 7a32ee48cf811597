import Agentix.Refinement.Job

/-! # Tasks as effects -/

namespace Agentix.TaskStore

open Lib Relation List Option

variable {may : Ledger.Authority} {s s' : Snapshot}

/-! ## Starting work -/

variable {finishHuman wasReady : Bool} {env : Env} {j : Fin s.jobs.length} {i : Fin s.tasks.length}
  {now : Int} {job : String} {command : TaskCommand} {request : Value}

theorem allows_inProgress {status : TaskStatus} (allows : status.allows .inProgress = true) :
    status.terminal = false ∧ status ≠ .inProgress := by
  cases status <;> simp_all [TaskStatus.allows, TaskStatus.terminal]

theorem advances_claim {token : String} (keyed : Ledger.Keyed s.ledger)
    (ok : claim s i token request now = .ok s') :
    Advances may s s' := by
  obtain ⟨executor, session, _, allows, free, rfl⟩ := claim_inv ok
  obtain ⟨unfinished, idle⟩ := allows_inProgress allows
  refine .one rfl ?_
  simp only [Snapshot.ledger, Snapshot.modifyTask, map_append, map_cons, map_nil]
  rw [map_modify_eq_alter i keyed.tasks
    (g := fun _ => (s.tasks.get i).entry.claimed
      { task := (s.tasks.get i).id, executor, session, token }) rfl]
  refine .claim (Snapshot.task_mem (get_mem _ _)) unfinished idle rfl ?_
  intro l' lease'
  obtain ⟨l, lease, rfl⟩ := mem_map.mp lease'
  exact not_or.mp (free l lease)

/-! ## Working -/

theorem startTask_move {L : Ledger.State} {t : Task} (planning : t.phase = some .planning)
    (ready : ∀ d ∈ t.dependencies, ∃ u ∈ L.tasks, u.id = d ∧ u.status = .done) :
    Ledger.TaskMove L t.entry (t.begun now).entry := by
  have target : (t.begun now).entry = { t.entry with phase := some .executing, started := true } := by
    simp [Task.entry, Task.begun]
  rw [target]
  exact .start planning ready

theorem advances_startTask (keyed : Ledger.Keyed s.ledger)
    (allowed : may.touch s.ledger.leases (s.tasks.get i).entry)
    (ok : startTask s i j now = .ok s') : Advances may s s' := by
  obtain ⟨started, starts, planning, ready, rfl⟩ := startTask_inv ok
  refine Advances.andJob ?_ fun _ => rfl
  have move : (∀ d ∈ (s.tasks.get i).dependencies, ∃ t ∈ s.tasks, t.id = d ∧ t.status = .done) →
      Advances may s (s.modifyTask i fun task => task.begun now) := by
    intro ready
    refine .of_taskMove keyed (startTask_move planning fun d depends => ?_) allowed
    obtain ⟨t, mem, named, done⟩ := ready d depends
    exact ⟨t.entry, Snapshot.task_mem mem, named, done⟩
  obtain rfl | ⟨id, k, accepts, rfl⟩ := startIssue_inv starts
  · exact move ready
  · -- The Issue starts after the Task here: neither change reads the other's row.
    have found : (s.modifyTask i fun task => task.begun now).issueIndex id = .ok k :=
      (writable_eq_ok.mp accepts).1
    exact (move ready).trans (advances_activate found now)

theorem Advances.of_plannedTask (keyed : Ledger.Keyed s.ledger) {f : Task → Task}
    (plans : List Plan)
    (move : Ledger.TaskMove s.ledger (s.tasks.get i).entry (f (s.tasks.get i)).entry)
    (allowed : may.touch s.ledger.leases (s.tasks.get i).entry) :
    Advances may s (Snapshot.modifyTask { s with plans } i f) := by
  have plansOnly : Advances may s { s with plans } := .unseen rfl rfl
  exact plansOnly.trans (.of_taskMove (s := { s with plans }) (i := i) keyed move allowed)

theorem advances_editTask (keyed : Ledger.Keyed s.ledger)
    (allowed : may.touch s.ledger.leases (s.tasks.get i).entry)
    (ok : editTask env s i j request = .ok s') : Advances may s s' := by
  obtain ⟨plans, _, _, _, rfl⟩ := editTask_inv ok
  exact .of_plannedTask keyed plans .edit allowed

theorem advances_registerPlan {reply : Reply} (keyed : Ledger.Keyed s.ledger)
    (allowed : may.touch s.ledger.leases (s.tasks.get i).entry)
    (ok : registerPlan s i request now = .ok (s', reply)) : Advances may s s' := by
  obtain ⟨plans, _, rfl⟩ := registerPlan_inv ok
  exact .of_plannedTask keyed plans .edit allowed

theorem advances_dependTask {depend : Bool} (keyed : Ledger.Keyed s.ledger)
    (allowed : may.touch s.ledger.leases (s.tasks.get i).entry)
    (ok : dependTask s i request depend = .ok s') : Advances may s s' := by
  obtain ⟨d, dependable, change⟩ := dependTask_inv ok
  have unstarted : (s.tasks.get i).entry.started = false := by
    simp only [Task.entry, dependable.unstarted, isSome_none]
  obtain ⟨acyclic, rfl⟩ | rfl := change
  · refine .of_taskMove keyed ?_ allowed
    split
    · exact .undepend unstarted (fun _ => id)
    · refine .depend unstarted (Snapshot.task_mem (get_mem s.tasks d)) dependable.project ?_
      rw [dependsOn_iff keyed] at acyclic
      intro path
      rcases ReflTransGen.cases_head_iff.mp path with same | ⟨_, edge, rest⟩
      · exact dependable.other same
      · exact acyclic (.head' edge rest)
  · exact .of_taskMove keyed (.undepend unstarted fun _ mem => (mem_filter.mp mem).1) allowed

/-! ## Resuming and leaving -/

theorem advances_resumeTask {retry : Bool} (keyed : Ledger.Keyed s.ledger)
    (owned : (s.jobs.get j).id = (s.tasks.get i).jobId)
    (kept : (s.jobs.get j).archivedAt = none ∧ (s.jobs.get j).status ≠ .cancelled)
    (reopens : may.reopen s.ledger (s.jobs.get j).entry)
    (allowed : may.touch s.ledger.leases (s.tasks.get i).entry)
    (ok : resumeTask s i j retry = .ok s') : Advances may s s' := by
  obtain ⟨ended, unused, rfl⟩ := resumeTask_inv ok
  have present : (s.jobs.get j).entry.archived = false := by
    simp only [Job.entry, kept.1, isSome_none]
  have reopened : Advances may s (s.modifyJob j Job.reopened) :=
    .of_jobMove keyed (.reopen kept.2 present reopens)
  -- The Job is active again before its Task is.
  refine reopened.trans (.of_taskMove (s := s.modifyJob j Job.reopened) (i := i)
    (reopened.keyed keyed) (.resume ended ?_ ?_) allowed)
  · intro u' mem' started path
    obtain ⟨u, mem, rfl⟩ := mem_map.mp mem'
    refine unused (any_eq_true.mpr ⟨u, mem, ?_⟩)
    rw [Bool.and_eq_true, dependsOn_iff keyed]
    exact ⟨started, path⟩
  · rw [ledger_modifyJob keyed]
    intro job mem named
    obtain ⟨old, _, ⟨_, rfl⟩ | ⟨other, rfl⟩⟩ := mem_alter.mp mem
    · rfl
    · exact absurd (named.trans owned.symm) other

theorem allows_leaving {status next : TaskStatus} (allows : status.allows next = true) :
    status.terminal = false := by
  cases status <;> simp_all [TaskStatus.allows, TaskStatus.terminal]

theorem leavingStatus_ne (command : TaskCommand) : leavingStatus command ≠ .inProgress := by
  cases command <;> simp [leavingStatus]

theorem advances_leaveTask (consistent : Ledger.Consistent s.ledger)
    (unfinished : finishHuman = true → (s.tasks.get i).status.terminal = false)
    (allowed : may.touch s.ledger.leases (s.tasks.get i).entry)
    (ok : leaveTask s i command request now finishHuman = .ok s') : Advances may s s' := by
  obtain ⟨allows, reason, rfl⟩ := leaveTask_inv ok
  refine .of_stopTask consistent (?_ : _ = Ledger.Task.leaving _ (leavingStatus command))
    (leavingStatus_ne command) (allows.elim unfinished allows_leaving) allowed
  simp only [Task.entry, Ledger.Task.leaving]
  congr 1
  split <;> simp_all

/-! ## Aggregation -/

theorem aggregatedJob_move {L : Ledger.State} {job : Job} {ready : Bool}
    (sound : ready = true → Ledger.Ready L job.id) :
    Ledger.JobMove may L job.entry (aggregatedJob job wasReady ready now).entry := by
  by_cases turns : job.status = .active ∧ (!wasReady) = true ∧ ready = true
  · obtain ⟨active, _, isReady⟩ := turns
    cases policy : job.reviewPolicy with
    | required =>
      have target : (aggregatedJob job wasReady ready now).entry =
          { job.entry with status := .pendingReview, completed := false } := by
        simp_all [aggregatedJob, Job.entry, readyStatus]
      rw [target]
      exact .submit active (sound isReady)
    | none =>
      have target : (aggregatedJob job wasReady ready now).entry =
          { job.entry with status := .completed, completed := true } := by
        simp_all [aggregatedJob, Job.entry, readyStatus]
      rw [target]
      exact .complete (by rw [Job.entry_status, active]; rfl) (sound isReady).ended
  · have target : (aggregatedJob job wasReady ready now).entry = job.entry := by
      simp only [aggregatedJob, if_neg turns]
      rfl
    rw [target]
    exact .stay _

theorem advances_aggregateJob (keyed : Ledger.Keyed s.ledger) (plain : s.queryContext = {})
    (named : (s.jobs.get j).id = job) (wasReady : Bool) (now : Int) :
    Advances may s (aggregateJob s j job wasReady now) := by
  refine .of_jobMove keyed (aggregatedJob_move fun ready => ?_)
  rw [named]
  exact (jobReady_iff plain job).mp ready

/-! ## Task commands -/

theorem jobIds_modifyJob {j : Nat} {f : Job → Job} (keeps : ∀ job, (f job).id = job.id) :
    (s.modifyJob j f).jobs.map Job.id = s.jobs.map Job.id := by
  unfold Snapshot.modifyJob
  apply ext_getElem
  · simp
  · intro n _ _
    simp only [getElem_map, getElem_modify]
    split
    · exact keeps _
    · rfl

theorem startIssue_jobs {issue : Option String} (ok : startIssue s issue now = .ok s') :
    s'.jobs = s.jobs := by
  obtain rfl | ⟨_, _, _, rfl⟩ := startIssue_inv ok <;> rfl

theorem changeTask_jobIds (edit : TaskEdit env s i j request now finishHuman command s') :
    s'.jobs.map Job.id = s.jobs.map Job.id := by
  cases edit with
  | claim claims =>
    obtain ⟨_, _, _, _, _, rfl⟩ := claim_inv claims
    rfl
  | start starts =>
    obtain ⟨started, issues, _, _, rfl⟩ := startTask_inv starts
    refine (jobIds_modifyJob (s := started.modifyTask i _) ?_).trans ?_
    · exact fun _ => rfl
    · have same : started.jobs = s.jobs := startIssue_jobs issues
      exact congrArg (map Job.id) same
  | heartbeat => rfl
  | update edits =>
    obtain ⟨_, _, _, _, rfl⟩ := editTask_inv edits
    rfl
  | depend _ _ depends =>
    obtain ⟨_, _, ⟨_, rfl⟩ | rfl⟩ := dependTask_inv depends <;> rfl
  | resume _ _ resumes =>
    obtain ⟨_, _, rfl⟩ := resumeTask_inv resumes
    exact jobIds_modifyJob (s := s.modifyTask i Task.resumed) fun _ => rfl
  | leave _ leaves =>
    obtain ⟨_, _, rfl⟩ := leaveTask_inv leaves
    rfl

theorem advances_heartbeat {l : Nat} {expires : Int} :
    Advances may s { s with
      leases := s.leases.modify l fun lease => { lease with leaseExpiresAt := expires } } := by
  refine .unseen rfl ?_
  unfold Snapshot.ledger
  congr 1
  apply ext_getElem
  · simp
  · intro n _ _
    simp only [getElem_map, getElem_modify]
    split <;> rfl

theorem advances_changeTask (consistent : Ledger.Consistent s.ledger)
    (owned : (s.jobs.get j).id = (s.tasks.get i).jobId)
    (kept : (s.jobs.get j).archivedAt = none ∧ (s.jobs.get j).status ≠ .cancelled)
    (reopens : command = .retry ∨ command = .reopen → may.reopen s.ledger (s.jobs.get j).entry)
    (unfinished : finishHuman = true → (s.tasks.get i).status.terminal = false)
    (allowed : command ≠ .claim → may.touch s.ledger.leases (s.tasks.get i).entry)
    (edit : TaskEdit env s i j request now finishHuman command s') : Advances may s s' := by
  have keyed := consistent.keyed
  cases edit with
  | claim claims => exact advances_claim keyed claims
  | start starts => exact advances_startTask keyed (allowed (by simp)) starts
  | heartbeat => exact advances_heartbeat
  | update edits => exact advances_editTask keyed (allowed (by simp)) edits
  | depend depend asks depends =>
    refine advances_dependTask keyed (allowed ?_) depends
    rw [asks]
    split <;> simp
  | resume retry asks resumes =>
    subst asks
    refine advances_resumeTask keyed owned kept (reopens ?_) (allowed ?_) resumes
    · cases retry with
      | true => exact .inl rfl
      | false => exact .inr rfl
    · split <;> simp
  | leave asks leaves =>
    refine advances_leaveTask consistent unfinished (allowed ?_) leaves
    rintro rfl
    cases asks

theorem advances_updateTask {options : WriteOptions} {reply : Reply}
    (consistent : Ledger.Consistent s.ledger) (plain : s.queryContext = {})
    (authorized : ∀ t ∈ s.tasks, authorize s t options now = .ok () → may.touch s.ledger.leases t.entry)
    (human : command = .done → options.actorRef = "user:obsidian" → ∀ t ∈ s.tasks,
      may.touch s.ledger.leases t.entry)
    (reopens : command = .retry ∨ command = .reopen → ∀ i,
      (required request "task" >>= s.taskIndex) = .ok i → ∀ job ∈ s.jobs,
      job.id = (s.tasks.get i).jobId → may.reopen s.ledger job.entry)
    (ok : updateTask env s command request options now = .ok (s', reply)) : Advances may s s' := by
  obtain ⟨i, j, chosen, change⟩ := updateTask_inv ok
  have mem : s.tasks.get i ∈ s.tasks := get_mem _ _
  have owned := jobIndex_of_task consistent mem chosen.home
  have allowed : command ≠ .claim → may.touch s.ledger.leases (s.tasks.get i).entry := by
    intro other
    cases byHand : finishesByHand command options (s.tasks.get i) with
    | true =>
      have finishes := of_decide_eq_true byHand
      exact human finishes.1 finishes.2.1 _ mem
    | false => exact authorized _ mem (chosen.authorized other byHand)
  obtain ⟨registers, plans⟩ | ⟨changed, completed, written⟩ := change
  · exact advances_registerPlan consistent.keyed (allowed (by rw [registers]; simp)) plans
  · obtain ⟨changes, ⟨policy, rfl⟩, rfl⟩ := written
    have change : Advances may s changed :=
      advances_changeTask consistent owned chosen.kept
        (fun resumes => reopens resumes i chosen.selected _ (get_mem _ _) owned)
        (fun byHand => by simpa using (of_decide_eq_true byHand).2.2) allowed changes
    generalize completes : (changed.modifyTask i fun task => task.stamped now).modifyJob j
      (Job.underPolicy policy) = completed
    have advanced : Advances may s completed :=
      completes ▸ (change.andTask (f := fun task => task.stamped now) fun _ => rfl).andJob
        (f := Job.underPolicy policy) fun _ => rfl
    have stamped : (changed.modifyTask i fun task => task.stamped now).jobs = changed.jobs := rfl
    have places : completed.jobs.map Job.id = s.jobs.map Job.id := by
      rw [← completes, jobIds_modifyJob (f := Job.underPolicy policy) fun _ => rfl, stamped,
        changeTask_jobIds changes]
    have bound : (j : Nat) < completed.jobs.length := by
      have sizes := congrArg length places
      rw [length_map, length_map] at sizes
      omega
    have named : (completed.jobs.get ⟨j, bound⟩).id = (s.jobs.get j).id := by
      have place := congrArg (fun ids => ids[(j : Nat)]?) places
      simpa [bound] using place
    exact advanced.trans (advances_aggregateJob (j := ⟨j, bound⟩) (advanced.keyed consistent.keyed)
      (advanced.plain plain) named _ now)

end Agentix.TaskStore

/-! # Sessions and expired leases as effects -/

namespace Agentix.TaskStore

open Lib Relation List

variable {may : Ledger.Authority} {s s' : Snapshot}

variable {env : Env} {now : Int} {host : Option String} {command : SessionCommand}
  {session : String}

theorem advances_systemBlock (consistent : Ledger.Consistent s.ledger) {i : Fin s.tasks.length}
    (working : (s.tasks.get i).status = .inProgress)
    (allowed : may.touch s.ledger.leases (s.tasks.get i).entry) (reason : String) (now : Int) :
    Advances may s (systemBlock s i reason now) := by
  have unfinished : (s.tasks.get i).status.terminal = false := by
    rw [working]
    rfl
  have incomplete : (s.tasks.get i).entry.completed = false := by
    have mark := consistent.settled.tasks _ (Snapshot.task_mem (get_mem s.tasks i))
    rw [Task.entry_status, unfinished] at mark
    simpa using mark
  have leaves : ((s.tasks.get i).blockedBySystem reason now).entry =
      (s.tasks.get i).entry.leaving .blocked := by
    unfold Ledger.Task.leaving
    rw [show TaskStatus.blocked.terminal = (s.tasks.get i).entry.completed from incomplete.symm]
    rfl
  exact .of_stopTask consistent leaves (by simp) unfinished allowed

theorem ofSession_session {t : Task} (belongs : ofSession t session host = true) :
    t.lastSession = some session := by
  simp only [ofSession, Bool.and_eq_true, decide_eq_true_iff] at belongs
  exact belongs.1

theorem advances_sessionTask {i : Fin s.tasks.length} (consistent : Ledger.Consistent s.ledger)
    (belongs : ofSession (s.tasks.get i) session host = true)
    (allowed : command = .finish ∨ command = .interrupt → ∀ leases (t : Ledger.Task),
      t.session = some session → may.touch leases t) :
    Advances may s (sessionTask env s i command session now).1 := by
  have ours : (s.tasks.get i).entry.session = some session := ofSession_session belongs
  cases command with
  | finish =>
    simp only [sessionTask]
    split
    · rename_i working
      exact advances_systemBlock consistent working (allowed (.inl rfl) _ _ ours) _ now
    · exact .refl
  | interrupt =>
    simp only [sessionTask]
    split
    · rename_i working
      exact advances_systemBlock consistent working (allowed (.inr rfl) _ _ ours) _ now
    · exact .refl
  | start =>
    simp only [sessionTask]
    split
    · split
      · rename_i claims
        exact (advances_claim consistent.keyed claims).andTask fun _ => rfl
      · exact .refl
    · exact .refl
  | heartbeat =>
    refine .unseen rfl ?_
    simp only [sessionTask, Snapshot.ledger, List.map_map]
    congr 1
    refine map_congr_left fun l _ => ?_
    simp only [Function.comp_apply]
    split <;> rfl

theorem advances_sessionLoop {rounds : List Nat} {changed : List String}
    (consistent : Ledger.Consistent s.ledger)
    (allowed : command = .finish ∨ command = .interrupt → ∀ leases (t : Ledger.Task),
      t.session = some session → may.touch leases t) :
    Advances may s (sessionLoop env command session host now rounds s changed).1 := by
  induction rounds generalizing s changed with
  | nil => exact .refl
  | cons i rest ih =>
    simp only [sessionLoop]
    split
    · split
      · rename_i belongs
        have round : Advances may s (sessionTask env s ⟨i, _⟩ command session now).1 :=
          advances_sessionTask consistent belongs allowed
        exact round.trans (ih (round.consistent consistent))
      · exact ih consistent
    · exact .refl

theorem advances_applySession {request : Value} {reply : Reply}
    (consistent : Ledger.Consistent s.ledger)
    (allowed : command = .finish ∨ command = .interrupt → ∀ session,
      required request "session" = .ok session → ∀ leases (t : Ledger.Task),
      t.session = some session → may.touch leases t)
    (ok : applySession env s command request now = .ok (s', reply)) : Advances may s s' := by
  obtain ⟨session, _, asked, rfl⟩ := applySession_inv ok
  exact advances_sessionLoop consistent fun ends => allowed ends session asked

/-! ## Expired leases -/

theorem advances_reapTasks {tasks : List String} (consistent : Ledger.Consistent s.ledger)
    (distinct : tasks.Nodup) (leased : ∀ task ∈ tasks, ∃ l ∈ s.leases, l.taskId = task)
    (allowed : ∀ leases t, may.touch leases t) (ok : reapTasks now tasks s = .ok s') :
    Advances may s s' := by
  induction tasks generalizing s with
  | nil =>
    cases ok
    exact .refl
  | cons task rest ih =>
    simp only [reapTasks, bind_ok] at ok
    obtain ⟨i, found, ok⟩ := ok
    obtain ⟨l, lease, named⟩ := leased task mem_cons_self
    obtain ⟨t', mem', holds⟩ := consistent.leased.held _ (Snapshot.lease_mem lease)
    obtain ⟨t, mem, rfl⟩ := mem_map.mp mem'
    have same : (s.tasks.get i).id = task :=
      resolve_exact found ⟨t, mem, holds.task.trans named⟩
    have holds' := consistent.leased.of_lease consistent.keyed
      (Snapshot.task_mem (get_mem s.tasks i)) (Snapshot.lease_mem lease)
      (same.trans named.symm)
    have blocked : Advances may s (systemBlock s i "lease expired" now) :=
      advances_systemBlock consistent holds'.status (allowed _ _) _ now
    rw [nodup_cons] at distinct
    refine blocked.trans (ih (blocked.consistent consistent) distinct.2 ?_ ok)
    intro other inRest
    obtain ⟨l', lease', named'⟩ := leased other (mem_cons_of_mem _ inRest)
    refine ⟨l', mem_filter.mpr ⟨lease', ?_⟩, named'⟩
    rw [decide_eq_true_iff, named', same]
    rintro rfl
    exact distinct.1 inRest

theorem advances_reapExpired (consistent : Ledger.Consistent s.ledger)
    (allowed : ∀ leases t, may.touch leases t) (ok : reapExpired s now = .ok s') :
    Advances may s s' := by
  refine advances_reapTasks consistent ?_ ?_ allowed ok
  · have apart := consistent.leased.single
    rw [Snapshot.ledger_leases, pairwise_map] at apart
    rw [List.Nodup, pairwise_map]
    exact (apart.imp fun different => different.1).sublist filter_sublist
  · intro task expired
    obtain ⟨l, filtered, named⟩ := mem_map.mp expired
    exact ⟨l, (mem_filter.mp filtered).1, named⟩

end Agentix.TaskStore
