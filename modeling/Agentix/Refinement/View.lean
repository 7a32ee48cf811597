import Agentix.Ledger.Consistent
import Agentix.TaskStore.Checks
import Agentix.TaskStore.Issue

/-! # The ledger of a snapshot

The rows of a `Snapshot` as the work ledger sees them, and what the lookups and checks of
the task store say about it.
-/

namespace Agentix.TaskStore

open Lib Relation List

/-! ## Rows -/

def Task.entry (t : Task) : Ledger.Task :=
  { id := t.id
    project := t.projectId
    job := t.jobId
    title := t.title
    name := t.name
    status := t.status
    phase := t.phase
    started := t.startedAt.isSome
    completed := t.completedAt.isSome
    dependencies := t.dependencies
    plan := t.currentPlan
    executor := t.lastExecutor
    session := t.lastSession }

def Job.entry (job : Job) : Ledger.Job :=
  { id := job.id
    project := job.projectId
    issue := job.issueId
    status := job.status
    completed := job.completedAt.isSome
    cancelled := job.cancelledAt.isSome
    archived := job.archivedAt.isSome
    followup := job.followupTaskIds }

def Lease.entry (l : Lease) : Ledger.Lease :=
  { task := l.taskId, executor := l.executorRef, session := l.sessionRef, token := l.token }

def Issue.entry (issue : Issue) : Ledger.Issue :=
  { id := issue.id, project := issue.projectId, status := issue.status }

def Snapshot.ledger (s : Snapshot) : Ledger.State :=
  { issues := s.issues.map Issue.entry
    jobs := s.jobs.map Job.entry
    tasks := s.tasks.map Task.entry
    leases := s.leases.map Lease.entry }

@[simp] theorem Task.entry_id (t : Task) : t.entry.id = t.id := rfl
@[simp] theorem Task.entry_job (t : Task) : t.entry.job = t.jobId := rfl
@[simp] theorem Task.entry_status (t : Task) : t.entry.status = t.status := rfl
@[simp] theorem Job.entry_id (job : Job) : job.entry.id = job.id := rfl
@[simp] theorem Job.entry_status (job : Job) : job.entry.status = job.status := rfl
@[simp] theorem Job.entry_issue (job : Job) : job.entry.issue = job.issueId := rfl
@[simp] theorem Lease.entry_task (l : Lease) : l.entry.task = l.taskId := rfl
@[simp] theorem Issue.entry_id (issue : Issue) : issue.entry.id = issue.id := rfl
@[simp] theorem Issue.entry_status (issue : Issue) : issue.entry.status = issue.status := rfl

section Members

variable {s : Snapshot}

@[simp] theorem Snapshot.ledger_tasks : s.ledger.tasks = s.tasks.map Task.entry := rfl
@[simp] theorem Snapshot.ledger_jobs : s.ledger.jobs = s.jobs.map Job.entry := rfl
@[simp] theorem Snapshot.ledger_leases : s.ledger.leases = s.leases.map Lease.entry := rfl
@[simp] theorem Snapshot.ledger_issues : s.ledger.issues = s.issues.map Issue.entry := rfl

theorem Snapshot.task_mem {t : Task} (mem : t ∈ s.tasks) : t.entry ∈ s.ledger.tasks :=
  mem_map_of_mem mem

theorem Snapshot.job_mem {job : Job} (mem : job ∈ s.jobs) : job.entry ∈ s.ledger.jobs :=
  mem_map_of_mem mem

theorem Snapshot.lease_mem {l : Lease} (mem : l ∈ s.leases) : l.entry ∈ s.ledger.leases :=
  mem_map_of_mem mem

theorem Snapshot.issue_mem {issue : Issue} (mem : issue ∈ s.issues) :
    issue.entry ∈ s.ledger.issues :=
  mem_map_of_mem mem

end Members

theorem distinct_tasks {s : Snapshot} (keyed : Ledger.Keyed s.ledger) : Distinct Task.id s.tasks := by
  have tasks := keyed.tasks
  unfold Distinct at *
  rw [Snapshot.ledger_tasks, List.map_map] at tasks
  exact tasks

theorem distinct_jobs {s : Snapshot} (keyed : Ledger.Keyed s.ledger) : Distinct Job.id s.jobs := by
  have jobs := keyed.jobs
  unfold Distinct at *
  rw [Snapshot.ledger_jobs, List.map_map] at jobs
  exact jobs

/-! ## Lookups -/

section Lookups

variable {s : Snapshot}

theorem rowOf_issue {i : Fin s.issues.length} {query : String}
    (found : s.issueIndex query = .ok i) :
    rowOf s.ledger.issues Ledger.Issue.id (s.issues.get i).id = some (s.issues.get i).entry := by
  unfold rowOf
  rw [Snapshot.ledger_issues, find?_eq_some_iff_getElem]
  refine ⟨by simp, i, by simp, by simp, ?_⟩
  intro j before
  have other := resolve_first found ⟨j, Nat.lt_trans before i.isLt⟩ before
  simpa using other

theorem first_issue {i : Fin s.issues.length} {query : String}
    (found : s.issueIndex query = .ok i) :
    ∀ j < (i : Nat), ∀ other, s.ledger.issues[j]? = some other →
      other.id ≠ (s.issues.get i).entry.id := by
  intro j before other place
  have bound : j < s.issues.length := Nat.lt_trans before i.isLt
  rw [Snapshot.ledger_issues, getElem?_map, getElem?_eq_getElem bound] at place
  cases place
  exact resolve_first found ⟨j, bound⟩ before

theorem jobIndex_of_task (consistent : Ledger.Consistent s.ledger) {t : Task}
    (mem : t ∈ s.tasks) {j : Fin s.jobs.length} (found : s.jobIndex t.jobId = .ok j) :
    (s.jobs.get j).id = t.jobId := by
  obtain ⟨job, job_mem, owns, _⟩ := consistent.linked.home _ (Snapshot.task_mem mem)
  obtain ⟨row, row_mem, rfl⟩ := mem_map.mp job_mem
  exact resolve_exact found ⟨row, row_mem, owns⟩

end Lookups

/-! ## Checks -/

theorem jobReady_iff {s : Snapshot} (plain : s.queryContext = {}) (job : String) :
    jobReady s job = true ↔ Ledger.Ready s.ledger job := by
  unfold jobReady Ledger.Ready
  simp only [plain, lookup_nil, Option.getD_none, Snapshot.ledger_tasks]
  constructor
  · intro ready
    simp only [Bool.and_eq_true, Bool.or_eq_true, Bool.not_eq_true', isEmpty_eq_false_iff,
      all_eq_true, decide_eq_true_iff, mem_filter] at ready
    obtain ⟨⟨some_task, _⟩, all_done⟩ := ready
    constructor
    · obtain ⟨t, mem⟩ := exists_mem_of_ne_nil _ (some_task.resolve_left (by simp))
      obtain ⟨mem, here⟩ := mem_filter.mp mem
      exact ⟨t.entry, mem_map_of_mem mem, by simpa using here⟩
    · intro t' mem' owned counted
      obtain ⟨t, mem, rfl⟩ := mem_map.mp mem'
      exact all_done t ⟨mem, owned, counted⟩
  · rintro ⟨⟨t', mem', owned, counted⟩, all_done⟩
    obtain ⟨t, mem, rfl⟩ := mem_map.mp mem'
    have filtered : t ∈ s.tasks.filter fun t => t.jobId = job ∧ t.status ≠ .cancelled :=
      mem_filter.mpr ⟨mem, by simpa using ⟨owned, counted⟩⟩
    simp only [Bool.and_eq_true, Bool.or_eq_true, Bool.not_eq_true', isEmpty_eq_false_iff,
      all_eq_true, decide_eq_true_iff]
    refine ⟨⟨.inr (ne_nil_of_mem filtered), by rfl⟩, ?_⟩
    intro u inFilter
    obtain ⟨u_mem, here⟩ := mem_filter.mp inFilter
    simp only [decide_eq_true_iff] at here
    exact all_done u.entry (mem_map_of_mem u_mem) here.1 here.2

theorem jobReady_unfinished {s : Snapshot} {t : Task} (mem : t ∈ s.tasks)
    (unfinished : t.status = .todo) : jobReady s t.jobId = false := by
  have counted : t ∈ s.tasks.filter fun u => u.jobId = t.jobId ∧ u.status ≠ .cancelled :=
    mem_filter.mpr ⟨mem, by simp [unfinished]⟩
  have unready : ((s.tasks.filter fun u => u.jobId = t.jobId ∧ u.status ≠ .cancelled).all
      fun u => u.status = .done) = false :=
    all_eq_false.mpr ⟨t, counted, by simp [unfinished]⟩
  unfold jobReady
  simp only [unready, Bool.and_false]

theorem dependsOn_iff {s : Snapshot} (keyed : Ledger.Keyed s.ledger) (source target : String) :
    dependsOn s source target = true ↔
      TransGen (Ledger.DependsOn s.ledger.tasks) source target := by
  unfold dependsOn
  rw [reaches_eq_true_iff]
  have distinct : Distinct Task.id s.tasks := distinct_tasks keyed
  have same : ∀ a b, Edge s.tasks Task.id Task.dependencies a b ↔
      Ledger.DependsOn s.ledger.tasks a b := by
    intro a b
    constructor
    · rintro ⟨t, found, depends⟩
      obtain ⟨mem, named⟩ := rowOf_some found
      exact ⟨t.entry, Snapshot.task_mem mem, named, depends⟩
    · rintro ⟨t', mem', rfl, depends⟩
      obtain ⟨t, mem, rfl⟩ := mem_map.mp mem'
      exact ⟨t, distinct.rowOf_eq_some mem, depends⟩
  constructor
  · exact TransGen.mono (fun a b => (same a b).mp) source target
  · exact TransGen.mono (fun a b => (same a b).mpr) source target

end Agentix.TaskStore

/-! # Advancing a snapshot

`Advances may s s'` says that `s'` follows from `s` by effects on the ledger, with the
query summaries unchanged.  The lemmas turn the row edits of the task store into effects.
-/

namespace Agentix.TaskStore

open Lib Relation List

structure Advances (may : Ledger.Authority) (s s' : Snapshot) : Prop where
  context : s'.queryContext = s.queryContext
  effects : Ledger.Effects may s.ledger s'.ledger

namespace Advances

variable {may : Ledger.Authority} {s s' s'' : Snapshot}

theorem refl : Advances may s s := ⟨rfl, .refl⟩

theorem trans (first : Advances may s s') (second : Advances may s' s'') : Advances may s s'' :=
  ⟨second.context.trans first.context, first.effects.trans second.effects⟩

theorem unseen (context : s'.queryContext = s.queryContext) (same : s'.ledger = s.ledger) :
    Advances may s s' :=
  ⟨context, same ▸ .refl⟩

theorem one (context : s'.queryContext = s.queryContext)
    (effect : Ledger.Effect may s.ledger s'.ledger) : Advances may s s' :=
  ⟨context, .single effect⟩

theorem consistent (advances : Advances may s s') (before : Ledger.Consistent s.ledger) :
    Ledger.Consistent s'.ledger :=
  Ledger.consistent_effects advances.effects before

theorem keyed (advances : Advances may s s') (before : Ledger.Keyed s.ledger) :
    Ledger.Keyed s'.ledger :=
  invariant_of_steps Ledger.Keyed (fun _ _ => Ledger.keyed_effect) advances.effects before

theorem plain (advances : Advances may s s') (before : s.queryContext = {}) :
    s'.queryContext = {} :=
  advances.context.trans before

end Advances

section Rows

variable {may : Ledger.Authority} {s : Snapshot}

/-! ## Rows the ledger does not see change -/

theorem ledger_modifyTask_unseen {i : Nat} {f : Task → Task} (unseen : ∀ t, (f t).entry = t.entry) :
    (s.modifyTask i f).ledger = s.ledger := by
  unfold Snapshot.ledger Snapshot.modifyTask
  congr 1
  apply ext_getElem
  · simp
  · intro n _ _
    simp only [getElem_map, getElem_modify]
    split
    · exact unseen _
    · rfl

theorem ledger_modifyJob_unseen {j : Nat} {f : Job → Job} (unseen : ∀ job, (f job).entry = job.entry) :
    (s.modifyJob j f).ledger = s.ledger := by
  unfold Snapshot.ledger Snapshot.modifyJob
  congr 1
  apply ext_getElem
  · simp
  · intro n _ _
    simp only [getElem_map, getElem_modify]
    split
    · exact unseen _
    · rfl

theorem Advances.andTask {s' : Snapshot} (advances : Advances may s s') {i : Nat} {f : Task → Task}
    (unseen : ∀ t, (f t).entry = t.entry) : Advances may s (s'.modifyTask i f) :=
  advances.trans (.unseen rfl (ledger_modifyTask_unseen unseen))

theorem Advances.andJob {s' : Snapshot} (advances : Advances may s s') {j : Nat} {f : Job → Job}
    (unseen : ∀ job, (f job).entry = job.entry) : Advances may s (s'.modifyJob j f) :=
  advances.trans (.unseen rfl (ledger_modifyJob_unseen unseen))

theorem Advances.of_jobRow {j : Fin s.jobs.length} {row : Job}
    (same : row.entry = (s.jobs.get j).entry) : Advances may s (s.modifyJob j fun _ => row) := by
  refine .unseen rfl ?_
  unfold Snapshot.ledger Snapshot.modifyJob
  rw [map_modify_eq_self j same]

/-! ## Rows that move -/

theorem ledger_modifyJob (keyed : Ledger.Keyed s.ledger) (j : Fin s.jobs.length) (f : Job → Job) :
    (s.modifyJob j f).ledger = { s.ledger with
      jobs := alter Ledger.Job.id (s.jobs.get j).id (fun _ => (f (s.jobs.get j)).entry)
        s.ledger.jobs } := by
  have rows : (s.jobs.modify j f).map Job.entry =
      alter Ledger.Job.id (s.jobs.get j).entry.id (fun _ => (f (s.jobs.get j)).entry)
        (s.jobs.map Job.entry) := map_modify_eq_alter j keyed.jobs rfl
  unfold Snapshot.ledger Snapshot.modifyJob
  rw [rows]
  rfl

theorem ledger_modifyTask (keyed : Ledger.Keyed s.ledger) (i : Fin s.tasks.length)
    (f : Task → Task) :
    (s.modifyTask i f).ledger = { s.ledger with
      tasks := alter Ledger.Task.id (s.tasks.get i).id (fun _ => (f (s.tasks.get i)).entry)
        s.ledger.tasks } := by
  have rows : (s.tasks.modify i f).map Task.entry =
      alter Ledger.Task.id (s.tasks.get i).entry.id (fun _ => (f (s.tasks.get i)).entry)
        (s.tasks.map Task.entry) := map_modify_eq_alter i keyed.tasks rfl
  unfold Snapshot.ledger Snapshot.modifyTask
  rw [rows]
  rfl

theorem Advances.of_jobMove (keyed : Ledger.Keyed s.ledger) {j : Fin s.jobs.length}
    {f : Job → Job}
    (move : Ledger.JobMove may s.ledger (s.jobs.get j).entry (f (s.jobs.get j)).entry) :
    Advances may s (s.modifyJob j f) := by
  refine .one rfl ?_
  rw [ledger_modifyJob keyed]
  refine .moveJobs fun row mem => ?_
  split
  · rename_i same
    rw [keyed.jobs.eq_of_key mem (Snapshot.job_mem (get_mem _ _)) same]
    exact move
  · exact .stay row

theorem Advances.of_taskMove (keyed : Ledger.Keyed s.ledger) {i : Fin s.tasks.length}
    {f : Task → Task}
    (move : Ledger.TaskMove s.ledger (s.tasks.get i).entry (f (s.tasks.get i)).entry)
    (allowed : may.touch s.ledger.leases (s.tasks.get i).entry) :
    Advances may s (s.modifyTask i f) := by
  refine .one rfl ?_
  rw [ledger_modifyTask keyed]
  exact .changeTask (Snapshot.task_mem (get_mem _ _)) move allowed

theorem Advances.of_issueRow {i : Fin s.issues.length} {query : String}
    (found : s.issueIndex query = .ok i) {f : Issue → Issue}
    (same : (f (s.issues.get i)).id = (s.issues.get i).id ∧
      (f (s.issues.get i)).projectId = (s.issues.get i).projectId)
    (settled : (f (s.issues.get i)).status.terminal = true →
      (s.issues.get i).status = (f (s.issues.get i)).status ∨
        ∀ job ∈ s.jobs, job.issueId = some (s.issues.get i).id → job.status.terminal = true) :
    Advances may s (s.modifyIssue i f) := by
  have target : (s.modifyIssue i f).ledger =
      { s.ledger with
        issues := s.ledger.issues.set i
          { (s.issues.get i).entry with status := (f (s.issues.get i)).status } } := by
    unfold Snapshot.ledger Snapshot.modifyIssue
    congr 1
    apply ext_getElem
    · simp
    · intro n _ _
      simp only [getElem_map, getElem_modify, getElem_set]
      split
      · rename_i here
        subst here
        simp only [get_eq_getElem] at same
        simp [Issue.entry, same]
      · rfl
  refine .one rfl ?_
  rw [target]
  refine .changeIssue (by simp) (first_issue found) ?_
  intro finished
  refine (settled finished).imp id fun ended job' mem' linked => ?_
  obtain ⟨job, mem, rfl⟩ := mem_map.mp mem'
  exact ended job mem linked

/-! ## Tasks that stop -/

theorem Advances.of_stop (consistent : Ledger.Consistent s.ledger) {s' : Snapshot}
    (stop : Ledger.Task → Option TaskStatus) (keep : Lease → Bool)
    (context : s'.queryContext = s.queryContext) (issues : s'.issues = s.issues)
    (jobs : s'.jobs = s.jobs)
    (tasks : s'.tasks.map Task.entry = s.ledger.tasks.map (Ledger.Task.stopped stop))
    (leases : s'.leases = s.leases.filter keep)
    (kept : ∀ l ∈ s.leases, ∀ t ∈ s.tasks, t.entry.HeldBy l.entry →
      (keep l = true ↔ stop t.entry = none))
    (each : ∀ t ∈ s.ledger.tasks, ∀ next, stop t = some next →
      next ≠ .inProgress ∧ t.status.terminal = false ∧ may.touch s.ledger.leases t) :
    Advances may s s' := by
  have same_leases : s'.leases.map Lease.entry =
      s.ledger.leases.filter (Ledger.keptLease s.ledger stop) := by
    rw [leases, Snapshot.ledger_leases, filter_map]
    congr 1
    refine filter_congr fun l mem => ?_
    obtain ⟨t', mem', holds⟩ := consistent.leased.held _ (Snapshot.lease_mem mem)
    obtain ⟨t, task_mem, rfl⟩ := mem_map.mp mem'
    rw [Bool.eq_iff_iff, kept l mem t task_mem holds]
    constructor
    · intro goes_on
      refine Ledger.keptLease_iff.mpr fun u u_mem named => ?_
      rw [consistent.keyed.tasks.eq_of_key u_mem mem' (named.trans holds.task.symm), goes_on]
    · intro all_on
      exact Ledger.keptLease_iff.mp all_on _ mem' holds.task
  refine .one context ?_
  have target : s'.ledger =
      { s.ledger with
        tasks := s.ledger.tasks.map (Ledger.Task.stopped stop)
        leases := s.ledger.leases.filter (Ledger.keptLease s.ledger stop) } := by
    unfold Snapshot.ledger at tasks same_leases ⊢
    rw [issues, jobs, tasks, same_leases]
  rw [target]
  exact .stop each

theorem Advances.of_stopTask (consistent : Ledger.Consistent s.ledger) {i : Fin s.tasks.length}
    {f : Task → Task} {next : TaskStatus}
    (leaves : (f (s.tasks.get i)).entry = (s.tasks.get i).entry.leaving next)
    (idle : next ≠ .inProgress) (unfinished : (s.tasks.get i).status.terminal = false)
    (allowed : may.touch s.ledger.leases (s.tasks.get i).entry) :
    Advances may s { s.modifyTask i f with
      leases := s.leases.filter fun l => l.taskId ≠ (s.tasks.get i).id } := by
  have self : ∀ t ∈ s.ledger.tasks, t.id = (s.tasks.get i).id → t = (s.tasks.get i).entry :=
    fun t mem => consistent.keyed.tasks.eq_of_key mem (Snapshot.task_mem (get_mem _ _))
  refine .of_stop consistent (fun t => if t.id = (s.tasks.get i).id then some next else none) _
    rfl rfl rfl ?_ rfl ?_ ?_
  · unfold Snapshot.modifyTask
    rw [map_modify_eq_alter i consistent.keyed.tasks (g := fun _ => (f (s.tasks.get i)).entry) rfl]
    refine map_congr_left fun t mem => ?_
    by_cases here : t.id = (s.tasks.get i).id
    · rw [Ledger.Task.stopped_some (if_pos here), self t mem here, ← leaves]
      exact if_pos rfl
    · rw [Ledger.Task.stopped_none (if_neg here)]
      exact if_neg here
  · intro l _ t _ holds
    have named : t.id = l.taskId := holds.task
    simp [named]
  · intro t mem status stops
    simp only [Option.ite_none_right_eq_some, Option.some.injEq] at stops
    obtain ⟨here, rfl⟩ := stops
    rw [self t mem here]
    exact ⟨idle, unfinished, allowed⟩

end Rows

end Agentix.TaskStore
