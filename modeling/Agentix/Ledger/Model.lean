import Agentix.Lib.Rows
import Agentix.TaskStore.Model
import Mathlib.Logic.Relation

/-! # The work ledger

What the task store is for, without its documents, clocks and counters: who may work
on what.  A state holds Issues, Jobs, Tasks and leases; an `Effect` is one change that
the store may make to it, together with the reason that makes it safe.  A command is a
sequence of effects.
-/

namespace Agentix.Ledger

open Lib TaskStore Relation

/-! ## State -/

structure Task where
  id : String
  project : String
  job : String
  title : String
  name : String
  status : TaskStatus
  phase : Option TaskPhase
  started : Bool
  completed : Bool
  dependencies : List String
  plan : Option String
  executor : Option String
  session : Option String

structure Job where
  id : String
  project : String
  issue : Option String
  status : JobStatus
  completed : Bool
  cancelled : Bool
  archived : Bool
  followup : List String

structure Lease where
  task : String
  executor : String
  session : String
  token : String

structure Issue where
  id : String
  project : String
  status : IssueStatus

structure State where
  issues : List Issue := []
  jobs : List Job := []
  tasks : List Task := []
  leases : List Lease := []

/-- `a` names `b` among its dependencies. -/
def DependsOn (tasks : List Task) (a b : String) : Prop :=
  ∃ t ∈ tasks, t.id = a ∧ b ∈ t.dependencies

def Ready (L : State) (job : String) : Prop :=
  (∃ t ∈ L.tasks, t.job = job ∧ t.status ≠ .cancelled) ∧
    ∀ t ∈ L.tasks, t.job = job → t.status ≠ .cancelled → t.status = .done

def Ended (L : State) (job : String) : Prop :=
  ∀ t ∈ L.tasks, t.job = job → t.status.terminal = true

/-! ## Effects -/

/-- What a step may do beyond the ledger's own rules. -/
structure Authority where
  /-- The step may change or stop the Task, although it may be leased. -/
  touch : List Lease → Task → Prop
  /-- The step may bring the Job back from its end. -/
  reopen : State → Job → Prop

/-- The changes of one Job that leave Tasks and leases alone. -/
inductive JobMove (may : Authority) (L : State) : Job → Job → Prop
  | stay (job : Job) : JobMove may L job job
  | archive {job : Job} {archived : Bool} (ended : archived = true → job.status.terminal = true) :
      JobMove may L job { job with archived }
  | link {job : Job} {issue : Option String}
      (accepting : job.status.terminal = true ∨ ∀ id, issue = some id →
        ∃ row, rowOf L.issues Issue.id id = some row ∧ row.status.terminal = false) :
      JobMove may L job { job with issue }
  | activate {job : Job} {followup : List String} (pending : job.status = .pendingReview)
      (own : followup = job.followup ∨
        ∀ d ∈ followup, ∃ t ∈ L.tasks, t.id = d ∧ t.job = job.id) :
      JobMove may L job { job with status := .active, completed := false, followup }
  | submit {job : Job} (active : job.status = .active) (ready : Ready L job.id) :
      JobMove may L job { job with status := .pendingReview, completed := false }
  | complete {job : Job} (unfinished : job.status.terminal = false) (ended : Ended L job.id) :
      JobMove may L job { job with status := .completed, completed := true }
  | cancel {job : Job} (unfinished : job.status.terminal = false) (ended : Ended L job.id) :
      JobMove may L job { job with status := .cancelled, cancelled := true }
  | reopen {job : Job} (kept : job.status ≠ .cancelled) (present : job.archived = false)
      (allowed : may.reopen L job) :
      JobMove may L job { job with status := .active, completed := false }

/-- The changes of one Task that leave its lease alone. -/
inductive TaskMove (L : State) (t : Task) : Task → Prop
  | edit {title name : String} {plan : Option String} : TaskMove L t { t with title, name, plan }
  | start (planning : t.phase = some .planning)
      (ready : ∀ d ∈ t.dependencies, ∃ u ∈ L.tasks, u.id = d ∧ u.status = .done) :
      TaskMove L t { t with phase := some .executing, started := true }
  | depend {target : Task} (unstarted : t.started = false) (member : target ∈ L.tasks)
      (same : target.project = t.project)
      (acyclic : ¬ ReflTransGen (DependsOn L.tasks) target.id t.id) :
      TaskMove L t { t with dependencies := t.dependencies ++ [target.id] }
  | undepend {dependencies : List String} (unstarted : t.started = false)
      (fewer : dependencies ⊆ t.dependencies) : TaskMove L t { t with dependencies }
  | resume (ended : t.status.terminal = true)
      (unused : ∀ u ∈ L.tasks, u.started = true → ¬ TransGen (DependsOn L.tasks) u.id t.id)
      (active : ∀ job ∈ L.jobs, job.id = t.job → job.status = .active) :
      TaskMove L t { t with status := .todo, phase := none, completed := false }

def Task.leaving (t : Task) (next : TaskStatus) : Task :=
  { t with status := next, phase := none, completed := next.terminal }

/-- The Task after it stops with the status that `stop` gives it, if any. -/
def Task.stopped (stop : Task → Option TaskStatus) (t : Task) : Task :=
  match stop t with
  | some next => t.leaving next
  | none => t

def Task.claimed (t : Task) (lease : Lease) : Task :=
  { t with
    status := .inProgress, phase := some .planning, executor := some lease.executor,
    session := some lease.session }

def keptLease (L : State) (stop : Task → Option TaskStatus) (l : Lease) : Bool :=
  L.tasks.all fun t => t.id ≠ l.task || (stop t).isNone

inductive Effect (may : Authority) : State → State → Prop
  | addIssue {L : State} {issue : Issue} (todo : issue.status = .todo) :
      Effect may L { L with issues := L.issues ++ [issue] }
  | changeIssue {L : State} {i : Nat} {issue : Issue} {status : IssueStatus}
      (found : L.issues[i]? = some issue)
      (first : ∀ j < i, ∀ other, L.issues[j]? = some other → other.id ≠ issue.id)
      (settled : status.terminal = true → issue.status = status ∨
        ∀ job ∈ L.jobs, job.issue = some issue.id → job.status.terminal = true) :
      Effect may L { L with issues := L.issues.set i { issue with status } }
  | addJob {L : State} {job : Job} (fresh : ∀ old ∈ L.jobs, old.id ≠ job.id)
      (active : job.status = .active) (unlinked : job.issue = none)
      (unmarked : job.completed = false ∧ job.cancelled = false ∧ job.archived = false)
      (alone : job.followup = []) : Effect may L { L with jobs := L.jobs ++ [job] }
  | moveJobs {L : State} {move : Job → Job} (each : ∀ job ∈ L.jobs, JobMove may L job (move job)) :
      Effect may L { L with jobs := L.jobs.map move }
  | addTask {L : State} {job : Job} {t : Task} (member : job ∈ L.jobs)
      (active : job.status = .active) (fresh : ∀ old ∈ L.tasks, old.id ≠ t.id)
      (owned : t.job = job.id ∧ t.project = job.project)
      (idle : t.status = .todo ∧ t.phase = none ∧ t.started = false ∧ t.completed = false)
      (inherited : t.dependencies = job.followup) :
      Effect may L { L with tasks := L.tasks ++ [t] }
  | changeTask {L : State} {t t' : Task} (member : t ∈ L.tasks) (move : TaskMove L t t')
      (allowed : may.touch L.leases t) :
      Effect may L { L with tasks := alter Task.id t.id (fun _ => t') L.tasks }
  | claim {L : State} {t : Task} {lease : Lease} (member : t ∈ L.tasks)
      (unfinished : t.status.terminal = false) (idle : t.status ≠ .inProgress)
      (same : lease.task = t.id)
      (free : ∀ l ∈ L.leases, l.task ≠ lease.task ∧
        ¬ (l.executor = lease.executor ∧ l.session = lease.session)) :
      Effect may L { L with
        tasks := alter Task.id t.id (fun _ => t.claimed lease) L.tasks
        leases := L.leases ++ [lease] }
  | stop {L : State} {stop : Task → Option TaskStatus}
      (each : ∀ t ∈ L.tasks, ∀ next, stop t = some next →
        next ≠ .inProgress ∧ t.status.terminal = false ∧ may.touch L.leases t) :
      Effect may L { L with
        tasks := L.tasks.map (Task.stopped stop)
        leases := L.leases.filter (keptLease L stop) }
  | delete {L : State} {jobs : List String} {keep : Issue → Bool}
      (unleased : ∀ t ∈ L.tasks, t.job ∈ jobs → ∀ l ∈ L.leases, l.task ≠ t.id)
      (unneeded : ∀ t ∈ L.tasks, t.job ∉ jobs → ∀ u ∈ L.tasks, u.job ∈ jobs →
        u.id ∉ t.dependencies) :
      Effect may L { L with
        jobs := L.jobs.filter fun job => job.id ∉ jobs
        tasks := L.tasks.filter fun t => t.job ∉ jobs
        issues := L.issues.filter keep }

/-- The effects of one step, one after another. -/
abbrev Effects (may : Authority) : State → State → Prop :=
  ReflTransGen (Effect may)

end Agentix.Ledger

/-! # Identity and ownership

No two Jobs and no two Tasks share an identifier, every Task belongs to a Job of its
Project, and a follow-up round names Tasks of its own Job.
-/

namespace Agentix.Ledger

open Lib TaskStore Relation List

/-! ## What the changes keep -/

section Kept

variable {may : Authority} {L : State} {job job' : Job} {t t' : Task}

theorem JobMove.id_eq (move : JobMove may L job job') : job'.id = job.id := by
  cases move <;> rfl

theorem JobMove.project_eq (move : JobMove may L job job') : job'.project = job.project := by
  cases move <;> rfl

theorem TaskMove.id_eq (move : TaskMove L t t') : t'.id = t.id := by
  cases move <;> rfl

theorem TaskMove.project_eq (move : TaskMove L t t') : t'.project = t.project := by
  cases move <;> rfl

theorem TaskMove.job_eq (move : TaskMove L t t') : t'.job = t.job := by
  cases move <;> rfl

theorem TaskMove.executor_eq (move : TaskMove L t t') : t'.executor = t.executor := by
  cases move <;> rfl

theorem TaskMove.session_eq (move : TaskMove L t t') : t'.session = t.session := by
  cases move <;> rfl

variable (stop : Task → Option TaskStatus) (t)

@[simp] theorem Task.stopped_id : (t.stopped stop).id = t.id := by
  unfold Task.stopped
  cases stop t <;> rfl

@[simp] theorem Task.stopped_project : (t.stopped stop).project = t.project := by
  unfold Task.stopped
  cases stop t <;> rfl

@[simp] theorem Task.stopped_job : (t.stopped stop).job = t.job := by
  unfold Task.stopped
  cases stop t <;> rfl

@[simp] theorem Task.stopped_started : (t.stopped stop).started = t.started := by
  unfold Task.stopped
  cases stop t <;> rfl

@[simp] theorem Task.stopped_dependencies :
    (t.stopped stop).dependencies = t.dependencies := by
  unfold Task.stopped
  cases stop t <;> rfl

variable {stop} {t}

theorem Task.stopped_none (still : stop t = none) : t.stopped stop = t := by
  unfold Task.stopped
  rw [still]

theorem Task.stopped_some {next : TaskStatus} (stops : stop t = some next) :
    t.stopped stop = t.leaving next := by
  unfold Task.stopped
  rw [stops]

theorem keptLease_iff {l : Lease} :
    keptLease L stop l = true ↔ ∀ t ∈ L.tasks, t.id = l.task → stop t = none := by
  simp only [keptLease, all_eq_true, Bool.or_eq_true, decide_eq_true_iff,
    Option.isNone_iff_eq_none, ne_eq, imp_iff_not_or]

end Kept

/-! ## Invariants -/

structure Keyed (L : State) : Prop where
  jobs : Distinct Job.id L.jobs
  tasks : Distinct Task.id L.tasks

structure Linked (L : State) : Prop where
  home : ∀ t ∈ L.tasks, ∃ job ∈ L.jobs, job.id = t.job ∧ job.project = t.project
  followup : ∀ job ∈ L.jobs, ∀ d ∈ job.followup, ∃ t ∈ L.tasks, t.id = d ∧ t.job = job.id

theorem keyed_empty : Keyed {} := ⟨nodup_nil, nodup_nil⟩

theorem linked_empty : Linked {} := ⟨by simp, by simp⟩

variable {may : Authority} {L L' : State}

theorem linked_of_edits (linked : Linked L) (move : Job → Job) (edit : Task → Task)
    (jobs : ∀ job ∈ L.jobs, (move job).id = job.id ∧ (move job).project = job.project ∧
      ∀ d ∈ (move job).followup, ∃ t ∈ L.tasks, t.id = d ∧ t.job = job.id)
    (tasks : ∀ t ∈ L.tasks, (edit t).id = t.id ∧ (edit t).job = t.job ∧
      (edit t).project = t.project) {L' : State} (jobs_eq : L'.jobs = L.jobs.map move)
    (tasks_eq : L'.tasks = L.tasks.map edit) : Linked L' := by
  constructor
  · intro t' mem'
    rw [tasks_eq] at mem'
    obtain ⟨t, mem, rfl⟩ := mem_map.mp mem'
    obtain ⟨_, sameJob, sameProject⟩ := tasks t mem
    obtain ⟨job, jobMem, owns, within⟩ := linked.home t mem
    obtain ⟨sameId, sameHome, _⟩ := jobs job jobMem
    rw [jobs_eq]
    exact ⟨move job, mem_map_of_mem jobMem, by rw [sameId, owns, sameJob],
      by rw [sameHome, within, sameProject]⟩
  · intro job' mem' d inRound
    rw [jobs_eq] at mem'
    obtain ⟨job, mem, rfl⟩ := mem_map.mp mem'
    obtain ⟨sameId, _, round⟩ := jobs job mem
    obtain ⟨t, taskMem, rfl, owned⟩ := round d inRound
    obtain ⟨sameTask, sameJob, _⟩ := tasks t taskMem
    rw [tasks_eq]
    exact ⟨edit t, mem_map_of_mem taskMem, sameTask, by rw [sameJob, owned, sameId]⟩

theorem linked_of_task_edits (linked : Linked L) (edit : Task → Task)
    (tasks : ∀ t ∈ L.tasks, (edit t).id = t.id ∧ (edit t).job = t.job ∧
      (edit t).project = t.project) {L' : State} (jobs_eq : L'.jobs = L.jobs)
    (tasks_eq : L'.tasks = L.tasks.map edit) : Linked L' := by
  refine linked_of_edits linked id edit ?_ tasks (by simpa using jobs_eq) tasks_eq
  intro job mem
  exact ⟨rfl, rfl, linked.followup job mem⟩

theorem JobMove.followup_own (linked : Linked L) {job job' : Job} (mem : job ∈ L.jobs)
    (move : JobMove may L job job') :
    ∀ d ∈ job'.followup, ∃ t ∈ L.tasks, t.id = d ∧ t.job = job.id := by
  cases move with
  | activate pending own =>
    rcases own with same | own
    · rw [same]
      exact linked.followup job mem
    · exact own
  | _ => exact linked.followup job mem

theorem keyed_effect (effect : Effect may L L') (keyed : Keyed L) : Keyed L' := by
  obtain ⟨jobs, tasks⟩ := keyed
  cases effect with
  | addIssue => exact ⟨jobs, tasks⟩
  | changeIssue => exact ⟨jobs, tasks⟩
  | addJob fresh => exact ⟨jobs.append fresh, tasks⟩
  | moveJobs each => exact ⟨jobs.map fun job mem => (each job mem).id_eq, tasks⟩
  | addTask _ _ fresh => exact ⟨jobs, tasks.append fresh⟩
  | @changeTask t t' mem move =>
    refine ⟨jobs, tasks.map fun row _ => ?_⟩
    split
    · rename_i same
      rw [same, move.id_eq]
    · rfl
  | @claim t lease mem =>
    refine ⟨jobs, tasks.map fun row _ => ?_⟩
    split
    · rename_i same
      exact same.symm
    · rfl
  | stop => exact ⟨jobs, tasks.map fun t _ => Task.stopped_id t _⟩
  | delete => exact ⟨jobs.filter _, tasks.filter _⟩

theorem linked_effect (effect : Effect may L L') (keyed : Keyed L) (linked : Linked L) :
    Linked L' := by
  cases effect with
  | addIssue => exact ⟨linked.home, linked.followup⟩
  | changeIssue => exact ⟨linked.home, linked.followup⟩
  | @addJob job fresh active unlinked unmarked alone =>
    constructor
    · intro t mem
      obtain ⟨old, oldMem, owns⟩ := linked.home t mem
      exact ⟨old, mem_append_left _ oldMem, owns⟩
    · intro row mem d inRound
      rcases mem_append.mp mem with old | new
      · exact linked.followup row old d inRound
      · rw [mem_singleton.mp new, alone] at inRound
        cases inRound
  | moveJobs each =>
    refine linked_of_edits linked _ id ?_ (fun t _ => ⟨rfl, rfl, rfl⟩) rfl (by simp)
    intro job mem
    have move := each job mem
    exact ⟨move.id_eq, move.project_eq, move.followup_own linked mem⟩
  | @addTask job t mem active fresh owned =>
    constructor
    · intro row rowMem
      rcases mem_append.mp rowMem with old | new
      · exact linked.home row old
      · rw [mem_singleton.mp new]
        exact ⟨job, mem, owned.1.symm, owned.2.symm⟩
    · intro row rowMem d inRound
      obtain ⟨old, oldMem, owns⟩ := linked.followup row rowMem d inRound
      exact ⟨old, mem_append_left _ oldMem, owns⟩
  | changeTask mem move =>
    refine linked_of_task_edits linked _ ?_ rfl rfl
    intro row _
    split
    · rename_i same
      rw [← (keyed.tasks.eq_of_key ‹_› mem same)] at move
      exact ⟨move.id_eq, move.job_eq, move.project_eq⟩
    · exact ⟨rfl, rfl, rfl⟩
  | claim mem =>
    refine linked_of_task_edits linked _ ?_ rfl rfl
    intro row _
    split
    · rename_i same
      rw [keyed.tasks.eq_of_key ‹_› mem same]
      exact ⟨rfl, rfl, rfl⟩
    · exact ⟨rfl, rfl, rfl⟩
  | stop =>
    refine linked_of_task_edits linked _ ?_ rfl rfl
    intro t _
    exact ⟨Task.stopped_id t _, Task.stopped_job t _, Task.stopped_project t _⟩
  -- The home of a Task and the Tasks of a round stay with what names them.
  | delete unleased unneeded =>
    constructor
    · intro t mem
      obtain ⟨mem, stays⟩ := mem_filter.mp mem
      obtain ⟨job, jobMem, owns, within⟩ := linked.home t mem
      exact ⟨job, mem_filter.mpr ⟨jobMem, by simpa [owns] using stays⟩, owns, within⟩
    · intro job mem d inRound
      obtain ⟨mem, stays⟩ := mem_filter.mp mem
      obtain ⟨t, taskMem, same, owned⟩ := linked.followup job mem d inRound
      exact ⟨t, mem_filter.mpr ⟨taskMem, by simpa [owned] using stays⟩, same, owned⟩

end Agentix.Ledger
