import Agentix.Ledger.Model
import Mathlib.Data.List.Pairwise

/-! # Leases

A Task is in progress exactly while someone holds it, and nobody holds two Tasks.
-/

namespace Agentix.Ledger

open Lib TaskStore Relation List

/-- Two leases are for different Tasks and different holders. -/
def Lease.Apart (a b : Lease) : Prop :=
  a.task ≠ b.task ∧ ¬ (a.executor = b.executor ∧ a.session = b.session)

instance : Std.Symm Lease.Apart :=
  ⟨fun _ _ apart => ⟨Ne.symm apart.1, fun same => apart.2 ⟨same.1.symm, same.2.symm⟩⟩⟩

/-- The Task is being worked on by the holder of the lease. -/
structure Task.HeldBy (t : Task) (l : Lease) : Prop where
  task : t.id = l.task
  status : t.status = .inProgress
  executor : t.executor = some l.executor
  session : t.session = some l.session

structure Leased (L : State) : Prop where
  held : ∀ l ∈ L.leases, ∃ t ∈ L.tasks, t.HeldBy l
  working : ∀ t ∈ L.tasks, t.status = .inProgress → ∃ l ∈ L.leases, l.task = t.id
  phase : ∀ t ∈ L.tasks, t.phase.isSome = true ↔ t.status = .inProgress
  single : L.leases.Pairwise Lease.Apart

theorem leased_empty : Leased {} :=
  ⟨by simp, by simp, by simp, .nil⟩

variable {may : Authority} {L L' : State}

theorem Leased.lease_eq (leased : Leased L) {a b : Lease} (ha : a ∈ L.leases) (hb : b ∈ L.leases)
    (same : a.task = b.task) : a = b := by
  by_contra different
  exact (leased.single.forall ha hb different).1 same

theorem Leased.of_lease (leased : Leased L) (keyed : Keyed L) {t : Task} {l : Lease}
    (mem : t ∈ L.tasks) (lease : l ∈ L.leases) (same : t.id = l.task) : t.HeldBy l := by
  obtain ⟨held, heldMem, holds⟩ := leased.held l lease
  rw [keyed.tasks.eq_of_key mem heldMem (same.trans holds.task.symm)]
  exact holds

/-- What a change of one Task says about its lease. -/
theorem TaskMove.keeps_work {t t' : Task} (move : TaskMove L t t')
    (phase : t.phase.isSome = true ↔ t.status = .inProgress) :
    (t'.status = .inProgress ↔ t.status = .inProgress) ∧
      (t'.phase.isSome = true ↔ t'.status = .inProgress) := by
  cases move with
  | edit => exact ⟨Iff.rfl, phase⟩
  | start planning =>
    refine ⟨Iff.rfl, ?_⟩
    rw [planning] at phase
    simpa using phase
  | depend => exact ⟨Iff.rfl, phase⟩
  | undepend => exact ⟨Iff.rfl, phase⟩
  | resume ended =>
    refine ⟨?_, by simp⟩
    constructor
    · intro todo
      cases todo
    · intro working
      rw [working] at ended
      cases ended

theorem leased_of_task_edits (leased : Leased L) (edit : Task → Task)
    (tasks : ∀ t ∈ L.tasks, (edit t).id = t.id ∧ (edit t).executor = t.executor ∧
      (edit t).session = t.session ∧ ((edit t).status = .inProgress ↔ t.status = .inProgress) ∧
      ((edit t).phase.isSome = true ↔ (edit t).status = .inProgress))
    {L' : State} (leases_eq : L'.leases = L.leases) (tasks_eq : L'.tasks = L.tasks.map edit) :
    Leased L' := by
  constructor
  · intro l lease
    rw [leases_eq] at lease
    obtain ⟨t, mem, holds⟩ := leased.held l lease
    obtain ⟨id, executor, session, work, _⟩ := tasks t mem
    rw [tasks_eq]
    exact ⟨edit t, mem_map_of_mem mem, id.trans holds.task, work.mpr holds.status,
      executor.trans holds.executor, session.trans holds.session⟩
  · intro t' mem' working
    rw [tasks_eq] at mem'
    obtain ⟨t, mem, rfl⟩ := mem_map.mp mem'
    obtain ⟨id, _, _, work, _⟩ := tasks t mem
    rw [leases_eq, id]
    exact leased.working t mem (work.mp working)
  · intro t' mem'
    rw [tasks_eq] at mem'
    obtain ⟨t, mem, rfl⟩ := mem_map.mp mem'
    exact (tasks t mem).2.2.2.2
  · rw [leases_eq]
    exact leased.single

theorem leased_claim (leased : Leased L) {t : Task} {lease : Lease} (mem : t ∈ L.tasks)
    (same : lease.task = t.id)
    (free : ∀ l ∈ L.leases, l.task ≠ lease.task ∧
      ¬ (l.executor = lease.executor ∧ l.session = lease.session)) :
    Leased { L with
      tasks := alter Task.id t.id (fun _ => t.claimed lease) L.tasks
      leases := L.leases ++ [lease] } := by
  have claimed_mem : t.claimed lease ∈ alter Task.id t.id (fun _ => t.claimed lease) L.tasks :=
    mem_alter.mpr ⟨t, mem, .inl ⟨rfl, rfl⟩⟩
  constructor
  · intro l inLeases
    rcases mem_append.mp inLeases with old | new
    · obtain ⟨row, rowMem, holds⟩ := leased.held l old
      have other : row.id ≠ t.id := by
        rw [holds.task, ← same]
        exact (free l old).1
      exact ⟨row, mem_alter.mpr ⟨row, rowMem, .inr ⟨other, rfl⟩⟩, holds⟩
    · rw [mem_singleton.mp new]
      exact ⟨_, claimed_mem, same.symm, rfl, rfl, rfl⟩
  · intro row' mem' working
    obtain ⟨row, rowMem, ⟨here, rfl⟩ | ⟨other, rfl⟩⟩ := mem_alter.mp mem'
    · exact ⟨lease, mem_append_right _ (mem_singleton_self _), same⟩
    · obtain ⟨l, old, named⟩ := leased.working _ rowMem working
      exact ⟨l, mem_append_left _ old, named⟩
  · intro row' mem'
    obtain ⟨row, rowMem, ⟨here, rfl⟩ | ⟨other, rfl⟩⟩ := mem_alter.mp mem'
    · simp [Task.claimed]
    · exact leased.phase _ rowMem
  · refine pairwise_append.mpr ⟨leased.single, pairwise_singleton _ _, ?_⟩
    intro l old l' new
    rw [mem_singleton.mp new]
    exact free l old

theorem leased_stop (leased : Leased L) (keyed : Keyed L) {stop : Task → Option TaskStatus}
    (each : ∀ t ∈ L.tasks, ∀ next, stop t = some next → next ≠ .inProgress) :
    Leased { L with
      tasks := L.tasks.map (Task.stopped stop)
      leases := L.leases.filter (keptLease L stop) } := by
  constructor
  · intro l lease
    obtain ⟨old, kept⟩ := mem_filter.mp lease
    obtain ⟨t, mem, holds⟩ := leased.held l old
    have still : stop t = none := keptLease_iff.mp kept t mem holds.task
    exact ⟨t, mem_map.mpr ⟨t, mem, Task.stopped_none still⟩, holds⟩
  · intro t' mem' working
    obtain ⟨t, mem, rfl⟩ := mem_map.mp mem'
    cases stops : stop t with
    | some next =>
      rw [Task.stopped_some stops] at working
      exact absurd working (each t mem next stops)
    | none =>
      rw [Task.stopped_none stops] at working
      obtain ⟨l, lease, named⟩ := leased.working t mem working
      refine ⟨l, mem_filter.mpr ⟨lease, keptLease_iff.mpr ?_⟩, by simpa using named⟩
      intro other otherMem same
      rw [keyed.tasks.eq_of_key otherMem mem (same.trans named), stops]
  · intro t' mem'
    obtain ⟨t, mem, rfl⟩ := mem_map.mp mem'
    cases stops : stop t with
    | some next =>
      rw [Task.stopped_some stops]
      simpa [Task.leaving] using each t mem next stops
    | none =>
      rw [Task.stopped_none stops]
      exact leased.phase t mem
  · exact leased.single.sublist filter_sublist

theorem leased_effect (effect : Effect may L L') (keyed : Keyed L) (leased : Leased L) :
    Leased L' := by
  cases effect with
  | addIssue => exact ⟨leased.held, leased.working, leased.phase, leased.single⟩
  | changeIssue => exact ⟨leased.held, leased.working, leased.phase, leased.single⟩
  | addJob => exact ⟨leased.held, leased.working, leased.phase, leased.single⟩
  | moveJobs => exact ⟨leased.held, leased.working, leased.phase, leased.single⟩
  | @addTask job t _ _ _ _ idle =>
    obtain ⟨todo, unphased, _, _⟩ := idle
    constructor
    · intro l lease
      obtain ⟨row, mem, holds⟩ := leased.held l lease
      exact ⟨row, mem_append_left _ mem, holds⟩
    · intro row mem working
      rcases mem_append.mp mem with old | new
      · exact leased.working row old working
      · rw [mem_singleton.mp new, todo] at working
        cases working
    · intro row mem
      rcases mem_append.mp mem with old | new
      · exact leased.phase row old
      · rw [mem_singleton.mp new, todo, unphased]
        simp
    · exact leased.single
  | changeTask mem move =>
    refine leased_of_task_edits leased _ ?_ rfl rfl
    intro row rowMem
    split
    · rename_i same
      rw [← keyed.tasks.eq_of_key rowMem mem same] at move
      obtain ⟨work, phase⟩ := move.keeps_work (leased.phase row rowMem)
      exact ⟨move.id_eq, move.executor_eq, move.session_eq, work, phase⟩
    · exact ⟨rfl, rfl, rfl, Iff.rfl, leased.phase row rowMem⟩
  | claim mem _ _ same free => exact leased_claim leased mem same free
  | stop each =>
    exact leased_stop leased keyed fun t mem next stops => (each t mem next stops).1
  | delete unleased unneeded =>
    constructor
    · intro l lease
      obtain ⟨t, mem, holds⟩ := leased.held l lease
      refine ⟨t, mem_filter.mpr ⟨mem, ?_⟩, holds⟩
      rw [decide_eq_true_iff]
      exact fun gone => unleased t mem gone l lease holds.task.symm
    · intro t mem working
      exact leased.working t (mem_filter.mp mem).1 working
    · intro t mem
      exact leased.phase t (mem_filter.mp mem).1
    · exact leased.single

end Agentix.Ledger

/-! # Completion

A Job that has ended has no unfinished Task, a Job under review has only finished work,
and the completion marks of Jobs and Tasks say what their statuses say.
-/

namespace Agentix.Ledger

open Lib TaskStore Relation List

/-- The marks of a Job agree with its status. -/
structure Job.Marked (job : Job) : Prop where
  completed : job.completed = true ↔ job.status = .completed
  cancelled : job.cancelled = true ↔ job.status = .cancelled
  archived : job.archived = true → job.status.terminal = true

structure Settled (L : State) : Prop where
  ended : ∀ job ∈ L.jobs, job.status.terminal = true → Ended L job.id
  ready : ∀ job ∈ L.jobs, job.status = .pendingReview → Ready L job.id
  jobs : ∀ job ∈ L.jobs, job.Marked
  tasks : ∀ t ∈ L.tasks, t.completed = true ↔ t.status.terminal = true

theorem settled_empty : Settled {} :=
  ⟨by simp, by simp, by simp, by simp⟩

variable {may : Authority} {L L' : State}

/-! ## Jobs with open work -/

theorem Ready.ended {job : String} (ready : Ready L job) : Ended L job := by
  intro t mem owned
  by_cases counted : t.status = .cancelled
  · rw [counted]
    rfl
  · rw [ready.2 t mem owned counted]
    rfl

theorem Settled.active_of_unfinished (settled : Settled L) {t : Task} (mem : t ∈ L.tasks)
    (unfinished : t.status.terminal = false) :
    ∀ job ∈ L.jobs, job.id = t.job → job.status = .active := by
  intro job jobMem owns
  cases status : job.status with
  | active => rfl
  | pendingReview =>
    have done := (settled.ready job jobMem status).2 t mem owns.symm
    cases other : t.status with
    | cancelled => rw [other] at unfinished; cases unfinished
    | _ =>
      rw [other] at done unfinished
      simp [TaskStatus.terminal] at done unfinished
  | completed =>
    have finished := settled.ended job jobMem (by rw [status]; rfl) t mem owns.symm
    rw [finished] at unfinished
    cases unfinished
  | cancelled =>
    have finished := settled.ended job jobMem (by rw [status]; rfl) t mem owns.symm
    rw [finished] at unfinished
    cases unfinished

/-! ## Preservation -/

theorem settled_of_task_edits (settled : Settled L) (edit : Task → Task)
    (tasks : ∀ t ∈ L.tasks, (edit t).job = t.job ∧
      ((edit t).completed = true ↔ (edit t).status.terminal = true) ∧
      ((edit t).status = t.status ∨ ∀ job ∈ L.jobs, job.id = t.job → job.status = .active))
    {L' : State} (jobs_eq : L'.jobs = L.jobs) (tasks_eq : L'.tasks = L.tasks.map edit) :
    Settled L' := by
  have same : ∀ job ∈ L.jobs, job.status ≠ .active → ∀ t ∈ L.tasks, t.job = job.id →
      (edit t).status = t.status := by
    intro job mem idle t taskMem owned
    exact (tasks t taskMem).2.2.resolve_right fun active =>
      idle (active job mem owned.symm)
  constructor
  · intro job mem finished t' mem' owned
    rw [jobs_eq] at mem
    rw [tasks_eq] at mem'
    obtain ⟨t, taskMem, rfl⟩ := mem_map.mp mem'
    rw [(tasks t taskMem).1] at owned
    rw [same job mem (by rintro active; rw [active] at finished; cases finished) t taskMem owned]
    exact settled.ended job mem finished t taskMem owned
  · intro job mem pending
    rw [jobs_eq] at mem
    have idle : job.status ≠ .active := by rw [pending]; simp
    obtain ⟨⟨t, taskMem, owned, counted⟩, done⟩ := settled.ready job mem pending
    constructor
    · refine ⟨edit t, ?_, ?_, ?_⟩
      · rw [tasks_eq]
        exact mem_map_of_mem taskMem
      · rw [(tasks t taskMem).1, owned]
      · rw [same job mem idle t taskMem owned]
        exact counted
    · intro t' mem' owned'
      rw [tasks_eq] at mem'
      obtain ⟨t, taskMem, rfl⟩ := mem_map.mp mem'
      rw [(tasks t taskMem).1] at owned'
      rw [same job mem idle t taskMem owned']
      exact done t taskMem owned'
  · rw [jobs_eq]
    exact settled.jobs
  · intro t' mem'
    rw [tasks_eq] at mem'
    obtain ⟨t, taskMem, rfl⟩ := mem_map.mp mem'
    exact (tasks t taskMem).2.1

theorem TaskMove.completed_iff {t t' : Task} (move : TaskMove L t t')
    (completed : t.completed = true ↔ t.status.terminal = true) :
    t'.completed = true ↔ t'.status.terminal = true := by
  cases move with
  | resume => simp [TaskStatus.terminal]
  | _ => exact completed

theorem TaskMove.status_eq_or_active {t t' : Task} (move : TaskMove L t t') :
    t'.status = t.status ∨ ∀ job ∈ L.jobs, job.id = t.job → job.status = .active := by
  cases move with
  | resume _ _ active => exact .inr active
  | _ => exact .inl rfl

theorem JobMove.marked {job job' : Job} (move : JobMove may L job job') (marked : job.Marked) :
    job'.Marked := by
  obtain ⟨completed, cancelled, archived⟩ := marked
  cases move with
  | stay => exact ⟨completed, cancelled, archived⟩
  | archive ended => exact ⟨completed, cancelled, ended⟩
  | link => exact ⟨completed, cancelled, archived⟩
  | activate pending =>
    rw [pending] at cancelled archived
    refine ⟨by simp, by simpa using cancelled, ?_⟩
    intro archive
    exact absurd (archived archive) (by simp [JobStatus.terminal])
  | submit active =>
    rw [active] at cancelled archived
    refine ⟨by simp, by simpa using cancelled, ?_⟩
    intro archive
    exact absurd (archived archive) (by simp [JobStatus.terminal])
  | complete unfinished =>
    refine ⟨by simp, ?_, fun _ => rfl⟩
    constructor
    · intro mark
      rw [cancelled.mp mark] at unfinished
      cases unfinished
    · intro other
      cases other
  | cancel unfinished =>
    refine ⟨?_, by simp, fun _ => rfl⟩
    constructor
    · intro mark
      rw [completed.mp mark] at unfinished
      cases unfinished
    · intro other
      cases other
  | reopen kept present =>
    refine ⟨by simp, ?_, ?_⟩
    · constructor
      · intro mark
        exact absurd (cancelled.mp mark) kept
      · intro other
        cases other
    · intro archive
      rw [present] at archive
      cases archive

theorem JobMove.ended {job job' : Job} (move : JobMove may L job job')
    (before : job.status.terminal = true → Ended L job.id) (finished : job'.status.terminal = true) :
    Ended L job.id := by
  cases move with
  | complete _ ended => exact ended
  | cancel _ ended => exact ended
  | activate => cases finished
  | submit => cases finished
  | reopen => cases finished
  | _ => exact before finished

theorem JobMove.ready {job job' : Job} (move : JobMove may L job job')
    (before : job.status = .pendingReview → Ready L job.id) (pending : job'.status = .pendingReview) :
    Ready L job.id := by
  cases move with
  | submit _ ready => exact ready
  | activate => cases pending
  | complete => cases pending
  | cancel => cases pending
  | reopen => cases pending
  | _ => exact before pending

theorem settled_effect (effect : Effect may L L') (keyed : Keyed L) (settled : Settled L) :
    Settled L' := by
  cases effect with
  | addIssue => exact ⟨settled.ended, settled.ready, settled.jobs, settled.tasks⟩
  | changeIssue => exact ⟨settled.ended, settled.ready, settled.jobs, settled.tasks⟩
  -- The new Job is active and without marks, so nothing is asked of it.
  | @addJob job fresh active unlinked unmarked =>
    obtain ⟨incomplete, live, present⟩ := unmarked
    refine ⟨?_, ?_, ?_, settled.tasks⟩
    · intro row mem finished
      rcases mem_append.mp mem with old | new
      · exact settled.ended row old finished
      · rw [mem_singleton.mp new, active] at finished
        cases finished
    · intro row mem pending
      rcases mem_append.mp mem with old | new
      · exact settled.ready row old pending
      · rw [mem_singleton.mp new, active] at pending
        cases pending
    · intro row mem
      rcases mem_append.mp mem with old | new
      · exact settled.jobs row old
      · rw [mem_singleton.mp new]
        exact ⟨by simp [incomplete, active], by simp [live, active], by simp [present]⟩
  -- No Task changes, and every move of a Job accounts for its own new status.
  | moveJobs each =>
    refine ⟨?_, ?_, ?_, settled.tasks⟩
    · intro job' mem' finished
      obtain ⟨job, mem, rfl⟩ := mem_map.mp mem'
      rw [(each job mem).id_eq]
      exact (each job mem).ended (settled.ended job mem) finished
    · intro job' mem' pending
      obtain ⟨job, mem, rfl⟩ := mem_map.mp mem'
      rw [(each job mem).id_eq]
      exact (each job mem).ready (settled.ready job mem) pending
    · intro job' mem'
      obtain ⟨job, mem, rfl⟩ := mem_map.mp mem'
      exact (each job mem).marked (settled.jobs job mem)
  | @addTask job t mem active fresh owned idle =>
    obtain ⟨todo, _, _, incomplete⟩ := idle
    -- The Job of the new Task is active, so no other Job sees it.
    have elsewhere : ∀ row ∈ L.jobs, row.status ≠ .active → t.job ≠ row.id := by
      intro row rowMem other same
      rw [owned.1] at same
      rw [← keyed.jobs.eq_of_key mem rowMem same] at other
      exact other active
    refine ⟨?_, ?_, settled.jobs, ?_⟩
    · intro row rowMem finished u inTasks home
      rcases mem_append.mp inTasks with old | new
      · exact settled.ended row rowMem finished u old home
      · rw [mem_singleton.mp new] at home
        refine absurd home (elsewhere row rowMem ?_)
        intro active
        rw [active] at finished
        cases finished
    · intro row rowMem pending
      obtain ⟨⟨u, old, home, counted⟩, done⟩ := settled.ready row rowMem pending
      refine ⟨⟨u, mem_append_left _ old, home, counted⟩, ?_⟩
      intro v inTasks home
      rcases mem_append.mp inTasks with old | new
      · exact done v old home
      · rw [mem_singleton.mp new] at home
        exact absurd home (elsewhere row rowMem (by rw [pending]; simp))
    · intro u inTasks
      rcases mem_append.mp inTasks with old | new
      · exact settled.tasks u old
      · rw [mem_singleton.mp new, todo, incomplete]
        simp [TaskStatus.terminal]
  | changeTask mem move =>
    refine settled_of_task_edits settled _ ?_ rfl rfl
    intro row rowMem
    split
    · rename_i same
      rw [← keyed.tasks.eq_of_key rowMem mem same] at move
      exact ⟨move.job_eq, move.completed_iff (settled.tasks row rowMem),
        move.status_eq_or_active⟩
    · exact ⟨rfl, settled.tasks row rowMem, .inl rfl⟩
  -- Only a Task that is not terminal is claimed, and its Job is then active.
  | @claim t lease mem unfinished =>
    refine settled_of_task_edits settled _ ?_ rfl rfl
    intro row rowMem
    split
    · rename_i same
      have incomplete := settled.tasks t mem
      rw [keyed.tasks.eq_of_key rowMem mem same]
      refine ⟨rfl, ?_, .inr (settled.active_of_unfinished mem unfinished)⟩
      rw [unfinished] at incomplete
      simpa [Task.claimed, TaskStatus.terminal] using incomplete
    · exact ⟨rfl, settled.tasks row rowMem, .inl rfl⟩
  | @stop stop each =>
    refine settled_of_task_edits settled _ ?_ rfl rfl
    intro t mem
    cases stops : stop t with
    | none =>
      rw [Task.stopped_none stops]
      exact ⟨rfl, settled.tasks t mem, .inl rfl⟩
    | some next =>
      rw [Task.stopped_some stops]
      exact ⟨rfl, Iff.rfl,
        .inr (settled.active_of_unfinished mem (each t mem next stops).2.1)⟩
  -- A Job goes together with all its Tasks, so a Job that stays keeps those it counted.
  | delete =>
    refine ⟨?_, ?_, ?_, ?_⟩
    · intro job mem finished t inTasks
      exact settled.ended job (mem_filter.mp mem).1 finished t (mem_filter.mp inTasks).1
    · intro job mem pending
      obtain ⟨old, stays⟩ := mem_filter.mp mem
      obtain ⟨⟨t, inTasks, owned, counted⟩, done⟩ := settled.ready job old pending
      refine ⟨⟨t, mem_filter.mpr ⟨inTasks, by simpa [owned] using stays⟩, owned, counted⟩, ?_⟩
      intro u inTasks
      exact done u (mem_filter.mp inTasks).1
    · intro job mem
      exact settled.jobs job (mem_filter.mp mem).1
    · intro t inTasks
      exact settled.tasks t (mem_filter.mp inTasks).1

end Agentix.Ledger
