import Agentix.Ledger.Answers
import Agentix.Lib.Revisions
import Agentix.Refinement.Command

/-! # Leases and work in progress

In every reachable snapshot a Task is in progress exactly while it is leased.
-/

namespace Agentix.TaskStore

open Lib List

def Lease.Apart (a b : Lease) : Prop :=
  a.taskId ≠ b.taskId ∧ ¬ (a.executorRef = b.executorRef ∧ a.sessionRef = b.sessionRef)

/-- What the store says about work in progress. -/
structure LeasesAgree (s : Snapshot) : Prop where
  /-- A Task has a lease exactly while it is in progress. -/
  leased : ∀ t ∈ s.tasks, (∃ l ∈ s.leases, l.taskId = t.id) ↔ t.status = .inProgress
  phase : ∀ t ∈ s.tasks, t.phase.isSome = true ↔ t.status = .inProgress
  apart : s.leases.Pairwise Lease.Apart
  /-- The Task remembers who holds its lease. -/
  holder : ∀ t ∈ s.tasks, ∀ l ∈ s.leases, l.taskId = t.id →
    t.lastExecutor = some l.executorRef ∧ t.lastSession = some l.sessionRef
  /-- No lease outlives its Task. -/
  owned : ∀ l ∈ s.leases, ∃ t ∈ s.tasks, l.taskId = t.id

theorem leasesAgree_of_leased {s : Snapshot} (keyed : Ledger.Keyed s.ledger)
    (leased : Ledger.Leased s.ledger) : LeasesAgree s := by
  have held : ∀ t ∈ s.tasks, ∀ l ∈ s.leases, l.taskId = t.id → t.entry.HeldBy l.entry :=
    fun t mem l lease named =>
      leased.of_lease keyed (Snapshot.task_mem mem) (Snapshot.lease_mem lease) named.symm
  constructor
  · intro t mem
    constructor
    · rintro ⟨l, lease, named⟩
      exact (held t mem l lease named).status
    · intro working
      obtain ⟨l', lease', named⟩ := leased.working _ (Snapshot.task_mem mem) working
      obtain ⟨l, lease, rfl⟩ := mem_map.mp lease'
      exact ⟨l, lease, named⟩
  · intro t mem
    exact leased.phase _ (Snapshot.task_mem mem)
  · have single := leased.single
    rw [Snapshot.ledger_leases, pairwise_map] at single
    exact single
  · intro t mem l lease named
    have holds := held t mem l lease named
    exact ⟨holds.executor, holds.session⟩
  · intro l lease
    obtain ⟨t', mem', holds⟩ := leased.held _ (Snapshot.lease_mem lease)
    obtain ⟨t, mem, rfl⟩ := mem_map.mp mem'
    exact ⟨t, mem, holds.task.symm⟩

theorem reachable_leases_agree {s : Snapshot} (run : Reachable s) : LeasesAgree s :=
  have sound := sound_reachable run
  leasesAgree_of_leased sound.ledger.keyed sound.ledger.leased

theorem claimed_leases_agree : (played claimedRun).leases.map Lease.taskId = ["task_4"] ∧
    LeasesAgree (played claimedRun) :=
  ⟨by decide +kernel, reachable_leases_agree always_played⟩

end Agentix.TaskStore

/-! # Lease authority

Whoever does not hold the lease of a Task cannot change the Task, a few human decisions and
the end of the holder's session apart.
-/

namespace Agentix.TaskStore

open Lib

/-- The options carry the token of the lease together with its session. -/
def WriteOptions.Holds (options : WriteOptions) (l : Lease) : Prop :=
  options.leaseToken = some l.token ∧ options.sessionRef = some l.sessionRef

/-- What a command without authority leaves of a Task. -/
structure Task.SameWork (t t' : Task) : Prop where
  id : t'.id = t.id
  status : t'.status = t.status
  phase : t'.phase = t.phase
  title : t'.title = t.title
  name : t'.name = t.name
  dependencies : t'.dependencies = t.dependencies
  plan : t'.currentPlan = t.currentPlan

/-- The Task is leased by the same holder under the same token. -/
structure Lease.SameHolder (l l' : Lease) : Prop where
  task : l'.taskId = l.taskId
  executor : l'.executorRef = l.executorRef
  session : l'.sessionRef = l.sessionRef
  token : l'.token = l.token

theorem Task.sameWork_of_entry {t t' : Task} (same : t'.entry = t.entry) : t.SameWork t' := by
  simp only [Task.entry, Ledger.Task.mk.injEq] at same
  obtain ⟨id, _, _, title, name, status, phase, _, _, dependencies, plan, _⟩ := same
  exact ⟨id, status, phase, title, name, dependencies, plan⟩

theorem Lease.sameHolder_of_entry {l l' : Lease} (same : l'.entry = l.entry) : l.SameHolder l' := by
  simp only [Lease.entry, Ledger.Lease.mk.injEq] at same
  obtain ⟨task, executor, session, token⟩ := same
  exact ⟨task, executor, session, token⟩

/-- Without the lease, a command that is no exception may not touch the Task. -/
theorem untouchable {s : Snapshot} {request : Value} {options : WriteOptions} {t : Task} {l : Lease}
    {M : Ledger.State} (leased : Ledger.Leased M) (lease : l.entry ∈ M.leases)
    (named : l.taskId = t.id) (stranger : ¬ options.Holds l)
    (ordinary : ¬ Excepted s request options t.jobId t.lastSession) :
    ¬ (commandAuthority s request options).touch M.leases t.entry := by
  rintro (free | ⟨other, other_mem, same, carries⟩ | excepted)
  · exact free _ lease named
  · rw [leased.lease_eq other_mem lease (same.trans named.symm)] at carries
    exact stranger carries
  · exact ordinary excepted

/-- A leased Task stays as it is under every other command, expired or not as its lease may be. -/
theorem leased_task_kept {env : Env} {s s' : Snapshot} {request : Value} {options : WriteOptions}
    {now : Int} {reply : Reply} (run : Reachable s) (fresh : env.Fresh s)
    (ok : apply env s request options now = .ok (s', reply)) {t : Task} {l : Lease}
    (member : t ∈ s.tasks) (lease : l ∈ s.leases) (named : l.taskId = t.id)
    (stranger : ¬ options.Holds l)
    (ordinary : ¬ Excepted s request options t.jobId t.lastSession) :
    (∃ t' ∈ s'.tasks, t.SameWork t') ∧ ∃ l' ∈ s'.leases, l.SameHolder l' := by
  have sound := sound_reachable run
  have advances := advances_apply sound.ledger sound.plain fresh ok
  obtain ⟨task_mem, lease_mem⟩ := Ledger.leased_kept_effects advances.effects sound.ledger
    (Snapshot.task_mem member) (Snapshot.lease_mem lease) named.symm
    fun M leased _ still => untouchable leased still named stranger ordinary
  obtain ⟨t', member', same⟩ := List.mem_map.mp task_mem
  obtain ⟨l', lease', same_lease⟩ := List.mem_map.mp lease_mem
  exact ⟨⟨t', member', Task.sameWork_of_entry same⟩,
    ⟨l', lease', Lease.sameHolder_of_entry same_lease⟩⟩

/-- Another agent gives the Job of a claimed Task a new title. -/
theorem retitled_task_kept : ∃ s' reply,
    apply (.drawing "6") (played claimedRun)
      (request "job.update" [("job", "job_3"), ("title", "K")]) { actorRef := "agent:omp" } 9 =
      .ok (s', reply) ∧
    (∃ t' ∈ s'.tasks, ((played claimedRun).tasks.get ⟨0, by decide⟩).SameWork t') ∧
    ∃ l' ∈ s'.leases, ((played claimedRun).leases.get ⟨0, by decide⟩).SameHolder l' := by
  have succeeds : (apply (.drawing "6") (played claimedRun)
      (request "job.update" [("job", "job_3"), ("title", "K")])
      { actorRef := "agent:omp" } 9).toBool = true := by decide
  cases ok : apply (.drawing "6") (played claimedRun)
      (request "job.update" [("job", "job_3"), ("title", "K")]) { actorRef := "agent:omp" } 9 with
  | error e =>
    rw [ok] at succeeds
    cases succeeds
  | ok result =>
    obtain ⟨s', reply⟩ := result
    have unused : Unused (.drawing "6") (played claimedRun) := by decide
    refine ⟨s', reply, rfl, leased_task_kept always_played unused.fresh ok
      (List.get_mem _ _) (List.get_mem _ _) (by decide) (by rintro ⟨token, _⟩; cases token) ?_⟩
    rintro (⟨command, _⟩ | ⟨command, _⟩ | ⟨command, _⟩ | ⟨command, _⟩)
    · cases command
    · cases command
    · cases command
    · rcases command with command | command <;> cases command

end Agentix.TaskStore

/-! # Dependencies

In every reachable snapshot Task dependencies form no cycle, stay inside a Project, and
are done once a Task has started.
-/

namespace Agentix.TaskStore

open Lib Relation

/-- The Task named `a` depends on the Task named `b`. -/
def DependsOn (s : Snapshot) (a b : String) : Prop :=
  ∃ t ∈ s.tasks, t.id = a ∧ b ∈ t.dependencies

structure DependenciesOrdered (s : Snapshot) : Prop where
  acyclic : ∀ id, ¬ TransGen (DependsOn s) id id
  within : ∀ t ∈ s.tasks, ∀ d ∈ t.dependencies, ∃ u ∈ s.tasks, u.id = d ∧ u.projectId = t.projectId
  /-- A started Task builds on finished work: on every Task with a dependency's identifier. -/
  started : ∀ t ∈ s.tasks, t.startedAt.isSome = true → ∀ d ∈ t.dependencies,
    ∀ u ∈ s.tasks, u.id = d → u.status = .done

theorem dependsOn_ledger {s : Snapshot} {a b : String} (depends : DependsOn s a b) :
    Ledger.DependsOn s.ledger.tasks a b := by
  obtain ⟨t, mem, named, listed⟩ := depends
  exact ⟨t.entry, Snapshot.task_mem mem, named, listed⟩

theorem dependenciesOrdered_of_ordered {s : Snapshot} (keyed : Ledger.Keyed s.ledger)
    (ordered : Ledger.Ordered s.ledger) : DependenciesOrdered s := by
  constructor
  · intro id cycle
    exact ordered.acyclic id (TransGen.mono (fun _ _ => dependsOn_ledger) id id cycle)
  · intro t mem d depends
    obtain ⟨u', mem', named, same⟩ := ordered.within _ (Snapshot.task_mem mem) d depends
    obtain ⟨u, task_mem, rfl⟩ := List.mem_map.mp mem'
    exact ⟨u, task_mem, named, same⟩
  · intro t mem active d depends u task_mem named
    obtain ⟨u', mem', named', done⟩ := ordered.done _ (Snapshot.task_mem mem) active d depends
    have same : u.entry = u' :=
      keyed.tasks.eq_of_key (Snapshot.task_mem task_mem) mem' (named.trans named'.symm)
    rw [← same] at done
    exact done

theorem reachable_dependencies_ordered {s : Snapshot} (run : Reachable s) :
    DependenciesOrdered s :=
  have sound := sound_reachable run
  dependenciesOrdered_of_ordered sound.ledger.keyed sound.ledger.ordered

/-- A Task that waits for another is claimed and started once the other is done. -/
def startedRun : List Call :=
  [{ uuid := "1", request := request "project.register" [("root", "/r"), ("name", "P")] },
   { uuid := "2", request := request "job.create" [("project", "prj_1"), ("title", "J")] },
   { uuid := "3", request := request "task.add" [("job", "job_2"), ("title", "T")] },
   { uuid := "4", request := request "task.add" [("job", "job_2"), ("title", "U")] },
   { uuid := "5", request := request "task.depend" [("task", "task_4"),
      ("dependency", "task_3")] },
   { uuid := "6", request := request "task.done" [("task", "task_3")],
     options := { actorRef := "user:obsidian" } },
   { uuid := "7", request := request "task.claim" [("task", "task_4"),
      ("executor", "agent:codex"), ("session", "codex-1")] },
   { uuid := "8", request := .object [("command", .string "plan.register"), ("task", .string "task_4"),
      ("plan", .object [("id", .string "plan_8"), ("task_id", .string "task_4"),
        ("version", .integer 1), ("path", .string "Plans/U.md"), ("hash", .string "0"),
        ("created_at", .integer 0)])],
     options := { leaseToken := some "lease_7", sessionRef := some "codex-1" } },
   { uuid := "9", request := request "task.start" [("task", "task_4")],
     options := { leaseToken := some "lease_7", sessionRef := some "codex-1" } }]

theorem started_dependencies_ordered :
    (played startedRun).tasks.map (fun t => (t.id, t.dependencies, t.startedAt.isSome)) =
      [("task_3", [], false), ("task_4", ["task_3"], true)] ∧
      DependenciesOrdered (played startedRun) :=
  ⟨by decide +kernel, reachable_dependencies_ordered always_played⟩

end Agentix.TaskStore

/-! # Completion

In every reachable snapshot the statuses of Jobs and Tasks, and the times that record
them, agree.
-/

namespace Agentix.TaskStore

open Lib

/-- What the store says about finished work. -/
structure CompletionAgrees (s : Snapshot) : Prop where
  ended : ∀ job ∈ s.jobs, job.status.terminal = true →
    ∀ t ∈ s.tasks, t.jobId = job.id → t.status.terminal = true
  /-- What is under review has been done. -/
  reviewed : ∀ job ∈ s.jobs, job.status = .pendingReview →
    (∃ t ∈ s.tasks, t.jobId = job.id ∧ t.status ≠ .cancelled) ∧
      ∀ t ∈ s.tasks, t.jobId = job.id → t.status ≠ .cancelled → t.status = .done
  completed : ∀ job ∈ s.jobs, job.completedAt.isSome = true ↔ job.status = .completed
  cancelled : ∀ job ∈ s.jobs, job.cancelledAt.isSome = true ↔ job.status = .cancelled
  task : ∀ t ∈ s.tasks, t.completedAt.isSome = true ↔ t.status.terminal = true
  archived : ∀ job ∈ s.jobs, job.archivedAt.isSome = true → job.status.terminal = true

theorem completionAgrees_of_settled {s : Snapshot} (settled : Ledger.Settled s.ledger) :
    CompletionAgrees s := by
  constructor
  · intro job mem finished t task_mem owned
    exact settled.ended _ (Snapshot.job_mem mem) finished _ (Snapshot.task_mem task_mem) owned
  · intro job mem pending
    obtain ⟨⟨t', mem', owned, counted⟩, done⟩ :=
      settled.ready _ (Snapshot.job_mem mem) pending
    obtain ⟨t, task_mem, rfl⟩ := List.mem_map.mp mem'
    exact ⟨⟨t, task_mem, owned, counted⟩, fun u u_mem => done _ (Snapshot.task_mem u_mem)⟩
  · intro job mem
    exact (settled.jobs _ (Snapshot.job_mem mem)).completed
  · intro job mem
    exact (settled.jobs _ (Snapshot.job_mem mem)).cancelled
  · intro t mem
    exact settled.tasks _ (Snapshot.task_mem mem)
  · intro job mem
    exact (settled.jobs _ (Snapshot.job_mem mem)).archived

theorem reachable_completion_agrees {s : Snapshot} (run : Reachable s) : CompletionAgrees s :=
  completionAgrees_of_settled (sound_reachable run).ledger.settled

/-- A Job whose only Task a human finishes, and which is then approved and archived. -/
def approvedRun : List Call :=
  [{ uuid := "1", request := request "project.register" [("root", "/r"), ("name", "P")] },
   { uuid := "2", request := request "job.create" [("project", "prj_1"), ("title", "J")] },
   { uuid := "3", request := request "task.add" [("job", "job_2"), ("title", "T")] },
   { uuid := "4", request := request "task.done" [("task", "task_3")],
     options := { actorRef := "user:obsidian" } },
   { uuid := "5", request := request "job.approve" [("job", "job_2")] },
   { uuid := "6", request := request "job.archive" [("job", "job_2")] }]

theorem approved_completion_agrees :
    (played approvedRun).jobs.map (fun job => job.archivedAt.isSome) = [true] ∧
      CompletionAgrees (played approvedRun) :=
  ⟨by decide +kernel, reachable_completion_agrees always_played⟩

end Agentix.TaskStore

/-! # Issues and their Jobs

A completed or cancelled Issue has only completed and cancelled Jobs, as long as no Task of
such a Job is retried or reopened: these two commands do not look at the Issue.
-/

namespace Agentix.TaskStore

open Lib List

/-- The Jobs of a completed or cancelled Issue have ended. -/
def IssuesAnswered (s : Snapshot) : Prop :=
  ∀ issue ∈ s.issues, issue.status.terminal = true → ∀ job ∈ s.jobs,
    job.issueId = some issue.id → job.status.terminal = true

/-- A Task is retried or reopened only while no Issue of its Job has ended. -/
def ReopensOpenWork (s : Snapshot) : Action → Prop
  | .command _ request _ _ => ∀ job ∈ s.jobs, Resumes s request job.id →
      ∀ issue ∈ s.issues, job.issueId = some issue.id → issue.status.terminal = false
  | .reap _ => True

theorem stepAuthority_respectful {s : Snapshot} {action : Action} (met : ReopensOpenWork s action) :
    (stepAuthority s action).Respectful := by
  cases action with
  | command env request options now =>
    rintro L job' mem' ⟨rfl, resumes⟩ issue' issue_mem' linked
    obtain ⟨job, mem, rfl⟩ := mem_map.mp mem'
    obtain ⟨issue, issue_mem, rfl⟩ := mem_map.mp issue_mem'
    exact met job mem resumes issue issue_mem linked
  | reap now =>
    intro L job mem never
    exact absurd never id

theorem answered_reachable {s : Snapshot} (run : store.Reachable ReopensOpenWork s) :
    Ledger.Answered s.ledger :=
  run.invariant (fun s => Ledger.Answered s.ledger) Ledger.answered_empty
    fun before met answered step =>
      have sound := sound_reachable before
      Ledger.answered_effects (advances_step sound.ledger sound.plain step).effects
        (stepAuthority_respectful met) answered

theorem issuesAnswered_of_answered {s : Snapshot} (answered : Ledger.Answered s.ledger) :
    IssuesAnswered s := by
  intro issue issue_mem finished job member linked
  exact answered.ended _ (Snapshot.issue_mem issue_mem) finished _ (Snapshot.job_mem member) linked

theorem guarded_issues_answered {s : Snapshot} (run : store.Reachable ReopensOpenWork s) :
    IssuesAnswered s :=
  issuesAnswered_of_answered (answered_reachable run)

theorem aggregatedJob_unready (job : Job) (wasReady : Bool) (now : Int) :
    aggregatedJob job wasReady false now = job.stamped now := by
  simp [aggregatedJob, Job.stamped]

/-- A retried or reopened Task leaves its Job active, and the Issues as they are. -/
theorem resumed_job_active {s s' : Snapshot} {env : Env} {request : Value} {options : WriteOptions}
    {now : Int} {reply : Reply} {job : Job} (consistent : Ledger.Consistent s.ledger)
    (member : job ∈ s.jobs) (resumes : Resumes s request job.id)
    (ok : apply env s request options now = .ok (s', reply)) :
    s'.issues = s.issues ∧ ∃ row ∈ s'.jobs, row.issueId = job.issueId ∧ row.status = .active := by
  obtain ⟨resuming, i, selected, owned⟩ := resumes
  obtain ⟨_, named, dispatches⟩ := apply_inv ok
  obtain ⟨command, updates, resuming⟩ : ∃ command,
      updateTask env s command request options now = .ok (s', reply) ∧
        (command = .retry ∨ command = .reopen) := by
    rcases resuming with retries | reopens
    · obtain rfl := Except.ok.inj (named.symm.trans retries)
      exact ⟨_, dispatches, .inl rfl⟩
    · obtain rfl := Except.ok.inj (named.symm.trans reopens)
      exact ⟨_, dispatches, .inr rfl⟩
  obtain ⟨k, j, chosen, change⟩ := updateTask_inv updates
  obtain rfl : k = i := Except.ok.inj (chosen.selected.symm.trans selected)
  obtain ⟨registers, _⟩ | ⟨changed, _, changes, ⟨policy, rfl⟩, aggregates⟩ := change
  · rcases resuming with rfl | rfl <;> cases registers
  obtain rfl := changes.resumed resuming
  have home : (s.jobs.get j).id = (s.tasks.get k).jobId :=
    jobIndex_of_task consistent (get_mem _ _) chosen.home
  have same : (s.jobs.get j).entry = job.entry :=
    consistent.keyed.jobs.eq_of_key (Snapshot.job_mem (get_mem _ _)) (Snapshot.job_mem member)
      (home.trans owned)
  have linked : (s.jobs.get j).issueId = job.issueId := congrArg Ledger.Job.issue same
  -- the resumed Task is open, so its Job is not ready and keeps the status of `Job.reopened`
  have unready : jobReady ((((s.modifyTask k Task.resumed).modifyJob j Job.reopened).modifyTask k
      fun task => task.stamped now).modifyJob j (Job.underPolicy policy)) (s.jobs.get j).id =
        false := by
    rw [home]
    refine jobReady_unfinished (t := (s.tasks.get k).resumed.stamped now) ?_ rfl
    simp only [Snapshot.modifyTask, Snapshot.modifyJob, modify_modify_eq]
    exact modify_mem k ((fun task => task.stamped now) ∘ Task.resumed)
  subst aggregates
  refine ⟨rfl, ((s.jobs.get j).reopened.underPolicy policy).stamped now, ?_, linked, rfl⟩
  rw [aggregateJob, unready]
  simp only [aggregatedJob_unready, Snapshot.modifyTask, Snapshot.modifyJob, modify_modify_eq]
  exact modify_mem j ((fun job => job.stamped now) ∘ Job.underPolicy policy ∘ Job.reopened)

/-- Every step that misses the condition leaves an ended Issue with a Job at work. -/
theorem resumed_issue_unanswered {condition : Snapshot → Action → Prop} {s s' : Snapshot}
    {action : Action} (run : store.Reachable condition s) (step : Step s action s')
    (unguarded : ¬ ReopensOpenWork s action) : ¬ IssuesAnswered s' := by
  intro answered
  cases action with
  | reap => exact unguarded trivial
  | command env request options now =>
    refine unguarded fun job member resumes issue issue_mem linked => ?_
    obtain ⟨_, reply, ok⟩ := step
    obtain ⟨issues, row, row_mem, linked', active⟩ :=
      resumed_job_active (sound_reachable run).ledger member resumes ok
    refine eq_false_of_ne_true fun finished => ?_
    have ended := answered issue (issues ▸ issue_mem) finished row row_mem (linked'.trans linked)
    rw [active] at ended
    cases ended

/-- After a run that met the condition, a step keeps the Issues answered exactly when it meets it. -/
theorem issues_answered_iff {s s' : Snapshot} {action : Action}
    (run : store.Reachable ReopensOpenWork s) (step : Step s action s') :
    IssuesAnswered s' ↔ ReopensOpenWork s action := by
  constructor
  · intro answered
    by_contra unguarded
    exact resumed_issue_unanswered run step unguarded answered
  · intro guarded
    exact issuesAnswered_of_answered (answered_reachable (run.step guarded step))

def cancelledRun : List Call :=
  claimedRun.take 4 ++ [{ uuid := "5", request := request "task.cancel" [("task", "task_4")] }]

def reopening (uuid : String) : Call :=
  { uuid, request := request "task.reopen" [("task", "task_4")],
    options := { actorRef := "user:obsidian" } }

def finishing : List Call :=
  [{ uuid := "7", request := request "job.approve" [("job", "job_3")],
     options := { actorRef := "user:obsidian" } },
   { uuid := "8", request := request "issue.submit" [("issue", "issue_2")],
     options := { actorRef := "user:obsidian" } },
   { uuid := "9", request := request "issue.approve" [("issue", "issue_2")],
     options := { actorRef := "user:obsidian" } }]

/-- A Task is cancelled and reopened while its Issue is open, and then the Issue is completed. -/
def finishedRun : List Call :=
  (cancelledRun ++ [reopening "6"]) ++ finishing

/-- Commands other than `task.retry` and `task.reopen` meet the condition in every state. -/
theorem reopensOpenWork_of_other {calls : List Call} (other : ∀ call ∈ calls,
      ¬ (call.request.command = .ok (.task .retry) ∨ call.request.command = .ok (.task .reopen)))
    (s : Snapshot) (call : Call) (member : call ∈ calls) : ReopensOpenWork s
      (.command (.drawing call.uuid) call.request call.options call.now) :=
  fun _ _ resumes => absurd resumes.1 (other call member)

theorem finished_issues_answered :
    (played finishedRun).issues.map Issue.status = [.completed] ∧
      IssuesAnswered (played finishedRun) := by
  have cancelled : store.Reachable ReopensOpenWork (played cancelledRun) :=
    reachable_played (reopensOpenWork_of_other (by decide))
  have unfinished : ∀ issue ∈ (played cancelledRun).issues, issue.status.terminal = false := by decide
  have guarded : ReopensOpenWork (played cancelledRun)
      (.command (.drawing "6") (reopening "6").request (reopening "6").options 0) :=
    fun _ _ _ issue mem _ => unfinished issue mem
  have plays : (play {} (cancelledRun ++ [reopening "6"])).isSome = true := by decide
  have reopened : store.Reachable ReopensOpenWork (played (cancelledRun ++ [reopening "6"])) :=
    cancelled.step guarded (played_last plays)
  exact ⟨by decide, guarded_issues_answered
    (reachable_played_append reopened plays (reopensOpenWork_of_other (by decide)))⟩

/-- The Task of the completed Issue's Job is reopened, and the Job is active again. -/
theorem reopened_issue_unanswered : ¬ ∀ s, Reachable s → IssuesAnswered s := by
  intro answered
  have unanswered : ¬ IssuesAnswered (played (finishedRun ++ [reopening "10"])) := by
    unfold IssuesAnswered
    decide +kernel
  exact unanswered (answered _ always_played)

end Agentix.TaskStore
