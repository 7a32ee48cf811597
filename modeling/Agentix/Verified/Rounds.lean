import Agentix.Refinement.Rounds
import Agentix.Verified.Tasks

/-! # Prerequisites of a follow-up round

A Task added after a follow-up depends on every earlier Task of its Job.  These are done or
cancelled, so the round can start just when none of them was cancelled.
-/

namespace Agentix.TaskStore

open Lib List Option

/-! ## The round that follows -/

/-- A successful `job.followup` of the Job. -/
def FollowedUp (s : Snapshot) (job : String) (s' : Snapshot) : Prop :=
  ∃ env request options now reply, env.Fresh s ∧ FollowsUp s request job ∧
    apply env s request options now = .ok (s', reply)

/-- A successful `task.add` to the Job. -/
def AddedTo (s : Snapshot) (job : String) (t : Task) (s' : Snapshot) : Prop :=
  ∃ env request options now, env.Fresh s ∧ request.command = .ok .taskAdd ∧ t.jobId = job ∧
    apply env s request options now = .ok (s', .taskRow t)

def EarlierKept (followed : Snapshot) (job : String) (s : Snapshot) : Prop :=
  ∀ t ∈ followed.tasks, t.jobId = job → t ∈ s.tasks

/-- The steps of a round: the earlier Tasks are not changed, and the Job is not followed up again. -/
def InRound (followed : Snapshot) (job : String) (s : Snapshot) (action : Action) : Prop :=
  EarlierKept followed job s ∧ ∀ env request options now,
    action = .command env request options now → ¬ FollowsUp s request job

/-- What `task.start` asks of the dependencies of a Task. -/
def DependenciesDone (s : Snapshot) (t : Task) : Prop :=
  ∀ d ∈ t.dependencies, ∃ u ∈ s.tasks, u.id = d ∧ u.status = .done

def earlierTasks (s : Snapshot) (job : String) : List String :=
  (s.tasks.filter fun t => t.jobId = job).map Task.id

variable {s s' : Snapshot} {job : String}

theorem mem_earlierTasks {d : String} :
    d ∈ earlierTasks s job ↔ ∃ t ∈ s.tasks, t.jobId = job ∧ t.id = d := by
  simp [earlierTasks, and_assoc]

/-! ## The follow-up -/

theorem associate_tasks {query : String} {request : Value} {now : Int}
    (ok : associate s query request now = .ok s') : s'.tasks = s.tasks := by
  cases associate_inv ok <;> rfl

/-- A follow-up of a Job under review makes all of its Tasks the round. -/
theorem FollowedUp.spec (keyed : Ledger.Keyed s.ledger) (follows : FollowedUp s job s') :
    (∃ row ∈ s.jobs, row.id = job ∧ row.status = .pendingReview) ∧ s'.tasks = s.tasks ∧
      ∀ round ∈ s'.rounds, round.1 = job → round.2 = earlierTasks s job := by
  obtain ⟨env, request, options, now, reply, _, ⟨named, i, selected, rfl⟩, ok⟩ := follows
  obtain ⟨_, same, dispatches⟩ := apply_inv ok
  cases named.symm.trans same
  obtain ⟨updated, row, updates, rest⟩ := dispatch_job_inv dispatches
  obtain ⟨j, found, followed⟩ := updateJob_followup updates
  obtain rfl : j = i := Except.ok.inj (found.symm.trans selected)
  have rounds := rounds_followupJob followed
  obtain ⟨_, _, pending, _, rfl⟩ := followupJob_inv followed
  obtain ⟨linked, tasks⟩ : s'.rounds = (s.modifyJob j fun _ => row).rounds ∧ s'.tasks = s.tasks := by
    obtain ⟨_, links⟩ | ⟨rfl, _⟩ := rest
    · have tasks : s'.tasks = (s.modifyJob j fun _ => row).tasks :=
        associate_tasks (linkJob_inv links).1
      exact ⟨rounds_linkJob links, tasks⟩
    · exact ⟨rfl, rfl⟩
  refine ⟨⟨_, get_mem s.jobs j, rfl, pending⟩, tasks, ?_⟩
  intro round mem first
  rw [linked, rounds] at mem
  obtain ⟨n, bound, rfl⟩ := mem_iff_getElem.mp mem
  rw [getElem_modify] at first ⊢
  split at first
  · rename_i here
    rw [if_pos here]
    rfl
  · -- no other row has the identifier of the Job
    rename_i elsewhere
    have inRows : n < s.jobs.length := by simpa [Snapshot.rounds] using bound
    have distinct : (s.jobs.map Job.id).Nodup := by
      have jobs := keyed.jobs
      unfold Distinct at jobs
      rw [Snapshot.ledger_jobs, List.map_map] at jobs
      exact jobs
    have inIds : n < (s.jobs.map Job.id).length := by simpa using inRows
    have selectedIds : j.val < (s.jobs.map Job.id).length := by simp
    have rows : (s.jobs.map Job.id)[n] = (s.jobs.map Job.id)[j.val] := by
      simpa [Snapshot.rounds, Job.round] using first
    exact absurd ((distinct.getElem_inj_iff).mp rows).symm elsewhere

theorem FollowedUp.finished (run : Reachable s) (follows : FollowedUp s job s') :
    (∃ t ∈ s.tasks, t.jobId = job) ∧
      ∀ t ∈ s.tasks, t.jobId = job → t.status ≠ .cancelled → t.status = .done := by
  obtain ⟨⟨row, mem, rfl, pending⟩, _⟩ := follows.spec (sound_reachable run).ledger.keyed
  obtain ⟨⟨t, task_mem, owned, _⟩, done⟩ :=
    (reachable_completion_agrees run).reviewed row mem pending
  exact ⟨⟨t, task_mem, owned⟩, done⟩

theorem FollowedUp.reachable (run : Reachable s) (follows : FollowedUp s job s') :
    Reachable s' := by
  obtain ⟨env, request, options, now, reply, fresh, _, ok⟩ := follows
  have step : store.step s (.command env request options now) s' := ⟨fresh, reply, ok⟩
  exact run.step trivial step

/-! ## The steps of the round -/

theorem job_of_earlierKept {followed : Snapshot} (run : Reachable s)
    (kept : EarlierKept followed job s) (some : ∃ t ∈ followed.tasks, t.jobId = job) :
    job ∈ s.jobs.map Job.id := by
  obtain ⟨t, mem, owned⟩ := some
  obtain ⟨row', mem', named, _⟩ :=
    (sound_reachable run).ledger.linked.home _ (Snapshot.task_mem (kept t mem owned))
  obtain ⟨row, row_mem, rfl⟩ := mem_map.mp mem'
  exact mem_map.mpr ⟨row, row_mem, named.trans owned⟩

theorem round_kept {followed : Snapshot} {tasks : List String} (run : Reachable followed)
    (some : ∃ t ∈ followed.tasks, t.jobId = job)
    (round : ∀ r ∈ followed.rounds, r.1 = job → r.2 = tasks)
    (path : store.Path (InRound followed job) followed s) :
    Reachable s ∧ ∀ r ∈ s.rounds, r.1 = job → r.2 = tasks := by
  induction path with
  | refl => exact ⟨run, round⟩
  | @tail before after _ next ih =>
    obtain ⟨reached, same⟩ := ih
    obtain ⟨action, ⟨kept, unfollowed⟩, step⟩ := next
    refine ⟨reached.step trivial step, ?_⟩
    rintro r mem rfl
    have there := job_of_earlierKept reached kept some
    exact same r (round_step step mem there unfollowed) rfl

/-! ## The added Task -/

theorem taskAdd_spec {env : Env} {request : Value} {options : WriteOptions} {now : Int}
    {reply : Reply} (named : request.command = .ok .taskAdd)
    (ok : apply env s request options now = .ok (s', reply)) :
    ∃ t, reply = .taskRow t ∧ s'.tasks = s.tasks ++ [t] ∧ (t.jobId, t.dependencies) ∈ s.rounds := by
  obtain ⟨_, same, dispatches⟩ := apply_inv ok
  cases named.symm.trans same
  obtain ⟨j, t, _, added, rfl, rfl⟩ := addTask_inv dispatches
  refine ⟨t, rfl, rfl, mem_map.mpr ⟨_, get_mem s.jobs j, ?_⟩⟩
  rw [added.owned.1, added.inherited]
  rfl

theorem AddedTo.spec {t : Task} (added : AddedTo s job t s') :
    s'.tasks = s.tasks ++ [t] ∧ (job, t.dependencies) ∈ s.rounds := by
  obtain ⟨env, request, options, now, _, named, rfl, ok⟩ := added
  obtain ⟨row, same, tasks, inRound⟩ := taskAdd_spec named ok
  cases same
  exact ⟨tasks, inRound⟩

theorem AddedTo.reachable {t : Task} (run : Reachable s) (added : AddedTo s job t s') :
    Reachable s' := by
  obtain ⟨env, request, options, now, fresh, _, _, ok⟩ := added
  have step : store.step s (.command env request options now) s' := ⟨fresh, _, ok⟩
  exact run.step trivial step

/-- A Task added in the round depends on the Tasks that the Job had at the follow-up.  All of them
are done or cancelled; the Task can start exactly when none was cancelled. -/
theorem round_starts_unless_cancelled {followed before after : Snapshot} {t : Task}
    (run : Reachable s) (follows : FollowedUp s job followed)
    (path : store.Path (InRound followed job) followed before)
    (kept : EarlierKept followed job before) (added : AddedTo before job t after) :
    t.dependencies = earlierTasks s job ∧
      (∀ d ∈ t.dependencies, ∃ u ∈ after.tasks, u.id = d ∧
        (u.status = .done ∨ u.status = .cancelled)) ∧
      (DependenciesDone after t ↔ ∀ u ∈ s.tasks, u.jobId = job → u.status ≠ .cancelled) := by
  obtain ⟨_, sameTasks, round⟩ := follows.spec (sound_reachable run).ledger.keyed
  obtain ⟨some, finished⟩ := follows.finished run
  have someKept : ∃ u ∈ followed.tasks, u.jobId = job := by
    rw [sameTasks]
    exact some
  obtain ⟨reached, roundKept⟩ := round_kept (follows.reachable run) someKept round path
  obtain ⟨tasks, inRound⟩ := added.spec
  have listed : t.dependencies = earlierTasks s job := roundKept _ inRound rfl
  -- the earlier Tasks are rows of the snapshot after the addition
  have there : ∀ u ∈ s.tasks, u.jobId = job → u ∈ after.tasks := by
    intro u member owned
    rw [tasks, mem_append]
    rw [← sameTasks] at member
    exact .inl (kept u member owned)
  have keyed := (sound_reachable (added.reachable reached)).ledger.keyed
  refine ⟨listed, ?_, ?_⟩
  · intro d depends
    rw [listed, mem_earlierTasks] at depends
    obtain ⟨u, member, owned, rfl⟩ := depends
    refine ⟨u, there u member owned, rfl, ?_⟩
    by_cases cancelled : u.status = .cancelled
    · exact .inr cancelled
    · exact .inl (finished u member owned cancelled)
  · constructor
    · intro done u member owned cancelled
      have depends : u.id ∈ t.dependencies := by
        rw [listed]
        exact mem_earlierTasks.mpr ⟨u, member, owned, rfl⟩
      obtain ⟨w, w_mem, same, ended⟩ := done u.id depends
      have row : w = u := (distinct_tasks keyed).eq_of_key w_mem (there u member owned) same
      rw [row, cancelled] at ended
      cases ended
    · intro uncancelled d depends
      rw [listed, mem_earlierTasks] at depends
      obtain ⟨u, member, owned, rfl⟩ := depends
      exact ⟨u, there u member owned, rfl, finished u member owned (uncancelled u member owned)⟩

/-! ## Two rounds -/

def followupCall : Call :=
  { uuid := "7", request := request "job.followup" [("job", "job_2"), ("prompt", "More")] }

def addCall : Call :=
  { uuid := "8", request := request "task.add" [("job", "job_2"), ("title", "V")] }

theorem followedUp_played {calls : List Call}
    (plays : (play {} (calls ++ [followupCall])).isSome = true)
    (selects : (((required followupCall.request "job") >>= (played calls).jobIndex).toOption.map
      fun i => ((played calls).jobs.get i).id) = some "job_2") :
    FollowedUp (played calls) "job_2" (played (calls ++ [followupCall])) := by
  obtain ⟨fresh, reply, ok⟩ := played_last plays
  cases selected : (required followupCall.request "job") >>= (played calls).jobIndex with
  | error e =>
    rw [selected] at selects
    cases selects
  | ok i =>
    rw [selected] at selects
    exact ⟨_, _, _, _, reply, fresh, ⟨rfl, i, selected, some.inj selects⟩, ok⟩

theorem addedTo_played (calls : List Call) (plays : (play {} (calls ++ [addCall])).isSome = true)
    (owned : (played (calls ++ [addCall])).tasks.getLast?.map Task.jobId = some "job_2") :
    ∃ t, (played (calls ++ [addCall])).tasks.getLast? = some t ∧
      AddedTo (played calls) "job_2" t (played (calls ++ [addCall])) := by
  obtain ⟨fresh, reply, ok⟩ := played_last plays
  have named : addCall.request.command = .ok .taskAdd := rfl
  obtain ⟨t, rfl, tasks, _⟩ := taskAdd_spec named ok
  have last : (played (calls ++ [addCall])).tasks.getLast? = some t := by
    rw [tasks, getLast?_concat]
  rw [last] at owned
  exact ⟨t, last, _, _, _, _, fresh, named, some.inj owned, ok⟩

/-- The only Task of the Job is done, so that the Task of the next round may start. -/
theorem finished_round_starts : ∃ t,
    (played (approvedRun.take 4 ++ [followupCall] ++ [addCall])).tasks.getLast? = some t ∧
      t.dependencies = ["task_3"] ∧
      DependenciesDone (played (approvedRun.take 4 ++ [followupCall] ++ [addCall])) t := by
  obtain ⟨t, last, added⟩ := addedTo_played (approvedRun.take 4 ++ [followupCall])
    (by decide) (by decide)
  have follows : FollowedUp (played (approvedRun.take 4)) "job_2" _ :=
    followedUp_played (by decide) (by decide)
  obtain ⟨listed, _, starts⟩ := round_starts_unless_cancelled always_played follows .refl
    (fun _ member _ => member) added
  exact ⟨t, last, listed.trans (by decide), starts.mpr (by decide)⟩

/-- A Job of two Tasks, of which a human cancels one and finishes the other. -/
def reviewedRun : List Call :=
  [{ uuid := "1", request := request "project.register" [("root", "/r"), ("name", "P")] },
   { uuid := "2", request := request "job.create" [("project", "prj_1"), ("title", "J")] },
   { uuid := "3", request := request "task.add" [("job", "job_2"), ("title", "T")] },
   { uuid := "4", request := request "task.add" [("job", "job_2"), ("title", "U")] },
   { uuid := "5", request := request "task.cancel" [("task", "task_3")],
     options := { actorRef := "user:obsidian" } },
   { uuid := "6", request := request "task.done" [("task", "task_4")],
     options := { actorRef := "user:obsidian" } }]

/-- The cancelled Task is a prerequisite of the next round, which cannot start. -/
theorem cancelled_task_blocks_round : ¬ ∀ (s followed after : Snapshot) (job : String) (t : Task),
    Reachable s → FollowedUp s job followed → AddedTo followed job t after →
      ∀ d ∈ t.dependencies, ∀ u ∈ after.tasks, u.id = d → u.status = .done := by
  intro always
  obtain ⟨t, last, added⟩ := addedTo_played (reviewedRun ++ [followupCall])
    (by decide) (by decide)
  have follows : FollowedUp (played reviewedRun) "job_2" _ :=
    followedUp_played (by decide) (by decide)
  have done := always _ _ _ _ t always_played follows added
  have listed : (played (reviewedRun ++ [followupCall] ++ [addCall])).tasks.getLast?.map
      Task.dependencies = some ["task_3", "task_4"] := by decide
  rw [last] at listed
  have unfinished : ∃ u ∈ (played (reviewedRun ++ [followupCall] ++ [addCall])).tasks,
      u.id = "task_3" ∧ u.status = .cancelled := by decide
  obtain ⟨u, member, named, cancelled⟩ := unfinished
  have depends : "task_3" ∈ t.dependencies := by
    rw [some.inj listed]
    decide
  have ended := done "task_3" depends u member named
  rw [cancelled] at ended
  cases ended

/-! ## Owners -/

/-- What the store says about where its rows belong. -/
structure OwnersAgree (s : Snapshot) : Prop where
  jobs : Distinct Job.id s.jobs
  tasks : Distinct Task.id s.tasks
  home : ∀ t ∈ s.tasks, ∃ job ∈ s.jobs, job.id = t.jobId ∧ job.projectId = t.projectId
  round : ∀ job ∈ s.jobs, ∀ d ∈ job.followupTaskIds, ∃ t ∈ s.tasks, t.id = d ∧ t.jobId = job.id

/-- Whatever commands and reaps did: no two Jobs and no two Tasks share an identifier, every Task has
its Job in its Project, and a round follows up Tasks of its own Job. -/
theorem reachable_owners_agree (run : Reachable s) : OwnersAgree s := by
  have ledger := (sound_reachable run).ledger
  constructor
  case jobs =>
    have keyed : ((s.jobs.map Job.entry).map Ledger.Job.id).Nodup := ledger.keyed.jobs
    rw [List.map_map] at keyed
    exact keyed
  case tasks =>
    have keyed : ((s.tasks.map Task.entry).map Ledger.Task.id).Nodup := ledger.keyed.tasks
    rw [List.map_map] at keyed
    exact keyed
  case home =>
    intro t mem
    obtain ⟨entry, known, owns⟩ := ledger.linked.home _ (Snapshot.task_mem mem)
    obtain ⟨job, mem', rfl⟩ := mem_map.mp known
    exact ⟨job, mem', owns⟩
  case round =>
    intro job mem d listed
    obtain ⟨entry, known, owned⟩ := ledger.linked.followup _ (Snapshot.job_mem mem) d listed
    obtain ⟨t, mem', rfl⟩ := mem_map.mp known
    exact ⟨t, mem', owned⟩

theorem followed_owners_agree :
    (played (approvedRun.take 4 ++ [followupCall] ++ [addCall])).jobs.map Job.followupTaskIds =
        [["task_3"]] ∧
      OwnersAgree (played (approvedRun.take 4 ++ [followupCall] ++ [addCall])) :=
  ⟨by decide, reachable_owners_agree always_played⟩

end Agentix.TaskStore
