import Agentix.Refinement.Command

/-! # Follow-up rounds

Only a follow-up of a Job changes what its next Tasks depend on: every other command keeps
the round of each Job, a new Job starts without one, and a deletion drops Jobs.
-/

namespace Agentix.TaskStore

open Lib List

def Job.round (job : Job) : String × List String :=
  (job.id, job.followupTaskIds)

def Snapshot.rounds (s : Snapshot) : List (String × List String) :=
  s.jobs.map Job.round

variable {s s' : Snapshot}
variable {env : Env} {j : Fin s.jobs.length} {i : Fin s.tasks.length} {now : Int} {job row : Job}
  {reply : Reply} {command : TaskCommand} {request : Value} {options : WriteOptions}

theorem Job.round_of_entry (same : row.entry = job.entry) :
    row.round = job.round := by
  simp only [Job.entry, Ledger.Job.mk.injEq] at same
  simp [Job.round, same]

theorem rounds_modifyJob {j : Nat} {f : Job → Job} (keeps : ∀ job, (f job).round = job.round) :
    (s.modifyJob j f).rounds = s.rounds := by
  unfold Snapshot.rounds Snapshot.modifyJob
  apply ext_getElem
  · simp
  · intro n _ _
    simp only [getElem_map, getElem_modify]
    split
    · exact keeps _
    · rfl

theorem rounds_jobRow (s' : Snapshot) (unmoved : s'.jobs = s.jobs)
    (same : row.round = (s.jobs.get j).round) :
    (s'.modifyJob j fun _ => row).rounds = s.rounds := by
  unfold Snapshot.rounds Snapshot.modifyJob
  rw [unmoved, map_modify_eq_self j same]

/-! ## Issues and links -/

theorem rounds_cancelJobs (issue : String) (now : Int) :
    (cancelJobs s issue now).rounds = s.rounds := by
  simp only [Snapshot.rounds, cancelJobs, map_map]
  apply map_congr_left
  intro job _
  simp only [Function.comp_apply]
  split <;> rfl

theorem rounds_applyIssue {command : IssueCommand}
    (ok : applyIssue env s command request options now = .ok (s', reply)) :
    s'.rounds = s.rounds := by
  obtain ⟨_, creates⟩ | ⟨_, i, _, _, edit⟩ := applyIssue_inv ok
  · obtain ⟨_, _, _, _, rfl, _⟩ := createIssue_inv creates
    rfl
  · cases edit with
    | start => rfl
    | move =>
      split
      · exact rounds_cancelJobs _ now
      · rfl

theorem rounds_associate {job : String} (ok : associate s job request now = .ok s') :
    s'.rounds = s.rounds := by
  cases associate_inv ok with
  | keep => rfl
  | unlink => exact rounds_modifyJob fun _ => rfl
  | @closed j i => exact rounds_modifyJob (f := fun job => { job with issueId := _ }) fun _ => rfl
  | @link j i => exact rounds_modifyJob (f := fun job => { job with issueId := _ }) fun _ => rfl
  | @activate j i => exact rounds_modifyJob (f := fun job => { job with issueId := _ }) fun _ => rfl

theorem rounds_linkJob (ok : linkJob s job request now = .ok (s', reply)) :
    s'.rounds = s.rounds :=
  rounds_associate (linkJob_inv ok).1

theorem rounds_applyMilestone {command : MilestoneCommand}
    (ok : applyMilestone env s command request options now = .ok (s', reply)) :
    s'.rounds = s.rounds := by
  obtain ⟨_, creates⟩ | ⟨_, i, _, _, edit⟩ := applyMilestone_inv ok
  · obtain ⟨_, rfl, _⟩ := createMilestone_inv creates
    rfl
  · cases edit with
    | delete => rfl
    | update => rfl
    | move => rfl

/-! ## Jobs -/

theorem rounds_newJob (opened : job.Opened env) :
    ({ s with jobs := s.jobs ++ [job] } : Snapshot).rounds =
      s.rounds ++ [(env.newId "job" 0, [])] := by
  simp [Snapshot.rounds, Job.round, opened.id, opened.round]

theorem rounds_reviewJob {index : Fin s.jobs.length} {review : Review} {obsidian : Bool}
    (ok : reviewJob s index review request now obsidian = .ok (s', row)) :
    s'.rounds = s.rounds := by
  obtain ⟨rfl, _, _, reviewed⟩ := reviewJob_inv ok
  have kept : (reviewing s (s.jobs.get index).id review now obsidian).jobs = s.jobs := by
    unfold reviewing
    split <;> rfl
  exact rounds_jobRow _ kept (reviewed.written ▸ rfl)

/-- The round of the Job that is followed up, and of no other, is new. -/
theorem rounds_followupJob {index : Fin s.jobs.length}
    (ok : followupJob env s index request options now = .ok (s', row)) :
    s'.rounds = s.rounds.modify index fun _ => ((s.jobs.get index).id,
      (s.tasks.filter fun t => t.jobId = (s.jobs.get index).id).map Task.id) := by
  obtain ⟨_, _, _, rfl, rfl⟩ := followupJob_inv ok
  unfold Snapshot.rounds Snapshot.modifyJob
  apply ext_getElem
  · simp
  · intro n _ _
    simp only [getElem_map, getElem_modify]
    split <;> rfl

theorem rounds_archivedJob {directory : String} {archive : Bool}
    (ok : archivedJob env job directory now archive = .ok row) : row.round = job.round := by
  obtain ⟨_, _, rfl⟩ := archivedJob_inv ok
  rfl

theorem rounds_updateJob {command : JobCommand} (other : command ≠ .followup)
    (ok : updateJob env s command request options now = .ok (s', row)) : s'.rounds = s.rounds := by
  obtain ⟨i, _, _, edit⟩ := updateJob_inv ok
  cases edit with
  | review _ _ reviews => exact rounds_reviewJob reviews
  | followup => exact absurd rfl other
  | cancel stops ends =>
    obtain ⟨_, _, rfl⟩ := cancelJobTasks_inv stops
    exact rounds_jobRow { s with tasks := _ } rfl (ends ▸ rfl)
  | update edits =>
    have same : _ = (s.jobs.get i).round := Job.round_of_entry (updatedJob_entry edits)
    exact rounds_jobRow _ rfl same
  | archive _ _ moves =>
    have same : _ = (s.jobs.get i).round := rounds_archivedJob moves
    exact rounds_jobRow _ rfl same

/-! ## Projects and conversations -/

theorem rounds_renameProject (ok : renameProject s request options = .ok (s', reply)) :
    s'.rounds = s.rounds := by
  obtain ⟨_, _, _, _, moved⟩ := renameProject_inv ok
  obtain ⟨_, moveJobs, moves⟩ := moved.jobs
  refine map_of_mapM_eq_ok (fun row row' edited => ?_) moveJobs
  obtain rfl | ⟨_, rfl⟩ := moves row row' edited <;> rfl

theorem rounds_registerProject (ok : registerProject env s request now = .ok (s', reply)) :
    s'.rounds = s.rounds := by
  obtain rfl | ⟨_, rfl, _⟩ := registerProject_inv ok <;> rfl

theorem rounds_moveProject (ok : moveProject env s request options = .ok (s', reply)) :
    s'.rounds = s.rounds := by
  obtain ⟨_, _, rfl, _⟩ := moveProject_inv ok
  rfl

theorem rounds_archiveProject {archive : Bool}
    (ok : archiveProject s request options now archive = .ok (s', reply)) :
    s'.rounds = s.rounds := by
  obtain ⟨_, _, rfl, _⟩ := archiveProject_inv ok
  rfl

theorem rounds_applyDeletion {projectDelete : Bool}
    (ok : applyDeletion s request options projectDelete = .ok (s', reply)) :
    s'.rounds ⊆ s.rounds := by
  obtain ⟨_, jobs, _, _, rfl⟩ := applyDeletion_inv ok
  have fewer : (s.jobs.filter fun j => j.id ∉ jobs).map Job.round ⊆ s.jobs.map Job.round :=
    map_subset _ (filter_subset_self _)
  split
  · exact fewer
  · exact fewer

theorem rounds_recordConversation
    (ok : recordConversation s request options now = .ok (s', reply)) :
    s'.rounds = s.rounds := by
  obtain rfl | ⟨i, _, _, _, _, _, merged, _, merges, rfl⟩ := recordConversation_inv ok
  · rfl
  · apply rounds_jobRow _ rfl
    apply Job.round_of_entry
    rw [recordedJob_entry, mergeMessages_entry merges, promptedJob_entry]

/-! ## Tasks and sessions -/

theorem rounds_addTask (ok : addTask env s request options now = .ok (s', reply)) :
    s'.rounds = s.rounds := by
  obtain ⟨_, _, _, _, _, rfl⟩ := addTask_inv ok
  exact rounds_modifyJob (s := { s with tasks := _ }) fun _ => rfl

theorem claim_jobs {token : String} (ok : claim s i token request now = .ok s') :
    s'.jobs = s.jobs := by
  obtain ⟨_, _, _, _, _, rfl⟩ := claim_inv ok
  rfl

theorem rounds_startTask (ok : startTask s i j now = .ok s') : s'.rounds = s.rounds := by
  obtain ⟨started, starts, _, _, rfl⟩ := startTask_inv ok
  have same : started.jobs = s.jobs := startIssue_jobs starts
  have begun : started.rounds = s.rounds := congrArg (map Job.round) same
  rw [← begun]
  exact rounds_modifyJob (s := started.modifyTask i _) fun _ => rfl

theorem rounds_changeTask {finishHuman : Bool}
    (edit : TaskEdit env s i j request now finishHuman command s') : s'.rounds = s.rounds := by
  cases edit with
  | claim claims => exact congrArg (map Job.round) (claim_jobs claims)
  | start starts => exact rounds_startTask starts
  | heartbeat => rfl
  | update edits =>
    obtain ⟨_, _, _, _, rfl⟩ := editTask_inv edits
    rfl
  | depend _ _ depends =>
    obtain ⟨_, _, ⟨_, rfl⟩ | rfl⟩ := dependTask_inv depends <;> rfl
  | resume _ _ resumes =>
    obtain ⟨_, _, rfl⟩ := resumeTask_inv resumes
    exact rounds_modifyJob (s := s.modifyTask i Task.resumed) fun _ => rfl
  | leave _ leaves =>
    obtain ⟨_, _, rfl⟩ := leaveTask_inv leaves
    rfl

theorem rounds_aggregateJob (j : Nat) (job : String) (wasReady : Bool) (now : Int) :
    (aggregateJob s j job wasReady now).rounds = s.rounds := by
  apply rounds_modifyJob
  intro row
  unfold aggregatedJob
  split <;> rfl

theorem rounds_updateTask (ok : updateTask env s command request options now = .ok (s', reply)) :
    s'.rounds = s.rounds := by
  obtain ⟨i, j, _, ⟨_, plans⟩ | ⟨changed, completed, written⟩⟩ := updateTask_inv ok
  · obtain ⟨_, _, rfl⟩ := registerPlan_inv plans
    rfl
  · obtain ⟨changes, ⟨policy, rfl⟩, rfl⟩ := written
    rw [rounds_aggregateJob, rounds_modifyJob (f := Job.underPolicy policy) fun _ => rfl]
    have same : changed.rounds = s.rounds := rounds_changeTask changes
    exact same

theorem sessionTask_jobs {command : SessionCommand} {session : String} :
    (sessionTask env s i command session now).1.jobs = s.jobs := by
  cases command with
  | start =>
    simp only [sessionTask]
    split
    · split
      · rename_i claimed ok
        have same : claimed.jobs = s.jobs := claim_jobs ok
        exact same
      · rfl
    · rfl
  | heartbeat => rfl
  | finish =>
    simp only [sessionTask]
    split <;> rfl
  | interrupt =>
    simp only [sessionTask]
    split <;> rfl

theorem sessionLoop_jobs {command : SessionCommand} {session : String} {host : Option String}
    (indexes : List Nat) (s : Snapshot) (changed : List String) :
    (sessionLoop env command session host now indexes s changed).1.jobs = s.jobs := by
  induction indexes generalizing s changed with
  | nil => rfl
  | cons i rest ih =>
    simp only [sessionLoop]
    split
    · split
      · rw [ih, sessionTask_jobs]
      · exact ih s changed
    · rfl

theorem rounds_applySession {command : SessionCommand}
    (ok : applySession env s command request now = .ok (s', reply)) :
    s'.rounds = s.rounds := by
  obtain ⟨_, _, _, rfl⟩ := applySession_inv ok
  exact congrArg (map Job.round) (sessionLoop_jobs _ _ _)

theorem reapTasks_jobs (tasks : List String) {s s' : Snapshot}
    (ok : reapTasks now tasks s = .ok s') : s'.jobs = s.jobs := by
  induction tasks generalizing s with
  | nil =>
    cases ok
    rfl
  | cons task rest ih =>
    simp only [reapTasks, bind_ok] at ok
    obtain ⟨i, _, ok⟩ := ok
    have later : s'.jobs = (systemBlock s i "lease expired" now).jobs := ih ok
    exact later

/-! ## Steps -/

/-- The command follows up the Job. -/
def FollowsUp (s : Snapshot) (request : Value) (job : String) : Prop :=
  request.command = .ok (.job .followup) ∧
    ∃ i, (required request "job" >>= s.jobIndex) = .ok i ∧ (s.jobs.get i).id = job

/-- A round is an old one, unless its Job is new or followed up. -/
theorem rounds_dispatch {command : Command} (named : request.command = .ok command)
    (ok : dispatch env s command request options now = .ok (s', reply)) :
    ∀ round ∈ s'.rounds, round ∈ s.rounds ∨ round.1 = env.newId "job" 0 ∨
      FollowsUp s request round.1 := by
  have kept : s'.rounds = s.rounds → ∀ round ∈ s'.rounds, round ∈ s.rounds ∨
      round.1 = env.newId "job" 0 ∨ FollowsUp s request round.1 := by
    intro same round mem
    rw [same] at mem
    exact .inl mem
  cases command with
  | issue command => exact kept (rounds_applyIssue ok)
  | milestone command => exact kept (rounds_applyMilestone ok)
  | project command =>
    cases command with
    | register => exact kept (rounds_registerProject ok)
    | move => exact kept (rounds_moveProject ok)
    | rename => exact kept (rounds_renameProject ok)
    | relocate => exact kept (rounds_renameProject ok)
    | delete => exact fun round mem => .inl (rounds_applyDeletion ok mem)
    | archive => exact kept (rounds_archiveProject ok)
    | unarchive => exact kept (rounds_archiveProject ok)
  | jobDelete => exact fun round mem => .inl (rounds_applyDeletion ok mem)
  | sessionRecord => exact kept (rounds_recordConversation ok)
  | sessionStage =>
    obtain rfl := dispatch_sessionStage_inv ok
    exact kept rfl
  | conversationAttach =>
    obtain ⟨rfl, _⟩ := attachConversation_inv ok
    exact kept rfl
  -- The round of the new Job is the only one added.
  | jobCreate =>
    obtain ⟨job, opened, links⟩ := dispatch_jobCreate_inv ok
    intro round mem
    rw [rounds_linkJob links, rounds_newJob opened, mem_append, mem_singleton] at mem
    obtain old | rfl := mem
    · exact .inl old
    · exact .inr (.inl rfl)
  -- Only a follow-up starts a round, and for the Job it selected.
  | job command =>
    obtain ⟨updated, row, updates, rest⟩ := dispatch_job_inv ok
    have linked : s'.rounds = updated.rounds := by
      obtain ⟨_, links⟩ | ⟨rfl, _⟩ := rest
      · exact rounds_linkJob links
      · rfl
    by_cases follows : command = .followup
    · subst follows
      obtain ⟨i, selected, followed⟩ := updateJob_followup updates
      intro round mem
      rw [linked, rounds_followupJob followed] at mem
      obtain ⟨n, bound, rfl⟩ := mem_iff_getElem.mp mem
      rw [getElem_modify]
      split
      · exact .inr (.inr ⟨named, i, selected, rfl⟩)
      · exact .inl (getElem_mem _)
    · exact kept (linked.trans (rounds_updateJob follows updates))
  | taskAdd => exact kept (rounds_addTask ok)
  | session command => exact kept (rounds_applySession ok)
  | task command => exact kept (rounds_updateTask ok)
  | unknown => cases ok

theorem round_step {action : Action} (step : Step s action s') {round : String × List String}
    (mem : round ∈ s'.rounds) (there : round.1 ∈ s.jobs.map Job.id)
    (unfollowed : ∀ env request options now, action = .command env request options now →
      ¬ FollowsUp s request round.1) : round ∈ s.rounds := by
  cases action with
  | command env request options now =>
    obtain ⟨fresh, reply, ok⟩ := step
    obtain ⟨_, named, dispatches⟩ := apply_inv ok
    obtain old | new | follows := rounds_dispatch named dispatches round mem
    · exact old
    · obtain ⟨job, job_mem, same⟩ := mem_map.mp there
      exact absurd (same.trans new) (fresh.jobs job job_mem 0)
    · exact absurd follows (unfollowed env request options now rfl)
  | reap now =>
    have same : s'.jobs = s.jobs := reapTasks_jobs _ step
    unfold Snapshot.rounds at mem ⊢
    rw [same] at mem
    exact mem

end Agentix.TaskStore
