import Agentix.Refinement.Job
import Agentix.Refinement.Task
import Agentix.TaskStore.Run

/-! # Commands as effects

Every step of the task store is a sequence of ledger effects, under an authority that says
which leased Tasks the step may touch and which finished Job it may bring back.
-/

namespace Agentix.TaskStore

open Lib Relation List

/-! ## Authority -/

variable {now : Int} {request : Value} {options : WriteOptions}

/-- The steps that act on a Task whoever leases it: a human finishes the Task or approves its Job
in Obsidian, a human cancels the Job's Issue, or the Task's session ends. -/
inductive Excepted (s : Snapshot) (request : Value) (options : WriteOptions) (job : String)
    (session : Option String) : Prop
  | finishes (command : request.command = .ok (.task .done))
      (human : options.actorRef = "user:obsidian")
  | approves (command : request.command = .ok (.job .approve))
      (human : options.actorRef = "user:obsidian")
  | cancels {i : Fin s.issues.length} {row : Job} (command : request.command = .ok (.issue .cancel))
      (human : startsWith options.actorRef "user:" = true)
      (issue : (required request "issue" >>= s.issueIndex) = .ok i) (member : row ∈ s.jobs)
      (owns : row.id = job) (linked : row.issueId = some (s.issues.get i).id)
  | ends {ended : String} (command : request.command = .ok (.session .finish) ∨
        request.command = .ok (.session .interrupt))
      (named : required request "session" = .ok ended) (last : session = some ended)

/-- The options carry the token of the lease together with its session. -/
def Carries (options : WriteOptions) (l : Ledger.Lease) : Prop :=
  options.leaseToken = some l.token ∧ options.sessionRef = some l.session

/-- `task.retry` and `task.reopen` of a Task of the Job. -/
def Resumes (s : Snapshot) (request : Value) (job : String) : Prop :=
  (request.command = .ok (.task .retry) ∨ request.command = .ok (.task .reopen)) ∧
    ∃ i, (required request "task" >>= s.taskIndex) = .ok i ∧ (s.tasks.get i).jobId = job

def commandAuthority (s : Snapshot) (request : Value) (options : WriteOptions) :
    Ledger.Authority where
  touch leases t :=
    (∀ l ∈ leases, l.task ≠ t.id) ∨ (∃ l ∈ leases, l.task = t.id ∧ Carries options l) ∨
      Excepted s request options t.job t.session
  reopen L job := L = s.ledger ∧ Resumes s request job.id

/-- Expiry may take every lease. -/
def reapAuthority : Ledger.Authority where
  touch _ _ := True
  reopen _ _ := False

variable {s s' : Snapshot}

theorem authorize_touch {t : Task} (authorizes : authorize s t options now = .ok ()) :
    (commandAuthority s request options).touch s.ledger.leases t.entry := by
  unfold authorize at authorizes
  cases found : s.leases.find? fun l => l.taskId = t.id with
  | some l =>
    rw [found] at authorizes
    simp only [ensure_ok] at authorizes
    have named : l.taskId = t.id := by simpa using find?_some found
    exact .inr (.inl ⟨l.entry, Snapshot.lease_mem (mem_of_find?_eq_some found), named,
      authorizes.1, authorizes.2.1⟩)
  | none =>
    refine .inl fun l' lease' => ?_
    obtain ⟨l, lease, rfl⟩ := mem_map.mp lease'
    simpa using find?_eq_none.mp found l lease

/-! ## Steps -/

theorem advances_dispatch {env : Env} {command : Command} {reply : Reply}
    (consistent : Ledger.Consistent s.ledger) (plain : s.queryContext = {}) (fresh : env.Fresh s)
    (named : request.command = .ok command)
    (ok : dispatch env s command request options now = .ok (s', reply)) :
    Advances (commandAuthority s request options) s s' := by
  have unleased : ∀ t ∈ s.tasks, (∀ l ∈ s.leases, l.taskId ≠ t.id) →
      (commandAuthority s request options).touch s.ledger.leases t.entry := by
    intro t _ free
    refine .inl fun l' lease' => ?_
    obtain ⟨l, lease, rfl⟩ := mem_map.mp lease'
    exact free l lease
  cases command with
  | issue command =>
    refine advances_applyIssue consistent ?_ ok
    rintro rfl human i issue t _ job mem owns linked
    exact .inr (.inr (.cancels named human issue mem owns linked))
  | milestone command => exact advances_applyMilestone ok
  | project command =>
    cases command with
    | register => exact advances_registerProject ok
    | move => exact advances_moveProject ok
    | rename => exact advances_renameProject ok
    | relocate => exact advances_renameProject ok
    | delete => exact advances_applyDeletion consistent ok
    | archive => exact advances_archiveProject ok
    | unarchive => exact advances_archiveProject ok
  | jobDelete => exact advances_applyDeletion consistent ok
  | sessionRecord => exact advances_recordConversation ok
  | sessionStage =>
    obtain rfl := dispatch_sessionStage_inv ok
    exact .refl
  | conversationAttach =>
    obtain ⟨rfl, _⟩ := attachConversation_inv ok
    exact .refl
  | jobCreate =>
    obtain ⟨job, opened, links⟩ := dispatch_jobCreate_inv ok
    have creation : Advances (commandAuthority s request options) s
        { s with jobs := s.jobs ++ [job] } :=
      .of_newJob opened fun old mem => fresh.jobs old mem 0
    exact creation.trans (advances_linkJob (creation.consistent consistent) links)
  | job command =>
    obtain ⟨updated, row, updates, rest⟩ := dispatch_job_inv ok
    have update : Advances (commandAuthority s request options) s updated := by
      refine advances_updateJob consistent plain unleased ?_ updates
      rintro rfl human t _
      exact .inr (.inr (.approves named human))
    obtain ⟨_, links⟩ | ⟨rfl, _⟩ := rest
    · exact update.trans (advances_linkJob (update.consistent consistent) links)
    · exact update
  | taskAdd => exact advances_addTask (fun old mem => fresh.tasks old mem 0) ok
  | session command =>
    refine advances_applySession consistent ?_ ok
    intro ends session asked leases t last
    have ending : request.command = .ok (.session .finish) ∨
        request.command = .ok (.session .interrupt) := by
      cases ends with
      | inl finishes => exact .inl (finishes ▸ named)
      | inr interrupts => exact .inr (interrupts ▸ named)
    exact .inr (.inr (.ends ending asked last))
  | task command =>
    refine advances_updateTask consistent plain ?_ ?_ ?_ ok
    · exact fun t _ authorizes => authorize_touch authorizes
    · rintro rfl human t _
      exact .inr (.inr (.finishes named human))
    · intro resumes i selected job _ owned
      have resuming : request.command = .ok (.task .retry) ∨
          request.command = .ok (.task .reopen) := by
        cases resumes with
        | inl retries => exact .inl (retries ▸ named)
        | inr reopens => exact .inr (reopens ▸ named)
      exact ⟨rfl, resuming, i, selected, owned.symm⟩
  | unknown => cases ok

theorem advances_apply {env : Env} {reply : Reply} (consistent : Ledger.Consistent s.ledger)
    (plain : s.queryContext = {}) (fresh : env.Fresh s)
    (ok : apply env s request options now = .ok (s', reply)) :
    Advances (commandAuthority s request options) s s' := by
  obtain ⟨_, named, dispatches⟩ := apply_inv ok
  exact advances_dispatch consistent plain fresh named dispatches

/-! ## Runs -/

def stepAuthority (s : Snapshot) : Action → Ledger.Authority
  | .command _ request options _ => commandAuthority s request options
  | .reap _ => reapAuthority

theorem advances_step {action : Action} (consistent : Ledger.Consistent s.ledger)
    (plain : s.queryContext = {}) (step : Step s action s') :
    Advances (stepAuthority s action) s s' := by
  cases action with
  | command env request options now =>
    obtain ⟨fresh, reply, ok⟩ := step
    exact advances_apply consistent plain fresh ok
  | reap now => exact advances_reapExpired consistent (fun _ _ => trivial) step

/-- What every reachable snapshot is: a consistent ledger without query summaries. -/
structure Sound (s : Snapshot) : Prop where
  plain : s.queryContext = {}
  ledger : Ledger.Consistent s.ledger

theorem sound_step {action : Action} (sound : Sound s) (step : Step s action s') : Sound s' :=
  have advances := advances_step sound.ledger sound.plain step
  ⟨advances.plain sound.plain, advances.consistent sound.ledger⟩

theorem sound_reachable {condition : Snapshot → Action → Prop}
    (run : store.Reachable condition s) : Sound s :=
  run.invariant Sound ⟨rfl, Ledger.consistent_empty⟩ fun _ _ sound step => sound_step sound step

end Agentix.TaskStore
