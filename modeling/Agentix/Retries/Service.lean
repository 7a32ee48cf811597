import Agentix.Revisions.Execution
import Agentix.TaskStore.Service

/-! # Receipts

The outcome of a command is kept under its idempotency key for good, and no transaction removes
a Task that a lease names, so that expired leases can always be reaped.
-/

namespace Agentix.TaskStore

open Lib List

variable {s s' : Snapshot} {db db' : Database}

/-! ## Outcomes under a key -/

variable {host : Host} {now : Int} {outcome : Outcome} {reply : Reply} {key : String}
  {request source : Value} {options : WriteOptions}

def Receipted (db : Database) (key fingerprint : String) (outcome : Outcome) : Prop :=
  db.receipts.find? (fun r => r.key = key) = some ⟨key, fingerprint, outcome⟩

theorem transact_receipts (ok : transact host db request options now = .ok (db', reply)) :
    db'.receipts = db.receipts := by
  obtain ⟨run⟩ := transact_inv ok
  rw [run.keeps, (attach_tables run.attaches).2.1, (prepare_tables run.prepares).2]

theorem receiptOf_eq_some (ok : receiptOf host db source options key = .ok (some outcome)) :
    Receipted db key (host.fingerprint source options) outcome := by
  unfold receiptOf at ok
  split at ok
  · cases ok
  · rename_i receipt found
    simp only [bind_ok, ensure_ok, pure_ok, Option.some.injEq] at ok
    obtain ⟨_, same, rfl⟩ := ok
    have named : receipt.key = key := by simpa using find?_some found
    unfold Receipted
    rw [found, ← same, ← named]

theorem receiptOf_eq_none (ok : receiptOf host db source options key = .ok none) :
    db.receipts.find? (fun r => r.key = key) = none := by
  unfold receiptOf at ok
  split at ok
  · assumption
  · simp only [bind_ok, pure_ok, reduceCtorEq, and_false, exists_false] at ok

/-- A command leaves a receipt under its key, its own or the one it answered with. -/
theorem executeAs_receipted (keyed : options.idempotencyKey = some key)
    (ok : executeAs host db request options source now = .ok (db', outcome)) :
    Receipted db' key (host.fingerprint source options) outcome := by
  simp only [executeAs, earlierOutcome, keyed, bind_ok] at ok
  obtain ⟨_, _, _, _, earlier, ⟨_, _, receipt⟩, ok⟩ := ok
  cases earlier with
  | some outcome =>
    cases ok
    exact receiptOf_eq_some receipt
  | none =>
    simp only [bind_ok, pure_ok, Prod.mk.injEq] at ok
    obtain ⟨⟨mid, reply⟩, transacts, rfl, rfl⟩ := ok
    have none := receiptOf_eq_none receipt
    rw [← transact_receipts transacts] at none
    simp [Receipted, keepReceipt, keyed, find?_append, none]

theorem executeAs_keeps {answer : Outcome} {fingerprint : String}
    (ok : executeAs host db request options source now = .ok (db', answer))
    (receipted : Receipted db key fingerprint outcome) :
    Receipted db' key fingerprint outcome := by
  simp only [executeAs, bind_ok] at ok
  obtain ⟨_, _, _, _, earlier, _, ok⟩ := ok
  cases earlier with
  | some _ =>
    cases ok
    exact receipted
  | none =>
    simp only [bind_ok, pure_ok, Prod.mk.injEq] at ok
    obtain ⟨⟨mid, reply⟩, transacts, rfl, _⟩ := ok
    unfold Receipted at receipted ⊢
    rw [← transact_receipts transacts] at receipted
    unfold keepReceipt
    split
    · exact receipted
    · simp [find?_append, receipted]

theorem step_receipted {transaction : Transaction} {fingerprint : String}
    (step : Database.Step db transaction db') (receipted : Receipted db key fingerprint outcome) :
    Receipted db' key fingerprint outcome := by
  cases transaction with
  | command host request options source now =>
    obtain ⟨_, ok⟩ := step
    exact executeAs_keeps ok receipted
  | reap now =>
    obtain ⟨_, _, _, same⟩ := reap_rows step
    unfold Receipted
    rw [same]
    exact receipted

/-! ## Tasks of leases -/

theorem resolve_present {α : Type} {rows : List α} {id name : α → String} {query : String}
    (full : query ≠ "") (present : ∃ row ∈ rows, id row = query) :
    ∃ i, resolve rows id name query = .ok i := by
  obtain ⟨row, mem, same⟩ := present
  unfold resolve
  rw [if_neg full]
  cases found : rows.findFinIdx? (fun row => id row == query) with
  | some i => exact ⟨i, rfl⟩
  | none =>
    have absent := findFinIdx?_eq_none_iff.mp found row mem
    simp [same] at absent

theorem tasks_dispatch {env : Env} {command : Command} (named : request.command = .ok command)
    (ok : dispatch env s command request options now = .ok (s', reply)) :
    Revises Task.id Task.revision (drawnBy env request).task s.tasks s'.tasks := by
  have linked : ∀ {mid : Snapshot} {job : Job}, linkJob mid job request now = .ok (s', reply) →
      Revises Task.id Task.revision (drawnBy env request).task mid.tasks s'.tasks := by
    intro mid job links
    have follows : Follows (drawnBy env request) mid { s' with jobs := mid.jobs } :=
      (associate_rows (linkJob_inv links).1).2
    exact follows.tasks
  by_cases creating : command = .jobCreate
  · subst creating
    obtain ⟨job, _, links⟩ := dispatch_jobCreate_inv ok
    have after := linked links
    exact after
  · by_cases editing : ∃ edit, command = .job edit
    · obtain ⟨edit, rfl⟩ := editing
      obtain ⟨updated, row, updates, rest⟩ := dispatch_job_inv ok
      have written := (jobWritten_updateJob updates).tasks (drawnBy env request).task
      obtain ⟨_, links⟩ | ⟨rfl, _⟩ := rest
      · exact written.trans (linked links)
      · exact written
    · exact (follows_others creating (fun edit same => editing ⟨edit, same⟩) named ok).tasks

theorem transact_tasks (ok : transact host db request options now = .ok (db', reply)) :
    Revises Task.id Task.revision (· = host.newId "task" 0) db.rows.tasks db'.rows.tasks ∧
      References db'.rows := by
  obtain ⟨run⟩ := transact_inv ok
  have tasks : run.after.tasks = run.mid.tasks := by rw [(attach_tables run.attaches).2.2]
  obtain ⟨_, named, dispatches⟩ := apply_inv run.applies
  have revises := tasks_dispatch named dispatches
  rw [← tasks] at revises
  refine ⟨?_, run.references⟩
  have written := revises_writeRows run.part.tasks revises
  rw [run.rows]
  simp only [persistRows]
  split
  · exact revises_deleteRows written
  · exact written

/-- What reaping rests on: a lease names a Task, by an identifier that is not empty. -/
structure Held (rows : Snapshot) : Prop where
  named : ∀ t ∈ rows.tasks, t.id ≠ ""
  leases : ∀ l ∈ rows.leases, ∃ t ∈ rows.tasks, t.id = l.taskId

theorem held_transact (held : Held db.rows)
    (ok : transact host db request options now = .ok (db', reply)) : Held db'.rows := by
  obtain ⟨revises, _, _, _, _, _, leases, _⟩ := transact_tasks ok
  refine ⟨fun t mem => ?_, leases⟩
  cases revises t mem with
  | inl found =>
    obtain ⟨old, old_mem, same, _⟩ := found
    exact same ▸ held.named old old_mem
  | inr drawn =>
    rw [drawn.1]
    simp [Env.newId]

theorem held_reapTasks {tasks : List String} (held : Held s) (ok : reapTasks now tasks s = .ok s') :
    Held s' := by
  induction tasks generalizing s with
  | nil =>
    cases ok
    exact held
  | cons task rest ih =>
    simp only [reapTasks, bind_ok] at ok
    obtain ⟨i, _, ok⟩ := ok
    refine ih ?_ ok
    have ids : (systemBlock s i "lease expired" now).tasks.map Task.id = s.tasks.map Task.id :=
      map_modify_eq_self i rfl
    refine ⟨fun t mem => ?_, fun l mem => ?_⟩
    · have listed : t.id ∈ s.tasks.map Task.id := ids ▸ mem_map_of_mem mem
      obtain ⟨old, old_mem, same⟩ := mem_map.mp listed
      exact same ▸ held.named old old_mem
    · obtain ⟨t, task_mem, names⟩ := held.leases l (mem_filter.mp mem).1
      have listed : l.taskId ∈ (systemBlock s i "lease expired" now).tasks.map Task.id := by
        rw [ids, ← names]
        exact mem_map_of_mem task_mem
      exact mem_map.mp listed

theorem reapTasks_ok {tasks : List String} (named : ∀ t ∈ s.tasks, t.id ≠ "")
    (present : ∀ id ∈ tasks, ∃ t ∈ s.tasks, t.id = id) :
    ∃ s', reapTasks now tasks s = .ok s' := by
  induction tasks generalizing s with
  | nil => exact ⟨s, rfl⟩
  | cons task rest ih =>
    obtain ⟨t, mem, same⟩ := present task mem_cons_self
    obtain ⟨i, found⟩ : ∃ i, s.taskIndex task = .ok i :=
      resolve_present (same ▸ named t mem) ⟨t, mem, same⟩
    have ids : (systemBlock s i "lease expired" now).tasks.map Task.id = s.tasks.map Task.id :=
      map_modify_eq_self i rfl
    have kept : ∀ id, (∃ t ∈ s.tasks, t.id = id) ↔
        ∃ t ∈ (systemBlock s i "lease expired" now).tasks, t.id = id := by
      intro id
      rw [← mem_map, ← mem_map, ids]
    obtain ⟨s', reaps⟩ := ih
      (s := systemBlock s i "lease expired" now)
      (fun t mem => by
        obtain ⟨old, old_mem, same⟩ := (kept t.id).mpr ⟨t, mem, rfl⟩
        exact same ▸ named old old_mem)
      (fun id later => (kept id).mp (present id (mem_cons_of_mem _ later)))
    refine ⟨s', ?_⟩
    simp only [reapTasks, bind_ok]
    exact ⟨i, found, reaps⟩

theorem stored_held (stored : Stored db) : Held db.rows := by
  refine stored.invariant (fun db => Held db.rows) ?_ ?_
  · exact ⟨forall_mem_nil _, forall_mem_nil _⟩
  · intro db db' transaction _ _ held step
    cases transaction with
    | command host request options source now =>
      obtain ⟨outcome, ok⟩ := step
      obtain ⟨expanded, _, ⟨_, rfl⟩ | ⟨_, mid, reply, transacts, same⟩⟩ := executeAs_cases ok
      · exact held
      · exact same ▸ held_transact held transacts
    | reap now =>
      have reaps : reap db now = .ok db' := step
      simp only [reap, bind_ok, pure_ok] at reaps
      obtain ⟨rows, reaps, rfl⟩ := reaps
      exact held_reapTasks held reaps

/-- In every database the expired leases can be reaped. -/
theorem stored_reaps (stored : Stored db) (now : Int) : ∃ db', reap db now = .ok db' := by
  have held := stored_held stored
  have present : ∀ id ∈ (db.rows.leases.filter fun l => l.leaseExpiresAt ≤ now).map Lease.taskId,
      ∃ t ∈ db.rows.tasks, t.id = id := by
    intro id listed
    obtain ⟨l, mem, rfl⟩ := mem_map.mp listed
    exact held.leases l (mem_filter.mp mem).1
  obtain ⟨rows, reaps⟩ : ∃ rows, reapTasks now _ db.rows = .ok rows :=
    reapTasks_ok held.named present
  exact ⟨_, by simp only [reap, reapExpired, reaps]; rfl⟩

end Agentix.TaskStore

/-! # Service calls as runs of the store

Whatever a service call answers, what it leaves is what some transactions of the store leave:
the receipts stay, and expired leases can be reaped.
-/

namespace Agentix.TaskStore

open Lib Relation

variable {host : Host} {vault : Vault} {db db' : Database} {now : Int}

/-- Transactions of the store, one after another. -/
def Later : Database → Database → Prop :=
  ReflTransGen fun db db' => ∃ transaction, Database.Step db transaction db'

theorem Later.receipted {key fingerprint : String} {outcome : Outcome} (later : Later db db')
    (receipted : Receipted db key fingerprint outcome) : Receipted db' key fingerprint outcome :=
  invariant_of_steps (Receipted · key fingerprint outcome)
    (fun _ _ step receipted => step_receipted step.choose_spec receipted) later receipted

theorem Later.stored (later : Later db db') (stored : Stored db) : Stored db' :=
  invariant_of_steps Stored (fun _ _ step stored => stored.step trivial step.choose_spec) later
    stored

/-- A service call whose transactions are those of the store. -/
abbrev Serves {α : Type} (action : Served Database α) : Prop :=
  Served.Respects Later action

namespace Serves

variable {α β : Type}

variable {action : Served Database α}

theorem pure (value : α) : Serves (Pure.pure value : Served Database α) :=
  Served.respects_pure (fun _ => .refl) value

theorem query (read : Database → Fallible α) : Serves (Served.query read) :=
  Served.respects_query (fun _ => .refl) read

theorem bind {next : α → Served Database β} (first : Serves action)
    (second : ∀ value, Serves (next value)) : Serves (action >>= next) :=
  Served.respects_bind .trans first second

theorem recover {handler : String → Served Database α} (first : Serves action)
    (second : ∀ message, Serves (handler message)) :
    Serves (Served.recover action handler) :=
  Served.respects_recover .trans first second

theorem reaping : Serves (Served.transaction fun db => do
    let db ← reap db now
    Pure.pure (db, ())) := by
  refine Served.respects_transaction (fun _ => .refl) fun db db' _ done => ?_
  simp only [bind_ok, pure_ok, Prod.mk.injEq] at done
  obtain ⟨reaped, reaps, rfl, _⟩ := done
  exact .single ⟨.reap now, reaps⟩

theorem executing (request : Value) (options : WriteOptions) (source : Value) :
    Serves (Served.transaction fun db => executeAs host db request options source now) :=
  Served.respects_transaction (fun _ => .refl) fun _ _ outcome done =>
    .single ⟨.command host request options source now, outcome, done⟩

theorem storeExecute (request : Value) (options : WriteOptions) :
    Serves (storeExecute host request options now) :=
  (query _).bind fun _ => reaping.bind fun _ => executing request options request

theorem executeEach (requests : List (Value × WriteOptions)) :
    Serves (executeEach host now requests) := by
  induction requests with
  | nil => exact pure ()
  | cons head rest ih =>
    exact (storeExecute head.1 head.2).bind fun _ => ih

theorem validateMoves (requests : List (Value × WriteOptions)) :
    Serves (validateMoves host now requests) := by
  induction requests with
  | nil => exact pure ()
  | cons head rest ih =>
    exact (query _).bind fun _ => (query _).bind fun _ => ih

theorem lockOutput : Serves (lockOutput host vault now) :=
  (query _).bind fun _ => (query _).bind fun _ => (validateMoves _).bind fun _ =>
    (executeEach _).bind fun _ => (query _).bind fun _ => executeEach _

theorem reconcileIssues (issues : List Issue) (imported : Imported) :
    Serves (reconcileIssues host vault now issues imported) := by
  induction issues generalizing imported with
  | nil => exact pure imported
  | cons issue rest ih =>
    refine (query _).bind fun document => ?_
    cases document with
    | none => exact ih imported
    | some document =>
      simp only
      split
      · exact (executing _ _ _).bind fun _ => (query _).bind fun _ => ih _
      · exact ih imported

theorem reconcileMilestones (milestones : List Milestone) (imported : Imported) :
    Serves (reconcileMilestones host vault now milestones imported) := by
  induction milestones generalizing imported with
  | nil => exact pure imported
  | cons milestone rest ih =>
    refine (query _).bind fun document => ?_
    cases document with
    | none => exact ih imported
    | some document =>
      simp only
      split
      · exact (storeExecute _ _).bind fun _ => (query _).bind fun _ => ih _
      · exact ih imported

theorem reconcileDocuments (selected : Snapshot) :
    Serves (reconcileDocuments host vault selected now) :=
  (reconcileIssues _ _).bind fun _ => reconcileMilestones _ _

theorem renderEach (keys : List String) : Serves (renderEach host vault now keys) := by
  induction keys with
  | nil => exact pure none
  | cons key rest ih =>
    refine (recover ?_ fun _ => pure _).bind fun _ => ih.bind fun _ => pure _
    exact (query _).bind fun _ => (reconcileDocuments _).bind fun _ => (query _).bind fun _ => pure _

theorem syncPending : Serves (syncPending host vault now) :=
  recover (lockOutput.bind fun _ => (query _).bind fun _ => renderEach _) fun _ => pure _

theorem published (command : String) (outcome : Outcome) :
    Serves (published host vault command outcome now) := by
  unfold TaskStore.published
  split
  · exact pure _
  · refine syncPending.bind fun _ => ?_
    split
    · exact (query _).bind fun _ => (query _).bind fun _ => pure _
    · exact pure _

theorem lockFor (command : String) (needsIssues : Bool) :
    Serves (lockFor host vault command needsIssues now) := by
  unfold TaskStore.lockFor
  split
  · exact lockOutput
  · exact pure ()

theorem importFirst (command : String) (request : Value) (options : WriteOptions) :
    Serves (importFirst host vault command request options now) := by
  refine (query _).bind fun state => (lockFor _ _).bind fun _ => ?_
  split
  · exact (reconcileDocuments _).bind fun _ => pure _
  · exact pure _

theorem checkPlanFile (command : String) (request : Value) (options : WriteOptions) :
    Serves (checkPlanFile host vault command request options now) := by
  unfold TaskStore.checkPlanFile
  split
  · refine (query _).bind fun earlier => ?_
    cases earlier with
    | some _ => exact pure ()
    | none => exact (query _).bind fun _ => query _
  · exact pure ()

theorem baseContent (command : String) (request : Value) :
    Serves (baseContent vault command request) := by
  unfold TaskStore.baseContent
  split
  · exact pure _
  · exact (query _).bind fun _ => query _

theorem hashContent (command : String) (request : Value) (options : WriteOptions) :
    Serves (hashContent host vault command request options now) :=
  (baseContent _ _).bind fun _ => (query _).bind fun _ => (query _).bind fun _ =>
    (query _).bind fun _ => pure _

theorem prepareIssueContent (request : Value) (options : WriteOptions) :
    Serves (prepareIssueContent host vault request options now) := by
  unfold TaskStore.prepareIssueContent
  split
  · exact hashContent _ _ _
  · split
    · exact hashContent _ _ _
    · exact pure _
  · exact pure _

theorem notified (command : String) (request : Value) (outcome : Outcome) :
    Serves (notified command request outcome) := by
  unfold TaskStore.notified
  split
  · split
    · exact query _
    · exact pure _
  · exact pure _

theorem serveFirst (command : String) (request : Value) (options : WriteOptions) :
    Serves (serveFirst host vault command request options now) :=
  (importFirst _ _ _).bind fun _ => (checkPlanFile _ _ _).bind fun _ =>
    (prepareIssueContent _ _).bind fun _ => (executing _ _ _).bind fun _ =>
      (notified _ _ _).bind fun _ => published _ _

theorem writePlan (request : Value) (options : WriteOptions) :
    Serves (writePlan host vault request options now) := by
  refine lockOutput.bind fun _ => (query _).bind fun earlier => ?_
  cases earlier with
  | some outcome =>
    exact (query _).bind fun _ => syncPending.bind fun _ => pure _
  | none =>
    exact (query _).bind fun _ => (query _).bind fun _ => (executing _ _ _).bind fun _ =>
      syncPending.bind fun _ => pure _

theorem serve (request : Value) (options : WriteOptions) :
    Serves (serve host vault request options now) := by
  refine (query _).bind fun _ => reaping.bind fun _ => (query _).bind fun command => ?_
  split
  · exact writePlan request options
  · refine (query _).bind fun earlier => ?_
    cases earlier with
    | some outcome => exact published command outcome
    | none => exact serveFirst command request options

theorem later {answer : Fallible α} (serves : Serves action)
    (ran : Served.run action db = (answer, db')) : Later db db' := by
  have left : (Served.run action db).2 = db' := congrArg Prod.snd ran
  exact left ▸ serves db

end Serves

end Agentix.TaskStore

/-! # Answers of retried calls

The receipt of a key decides the answer to its request, and refuses any other one.
-/

namespace Agentix.TaskStore

open Lib Relation Option List

variable {host : Host} {vault : Vault} {db db' : Database} {now : Int} {command : String}
  {request : Value} {options : WriteOptions} {outcome : Outcome} {answer : Answer}

/-- A result without the withdrawal notices that every first answer is given anew. -/
def Reply.withoutNotices : Reply → Reply
  | .value fields => .value (fields.filter fun field => field.1 ≠ "issue_cancellations")
  | reply => reply

/-! ## Publication -/

theorem syncPending_answers : ∃ failure, (Served.run (syncPending host vault now) db).1 =
    .ok failure := by
  unfold syncPending
  rw [Served.run_recover]
  split
  · rename_i value after _
    exact ⟨value, rfl⟩
  · rename_i message after _
    exact ⟨some message, rfl⟩

/-- An answer is its outcome, but for the Project of an archiving command. -/
theorem published_ok
    (ok : Served.run (published host vault command outcome now) db = (.ok answer, db')) :
    answer.sequence = outcome.sequence ∧
      (archiving command = false → answer.result = outcome.result) ∧
      (archiving command = true → draftOnly command outcome.result = false →
        ∃ id, outcome.result.id? = some id ∧ blank id = false) := by
  unfold published at ok
  split at ok
  · rename_i draft
    cases ok
    exact ⟨rfl, fun _ => rfl, fun _ other => by simp [draft] at other⟩
  · simp only [Served.run_bind_ok] at ok
    obtain ⟨failure, mid, _, ok⟩ := ok
    split at ok
    · rename_i archives
      simp only [Served.run_bind_ok, Served.run_query_ok, orElseError_eq_ok] at ok
      obtain ⟨id, _, ⟨named, rfl⟩, project, _, _, ok⟩ := ok
      cases ok
      obtain ⟨given, full⟩ := filter_eq_some_iff.mp named
      exact ⟨rfl, fun other => by simp [archives] at other,
        fun _ _ => ⟨id, given, by simpa using full⟩⟩
    · rename_i other
      cases ok
      exact ⟨rfl, fun _ => rfl, fun archives => absurd archives other⟩

theorem projectResult_present {id : String} (full : blank id = false)
    (present : ∃ p ∈ db.rows.projects, p.id = id) : ∃ p, projectResult db id = .ok p := by
  obtain ⟨p, mem, rfl⟩ := present
  have nonempty : p.id ≠ "" := by
    intro empty
    rw [empty] at full
    exact absurd full (by decide)
  have listed : p.id ∈ db.rows.projects.map Project.id := mem_map_of_mem mem
  have found : (db.rows.projects.find? fun q => q.id = p.id).isSome = true := by
    rw [find?_isSome]
    exact ⟨p, mem, by simp⟩
  obtain ⟨q, place⟩ := isSome_iff_exists.mp found
  refine ⟨q, ?_⟩
  simp only [projectResult, resolveId, if_neg nonempty, if_pos listed, bind_ok,
    orElseError_eq_ok]
  exact ⟨p.id, rfl, place⟩

/-- What a replayed outcome leaves: drafts touch nothing, others are published once more. -/
def afterReplay (host : Host) (vault : Vault) (command : String) (outcome : Outcome) (now : Int)
    (db : Database) : Database :=
  if draftOnly command outcome.result then db else (Served.run (syncPending host vault now) db).2

/-- A replayed outcome is answered, for an archiving command as long as its Project is there. -/
theorem published_answers
    (present : archiving command = true → draftOnly command outcome.result = false →
      ∃ id, outcome.result.id? = some id ∧ blank id = false ∧
        ∃ p ∈ (afterReplay host vault command outcome now db).rows.projects, p.id = id) :
    ∃ answer : Answer, Served.run (published host vault command outcome now) db =
      (.ok answer, afterReplay host vault command outcome now db) := by
  unfold published afterReplay at *
  split
  · exact ⟨{ outcome with }, rfl⟩
  · rename_i documented
    obtain ⟨failure, answers⟩ : ∃ failure, (Served.run (syncPending host vault now) db).1 =
      .ok failure := syncPending_answers
    generalize left : (Served.run (syncPending host vault now) db).2 = after at present ⊢
    have synced : Served.run (syncPending host vault now) db = (.ok failure, after) :=
      Prod.ext answers left
    by_cases archives : archiving command = true
    · obtain ⟨id, given, full, there⟩ := present archives (by simpa using documented)
      rw [if_neg documented] at there
      obtain ⟨project, found⟩ := projectResult_present full there
      refine ⟨{ outcome with result := .project project, projectionPending := failure }, ?_⟩
      rw [Served.run_bind_ok]
      refine ⟨failure, after, synced, ?_⟩
      rw [if_pos archives, Served.run_bind_ok]
      refine ⟨id, after, ?_, ?_⟩
      · rw [Served.run_query_ok, orElseError_eq_ok, filter_eq_some_iff]
        exact ⟨⟨given, by simp [full]⟩, rfl⟩
      · rw [Served.run_bind_ok]
        exact ⟨project, after, Served.run_query_ok.mpr ⟨found, rfl⟩, rfl⟩
    · refine ⟨{ outcome with projectionPending := failure }, ?_⟩
      rw [Served.run_bind_ok]
      refine ⟨failure, after, synced, ?_⟩
      rw [if_neg archives]
      rfl

/-! ## Receipts -/

theorem notified_ok {after : Outcome}
    (ok : Served.run (notified command request outcome) db = (.ok after, db')) :
    db' = db ∧ after.sequence = outcome.sequence ∧
      after.result.withoutNotices = outcome.result.withoutNotices ∧
      (archiving command = true → after = outcome) := by
  unfold notified at ok
  split at ok
  · rename_i session fields _ result
    split at ok
    · rename_i notifies
      obtain ⟨found, rfl⟩ := Served.run_query_ok.mp ok
      cases found
      refine ⟨rfl, rfl, ?_, fun archives => ?_⟩
      · simp [Reply.withoutNotices, result]
      · simp only [archiving, Bool.or_eq_true, decide_eq_true_eq] at archives
        obtain rfl | rfl := archives
        · exact absurd notifies (by decide)
        · exact absurd notifies (by decide)
    · cases ok
      exact ⟨rfl, rfl, rfl, fun _ => rfl⟩
  · cases ok
    exact ⟨rfl, rfl, rfl, fun _ => rfl⟩

theorem replay_eq_some {key : String} (keyed : options.idempotencyKey = some key)
    (ok : replay host db request options = .ok (some outcome)) :
    Receipted db key (host.fingerprint request options) outcome := by
  simp only [replay, keyed, bind_ok] at ok
  obtain ⟨_, _, receipt⟩ := ok
  exact receiptOf_eq_some receipt

theorem replay_receipted {key : String} (valid : validateRequest request = .ok ())
    (keyed : options.idempotencyKey = some key)
    (receipted : Receipted db key (host.fingerprint request options) outcome) :
    replay host db request options = .ok (some outcome) := by
  unfold Receipted at receipted
  simp [replay, valid, keyed, receiptOf, receipted]

def reusedKey : String :=
  "conflict: idempotency key reused with different input"

theorem replay_refused {key fingerprint : String} (valid : validateRequest request = .ok ())
    (keyed : options.idempotencyKey = some key) (receipted : Receipted db key fingerprint outcome)
    (ne : host.fingerprint request options ≠ fingerprint) :
    replay host db request options = .error reusedKey := by
  unfold Receipted at receipted
  have other : ¬ fingerprint = host.fingerprint request options := fun same => ne same.symm
  simp [replay, valid, keyed, receiptOf, receipted, ensure, other, reusedKey, bind, Except.bind]

end Agentix.TaskStore
