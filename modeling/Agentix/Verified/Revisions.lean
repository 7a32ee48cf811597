import Agentix.Revisions.Creation

/-! # Revisions of the rows

Every command raises the revision of the Projects, Jobs, Tasks, Issues and Milestones that it
changes, so that a writer that read an older row is refused.  There are two exceptions, both of
commands that have not run under their idempotency key: an attachment of turns that only gives a
follow-up placeholder the identifier of a known message, and an Issue created under the
identifier of another one.
-/

namespace Agentix.TaskStore

open Lib

/-! ## Commands that check the revision of a row -/

section Checks

variable (s : Snapshot) (request : Value)

/-- The request is for a command that checks the revision of the Project it names, which is `row`. -/
def ChecksProject (row : Project) : Prop :=
  ∃ command i, request.command = .ok (.project command) ∧ command ≠ .register ∧
    (required request "project" >>= s.projectIndex) = .ok i ∧ s.projects.get i = row

def ChecksMilestone (row : Milestone) : Prop :=
  ∃ command i, request.command = .ok (.milestone command) ∧ command ≠ .create ∧
    (required request "milestone" >>= s.milestoneIndex) = .ok i ∧ s.milestones.get i = row

def ChecksIssue (row : Issue) : Prop :=
  ∃ command i, request.command = .ok (.issue command) ∧ command ≠ .create ∧
    (required request "issue" >>= s.issueIndex) = .ok i ∧ s.issues.get i = row

def ChecksJob (row : Job) : Prop :=
  ∃ i, ((∃ command, request.command = .ok (.job command)) ∨ request.command = .ok .jobDelete ∨
      request.command = .ok .conversationAttach) ∧
    (required request "job" >>= s.jobIndex) = .ok i ∧ s.jobs.get i = row

def ChecksTask (row : Task) : Prop :=
  ∃ command i, request.command = .ok (.task command) ∧
    (required request "task" >>= s.taskIndex) = .ok i ∧ s.tasks.get i = row

end Checks

section Commands

variable {env : Env} {s s' : Snapshot} {request : Value} {options : WriteOptions} {now : Int}
  {reply : Reply}

theorem apply_command {command : Command} (named : request.command = .ok command)
    (ok : apply env s request options now = .ok (s', reply)) :
    dispatch env s command request options now = .ok (s', reply) := by
  obtain ⟨command', named', dispatches⟩ := apply_inv ok
  obtain rfl : command = command' := Except.ok.inj (named.symm.trans named')
  exact dispatches

theorem ChecksProject.checked {row : Project} (checks : ChecksProject s request row)
    (ok : apply env s request options now = .ok (s', reply)) :
    checkRevision row.revision options = .ok () := by
  obtain ⟨command, i, named, other, selected, rfl⟩ := checks
  have dispatches := apply_command named ok
  have written : ∀ {j row}, ProjectWritten s request options j row →
      checkRevision (s.projects.get i).revision options = .ok () := by
    intro j row written
    obtain rfl : i = j := Except.ok.inj (selected.symm.trans written.selected)
    exact written.checked
  cases command with
  | register => exact absurd rfl other
  | move =>
    obtain ⟨_, _, _, moved⟩ := moveProject_inv dispatches
    exact written moved
  | rename =>
    obtain ⟨_, _, _, renamed, _⟩ := renameProject_inv dispatches
    exact written renamed
  | relocate =>
    obtain ⟨_, _, _, renamed, _⟩ := renameProject_inv dispatches
    exact written renamed
  | delete =>
    obtain ⟨_, _, target, _⟩ := applyDeletion_inv dispatches
    obtain ⟨_, j, found, checked⟩ | ⟨other, _⟩ := deletionTarget_inv target
    · obtain rfl : i = j := Except.ok.inj (selected.symm.trans found)
      exact checked
    · cases other
  | archive =>
    obtain ⟨_, _, _, archived⟩ := archiveProject_inv dispatches
    exact written archived
  | unarchive =>
    obtain ⟨_, _, _, archived⟩ := archiveProject_inv dispatches
    exact written archived

theorem ChecksMilestone.checked {row : Milestone} (checks : ChecksMilestone s request row)
    (ok : apply env s request options now = .ok (s', reply)) :
    checkRevision row.revision options = .ok () := by
  obtain ⟨command, i, named, other, selected, rfl⟩ := checks
  obtain ⟨creates, _⟩ | ⟨_, j, found, checked, _⟩ := applyMilestone_inv (apply_command named ok)
  · exact absurd creates other
  · obtain rfl : i = j := Except.ok.inj (selected.symm.trans found)
    exact checked

theorem ChecksIssue.checked {row : Issue} (checks : ChecksIssue s request row)
    (ok : apply env s request options now = .ok (s', reply)) :
    checkRevision row.revision options = .ok () := by
  obtain ⟨command, i, named, other, selected, rfl⟩ := checks
  obtain ⟨creates, _⟩ | ⟨_, j, found, checked, _⟩ := applyIssue_inv (apply_command named ok)
  · exact absurd creates other
  · obtain rfl : i = j := Except.ok.inj (selected.symm.trans found)
    exact checked

theorem ChecksJob.checked {row : Job} (checks : ChecksJob s request row)
    (ok : apply env s request options now = .ok (s', reply)) :
    checkRevision row.revision options = .ok () := by
  obtain ⟨i, ⟨command, named⟩ | named | named, selected, rfl⟩ := checks
  · obtain ⟨_, _, updates, _⟩ := dispatch_job_inv (apply_command named ok)
    obtain ⟨j, found, checked, _⟩ := updateJob_inv updates
    obtain rfl : i = j := Except.ok.inj (selected.symm.trans found)
    exact checked
  · obtain ⟨_, _, target, _⟩ := applyDeletion_inv (apply_command named ok)
    obtain ⟨other, _⟩ | ⟨_, j, found, checked⟩ := deletionTarget_inv target
    · cases other
    · obtain rfl : i = j := Except.ok.inj (selected.symm.trans found)
      exact checked
  · obtain ⟨_, j, found, checked, _⟩ := attachConversation_inv (apply_command named ok)
    obtain rfl : i = j := Except.ok.inj (selected.symm.trans found)
    exact checked

theorem ChecksTask.checked {row : Task} (checks : ChecksTask s request row)
    (ok : apply env s request options now = .ok (s', reply)) :
    checkRevision row.revision options = .ok () := by
  obtain ⟨command, i, named, selected, rfl⟩ := checks
  obtain ⟨j, _, chosen, _⟩ := updateTask_inv (apply_command named ok)
  obtain rfl : i = j := Except.ok.inj (selected.symm.trans chosen.selected)
  exact chosen.checked

/-! ## Guarded rows -/

/-- Every changed row is beyond its old revision, and the commands that check it refuse a writer
that expects the old one. -/
structure Guards {ρ : Type} (id : ρ → String) (revision : ρ → Int)
    (checks : Snapshot → Value → ρ → Prop) (before after : List ρ) : Prop where
  grows : Supersedes id revision before after
  refuses : ∀ row ∈ before, ∀ row' ∈ after, id row' = id row → row' ≠ row →
    ∀ (env : Env) (s : Snapshot) (request : Value) (options : WriteOptions) (now : Int),
      checks s request row' → options.expectedRevision = some (revision row) →
      ∃ message, apply env s request options now = .error message

structure RevisionsGrow (s s' : Snapshot) : Prop where
  projects : Guards Project.id Project.revision ChecksProject s.projects s'.projects
  jobs : Guards Job.id Job.revision ChecksJob s.jobs s'.jobs
  tasks : Guards Task.id Task.revision ChecksTask s.tasks s'.tasks
  issues : Guards Issue.id Issue.revision ChecksIssue s.issues s'.issues
  milestones : Guards Milestone.id Milestone.revision ChecksMilestone s.milestones s'.milestones

/-- A command that checks a revision refuses a lesser one. -/
theorem guards_of_supersedes {ρ : Type} {id : ρ → String} {revision : ρ → Int}
    {checks : Snapshot → Value → ρ → Prop} {before after : List ρ}
    (checked : ∀ {env : Env} {s s' : Snapshot} {request : Value} {options : WriteOptions} {now : Int}
      {reply : Reply} {row : ρ}, checks s request row →
      apply env s request options now = .ok (s', reply) →
      checkRevision (revision row) options = .ok ())
    (supersedes : Supersedes id revision before after) :
    Guards id revision checks before after := by
  refine ⟨supersedes, fun row mem row' mem' same ne env s request options now names asked => ?_⟩
  have greater := supersedes row mem row' mem' same ne
  cases ok : apply env s request options now with
  | error message => exact ⟨message, rfl⟩
  | ok result =>
    have agrees := checked names ok
    rw [checkRevision, ensure_ok, asked] at agrees
    have current : revision row = revision row' := by simpa using agrees
    omega

theorem revisionsGrow_of_follows {drawn : Drawn} {before after : Snapshot} (keyed : Keyed before)
    (follows : Follows drawn before after) (unused : Undrawn drawn before) :
    RevisionsGrow before after where
  projects := guards_of_supersedes ChecksProject.checked
    (follows.projects.supersedes keyed.projects unused.projects)
  jobs := guards_of_supersedes ChecksJob.checked
    (follows.jobs.supersedes keyed.jobs unused.jobs)
  tasks := guards_of_supersedes ChecksTask.checked
    (follows.tasks.supersedes keyed.tasks unused.tasks)
  issues := guards_of_supersedes ChecksIssue.checked
    (follows.issues.supersedes keyed.issues unused.issues)
  milestones := guards_of_supersedes ChecksMilestone.checked
    (follows.milestones.supersedes keyed.milestones unused.milestones)

/-- The identifiers that a command draws are not in use, but for that of an Issue that overwrites. -/
theorem undrawn_of_fresh {host : Host} {db : Database} (fresh : host.Fresh db.rows)
    (created : ¬ Overwrites db request) : Undrawn (drawnBy host.toEnv request) db.rows where
  projects p member := fresh.projects p member 0
  milestones m member := fresh.milestones m member 0
  issues issue member := by
    rintro ⟨creates, same⟩
    obtain ⟨text, hasCommand, parses⟩ := map_eq_ok.mp creates
    obtain rfl : text = "issue.create" := by
      rw [← Command.text_parse text, parses]
      decide
    cases given : (request.index "id").asStr with
    | none =>
      rw [createdIssue, given] at same
      exact fresh.issues issue member 0 same
    | some id =>
      rw [createdIssue, given] at same
      exact created ⟨required_index hasCommand, issue, member, given.trans (congrArg some same.symm)⟩
  jobs job member := fresh.jobs job member 0
  tasks t member := fresh.tasks t member 0

/-! ## Executed commands -/

/-- The command leaves a changed row without a greater revision: no receipt answers it, and it only
relabels a placeholder or creates an Issue over another. -/
def Unrevised (db : Database) (request : Value) (options : WriteOptions) (now : Int) : Prop :=
  Unanswered db options ∧ (RelabelsOnly db request options now ∨ Overwrites db request)

/-- In every database of every run, a command guards every row it changes exactly if it is not one
of the two exceptions. -/
theorem revisions_grow_iff {host : Host} {db db' : Database} {expanded : Value} {outcome : Outcome}
    (stored : Stored db) (fresh : host.Fresh db.rows) (apart : host.toEnv.NumbersApart)
    (expands : expandRoots host request = .ok expanded)
    (ok : execute host db request options now = .ok (db', outcome)) :
    RevisionsGrow db.rows db'.rows ↔ ¬ Unrevised db expanded options now := by
  have keyed := stored_keyed stored
  constructor
  · rintro grow ⟨unanswered, relabels | overwrites⟩
    · obtain ⟨job, member, row, member', same, differs, stays⟩ :=
        relabelled_execute keyed expands unanswered relabels ok
      have greater := grow.jobs.grows job member row member' same differs
      omega
    · obtain ⟨issue, member, row, member', same, differs, first⟩ :=
        overwritten_execute keyed apart expands unanswered overwrites ok
      have greater := grow.issues.grows issue member row member' same differs
      have positive := stored_issues_positive stored issue member
      omega
  · intro settled
    obtain follows | ⟨unanswered, follows⟩ := follows_execute keyed
      (fun job member => fresh.jobs job member 0) expands
      (fun unanswered relabels => settled ⟨unanswered, .inl relabels⟩) ok
    · exact revisionsGrow_of_follows keyed (follows .none) (.none db.rows)
    · refine revisionsGrow_of_follows keyed follows (undrawn_of_fresh fresh fun overwrites => ?_)
      exact settled ⟨unanswered, .inr overwrites⟩

end Commands

/-! ## Runs -/

theorem drawing_numbersApart (uuid : String) : (Env.drawing uuid).NumbersApart :=
  fun base => ⟨fun _ _ => numbered_injective, numbered_ne base⟩

/-- A user's message is recorded in a turn of the session. -/
def recorded (uuid turn id text : String) : Call :=
  { uuid
    options := { sessionRef := some "s" }
    request := .object [("command", .string "session.record"), ("session", .string "s"),
      ("turn_id", .string turn), ("messages", .array [.object
        [("id", .string id), ("role", .string "user"), ("text", .string text)]])] }

def attached (uuid turn : String) : Call :=
  { uuid
    options := { sessionRef := some "s" }
    request := .object [("command", .string "conversation.attach"), ("job", .string "job_3"),
      ("conversation_turns", .array [.string turn])] }

/-- A recorded turn is delivered to the Job it opens. -/
def deliveredRun : List Call :=
  [{ uuid := "1", request := request "project.register" [("root", "/r"), ("name", "P")] },
   recorded "2" "t" "m" "go",
   { uuid := "3"
     options := { sessionRef := some "s" }
     request := .object [("command", .string "job.create"), ("project", .string "prj_1"),
       ("title", .string "J"), ("conversation_turns", .array [.string "t"])] }]

/-- The Task of the Job is done, and a follow-up leaves the words of the turn as a placeholder. -/
def followedRun : List Call :=
  deliveredRun ++
  [{ uuid := "4", request := request "task.add" [("job", "job_3"), ("title", "T")] },
   { uuid := "5", request := request "task.done" [("task", "task_4")],
     options := { actorRef := "user:obsidian" } },
   { uuid := "6", options := { sessionRef := some "s" }
     request := request "job.followup" [("job", "job_3"), ("prompt", "go")] }]

/-- A further message waits to be delivered with the words of the placeholder. -/
def placeheldRun : List Call :=
  followedRun ++ [recorded "7" "u" "n" "on"]

/-- The attachment gives the placeholder its identifier and records the further message, and the
Job is under a greater revision. -/
theorem attached_revisions_grow : ∃ db' outcome,
    (attached "8" "u").execute (performed placeheldRun) = .ok (db', outcome) ∧
    RevisionsGrow (performed placeheldRun).rows db'.rows := by
  have runs : ((attached "8" "u").execute (performed placeheldRun)).toBool = true := by decide
  have unused : Unused (.drawing "8") (performed placeheldRun).rows := by decide
  have further : ∀ job ∈ (performed placeheldRun).rows.jobs, ¬ Relabels job.conversation "s"
      (deliveredMessages (expire (performed placeheldRun) 0) "s" job.id [.string "u"]) := by
    decide
  cases ok : (attached "8" "u").execute (performed placeheldRun) with
  | error message =>
    rw [ok] at runs
    cases runs
  | ok result =>
    refine ⟨result.1, result.2, rfl, (revisions_grow_iff (stored_performed _) unused.fresh
      (drawing_numbersApart "8") rfl ok).mpr ?_⟩
    rintro ⟨_, ⟨_, turns, session, query, job, member, selects, hasSession, _, _, relabels⟩ |
      ⟨creates, _⟩⟩
    · obtain rfl : [Value.string "u"] = turns := Option.some.inj (Except.ok.inj selects)
      obtain rfl : "s" = session := Option.some.inj hasSession
      exact further job member relabels
    · exact absurd creates (by decide)

/-- The turn attached once more gives its identifier to the placeholder, and the Job keeps its
revision. -/
theorem relabelled_revision_stays : ¬ ∀ (host : Host) (db db' : Database) (request : Value)
    (options : WriteOptions) (now : Int) (outcome : Outcome), Stored db → host.Fresh db.rows →
    execute host db request options now = .ok (db', outcome) → RevisionsGrow db.rows db'.rows := by
  intro claim
  have unused : Unused (.drawing "7") (performed followedRun).rows := by decide
  have kept : ∃ job ∈ (performed followedRun).rows.jobs,
      ∃ job' ∈ (((attached "7" "t").execute (performed followedRun)).toOption.map
        fun result => result.1.rows.jobs).getD [],
      job'.id = job.id ∧ job' ≠ job ∧ ¬ job.revision < job'.revision := by decide
  obtain ⟨job, member, job', member', same, differs, stays⟩ := kept
  cases ok : (attached "7" "t").execute (performed followedRun) with
  | error message =>
    rw [ok] at member'
    cases member'
  | ok result =>
    rw [ok] at member'
    have grow := claim (.drawing "7") _ _ _ _ _ _ (stored_performed _) unused.fresh ok
    exact stays (grow.jobs.grows job member job' member' same differs)

end Agentix.TaskStore
