import Agentix.Retries.Service

/-! # Retried calls of the service

A call under an idempotency key that was answered once is answered the same way after any number
of other calls, and only reaps and publishes; under the same key every other well-formed call is
refused.  This holds of a first call whose own document import left its options as they were.
-/

namespace Agentix.TaskStore

open Lib Relation

section Calls

variable {host : Host} {vault : Vault} {db db' : Database} {now : Int} {command : String}
  {request : Value} {options : WriteOptions}

variable {reaped : Database} {key : String}

/-- What can happen to the store between two calls. -/
inductive Happens (db : Database) : Database → Prop
  | stored {transaction : Transaction} {db' : Database}
      (step : Database.Step db transaction db') : Happens db db'
  | served (host : Host) (vault : Vault) (request : Value) (options : WriteOptions) (now : Int) :
      Happens db (Served.run (serve host vault request options now) db).2

theorem later_of_happens (happens : ReflTransGen Happens db db') : Later db db' := by
  induction happens with
  | refl => exact .refl
  | tail _ next ih =>
    cases next with
    | stored step => exact ih.tail ⟨_, step⟩
    | served host vault request options now =>
      exact ih.trans (Serves.serve request options _)

/-- The document import of a first call does not replace the revision it expects. -/
def ImportKeeps (host : Host) (vault : Vault) (command : String) (request : Value)
    (options : WriteOptions) (now : Int) (db : Database) : Prop :=
  ∀ reaped options' after, reap db now = .ok reaped →
    Served.run (importFirst host vault command request options now) reaped = (.ok options', after) →
    options' = options

/-- The Project that an archiving command answered with is still there when the retry has
published. -/
def StillThere (host : Host) (vault : Vault) (command : String) (outcome : Outcome) (now : Int)
    (db : Database) : Prop :=
  archiving command = true → ∀ id, outcome.result.id? = some id →
    ∃ p ∈ (afterReplay host vault command outcome now db).rows.projects, p.id = id

/-- The answers of a call and of its retry: the Project of an archiving command is read again, and
only the first answer has withdrawal notices. -/
structure SameAnswer (command : String) (first second : Answer) : Prop where
  sequence : second.sequence = first.sequence
  result : archiving command = false → second.result.withoutNotices = first.result.withoutNotices

/-- What later calls under the key of an answered call do.  A retry reaps and publishes. -/
structure Retried (host : Host) (command : String) (request : Value) (options : WriteOptions)
    (key : String) (answer : Answer) (now : Int) (db : Database) : Prop where
  answered : ∃ outcome reaped, reap db now = .ok reaped ∧ ∀ vault,
    StillThere host vault command outcome now reaped →
    ∃ again, Served.run (serve host vault request options now) db =
      (.ok again, afterReplay host vault command outcome now reaped) ∧
      SameAnswer command answer again
  refused : ∀ vault request' options' command',
    validatePublicHashes request' = .ok () → validateRequest request' = .ok () →
    required request' "command" = .ok command' → planning command' = false →
    options'.idempotencyKey = some key →
    host.fingerprint request' options' ≠ host.fingerprint request options →
    ∃ reaped, reap db now = .ok reaped ∧
      Served.run (serve host vault request' options' now) db = (.error reusedKey, reaped)

theorem reaping_ok (reaps : reap db now = .ok reaped) :
    Served.run (Served.transaction fun db => do
      let db ← reap db now
      pure (db, ())) db = (.ok (), reaped) := by
  simp only [Served.run_transaction_ok, bind_ok, pure_ok, Prod.mk.injEq, and_true]
  exact ⟨reaped, reaps, rfl⟩

/-- What an answered call has in common with the outcome under its key. -/
structure Answers (command : String) (outcome : Outcome) (answer : Answer) : Prop where
  sequence : answer.sequence = outcome.sequence
  result : archiving command = false → answer.result.withoutNotices = outcome.result.withoutNotices
  project : archiving command = true → draftOnly command outcome.result = false →
    ∃ id, outcome.result.id? = some id ∧ blank id = false

theorem serveFirst_receipted {answer : Answer} (keyed : options.idempotencyKey = some key)
    (kept : ∀ options' after, Served.run (importFirst host vault command request options now) db =
      (.ok options', after) → options' = options)
    (first : Served.run (serveFirst host vault command request options now) db = (.ok answer, db')) :
    ∃ outcome, Receipted db' key (host.fingerprint request options) outcome ∧
      Answers command outcome answer := by
  simp only [serveFirst, Served.run_bind_ok] at first
  obtain ⟨options', imported, imports, _, checked, _, hashed, prepared, _, outcome, executed,
    executes, noted, mid, notes, publishes⟩ := first
  obtain rfl := kept options' imported imports
  have receipted := executeAs_receipted keyed (Served.run_transaction_ok.mp executes)
  obtain ⟨rfl, sequence, result, same⟩ := notified_ok notes
  obtain ⟨sequence', result', project⟩ := published_ok publishes
  have later : Later _ db' := (Serves.published command noted).later publishes
  refine ⟨outcome, later.receipted receipted, sequence'.trans sequence, fun other => ?_, ?_⟩
  · rw [result' other, result]
  · intro archives
    rw [← same archives]
    exact project archives

theorem serve_receipted {answer : Answer} (named : required request "command" = .ok command)
    (notPlan : planning command = false) (keyed : options.idempotencyKey = some key)
    (kept : ImportKeeps host vault command request options now db)
    (first : Served.run (serve host vault request options now) db = (.ok answer, db')) :
    validatePublicHashes request = .ok () ∧ validateRequest request = .ok () ∧
      ∃ outcome, Receipted db' key (host.fingerprint request options) outcome ∧
        Answers command outcome answer := by
  simp only [serve, Served.run_bind_ok, Served.run_query_ok, Served.run_transaction_ok, bind_ok,
    pure_ok, Prod.mk.injEq] at first
  obtain ⟨_, _, ⟨hashes, rfl⟩, _, reaped, ⟨_, reaps, same, _⟩, command', _, ⟨named', unread⟩,
    rest⟩ := first
  rw [same] at reaps
  rw [unread] at rest
  obtain rfl : command = command' := Except.ok.inj (named.symm.trans named')
  rw [if_neg (by simp [notPlan])] at rest
  simp only [Served.run_bind_ok, Served.run_query_ok] at rest
  obtain ⟨earlier, _, ⟨replays, unread⟩, rest⟩ := rest
  rw [unread] at rest
  have valid : validateRequest request = .ok () := by
    simp only [replay, bind_ok] at replays
    exact replays.choose_spec.1
  refine ⟨hashes, valid, ?_⟩
  cases earlier with
  | some outcome =>
    have receipted := replay_eq_some keyed replays
    obtain ⟨sequence, result, project⟩ := published_ok rest
    have later : Later reaped db' := (Serves.published command outcome).later rest
    exact ⟨outcome, later.receipted receipted, sequence,
      fun other => by rw [result other], project⟩
  | none => exact serveFirst_receipted keyed (kept _ · · reaps ·) rest

/-- A call under a key whose receipt has another fingerprint only reaps. -/
theorem serve_refused {outcome : Outcome} {fingerprint : String}
    (hashes : validatePublicHashes request = .ok ()) (valid : validateRequest request = .ok ())
    (named : required request "command" = .ok command) (notPlan : planning command = false)
    (keyed : options.idempotencyKey = some key) (reaps : reap db now = .ok reaped)
    (receipted : Receipted reaped key fingerprint outcome)
    (ne : host.fingerprint request options ≠ fingerprint) :
    Served.run (serve host vault request options now) db = (.error reusedKey, reaped) := by
  have refused : replay host reaped request options = .error reusedKey :=
    replay_refused valid keyed receipted ne
  simp only [serve, Served.run_bind, Served.run_query, hashes, reaping_ok reaps, named, notPlan,
    refused, Bool.false_eq_true, if_false]

theorem serve_replayed {outcome : Outcome} (hashes : validatePublicHashes request = .ok ())
    (valid : validateRequest request = .ok ()) (named : required request "command" = .ok command)
    (notPlan : planning command = false) (keyed : options.idempotencyKey = some key)
    (reaps : reap db now = .ok reaped)
    (receipted : Receipted reaped key (host.fingerprint request options) outcome) :
    Served.run (serve host vault request options now) db =
      Served.run (published host vault command outcome now) reaped := by
  have replays := replay_receipted valid keyed receipted
  simp only [serve, Served.run_bind, Served.run_query, hashes, reaping_ok reaps, named, notPlan,
    replays, Bool.false_eq_true, if_false]

theorem keyed_calls_retried {answer : Answer} {key : String} {db₁ db₂ : Database} {later : Int}
    (stored : Stored db) (named : required request "command" = .ok command)
    (notPlan : planning command = false) (keyed : options.idempotencyKey = some key)
    (kept : ImportKeeps host vault command request options now db)
    (first : Served.run (serve host vault request options now) db = (.ok answer, db₁))
    (happened : ReflTransGen Happens db₁ db₂) :
    Retried host command request options key answer later db₂ := by
  obtain ⟨hashes, valid, outcome, receipted, answers⟩ :=
    serve_receipted named notPlan keyed kept first
  have since : Later db db₂ :=
    ((Serves.serve request options).later first).trans (later_of_happens happened)
  obtain ⟨reaped, reaps⟩ := stored_reaps (since.stored stored) later
  have reaping : Later db₂ reaped := .single ⟨.reap later, reaps⟩
  have held := reaping.receipted ((later_of_happens happened).receipted receipted)
  constructor
  · refine ⟨outcome, reaped, reaps, fun vault' present => ?_⟩
    have replayed : Served.run (serve host vault' request options later) db₂ = _ :=
      serve_replayed hashes valid named notPlan keyed reaps held
    obtain ⟨again, publishes⟩ : ∃ again,
        Served.run (published host vault' command outcome later) reaped =
          (.ok again, afterReplay host vault' command outcome later reaped) :=
      published_answers fun archives documented =>
        let ⟨id, given, full⟩ := answers.project archives documented
        ⟨id, given, full, present archives id given⟩
    obtain ⟨sequence, result, -⟩ := published_ok publishes
    refine ⟨again, replayed.trans publishes, sequence.trans answers.sequence.symm, fun other => ?_⟩
    rw [result other, answers.result other]
  · intro vault' request' options' command' hashes' valid' named' notPlan' keyed' differs
    exact ⟨reaped, reaps, serve_refused hashes' valid' named' notPlan' keyed' reaps held differs⟩

end Calls

/-! ## Instances -/

/-- A machine whose fingerprints tell commands, names, keys and expected revisions apart. -/
def keyedHost (uuid : String) : Host :=
  { Host.drawing uuid with
    fingerprint := fun request options =>
      ((request.index "command").asStr.getD "") ++ "|" ++ ((request.index "name").asStr.getD "") ++
        "|" ++ options.actorRef ++ "|" ++ (options.expectedRevision.elim "" toString) }

def emptyVault : Vault where
  lockFile _ := .ok ()
  folderMoves _ := .ok []
  relocations _ := .ok []
  issueDocument _ _ := .ok none
  milestoneDocument _ _ := .ok none
  issueContent _ _ := .ok {}
  contentHash content := content.requirement ++ content.acceptance ++ content.notes
  reviewHash content := content.requirement ++ content.acceptance
  planFile _ := .error "not found: Plan file"
  belowProperties := .ok
  planTaken _ _ := false
  planHash := id
  pending _ := .ok []
  importedWith _ _ := {}
  render _ _ := .ok ()

def registering : Value :=
  request "project.register" [("root", "/r"), ("name", "P")]

def registered : Fallible Answer × Database :=
  Served.run (serve (keyedHost "1") emptyVault registering { idempotencyKey := some "k" } 0) {}

def archivingProject : Value :=
  request "project.archive" [("project", "prj_1")]

def archived : Fallible Answer × Database :=
  Served.run (serve (keyedHost "2") emptyVault archivingProject { idempotencyKey := some "a" } 1)
    registered.2

def deletedSince : Fallible Answer × Database :=
  Served.run (serve (keyedHost "3") emptyVault (request "project.delete" [("project", "prj_1")])
    {} 2) archived.2

example : deletedSince.1.toBool = true := by decide +kernel

/-- A registration is answered the same way after its Project was archived. -/
theorem registration_retried : ∃ answer db, registered = (.ok answer, db) ∧
    Retried (keyedHost "1") "project.register" registering { idempotencyKey := some "k" } "k" answer 5
      archived.2 := by
  have answers : registered.1.toBool = true := by decide +kernel
  have imports : (Served.run (importFirst (keyedHost "1") emptyVault "project.register" registering
      { idempotencyKey := some "k" } 0) {}).1.toOption = some { idempotencyKey := some "k" } := by
    decide +kernel
  have kept : ImportKeeps (keyedHost "1") emptyVault "project.register" registering
      { idempotencyKey := some "k" } 0 {} := by
    intro reaped options' after reaps ran
    cases reaps
    have same := congrArg (fun result => result.1.toOption) ran
    exact Option.some.inj (same.symm.trans imports)
  have happened : ReflTransGen Happens registered.2 archived.2 :=
    .single (.served (keyedHost "2") emptyVault archivingProject { idempotencyKey := some "a" } 1)
  cases first : registered with
  | mk answered db =>
    rw [first] at answers happened
    cases answered with
    | error message => cases answers
    | ok answer =>
      exact ⟨answer, db, rfl, keyed_calls_retried .start (by decide) (by decide) rfl kept first
        happened⟩

/-- A Project is archived and deleted: the archiving call is not answered again. -/
theorem archiving_retry_fails : ¬ ∀ (host : Host) (vault : Vault) (request : Value)
    (options : WriteOptions) (command key : String) (db db₁ db₂ : Database) (answer : Answer)
    (now later : Int), Stored db → required request "command" = .ok command →
    planning command = false → options.idempotencyKey = some key →
    Served.run (serve host vault request options now) db = (.ok answer, db₁) →
    ReflTransGen Happens db₁ db₂ →
    ∃ again after, Served.run (serve host vault request options later) db₂ = (.ok again, after) ∧
      again.sequence = answer.sequence := by
  intro claim
  have answers : archived.1.toBool = true := by decide +kernel
  have fails : (Served.run (serve (keyedHost "2") emptyVault archivingProject
      { idempotencyKey := some "a" } 3) deletedSince.2).1.toBool = false := by decide +kernel
  have stored : Stored registered.2 :=
    ((Serves.serve registering { idempotencyKey := some "k" }) {}).stored .start
  have happened : ReflTransGen Happens archived.2 deletedSince.2 :=
    .single (.served (keyedHost "3") emptyVault (request "project.delete" [("project", "prj_1")])
      {} 2)
  cases first : archived with
  | mk answered db =>
    rw [first] at answers happened
    cases answered with
    | error message => cases answers
    | ok answer =>
      obtain ⟨again, after, ran, -⟩ := claim (keyedHost "2") emptyVault archivingProject
        { idempotencyKey := some "a" } "project.archive" "a" registered.2 db deletedSince.2 answer 1 3
        stored (by decide) (by decide) rfl first happened
      rw [ran] at fails
      cases fails

end Agentix.TaskStore
