import Agentix.Lib.Rows
import Agentix.TaskStore.Value
import Agentix.TaskStore.Model

/-! # Checks shared by the mutations -/

namespace Agentix.TaskStore

open Lib

def checkRevision (revision : Int) (options : WriteOptions) : Fallible Unit :=
  ensure (options.expectedRevision.all (· = revision))
    s!"conflict: revision changed (current {revision})"

def validateRequest (request : Value) : Fallible Unit := do
  ensure (request.get? "inbox_ids" matches none ∧ request.get? "inbox" matches none)
    "invalid: unsupported association field"
  let command ← required request "command"
  ensure (¬ startsWith command "inbox.") "invalid: unsupported command"

/-- The key of a Project's daily high-water mark for one kind of document. -/
def sequenceKey (project kind : String) (created : Int) : String :=
  s!"{project}:{kind}:{created / 86400}"

/-- Whether `source` depends, directly or through other Tasks, on `target`. -/
def dependsOn (state : Snapshot) (source target : String) : Bool :=
  reaches state.tasks Task.id Task.dependencies source target

def jobReady (state : Snapshot) (jobId : String) : Bool :=
  let (eligible, incomplete) := (state.queryContext.jobCounts.lookup jobId).getD (0, 0)
  let tasks := state.tasks.filter fun t => t.jobId = jobId ∧ t.status ≠ .cancelled
  (eligible > 0 || !tasks.isEmpty) && incomplete == 0 && tasks.all fun t => t.status = .done

def ReviewPolicy.ofValue (value : Value) : Option ReviewPolicy :=
  match value.tag with
  | some "required" => some .required
  | some "none" => some .none
  | _ => Option.none

def reviewPolicy (request : Value) : Fallible (Option ReviewPolicy) :=
  match request.get? "review_policy" with
  | none | some .null => .ok none
  | some value =>
    some <$> orElseError (ReviewPolicy.ofValue value)
      "invalid: review_policy must be required or none"

def completionPolicy (job : Job) (request : Value) : Fallible (Option ReviewPolicy) :=
  match request.get? "completion_policy" with
  | none => .ok none
  | some value => do
    let policy ← orElseError (ReviewPolicy.ofValue value)
      "invalid: completion_policy must be required or none"
    let revision ← orElseError ((request.get? "expected_job_revision").bind Value.asI64)
      "invalid: completion_policy requires expected_job_revision"
    ensure (job.revision = revision) s!"conflict: Job revision changed (current {job.revision})"
    ensure (job.status = .active) "conflict: completion policy requires an ACTIVE Job"
    pure (some policy)

def readyStatus : ReviewPolicy → JobStatus
  | .required => .pendingReview
  | .none => .completed

def authorize (state : Snapshot) (task : Task) (options : WriteOptions) (now : Int) :
    Fallible Unit :=
  match state.leases.find? (fun l => l.taskId = task.id) with
  | some lease =>
    ensure (options.leaseToken = some lease.token ∧ options.sessionRef = some lease.sessionRef ∧
        lease.leaseExpiresAt > now)
      "conflict: active Task requires the current lease token and session"
  | none => ensure (options.leaseToken = none) "conflict: lease has expired or been released"

/-- The next number of an Issue or Milestone: only query summaries and high-water marks count. -/
def sequence (state : Snapshot) (project kind : String) (now : Int) : Fallible Nat :=
  let current := (state.queryContext.sequences.lookup (project, kind)).getD 0
  let retained := (state.documentSequences.lookup (sequenceKey project kind now)).getD 0
  if max current retained + 1 ≤ u64Max then .ok (max current retained + 1)
  else .error "invalid: document sequence exhausted"

/-- `*entry(key).or_default() = max(number)` on the high-water marks. -/
def raiseSequence (marks : List (String × Nat)) (key : String) (number : Nat) :
    List (String × Nat) :=
  if (marks.lookup key).isSome then
    marks.map fun mark => if mark.1 = key then (key, max mark.2 number) else mark
  else marks ++ [(key, number)]

end Agentix.TaskStore
