import Agentix.Lib.Run
import Agentix.TaskStore.Mutations

/-! # Runs of the task store

Commands and lease expiry, one after another, from the empty store.
-/

namespace Agentix.TaskStore

open Lib Option List

variable {calls : List Call}

/-- No identifier that the command can draw is in use. -/
structure Env.Fresh (env : Env) (s : Snapshot) : Prop where
  projects : ∀ p ∈ s.projects, ∀ n, p.id ≠ env.newId "prj" n
  milestones : ∀ m ∈ s.milestones, ∀ n, m.id ≠ env.newId "milestone" n
  issues : ∀ issue ∈ s.issues, ∀ n, issue.id ≠ env.newId "issue" n
  jobs : ∀ job ∈ s.jobs, ∀ n, job.id ≠ env.newId "job" n
  tasks : ∀ t ∈ s.tasks, ∀ n, t.id ≠ env.newId "task" n
  leases : ∀ l ∈ s.leases, ∀ n, l.token ≠ env.newId "lease" n

inductive Action where
  | command (env : Env) (request : Value) (options : WriteOptions) (now : Int)
  | reap (now : Int)

def Step (s : Snapshot) (action : Action) (s' : Snapshot) : Prop :=
  match action with
  | .command env request options now =>
    env.Fresh s ∧ ∃ reply, apply env s request options now = .ok (s', reply)
  | .reap now => reapExpired s now = .ok s'

def store : System Snapshot Action := { start := {}, step := Step }

/-- The states of all runs. -/
abbrev Reachable : Snapshot → Prop := store.Reachable System.always

/-! ## Dates -/

/-- The civil date of a day number counted from 1970-01-01. -/
def civilFromDays (days : Int) : Int × Nat × Nat :=
  let z := days + 719468
  let era := z / 146097
  let doe := (z % 146097).toNat
  let yoe := (doe - doe / 1460 + doe / 36524 - doe / 146096) / 365
  let doy := doe - (365 * yoe + yoe / 4 - yoe / 100)
  let mp := (5 * doy + 2) / 153
  let day := doy - (153 * mp + 2) / 5 + 1
  let month := if mp < 10 then mp + 3 else mp - 9
  let year := (yoe : Int) + era * 400 + (if month ≤ 2 then 1 else 0)
  (year, month, day)

/-- `OffsetDateTime::from_unix_timestamp` covers the years -9999 to 9999. -/
def validTimestamp (seconds : Int) : Bool :=
  -377705116800 ≤ seconds && seconds ≤ 253402300799

def daysInMonth (year month : Nat) : Nat :=
  match month with
  | 2 => if year % 4 = 0 ∧ (year % 100 ≠ 0 ∨ year % 400 = 0) then 29 else 28
  | 4 | 6 | 9 | 11 => 30
  | _ => 31

def digits (cs : List Char) : Option Nat :=
  if cs.all Char.isDigit then some (cs.foldl (fun n c => 10 * n + (c.toNat - 48)) 0) else none

/-- The calendar dates `[year]-[month]-[day]` accepts. -/
def validDate (text : String) : Bool :=
  let unsigned := match text.toList with
    | '+' :: rest | '-' :: rest => rest
    | cs => cs
  match unsigned with
  | [y1, y2, y3, y4, '-', m1, m2, '-', d1, d2] =>
    match digits [y1, y2, y3, y4], digits [m1, m2], digits [d1, d2] with
    | some year, some month, some day =>
      1 ≤ month && month ≤ 12 && 1 ≤ day && day ≤ daysInMonth year month
    | _, _, _ => false
  | _ => false

/-! ## Playing a run -/

/-- A machine that draws one random part for all identifiers of a command. -/
def Env.drawing (uuid : String) : Env :=
  { toLowercase := id
    date := fun seconds =>
      if validTimestamp seconds then .ok (civilFromDays (seconds / 86400))
      else .error "timestamp out of range"
    isDate := validDate
    isDir := fun _ => true
    canonicalize := .ok
    uuid := fun _ => uuid }

/-- A request, and what the identifiers drawn for it are made of. -/
structure Call where
  uuid : String
  request : Value
  options : WriteOptions := {}
  now : Int := 0

/-- What `Env.Fresh` asks of a machine that draws one random part. -/
def Unused (env : Env) (s : Snapshot) : Prop :=
  (∀ p ∈ s.projects, p.id ≠ env.newId "prj" 0) ∧
    (∀ m ∈ s.milestones, m.id ≠ env.newId "milestone" 0) ∧
    (∀ issue ∈ s.issues, issue.id ≠ env.newId "issue" 0) ∧
    (∀ job ∈ s.jobs, job.id ≠ env.newId "job" 0) ∧
    (∀ t ∈ s.tasks, t.id ≠ env.newId "task" 0) ∧
    ∀ l ∈ s.leases, l.token ≠ env.newId "lease" 0

instance (env : Env) (s : Snapshot) : Decidable (Unused env s) :=
  inferInstanceAs (Decidable (_ ∧ _))

def request (command : String) (fields : List (String × String)) : Value :=
  .object (("command", .string command) :: fields.map fun field => (field.1, .string field.2))

def play (s : Snapshot) : List Call → Option Snapshot
  | [] => some s
  | call :: rest =>
    if Unused (.drawing call.uuid) s then
      match apply (.drawing call.uuid) s call.request call.options call.now with
      | .ok (next, _) => play next rest
      | .error _ => none
    else none

theorem Unused.fresh {uuid : String} {s : Snapshot} (unused : Unused (.drawing uuid) s) :
    (Env.drawing uuid).Fresh s := by
  obtain ⟨projects, milestones, issues, jobs, tasks, leases⟩ := unused
  exact ⟨fun p mem _ => projects p mem, fun m mem _ => milestones m mem,
    fun issue mem _ => issues issue mem, fun job mem _ => jobs job mem,
    fun t mem _ => tasks t mem, fun l mem _ => leases l mem⟩

theorem reachable_of_play {condition : Snapshot → Action → Prop} {s s' : Snapshot}
    (run : store.Reachable condition s)
    (met : ∀ s call, call ∈ calls → condition s (.command (.drawing call.uuid) call.request call.options call.now))
    (plays : play s calls = some s') : store.Reachable condition s' := by
  induction calls generalizing s with
  | nil =>
    cases plays
    exact run
  | cons call rest ih =>
    simp only [play] at plays
    split at plays
    · rename_i unused
      split at plays
      · rename_i next reply ok
        have after : store.Reachable condition next :=
          run.step (met s call mem_cons_self) ⟨unused.fresh, reply, ok⟩
        exact ih after (fun s call later => met s call (.tail _ later)) plays
      · cases plays
    · cases plays

/-- The snapshot a run from the empty store ends in; the empty one if a command fails. -/
def played (calls : List Call) : Snapshot :=
  (play {} calls).getD {}

theorem reachable_played {condition : Snapshot → Action → Prop}
    (met : ∀ s call, call ∈ calls → condition s (.command (.drawing call.uuid) call.request call.options call.now)) :
    store.Reachable condition (played calls) := by
  unfold played
  cases plays : play {} calls with
  | none => exact .start
  | some s => exact reachable_of_play .start met plays

theorem play_append (s : Snapshot) (before after : List Call) :
    play s (before ++ after) = (play s before).bind fun next => play next after := by
  induction before generalizing s with
  | nil => rfl
  | cons call rest ih =>
    simp only [cons_append, play]
    split
    · split
      · exact ih _
      · rfl
    · rfl

theorem reachable_played_append {condition : Snapshot → Action → Prop} {before after : List Call}
    (run : store.Reachable condition (played before)) (plays : (play {} before).isSome = true)
    (met : ∀ s call, call ∈ after → condition s (.command (.drawing call.uuid) call.request call.options call.now)) :
    store.Reachable condition (played (before ++ after)) := by
  unfold played at run ⊢
  rw [play_append]
  obtain ⟨s, before⟩ := isSome_iff_exists.mp plays
  rw [before] at run ⊢
  rw [bind_some]
  cases goes : play s after with
  | none => exact .start
  | some s' => exact reachable_of_play run met goes

theorem played_last {call : Call} (plays : (play {} (calls ++ [call])).isSome = true) :
    (Env.drawing call.uuid).Fresh (played calls) ∧ ∃ reply,
      apply (.drawing call.uuid) (played calls) call.request call.options call.now =
        .ok (played (calls ++ [call]), reply) := by
  unfold played
  rw [play_append] at plays ⊢
  cases before : play {} calls with
  | none =>
    rw [before] at plays
    cases plays
  | some s =>
    rw [before] at plays
    simp only [bind_some, getD_some, play] at plays ⊢
    split at plays
    · rename_i unused
      split at plays
      · rename_i next reply ok
        rw [if_pos unused]
        simp only [ok, getD_some]
        exact ⟨unused.fresh, reply, rfl⟩
      · cases plays
    · cases plays

theorem always_played : Reachable (played calls) :=
  reachable_played fun _ _ _ => trivial

/-- A Task of a Job under an Issue, claimed by an agent. -/
def claimedRun : List Call :=
  [{ uuid := "1", request := request "project.register" [("root", "/r"), ("name", "P")] },
   { uuid := "2", request := request "issue.create" [("project", "prj_1"), ("title", "I")] },
   { uuid := "3", request := request "job.create" [("project", "prj_1"), ("title", "J"),
      ("issue", "issue_2")] },
   { uuid := "4", request := request "task.add" [("job", "job_3"), ("title", "T")] },
   { uuid := "5", request := request "task.claim" [("task", "task_4"),
      ("executor", "agent:codex"), ("session", "codex-1")] }]

end Agentix.TaskStore
