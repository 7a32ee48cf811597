import Agentix.TaskStore.Text

/-! # JSON values

Requests reach the task store as `serde_json::Value`.
-/

namespace Agentix.TaskStore

open Lib List

def i64Max : Int := 9223372036854775807

def u64Max : Nat := 18446744073709551615

/-- `serde_json::Value`; only integers answer `as_i64`, so other numbers are kept apart. -/
inductive Value where
  | null
  | bool (value : Bool)
  | integer (value : Int)
  | real (literal : String)
  | string (text : String)
  | array (items : List Value)
  | object (fields : List (String × Value))

namespace Value

/-- `value.get(key)`. -/
def get? : Value → String → Option Value
  | object fields, key => fields.lookup key
  | _, _ => none

/-- `value[key]`, which is null where the key is absent. -/
def index (value : Value) (key : String) : Value :=
  (value.get? key).getD null

def asStr : Value → Option String
  | string text => some text
  | _ => none

/-- `as_i64`: integers of the signed 64-bit range. -/
def asI64 : Value → Option Int
  | integer value => if -i64Max - 1 ≤ value ∧ value ≤ i64Max then some value else none
  | _ => none

def asArray : Value → Option (List Value)
  | array items => some items
  | _ => none

/-- The keys of `as_object`, when the value is one. -/
def keys : Value → Option (List String)
  | object fields => some (fields.map Prod.fst)
  | _ => none

def isNull : Value → Bool
  | null => true
  | _ => false

/-- `value[key] = item` on an object. -/
def set (value : Value) (key : String) (item : Value) : Value :=
  match value with
  | object fields =>
    if (fields.lookup key).isSome then
      object (fields.map fun field => if field.1 = key then (key, item) else field)
    else object (fields ++ [(key, item)])
  | other => other

private theorem lookup_replaced {key other : String} {item : Value}
    (fields : List (String × Value)) :
    (fields.map fun field => if field.1 = key then (key, item) else field).lookup other =
      if other = key then (fields.lookup other).map fun _ => item else fields.lookup other := by
  induction fields with
  | nil => simp
  | cons field rest ih =>
    obtain ⟨name, old⟩ := field
    by_cases here : name = key
    · subst here
      by_cases same : other = name
      · simp [same]
      · have differs : (other == name) = false := by simpa using same
        simpa [same, differs, lookup_cons] using ih
    · by_cases same : other = name
      · simp [same, here]
      · have differs : (other == name) = false := by simpa using same
        simp [here, differs, lookup_cons, ih]

theorem index_set_ne {key other : String} (ne : other ≠ key) (value item : Value) :
    (value.set key item).index other = value.index other := by
  cases value with
  | object fields =>
    simp only [set, index]
    split
    · simp [get?, lookup_replaced, ne]
    · have apart : (other == key) = false := by simpa using ne
      simp [get?, lookup_append, lookup_cons, apart]
  | _ => rfl

theorem index_set_self {key : String} {value : Value} (present : (value.get? key).isSome)
    (item : Value) : (value.set key item).index key = item := by
  cases value with
  | object fields =>
    have found : (fields.lookup key).isSome := present
    obtain ⟨old, place⟩ := Option.isSome_iff_exists.mp found
    simp [set, index, get?, lookup_replaced, place]
  | _ => cases present

/-- The tag of a unit variant as serde reads it: a string, or an object with one null entry. -/
def tag : Value → Option String
  | string text => some text
  | object [(name, null)] => some name
  | _ => none

end Value

/-- A field that must be a string with more than white space. -/
def required (value : Value) (key : String) : Fallible String :=
  match (value.get? key).bind Value.asStr with
  | some text => if blank text then .error s!"invalid: {key} must not be blank" else .ok text
  | none => .error s!"invalid: {key} must not be blank"

/-- `required`, where the field is present. -/
def requiredIfPresent (value : Value) (key : String) : Fallible (Option String) :=
  if (value.get? key).isSome then some <$> required value key else .ok none

theorem required_eq_ok {value : Value} {key text : String} :
    required value key = .ok text ↔
      (value.get? key).bind Value.asStr = some text ∧ blank text = false := by
  unfold required
  cases (value.get? key).bind Value.asStr with
  | none => simp
  | some found =>
    cases hblank : blank found with
    | true => simp [hblank]; rintro rfl; exact hblank
    | false => simp [hblank]; rintro rfl; exact hblank

end Agentix.TaskStore

/-! # Command names

The `command` field of a request, read into the family that handles it.  A name a
family does not know is kept with its text: the family rejects it after its own checks.
-/

namespace Agentix.TaskStore

inductive IssueCommand where
  | create
  | update
  | start
  | submit
  | approve
  | reject
  | cancel
  | reopen
  | archive
  | unarchive
  | unknown (text : String)
  deriving DecidableEq, Repr

inductive MilestoneCommand where
  | create
  | update
  | delete
  | start
  | complete
  | cancel
  | reopen
  | archive
  | unarchive
  | unknown (text : String)
  deriving DecidableEq, Repr

inductive ProjectCommand where
  | register
  | move
  | rename
  | relocate
  | delete
  | archive
  | unarchive
  deriving DecidableEq, Repr

inductive JobCommand where
  | update
  | cancel
  | archive
  | unarchive
  | submit
  | approve
  | reject
  | followup
  deriving DecidableEq, Repr

inductive SessionCommand where
  | start
  | finish
  | interrupt
  | heartbeat
  deriving DecidableEq, Repr

inductive TaskCommand where
  | claim
  | start
  | heartbeat
  | update
  | depend
  | undepend
  /-- `plan.register`, which runs among the Task commands. -/
  | planRegister
  | retry
  | reopen
  | block
  | wait
  | done
  | fail
  | cancel
  | release
  | unknown (text : String)
  deriving DecidableEq, Repr

inductive Command where
  | issue (command : IssueCommand)
  | milestone (command : MilestoneCommand)
  | project (command : ProjectCommand)
  | jobDelete
  | sessionRecord
  | sessionStage
  | conversationAttach
  | jobCreate
  | job (command : JobCommand)
  | taskAdd
  | session (command : SessionCommand)
  | task (command : TaskCommand)
  | unknown (text : String)
  deriving DecidableEq, Repr

namespace Command

def names : List (String × Command) :=
  [("issue.create", issue .create), ("issue.update", issue .update),
   ("issue.start", issue .start), ("issue.submit", issue .submit),
   ("issue.approve", issue .approve), ("issue.reject", issue .reject),
   ("issue.cancel", issue .cancel), ("issue.reopen", issue .reopen),
   ("issue.archive", issue .archive), ("issue.unarchive", issue .unarchive),
   ("milestone.create", milestone .create), ("milestone.update", milestone .update),
   ("milestone.delete", milestone .delete), ("milestone.start", milestone .start),
   ("milestone.complete", milestone .complete), ("milestone.cancel", milestone .cancel),
   ("milestone.reopen", milestone .reopen), ("milestone.archive", milestone .archive),
   ("milestone.unarchive", milestone .unarchive),
   ("project.register", project .register), ("project.move", project .move),
   ("project.rename", project .rename), ("project.relocate", project .relocate),
   ("project.delete", project .delete), ("project.archive", project .archive),
   ("project.unarchive", project .unarchive),
   ("job.delete", jobDelete), ("job.create", jobCreate),
   ("job.update", job .update), ("job.cancel", job .cancel), ("job.archive", job .archive),
   ("job.unarchive", job .unarchive), ("job.submit", job .submit), ("job.approve", job .approve),
   ("job.reject", job .reject), ("job.followup", job .followup),
   ("session.record", sessionRecord), ("session.stage", sessionStage),
   ("conversation.attach", conversationAttach),
   ("session.start", session .start), ("session.end", session .finish),
   ("session.interrupt", session .interrupt), ("session.heartbeat", session .heartbeat),
   ("task.add", taskAdd), ("task.claim", task .claim), ("task.start", task .start),
   ("task.heartbeat", task .heartbeat), ("task.update", task .update),
   ("task.depend", task .depend), ("task.undepend", task .undepend),
   ("plan.register", task .planRegister), ("task.retry", task .retry),
   ("task.reopen", task .reopen), ("task.block", task .block), ("task.wait", task .wait),
   ("task.done", task .done), ("task.fail", task .fail), ("task.cancel", task .cancel),
   ("task.release", task .release)]

/-- The dispatch of `apply` on the command text, name by name and then by prefix. -/
def parse (text : String) : Command :=
  match names.lookup text with
  | some command => command
  | none =>
    if startsWith text "issue." then issue (.unknown text)
    else if startsWith text "milestone." then milestone (.unknown text)
    else if startsWith text "task." then task (.unknown text)
    else unknown text

def text (command : Command) : String :=
  match command with
  | issue (.unknown text) | milestone (.unknown text) | task (.unknown text) | unknown text => text
  | known =>
    match names.find? (fun entry => entry.2 == known) with
    | some entry => entry.1
    | none => ""

private theorem text_of_mem_names :
    ∀ entry ∈ names, entry.2.text = entry.1 := by
  decide

private theorem lookup_mem {text : String} {command : Command} :
    ∀ {entries : List (String × Command)}, entries.lookup text = some command →
      (text, command) ∈ entries
  | [], found => by simp at found
  | (name, known) :: rest, found => by
    rw [List.lookup_cons] at found
    split at found
    · rename_i same
      cases found
      simp [beq_iff_eq.mp same]
    · exact List.mem_cons_of_mem _ (lookup_mem found)

theorem text_parse (source : String) : (parse source).text = source := by
  unfold parse
  split
  · rename_i command found
    exact text_of_mem_names _ (lookup_mem found)
  · split
    · rfl
    split
    · rfl
    split <;> rfl

end Command

end Agentix.TaskStore
