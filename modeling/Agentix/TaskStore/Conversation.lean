import Agentix.TaskStore.Checks

/-! # Job conversations -/

namespace Agentix.TaskStore

open Lib

/-! ## User text -/

def hostTags : List String :=
  ["INSTRUCTIONS", "environment_context", "system-reminder", "turn_aborted"]

/-- One round of `user_text`: the text after a complete leading host-context wrapper. -/
def stripWrapper (text : String) : Option String :=
  let value := trimStart text
  let heading := (splitOnce '\n' value).filter fun parts =>
    parts.1 = "# AGENTS.md instructions" || startsWith parts.1 "# AGENTS.md instructions for "
  let block := match heading with
    | some (_, rest) =>
      let rest := trimStart rest
      if startsWith rest "<INSTRUCTIONS>" then some rest else none
    | none => some value
  block.bind fun block =>
    (hostTags.find? fun tag => startsWith block s!"<{tag}>").bind fun tag =>
      if tag = "INSTRUCTIONS" ∧ block = value then none
      else (afterFirst s!"</{tag}>".toList block.toList).map fun rest =>
        trimStart (String.ofList rest)

def userTextLoop : Nat → String → String
  | 0, text => text
  | fuel + 1, text =>
    match stripWrapper text with
    | some rest => userTextLoop fuel rest
    | none => text

/-- Remove complete leading host-context wrappers.  Every round drops a tag, so there are fewer
rounds than characters. -/
def userText (text : String) : String :=
  userTextLoop text.toList.length text

/-! ## The Job of a session -/

def associated (state : Snapshot) (session : String) (job : Job) : Bool :=
  job.sessionId = some session || job.followupSessionId = some session ||
    state.tasks.any fun t => t.jobId = job.id && t.lastSession = some session

/-- The order of `(i64, String)`. -/
def activityLe (a b : Int × String) : Bool :=
  a.1 < b.1 || (a.1 = b.1 && decide (a.2 ≤ b.2))

def activityMax (a b : Int × String) : Int × String :=
  if activityLe a b then b else a

def activity (state : Snapshot) (session : String) (job : Job) : Int × String :=
  let created := (job.createdAt, suffixAfterUnderscore job.id)
  let touched := state.tasks.filter fun t => t.jobId = job.id ∧ t.lastSession = some session
  let worked := touched.foldl
    (fun latest t => activityMax latest (t.updatedAt, suffixAfterUnderscore t.id)) created
  if job.followupSessionId = some session then
    activityMax worked
      (job.followupAt.getD job.createdAt, suffixAfterUnderscore (job.followupId.getD job.id))
  else worked

/-- `max_by_key`: the last of the greatest. -/
def latestBy {α : Type} (key : α → Int × String) : List α → Option α
  | [] => none
  | first :: rest =>
    some (rest.foldl (fun best x => if activityLe (key best) (key x) then x else best) first)

def sessionJobIndex (state : Snapshot) (job : Option String) (session : String) :
    Fallible (Option (Fin state.jobs.length)) :=
  match job with
  | some id => do
    let i ← state.jobIndex id
    ensure (associated state session (state.jobs.get i)) "conflict: Job belongs to another session"
    pure (some i)
  | none =>
    let open_ := (List.finRange state.jobs.length).filter fun i =>
      associated state session (state.jobs.get i) && (state.jobs.get i).archivedAt.isNone
    .ok (latestBy (fun i => activity state session (state.jobs.get i)) open_)

/-! ## Merging messages -/

def isUser (message : Value) : Bool :=
  (message.index "role").asStr = some "user"

def planningPrompt (request : Value) (messages : List Value) : Fallible (Option String) :=
  match request.get? "planning" with
  | none => .ok none
  | some planning => do
    let prompt := userText (← required planning "prompt")
    let implementation ← required planning "implementation_prompt"
    ensure (!blank prompt ∧ implementation = "Implement the plan." ∧
        ((messages.find? isUser).bind fun m => (m.index "text").asStr).map userText = some prompt ∧
        messages.any fun m => isUser m && (m.index "text").asStr = some implementation)
      "invalid: planning capture must include its original and implementation prompts"
    pure (some prompt)

/-- A Job's conversation while a batch is merged into it. -/
structure Merge where
  entries : List JobMessage
  /-- The positions of the session's messages, latest first. -/
  indexes : List (String × Nat)
  prompt : String
  recorded : Nat
  /-- The anchors of the entries appended so far. -/
  inserted : List Nat
  deriving DecidableEq, Repr

def sessionIndexes (entries : List JobMessage) (session : String) : List (String × Nat) :=
  ((entries.zipIdx.filter fun entry => entry.1.sessionId = session).map
    fun entry => (entry.1.id, entry.2)).reverse

/-- Whether `message` is the recorded form of the pending follow-up. -/
def adopts (indexes : List (String × Nat)) (pending : JobMessage) (message : Value) : Bool :=
  isUser message && ((message.index "text").asStr.map userText == some pending.text) &&
    (message.index "id").asStr.any fun id => (indexes.lookup id).isNone

/-- The follow-up placeholder at the end takes the identity of the message that records it. -/
def adoptPlaceholder (entries : List JobMessage) (indexes : List (String × Nat))
    (messages : List Value) (session : String) :
    Fallible (List JobMessage × List (String × Nat) × Nat) :=
  match entries.getLast? with
  | none => .ok (entries, indexes, 0)
  | some pending =>
    if pending.role = "user" ∧ pending.sessionId = session ∧ startsWith pending.id "followup:" then
      match messages.find? (adopts indexes pending) with
      | none => .ok (entries, indexes, 0)
      | some message => do
        let id ← required message "id"
        let last := entries.length - 1
        pure (entries.modify last fun entry => { entry with id },
          (id, last) :: indexes.filter fun entry => entry.1 ≠ pending.id, 1)
    else .ok (entries, indexes, 0)

/-- The anchors of an ordered batch: each message goes before the next one already recorded. -/
def anchorsBefore (indexes : List (String × Nat)) (last : Nat) : List Value → List Nat × Nat
  | [] => ([], last)
  | message :: rest =>
    let (anchors, next) := anchorsBefore indexes last rest
    (next :: anchors, ((message.index "id").asStr.bind fun id => indexes.lookup id).getD next)

def mergeMessage (session : String) (now : Int) (merge : Merge) (message : Value) (anchor : Nat) :
    Fallible Merge := do
  let id ← required message "id"
  let role ← required message "role"
  ensure (role = "user" ∨ role = "assistant")
    "invalid: only user and assistant text may be recorded"
  let raw ← required message "text"
  let text := if role = "user" then userText raw else raw
  if blank text then pure merge
  else
    let prompt := if merge.prompt = "" ∧ role = "user" then text else merge.prompt
    match merge.indexes.lookup id with
    | some i =>
      match merge.entries[i]? with
      | none => pure merge
      | some existing => do
        ensure (existing.role = role) "conflict: message role changed"
        if existing.text = text then pure merge
        else pure { merge with
          entries := merge.entries.modify i fun entry => { entry with text }
          prompt
          recorded := merge.recorded + 1 }
    | none => pure { merge with
        entries := merge.entries ++ [{ id, sessionId := session, role, text, recordedAt := now }]
        indexes := (id, merge.entries.length) :: merge.indexes
        prompt
        recorded := merge.recorded + 1
        inserted := merge.inserted ++ [anchor] }

def mergeAll (session : String) (now : Int) : Merge → List (Value × Nat) → Fallible Merge
  | merge, [] => .ok merge
  | merge, (message, anchor) :: rest => do
    let merge ← mergeMessage session now merge message anchor
    mergeAll session now merge rest

/-- Appended entries move in front of the entry they are anchored at. -/
def placeInserted (entries : List JobMessage) (original : Nat) (inserted : List Nat) :
    List JobMessage :=
  let fresh := (entries.drop original).zip inserted
  let bucket := fun i => (fresh.filter fun entry => entry.2 = i).map Prod.fst
  ((entries.take original).zipIdx.flatMap fun entry => bucket entry.2 ++ [entry.1]) ++
    bucket original

/-- Returns the Job with the batch merged in and the number of recorded messages. -/
def mergeMessages (job : Job) (messages : List Value) (session : String) (now : Int)
    (ordered : Bool) (before : Option String) : Fallible (Job × Nat) := do
  let original := job.conversation.length
  let (entries, indexes, adopted) ←
    adoptPlaceholder job.conversation (sessionIndexes job.conversation session) messages session
  let next := (before.bind fun id => indexes.lookup id).getD original
  let anchors := if ordered then (anchorsBefore indexes next messages).1
    else messages.map fun _ => original
  let merge ← mergeAll session now
    { entries, indexes, prompt := job.prompt, recorded := adopted, inserted := [] }
    (messages.zip anchors)
  let conversation := if merge.inserted = [] then merge.entries
    else placeInserted merge.entries original merge.inserted
  pure ({ job with conversation, prompt := merge.prompt }, merge.recorded)

def promptedJob (job : Job) (planning : Option String) : Job :=
  match planning with
  | some prompt =>
    if (job.prompt = "" ∨ job.prompt = "Implement the plan.") ∧ job.prompt ≠ prompt then
      { job with prompt } else job
  | none => job

def recordedJob (job : Job) (changed : Bool) (now : Int) : Job :=
  if changed then { job with revision := job.revision + 1, updatedAt := now } else job

def recordConversation (state : Snapshot) (request : Value) (options : WriteOptions) (now : Int) :
    Fallible (Snapshot × Reply) := do
  let session ← required request "session"
  ensure (options.sessionRef = some session) "conflict: conversation session mismatch"
  match ← sessionJobIndex state (request.index "job").asStr session with
  | none => pure (state, .value [("recorded", .integer 0)])
  | some i => do
    let messages ← orElseError (request.index "messages").asArray "invalid: conversation messages"
    let job := state.jobs.get i
    let planning ← planningPrompt request messages
    let prompted := promptedJob job planning
    let ordered := planning.isSome || (match request.index "ordered" with
      | .bool true => true
      | _ => false)
    let (merged, recorded) ← mergeMessages prompted messages session now ordered
      (request.index "before_message").asStr
    let row := recordedJob merged (recorded > 0 ∨ prompted.prompt ≠ job.prompt) now
    pure (state.modifyJob i fun _ => row,
      .value [("job_id", .string row.id), ("recorded", .integer recorded)])

end Agentix.TaskStore
