import Agentix.TaskStore.Scoped

/-! # Discussions

Session drafts are kept apart from Jobs until a command selects their turns for a Job.
-/

namespace Agentix.TaskStore

open Lib

def retention : Int := 30 * 24 * 60 * 60

def expire (db : Database) (now : Int) : Database :=
  let stale := fun d : Discussion => d.activity ≤ now - retention
  let pending := fun d : Discussion =>
    db.turns.any fun t => t.sessionId = d.sessionId && t.jobId.isNone
  { db with
    discussions := db.discussions.map fun d =>
      if stale d && pending d then { d with revision := d.revision + 1 } else d
    turns := db.turns.filter fun t => t.jobId.isSome ||
      !db.discussions.any fun d => d.sessionId = t.sessionId && stale d }

def Database.turn? (db : Database) (session turn : String) : Option Turn :=
  db.turns.find? fun t => t.sessionId = session && t.turnId = turn

def Database.discussion? (db : Database) (session : String) : Option Discussion :=
  db.discussions.find? fun d => d.sessionId = session

def Database.touched (db : Database) (session : String) : Database :=
  { db with
    discussions := db.discussions.map fun d =>
      if d.sessionId = session then { d with revision := d.revision + 1 } else d }

/-! ## Memory sources -/

/-- The Project of a turn must stay the one it was first captured for. -/
def capture (db : Database) (session turn : String) (explicit hint job : Option String)
    (messages : List TurnMessage) : Fallible Database := do
  let prior := (db.heads.find? fun h => h.sessionId = session && h.turnId = turn).map
    MemoryHead.projectId
  let bound := job.bind fun job => (db.rows.jobs.find? fun j => j.id = job).map Job.projectId
  match ((explicit.or bound).or prior).or hint with
  | none => pure db
  | some project => do
    ensure (bound.all (· = project) ∧ prior.all (· = project))
      "conflict: memory source belongs to another Project"
    ensure (∃ p ∈ db.rows.projects, p.id = project) "not_found: memory source Project"
    pure (if messages = [] ∨ prior.isSome then db
      else { db with heads := db.heads ++ [⟨session, turn, project⟩] })

/-! ## Recording a turn -/

/-- The message that an incoming one is stored as, unless it has no text. -/
def turnMessage (message : Value) : Fallible (Option TurnMessage) := do
  let id ← required message "id"
  let role ← required message "role"
  ensure (role = "user" ∨ role = "assistant")
    "invalid: only user and assistant text may be recorded"
  let text ← required message "text"
  let text := if role = "user" then userText text else text
  pure (if blank text then none else some { id, role, text })

def mergeTurnMessage (messages : List TurnMessage) (message : TurnMessage) :
    Fallible (List TurnMessage × Bool) :=
  match messages.find? fun m => m.id = message.id with
  | none => .ok (messages ++ [message], true)
  | some old => do
    ensure (old.role = message.role) "conflict: message role changed"
    pure (messages.map fun m => if m.id = message.id then message else m, old ≠ message)

def mergeTurnMessages : List TurnMessage → List Value → Fallible (List TurnMessage × Bool)
  | messages, [] => .ok (messages, false)
  | messages, incoming :: rest => do
    match ← turnMessage incoming with
    | none => mergeTurnMessages messages rest
    | some message => do
      let (merged, changed) ← mergeTurnMessage messages message
      let (merged, later) ← mergeTurnMessages merged rest
      pure (merged, changed || later)

def openDiscussion (db : Database) (session : String) (now : Int) : Database :=
  if (db.discussion? session).isSome then
    { db with
      discussions := db.discussions.map fun d =>
        if d.sessionId = session then { d with activity := max d.activity now } else d }
  else { db with discussions := db.discussions ++ [⟨session, 0, now⟩] }

def storeTurn (db : Database) (session turn : String) (messages : List TurnMessage)
    (changed : Bool) : Database :=
  if (db.turn? session turn).isNone then
    let stored : Database :=
      { db with turns := db.turns ++ [⟨session, turn, messages, none⟩] }
    stored.touched session
  else if changed then
    let stored : Database := { db with
      turns := db.turns.map fun t =>
        if t.sessionId = session ∧ t.turnId = turn then { t with messages } else t }
    stored.touched session
  else db

def TurnMessage.value (message : TurnMessage) : Value :=
  .object [("id", .string message.id), ("role", .string message.role),
    ("text", .string message.text)]

/-- The first message of the next turn bound to the Job, which anchors a late reply. -/
def laterMessage (db : Database) (session turn job : String) : Option String :=
  let later := (db.turns.dropWhile fun t => !(t.sessionId = session && t.turnId = turn)).drop 1
  (later.find? fun t => t.sessionId = session && t.jobId = some job && t.messages ≠ []).bind
    fun t => t.messages.head?.map TurnMessage.id

/-- What becomes of the request once its turn is stored: a bound turn that changed is recorded
into its Job, and every other one is only staged. -/
def routeTurn (db : Database) (request : Value) (session turn : String) (bound : Option String)
    (messages : List TurnMessage) (changed : Bool) : Fallible Value :=
  match bound with
  | some job => do
    ensure ((request.index "job").asStr.all (· = job)) "conflict: turn belongs to another Job"
    if changed then
      let anchor := (laterMessage db session turn job).elim Value.null Value.string
      pure ((((request.set "job" (.string job)).set "messages"
        (.array (messages.map TurnMessage.value))).set "before_message" anchor).set "ordered"
        (.bool true))
    else
      pure (((request.set "command" (.string "session.stage")).set "job" .null).set
        "recorded_job" (.string job))
  | none => do
    ensure (request.index "job").isNull "conflict: bind the turn before recording into a Job"
    pure (request.set "command" (.string "session.stage"))

/-- `discussion::prepare`: stores the turn of a `session.record` and rewrites the request. -/
def prepare (db : Database) (request : Value) (options : WriteOptions) (now : Int) :
    Fallible (Database × Value) := do
  let command ← required request "command"
  let db := if command = "session.start" then expire db now else db
  if command ≠ "session.record" ∨ (request.get? "turn_id").isNone then pure (db, request)
  else do
    let session ← required request "session"
    ensure (options.sessionRef = some session) "conflict: conversation session mismatch"
    let turn ← required request "turn_id"
    let incoming ← orElseError (request.index "messages").asArray "invalid: conversation messages"
    let db := openDiscussion (expire db now) session now
    let existing := db.turn? session turn
    let (messages, changed) ← mergeTurnMessages (existing.elim [] Turn.messages) incoming
    let bound := existing.bind Turn.jobId
    let db ← capture db session turn (request.index "project").asStr
      (request.index "project_hint").asStr bound messages
    let db := storeTurn db session turn messages changed
    let request ← routeTurn db request session turn bound messages changed
    pure (db, request)

/-! ## Attaching turns to a Job -/

def selectedTurns (request : Value) : Fallible (Option (List Value)) := do
  let turns ← (match request.get? "conversation_turns" with
    | none | some .null => .ok none
    | some value =>
      some <$> orElseError value.asArray "invalid: conversation turns must be an array" :
    Fallible (Option (List Value)))
  let revision := request.index "conversation_revision"
  let target := request.index "conversation_target"
  ensure (revision.isNull ∨ revision.asI64.any (0 ≤ ·)) "invalid: conversation revision"
  ensure (target.isNull ∨ target.asStr.any (· ≠ "")) "invalid: conversation target"
  let turns := turns.filter fun turns => !turns.isEmpty
  ensure (turns.isSome ∨ (revision.isNull ∧ target.isNull))
    "invalid: conversation guards require selected turns"
  pure turns

def validateTarget (host : Host) (job : Job) (request : Value) : Fallible Unit :=
  match (request.index "conversation_target").asStr with
  | none => .ok ()
  | some expected =>
    ensure (host.targetHash job.title job.goal ((request.index "prompt").asStr.getD "") = expected)
      "conflict: discussion delivery target changed"

/-- The identifier of a selected turn. -/
def turnName (turn : Value) : Fallible String :=
  orElseError (turn.asStr.filter (· ≠ "")) "invalid: conversation turn ID"

/-- An unbound turn now belongs to the Job. -/
def bindTurn (db : Database) (session turn job : String) : Database :=
  { db with
    turns := db.turns.map fun t =>
      if t.sessionId = session ∧ t.turnId = turn ∧ t.jobId = none then
        { t with jobId := some job } else t }

/-- The loop over the selected turns; `seen` are the ones before. -/
def bindTurns (session project job : String) : List String → List Value → Database →
    Fallible Database
  | _, [], db => .ok db
  | seen, turn :: rest, db => do
    let turn ← turnName turn
    ensure (turn ∉ seen) "invalid: duplicate conversation turn"
    let row ← orElseError (db.turn? session turn)
      "not_found: discussion turn is absent or expired"
    ensure (row.jobId.all (· = job)) "conflict: turn belongs to another Job"
    let db ← capture db session turn (some project) none (some job) row.messages
    bindTurns session project job (turn :: seen) rest (bindTurn db session turn job)

def orderedMessages (db : Database) (session job : String) : List TurnMessage :=
  (db.turns.filter fun t => t.sessionId = session ∧ t.jobId = some job).flatMap Turn.messages

def placeholderMessage (conversation : List JobMessage) (session : String)
    (messages : List TurnMessage) : Option TurnMessage :=
  (conversation.getLast?.filter fun last =>
    startsWith last.id "followup:" && last.sessionId = session).bind fun last =>
      messages.reverse.find? fun m => m.role = "user" && m.text = last.text

/-- Adopt the follow-up placeholder before inserting its preceding discussion. -/
def adoptedJob (job : Job) (session : String) (messages : List TurnMessage) : Job :=
  match placeholderMessage job.conversation session messages with
  | none => job
  | some m =>
    { job with
      conversation := job.conversation.modify (job.conversation.length - 1) fun last =>
        { last with id := m.id } }

def openedJob (request : Value) (job : Job) (messages : List TurnMessage) : Job :=
  match (request.index "command").asStr, messages.find? fun m => m.role = "user" with
  | some "job.create", some first => { job with prompt := first.text }
  | _, _ => job

/-- The request that `attach` records its messages with. -/
def deliveryRequest (session job : String) (messages : List TurnMessage) : Value :=
  .object [("session", .string session), ("job", .string job),
    ("messages", .array (messages.map TurnMessage.value)), ("ordered", .bool true)]

def attachable (request : Value) : Bool :=
  (request.index "command").asStr.any fun command =>
    ["job.create", "job.followup", "conversation.attach"].contains command

/-- `discussion::attach`: the selected turns are bound to the Job of the result, and the messages
of all its turns are recorded in it. -/
def attach (host : Host) (db : Database) (state : Snapshot) (request : Value)
    (options : WriteOptions) (reply : Reply) (now : Int) :
    Fallible (Database × Snapshot × Reply) := do
  match ← selectedTurns request with
  | none => pure (db, state, reply)
  | some turns => do
    ensure (attachable request) "invalid: conversation selection is not supported for this command"
    let session ← orElseError options.sessionRef "invalid: discussion attachment requires session"
    let jobId ← orElseError (reply.id?.filter fun id => !blank id) "invalid: id must not be blank"
    let i ← state.jobIndex jobId
    let job := state.jobs.get i
    validateTarget host job request
    let _ ← sessionJobIndex state (some jobId) session
    let db := expire db now
    ensure ((request.index "conversation_revision").asI64.all fun expected =>
        (db.discussion? session).map Discussion.revision = some expected)
      "conflict: discussion candidates changed"
    let db ← bindTurns session job.projectId jobId [] turns db
    let db := db.touched session
    let messages := orderedMessages db session jobId
    let opened := openedJob request (adoptedJob job session messages) messages
    let opening := state.modifyJob i fun _ => opened
    let (recorded, _) ← recordConversation opening (deliveryRequest session jobId messages)
      options now
    let result ← orElseError recorded.jobs[(i : Nat)]? "index out of bounds"
    pure (db, recorded, .job result)

end Agentix.TaskStore
