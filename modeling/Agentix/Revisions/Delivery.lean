import Agentix.Revisions.Placeholder

/-! # Revisions of deliveries

The turns that a command selects are bound to the Job of its result, and their messages are
recorded in the Job's row after the command wrote it.
-/

namespace Agentix.TaskStore

open Lib List Option Function

variable {s s' : Snapshot} {db db' : Database}

/-! ## Turns -/

variable {host : Host} {now : Int} {reply reply' : Reply} {job session : String} {request : Value}
  {options : WriteOptions}

/-- The identifiers of the selected turns. -/
def turnNames (turns : List Value) : List String :=
  turns.filterMap Value.asStr

/-- The messages of the session's turns that are the Job's, or become its because they are
selected and nobody's. -/
def deliveredMessages (db : Database) (session job : String) (turns : List Value) :
    List TurnMessage :=
  (db.turns.filter fun t => t.sessionId = session ∧
    (t.jobId = some job ∨ (t.jobId = none ∧ t.turnId ∈ turnNames turns))).flatMap Turn.messages

theorem capture_tables {turn : String} {explicit hint job : Option String}
    {messages : List TurnMessage}
    (ok : capture db session turn explicit hint job messages = .ok db') :
    db'.rows = db.rows ∧ db'.receipts = db.receipts ∧ db'.turns = db.turns := by
  simp only [capture] at ok
  split at ok
  · cases ok
    exact ⟨rfl, rfl, rfl⟩
  · simp only [bind_ok, pure_ok] at ok
    obtain ⟨_, _, _, _, rfl⟩ := ok
    split <;> exact ⟨rfl, rfl, rfl⟩

/-- A turn after the loop over the selected turns: it is the Job's where it was nobody's. -/
def boundTurn (session job : String) (turns : List Value) (t : Turn) : Turn :=
  if t.sessionId = session ∧ t.turnId ∈ turnNames turns ∧ t.jobId = none then
    { t with jobId := some job } else t

theorem bindTurns_tables {project : String} {seen : List String} {turns : List Value}
    (ok : bindTurns session project job seen turns db = .ok db') :
    db'.rows = db.rows ∧ db'.receipts = db.receipts ∧
      db'.turns = db.turns.map (boundTurn session job turns) := by
  induction turns generalizing seen db with
  | nil =>
    cases ok
    have same : boundTurn session job [] = id := by
      funext t
      simp [boundTurn, turnNames]
    exact ⟨rfl, rfl, by rw [same, List.map_id]⟩
  | cons head tail ih =>
    simp only [bindTurns, bind_ok] at ok
    obtain ⟨turn, named, _, _, row, _, _, _, captured, captures, rest⟩ := ok
    obtain ⟨rows, receipts, turns⟩ := capture_tables captures
    obtain ⟨rows', receipts', turns'⟩ := ih rest
    refine ⟨rows'.trans rows, receipts'.trans receipts, ?_⟩
    have names : turnNames (head :: tail) = turn :: turnNames tail := by
      simp only [turnName, orElseError_eq_ok] at named
      obtain ⟨same, _⟩ := filter_eq_some_iff.mp named
      simp [turnNames, same]
    rw [turns']
    simp only [bindTurn, turns, List.map_map]
    refine map_congr_left fun t _ => ?_
    simp only [comp_apply, boundTurn, names, mem_cons]
    by_cases here : t.sessionId = session ∧ t.turnId = turn ∧ t.jobId = none
    · simp [here]
    · rw [if_neg here]
      have other : (t.sessionId = session ∧ (t.turnId = turn ∨ t.turnId ∈ turnNames tail) ∧
          t.jobId = none) ↔ (t.sessionId = session ∧ t.turnId ∈ turnNames tail ∧
          t.jobId = none) := by
        grind
      simp only [other]

/-- What the Job is delivered is read off the turns before they are bound. -/
theorem orderedMessages_of_bindTurns {project : String} {turns : List Value}
    (ok : bindTurns session project job [] turns db = .ok db') :
    orderedMessages db' session job = deliveredMessages db session job turns := by
  unfold orderedMessages deliveredMessages
  rw [(bindTurns_tables ok).2.2, List.filter_map, flatMap_map]
  have messages : ∀ t, (boundTurn session job turns t).messages = t.messages := by
    intro t
    unfold boundTurn
    split <;> rfl
  simp only [messages]
  congr 1
  refine filter_congr fun t _ => ?_
  simp only [comp_apply, boundTurn]
  grind

/-! ## The row of the Job -/

theorem adoptedJob_row (job : Job) (session : String) (messages : List TurnMessage) :
    (adoptedJob job session messages).id = job.id ∧
      (adoptedJob job session messages).revision = job.revision := by
  unfold adoptedJob
  split <;> exact ⟨rfl, rfl⟩

theorem openedJob_row (request : Value) (job : Job) (messages : List TurnMessage) :
    (openedJob request job messages).id = job.id ∧
      (openedJob request job messages).revision = job.revision := by
  unfold openedJob
  split <;> exact ⟨rfl, rfl⟩

theorem openedJob_of_ne (other : (request.index "command").asStr ≠ some "job.create") (job : Job)
    (messages : List TurnMessage) : openedJob request job messages = job := by
  unfold openedJob
  split
  · rename_i creates _
    exact absurd creates other
  · rfl

/-- Two tables with the same identifiers resolve one of them at the same index. -/
theorem resolve_same {α : Type} {rows rows' : List α} {id : α → String} {query : String}
    {i : Fin rows.length} {i' : Fin rows'.length} (found : resolve rows id id query = .ok i)
    (found' : resolve rows' id id query = .ok i') (same : rows'.map id = rows.map id)
    (present : ∃ row ∈ rows, id row = query) : (i' : Nat) = i := by
  have length : rows'.length = rows.length := by simpa using congrArg length same
  have entry : ∀ n (bound : n < rows.length) (bound' : n < rows'.length),
      id (rows'.get ⟨n, bound'⟩) = id (rows.get ⟨n, bound⟩) := by
    intro n bound bound'
    have at_n : (rows'.map id)[n]? = (rows.map id)[n]? := by rw [same]
    simpa [getElem?_map, bound, bound'] using at_n
  have here : id (rows.get i) = query := resolve_exact found present
  have here' : id (rows'.get i') = query := by
    refine resolve_exact found' ?_
    obtain ⟨row, mem, named⟩ := present
    have listed : query ∈ rows'.map id := by
      rw [same, ← named]
      exact mem_map_of_mem mem
    simpa using listed
  obtain before | equal | after := Nat.lt_trichotomy (i' : Nat) i
  · have bound : (i' : Nat) < rows.length := Nat.lt_trans before i.isLt
    refine absurd ?_ (resolve_first found ⟨i', bound⟩ before)
    exact (entry i' bound i'.isLt).symm.trans (here'.trans here.symm)
  · exact equal
  · have bound : (i : Nat) < rows'.length := Nat.lt_trans after i'.isLt
    refine absurd ?_ (resolve_first found' ⟨i, bound⟩ after)
    exact (entry i i.isLt bound).trans (here.trans here'.symm)

/-- What `recordConversation` makes of a delivery: the row of its Job stays as it is where nothing
is new, and is raised with the messages merged in otherwise. -/
theorem recordConversation_delivers {messages : List TurnMessage}
    (ok : recordConversation s (deliveryRequest session job messages) options now = .ok (s', reply)) :
    ∃ i row, s.jobIndex job = .ok i ∧ s' = s.modifyJob i (fun _ => row) ∧
      ((NothingNew (s.jobs.get i).conversation (messages.map TurnMessage.value) session ∧
          row = s.jobs.get i) ∨
        (¬ NothingNew (s.jobs.get i).conversation (messages.map TurnMessage.value) session ∧
          row.id = (s.jobs.get i).id ∧ (s.jobs.get i).revision < row.revision)) := by
  have jobField : ((deliveryRequest session job messages).index "job").asStr = some job := rfl
  have messagesField : ((deliveryRequest session job messages).index "messages").asArray =
      some (messages.map TurnMessage.value) := rfl
  have planningField : (deliveryRequest session job messages).get? "planning" = none := rfl
  simp only [recordConversation, bind_ok] at ok
  obtain ⟨session', named, _, _, index, located, ok⟩ := ok
  obtain rfl : session = session' := some.inj (required_index named)
  simp only [jobField, sessionJobIndex, bind_ok, pure_ok] at located
  obtain ⟨i, selected, _, _, rfl⟩ := located
  simp only [messagesField, planningPrompt, planningField, bind_ok, orElseError_eq_ok,
    pure_ok, some.injEq, Prod.mk.injEq] at ok
  obtain ⟨_, rfl, planning, planned, ⟨merged, recorded⟩, merges, rfl, _⟩ := ok
  cases planned
  refine ⟨i, _, selected, rfl, ?_⟩
  obtain ⟨kept, ⟨nothing, none, same⟩ | ⟨something, more⟩⟩ := mergeMessages_counts merges
  · subst same
    exact .inl ⟨nothing, by simp [recordedJob, promptedJob, none]⟩
  · refine .inr ⟨something, ?_⟩
    have counted : recordedJob merged (decide (recorded > 0 ∨
        (promptedJob (s.jobs.get i) none).prompt ≠ (s.jobs.get i).prompt)) now =
        { merged with revision := merged.revision + 1, updatedAt := now } := by
      simp [recordedJob, more]
    rw [counted]
    exact ⟨kept.1, kept.2 ▸ Int.lt_succ _⟩

theorem recordConversation_jobs (ok : recordConversation s request options now = .ok (s', reply)) :
    s' = { s with jobs := s'.jobs } := by
  obtain rfl | ⟨_, _, _, _, _, _, _, _, _, rfl⟩ := recordConversation_inv ok <;> rfl

/-- What a delivery checked and did: the selected turns are bound to the Job that the command
answered with, and the messages of the Job's turns recorded in it. -/
structure Attachment (host : Host) (db : Database) (s : Snapshot) (request : Value)
    (options : WriteOptions) (reply : Reply) (now : Int) (turns : List Value) (session id : String)
    (i : Fin s.jobs.length) (bound : Database) (s' : Snapshot) : Prop where
  selects : selectedTurns request = .ok (some turns)
  allowed : attachable request = true
  ours : options.sessionRef = some session
  answered : reply.id? = some id
  found : s.jobIndex id = .ok i
  binds : bindTurns session (s.jobs.get i).projectId id [] turns (expire db now) = .ok bound
  records : ∃ count, recordConversation
    (s.modifyJob i fun _ => openedJob request
      (adoptedJob (s.jobs.get i) session (orderedMessages bound session id))
      (orderedMessages bound session id))
    (deliveryRequest session id (orderedMessages bound session id)) options now = .ok (s', count)

theorem attach_inv (ok : attach host db s request options reply now = .ok (db', s', reply')) :
    (selectedTurns request = .ok none ∧ db' = db ∧ s' = s) ∨
    ∃ turns session id i bound, db' = bound.touched session ∧
      Attachment host db s request options reply now turns session id i bound s' := by
  simp only [attach, bind_ok] at ok
  obtain ⟨turns, selects, ok⟩ := ok
  cases turns with
  | none =>
    cases ok
    exact .inl ⟨selects, rfl, rfl⟩
  | some turns =>
    simp only [bind_ok, ensure_ok, orElseError_eq_ok, pure_ok, Prod.mk.injEq] at ok
    obtain ⟨_, allowed, session, ours, id, named, i, found, _, _, _, _, _, _, bound, binds,
      ⟨recorded, count⟩, records, _, _, rfl, rfl, _⟩ := ok
    exact .inr ⟨turns, session, id, i, bound, rfl, selects, allowed, ours,
      (filter_eq_some_iff.mp named).1, found, binds, count, records⟩

/-- A delivery leaves the tables to the command, and of the snapshot it only writes Jobs. -/
theorem attach_tables (ok : attach host db s request options reply now = .ok (db', s', reply')) :
    db'.rows = db.rows ∧ db'.receipts = db.receipts ∧ s' = { s with jobs := s'.jobs } := by
  obtain ⟨_, rfl, rfl⟩ | ⟨_, _, _, _, _, rfl, attachment⟩ := attach_inv ok
  · exact ⟨rfl, rfl, rfl⟩
  · obtain ⟨rows, receipts, _⟩ := bindTurns_tables attachment.binds
    obtain ⟨_, records⟩ := attachment.records
    have others := recordConversation_jobs records
    exact ⟨rows, receipts, others⟩

/-- What the delivery does to the row of a Job that the command did not create: it only renames the
placeholder, or it raises what it changes. -/
def Delivered (job row : Job) (session : String) (messages : List TurnMessage) : Prop :=
  (Relabels job.conversation session messages ∧ row ≠ job ∧ row.revision = job.revision) ∨
    (¬ Relabels job.conversation session messages ∧ Raised Job.id Job.revision job row)

/-- After a selection the row of the Job is replaced by one that stays under its revision only if it
is relabelled, unless the Job was just created. -/
theorem attach_delivers
    (present : attachable request = true → ∀ id, reply.id? = some id → ∃ row ∈ s.jobs, row.id = id)
    (ok : attach host db s request options reply now = .ok (db', s', reply')) :
    (selectedTurns request = .ok none ∧ s' = s) ∨
    ∃ turns session id row, ∃ i : Fin s.jobs.length,
      attachable request = true ∧ selectedTurns request = .ok (some turns) ∧
      options.sessionRef = some session ∧ reply.id? = some id ∧ (s.jobs.get i).id = id ∧
      s' = s.modifyJob i (fun _ => row) ∧ row.id = (s.jobs.get i).id ∧
      (s.jobs.get i).revision ≤ row.revision ∧
      ((request.index "command").asStr ≠ some "job.create" →
        Delivered (s.jobs.get i) row session
          (deliveredMessages (expire db now) session id turns)) := by
  obtain ⟨selects, _, rfl⟩ | ⟨turns, session, id, i, bound, rfl, attachment⟩ := attach_inv ok
  · exact .inl ⟨selects, rfl⟩
  · obtain ⟨selects, allowed, hasSession, given, selected, binds, _, records⟩ := attachment
    have exists_row := present allowed id given
    have here : (s.jobs.get i).id = id := resolve_exact selected exists_row
    refine .inr ?_
    rw [orderedMessages_of_bindTurns binds] at records
    generalize delivers : deliveredMessages (expire db now) session id turns = messages at records
    obtain ⟨adoptedId, adoptedRevision⟩ := adoptedJob_row (s.jobs.get i) session messages
    obtain ⟨openedId, openedRevision⟩ :=
      openedJob_row request (adoptedJob (s.jobs.get i) session messages) messages
    generalize hopened : openedJob request (adoptedJob (s.jobs.get i) session messages) messages =
      opened at records openedId openedRevision
    obtain ⟨i', row, selected', rfl, written⟩ := recordConversation_delivers records
    have ids : (s.modifyJob i fun _ => opened).jobs.map Job.id = s.jobs.map Job.id :=
      map_modify_eq_self i (openedId.trans adoptedId)
    have same : (i' : Nat) = i := resolve_same selected selected' ids exists_row
    have opening : (s.modifyJob i fun _ => opened).jobs.get i' = opened := get_replaced i' same
    rw [opening] at written
    have replaced : (s.modifyJob i fun _ => opened).modifyJob i' (fun _ => row) =
        s.modifyJob i fun _ => row := by
      simp only [Snapshot.modifyJob, same, modify_modify_eq]
      rfl
    refine ⟨turns, session, id, row, i, allowed, selects, hasSession, given, here, replaced, ?_⟩
    rw [delivers]
    have condition := relabels_iff (s.jobs.get i) session messages
    obtain ⟨nothing, rfl⟩ | ⟨something, rowId, more⟩ := written
    · refine ⟨openedId.trans adoptedId, by omega, fun other => ?_⟩
      rw [openedJob_of_ne other] at hopened
      subst hopened
      by_cases adopted : adoptedJob (s.jobs.get i) session messages = s.jobs.get i
      · refine .inr ⟨fun relabels => (condition.mp relabels).1 adopted, ?_⟩
        rw [adopted]
        exact .refl _
      · exact .inl ⟨condition.mpr ⟨adopted, nothing⟩, adopted, adoptedRevision⟩
    · refine ⟨rowId.trans (openedId.trans adoptedId), by omega, fun other => .inr ⟨?_, ?_⟩⟩
      · intro relabels
        rw [openedJob_of_ne other] at hopened
        exact something (hopened ▸ (condition.mp relabels).2)
      · exact .up (rowId.trans (openedId.trans adoptedId)) (by omega)

/-! ## A command with its delivery -/

theorem follows_apply {env : Env} (distinct : Distinct Job.id s.jobs)
    (unused : ∀ job ∈ s.jobs, job.id ≠ env.newId "job" 0)
    (ok : apply env s request options now = .ok (s', reply)) :
    Follows (drawnBy env request) s s' := by
  obtain ⟨_, named, dispatches⟩ := apply_inv ok
  exact follows_dispatch distinct unused named dispatches

/-- `conversation.attach` leaves the snapshot to its delivery and answers with the Job it names. -/
theorem apply_attach {env : Env}
    (attaching : (request.index "command").asStr = some "conversation.attach")
    (ok : apply env s request options now = .ok (s', reply)) :
    s' = s ∧ ∃ query i, (request.index "job").asStr = some query ∧ s.jobIndex query = .ok i ∧
      reply = .job (s.jobs.get i) := by
  have attaches : attachConversation s request options = .ok (s', reply) := apply_named attaching ok
  obtain ⟨rfl, i, selected, _, rfl⟩ := attachConversation_inv attaches
  obtain ⟨query, asked, found⟩ := bind_ok.mp selected
  exact ⟨rfl, query, i, required_index asked, found, rfl⟩

theorem apply_of_attachable {env : Env} (distinct : Distinct Job.id s.jobs)
    (unused : ∀ job ∈ s.jobs, job.id ≠ env.newId "job" 0) (allowed : attachable request = true)
    (ok : apply env s request options now = .ok (s', reply)) :
    ∃ row ∈ s'.jobs, reply = .job row ∧
      (Ahead Job.id Job.revision row.id s.jobs s'.jobs ∨
        ((request.index "command").asStr = some "conversation.attach" ∧ s' = s ∧
          ∃ query i, (request.index "job").asStr = some query ∧ s.jobIndex query = .ok i ∧
            row = s.jobs.get i)) := by
  obtain ⟨text, field, among⟩ := (Option.any_eq_true _ _).mp allowed
  simp only [contains_eq_mem, mem_cons, not_mem_nil, or_false, decide_eq_true_eq] at among
  have dispatches := apply_named field ok
  obtain rfl | rfl | rfl := among
  · obtain ⟨_, row, mem, given, ahead⟩ := follows_jobCreate unused dispatches
    exact ⟨row, mem, given, .inl ahead⟩
  · have follows : Follows (drawnBy env request) s s' ∧ _ := follows_job distinct dispatches
    obtain ⟨_, row, mem, given, ahead⟩ := follows
    exact ⟨row, mem, given, .inl ahead⟩
  · obtain ⟨rfl, query, i, asked, selected, rfl⟩ := apply_attach field ok
    exact ⟨_, get_mem _ _, rfl, .inr ⟨field, rfl, query, i, asked, selected, rfl⟩⟩

/-- An attached Job of the snapshot is only relabelled by the turns the request selects. -/
def AttachRelabels (db : Database) (s : Snapshot) (request : Value) (options : WriteOptions)
    (now : Int) : Prop :=
  (request.index "command").asStr = some "conversation.attach" ∧
    ∃ turns session query i, selectedTurns request = .ok (some turns) ∧
      options.sessionRef = some session ∧ (request.index "job").asStr = some query ∧
      s.jobIndex query = .ok i ∧ Relabels (s.jobs.get i).conversation session
        (deliveredMessages (expire db now) session (s.jobs.get i).id turns)

theorem attachable_present {env : Env} {mid : Snapshot} (distinct : Distinct Job.id s.jobs)
    (unused : ∀ job ∈ s.jobs, job.id ≠ env.newId "job" 0)
    (applies : apply env s request options now = .ok (mid, reply)) :
    attachable request = true → ∀ id, reply.id? = some id → ∃ row ∈ mid.jobs, row.id = id := by
  intro allowed id given
  obtain ⟨row, mem, rfl, _⟩ := apply_of_attachable distinct unused allowed applies
  exact ⟨row, mem, some.inj given⟩

/-- A command raises what it changes, with the turns it delivers, unless it only relabels. -/
theorem follows_command {mid : Snapshot} (distinct : Distinct Job.id s.jobs)
    (unused : ∀ job ∈ s.jobs, job.id ≠ host.newId "job" 0)
    (settled : ¬ AttachRelabels db s request options now)
    (applies : apply host.toEnv s request options now = .ok (mid, reply))
    (ok : attach host db mid request options reply now = .ok (db', s', reply')) :
    Follows (drawnBy host.toEnv request) s s' := by
  have follows := follows_apply distinct unused applies
  obtain ⟨_, rfl⟩ | ⟨turns, session, id, row, i, allowed, selects, hasSession, given, here, rfl,
    same, least, delivered⟩ := attach_delivers (attachable_present distinct unused applies) ok
  · exact follows
  · refine ⟨follows.projects, follows.milestones, follows.issues, ?_, follows.tasks⟩
    obtain ⟨job, mem, rfl, ahead | ⟨attaching, rfl, query, i', asked, selected, rfl⟩⟩ :=
      apply_of_attachable distinct unused allowed applies
    · -- The command put the Job ahead, so the delivery may leave its revision.
      obtain rfl : job.id = id := some.inj given
      refine follows.jobs.modify_ahead ahead fun row' place => ?_
      obtain rfl : mid.jobs.get i = row' := by simpa using place
      exact ⟨here, same.trans here, least⟩
    · obtain rfl : (mid.jobs.get i').id = id := some.inj given
      obtain rfl : i = i' := Fin.ext (distinct.index_eq i.isLt i'.isLt here)
      obtain ⟨relabels, _⟩ | ⟨_, raised⟩ := delivered (by rw [attaching]; decide)
      · exact absurd ⟨attaching, turns, session, query, i, selects, hasSession, asked, selected,
          relabels⟩ settled
      · exact .replace raised

/-- An attachment that only relabels changes the row of its Job and leaves its revision. -/
theorem relabelled_command {env : Env} {mid : Snapshot} (distinct : Distinct Job.id s.jobs)
    (relabels : AttachRelabels db s request options now)
    (applies : apply env s request options now = .ok (mid, reply))
    (ok : attach host db mid request options reply now = .ok (db', s', reply')) :
    ∃ i : Fin s.jobs.length, ∃ row, s' = s.modifyJob i (fun _ => row) ∧
      row.id = (s.jobs.get i).id ∧ row ≠ s.jobs.get i ∧
      row.revision = (s.jobs.get i).revision := by
  obtain ⟨attaching, turns, session, query, i, selects, hasSession, asked, selected, relabels⟩ :=
    relabels
  obtain ⟨rfl, query', i', asked', selected', rfl⟩ := apply_attach attaching applies
  obtain rfl : query = query' := some.inj (asked.symm.trans asked')
  obtain rfl : i = i' := Except.ok.inj (selected.symm.trans selected')
  have present : attachable request = true → ∀ id, (Reply.job (mid.jobs.get i)).id? = some id →
      ∃ row ∈ mid.jobs, row.id = id :=
    fun _ id given => ⟨_, get_mem _ _, some.inj given⟩
  obtain ⟨none, _⟩ | ⟨turns', session', id, row, k, _, selects', hasSession', given, here, rfl,
    same, _, delivered⟩ := attach_delivers present ok
  · rw [selects] at none
    cases none
  · obtain rfl : turns = turns' := some.inj (Except.ok.inj (selects.symm.trans selects'))
    obtain rfl : session = session' := some.inj (hasSession.symm.trans hasSession')
    obtain rfl : (mid.jobs.get i).id = id := some.inj given
    obtain rfl : k = i := Fin.ext (distinct.index_eq k.isLt i.isLt here)
    obtain ⟨_, differs, stays⟩ | ⟨settled, _⟩ := delivered (by rw [attaching]; decide)
    · exact ⟨k, row, rfl, same, differs, stays⟩
    · exact absurd relabels settled

end Agentix.TaskStore
