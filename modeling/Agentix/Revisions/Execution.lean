import Agentix.Revisions.Delivery

/-! # Revisions in the database

A command is run on the part of the tables that its request loads, and the rows that differ are
written back.  What the command raised in the loaded part is raised in the tables.
-/

namespace Agentix.TaskStore

open Lib List

/-! ## Writing rows back -/

section Tables

variable {ρ : Type} {id : ρ → String} {before after rows : List ρ}

theorem mem_upsert {row row' : ρ} (mem : row' ∈ upsert id rows row) :
    row' = row ∨ row' ∈ rows := by
  unfold upsert at mem
  split at mem
  · obtain ⟨old, old_mem, rfl⟩ := mem_map.mp mem
    split
    · exact .inl rfl
    · exact .inr old_mem
  · simpa [or_comm] using mem

theorem distinct_upsert (distinct : Distinct id rows) (row : ρ) :
    Distinct id (upsert id rows row) := by
  unfold upsert
  split
  · refine distinct.map fun old _ => ?_
    split
    · rename_i same
      exact same.symm
    · rfl
  · rename_i absent
    refine distinct.append fun old mem same => absent ?_
    simpa using ⟨old, mem, same⟩

theorem mem_foldl_upsert {written : List ρ} {row' : ρ}
    (mem : row' ∈ written.foldl (upsert id) rows) : row' ∈ rows ∨ row' ∈ written := by
  induction written generalizing rows with
  | nil => exact .inl mem
  | cons head tail ih =>
    obtain old | later := ih mem
    · obtain rfl | old := mem_upsert old
      · exact .inr mem_cons_self
      · exact .inl old
    · exact .inr (mem_cons_of_mem _ later)

theorem mem_foldl_upsert_self {written : List ρ} {row : ρ} (mem : row ∈ rows ∨ row ∈ written)
    (only : ∀ other ∈ written, id other = id row → other = row) :
    row ∈ written.foldl (upsert id) rows := by
  induction written generalizing rows with
  | nil => simpa using mem
  | cons head tail ih =>
    refine ih ?_ fun other later => only other (mem_cons_of_mem _ later)
    have here : row ∈ rows ∨ row = head → row ∈ upsert id rows head := by
      intro given
      unfold upsert
      split
      · rename_i present
        by_cases named : id row = id head
        · obtain rfl := only head mem_cons_self named.symm
          obtain ⟨old, old_mem, same⟩ := any_eq_true.mp present
          exact mem_map.mpr ⟨old, old_mem, if_pos (by simpa using same)⟩
        · have old : row ∈ rows := given.resolve_right fun same => named (congrArg id same)
          exact mem_map.mpr ⟨row, old, if_neg named⟩
      · exact mem_append.mpr (given.imp_right mem_singleton.mpr)
    obtain old | mem := mem
    · exact .inl (here (.inl old))
    · obtain rfl | later := mem_cons.mp mem
      · exact .inl (here (.inr rfl))
      · exact .inr later

theorem distinct_deleteRows (distinct : Distinct id rows) :
    Distinct id (deleteRows id before after rows) :=
  distinct.filter _

theorem revises_deleteRows {revision : ρ → Int} {new : String → Prop} {written : List ρ}
    (revises : Revises id revision new rows written) :
    Revises id revision new rows (deleteRows id before after written) :=
  revises.trans .filter

variable [DecidableEq ρ]

theorem distinct_writeRows (distinct : Distinct id rows) :
    Distinct id (writeRows id before after rows) := by
  unfold writeRows
  induction changedRows id before after generalizing rows with
  | nil => exact distinct
  | cons head tail ih => exact ih (distinct_upsert distinct head)

/-- Rows that were raised in a part of the table are raised in the table. -/
theorem revises_writeRows {revision : ρ → Int} {new : String → Prop}
    (loaded : ∀ row ∈ before, row ∈ rows) (revises : Revises id revision new before after) :
    Revises id revision new rows (writeRows id before after rows) := by
  intro row' mem
  cases mem_foldl_upsert mem with
  | inl old => exact .inl ⟨row', old, .refl row'⟩
  | inr written =>
    refine (revises row' (mem_filter.mp written).1).imp_left ?_
    rintro ⟨row, row_mem, raised⟩
    exact ⟨row, loaded row row_mem, raised⟩

/-- The one row that a command wrote anew is written back. -/
theorem mem_persistedRows {row : ρ} (distinct : Distinct id before) (mem : row ∈ after)
    (changed : row ∉ before) (others : ∀ other ∈ after, other ∈ before ∨ other = row) :
    row ∈ deleteRows id before after (writeRows id before after rows) := by
  have written : row ∈ changedRows id before after :=
    mem_filter.mpr ⟨mem, by simpa using fun found => changed (mem_of_find?_eq_some found)⟩
  refine mem_filter.mpr ⟨mem_foldl_upsert_self (.inr written) fun other mem' _ => ?_, ?_⟩
  · obtain ⟨other_mem, differs⟩ := mem_filter.mp mem'
    refine (others other other_mem).resolve_left fun old => ?_
    have found : before.find? (fun row => id row = id other) = some other :=
      distinct.rowOf_eq_some old
    simp [found] at differs
  · simp only [removedRows, Bool.not_eq_true', any_eq_false, mem_filter, decide_eq_true_eq]
    rintro old ⟨_, gone⟩ same
    refine absurd gone ?_
    simpa using ⟨row, mem, same.symm⟩

end Tables

variable {drawn : Drawn} {before after rows : Snapshot}

variable {db : Database} {host : Host} {query : String} {request : Value}

/-- The snapshot holds rows of the tables. -/
structure PartOf (s rows : Snapshot) : Prop where
  projects : ∀ p ∈ s.projects, p ∈ rows.projects
  milestones : ∀ m ∈ s.milestones, m ∈ rows.milestones
  issues : ∀ issue ∈ s.issues, issue ∈ rows.issues
  jobs : ∀ job ∈ s.jobs, job ∈ rows.jobs
  tasks : ∀ t ∈ s.tasks, t ∈ rows.tasks

theorem follows_persistRows (loaded : PartOf before rows) (follows : Follows drawn before after) :
    Follows drawn rows (persistRows before after rows) := by
  refine ⟨?_, ?_, ?_, ?_, ?_⟩
  · exact revises_deleteRows (revises_writeRows loaded.projects follows.projects)
  · exact revises_deleteRows (revises_writeRows loaded.milestones follows.milestones)
  · exact revises_deleteRows (revises_writeRows loaded.issues follows.issues)
  · exact revises_deleteRows (revises_writeRows loaded.jobs follows.jobs)
  · have written := revises_writeRows loaded.tasks follows.tasks
    simp only [persistRows]
    split
    · exact revises_deleteRows written
    · exact written

/-- The rows of every table have their own identifiers. -/
structure Keyed (s : Snapshot) : Prop where
  projects : Distinct Project.id s.projects
  milestones : Distinct Milestone.id s.milestones
  issues : Distinct Issue.id s.issues
  jobs : Distinct Job.id s.jobs
  tasks : Distinct Task.id s.tasks

theorem keyed_persistRows (keyed : Keyed rows) : Keyed (persistRows before after rows) := by
  refine ⟨?_, ?_, ?_, ?_, ?_⟩
  · exact distinct_deleteRows (distinct_writeRows keyed.projects)
  · exact distinct_deleteRows (distinct_writeRows keyed.milestones)
  · exact distinct_deleteRows (distinct_writeRows keyed.issues)
  · exact distinct_deleteRows (distinct_writeRows keyed.jobs)
  · have written : Distinct Task.id (writeRows Task.id before.tasks after.tasks rows.tasks) :=
      distinct_writeRows keyed.tasks
    simp only [persistRows]
    split
    · exact distinct_deleteRows written
    · exact written

/-! ## Loading -/

theorem load_partOf (scope : Scope) (rows : Snapshot) : PartOf (scope.load rows) rows := by
  refine ⟨?_, ?_, ?_, ?_, ?_⟩
  all_goals exact fun _ mem => (mem_filter.mp mem).1

theorem load_keyed (scope : Scope) (keyed : Keyed rows) : Keyed (scope.load rows) :=
  ⟨keyed.projects.filter _, keyed.milestones.filter _, keyed.issues.filter _,
    keyed.jobs.filter _, keyed.tasks.filter _⟩

/-- A query that one identifier answers in the whole table is answered by the same one in a part
of the table that has it. -/
theorem resolve_of_resolveId {α : Type} {part : List α} {id : α → String} {ids : List String}
    {chosen : String} {i : Fin part.length} (fewer : ∀ row ∈ part, id row ∈ ids)
    (selected : resolveId ids [] query = .ok chosen) (present : ∃ row ∈ part, id row = chosen)
    (found : resolve part id id query = .ok i) : id (part.get i) = chosen := by
  have full : query ≠ "" := resolve_query_ne found
  obtain ⟨row, mem, rfl⟩ := present
  simp only [resolveId, if_neg full] at selected
  split at selected
  · rename_i listed
    cases selected
    exact resolve_exact found ⟨row, mem, rfl⟩
  · rename_i unlisted
    split at selected
    · rename_i only answer
      cases selected
      have started : startsWith (id row) query = true := by
        have inside : id row ∈ [id row] := mem_singleton_self _
        rw [← answer, mem_filter] at inside
        simp only [not_mem_nil, decide_false, Bool.or_false, Bool.and_eq_true] at inside
        exact inside.2.1
      -- No row has the query itself, so the part has one row that starts with it.
      unfold resolve at found
      rw [if_neg full] at found
      have absent : part.findFinIdx? (fun row => id row == query) = none := by
        rw [findFinIdx?_eq_none_iff]
        intro other other_mem same
        exact unlisted (beq_iff_eq.mp same ▸ fewer other other_mem)
      rw [absent] at found
      simp only at found
      split at found
      · rename_i index alone
        cases found
        obtain ⟨n, bound, rfl⟩ := mem_iff_getElem.mp mem
        have inside : (⟨n, bound⟩ : Fin part.length) ∈ [i] := by
          rw [← alone, mem_filter]
          refine ⟨mem_finRange _, ?_⟩
          simpa using .inl started
        rw [← mem_singleton.mp inside]
        rfl
      · cases found
      · cases found
    · cases selected
    · cases selected

theorem resolveId_mem {ids : List String} {chosen : String}
    (selected : resolveId ids [] query = .ok chosen) : chosen ∈ ids := by
  unfold resolveId at selected
  split at selected
  · cases selected
  · split at selected
    · rename_i listed
      cases selected
      exact listed
    · simp only at selected
      split at selected
      · rename_i only answer
        cases selected
        have inside : chosen ∈ [chosen] := mem_singleton_self _
        rw [← answer] at inside
        exact (mem_filter.mp inside).1
      · cases selected
      · cases selected

theorem loadRequest_rows {now : Int} {s : Snapshot}
    (loads : loadRequest host db request now = .ok s) :
    ∃ scope context sequences, requestScope host db request = .ok scope ∧
      s = { scope.load db.rows with
        queryContext := context, documentSequences := sequences } := by
  simp only [loadRequest, bind_ok, pure_ok] at loads
  obtain ⟨scope, scopes, context, _, _, _, rfl⟩ := loads
  exact ⟨scope, context, _, scopes, rfl⟩

theorem requestScope_attach {scope : Scope}
    (attaching : (request.index "command").asStr = some "conversation.attach")
    (asked : (request.index "job").asStr = some query)
    (scopes : requestScope host db request = .ok scope) :
    ∃ chosen ∈ scope.jobs, resolveId (db.rows.jobs.map Job.id) [] query = .ok chosen := by
  simp only [requestScope, bind_ok, pure_ok] at scopes
  obtain ⟨text, hasCommand, named, names, registered, registers, started, starts, rfl⟩ := scopes
  obtain rfl : text = "conversation.attach" := by
    rw [required_index hasCommand] at attaching
    exact Option.some.inj attaching
  have plain : startsWith "conversation.attach" "session." = false := by decide
  simp only [registeredScope, String.reduceEq, if_false, Except.ok.injEq] at registers
  simp only [plain, Bool.false_eq_true, if_false, Except.ok.injEq] at starts
  subst registers starts
  simp only [namedScope, selectField, asked, bind_ok, pure_ok] at names
  obtain ⟨_, _, _, ⟨chosen, resolves, rfl⟩, _, _, _, _, _, _, _, _, rfl⟩ := names
  exact ⟨chosen, by simp [workScope, widenScope, projectWide, Scope.parents, plain],
    resolves⟩

theorem loadRequest_attach {now : Int} {s : Snapshot} {i : Fin s.jobs.length}
    (attaching : (request.index "command").asStr = some "conversation.attach")
    (asked : (request.index "job").asStr = some query)
    (loads : loadRequest host db request now = .ok s) (found : s.jobIndex query = .ok i) :
    resolveId (db.rows.jobs.map Job.id) [] query = .ok (s.jobs.get i).id := by
  obtain ⟨scope, context, sequences, scopes, rfl⟩ := loadRequest_rows loads
  obtain ⟨chosen, inScope, resolves⟩ := requestScope_attach attaching asked scopes
  obtain ⟨job, mem, rfl⟩ := mem_map.mp (resolveId_mem resolves)
  have present : ∃ row ∈ (scope.load db.rows).jobs, row.id = job.id :=
    ⟨job, mem_filter.mpr ⟨mem, by simpa using inScope⟩, rfl⟩
  have fewer : ∀ row ∈ (scope.load db.rows).jobs, row.id ∈ db.rows.jobs.map Job.id :=
    fun row loaded => mem_map_of_mem ((load_partOf scope db.rows).jobs row loaded)
  have same : ((scope.load db.rows).jobs.get i).id = job.id :=
    resolve_of_resolveId fewer resolves present found
  exact same ▸ resolves

end Agentix.TaskStore

/-! # Revisions of executed commands

A transaction raises what it changes in the tables, unless an attachment only relabels.
-/

namespace Agentix.TaskStore

open Lib Option

variable {drawn drawn' : Drawn} {s s' : Snapshot} {db db' : Database}

/-! ## The prepared request -/

variable {host : Host} {now : Int} {request request' : Value} {options : WriteOptions}

/-- Preparing leaves the request as it is, or stores its turn and routes it. -/
theorem prepare_inv (ok : prepare db request options now = .ok (db', request')) :
    ∃ command, required request "command" = .ok command ∧
      ((request' = request ∧ db' = if command = "session.start" then expire db now else db) ∨
        (command = "session.record" ∧ ∃ session turn bound messages changed captured,
          captured.rows = db.rows ∧ captured.receipts = db.receipts ∧
          db' = storeTurn captured session turn messages changed ∧
          routeTurn db' request session turn bound messages changed = .ok request')) := by
  simp only [prepare, bind_ok] at ok
  obtain ⟨command, hasCommand, ok⟩ := ok
  refine ⟨command, hasCommand, ?_⟩
  split at ok
  · simp only [pure_ok, Prod.mk.injEq] at ok
    exact .inl ⟨ok.2.symm, ok.1.symm⟩
  · rename_i records
    simp only [not_or, ne_eq, Decidable.not_not] at records
    simp only [bind_ok, pure_ok, Prod.mk.injEq] at ok
    obtain ⟨session, _, _, _, turn, _, incoming, _, ⟨messages, changed⟩, _, captured, captures, _, routes,
      rfl, rfl⟩ := ok
    obtain ⟨rows, receipts, _⟩ := capture_tables captures
    rw [if_neg (by rw [records.1]; decide)] at rows receipts
    have opened : ∀ db : Database, (openDiscussion db session now).rows = db.rows ∧
        (openDiscussion db session now).receipts = db.receipts := by
      intro db
      unfold openDiscussion
      split <;> exact ⟨rfl, rfl⟩
    exact .inr ⟨records.1, session, turn, _, messages, changed, captured, rows.trans (opened _).1,
      receipts.trans (opened _).2, rfl, routes⟩

theorem prepare_tables (ok : prepare db request options now = .ok (db', request')) :
    db'.rows = db.rows ∧ db'.receipts = db.receipts := by
  obtain ⟨_, _, ⟨_, rfl⟩ | ⟨_, session, turn, _, messages, changed, captured, rows, receipts, rfl, _⟩⟩ :=
    prepare_inv ok
  · split <;> exact ⟨rfl, rfl⟩
  · rw [← rows, ← receipts]
    unfold storeTurn
    split
    · exact ⟨rfl, rfl⟩
    · split <;> exact ⟨rfl, rfl⟩

theorem routeTurn_command {session turn : String} {bound : Option String}
    {messages : List TurnMessage} {changed : Bool}
    (recording : (request.index "command").asStr = some "session.record")
    (ok : routeTurn db request session turn bound messages changed = .ok request') :
    ∃ text, (request'.index "command").asStr = some text ∧ startsWith text "session." = true := by
  have present : (request.get? "command").isSome := by
    cases found : request.get? "command" with
    | none => simp [Value.index, found, Value.asStr] at recording
    | some _ => rfl
  cases bound with
  | none =>
    simp only [routeTurn, bind_ok, pure_ok] at ok
    obtain ⟨_, _, rfl⟩ := ok
    exact ⟨_, by rw [Value.index_set_self present]; rfl, by decide⟩
  | some job =>
    simp only [routeTurn, bind_ok] at ok
    obtain ⟨_, _, ok⟩ := ok
    split at ok
    · simp only [pure_ok] at ok
      subst ok
      refine ⟨"session.record", ?_, by decide⟩
      rw [Value.index_set_ne (by decide), Value.index_set_ne (by decide),
        Value.index_set_ne (by decide), Value.index_set_ne (by decide)]
      exact recording
    · simp only [pure_ok] at ok
      subst ok
      refine ⟨"session.stage", ?_, by decide⟩
      rw [Value.index_set_ne (by decide), Value.index_set_ne (by decide),
        Value.index_set_self present]
      rfl

/-- A request that comes out for a command without a session was not prepared. -/
theorem prepare_request {text : String} (ok : prepare db request options now = .ok (db', request'))
    (field : (request'.index "command").asStr = some text)
    (plain : startsWith text "session." = false) : request' = request ∧ db' = db := by
  obtain ⟨command, hasCommand, ⟨rfl, rfl⟩ | ⟨rfl, _, _, _, _, _, _, _, _, _, routes⟩⟩ := prepare_inv ok
  · obtain rfl : text = command := some.inj (field.symm.trans (required_index hasCommand))
    refine ⟨rfl, if_neg ?_⟩
    rintro rfl
    exact absurd plain (by decide)
  · obtain ⟨text', field', about⟩ := routeTurn_command (required_index hasCommand) routes
    obtain rfl : text = text' := some.inj (field.symm.trans field')
    rw [plain] at about
    cases about

/-- Only the turns of a session are prepared. -/
theorem prepare_plain {text : String} (field : (request.index "command").asStr = some text)
    (plain : startsWith text "session." = false)
    (ok : prepare db request options now = .ok (db', request')) : request' = request ∧ db' = db := by
  obtain ⟨command, hasCommand, ⟨rfl, _⟩ | ⟨rfl, _⟩⟩ := prepare_inv ok
  · exact prepare_request ok field plain
  · rw [required_index hasCommand, some.injEq] at field
    subst field
    exact absurd plain (by decide)

/-! ## Transactions -/

theorem loadRequest_partOf (loads : loadRequest host db request now = .ok s) :
    PartOf s db.rows := by
  obtain ⟨scope, _, _, _, rfl⟩ := loadRequest_rows loads
  have part := load_partOf scope db.rows
  exact ⟨part.projects, part.milestones, part.issues, part.jobs, part.tasks⟩

theorem loadRequest_keyed (keyed : Keyed db.rows)
    (loads : loadRequest host db request now = .ok s) : Keyed s := by
  obtain ⟨scope, _, _, _, rfl⟩ := loadRequest_rows loads
  have loaded := load_keyed scope keyed
  exact ⟨loaded.projects, loaded.milestones, loaded.issues, loaded.jobs, loaded.tasks⟩

/-- The stages of a transaction that succeeded: what each of them left, and that it did. -/
structure Stages (host : Host) (db : Database) (request : Value) (options : WriteOptions) (now : Int)
    (db' : Database) (reply : Reply) where
  prepared : Database
  asked : Value
  before : Snapshot
  mid : Snapshot
  answer : Reply
  attached : Database
  after : Snapshot
  prepares : prepare db request options now = .ok (prepared, asked)
  loads : loadRequest host prepared asked now = .ok before
  applies : apply host.toEnv before asked options now = .ok (mid, answer)
  attaches : attach host prepared mid asked options answer now = .ok (attached, after, reply)
  persists : db'.rows = persistRows before after attached.rows
  references : References db'.rows
  keeps : db'.receipts = attached.receipts

theorem transact_inv {reply : Reply} (ok : transact host db request options now = .ok (db', reply)) :
    Nonempty (Stages host db request options now db' reply) := by
  simp only [transact, bind_ok, pure_ok, Prod.mk.injEq] at ok
  obtain ⟨⟨prepared, asked⟩, prepares, before, loads, ⟨mid, answer⟩, applies,
    ⟨attached, after, _⟩, attaches, _, _, written, persists, rfl, rfl⟩ := ok
  simp only [persist, bind_ok, ensure_ok, pure_ok] at persists
  obtain ⟨_, _, _, references, rfl⟩ := persists
  exact ⟨⟨prepared, asked, before, mid, answer, attached, after, prepares, loads, applies, attaches,
    rfl, references, rfl⟩⟩

namespace Stages

variable {reply : Reply} (run : Stages host db request options now db' reply)

/-- Only the last stage writes the tables. -/
theorem tables : run.prepared.rows = db.rows ∧ run.attached.rows = db.rows :=
  ⟨(prepare_tables run.prepares).1, (attach_tables run.attaches).1.trans (prepare_tables run.prepares).1⟩

theorem rows : db'.rows = persistRows run.before run.after db.rows :=
  run.tables.2 ▸ run.persists

theorem part : PartOf run.before db.rows :=
  run.tables.1 ▸ loadRequest_partOf run.loads

theorem loaded (keyed : Keyed db.rows) : Keyed run.before :=
  loadRequest_keyed (run.tables.1 ▸ keyed) run.loads

/-- A command that is not about a session runs on the tables and the request as they are. -/
theorem plain {text : String} (field : (request.index "command").asStr = some text)
    (sessionless : startsWith text "session." = false) :
    loadRequest host db request now = .ok run.before ∧
      apply host.toEnv run.before request options now = .ok (run.mid, run.answer) ∧
      attach host db run.mid request options run.answer now =
        .ok (run.attached, run.after, reply) := by
  obtain ⟨same, unchanged⟩ := prepare_plain field sessionless run.prepares
  have loads := run.loads
  have applies := run.applies
  have attaches := run.attaches
  rw [same] at applies
  rw [same, unchanged] at loads attaches
  exact ⟨loads, applies, attaches⟩

end Stages

/-- An attachment whose Job, the one its identifier selects, is only relabelled by the selected
turns. -/
def RelabelsOnly (db : Database) (request : Value) (options : WriteOptions) (now : Int) : Prop :=
  (request.index "command").asStr = some "conversation.attach" ∧
    ∃ turns session query, ∃ job ∈ db.rows.jobs, selectedTurns request = .ok (some turns) ∧
      options.sessionRef = some session ∧ (request.index "job").asStr = some query ∧
      resolveId (db.rows.jobs.map Job.id) [] query = .ok job.id ∧ Relabels job.conversation session
        (deliveredMessages (expire db now) session job.id turns)

theorem relabelsOnly_of_loaded (loads : loadRequest host db request now = .ok s)
    (relabels : AttachRelabels db s request options now) : RelabelsOnly db request options now := by
  obtain ⟨attaching, turns, session, query, i, selects, hasSession, asked, found, relabels⟩ :=
    relabels
  have resolves := loadRequest_attach attaching asked loads found
  have mem : s.jobs.get i ∈ db.rows.jobs :=
    (loadRequest_partOf loads).jobs _ (List.get_mem _ _)
  exact ⟨attaching, turns, session, query, _, mem, selects, hasSession, asked, resolves,
    relabels⟩

theorem attachRelabels_of_stored {env : Env} {reply : Reply} (keyed : Keyed db.rows)
    (loads : loadRequest host db request now = .ok s)
    (applies : apply env s request options now = .ok (s', reply))
    (relabels : RelabelsOnly db request options now) : AttachRelabels db s request options now := by
  obtain ⟨attaching, turns, session, query, job, mem, selects, hasSession, asked, resolves,
    relabels⟩ := relabels
  obtain ⟨_, query', i, asked', found, _⟩ := apply_attach attaching applies
  obtain rfl : query = query' := some.inj (asked.symm.trans asked')
  have named := loadRequest_attach attaching asked loads found
  have loaded : s.jobs.get i ∈ db.rows.jobs := (loadRequest_partOf loads).jobs _ (List.get_mem _ _)
  obtain rfl : job = s.jobs.get i :=
    keyed.jobs.eq_of_key mem loaded (Except.ok.inj (resolves.symm.trans named))
  exact ⟨attaching, turns, session, query, i, selects, hasSession, asked, found, relabels⟩

theorem Follows.of_request {env : Env} (follows : Follows (drawnBy env request) s s')
    (created : ∀ id, (drawnBy env request).issue id → (drawnBy env request').issue id) :
    Follows (drawnBy env request') s s' :=
  ⟨follows.projects, follows.milestones, follows.issues.mono created, follows.jobs, follows.tasks⟩

theorem follows_transact {reply : Reply} (keyed : Keyed db.rows)
    (unused : ∀ job ∈ db.rows.jobs, job.id ≠ host.newId "job" 0)
    (settled : ¬ RelabelsOnly db request options now)
    (ok : transact host db request options now = .ok (db', reply)) :
    Follows (drawnBy host.toEnv request) db.rows db'.rows := by
  obtain ⟨run⟩ := transact_inv ok
  have settled' : ¬ AttachRelabels run.prepared run.before run.asked options now := by
    intro relabels
    have again := relabelsOnly_of_loaded run.loads relabels
    obtain ⟨same, unchanged⟩ := prepare_request run.prepares relabels.1 (by decide)
    rw [same, unchanged] at again
    exact settled again
  have follows := follows_command (run.loaded keyed).jobs
    (fun job mem => unused job (run.part.jobs job mem)) settled' run.applies run.attaches
  have persisted := follows_persistRows run.part follows
  rw [← run.rows] at persisted
  refine persisted.of_request fun id created => ?_
  obtain ⟨text, hasCommand, parses⟩ := map_eq_ok.mp created.1
  obtain rfl : text = "issue.create" := by
    rw [← Command.text_parse text, parses]
    decide
  obtain ⟨same, _⟩ := prepare_request run.prepares (required_index hasCommand) (by decide)
  exact same ▸ created

theorem transact_keyed {reply : Reply} (keyed : Keyed db.rows)
    (ok : transact host db request options now = .ok (db', reply)) : Keyed db'.rows := by
  obtain ⟨run⟩ := transact_inv ok
  rw [run.rows]
  exact keyed_persistRows keyed

/-- An attachment that only relabels writes the changed row back under its revision. -/
theorem relabelled_transact {reply : Reply} (keyed : Keyed db.rows)
    (relabels : RelabelsOnly db request options now)
    (ok : transact host db request options now = .ok (db', reply)) :
    ∃ job ∈ db.rows.jobs, ∃ row ∈ db'.rows.jobs, row.id = job.id ∧ row ≠ job ∧
      row.revision = job.revision := by
  obtain ⟨run⟩ := transact_inv ok
  obtain ⟨loads, applies, attaches⟩ := run.plain relabels.1 (by decide)
  have loaded := (run.loaded keyed).jobs
  obtain ⟨i, row, replaced, same, differs, stays⟩ := relabelled_command loaded
    (attachRelabels_of_stored keyed loads applies relabels) applies attaches
  have jobs : run.after.jobs = run.before.jobs.modify i fun _ => row := by rw [replaced]; rfl
  refine ⟨run.before.jobs.get i, run.part.jobs _ (List.get_mem _ _), row, ?_, same, differs, stays⟩
  rw [run.rows]
  refine mem_persistedRows loaded (jobs ▸ modify_mem i _) (fun old => differs ?_) fun other mem => ?_
  · exact loaded.eq_of_key old (List.get_mem _ _) same
  · rw [jobs] at mem
    refine (mem_modify mem).imp_right ?_
    rintro ⟨_, _, written⟩
    exact written

/-! ## Receipts -/

/-- No command has run under the idempotency key. -/
def Unanswered (db : Database) (options : WriteOptions) : Prop :=
  ∀ key, options.idempotencyKey = some key → ∀ receipt ∈ db.receipts, receipt.key ≠ key

theorem earlierOutcome_eq_none {source : Value} {answer : Option Outcome}
    (ok : earlierOutcome host db source options = .ok answer) :
    answer = none ↔ Unanswered db options := by
  unfold earlierOutcome at ok
  split at ok
  · rename_i unkeyed
    cases ok
    refine iff_of_true rfl fun key given => ?_
    rw [unkeyed] at given
    cases given
  · rename_i key keyed
    simp only [bind_ok, receiptOf] at ok
    obtain ⟨_, _, ok⟩ := ok
    split at ok
    · rename_i absent
      cases ok
      refine iff_of_true rfl fun other given receipt mem => ?_
      obtain rfl : key = other := some.inj (keyed.symm.trans given)
      simpa using List.find?_eq_none.mp absent receipt mem
    · rename_i receipt found
      simp only [bind_ok, pure_ok] at ok
      obtain ⟨_, _, rfl⟩ := ok
      refine iff_of_false (by simp) fun unanswered => ?_
      exact unanswered key keyed receipt (List.mem_of_find?_eq_some found)
        (by simpa using List.find?_some found)

/-- A command answers with the outcome of its key, where it has run before, and runs its transaction
otherwise. -/
theorem executeAs_cases {source : Value} {outcome : Outcome}
    (ok : executeAs host db request options source now = .ok (db', outcome)) :
    ∃ expanded, expandRoots host request = .ok expanded ∧
      ((¬ Unanswered db options ∧ db' = db) ∨ (Unanswered db options ∧
        ∃ mid reply, transact host db expanded options now = .ok (mid, reply) ∧
          db'.rows = mid.rows)) := by
  simp only [executeAs, bind_ok] at ok
  obtain ⟨_, _, expanded, expands, earlier, answers, ok⟩ := ok
  have unanswered := earlierOutcome_eq_none answers
  refine ⟨expanded, expands, ?_⟩
  cases earlier with
  | some outcome =>
    cases ok
    refine .inl ⟨fun none => ?_, rfl⟩
    cases unanswered.mpr none
  | none =>
    simp only [bind_ok, pure_ok, Prod.mk.injEq] at ok
    obtain ⟨⟨mid, reply⟩, transacts, rfl, _⟩ := ok
    refine .inr ⟨unanswered.mp rfl, mid, reply, transacts, ?_⟩
    unfold keepReceipt
    split <;> rfl

/-! ## Reaping -/

theorem reapTasks_rows {tasks : List String} (ok : reapTasks now tasks s = .ok s') :
    s'.projects = s.projects ∧ s'.milestones = s.milestones ∧ s'.issues = s.issues ∧
      s'.jobs = s.jobs ∧ s'.tasks.map Task.id = s.tasks.map Task.id := by
  induction tasks generalizing s with
  | nil =>
    cases ok
    exact ⟨rfl, rfl, rfl, rfl, rfl⟩
  | cons task rest ih =>
    simp only [reapTasks, bind_ok] at ok
    obtain ⟨i, _, ok⟩ := ok
    obtain ⟨projects, milestones, issues, jobs, tasks⟩ := ih ok
    have blocked : (systemBlock s i "lease expired" now).tasks.map Task.id = s.tasks.map Task.id :=
      map_modify_eq_self i rfl
    exact ⟨projects, milestones, issues, jobs, tasks.trans blocked⟩

theorem reap_rows (ok : reap db now = .ok db') :
    (∀ drawn, Follows drawn db.rows db'.rows) ∧
      (db'.rows.jobs = db.rows.jobs ∧ db'.rows.issues = db.rows.issues) ∧
      (Keyed db.rows → Keyed db'.rows) ∧
      db' = { db with rows := db'.rows, sequence := db'.sequence } := by
  simp only [reap, bind_ok, pure_ok] at ok
  obtain ⟨rows, reaps, rfl⟩ := ok
  obtain ⟨projects, milestones, issues, jobs, tasks⟩ := reapTasks_rows reaps
  refine ⟨fun _ => follows_reapTasks reaps, ⟨jobs, issues⟩, fun keyed => ?_, rfl⟩
  refine ⟨?_, ?_, ?_, ?_, ?_⟩
  · exact projects ▸ keyed.projects
  · exact milestones ▸ keyed.milestones
  · exact issues ▸ keyed.issues
  · exact jobs ▸ keyed.jobs
  · unfold Distinct
    rw [tasks]
    exact keyed.tasks

/-- In every database the rows of a table have their own identifiers. -/
theorem stored_keyed (stored : Stored db) : Keyed db.rows := by
  refine stored.invariant (fun db => Keyed db.rows) ?_ ?_
  · exact ⟨.nil, .nil, .nil, .nil, .nil⟩
  · intro db db' transaction _ _ keyed step
    cases transaction with
    | command host request options source now =>
      obtain ⟨outcome, ok⟩ := step
      obtain ⟨expanded, _, ⟨_, rfl⟩ | ⟨_, mid, reply, transacts, same⟩⟩ := executeAs_cases ok
      · exact keyed
      · exact same ▸ transact_keyed keyed transacts
    | reap now => exact (reap_rows step).2.2.1 keyed

/-! ## Executed commands -/

/-- `execute` reaps, and then answers with an earlier outcome or runs the transaction. -/
theorem execute_cases {expanded : Value} {outcome : Outcome}
    (expands : expandRoots host request = .ok expanded)
    (ok : execute host db request options now = .ok (db', outcome)) :
    ∃ reaped, reap db now = .ok reaped ∧ ((¬ Unanswered db options ∧ db' = reaped) ∨
      (Unanswered db options ∧ ∃ mid reply,
        transact host reaped expanded options now = .ok (mid, reply) ∧ db'.rows = mid.rows)) := by
  simp only [execute, bind_ok] at ok
  obtain ⟨_, _, reaped, reaps, ok⟩ := ok
  obtain ⟨_, _, _, same⟩ := reap_rows reaps
  have receipts : reaped.receipts = db.receipts := by rw [same]
  obtain ⟨expanded', expands', answer⟩ := executeAs_cases ok
  obtain rfl : expanded = expanded' := Except.ok.inj (expands.symm.trans expands')
  unfold Unanswered at answer ⊢
  rw [receipts] at answer
  exact ⟨reaped, reaps, answer⟩

theorem relabelsOnly_reap {reaped : Database} (reaps : reap db now = .ok reaped) :
    RelabelsOnly reaped request options now ↔ RelabelsOnly db request options now := by
  obtain ⟨_, ⟨jobs, _⟩, _, same⟩ := reap_rows reaps
  have delivered : deliveredMessages (expire reaped now) = deliveredMessages (expire db now) := by
    rw [same]
    rfl
  unfold RelabelsOnly
  rw [jobs, delivered]

/-- What `execute` changes is raised, with what it reaps, and rows that it adds have identifiers
that it draws. -/
theorem follows_execute {expanded : Value} {outcome : Outcome} (keyed : Keyed db.rows)
    (unused : ∀ job ∈ db.rows.jobs, job.id ≠ host.newId "job" 0)
    (expands : expandRoots host request = .ok expanded)
    (settled : Unanswered db options → ¬ RelabelsOnly db expanded options now)
    (ok : execute host db request options now = .ok (db', outcome)) :
    (∀ drawn, Follows drawn db.rows db'.rows) ∨
      (Unanswered db options ∧ Follows (drawnBy host.toEnv expanded) db.rows db'.rows) := by
  obtain ⟨reaped, reaps, ⟨_, rfl⟩ | ⟨unanswered, mid, reply, transacts, rows⟩⟩ :=
    execute_cases expands ok
  · exact .inl (reap_rows reaps).1
  · obtain ⟨follows, ⟨jobs, _⟩, keeps, _⟩ := reap_rows reaps
    rw [rows]
    refine .inr ⟨unanswered, (follows _).trans (follows_transact (keeps keyed)
      (fun job mem => unused job (jobs ▸ mem)) (fun relabels => ?_) transacts)⟩
    exact settled unanswered ((relabelsOnly_reap reaps).mp relabels)

/-- An attachment that only relabels leaves a changed row under its revision. -/
theorem relabelled_execute {expanded : Value} {outcome : Outcome} (keyed : Keyed db.rows)
    (expands : expandRoots host request = .ok expanded) (unanswered : Unanswered db options)
    (relabels : RelabelsOnly db expanded options now)
    (ok : execute host db request options now = .ok (db', outcome)) :
    ∃ job ∈ db.rows.jobs, ∃ row ∈ db'.rows.jobs, row.id = job.id ∧ row ≠ job ∧
      row.revision = job.revision := by
  obtain ⟨reaped, reaps, ⟨answered, _⟩ | ⟨_, mid, reply, transacts, rows⟩⟩ :=
    execute_cases expands ok
  · exact absurd unanswered answered
  · obtain ⟨_, ⟨jobs, _⟩, keeps, _⟩ := reap_rows reaps
    have changed := relabelled_transact (keeps keyed) ((relabelsOnly_reap reaps).mpr relabels)
      transacts
    rwa [jobs, ← rows] at changed

end Agentix.TaskStore
