import Agentix.Revisions.Work
import Agentix.TaskStore.Store

/-! # Revisions of conversations

A batch of messages raises the Job's revision exactly when something of it is recorded.  What
`attach` does before, the adoption of a follow-up placeholder, raises nothing by itself.
-/

namespace Agentix.TaskStore

open Lib List Option

variable {drawn : Drawn} {s s' : Snapshot}

/-! ## Merging -/

variable {env : Env} {now : Int} {reply : Reply} {session : String} {request : Value}
  {options : WriteOptions}

def recordedText (message : Value) : Option String :=
  (message.index "text").asStr.map fun raw => if isUser message then userText raw else raw

/-- The message has no text, or the conversation has it under its identifier. -/
def Known (entries : List JobMessage) (indexes : List (String × Nat)) (message : Value) : Prop :=
  ∀ text, recordedText message = some text → blank text = true ∨
    ∃ id i, (message.index "id").asStr = some id ∧ indexes.lookup id = some i ∧
      ∀ entry, entries[i]? = some entry → entry.text = text

/-- A message is either known, and then nothing changes, or it is counted. -/
theorem mergeMessage_counts {merge merge' : Merge} {message : Value} {anchor : Nat}
    (ok : mergeMessage session now merge message anchor = .ok merge') :
    (Known merge.entries merge.indexes message ∧ merge' = merge) ∨
      (¬ Known merge.entries merge.indexes message ∧ merge'.recorded = merge.recorded + 1) := by
  simp only [mergeMessage, bind_ok, ensure_ok] at ok
  obtain ⟨id, hasId, role, hasRole, _, _, raw, hasText, ok⟩ := ok
  have idField := required_index hasId
  have text : recordedText message = some (if role = "user" then userText raw else raw) := by
    simp [recordedText, isUser, required_index hasText, required_index hasRole]
  generalize (if role = "user" then userText raw else raw) = text' at ok text
  split at ok
  · rename_i empty
    cases ok
    refine .inl ⟨fun other same => ?_, rfl⟩
    rw [text, some.injEq] at same
    exact .inl (same ▸ empty)
  · rename_i full
    -- When the id has an entry, the message is known exactly if that entry has its text.
    have found_only : ∀ i, merge.indexes.lookup id = some i →
        (Known merge.entries merge.indexes message ↔
          ∀ entry, merge.entries[i]? = some entry → entry.text = text') := by
      intro i placed
      constructor
      · intro known
        obtain empty | ⟨id', i', idField', placed', same⟩ := known text' text
        · exact absurd empty full
        · rw [idField, some.injEq] at idField'
          rw [← idField', placed, some.injEq] at placed'
          exact placed' ▸ same
      · intro same other given
        rw [text, some.injEq] at given
        exact .inr ⟨id, i, idField, placed, given ▸ same⟩
    split at ok
    · rename_i i placed
      split at ok
      · rename_i absent
        cases ok
        refine .inl ⟨(found_only i placed).mpr fun entry present => ?_, rfl⟩
        rw [absent] at present
        cases present
      · rename_i existing present
        simp only [bind_ok] at ok
        obtain ⟨_, _, ok⟩ := ok
        split at ok
        · rename_i same
          cases ok
          refine .inl ⟨(found_only i placed).mpr fun entry place => ?_, rfl⟩
          rw [present, some.injEq] at place
          exact place ▸ same
        · rename_i ne
          cases ok
          exact .inr ⟨fun known => ne ((found_only i placed).mp known existing present), rfl⟩
    · rename_i unplaced
      cases ok
      refine .inr ⟨fun known => ?_, rfl⟩
      obtain empty | ⟨id', i', idField', placed', _⟩ := known text' text
      · exact absurd empty full
      · rw [idField, some.injEq] at idField'
        rw [← idField', unplaced] at placed'
        cases placed'

theorem mergeAll_counts {merge merge' : Merge} {batch : List (Value × Nat)}
    (ok : mergeAll session now merge batch = .ok merge') :
    ((∀ entry ∈ batch, Known merge.entries merge.indexes entry.1) ∧ merge' = merge) ∨
      ((∃ entry ∈ batch, ¬ Known merge.entries merge.indexes entry.1) ∧
        merge.recorded < merge'.recorded) := by
  induction batch generalizing merge with
  | nil =>
    cases ok
    exact .inl ⟨forall_mem_nil _, rfl⟩
  | cons head tail ih =>
    obtain ⟨message, anchor⟩ := head
    simp only [mergeAll, bind_ok] at ok
    obtain ⟨next, merges, rest⟩ := ok
    obtain ⟨known, rfl⟩ | ⟨unknown, counted⟩ := mergeMessage_counts merges
    · refine (ih rest).imp ?_ ?_
      · rintro ⟨others, same⟩
        exact ⟨forall_mem_cons.mpr ⟨known, others⟩, same⟩
      · rintro ⟨⟨entry, mem, unknown⟩, more⟩
        exact ⟨⟨entry, mem_cons_of_mem _ mem, unknown⟩, more⟩
    · refine .inr ⟨⟨_, mem_cons_self, unknown⟩, ?_⟩
      obtain ⟨_, same⟩ | ⟨_, more⟩ := ih rest
      · rw [same]
        omega
      · omega

/-- A message of the batch takes the place of the placeholder at the end of the conversation. -/
def AdoptsLast (entries : List JobMessage) (messages : List Value) (session : String) : Prop :=
  ∃ pending, entries.getLast? = some pending ∧ pending.role = "user" ∧
    pending.sessionId = session ∧ startsWith pending.id "followup:" = true ∧
    ∃ message ∈ messages, adopts (sessionIndexes entries session) pending message = true

theorem adoptPlaceholder_counts {entries entries' : List JobMessage}
    {indexes' : List (String × Nat)} {messages : List Value} {adopted : Nat}
    (ok : adoptPlaceholder entries (sessionIndexes entries session) messages session =
      .ok (entries', indexes', adopted)) :
    (¬ AdoptsLast entries messages session ∧ entries' = entries ∧
      indexes' = sessionIndexes entries session ∧ adopted = 0) ∨
      (AdoptsLast entries messages session ∧ adopted = 1) := by
  unfold adoptPlaceholder at ok
  split at ok
  · rename_i empty
    cases ok
    refine .inl ⟨?_, rfl, rfl, rfl⟩
    rintro ⟨pending, last, _⟩
    rw [empty] at last
    cases last
  · rename_i pending last
    split at ok
    · rename_i here
      split at ok
      · rename_i absent
        cases ok
        refine .inl ⟨?_, rfl, rfl, rfl⟩
        rintro ⟨other, same, _, _, _, message, mem, takes⟩
        rw [last, some.injEq] at same
        exact find?_eq_none.mp absent message mem (same ▸ takes)
      · rename_i message found
        simp only [bind_ok, pure_ok, Prod.mk.injEq] at ok
        obtain ⟨_, _, _, _, rfl⟩ := ok
        exact .inr ⟨⟨pending, last, here.1, here.2.1, here.2.2, message,
          mem_of_find?_eq_some found, find?_some found⟩, rfl⟩
    · rename_i elsewhere
      cases ok
      refine .inl ⟨?_, rfl, rfl, rfl⟩
      rintro ⟨other, same, user, session', followup, _⟩
      rw [last, some.injEq] at same
      subst same
      exact elsewhere ⟨user, session', followup⟩

theorem anchorsBefore_length (indexes : List (String × Nat)) (last : Nat) (messages : List Value) :
    (anchorsBefore indexes last messages).1.length = messages.length := by
  induction messages with
  | nil => rfl
  | cons message rest ih =>
    simp only [anchorsBefore, length_cons, ih]

/-- A batch has nothing to record for the conversation. -/
structure NothingNew (entries : List JobMessage) (messages : List Value) (session : String) :
    Prop where
  known : ∀ message ∈ messages, Known entries (sessionIndexes entries session) message
  settled : ¬ AdoptsLast entries messages session

/-- Exactly the batches with something to record are counted, and the others change nothing. -/
theorem mergeMessages_counts {job job' : Job} {messages : List Value} {ordered : Bool}
    {before : Option String} {recorded : Nat}
    (ok : mergeMessages job messages session now ordered before = .ok (job', recorded)) :
    (job'.id = job.id ∧ job'.revision = job.revision) ∧
      ((NothingNew job.conversation messages session ∧ recorded = 0 ∧ job' = job) ∨
        (¬ NothingNew job.conversation messages session ∧ 0 < recorded)) := by
  simp only [mergeMessages, bind_ok, pure_ok, Prod.mk.injEq] at ok
  obtain ⟨⟨entries, indexes, adopted⟩, adopting, merge, merges, rfl, rfl⟩ := ok
  refine ⟨⟨rfl, rfl⟩, ?_⟩
  have length : messages.length ≤ (if ordered = true then
      (anchorsBefore indexes ((before.bind fun id => indexes.lookup id).getD
        job.conversation.length) messages).1
      else messages.map fun _ => job.conversation.length).length := by
    split
    · exact Nat.le_of_eq (anchorsBefore_length _ _ _).symm
    · exact Nat.le_of_eq (length_map _).symm
  generalize (if ordered = true then (anchorsBefore indexes _ messages).1
    else messages.map fun _ => job.conversation.length) = anchors at merges length
  -- Anchors only place the messages: the batch has the same messages as the list.
  have paired : ∀ message ∈ messages, ∃ anchor, (message, anchor) ∈ messages.zip anchors := by
    intro message mem
    rw [← map_fst_zip length] at mem
    obtain ⟨⟨_, anchor⟩, together, rfl⟩ := mem_map.mp mem
    exact ⟨anchor, together⟩
  obtain ⟨unadopted, rfl, rfl, rfl⟩ | ⟨adopts, rfl⟩ := adoptPlaceholder_counts adopting
  · obtain ⟨known, rfl⟩ | ⟨⟨entry, mem, unknown⟩, more⟩ := mergeAll_counts merges
    · refine .inl ⟨⟨fun message mem => ?_, unadopted⟩, rfl, rfl⟩
      obtain ⟨anchor, together⟩ := paired message mem
      exact known _ together
    · refine .inr ⟨fun nothing => unknown ?_, more⟩
      exact nothing.known _ (of_mem_zip mem).1
  · refine .inr ⟨fun nothing => nothing.settled adopts, ?_⟩
    obtain ⟨_, rfl⟩ | ⟨_, more⟩ := mergeAll_counts merges
    · exact Nat.one_pos
    · exact Nat.lt_trans Nat.one_pos more

theorem promptedJob_row (job : Job) (planning : Option String) :
    ((promptedJob job planning).id = job.id ∧ (promptedJob job planning).revision = job.revision) ∧
      ((promptedJob job planning).prompt = job.prompt → promptedJob job planning = job) := by
  unfold promptedJob
  split
  · split
    · rename_i prompt other
      exact ⟨⟨rfl, rfl⟩, fun same => absurd same.symm other.2⟩
    · exact ⟨⟨rfl, rfl⟩, fun _ => rfl⟩
  · exact ⟨⟨rfl, rfl⟩, fun _ => rfl⟩

theorem recordedJob_raised {job merged : Job} {changed : Prop} [Decidable changed] (now : Int)
    (same : merged.id = job.id ∧ merged.revision = job.revision)
    (unchanged : ¬ changed → merged = job) :
    Raised Job.id Job.revision job (recordedJob merged changed now) := by
  unfold recordedJob
  split
  · exact .up same.1 (same.2 ▸ Int.lt_succ _)
  · rename_i no
    rw [unchanged (by simpa using no)]
    exact .refl job

theorem follows_recordConversation
    (ok : recordConversation s request options now = .ok (s', reply)) :
    Follows drawn s s' := by
  obtain rfl | ⟨i, planning, _, _, _, _, merged, _, merges, rfl⟩ := recordConversation_inv ok
  · exact .refl
  · obtain ⟨kept, counts⟩ := mergeMessages_counts merges
    obtain ⟨prompted, sameJob⟩ := promptedJob_row (s.jobs.get i) planning
    refine .of_jobRow (recordedJob_raised now ⟨kept.1.trans prompted.1, kept.2.trans prompted.2⟩ ?_)
    intro unchanged
    obtain ⟨_, none, same⟩ | ⟨_, more⟩ := counts
    · rw [same]
      exact sameJob (by_contra fun other => unchanged (.inr other))
    · exact absurd (.inl more) unchanged

/-! ## Commands -/

theorem follows_jobCreate (unused : ∀ job ∈ s.jobs, job.id ≠ env.newId "job" 0)
    (ok : dispatch env s .jobCreate request options now = .ok (s', reply)) :
    Follows (drawnBy env request) s s' ∧
      ∃ row ∈ s'.jobs, reply = .job row ∧ Ahead Job.id Job.revision row.id s.jobs s'.jobs := by
  obtain ⟨job, opened, links⟩ := dispatch_jobCreate_inv ok
  have added : (drawnBy env request).job job.id := opened.id
  obtain ⟨follows, ahead, row, mem, given, same⟩ := follows_linkJob
    (.of_addedJob added (opened.revision ▸ Int.one_pos))
    (.of_unused fun old mem => opened.id ▸ unused old mem)
    ⟨_, mem_append_right _ (mem_singleton_self _), rfl⟩ links
  exact ⟨follows, row, mem, given, same ▸ ahead⟩

theorem follows_job {command : JobCommand} (distinct : Distinct Job.id s.jobs)
    (ok : dispatch env s (.job command) request options now = .ok (s', reply)) :
    Follows drawn s s' ∧
      ∃ row ∈ s'.jobs, reply = .job row ∧ Ahead Job.id Job.revision row.id s.jobs s'.jobs := by
  obtain ⟨updated, job, updates, rest⟩ := dispatch_job_inv ok
  have written := jobWritten_updateJob updates
  obtain ⟨_, links⟩ | ⟨rfl, rfl⟩ := rest
  · obtain ⟨follows, ahead, row, mem, given, same⟩ := follows_linkJob written.follows
      (written.ahead distinct) ⟨job, written.present, rfl⟩ links
    exact ⟨follows, row, mem, given, same ▸ ahead⟩
  · exact ⟨written.follows, job, written.present, rfl, written.ahead distinct⟩

/-- The commands that do not write a Job through a link raise what they change. -/
theorem follows_others {command : Command} (notCreate : command ≠ .jobCreate)
    (notJob : ∀ edit, command ≠ .job edit) (named : request.command = .ok command)
    (ok : dispatch env s command request options now = .ok (s', reply)) :
    Follows (drawnBy env request) s s' := by
  cases command with
  | issue command => exact follows_applyIssue named ok
  | milestone command => exact follows_applyMilestone ok
  | project command =>
    cases command with
    | register => exact follows_registerProject ok
    | move => exact follows_moveProject ok
    | rename => exact follows_renameProject ok
    | relocate => exact follows_renameProject ok
    | delete => exact follows_applyDeletion ok
    | archive => exact follows_archiveProject ok
    | unarchive => exact follows_archiveProject ok
  | jobDelete => exact follows_applyDeletion ok
  | sessionRecord => exact follows_recordConversation ok
  | sessionStage =>
    obtain rfl := dispatch_sessionStage_inv ok
    exact .refl
  | conversationAttach =>
    obtain ⟨rfl, _⟩ := attachConversation_inv ok
    exact .refl
  | jobCreate => exact absurd rfl notCreate
  | job edit => exact absurd rfl (notJob edit)
  | taskAdd => exact follows_addTask ok
  | session command => exact follows_applySession ok
  | task command => exact follows_updateTask ok
  | unknown => cases ok

theorem follows_dispatch {command : Command} (distinct : Distinct Job.id s.jobs)
    (unused : ∀ job ∈ s.jobs, job.id ≠ env.newId "job" 0) (named : request.command = .ok command)
    (ok : dispatch env s command request options now = .ok (s', reply)) :
    Follows (drawnBy env request) s s' := by
  by_cases creating : command = .jobCreate
  · subst creating
    exact (follows_jobCreate unused ok).1
  · by_cases editing : ∃ edit, command = .job edit
    · obtain ⟨edit, rfl⟩ := editing
      exact (follows_job distinct ok).1
    · exact follows_others creating (fun edit same => editing ⟨edit, same⟩) named ok

end Agentix.TaskStore
