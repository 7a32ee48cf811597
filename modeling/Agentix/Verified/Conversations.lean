import Agentix.TaskStore.Repeating

/-! # Conversations are merged without loss

A batch of messages leaves every entry of a Job's conversation where it is, and adds every message
that is new.  An ordered batch stays in order, and recording it again changes nothing.
-/

namespace Agentix.TaskStore

open Lib List

variable {s s' : Snapshot} {request : Value} {options : WriteOptions} {reply : Reply}
  {session : String} {now : Int} {job : Job} {messages : List Value} {batch : List Incoming}

/-- A batch of valid messages with distinct identifiers, for a conversation in which the session's
identifiers are distinct. -/
structure ValidBatch (session : String) (messages : List Value) (batch : List Incoming)
    (entries : List JobMessage) : Prop where
  reads : Reads messages batch
  distinct : (batch.map Incoming.id).Nodup
  roles : RolesKept session batch entries
  unique : (identities session entries).Nodup

/-- What `record` is about: the session, the Job that is selected for it, and the messages. -/
structure Records (s : Snapshot) (request : Value) (session : String) (i : Fin s.jobs.length)
    (messages : List Value) (batch : List Incoming) : Prop where
  named : required request "session" = .ok session
  selected : sessionJobIndex s (request.index "job").asStr session = .ok (some i)
  listed : (request.index "messages").asArray = some messages
  valid : ValidBatch session messages batch (s.jobs.get i).conversation

theorem promptedJob_conversation (job : Job) (planning : Option String) :
    (promptedJob job planning).conversation = job.conversation := by
  unfold promptedJob
  split
  · split <;> rfl
  · rfl

/-- What recording makes of a Job does not change its selection. -/
theorem recorded_alike {planning : Option String} {merged : Job} {count : Nat} {ordered : Bool}
    {before : Option String} (changed : Bool) (ok : mergeMessages (promptedJob job planning)
      messages session now ordered before = .ok (merged, count)) :
    SelectedAlike (recordedJob merged changed now) job := by
  have prompted : SelectedAlike (promptedJob job planning) job := by
    unfold promptedJob
    split
    · split
      · exact ⟨rfl, rfl, rfl, rfl, rfl, rfl, rfl⟩
      · exact .refl _
    · exact .refl _
  simp only [mergeMessages, bind_ok, pure_ok, Prod.mk.injEq] at ok
  obtain ⟨_, _, merge, _, rfl, _⟩ := ok
  unfold recordedJob
  split
  · exact ⟨prompted.1, prompted.2, prompted.3, prompted.4, prompted.5, prompted.6, prompted.7⟩
  · exact ⟨prompted.1, prompted.2, prompted.3, prompted.4, prompted.5, prompted.6, prompted.7⟩

theorem recordedJob_fields (job : Job) (changed : Bool) (now : Int) :
    (recordedJob job changed now).conversation = job.conversation ∧
      (recordedJob job changed now).prompt = job.prompt := by
  unfold recordedJob
  split <;> exact ⟨rfl, rfl⟩

theorem recordConversation_again {i : Fin s.jobs.length}
    (records : Records s request session i messages batch)
    (spoken : Spoken (s.jobs.get i).conversation)
    (ok : recordConversation s request options now = .ok (s', reply)) (later : Int) :
    recordConversation s' request options later =
      .ok (s', .value [("job_id", .string (s.jobs.get i).id), ("recorded", .integer 0)]) := by
  obtain ⟨named, selected, listed, valid⟩ := records
  simp only [recordConversation, named, bind_ok, ensure_ok, Except.ok.injEq, selected,
    exists_eq_left', listed, orElseError] at ok
  obtain ⟨_, owner, planning, plans, ⟨merged, count⟩, merges, done⟩ := ok
  simp only [pure_ok, Prod.mk.injEq] at done
  obtain ⟨rfl, _⟩ := done
  have entries := promptedJob_conversation (s.jobs.get i) planning
  obtain ⟨indexes, fresh, merged_spec⟩ := merges_of_ok merges valid.reads
    (by rw [entries]; exact valid.unique) valid.distinct (by rw [entries]; exact valid.roles)
  generalize changes : (decide (count > 0 ∨ (promptedJob (s.jobs.get i) planning).prompt ≠
    (s.jobs.get i).prompt)) = changed
  obtain ⟨conversation, prompt⟩ := recordedJob_fields merged changed now
  have alike : SelectedAlike (recordedJob merged changed now) (s.jobs.get i) :=
    recorded_alike changed merges
  generalize recordedJob merged changed now = row at conversation prompt alike
  have located := sessionJobIndex_moved i alike selected
  have stays : (s.modifyJob i fun _ => row).jobs.get (moved i (fun _ => row) i) = row := by
    simp only [Snapshot.modifyJob, moved, get_eq_getElem, getElem_modify]
    exact if_pos rfl
  have prompted : promptedJob row planning = row := by
    refine promptedJob_again (s.jobs.get i) (fun p known => ?_) fun full => ?_
    · subst known
      exact planningPrompt_ne plans
    · exact prompt.trans (mergeMessages_prompt merges full)
  rw [← conversation] at merged_spec
  have again := mergeMessages_again later valid.reads valid.distinct
    (by rw [entries]; exact valid.roles) merged_spec (by rw [entries]; exact spoken)
  have same_state : (s.modifyJob i fun _ => row).modifyJob (moved i (fun _ => row) i)
      (fun _ => row) = s.modifyJob i fun _ => row :=
    congrArg (fun jobs => { s with jobs }) (modify_modify_eq ..)
  simp only [recordConversation, named, bind, Except.bind, ensure, if_pos owner, located, listed,
    orElseError, stays, plans, prompted, again, pure, Except.pure]
  have unchanged : recordedJob row (decide (0 > 0 ∨ row.prompt ≠ row.prompt)) later = row := by
    simp [recordedJob]
  rw [unchanged, same_state, alike.id]
  rfl

/-- A batch of valid messages leaves every entry in its place, with the text that the batch has for
it, and adds every message that is new once.  If the messages that were known stand in the order of
an ordered batch, the one that takes over the placeholder among them, then all do.  If no entry is
without a text, recording the batch again records nothing. -/
theorem conversation_keeps_and_orders :
    (∀ job messages batch session now ordered before,
      ValidBatch session messages batch job.conversation →
        ∃ job' count,
          mergeMessages job messages session now ordered before = .ok (job', count) ∧
            (keptEntries session batch job.conversation).Sublist job'.conversation ∧
            job'.conversation.Perm (keptEntries session batch job.conversation ++
              (added session batch job.conversation).map (Incoming.entry session now)) ∧
            (ordered = true → before = none →
              InBatchOrder session batch (adopted session batch job.conversation) →
                InBatchOrder session batch job'.conversation) ∧
            (Spoken job.conversation → Spoken job'.conversation ∧ ∀ later,
              mergeMessages job' messages session later ordered before = .ok (job', 0))) ∧
      ∀ s s' request options now reply session messages batch (i : Fin s.jobs.length),
        Records s request session i messages batch → Spoken (s.jobs.get i).conversation →
          recordConversation s request options now = .ok (s', reply) →
            ∀ later, recordConversation s' request options later =
              .ok (s', .value [("job_id", .string (s.jobs.get i).id), ("recorded", .integer 0)]) := by
  refine ⟨fun job messages batch session now ordered before valid => ?_, ?_⟩
  · obtain ⟨job', count, indexes, fresh, ok, merges⟩ : ∃ job' count indexes fresh,
        mergeMessages job messages session now ordered before = .ok (job', count) ∧
          Merges session now batch ordered before job.conversation job'.conversation indexes
            fresh :=
      mergeMessages_spec valid.reads valid.unique valid.distinct valid.roles
    refine ⟨job', count, ok, merges.kept, merges.perm, ?_, fun spoken => ⟨merges.spoken spoken, ?_⟩⟩
    · rintro rfl rfl inOrder
      exact merges.order valid.distinct inOrder
    · exact fun later => mergeMessages_again later valid.reads valid.distinct valid.roles merges spoken ..
  · intro s s' request options now reply session messages batch i records spoken ok later
    exact recordConversation_again records spoken ok later

/-! ## A follow-up that is recorded late -/

def chatMessage (id role text : String) : Value :=
  .object [("id", .string id), ("role", .string role), ("text", .string text)]

/-- A Job with the answer of its first turn and the placeholder of a follow-up. -/
def followedJob (prompt : String) : Job :=
  { id := "job_1", projectId := "prj_1", issueId := none, title := "Chat", name := "01 Chat",
    sequence := 1, goal := "", prompt := "Start",
    conversation := [⟨"a1", "s", "assistant", "Done", 0⟩, ⟨"followup:1", "s", "user", prompt, 1⟩],
    agent := none, sessionId := some "s", status := .active, reviewReason := none,
    reviewPolicy := .none, followupTaskIds := [], followupSessionId := some "s",
    followupAt := some 1, followupId := some "1", pendingReviewAt := none, revision := 1,
    createdAt := 0, updatedAt := 1, startedAt := none, completedAt := none, cancelledAt := none,
    archivedAt := none, documentPath := "01 Chat.md" }

def followedMessages : List Value :=
  [chatMessage "u2" "user" "Go on", chatMessage "a2" "assistant" "Gone on"]

def followedBatch : List Incoming := [⟨"u2", "user", "Go on"⟩, ⟨"a2", "assistant", "Gone on"⟩]

theorem valid_followed :
    ValidBatch "s" followedMessages followedBatch (followedJob "Go on").conversation where
  reads := .cons (by rfl) (.cons (by rfl) .nil)
  distinct := by decide
  roles := by simp [RolesKept, followedBatch, followedJob]
  unique := by decide

theorem spoken_followed : Spoken (followedJob "Go on").conversation := by
  simp only [Spoken, followedJob, forall_mem_cons]
  exact ⟨by decide, by decide, forall_mem_nil _⟩

def followedSnapshot : Snapshot := { jobs := [followedJob "Go on"] }

def followedRequest : Value :=
  .object [("session", .string "s"), ("messages", .array followedMessages)]

/-- The placeholder becomes the message of the user, and the answer follows it. -/
theorem followed_merges :
    (∃ job' count, mergeMessages (followedJob "Go on") followedMessages "s" 2 true none =
        .ok (job', count) ∧ job'.conversation.map JobMessage.id = ["a1", "u2", "a2"] ∧
      mergeMessages job' followedMessages "s" 3 true none = .ok (job', 0)) ∧
    ∃ s' reply, recordConversation followedSnapshot followedRequest { sessionRef := some "s" } 2 =
        .ok (s', reply) ∧
      recordConversation s' followedRequest { sessionRef := some "s" } 3 =
        .ok (s', .value [("job_id", .string "job_1"), ("recorded", .integer 0)]) := by
  constructor
  · obtain ⟨job', count, ok, _, _, _, again⟩ := conversation_keeps_and_orders.1
      (followedJob "Go on") _ _ "s" 2 true none valid_followed
    refine ⟨job', count, ok, ?_, (again spoken_followed).2 3⟩
    have computed : (mergeMessages (followedJob "Go on") followedMessages "s" 2 true none).map
        (fun merged => merged.1.conversation.map JobMessage.id) = .ok ["a1", "u2", "a2"] := rfl
    rw [ok] at computed
    exact Except.ok.inj computed
  · refine ⟨_, _, rfl, ?_⟩
    refine conversation_keeps_and_orders.2 followedSnapshot _ _ _ 2 _ "s" followedMessages
      followedBatch ⟨0, by decide⟩ ⟨rfl, rfl, rfl, valid_followed⟩ spoken_followed rfl 3

/-- The placeholder stays behind the entries that are known, also where the message that it becomes
is before them in the batch.  A placeholder without a text is taken over again and again. -/
theorem placeholder_stays_last :
    (¬ ∀ job messages batch session now, ValidBatch session messages batch job.conversation →
      ∀ job' count, mergeMessages job messages session now true none = .ok (job', count) →
        InBatchOrder session batch job.conversation →
          InBatchOrder session batch job'.conversation) ∧
    ¬ ∀ job messages batch session now ordered before,
      ValidBatch session messages batch job.conversation → ∀ job' count,
        mergeMessages job messages session now ordered before = .ok (job', count) →
          mergeMessages job' messages session now ordered before = .ok (job', 0) := by
  constructor
  · intro claimed
    have valid : ValidBatch "s" [chatMessage "u2" "user" "Go on", chatMessage "a1" "assistant" "Done"]
        [⟨"u2", "user", "Go on"⟩, ⟨"a1", "assistant", "Done"⟩]
        (followedJob "Go on").conversation := by
      refine ⟨.cons (by rfl) (.cons (by rfl) .nil), by decide, ?_, by decide⟩
      simp [RolesKept, followedJob]
    have order := claimed (followedJob "Go on") _ _ "s" 2 valid _ _ rfl (by unfold InBatchOrder; decide)
    unfold InBatchOrder at order
    revert order
    decide
  · intro claimed
    have valid : ValidBatch "s" [chatMessage "followup:2" "user" "<turn_aborted>x</turn_aborted>",
          chatMessage "u3" "user" "<turn_aborted>x</turn_aborted>"]
        [⟨"followup:2", "user", ""⟩, ⟨"u3", "user", ""⟩] (followedJob "").conversation := by
      refine ⟨.cons (by rfl) (.cons (by rfl) .nil), by decide, ?_, by decide⟩
      simp [RolesKept, blank]
    have again := claimed (followedJob "") _ _ "s" 2 false none valid _ _ rfl
    have counted : (mergeMessages _ _ _ _ _ _).map Prod.snd = .ok 0 := congrArg _ again
    revert counted
    decide

end Agentix.TaskStore
