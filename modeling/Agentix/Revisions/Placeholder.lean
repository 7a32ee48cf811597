import Agentix.Revisions.Conversation

/-! # Placeholders

A follow-up leaves its words at the end of the conversation under an identifier of its own, until
a delivery brings the message that spoke them.  `Relabels` says, of the stored conversation and
the delivered messages, when the delivery does nothing but give that entry its identifier.
-/

namespace Agentix.TaskStore

open Lib List Option

/-! ## The conversation under an identifier -/

/-- The text that the conversation has under an identifier of the session, the latest one. -/
def textOf (entries : List JobMessage) (session id : String) : Option String :=
  (entries.reverse.find? fun entry => entry.sessionId = session && entry.id = id).map
    JobMessage.text

/-- The text of a message as a conversation records it. -/
def TurnMessage.spoken (message : TurnMessage) : String :=
  if message.role = "user" then userText message.text else message.text

variable {earlier entries : List JobMessage} {last : JobMessage} {session id : String}
  {messages : List TurnMessage} {message : TurnMessage}

theorem textOf_concat (earlier : List JobMessage) (last : JobMessage) (session id : String) :
    textOf (earlier ++ [last]) session id =
      if last.sessionId = session ∧ last.id = id then some last.text
      else textOf earlier session id := by
  unfold textOf
  rw [reverse_concat, find?_cons]
  by_cases here : last.sessionId = session ∧ last.id = id
  · simp [here]
  · rw [if_neg here]
    have elsewhere : (decide (last.sessionId = session) && decide (last.id = id)) = false := by
      simpa using here
    rw [elsewhere]

theorem sessionIndexes_concat (earlier : List JobMessage) (last : JobMessage) (session : String) :
    sessionIndexes (earlier ++ [last]) session =
      if last.sessionId = session then (last.id, earlier.length) :: sessionIndexes earlier session
      else sessionIndexes earlier session := by
  unfold sessionIndexes
  rw [zipIdx_append, filter_append, List.map_append, reverse_append]
  by_cases here : last.sessionId = session
  · simp [here, zipIdx_cons]
  · simp [here, zipIdx_cons]

theorem textOf_eq_none (absent : (sessionIndexes entries session).lookup id = none) :
    textOf entries session id = none := by
  induction entries using reverseRecOn with
  | nil => rfl
  | append_singleton earlier last ih =>
    rw [sessionIndexes_concat] at absent
    rw [textOf_concat]
    by_cases here : last.sessionId = session
    · rw [if_pos here, lookup_cons] at absent
      by_cases same : id = last.id
      · simp [same] at absent
      · rw [beq_eq_false_iff_ne.mpr same] at absent
        rw [if_neg fun both => same both.2.symm]
        exact ih absent
    · rw [if_neg here] at absent
      rw [if_neg fun both => here both.1]
      exact ih absent

/-- The indexes of the session lead to the latest text under an identifier. -/
theorem textOf_eq_some {i : Nat} (placed : (sessionIndexes entries session).lookup id = some i) :
    ∃ entry, entries[i]? = some entry ∧ textOf entries session id = some entry.text := by
  induction entries using reverseRecOn with
  | nil => cases placed
  | append_singleton earlier last ih =>
    have before : (sessionIndexes earlier session).lookup id = some i →
        ∃ entry, (earlier ++ [last])[i]? = some entry ∧
          textOf earlier session id = some entry.text := by
      intro placed
      obtain ⟨entry, found, text⟩ := ih placed
      obtain ⟨bound, _⟩ := List.getElem?_eq_some_iff.mp found
      exact ⟨entry, (getElem?_append_left bound).trans found, text⟩
    rw [sessionIndexes_concat] at placed
    rw [textOf_concat]
    by_cases here : last.sessionId = session
    · rw [if_pos here, lookup_cons] at placed
      by_cases same : id = last.id
      · rw [beq_iff_eq.mpr same] at placed
        cases placed
        exact ⟨last, getElem?_concat_length, if_pos ⟨here, same.symm⟩⟩
      · rw [beq_eq_false_iff_ne.mpr same] at placed
        rw [if_neg fun both => same both.2.symm]
        exact before placed
    · rw [if_neg here] at placed
      rw [if_neg fun both => here both.1]
      exact before placed

/-! ## Delivered messages -/

theorem value_role (message : TurnMessage) :
    (message.value.index "role").asStr = some message.role := rfl

theorem value_text (message : TurnMessage) :
    (message.value.index "text").asStr = some message.text := rfl

theorem value_id (message : TurnMessage) :
    (message.value.index "id").asStr = some message.id := rfl

theorem isUser_value (message : TurnMessage) :
    isUser message.value = decide (message.role = "user") := by
  simp only [isUser, value_role, Option.some.injEq]

theorem recordedText_value (message : TurnMessage) :
    recordedText message.value = some message.spoken := by
  unfold recordedText
  simp only [value_text, isUser_value, Option.map_some, decide_eq_true_eq]
  rfl

/-- A delivered message is known when it is blank or recorded with the same text. -/
theorem known_value (entries : List JobMessage) (session : String) (message : TurnMessage) :
    Known entries (sessionIndexes entries session) message.value ↔
      blank message.spoken = true ∨ textOf entries session message.id = some message.spoken := by
  constructor
  · intro known
    refine (known _ (recordedText_value message)).imp_right ?_
    rintro ⟨id, i, given, placed, same⟩
    rw [value_id, Option.some.injEq] at given
    obtain ⟨entry, found, text⟩ := textOf_eq_some placed
    rw [given, text, same entry found]
  · intro known text given
    rw [recordedText_value, Option.some.injEq] at given
    subst given
    refine known.imp_right fun recorded => ?_
    cases placed : (sessionIndexes entries session).lookup message.id with
    | none =>
      rw [textOf_eq_none placed] at recorded
      cases recorded
    | some i =>
      obtain ⟨entry, found, text⟩ := textOf_eq_some placed
      refine ⟨message.id, i, value_id message, placed, fun other there => ?_⟩
      rw [found, Option.some.injEq] at there
      rw [text, Option.some.injEq] at recorded
      exact there ▸ recorded

/-- A delivered message would take the place of the placeholder at the end. -/
theorem adoptsLast_value (earlier : List JobMessage) (last : JobMessage) (session : String)
    (messages : List TurnMessage) :
    AdoptsLast (earlier ++ [last]) (messages.map TurnMessage.value) session ↔
      last.role = "user" ∧ last.sessionId = session ∧ startsWith last.id "followup:" = true ∧
        ∃ message ∈ messages, message.role = "user" ∧ message.spoken = last.text ∧
          textOf (earlier ++ [last]) session message.id = none := by
  have takes : ∀ message : TurnMessage,
      adopts (sessionIndexes (earlier ++ [last]) session) last message.value = true ↔
        message.role = "user" ∧ message.spoken = last.text ∧
          textOf (earlier ++ [last]) session message.id = none := by
    intro message
    have unplaced : ((sessionIndexes (earlier ++ [last]) session).lookup message.id).isNone = true ↔
        textOf (earlier ++ [last]) session message.id = none := by
      rw [isNone_iff_eq_none]
      refine ⟨textOf_eq_none, fun absent => ?_⟩
      cases placed : (sessionIndexes (earlier ++ [last]) session).lookup message.id with
      | none => rfl
      | some i =>
        obtain ⟨_, _, text⟩ := textOf_eq_some placed
        rw [absent] at text
        cases text
    simp only [adopts, isUser_value, value_text, value_id, Option.map_some, Option.any_some,
      Bool.and_eq_true, decide_eq_true_eq, beq_iff_eq, some_inj, unplaced, and_assoc]
    refine and_congr_right fun user => ?_
    rw [TurnMessage.spoken, if_pos user]
  simp only [AdoptsLast, getLast?_concat, Option.some.injEq]
  constructor
  · rintro ⟨pending, rfl, user, here, followup, value, mem, adopting⟩
    obtain ⟨message, delivered, rfl⟩ := mem_map.mp mem
    exact ⟨user, here, followup, message, delivered, (takes message).mp adopting⟩
  · rintro ⟨user, here, followup, message, delivered, adopting⟩
    exact ⟨last, rfl, user, here, followup, _, mem_map_of_mem delivered,
      (takes message).mpr adopting⟩

/-! ## Relabelling -/

/-- Once the placeholder `last` has the identifier of `message`, every delivered message is blank
or recorded, and none would take the place of `last` once more. -/
def OnlyRenames (earlier : List JobMessage) (last : JobMessage) (session : String)
    (messages : List TurnMessage) (message : TurnMessage) : Prop :=
  (∀ m ∈ messages, blank m.spoken = true ∨
    (if m.id = message.id then some last.text else textOf earlier session m.id) =
      some m.spoken) ∧
  (startsWith message.id "followup:" = true → last.role = "user" →
    ∀ m ∈ messages, m.role = "user" → m.spoken = last.text →
      m.id = message.id ∨ textOf earlier session m.id ≠ none)

/-- The conversation ends in a placeholder of the session, the last of the user's delivered
messages with its words has another identifier, and nothing else of the delivery is new. -/
def Relabels (conversation : List JobMessage) (session : String) (messages : List TurnMessage) :
    Prop :=
  ∃ last ∈ conversation.getLast?,
    (startsWith last.id "followup:" = true ∧ last.sessionId = session) ∧
    ∃ message ∈ messages.reverse.find? (fun m => m.role = "user" && m.text = last.text),
      message.id ≠ last.id ∧ OnlyRenames conversation.dropLast last session messages message

instance (earlier : List JobMessage) (last : JobMessage) (session : String)
    (messages : List TurnMessage) (message : TurnMessage) :
    Decidable (OnlyRenames earlier last session messages message) :=
  inferInstanceAs (Decidable (_ ∧ _))

instance (conversation : List JobMessage) (session : String) (messages : List TurnMessage) :
    Decidable (Relabels conversation session messages) :=
  inferInstanceAs (Decidable (∃ _ ∈ _, _))

/-- Nothing is new after the placeholder took the identifier. -/
theorem onlyRenames_iff (here : last.sessionId = session) :
    NothingNew (earlier ++ [{ last with id := message.id }]) (messages.map TurnMessage.value)
        session ↔ OnlyRenames earlier last session messages message := by
  have text : ∀ id, textOf (earlier ++ [{ last with id := message.id }]) session id =
      if id = message.id then some last.text else textOf earlier session id := by
    intro id
    rw [textOf_concat]
    by_cases same : id = message.id
    · rw [if_pos ⟨here, same.symm⟩, if_pos same]
    · rw [if_neg fun both => same both.2.symm, if_neg same]
  have unnamed : ∀ id, (if id = message.id then some last.text else textOf earlier session id) =
      none ↔ ¬ (id = message.id ∨ textOf earlier session id ≠ none) := by
    intro id
    by_cases same : id = message.id
    · simp [same]
    · simp [same]
  constructor
  · rintro ⟨known, settled⟩
    refine ⟨fun m mem => ?_, fun followup user m mem speaks words => ?_⟩
    · have recorded := (known_value _ session m).mp (known _ (mem_map_of_mem mem))
      rwa [text] at recorded
    · rw [adoptsLast_value] at settled
      by_contra new
      refine settled ⟨user, here, followup, m, mem, speaks, words, ?_⟩
      rw [text, unnamed]
      exact new
  · rintro ⟨known, settled⟩
    refine ⟨fun value mem => ?_, fun adopts => ?_⟩
    · obtain ⟨m, delivered, rfl⟩ := mem_map.mp mem
      rw [known_value, text]
      exact known m delivered
    · obtain ⟨user, _, followup, m, mem, speaks, words, new⟩ := (adoptsLast_value ..).mp adopts
      rw [text, unnamed] at new
      exact new (settled followup user m mem speaks words)

theorem placeholderMessage_concat (earlier : List JobMessage) (last : JobMessage)
    (session : String) (messages : List TurnMessage) :
    placeholderMessage (earlier ++ [last]) session messages =
      if startsWith last.id "followup:" = true ∧ last.sessionId = session then
        messages.reverse.find? fun m => m.role = "user" && m.text = last.text
      else none := by
  unfold placeholderMessage
  rw [getLast?_concat, filter_some]
  by_cases here : startsWith last.id "followup:" = true ∧ last.sessionId = session
  · rw [if_pos here, if_pos (by simpa using here), bind_some]
  · rw [if_neg here, if_neg (by simpa using here), bind_none]

/-- The condition on the conversation and the messages is the one under which `attach` renames the
last entry and then records nothing. -/
theorem relabels_iff (job : Job) (session : String) (messages : List TurnMessage) :
    Relabels job.conversation session messages ↔
      adoptedJob job session messages ≠ job ∧
        NothingNew (adoptedJob job session messages).conversation
          (messages.map TurnMessage.value) session := by
  cases eq_nil_or_concat job.conversation with
  | inl empty =>
    have kept : adoptedJob job session messages = job := by
      simp [adoptedJob, placeholderMessage, empty]
    simp [Relabels, empty, kept]
  | inr split =>
    obtain ⟨earlier, last, split⟩ := split
    rw [concat_eq_append] at split
    have takes := placeholderMessage_concat earlier last session messages
    rw [← split] at takes
    by_cases here : startsWith last.id "followup:" = true ∧ last.sessionId = session
    · rw [if_pos here] at takes
      cases found : messages.reverse.find? fun m => m.role = "user" && m.text = last.text with
      | none =>
        have kept : adoptedJob job session messages = job := by
          simp only [adoptedJob, takes, found]
        simp [Relabels, split, found, kept]
      | some message =>
        have adopted : adoptedJob job session messages =
            { job with conversation := earlier ++ [{ last with id := message.id }] } := by
          simp only [adoptedJob, takes, found]
          rw [split, length_append, length_singleton, Nat.add_sub_cancel, modify_last]
        have renamed : adoptedJob job session messages ≠ job ↔ message.id ≠ last.id := by
          rw [adopted]
          refine not_congr ⟨fun same => ?_, fun same => ?_⟩
          · have entries := congrArg Job.conversation same
            simp only [split, append_cancel_left_eq, cons.injEq, and_true] at entries
            exact congrArg JobMessage.id entries
          · rw [same, ← split]
        rw [renamed, adopted, onlyRenames_iff here.2]
        simp [Relabels, split, here, found]
    · rw [if_neg here] at takes
      have kept : adoptedJob job session messages = job := by
        simp only [adoptedJob, takes]
      simp only [Relabels, split, getLast?_concat, Option.mem_def, Option.some.injEq,
        exists_eq_left', here, false_and, kept, ne_eq, not_true_eq_false]

end Agentix.TaskStore
