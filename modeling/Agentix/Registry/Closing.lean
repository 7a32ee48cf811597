import Agentix.Lib.Updates
import Agentix.Registry.Questions

/-! # Questions are asked and closed once

As long as no resolution has been forgotten, a question that is closed is known to be closed, and
the answers that accumulate for an asynchronous one come from accepted inputs.
-/

namespace Agentix.Registry.Questions

open Lib List Option Function Prod

variable {log more : List Entry} {key : String} {request : InteractionRequest}
  {index : Nat} {entry : Entry}

/-! ## Events and inputs -/

/-- Whether an entry is an event about a question. -/
def Entry.about (key : String) : Entry → Bool
  | .requested other _ => other = key
  | .resolved other _ _ => other = key
  | _ => false

def eventsOf (key : String) (log : List Entry) : List Entry := log.filter (Entry.about key)

theorem eventsOf_append : eventsOf key (log ++ more) = eventsOf key log ++ eventsOf key more :=
  filter_append ..

theorem eventsOf_snoc (other : entry.about key = false) :
    eventsOf key (log ++ [entry]) = eventsOf key log := by
  simp [eventsOf, other]

/-- A question has not been asked, or it is pending, or it was closed and that is remembered. -/
inductive AskedOnce (questions : Entries String PendingQuestion) (resolved : List String)
    (log : List Entry) (key : String) : Prop where
  | unasked (events : eventsOf key log = []) (absent : questions.get key = none)
  | pending (question : PendingQuestion)
      (events : eventsOf key log = [.requested key question.request])
      (held : questions.get key = some question)
  | closed (request : InteractionRequest) (accepted : Bool)
      (events : eventsOf key log = [.requested key request, .resolved key request accepted])
      (absent : questions.get key = none) (remembered : key ∈ resolved)

variable {questions : Entries String PendingQuestion} {resolved : List String}
  {connections : Nat → Option Inputs} {inFlight : List (Nat × String)}

/-- Only what is held under the key matters, and what is remembered stays so. -/
theorem AskedOnce.of_same {questions' : Entries String PendingQuestion} {resolved' : List String}
    (once : AskedOnce questions resolved log key) (same : questions'.get key = questions.get key)
    (more : ∀ key ∈ resolved, key ∈ resolved') : AskedOnce questions' resolved' log key := by
  cases once with
  | unasked events absent => exact .unasked events (same.trans absent)
  | pending question events held => exact .pending question events (same.trans held)
  | closed request accepted events absent remembered =>
    exact .closed request accepted events (same.trans absent) (more key remembered)

theorem AskedOnce.snoc (once : AskedOnce questions resolved log key)
    (other : entry.about key = false) : AskedOnce questions resolved (log ++ [entry]) key := by
  have same : eventsOf key (log ++ [entry]) = eventsOf key log := eventsOf_snoc other
  cases once with
  | unasked events absent => exact .unasked (same.trans events) absent
  | pending question events held => exact .pending question (same.trans events) held
  | closed request accepted events absent remembered =>
    exact .closed request accepted (same.trans events) absent remembered

/-! ## Resolutions -/

namespace State

variable {s : State}

theorem remember_spec (kept : s.resolvedQuestions.length = s.resolutions)
    (bounded : (s.rememberResolution key).resolutions ≤ 1024) :
    key ∈ (s.rememberResolution key).resolvedQuestions ∧
      (∀ other ∈ s.resolvedQuestions, other ∈ (s.rememberResolution key).resolvedQuestions) ∧
      (s.rememberResolution key).resolvedQuestions.length =
        (s.rememberResolution key).resolutions := by
  unfold rememberResolution at bounded ⊢
  split
  · rename_i known
    exact ⟨known, fun _ => id, kept⟩
  · rename_i new
    rw [if_neg new] at bounded
    dsimp only at bounded ⊢
    have few : (s.resolvedQuestions ++ [key]).length - 1024 = 0 := by
      rw [length_append, length_singleton]
      omega
    rw [few, drop_zero]
    refine ⟨by simp, fun other mem => mem_append_left _ mem, ?_⟩
    rw [length_append, length_singleton, kept]

theorem resolutions_remember : s.resolutions ≤ (s.rememberResolution key).resolutions := by
  unfold rememberResolution
  split
  · exact Nat.le_refl _
  · exact Nat.le_succ _

section Fields

variable (s key)

@[simp] theorem rememberResolution_questions :
    (s.rememberResolution key).questions = s.questions := by
  unfold rememberResolution
  split <;> rfl

@[simp] theorem rememberResolution_connections :
    (s.rememberResolution key).connections = s.connections := by
  unfold rememberResolution
  split <;> rfl

@[simp] theorem rememberResolution_inFlight :
    (s.rememberResolution key).inFlight = s.inFlight := by
  unfold rememberResolution
  split <;> rfl

@[simp] theorem rememberResolution_log : (s.rememberResolution key).log = s.log := by
  unfold rememberResolution
  split <;> rfl

@[simp] theorem rememberResolution_lifecycle :
    (s.rememberResolution key).lifecycle = s.lifecycle := by
  unfold rememberResolution
  split <;> rfl

end Fields

theorem publish_suffix [Text]
    (published : s.lifecycle.map snd <:+ s.log.filterMap Entry.event) :
    (s.publish entry).lifecycle.map snd <:+ (s.publish entry).log.filterMap Entry.event := by
  have whole : (s.lifecycle ++
      (entry.event.map fun event => (s.sequence + 1, event)).toList).map snd <:+
        (s.note entry).log.filterMap Entry.event := by
    rw [note, map_append, filterMap_append]
    have last : (entry.event.map fun event => (s.sequence + 1, event)).toList.map snd =
        [entry].filterMap Entry.event := by
      cases event : entry.event <;> simp [event]
    rw [last]
    obtain ⟨dropped, same⟩ := published
    exact ⟨dropped, by rw [← same, append_assoc]⟩
  unfold publish
  dsimp only
  rw [map_drop]
  exact (drop_suffix _ _).trans whole

/-- The inputs of a connection are kept under one id less. -/
def without (s : State) (connection : Nat) (inputs : Inputs) (id : String) : State :=
  { s with connections := update s.connections connection (some (update inputs id none)) }

theorem without_taken {connection : Nat} {inputs : Inputs} {id : String} :
    ∀ inputs', (s.without connection inputs id).connections connection = some inputs' →
      inputs' id = none := by
  intro inputs' here
  dsimp only [without] at here
  rw [update_self, some.injEq] at here
  rw [← here, update_self]

section Accept

variable [Text] {answer : SubmittedAnswers}

variable {value : Json} {connection : Nat}

theorem log_acceptAnswers : ∃ more, (s.acceptAnswers answer).log = s.log ++ more := by
  unfold acceptAnswers
  split
  · exact ⟨[], (append_nil _).symm⟩
  · rename_i question _
    dsimp only
    split
    · exact ⟨[.resolved answer.key question.request true], by simp [close, publish, note]⟩
    · exact ⟨[], (append_nil _).symm⟩

theorem resolutions_acceptAnswers : s.resolutions ≤ (s.acceptAnswers answer).resolutions := by
  unfold acceptAnswers
  split
  · exact Nat.le_refl _
  · dsimp only
    split
    · exact resolutions_remember (s := { s with questions := s.questions.delete answer.key })
    · exact Nat.le_refl _

theorem resolutions_foldl (answers : List SubmittedAnswers) :
    s.resolutions ≤ (answers.foldl acceptAnswers s).resolutions := by
  induction answers generalizing s with
  | nil => exact Nat.le_refl _
  | cons answer answers ih =>
    exact resolutions_acceptAnswers.trans ih

theorem connections_foldl (answers : List SubmittedAnswers) :
    (answers.foldl acceptAnswers s).connections = s.connections := by
  induction answers generalizing s with
  | nil => rfl
  | cons answer answers ih =>
    refine ih.trans ?_
    unfold acceptAnswers
    split
    · rfl
    · dsimp only
      split
      · exact rememberResolution_connections ..
      · rfl

/-- Nothing is kept under the id of a response. -/
theorem observesAcceptance_taken {id : Json} (named : value.get? "id" = some id) :
    ∀ inputs, (s.observeAsyncQuestionAcceptance connection value).connections connection =
      some inputs → inputs (toText id) = none := by
  unfold observeAsyncQuestionAcceptance
  rw [named]
  dsimp only
  split
  · rename_i gone
    intro inputs here
    rw [show (s.note _).connections connection = none from gone] at here
    cases here
  · rename_i inputs found
    split
    · rename_i unknown
      intro inputs' here
      obtain rfl := some.inj (found.symm.trans here)
      exact unknown
    · rename_i answers held
      split
      · rw [connections_foldl]
        exact without_taken
      · exact without_taken

theorem resolutions_close {question : PendingQuestion} {accepted : Bool} :
    s.resolutions ≤ (s.close key question accepted).resolutions :=
  resolutions_remember (s := { s with questions := s.questions.delete key })

theorem resolutions_interaction {request : InteractionRequest} :
    (s.observeInteraction connection request).resolutions = s.resolutions := by
  unfold observeInteraction
  dsimp only
  split
  · rfl
  · split <;> rfl

theorem resolutions_frame {method : String} :
    s.resolutions ≤ (s.observeQuestionFrame connection method value).resolutions := by
  unfold observeQuestionFrame observeResolution
  split
  · exact Nat.le_refl _
  · split
    · exact Nat.le_refl _
    · split
      · exact Nat.le_of_eq resolutions_interaction.symm
      · split
        · exact Nat.le_refl _
        · split
          · exact Nat.le_refl _
          · exact resolutions_close
      · exact Nat.le_refl _

theorem resolutions_answer :
    s.resolutions ≤ (s.observeQuestionAnswer connection value).resolutions := by
  unfold observeQuestionAnswer
  split
  · exact Nat.le_refl _
  · split
    · exact Nat.le_refl _
    · split
      · exact Nat.le_refl _
      · split
        · exact resolutions_close
        · exact Nat.le_refl _

theorem resolutions_complete {id : Json} :
    s.resolutions ≤ (s.completeQuestion id).resolutions := by
  unfold completeQuestion
  dsimp only
  split
  · exact resolutions_remember
  · exact resolutions_close

theorem resolutions_acceptance :
    s.resolutions ≤ (s.observeAsyncQuestionAcceptance connection value).resolutions := by
  unfold observeAsyncQuestionAcceptance
  split
  · exact Nat.le_refl _
  · dsimp only
    split
    · exact Nat.le_refl _
    · split
      · exact Nat.le_refl _
      · split
        · rename_i inputs _ _ answers _ _
          exact resolutions_foldl answers
            (s := (s.without connection inputs _).note (.responded connection _ _))
        · exact Nat.le_refl _

theorem resolutions_receives :
    (s.receives connection value).resolutions = s.resolutions := by
  unfold State.receives
  split <;> rfl

theorem resolutions_sends :
    (s.sends connection value).resolutions = s.resolutions := by
  unfold State.sends
  split <;> rfl

theorem resolutions_input [Values] {order : List String} :
    (s.observeAsyncQuestionInput connection value order).resolutions = s.resolutions := by
  unfold observeAsyncQuestionInput submit
  split
  · dsimp only
    split <;> rfl
  · rfl

theorem resolutions_step [Values] {s' : State} {label : Label} (going : label ≠ .reset)
    (next : s.step label = some s') : s.resolutions ≤ s'.resolutions := by
  cases label with
  | connect => cases next; exact Nat.le_refl _
  | disconnect connection => cases next; exact Nat.le_refl _
  | frame connection method value => cases next; exact resolutions_frame
  | answer connection value => cases next; exact resolutions_answer
  | input connection value order =>
    dsimp only [State.step] at next
    split at next <;> cases next
    exact Nat.le_of_eq (resolutions_input.trans resolutions_sends).symm
  | request connection value => cases next; exact Nat.le_of_eq resolutions_sends.symm
  | response connection value =>
    cases next
    exact resolutions_acceptance.trans (Nat.le_of_eq resolutions_receives.symm)
  | complete id => cases next; exact resolutions_complete
  | reset => exact absurd rfl going

end Accept

end State

/-! ## Questions and inputs -/

theorem mem_answeredIndices {questions : List Json} {answers : Json → Bool}
    (mem : index ∈ answeredIndices questions answers) : index < questions.length :=
  mem_range.mp (mem_of_mem_filter mem)

variable [Values]

/-- An input with an answer to the question was accepted: its connection had observed the question
when it was submitted, and the first response to it accepts it. -/
def AcceptedInput (log : List Entry) (key : String) (request : InteractionRequest) (index : Nat) :
    Prop :=
  ∃ before between after connection id text,
    log = before ++ .submitted connection id request.sessionId text ::
      (between ++ .responded connection id true :: after) ∧
    .sent connection id ∉ between ∧ (∀ accepted, .responded connection id accepted ∉ between) ∧
    .observed connection key ∈ before ∧ index ∈ asyncQuestionAnswers request text

theorem AcceptedInput.append (accepted : AcceptedInput log key request index) :
    AcceptedInput (log ++ more) key request index := by
  obtain ⟨before, between, after, connection, id, text, same, rest⟩ := accepted
  refine ⟨before, between, after ++ more, connection, id, text, ?_, rest⟩
  rw [same]
  simp

/-- The answers of an input whose response has not come. -/
def Snapshot (log : List Entry) (connection : Nat) (id : String)
    (answers : List SubmittedAnswers) : Prop :=
  ∃ before between thread text,
    log = before ++ .submitted connection id thread text :: between ∧
    .sent connection id ∉ between ∧ (∀ accepted, .responded connection id accepted ∉ between) ∧
    ∀ answer ∈ answers, .observed connection answer.key ∈ before ∧
      ∃ request, .requested answer.key request ∈ before ∧ request.sessionId = thread ∧
        answer.indices = asyncQuestionAnswers request text

theorem Snapshot.snoc {connection : Nat} {id : String} {answers : List SubmittedAnswers}
    (snapshot : Snapshot log connection id answers) (unsent : entry ≠ .sent connection id)
    (open_ : ∀ accepted, entry ≠ .responded connection id accepted) :
    Snapshot (log ++ [entry]) connection id answers := by
  obtain ⟨before, between, thread, text, same, quiet, waiting, known⟩ := snapshot
  refine ⟨before, between ++ [entry], thread, text, ?_, ?_, ?_, known⟩
  · rw [same]
    simp
  · simpa [quiet] using unsent.symm
  · intro accepted
    simpa [waiting accepted] using (open_ accepted).symm

/-! ## Invariants -/

structure Asked (questions : Entries String PendingQuestion) (resolved : List String)
    (log : List Entry) : Prop where
  distinct : (questions.map fst).Nodup
  once : ∀ key, AskedOnce questions resolved log key
  observed : ∀ {key question}, questions.get key = some question →
    ∀ connection ∈ question.connections, .observed connection key ∈ log
  answered : ∀ {key question}, questions.get key = some question →
    ∀ index ∈ question.answered, index < questionCount question.request ∧
      AcceptedInput log key question.request index

def Submitted (connections : Nat → Option Inputs) (inFlight : List (Nat × String))
    (log : List Entry) : Prop :=
  ∀ connection inputs id answers, connections connection = some inputs →
    inputs id = some answers → Snapshot log connection id answers ∧ (connection, id) ∈ inFlight

/-- Accepted inputs close a question once they answer all of it. -/
def Justified (log : List Entry) : Prop :=
  ∀ before after key request, log = before ++ .resolved key request true :: after →
    ∀ index < questionCount request, AcceptedInput before key request index

/-- Something that is not an event about a question. -/
theorem Asked.snoc (asked : Asked questions resolved log) (other : ∀ key, entry.about key = false) :
    Asked questions resolved (log ++ [entry]) where
  distinct := asked.distinct
  once key := (asked.once key).snoc (other key)
  observed held connection mem := mem_append_left _ (asked.observed held connection mem)
  answered held index mem := by
    obtain ⟨small, accepted⟩ := asked.answered held index mem
    exact ⟨small, accepted.append⟩

section Asked

variable {resolved' : List String} {question question' : PendingQuestion} {connection : Nat}

theorem Asked.remembers (asked : Asked questions resolved log)
    (more : ∀ key ∈ resolved, key ∈ resolved') : Asked questions resolved' log where
  distinct := asked.distinct
  once key := (asked.once key).of_same rfl more
  observed := asked.observed
  answered := asked.answered

theorem Asked.asks (asked : Asked questions resolved log) (absent : questions.get key = none)
    (fresh : key ∉ resolved) (seen : .observed connection key ∈ log) :
    Asked (questions.set key ⟨request, {connection}, ∅⟩) resolved
      (log ++ [.requested key request]) where
  distinct := Entries.nodup_set asked.distinct
  once other := by
    by_cases same : other = key
    · subst same
      have events : eventsOf other log = [] := by
        cases asked.once other with
        | unasked events _ => exact events
        | pending question _ held =>
          rw [absent] at held
          cases held
        | closed _ _ _ _ remembered => exact absurd remembered fresh
      refine .pending ⟨request, {connection}, ∅⟩ ?_ Entries.get_set_self
      rw [eventsOf_append, events]
      simp [eventsOf, Entry.about]
    · have quiet : Entry.about other (.requested key request) = false := by
        simpa [Entry.about] using Ne.symm same
      exact ((asked.once other).snoc quiet).of_same (Entries.get_set_of_ne same) fun _ => id
  observed := by
    intro other question held observer mem
    apply mem_append_left
    by_cases same : other = key
    · subst same
      rw [Entries.get_set_self, some.injEq] at held
      subst held
      rw [Finset.mem_singleton.mp mem]
      exact seen
    · rw [Entries.get_set_of_ne same] at held
      exact asked.observed held observer mem
  answered := by
    intro other question held index mem
    by_cases same : other = key
    · subst same
      rw [Entries.get_set_self, some.injEq] at held
      subst held
      cases mem
    · rw [Entries.get_set_of_ne same] at held
      obtain ⟨small, accepted⟩ := asked.answered held index mem
      exact ⟨small, accepted.append⟩

theorem Asked.updates (asked : Asked questions resolved log)
    (held : questions.get key = some question) (request : question'.request = question.request)
    (observed : ∀ connection ∈ question'.connections, .observed connection key ∈ log)
    (answered : ∀ index ∈ question'.answered, index < questionCount question.request ∧
      AcceptedInput log key question.request index) :
    Asked (questions.set key question') resolved log where
  distinct := Entries.nodup_set asked.distinct
  once other := by
    by_cases same : other = key
    · subst same
      cases asked.once other with
      | unasked _ absent =>
        rw [held] at absent
        cases absent
      | pending question events held' =>
        obtain rfl := some.inj (held'.symm.trans held)
        exact .pending question' (request ▸ events) Entries.get_set_self
      | closed _ _ _ absent _ =>
        rw [held] at absent
        cases absent
    · exact (asked.once other).of_same (Entries.get_set_of_ne same) fun _ => id
  observed := by
    intro other question here observer mem
    by_cases same : other = key
    · subst same
      rw [Entries.get_set_self, some.injEq] at here
      subst here
      exact observed observer mem
    · rw [Entries.get_set_of_ne same] at here
      exact asked.observed here observer mem
  answered := by
    intro other question here index mem
    by_cases same : other = key
    · subst same
      rw [Entries.get_set_self, some.injEq] at here
      subst here
      rw [request]
      exact answered index mem
    · rw [Entries.get_set_of_ne same] at here
      exact asked.answered here index mem

theorem Asked.closes {accepted : Bool} (asked : Asked questions resolved log)
    (held : questions.get key = some question) (more : ∀ key ∈ resolved, key ∈ resolved')
    (remembered : key ∈ resolved') : Asked (questions.delete key) resolved'
      (log ++ [.resolved key question.request accepted]) where
  distinct := Entries.nodup_delete asked.distinct
  once other := by
    by_cases same : other = key
    · subst same
      have events : eventsOf other log = [.requested other question.request] := by
        cases asked.once other with
        | unasked _ absent =>
          rw [held] at absent
          cases absent
        | pending question events held' =>
          obtain rfl := some.inj (held'.symm.trans held)
          exact events
        | closed _ _ _ absent _ =>
          rw [held] at absent
          cases absent
      refine .closed question.request accepted ?_ (Entries.get_delete_self asked.distinct) remembered
      rw [eventsOf_append, events]
      simp [eventsOf, Entry.about]
    · have quiet : Entry.about other (.resolved key question.request accepted) = false := by
        simpa [Entry.about] using Ne.symm same
      exact ((asked.once other).snoc quiet).of_same (Entries.get_delete_of_ne same) more
  observed := by
    intro other question here observer mem
    apply mem_append_left
    by_cases same : other = key
    · subst same
      rw [Entries.get_delete_self asked.distinct] at here
      cases here
    · rw [Entries.get_delete_of_ne same] at here
      exact asked.observed here observer mem
  answered := by
    intro other question here index mem
    by_cases same : other = key
    · subst same
      rw [Entries.get_delete_self asked.distinct] at here
      cases here
    · rw [Entries.get_delete_of_ne same] at here
      obtain ⟨small, accepted⟩ := asked.answered here index mem
      exact ⟨small, accepted.append⟩

end Asked

theorem Submitted.snoc (submitted : Submitted connections inFlight log)
    (apart : ∀ connection inputs id answers, connections connection = some inputs →
      inputs id = some answers → entry ≠ .sent connection id ∧
        ∀ accepted, entry ≠ .responded connection id accepted) :
    Submitted connections inFlight (log ++ [entry]) := by
  intro connection inputs id answers here held
  obtain ⟨snapshot, flying⟩ := submitted connection inputs id answers here held
  obtain ⟨unsent, open_⟩ := apart connection inputs id answers here held
  exact ⟨snapshot.snoc unsent open_, flying⟩

theorem Justified.snoc (justified : Justified log)
    (last : ∀ key request, entry = .resolved key request true →
      ∀ index < questionCount request, AcceptedInput log key request index) :
    Justified (log ++ [entry]) := by
  intro before after key request split
  obtain ⟨-, rfl, same⟩ | ⟨after', -, split⟩ := split_snoc split
  · exact last key request same
  · exact justified before after' key request split

/-- The answers of an input that was accepted. -/
def Credits (log : List Entry) (answer : SubmittedAnswers) : Prop :=
  ∃ request, .requested answer.key request ∈ log ∧ ∀ index ∈ answer.indices,
    index < questionCount request ∧ AcceptedInput log answer.key request index

theorem Credits.append {answer : SubmittedAnswers} (credits : Credits log answer) :
    Credits (log ++ more) answer := by
  obtain ⟨request, asked, answers⟩ := credits
  refine ⟨request, mem_append_left _ asked, fun index mem => ?_⟩
  obtain ⟨small, accepted⟩ := answers index mem
  exact ⟨small, accepted.append⟩

theorem lt_questionCount {text : String} (mem : index ∈ asyncQuestionAnswers request text) :
    index < questionCount request := by
  unfold asyncQuestionAnswers at mem
  cases held : questionsOf request with
  | none =>
    rw [held] at mem
    cases mem
  | some questions =>
    rw [held] at mem
    rw [questionCount, held]
    dsimp only at mem
    split at mem
    · split at mem
      · exact mem_answeredIndices mem
      · cases mem
    · exact mem_answeredIndices mem

/-- The response that accepts an input credits its answers. -/
theorem Snapshot.credits {connection : Nat} {id : String} {answers : List SubmittedAnswers}
    (snapshot : Snapshot log connection id answers) :
    ∀ answer ∈ answers, Credits (log ++ [.responded connection id true]) answer := by
  intro answer mem
  obtain ⟨before, between, thread, text, rfl, unsent, waiting, known⟩ := snapshot
  obtain ⟨observed, request, asked, rfl, indices⟩ := known answer mem
  refine ⟨request, by simp [asked], fun index answered => ?_⟩
  rw [indices] at answered
  exact ⟨lt_questionCount answered, before, between, [], connection, id, text, by simp, unsent,
    waiting, observed, answered⟩

theorem asked_nil : Asked [] [] [] where
  distinct := .nil
  once _ := .unasked rfl rfl
  observed held := by cases held
  answered held := by cases held

theorem justified_nil : Justified [] := by
  intro before after key request split
  cases before <;> cases split

/-! ## Calls -/

variable [Text] {s : State} {question : PendingQuestion} {connection : Nat}

structure State.Sound (s : State) : Prop where
  kept : s.resolvedQuestions.length = s.resolutions
  asked : Asked s.questions s.resolvedQuestions s.log
  submitted : Submitted s.connections s.inFlight s.log
  justified : Justified s.log
  published : s.lifecycle.map snd <:+ s.log.filterMap Entry.event

namespace State

variable {value : Json} {id : String}

theorem Sound.notes (sound : s.Sound) (other : ∀ key, entry.about key = false)
    (silent : entry.event = none)
    (apart : ∀ connection inputs id answers, s.connections connection = some inputs →
      inputs id = some answers → entry ≠ .sent connection id ∧
        ∀ accepted, entry ≠ .responded connection id accepted) : (s.note entry).Sound where
  kept := sound.kept
  asked := sound.asked.snoc other
  submitted := sound.submitted.snoc apart
  justified := sound.justified.snoc fun key request same => by
    subst same
    have about := other key
    simp [Entry.about] at about
  published := by
    show s.lifecycle.map snd <:+ (s.log ++ [entry]).filterMap Entry.event
    rw [filterMap_append]
    simpa [silent] using sound.published

theorem Sound.remembers (sound : s.Sound)
    (bounded : (s.rememberResolution key).resolutions ≤ 1024) :
    (s.rememberResolution key).Sound := by
  obtain ⟨-, more, kept⟩ := remember_spec sound.kept bounded
  constructor
  · exact kept
  · rw [rememberResolution_questions, rememberResolution_log]
    exact sound.asked.remembers more
  · rw [rememberResolution_connections, rememberResolution_inFlight, rememberResolution_log]
    exact sound.submitted
  · rw [rememberResolution_log]
    exact sound.justified
  · rw [rememberResolution_log, rememberResolution_lifecycle]
    exact sound.published

theorem Sound.closes {accepted : Bool} (sound : s.Sound)
    (held : s.questions.get key = some question)
    (bounded : (s.close key question accepted).resolutions ≤ 1024)
    (justified : accepted = true → ∀ index < questionCount question.request,
      AcceptedInput s.log key question.request index) : (s.close key question accepted).Sound := by
  let left : State := { s with questions := s.questions.delete key }
  obtain ⟨known, more, kept⟩ := @remember_spec key left sound.kept bounded
  constructor
  · exact kept
  · show Asked (left.rememberResolution key).questions
      (left.rememberResolution key).resolvedQuestions ((left.rememberResolution key).log ++ [_])
    rw [rememberResolution_questions, rememberResolution_log]
    exact sound.asked.closes held more known
  · show Submitted (left.rememberResolution key).connections (left.rememberResolution key).inFlight
      ((left.rememberResolution key).log ++ [_])
    rw [rememberResolution_connections, rememberResolution_inFlight, rememberResolution_log]
    exact sound.submitted.snoc fun _ _ _ _ _ _ => ⟨by simp, by simp⟩
  · show Justified ((left.rememberResolution key).log ++ [_])
    rw [rememberResolution_log]
    refine sound.justified.snoc fun other request same => ?_
    obtain ⟨rfl, rfl, rfl⟩ := Entry.resolved.inj same
    exact justified rfl
  · apply publish_suffix
    rw [rememberResolution_lifecycle, rememberResolution_log]
    exact sound.published

theorem Sound.observesInteraction {request : InteractionRequest} (sound : s.Sound) :
    (s.observeInteraction connection request).Sound := by
  have noted : (s.note (.observed connection (toText request.rpcId))).Sound :=
    sound.notes (by simp [Entry.about]) rfl fun _ _ _ _ _ _ => ⟨by simp, by simp⟩
  have seen : .observed connection (toText request.rpcId) ∈
      (s.note (.observed connection (toText request.rpcId))).log :=
    mem_append_right _ (mem_singleton_self _)
  unfold observeInteraction
  dsimp only
  split
  · exact noted
  · rename_i fresh
    split
    · rename_i question held
      refine { noted with asked := noted.asked.updates held rfl ?_ fun index mem =>
        noted.asked.answered held index mem }
      intro observer mem
      obtain rfl | earlier := Finset.mem_insert.mp mem
      · exact seen
      · exact noted.asked.observed held observer earlier
    · rename_i absent
      refine ⟨noted.kept, noted.asked.asks absent fresh seen, ?_, ?_, publish_suffix noted.published⟩
      · exact noted.submitted.snoc fun _ _ _ _ _ _ => ⟨by simp, by simp⟩
      · exact noted.justified.snoc fun _ _ same => by cases same

theorem Sound.observesResolution (sound : s.Sound) :
    (s.observeResolution value).resolutions ≤ 1024 → (s.observeResolution value).Sound := by
  unfold observeResolution
  split
  · exact fun _ => sound
  · split
    · exact fun _ => sound
    · rename_i held
      exact fun bounded => sound.closes held bounded fun accepted => by cases accepted

theorem Sound.observesFrame {method : String} (sound : s.Sound) :
    (s.observeQuestionFrame connection method value).resolutions ≤ 1024 →
      (s.observeQuestionFrame connection method value).Sound := by
  unfold observeQuestionFrame
  split
  · exact fun _ => sound
  · split
    · exact fun _ => sound
    · split
      · exact fun _ => sound.observesInteraction
      · exact sound.observesResolution
      · exact fun _ => sound

theorem Sound.observesAnswer (sound : s.Sound) :
    (s.observeQuestionAnswer connection value).resolutions ≤ 1024 →
      (s.observeQuestionAnswer connection value).Sound := by
  unfold observeQuestionAnswer
  split
  · exact fun _ => sound
  · split
    · exact fun _ => sound
    · split
      · exact fun _ => sound
      · rename_i held
        split
        · exact fun bounded => sound.closes held bounded fun accepted => by cases accepted
        · exact fun _ => sound

theorem Sound.completes {id : Json} (sound : s.Sound) :
    (s.completeQuestion id).resolutions ≤ 1024 → (s.completeQuestion id).Sound := by
  unfold completeQuestion
  dsimp only
  split
  · exact sound.remembers
  · rename_i held
    exact fun bounded => sound.closes held bounded fun accepted => by cases accepted

/-! ## Inputs and their responses -/

theorem submittedAnswers_known {thread text : String} {order : List String} (sound : s.Sound) :
    ∀ answer ∈ s.submittedAnswers connection thread text order,
      .observed connection answer.key ∈ s.log ∧
        ∃ request, .requested answer.key request ∈ s.log ∧ request.sessionId = thread ∧
          answer.indices = asyncQuestionAnswers request text := by
  intro answer mem
  obtain ⟨key, -, found⟩ := mem_filterMap.mp mem
  obtain ⟨question, held, found⟩ := bind_eq_some_iff.mp found
  split at found
  · rename_i here
    dsimp only at found
    split at found <;> cases found
    refine ⟨sound.asked.observed held connection here.2, question.request, ?_, here.1, rfl⟩
    have event : .requested key question.request ∈ eventsOf key s.log := by
      cases sound.asked.once key with
      | unasked _ absent =>
        rw [held] at absent
        cases absent
      | pending question' events held' =>
        obtain rfl := some.inj (held'.symm.trans held)
        simp [events]
      | closed _ _ _ absent _ =>
        rw [held] at absent
        cases absent
    exact mem_of_mem_filter event
  · cases found

theorem Sound.sends (sound : s.Sound)
    (fresh : ∀ id, Registry.requestId value = some id → (connection, toText id) ∉ s.inFlight) :
    (s.sends connection value).Sound := by
  unfold State.sends
  split
  · exact sound
  · rename_i id named
    let flying : State := { s with inFlight := (connection, toText id) :: s.inFlight }
    have more : flying.Sound := by
      refine { sound with submitted := fun other inputs id' answers here held => ?_ }
      obtain ⟨snapshot, earlier⟩ := sound.submitted other inputs id' answers here held
      exact ⟨snapshot, mem_cons_of_mem _ earlier⟩
    -- no input in flight has this id
    refine more.notes (by simp [Entry.about]) rfl fun other inputs id' answers here held => ?_
    refine ⟨fun same => ?_, by simp⟩
    obtain ⟨rfl, rfl⟩ := Entry.sent.inj same
    exact fresh id named (sound.submitted _ inputs _ answers here held).2

theorem Sound.submits {thread text : String} {answers : List SubmittedAnswers} (sound : s.Sound)
    (flying : (connection, id) ∈ s.inFlight)
    (known : ∀ answer ∈ answers, .observed connection answer.key ∈ s.log ∧ ∃ request,
      .requested answer.key request ∈ s.log ∧ request.sessionId = thread ∧
      answer.indices = asyncQuestionAnswers request text) :
    ((s.submit connection id answers).note (.submitted connection id thread text)).Sound := by
  have noted : (s.note (.submitted connection id thread text)).Sound :=
    sound.notes (by simp [Entry.about]) rfl fun _ _ _ _ _ _ => ⟨by simp, by simp⟩
  unfold submit
  split
  · exact noted
  · rename_i inputs found
    refine { noted with submitted := fun other inputs' id' answers' here held => ?_ }
    by_cases same : other = connection
    · subst same
      dsimp only [note] at here
      rw [update_self, some.injEq] at here
      subst here
      by_cases named : id' = id
      · subst named
        rw [update_self] at held
        split at held
        · cases held
        · cases held
          exact ⟨⟨s.log, [], thread, text, rfl, by simp, by simp, known⟩, flying⟩
      · rw [update_of_ne named] at held
        exact noted.submitted other inputs id' answers' found held
    · dsimp only [note] at here
      rw [update_of_ne same] at here
      exact noted.submitted other inputs' id' answers' here held

theorem Sound.observesInput {order : List String} (sound : s.Sound)
    (flying : ∀ id, Registry.requestId value = some id → (connection, toText id) ∈ s.inFlight) :
    (s.observeAsyncQuestionInput connection value order).Sound := by
  unfold observeAsyncQuestionInput
  split
  · rename_i named _ _
    exact sound.submits (flying _ named) (submittedAnswers_known sound)
  · exact sound

theorem Sound.acceptsAnswers {answer : SubmittedAnswers} (sound : s.Sound)
    (credits : Credits s.log answer) :
    (s.acceptAnswers answer).resolutions ≤ 1024 → (s.acceptAnswers answer).Sound := by
  unfold acceptAnswers
  split
  · exact fun _ => sound
  · rename_i question held
    obtain ⟨request, asked, credited⟩ := credits
    have same : request = question.request := by
      have event : .requested answer.key request ∈ eventsOf answer.key s.log :=
        mem_filter.mpr ⟨asked, by simp [Entry.about]⟩
      cases sound.asked.once answer.key with
      | unasked _ absent =>
        rw [held] at absent
        cases absent
      | pending question' events held' =>
        obtain rfl := some.inj (held'.symm.trans held)
        rw [events, mem_singleton] at event
        exact (Entry.requested.inj event).2
      | closed _ _ _ absent _ =>
        rw [held] at absent
        cases absent
    subst same
    have all : ∀ index ∈ question.answered ∪ answer.indices.toFinset,
        index < questionCount question.request ∧
          AcceptedInput s.log answer.key question.request index := by
      intro index mem
      obtain earlier | new := Finset.mem_union.mp mem
      · exact sound.asked.answered held index earlier
      · exact credited index (mem_toFinset.mp new)
    dsimp only
    split
    · rename_i complete
      have whole : question.answered ∪ answer.indices.toFinset =
          Finset.range (questionCount question.request) := by
        apply Finset.eq_of_subset_of_card_le
        · exact fun index mem => Finset.mem_range.mpr (all index mem).1
        · rw [Finset.card_range, complete.2]
      have closed : (s.close answer.key question true).resolutions ≤ 1024 →
          (s.close answer.key question true).Sound := by
        refine fun bounded => sound.closes held bounded fun _ index small => ?_
        exact (all index (whole ▸ Finset.mem_range.mpr small)).2
      exact closed
    · let updated : PendingQuestion :=
        { question with answered := question.answered ∪ answer.indices.toFinset }
      have asked : Asked (s.questions.set answer.key updated) s.resolvedQuestions s.log :=
        sound.asked.updates held rfl (fun _ => sound.asked.observed held _) all
      exact fun _ => { sound with asked }

theorem Sound.acceptsAll {answers : List SubmittedAnswers} (sound : s.Sound)
    (credits : ∀ answer ∈ answers, Credits s.log answer) :
    (answers.foldl acceptAnswers s).resolutions ≤ 1024 → (answers.foldl acceptAnswers s).Sound := by
  induction answers generalizing s with
  | nil => exact fun _ => sound
  | cons answer answers ih =>
    intro bounded
    have first := sound.acceptsAnswers (credits answer mem_cons_self)
      ((resolutions_foldl answers).trans bounded)
    refine ih first (fun other mem => ?_) bounded
    obtain ⟨more, grown⟩ := @log_acceptAnswers s _ answer
    rw [grown]
    exact (credits other (mem_cons_of_mem _ mem)).append

theorem Sound.responds {accepted : Bool} (sound : s.Sound)
    (taken : ∀ inputs, s.connections connection = some inputs → inputs id = none) :
    (s.note (.responded connection id accepted)).Sound := by
  refine sound.notes (by simp [Entry.about]) rfl fun other inputs id' answers here held => ?_
  refine ⟨by simp, fun _ same => ?_⟩
  obtain ⟨rfl, rfl, -⟩ := Entry.responded.inj same
  rw [taken inputs here] at held
  cases held

theorem Sound.takes {inputs : Inputs} (sound : s.Sound)
    (found : s.connections connection = some inputs) : (s.without connection inputs id).Sound := by
  refine { sound with submitted := fun other inputs' id' answers here held => ?_ }
  dsimp only [without] at here
  by_cases same : other = connection
  · subst same
    rw [update_self, some.injEq] at here
    subst here
    by_cases named : id' = id
    · subst named
      rw [update_self] at held
      cases held
    · rw [update_of_ne named] at held
      exact sound.submitted other inputs id' answers found held
  · rw [update_of_ne same] at here
    exact sound.submitted other inputs' id' answers here held

theorem Sound.observesAcceptance (sound : s.Sound) :
    (s.observeAsyncQuestionAcceptance connection value).resolutions ≤ 1024 →
      (s.observeAsyncQuestionAcceptance connection value).Sound := by
  unfold observeAsyncQuestionAcceptance
  split
  · exact fun _ => sound
  · rename_i id _
    dsimp only
    split
    · rename_i gone
      exact fun _ => sound.responds fun inputs here => by rw [gone] at here; cases here
    · rename_i inputs found
      split
      · rename_i unknown
        refine fun _ => sound.responds fun inputs' here => ?_
        obtain rfl := some.inj (found.symm.trans here)
        exact unknown
      · rename_i answers held
        have taken : ((s.without connection inputs (toText id)).note
            (.responded connection (toText id) (accepts value))).Sound :=
          (sound.takes found).responds without_taken
        split
        · rename_i accepted
          refine taken.acceptsAll fun answer mem => ?_
          rw [accepted]
          exact (sound.submitted connection inputs _ answers found held).1.credits answer mem
        · exact fun _ => taken

/-! ## Steps -/

theorem Sound.receives (sound : s.Sound)
    (taken : ∀ id, value.get? "id" = some id → ∀ inputs, s.connections connection = some inputs →
      inputs (toText id) = none) :
    (s.receives connection value).Sound := by
  unfold State.receives
  split
  · exact sound
  · rename_i id named
    refine { sound with submitted := fun other inputs id' answers here held => ?_ }
    obtain ⟨snapshot, flying⟩ := sound.submitted other inputs id' answers here held
    refine ⟨snapshot, mem_filter.mpr ⟨flying, ?_⟩⟩
    simp only [ne_eq, decide_not, Bool.not_eq_eq_eq_not, Bool.not_true, decide_eq_false_iff_not]
    intro same
    obtain ⟨rfl, rfl⟩ := Prod.mk.inj same
    rw [taken id named inputs here] at held
    cases held

theorem Sound.connects (sound : s.Sound) : s.connect.Sound := by
  refine { sound with submitted := fun other inputs id answers here held => ?_ }
  dsimp only [State.connect] at here
  obtain ⟨-, rfl⟩ | ⟨-, here⟩ := of_update_some here
  · cases held
  · exact sound.submitted other inputs id answers here held

theorem Sound.disconnects (sound : s.Sound) : (s.disconnect connection).Sound := by
  refine { sound with submitted := fun other inputs id answers here held => ?_ }
  dsimp only [State.disconnect] at here
  obtain ⟨same, here⟩ := of_update_none here
  obtain ⟨snapshot, flying⟩ := sound.submitted other inputs id answers here held
  exact ⟨snapshot, mem_filter.mpr ⟨flying, by simpa using same⟩⟩

theorem sound_reset (s : State) : s.resetQuestions.Sound where
  kept := rfl
  asked := asked_nil
  submitted connection inputs id answers here held := by
    obtain ⟨_, -, rfl⟩ := map_eq_some_iff.mp here
    cases held
  justified := justified_nil
  published := suffix_refl _

theorem sound_start : State.start.Sound where
  kept := rfl
  asked := asked_nil
  submitted _ _ _ _ here _ := by cases here
  justified := justified_nil
  published := suffix_refl _

theorem Sound.step {s' : State} {label : Label} (sound : s.Sound) (fresh : s.Fresh label)
    (next : s.step label = some s') (bounded : s'.resolutions ≤ 1024) : s'.Sound := by
  cases label with
  | connect =>
    cases next
    exact sound.connects
  | disconnect connection =>
    cases next
    exact sound.disconnects
  | frame connection method value =>
    cases next
    exact sound.observesFrame bounded
  | answer connection value =>
    cases next
    exact sound.observesAnswer bounded
  | input connection value order =>
    dsimp only [State.step] at next
    split at next <;> cases next
    have sent := sound.sends fresh
    refine sent.observesInput fun id named => ?_
    unfold State.sends
    rw [named]
    exact mem_cons_self
  | request connection value =>
    cases next
    exact sound.sends fresh
  | response connection value =>
    cases next
    rw [resolutions_receives] at bounded
    exact (sound.observesAcceptance bounded).receives fun _ => observesAcceptance_taken
  | complete id =>
    cases next
    exact sound.completes bounded
  | reset =>
    cases next
    exact sound_reset s

/-- A run, as long as not more than 1024 questions have been resolved since the last reset. -/
theorem sound_of_reachable (run : system.Reachable Fresh s) : s.resolutions ≤ 1024 → s.Sound := by
  refine run.invariant (fun s => s.resolutions ≤ 1024 → s.Sound) (fun _ => sound_start) ?_
  intro s s' label _ fresh sound next bounded
  by_cases going : label = .reset
  · subst going
    cases next
    exact sound_reset s
  · have earlier := (resolutions_step going next).trans bounded
    exact (sound earlier).step fresh next bounded

end State

end Agentix.Registry.Questions
