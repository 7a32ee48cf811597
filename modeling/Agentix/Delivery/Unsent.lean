import Agentix.Delivery.Attempt

/-! # What was not sent

An attempt that reports an operation as not sent is right, as long as it does not end while the
operation waits after something may have been accepted.
-/

namespace Agentix.Delivery

open Lib List

namespace Attempt

variable {ε σ ρ ω α : Type} {operation : Operation ε σ ρ ω α} {provider : Provider ρ ω}
  {checks : Bool} {s s' : Attempt ε σ ρ ω α} {label : Label ε ω}

def Waits (operation : Operation ε σ ρ ω α) (later : σ → Prop) (s : Attempt ε σ ρ ω α)
    (label : Label ε ω) : Prop :=
  s.Ends operation label → ¬ (s.phase.notDispatched = true ∧ later s.place)

def Allows (holds : Phase → σ → List (ρ × ω) → Prop) (phase : Phase) (place : σ)
    (answered : List (ρ × ω)) : Action ε σ ρ ω α → Prop
  | .waiting next => holds .waiting next answered
  | .dispatched next => (∀ waits, Phase.notDispatched waits = true → holds waits place answered) ∧
      ∀ now, holds (.inFlight now) next answered
  | .sleep _ next => holds phase next answered
  | .locked _ next => holds phase next answered
  | .call request next => ∀ now outcome, holds phase (next now outcome)
      (answered ++ (request.map fun request => (request, outcome)).toList)
  | .returns _ => True

/-- Whatever the others share, and at any time. -/
structure Keeps (operation : Operation ε σ ρ ω α)
    (holds : Phase → σ → List (ρ × ω) → Prop) : Prop where
  start : ∀ created, holds (.inFlight created) operation.start []
  allows : ∀ {phase place answered shared now}, holds phase place answered →
    Allows holds phase place answered (operation.act place shared now)

variable {holds : Phase → σ → List (ρ × ω) → Prop}

theorem Keeps.poll (keeps : Keeps operation holds) (before : holds s.phase s.place s.answered)
    (next : s.poll operation checks = some s') : holds s'.phase s'.place s'.answered := by
  have allowed : Allows holds s.phase s.place s.answered (s.action operation) :=
    keeps.allows before
  unfold Attempt.poll at next
  cases action : s.action operation with
  | waiting place =>
    rw [action] at next allowed
    cases next
    exact allowed
  | dispatched place =>
    rw [action] at next allowed
    dsimp only at next
    split at next
    · split at next <;> cases next
      exact allowed.1 .waiting rfl
    · cases next
      exact allowed.2 s.now
  | sleep deadline place =>
    rw [action] at next allowed
    dsimp only at next
    split at next <;> cases next
    exact allowed
  | locked shared place =>
    rw [action] at next allowed
    cases next
    exact allowed
  | call request place =>
    rw [action] at next
    cases next
  | returns result =>
    rw [action] at next
    cases next
    exact before

theorem Keeps.answer {outcome : ω} (keeps : Keeps operation holds)
    (before : holds s.phase s.place s.answered) (next : s.answer operation outcome = some s') :
    holds s'.phase s'.place s'.answered := by
  have allowed : Allows holds s.phase s.place s.answered (s.action operation) :=
    keeps.allows before
  unfold Attempt.answer at next
  split at next
  · rename_i action
    rw [action] at allowed
    cases next
    exact allowed s.now outcome
  · cases next

theorem Keeps.validated {answer : Bool} (keeps : Keeps operation holds)
    (before : holds s.phase s.place s.answered)
    (next : s.validated operation answer = some s') : holds s'.phase s'.place s'.answered := by
  have allowed : Allows holds s.phase s.place s.answered (s.action operation) :=
    keeps.allows before
  unfold Attempt.validated at next
  split at next
  · rename_i action
    rw [action] at allowed
    split at next <;> cases next
    · exact allowed.2 s.now
    · exact allowed.1 .invalidated rfl
  · cases next

theorem Keeps.step (keeps : Keeps operation holds) (before : holds s.phase s.place s.answered)
    (next : s.step operation checks label = some s') : holds s'.phase s'.place s'.answered := by
  unfold Attempt.step at next
  cases ended : s.ended with
  | some ending =>
    rw [ended] at next
    cases next
  | none =>
    rw [ended] at next
    cases label with
    | poll => exact keeps.poll before next
    | answer outcome => exact keeps.answer before next
    | valid answer => exact keeps.validated before next
    | expire =>
      dsimp only at next
      unfold Attempt.expire at next
      split at next <;> cases next
      exact before
    | drop =>
      cases next
      exact before
    | tick time =>
      cases next
      exact before
    | others shared =>
      cases next
      exact before

/-- No answer has been an acceptance that was not taken back. -/
def Clean (provider : Provider ρ ω) (answered : List (ρ × ω)) : Prop :=
  ∀ entry ∈ answered, provider.refuses entry.2 = true ∨ provider.retracted answered entry

/-- What the reports of an operation need. -/
structure Reports (operation : Operation ε σ ρ ω α) (provider : Provider ρ ω) (later : σ → Prop)
    (holds : Phase → σ → List (ρ × ω) → Prop) : Prop where
  /-- A request is in flight. -/
  calling : ∀ {phase place answered shared now request next}, holds phase place answered →
    operation.act place shared now = .call (some request) next → phase.notDispatched = false
  waiting : ∀ {phase place answered}, holds phase place answered →
    phase.notDispatched = true → ¬ later place → Clean provider answered
  returns : ∀ {phase place answered shared now message}, holds phase place answered →
    operation.act place shared now = .returns (.error (.notSent message)) →
    ¬ (phase.notDispatched = true ∧ later place) → Clean provider answered

theorem Reports.of_waiting {later : σ → Prop} (reports : Reports operation provider later holds)
    (now : holds s.phase s.place s.answered) (waits : s.phase.notDispatched = true)
    (early : ¬ later s.place) : s.Unsent operation provider := by
  refine ⟨fun request next calls => ?_, reports.waiting now waits early⟩
  rw [reports.calling now calls] at waits
  cases waits

/-- The scope is only checked while the operation waits. -/
def ChecksWaiting (s : Attempt ε σ ρ ω α) : Prop :=
  s.checking = true → s.phase.notDispatched = true

/-- How a step ends the attempt: while the operation waits, or with a result of its own. -/
structure Ended (operation : Operation ε σ ρ ω α) (s s' : Attempt ε σ ρ ω α)
    (label : Label ε ω) : Prop where
  ends : s.Ends operation label
  place : s'.place = s.place
  answered : s'.answered = s.answered
  reason : s.phase.notDispatched = true ∧ s'.phase.notDispatched = true ∨
    s'.phase = s.phase ∧ s'.shared = s.shared ∧ s'.now = s.now ∧
      ∃ message, s.action operation = .returns (.error (.notSent message))

theorem not_reportsUnsent (running : s.ended = none) : ¬ s.ReportsUnsent := by
  rintro (⟨_, ended⟩ | ⟨ended, -⟩) <;> rw [running] at ended <;> cases ended

theorem report_notSent {result : Except ChannelError α} {message : String}
    (reported : s.report result = .error (.notSent message)) :
    result = .error (.notSent message) ∨ s.phase.notDispatched = true := by
  unfold Attempt.report at reported
  split at reported
  · split at reported
    · rename_i waits
      exact .inr waits
    · cases reported
  · exact .inl reported

theorem ended_of_poll (running : s.ended = none) (next : s.poll operation checks = some s')
    (reported : s'.ReportsUnsent) : Ended operation s s' .poll := by
  unfold Attempt.poll at next
  split at next
  · cases next
    exact absurd reported (not_reportsUnsent running)
  · split at next
    · split at next <;> cases next
      exact absurd reported (not_reportsUnsent running)
    · cases next
      exact absurd reported (not_reportsUnsent running)
  · split at next <;> cases next
    exact absurd reported (not_reportsUnsent running)
  · cases next
    exact absurd reported (not_reportsUnsent running)
  · cases next
  · rename_i result action
    cases next
    refine ⟨⟨result, action⟩, rfl, rfl, ?_⟩
    obtain ⟨message, ended⟩ | ⟨ended, -⟩ := reported
    · have returned : s.report result = .error (.notSent message) :=
        Ending.returned.inj (Option.some.inj ended)
      obtain own | waits := report_notSent returned
      · exact .inr ⟨rfl, rfl, rfl, message, own ▸ action⟩
      · exact .inl ⟨waits, waits⟩
    · cases ended

theorem ended_of_step (checking : s.ChecksWaiting)
    (next : s.step operation checks label = some s') (reported : s'.ReportsUnsent) :
    Ended operation s s' label := by
  unfold Attempt.step at next
  cases running : s.ended with
  | some ending =>
    rw [running] at next
    cases next
  | none =>
    rw [running] at next
    cases label with
    | poll => exact ended_of_poll running next reported
    | answer outcome =>
      dsimp only at next
      unfold Attempt.answer at next
      split at next <;> cases next
      exact absurd reported (not_reportsUnsent running)
    | valid answer =>
      dsimp only at next
      unfold Attempt.validated at next
      split at next
      · rename_i asked _
        cases answer with
        | true =>
          cases next
          exact absurd reported (not_reportsUnsent running)
        | false =>
          cases next
          exact ⟨trivial, rfl, rfl, .inl ⟨checking asked, rfl⟩⟩
      · cases next
    | expire =>
      dsimp only at next
      unfold Attempt.expire at next
      split at next <;> cases next
      refine ⟨trivial, rfl, rfl, .inl ?_⟩
      obtain ⟨message, ended⟩ | ⟨ended, -⟩ := reported
      · cases waits : s.phase.notDispatched with
        | true => exact ⟨rfl, waits⟩
        | false =>
          rw [waits] at ended
          cases ended
      · cases ended
    | drop =>
      cases next
      obtain ⟨message, ended⟩ | ⟨-, waits⟩ := reported
      · cases ended
      · exact ⟨trivial, rfl, rfl, .inl ⟨waits, waits⟩⟩
    | tick time =>
      cases next
      exact absurd reported (not_reportsUnsent rfl)
    | others shared =>
      cases next
      exact absurd reported (not_reportsUnsent rfl)

theorem ChecksWaiting.poll (checking : s.ChecksWaiting)
    (next : s.poll operation checks = some s') : s'.ChecksWaiting := by
  unfold Attempt.poll at next
  split at next
  · cases next
    exact fun _ => rfl
  · split at next
    · split at next <;> cases next
      exact fun _ => rfl
    · cases next
      intro asked
      cases asked
  · split at next <;> cases next
    exact checking
  · cases next
    exact checking
  · cases next
  · cases next
    exact checking

theorem ChecksWaiting.step (checking : s.ChecksWaiting)
    (next : s.step operation checks label = some s') : s'.ChecksWaiting := by
  unfold Attempt.step at next
  split at next
  · cases next
  · exact checking.poll next
  · unfold Attempt.answer at next
    split at next <;> cases next
    exact checking
  · unfold Attempt.validated at next
    split at next
    · split at next <;> cases next
      · intro asked
        cases asked
      · exact fun _ => rfl
    · cases next
  · unfold Attempt.expire at next
    split at next <;> cases next
    exact checking
  · cases next
    exact checking
  · cases next
    exact checking
  · cases next
    exact checking

/-- An attempt that reports that it has sent nothing has sent nothing. -/
theorem honest_of_reachable {later : σ → Prop} {shared : ε} {elapsed : Nat}
    (keeps : Keeps operation holds) (reports : Reports operation provider later holds)
    (run : (system operation checks shared elapsed).Reachable (Waits operation later) s) :
    s.Honest operation provider := by
  let kept (s : Attempt ε σ ρ ω α) : Prop :=
    holds s.phase s.place s.answered ∧ s.ChecksWaiting ∧ s.Honest operation provider
  have start : kept (start operation shared elapsed) := by
    refine ⟨keeps.start 0, ?_, fun reported => absurd reported (not_reportsUnsent rfl)⟩
    intro asked
    cases asked
  have all : kept s := run.invariant kept start ?_
  · exact all.2.2
  · rintro s s' label - waits ⟨before, checking, -⟩ next
    have after := keeps.step before next
    refine ⟨after, checking.step next, fun reported => ?_⟩
    -- the last step is the one that reports
    have ended := ended_of_step checking next reported
    have early := waits ended.ends
    obtain ⟨waited, waiting⟩ | ⟨phase, shared, now, message, returned⟩ := ended.reason
    · apply reports.of_waiting after waiting
      rw [ended.place]
      exact fun later => early ⟨waited, later⟩
    · have clean := reports.returns before returned early
      refine ⟨fun request next calls => ?_, ended.answered ▸ clean⟩
      unfold Attempt.action at calls returned
      rw [ended.place, shared, now, returned] at calls
      cases calls

end Attempt

namespace Telegram

variable {τ : Type}

/-- Until the request is answered for good, every answer was a limit. -/
structure Limited (phase : Phase) (place : Place τ)
    (answered : List (Request × Except RequestError τ)) : Prop where
  sending : place = .sending → phase.notDispatched = false
  refused : (∀ result, place ≠ .done result) → ∀ entry ∈ answered, refuses entry.2 = true
  done : ∀ result, place = .done result →
    phase.notDispatched = false ∧ ∀ delay text, result ≠ .error (.retryAfter delay text)

variable {phase phase' : Phase} {place next : Place τ} {delivers : Bool} {request : Request}
  {answered : List (Request × Except RequestError τ)}

theorem Limited.moves (limited : Limited phase place answered)
    (running : ∀ result, place ≠ .done result) (quiet : next ≠ .sending)
    (unfinished : ∀ result, next ≠ .done result) : Limited phase' next answered where
  sending same := absurd same quiet
  refused _ := limited.refused running
  done result same := absurd same (unfinished result)

theorem Limited.outcome {now : Instant} {outcome : Except RequestError τ}
    (limited : Limited phase .sending answered) :
    Limited phase (afterOutcome now outcome) (answered ++ [(request, outcome)]) := by
  have before := limited.refused (by simp)
  unfold afterOutcome
  split
  · rename_i delay text
    refine ⟨by simp, fun _ entry mem => ?_, by simp⟩
    obtain earlier | rfl := mem_append.mp mem |>.imp_right mem_singleton.mp
    · exact before entry earlier
    · rfl
  · rename_i final
    refine ⟨by simp, fun unfinished => absurd rfl (unfinished outcome), fun result same => ?_⟩
    cases same
    exact ⟨limited.sending rfl, fun delay text same => final delay text same⟩

theorem keeps_limited : Attempt.Keeps (operation delivers request) (Limited (τ := τ)) where
  start created := ⟨by simp [operation], by simp, by simp [operation]⟩
  allows := by
    intro phase place answered limits now limited
    cases place with
    | outbound => exact limited.moves (by simp) (by simp) (by simp)
    | queued => exact limited.moves (by simp) (by simp) (by simp)
    | head =>
      exact ⟨fun _ _ => limited.moves (by simp) (by simp) (by simp),
        fun _ => limited.moves (by simp) (by simp) (by simp)⟩
    | again => exact limited.moves (by simp) (by simp) (by simp)
    | reserving =>
      show Attempt.Allows _ _ _ _ (if _ then _ else _)
      split
      · exact limited.moves (by simp) (by simp) (by simp)
      · exact limited.moves (by simp) (by simp) (by simp)
    | dispatching =>
      refine ⟨fun _ _ => limited.moves (by simp) (by simp) (by simp), fun _ => ?_⟩
      exact ⟨fun _ => rfl, fun _ => limited.refused (by simp), by simp⟩
    | sending => exact fun now outcome => limited.outcome
    | limited since delay => exact limited.moves (by simp) (by simp) (by simp)
    | blocking since delay => exact limited.moves (by simp) (by simp) (by simp)
    | done result => trivial

theorem retryAfter_of_notSent {error : RequestError} {message : String}
    (reported : describe delivers error = .notSent message) :
    ∃ delay text, error = .retryAfter delay text := by
  unfold describe at reported
  split at reported
  · cases error with
    | retryAfter delay text => exact ⟨delay, text, rfl⟩
    | api text | migrateToChatId text | other text => cases reported
  · cases reported

theorem reports_limited : Attempt.Reports (operation delivers request) provider
    (fun _ => False) (Limited (τ := τ)) where
  calling := by
    intro phase place answered limits now request next limited calls
    cases place with
    | sending => exact limited.sending rfl
    | reserving =>
      dsimp only [operation, act] at calls
      split at calls <;> cases calls
    | outbound | queued | head | again | dispatching | limited _ _ | blocking _ _ | done _ =>
      cases calls
  waiting := by
    intro phase place answered limited waits _ entry mem
    refine .inl (limited.refused (fun result same => ?_) entry mem)
    rw [(limited.done result same).1] at waits
    cases waits
  returns := by
    intro phase place answered limits now message limited returned _
    cases place with
    | done result =>
      obtain ⟨-, final⟩ := limited.done result rfl
      have mapped := Action.returns.inj returned
      cases result with
      | ok output => cases mapped
      | error error =>
        obtain ⟨delay, text, rfl⟩ := retryAfter_of_notSent (Except.error.inj mapped)
        exact absurd rfl (final delay text)
    | reserving =>
      dsimp only [operation, act] at returned
      split at returned <;> cases returned
    | outbound | queued | head | again | dispatching | sending | limited _ _ | blocking _ _ =>
      cases returned

end Telegram

namespace Feishu

variable {α : Type} {answered answers : List (Request × Outcome)} {phase : Phase}

def Refused (answered : List (Request × Outcome)) : Prop :=
  ∀ entry ∈ answered, refuses entry.2 = true

theorem refused_nil : Refused [] := by
  intro entry mem
  cases mem

theorem Refused.append (first : Refused answered) (second : Refused answers) :
    Refused (answered ++ answers) := by
  intro entry mem
  obtain earlier | later := mem_append.mp mem
  · exact first entry earlier
  · exact second entry later

theorem Refused.clean (refused : Refused answered) : Attempt.Clean provider answered :=
  fun entry mem => .inl (refused entry mem)

/-- Work that reports truly, where `waits` tells whether its last request was not dispatched, or it
is later than the first request. -/
def Work.Tells (requests : Nat) (answered : List (Request × Outcome)) (waits : Bool) :
    Work α → Prop
  | .returns result => ∀ message, result = .error (.notSent message) →
      (waits = true ∧ 1 < requests) ∨ Attempt.Clean provider answered
  | .locked _ next => ∀ adapter, (next adapter).Tells requests answered waits
  | .request made next => ∀ answers, Refused answers →
      (∀ outcome, (∀ text, outcome ≠ .error (.rateLimited text)) →
        (next (outcome.mapError deliveryError)).Tells (requests + 1)
          (answered ++ answers ++ [(made, outcome)]) false) ∧
      ∀ error, (next (.error error)).Tells (requests + 1) (answered ++ answers) true

/-- The error of an answer is only one of a limit where the answer is. -/
theorem rateLimited_of_notSent {error : LarkError} {message : String}
    (reported : deliveryError error = .notSent message) : error = .rateLimited message := by
  cases error with
  | rateLimited text =>
    cases reported
    rfl
  | api code text | illegalParam text | other text => cases reported

/-! ## Sending -/

theorem Retracted.mono {entry : Request × Outcome} (retracted : Retracted answered entry)
    (more : ∀ entry ∈ answered, entry ∈ answers) : Retracted answers entry := by
  unfold Retracted at retracted ⊢
  split at retracted
  · obtain ⟨reply, deleted⟩ := retracted
    exact ⟨reply, more _ deleted⟩
  · obtain ⟨conversation, card, posted⟩ := retracted
    exact ⟨conversation, card, more _ posted⟩
  · exact retracted

def Posted (answered : List (Request × Outcome)) (id : String) : Prop :=
  ∃ conversation card, (Request.post conversation card, Except.ok id) ∈ answered

/-- Each page that was accepted is still to be deleted, or it has been. -/
structure Covered (answered : List (Request × Outcome)) (left : List SentCard) : Prop where
  entries : ∀ entry ∈ answered, refuses entry.2 = true ∨ Retracted answered entry ∨
    ∃ conversation card id, entry = (.post conversation card, .ok id) ∧ id ∈ left.map SentCard.id
  posted : ∀ id ∈ left.map SentCard.id, Posted answered id

theorem Covered.clean (covered : Covered answered []) : Attempt.Clean provider answered := by
  intro entry mem
  obtain refused | retracted | ⟨_, _, _, _, absurd⟩ := covered.entries entry mem
  · exact .inl refused
  · exact .inr retracted
  · cases absurd

theorem Covered.refused {left : List SentCard} (covered : Covered answered left)
    (refused : Refused answers) : Covered (answered ++ answers) left where
  entries entry mem := by
    obtain earlier | later := mem_append.mp mem
    · obtain gone | retracted | posted := covered.entries entry earlier
      · exact .inl gone
      · exact .inr (.inl (retracted.mono fun _ => mem_append_left _))
      · exact .inr (.inr posted)
    · exact .inl (refused entry later)
  posted id left := by
    obtain ⟨conversation, card, posted⟩ := covered.posted id left
    exact ⟨conversation, card, mem_append_left _ posted⟩

theorem Covered.posts {cards : List SentCard} {conversation card id : String} {page : Option Page}
    (covered : Covered answered cards) :
    Covered (answered ++ [(.post conversation card, .ok id)]) (cards ++ [⟨id, page⟩]) where
  entries entry mem := by
    obtain earlier | rfl := mem_append.mp mem |>.imp_right mem_singleton.mp
    · obtain gone | retracted | ⟨conversation, card, posted, same, left⟩ :=
        covered.entries entry earlier
      · exact .inl gone
      · exact .inr (.inl (retracted.mono fun _ => mem_append_left _))
      · refine .inr (.inr ⟨conversation, card, posted, same, ?_⟩)
        rw [map_append]
        exact mem_append_left _ left
    · exact .inr (.inr ⟨conversation, card, id, rfl, by simp⟩)
  posted other left := by
    rw [map_append] at left
    obtain earlier | last := mem_append.mp left
    · obtain ⟨conversation, card, posted⟩ := covered.posted other earlier
      exact ⟨conversation, card, mem_append_left _ posted⟩
    · obtain rfl : other = id := by simpa using last
      exact ⟨conversation, card, by simp⟩

theorem Covered.deletes {card : SentCard} {rest : List SentCard} {reply : String}
    (covered : Covered answered (card :: rest)) :
    Covered (answered ++ [(.delete card.id, .ok reply)]) rest where
  entries entry mem := by
    obtain earlier | rfl := mem_append.mp mem |>.imp_right mem_singleton.mp
    · obtain gone | retracted | ⟨conversation, sent, id, same, left⟩ :=
        covered.entries entry earlier
      · exact .inl gone
      · exact .inr (.inl (retracted.mono fun _ => mem_append_left _))
      · obtain first | later := mem_cons.mp left
        · subst same first
          exact .inr (.inl ⟨reply, by simp⟩)
        · exact .inr (.inr ⟨conversation, sent, id, same, later⟩)
    · obtain ⟨conversation, sent, posted⟩ := covered.posted card.id (by simp)
      exact .inr (.inl ⟨conversation, sent, mem_append_left _ posted⟩)
  posted id left := by
    obtain ⟨conversation, sent, posted⟩ := covered.posted id (mem_cons_of_mem _ left)
    exact ⟨conversation, sent, mem_append_left _ posted⟩

theorem Covered.reverse {left : List SentCard} (covered : Covered answered left) :
    Covered answered left.reverse where
  entries entry mem := by simpa using covered.entries entry mem
  posted id mem := covered.posted id (by simpa using mem)

theorem covered_nil : Covered [] [] := ⟨by simp, by simp⟩

/-- Retracting pages reports the error that came before it, once all of them are deleted. -/
theorem tells_retract {error : ChannelError} {left : List SentCard} {requests : Nat} {waits : Bool}
    (covered : Covered answered left ∨ ∀ message, error ≠ .notSent message) :
    (retract error left : Work α).Tells requests answered waits := by
  induction left generalizing answered requests waits with
  | nil =>
    intro message same
    obtain rfl := Except.error.inj same
    obtain covered | other := covered
    · exact .inr covered.clean
    · exact absurd rfl (other message)
  | cons card rest ih =>
    intro answers refused
    constructor
    · intro outcome _
      cases outcome with
      | ok reply =>
        refine ih (covered.imp_left fun covered => ?_)
        exact (covered.refused refused).deletes
      | error error =>
        intro message same
        cases same
    · intro error message same
      cases same

theorem tells_sendPages {conversation : ConversationRef} {pages : List Page} {cards : CardGroup}
    {requests : Nat} {waits : Bool} (covered : Covered answered cards) :
    (sendPages conversation pages cards).Tells requests answered waits := by
  induction pages generalizing answered cards requests waits with
  | nil =>
    intro adapter message same
    cases same
  | cons page pages ih =>
    intro answers refused
    constructor
    · intro outcome unlimited
      cases outcome with
      | ok id => exact ih (covered.refused refused).posts
      | error error =>
        refine tells_retract (.inr fun message same => ?_)
        rw [rateLimited_of_notSent same] at unlimited
        exact unlimited message rfl
    · intro error
      exact tells_retract (.inl (covered.refused refused).reverse)

/-! ## Updating -/

theorem tells_request {request : Request} {next : Except ChannelError String → Work α}
    {requests : Nat} {waits : Bool} (first : requests = 0 → Refused answered)
    (fails : ∀ error, next (.error error) = .returns (.error error))
    (succeeds : ∀ id answers, (next (.ok id)).Tells (requests + 1) answers false) :
    (Work.request request next).Tells requests answered waits := by
  intro answers refused
  constructor
  · intro outcome unlimited
    cases outcome with
    | ok id => exact succeeds id _
    | error error =>
      show (next (.error (deliveryError error))).Tells _ _ _
      rw [fails]
      intro message same
      rw [rateLimited_of_notSent (Except.error.inj same)] at unlimited
      exact absurd rfl (unlimited message)
  · intro error
    rw [fails]
    intro message same
    by_cases later : requests = 0
    · exact .inr ((first later).append refused).clean
    · exact .inl ⟨rfl, by omega⟩

theorem tells_deletePages {message : MessageRef} {cards : CardGroup} {left : List SentCard}
    {requests : Nat} {waits : Bool} (first : requests = 0 → Refused answered) :
    (deletePages message cards left).Tells requests answered waits := by
  induction left generalizing answered requests waits with
  | nil =>
    intro adapter text same
    cases same
  | cons card rest ih =>
    exact tells_request first (fun _ => rfl) fun _ _ _ => ih (by omega)

theorem tells_updatePages {message : MessageRef} {count index : Nat} {pages : List Page}
    {cards : CardGroup} {requests : Nat} {waits : Bool} (first : requests = 0 → Refused answered) :
    (updatePages message count index pages cards).Tells requests answered waits := by
  induction pages generalizing answered index cards requests waits with
  | nil => exact tells_deletePages first
  | cons page pages ih =>
    unfold updatePages
    split
    · split
      · exact ih first
      · exact tells_request first (fun _ => rfl) fun _ _ _ => ih (by omega)
    · exact tells_request first (fun _ => rfl) fun _ _ _ => ih (by omega)

/-! ## Operations -/

/-- The phase in which a request is sent, and the one in which a token is replaced. -/
def RetryPlace.Fits (phase : Phase) : RetryPlace → Prop
  | .sending _ _ => phase.notDispatched = false
  | .comparing _ _ | .invalidating _ => phase.notDispatched = true
  | _ => True

structure Retrying (phase : Phase) (requests : Nat) (place : RetryPlace) (request : Request)
    (next : Except ChannelError String → Work α) (answered : List (Request × Outcome)) : Prop where
  fits : place.Fits phase
  first : requests ≤ 1 → Refused answered
  tells : ∃ made before answers, requests = made + 1 ∧ answered = before ++ answers ∧
    Refused answers ∧ (Work.request request next).Tells made before false

/-- Where an operation is, and what has been answered. -/
def Telling (phase : Phase) (position : Position α) (answered : List (Request × Outcome)) : Prop :=
  match position.place with
  | .outbound work | .queued work | .head work =>
    position.requests = 0 ∧ answered = [] ∧ work.Tells 0 [] false
  | .working work => work.Tells position.requests answered phase.notDispatched ∧
      (position.requests = 0 → answered = []) ∧
      (phase.notDispatched = true → position.requests ≤ 1 → Refused answered)
  | .retrying place request next => Retrying phase position.requests place request next answered

section Retrying

variable {requests : Nat} {place moved : RetryPlace} {request : Request}
  {next : Except ChannelError String → Work α} {phase' : Phase} {retry : Retry} {generation : Nat}

theorem Retrying.moves (retrying : Retrying phase requests place request next answered)
    (fits : moved.Fits phase') : Retrying phase' requests moved request next answered :=
  ⟨fits, retrying.first, retrying.tells⟩

theorem Retrying.refused {outcome : Outcome}
    (retrying : Retrying phase requests place request next answered)
    (refused : refuses outcome = true) (fits : moved.Fits phase) :
    Retrying phase requests moved request next (answered ++ [(request, outcome)]) := by
  have last : Refused [(request, outcome)] := by
    intro entry mem
    rw [mem_singleton.mp mem]
    exact refused
  obtain ⟨made, before, answers, begun, same, all, tells⟩ := retrying.tells
  refine ⟨fits, fun few => (retrying.first few).append last, made, before,
    answers ++ [(request, outcome)], begun, ?_, all.append last, tells⟩
  rw [same, append_assoc]

theorem Retrying.finishes {outcome : Outcome}
    (retrying : Retrying phase requests (.sending retry generation) request next answered)
    (unlimited : ∀ text, outcome ≠ .error (.rateLimited text)) :
    Telling phase (⟨requests, .working (next (outcome.mapError deliveryError))⟩ : Position α)
      (answered ++ [(request, outcome)]) := by
  obtain ⟨made, before, answers, rfl, rfl, all, tells⟩ := retrying.tells
  have sent : phase.notDispatched = false := retrying.fits
  refine ⟨?_, by simp, fun waits => ?_⟩
  · rw [sent]
    exact (tells answers all).1 outcome unlimited
  · rw [sent] at waits
    cases waits

theorem Retrying.outcome {outcome : Outcome}
    (retrying : Retrying phase requests (.sending retry generation) request next answered) :
    Telling phase (afterOutcome
      (fun place => (⟨requests, .retrying place request next⟩ : Position α))
      (fun result => ⟨requests, .working (next (result.mapError deliveryError))⟩)
      retry generation outcome) (answered ++ [(request, outcome)]) := by
  cases outcome with
  | ok id => exact retrying.finishes (by simp)
  | error error =>
    cases error with
    | rateLimited text => exact retrying.refused rfl trivial
    | api code text =>
      unfold afterOutcome
      dsimp only
      split
      · exact retrying.refused rfl trivial
      · exact retrying.finishes (by simp)
    | illegalParam text =>
      unfold afterOutcome
      dsimp only
      split
      · exact retrying.refused rfl trivial
      · exact retrying.finishes (by simp)
    | other text =>
      unfold afterOutcome
      dsimp only
      rw [if_neg (by simp [isInvalidTenantAccessToken])]
      exact retrying.finishes (by simp)

/-- The token is replaced, or the request ends without having been sent again. -/
theorem Retrying.invalidation {outcome : Outcome}
    (retrying : Retrying phase requests (.invalidating retry) request next answered) :
    Telling phase (afterInvalidation
      (fun place => (⟨requests, .retrying place request next⟩ : Position α))
      (fun result => ⟨requests, .working (next (result.mapError deliveryError))⟩)
      retry outcome) answered := by
  cases outcome with
  | ok id => exact retrying.moves trivial
  | error error =>
    obtain ⟨made, before, answers, rfl, rfl, all, tells⟩ := retrying.tells
    have waits : phase.notDispatched = true := retrying.fits
    refine ⟨?_, fun none => absurd none (Nat.succ_ne_zero made), fun _ few => retrying.first few⟩
    rw [waits]
    exact (tells answers all).2 (deliveryError error)

theorem Retrying.allows {adapter : Adapter} {now : Instant}
    (retrying : Retrying phase requests place request next answered) :
    Attempt.Allows Telling phase (⟨requests, .retrying place request next⟩ : Position α) answered
      (retryTenantToken (fun place => ⟨requests, .retrying place request next⟩)
        (fun result => ⟨requests, .working (next (result.mapError deliveryError))⟩)
        request adapter now place : Action Adapter (Position α) Request Outcome α) := by
  cases place with
  | again retry => exact retrying.moves trivial
  | cooling retry =>
    unfold retryTenantToken cooled
    dsimp only
    split
    · split
      · exact retrying.moves trivial
      · exact retrying.moves trivial
    · exact retrying.moves trivial
  | dispatching retry generation =>
    exact ⟨fun _ _ => retrying.moves trivial, fun _ => retrying.moves rfl⟩
  | sending retry generation => exact fun _ _ => retrying.outcome
  | limited retry => exact retrying.moves trivial
  | blocking retry => exact retrying.moves trivial
  | stale retry generation => exact retrying.moves rfl
  | comparing retry generation =>
    have waits : phase.notDispatched = true := retrying.fits
    show Retrying phase requests _ request next answered
    split
    · exact retrying.moves waits
    · exact retrying.moves trivial
  | invalidating retry =>
    intro now outcome
    show Telling phase _ (answered ++ [])
    rw [append_nil]
    exact retrying.invalidation
  | counting retry => exact retrying.moves trivial

theorem Retrying.calling {adapter : Adapter} {now : Instant} {made : Request}
    {after : Instant → Outcome → Position α}
    (retrying : Retrying phase requests place request next answered)
    (calls : act (⟨requests, .retrying place request next⟩ : Position α) adapter now =
      .call (some made) after) : phase.notDispatched = false := by
  cases place with
  | sending retry generation => exact retrying.fits
  | cooling retry =>
    dsimp only [act, retryTenantToken, cooled] at calls
    split at calls
    · split at calls <;> cases calls
    · cases calls
  | again _ | dispatching _ _ | limited _ | blocking _ | stale _ _ | comparing _ _
    | invalidating _ | counting _ => cases calls

theorem not_returns {adapter : Adapter} {now : Instant} {result : Except ChannelError α} :
    act (⟨requests, .retrying place request next⟩ : Position α) adapter now ≠
      .returns result := by
  intro returned
  cases place with
  | cooling retry =>
    dsimp only [act, retryTenantToken, cooled] at returned
    split at returned
    · split at returned <;> cases returned
    · cases returned
  | again _ | dispatching _ _ | sending _ _ | limited _ | blocking _ | stale _ _ | comparing _ _
    | invalidating _ | counting _ => cases returned

end Retrying

theorem keeps_telling {place : Place α} (started : ∀ phase, Telling phase ⟨0, place⟩ []) :
    Attempt.Keeps (operation place) (Telling (α := α)) where
  start created := started (.inFlight created)
  allows := by
    intro phase position answered adapter now telling
    obtain ⟨requests, place⟩ := position
    cases place with
    | outbound work => exact telling
    | queued work => exact telling
    | head work =>
      refine ⟨fun _ _ => telling, fun _ => ?_⟩
      obtain ⟨rfl, rfl, tells⟩ := telling
      exact ⟨tells, fun _ => rfl, fun waits => by cases waits⟩
    | working work =>
      obtain ⟨tells, unsent, first⟩ := telling
      cases work with
      | returns result => trivial
      | locked change next => exact ⟨tells adapter, unsent, first⟩
      | request request next =>
        refine ⟨trivial, fun few => ?_, requests, answered, [], rfl, (append_nil _).symm,
          refused_nil, tells⟩
        have none : requests = 0 := Nat.le_zero.mp (Nat.le_of_succ_le_succ few)
        rw [unsent none]
        exact refused_nil
    | retrying place request next => exact Retrying.allows telling

theorem reports_telling {place : Place α} : Attempt.Reports (operation place) provider
    (fun position => 1 < position.requests) (Telling (α := α)) where
  calling := by
    intro phase position answered adapter now made next telling calls
    obtain ⟨requests, place⟩ := position
    cases place with
    | outbound work | queued work | head work => cases calls
    | working work => cases work <;> cases calls
    | retrying place request next => exact telling.calling calls
  waiting := by
    intro phase position answered telling waits early
    obtain ⟨requests, place⟩ := position
    cases place with
    | outbound work | queued work | head work =>
      obtain ⟨-, rfl, -⟩ := telling
      exact refused_nil.clean
    | working work => exact (telling.2.2 waits (Nat.le_of_not_lt early)).clean
    | retrying place request next => exact (telling.first (Nat.le_of_not_lt early)).clean
  returns := by
    intro phase position answered adapter now message telling returned early
    obtain ⟨requests, place⟩ := position
    cases place with
    | outbound work | queued work | head work => cases returned
    | working work =>
      cases work with
      | returns result =>
        obtain rfl : result = _ := Action.returns.inj returned
        obtain late | clean := telling.1 message rfl
        · exact absurd late early
        · exact clean
      | locked change next => cases returned
      | request request next => cases returned
    | retrying place request next => exact absurd returned not_returns

end Feishu

end Agentix.Delivery
