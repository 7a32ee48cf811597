import Agentix.Flows.Handlers

/-! # Open requests

What the log of the handlers says about a request, and what the entries of the pending ones say.
-/

namespace Agentix.Flows

open Lib Option Function
open Bindings

/-! ## Requests that wait for an answer -/

abbrev RequestId := SessionId × RpcId

def RequestId.key (id : RequestId) : InteractionKey := ⟨id.1, id.2.requestId⟩

def InteractionRequest.id (request : InteractionRequest) : RequestId :=
  (request.sessionId, request.rpcId)

/-- The progress of a request of which no question is answered; an approval has none. -/
def InteractionRequest.input (request : InteractionRequest) : Option InputProgress :=
  if request.kind = .userInput then some (.fromRequest request) else none

def InputProgress.answered (progress : InputProgress) (answer : String) : InputProgress :=
  match progress.slot with
  | none => progress
  | some (question, slot) => progress.record question slot answer

/-- The requests that wait for an answer, each with the answers given so far. -/
abbrev OpenRequests := RequestId → Option (Option InputProgress)

def OpenRequests.after (opened : OpenRequests) : Effect → OpenRequests
  | .rendered request =>
    if (opened request.id).isSome then opened else update opened request.id (some request.input)
  | .answered interaction answer => fun id =>
    if id.key = interaction then (opened id).map (Option.map (InputProgress.answered · answer))
    else opened id
  | .handed session rpcId => update opened (session, rpcId) none
  | .resolvedOutside interaction => fun id => if id.key = interaction then none else opened id
  | .invalidated session => fun id => if id.1 = session then none else opened id

def openRequests (log : List Effect) : OpenRequests :=
  log.foldl OpenRequests.after fun _ => none

@[simp] theorem openRequests_snoc (log : List Effect) (effect : Effect) :
    openRequests (log ++ [effect]) = (openRequests log).after effect := by
  simp [openRequests]

/-- The request has its entry, with the answers given so far. -/
def Interactions.Has (s : Interactions) (id : RequestId) (input : Option InputProgress) : Prop :=
  ∃ pending, s.pending id.key = some pending ∧ pending.rpcId = id.2 ∧ pending.input = input

def Answerable (s : Interactions) : Prop :=
  ∀ id input, openRequests s.log id = some input → s.Has id input

def AnswerableBut (interaction : InteractionKey) (s : Interactions) : Prop :=
  ∀ id input, id.key ≠ interaction → openRequests s.log id = some input → s.Has id input

def Closed (interaction : InteractionKey) (s : Interactions) : Prop :=
  ∀ id, id.key = interaction → openRequests s.log id = none

variable {s s' : Interactions} {interaction : InteractionKey} {pending : PendingInteractionView}
  {id : RequestId}

theorem Answerable.but (answerable : Answerable s) (interaction : InteractionKey) :
    AnswerableBut interaction s :=
  fun id input _ opened => answerable id input opened

theorem AnswerableBut.answerable (but : AnswerableBut interaction s)
    (closed : Closed interaction s) : Answerable s := by
  intro id input opened
  by_cases here : id.key = interaction
  · rw [closed id here] at opened
    cases opened
  · exact but id input here opened

theorem Answerable.closed (answerable : Answerable s) (absent : s.pending interaction = none) :
    Closed interaction s := by
  intro id here
  cases opened : openRequests s.log id with
  | none => rfl
  | some input =>
    obtain ⟨pending, found, -⟩ := answerable id input opened
    rw [here, absent] at found
    cases found

theorem Answerable.of_key (answerable : Answerable s) (found : s.pending interaction = some pending)
    (here : id.key = interaction) {input : Option InputProgress}
    (opened : openRequests s.log id = some input) :
    id = (interaction.sessionId, pending.rpcId) ∧ pending.input = input := by
  obtain ⟨other, there, rpcId, same⟩ := answerable id input opened
  rw [here, found, some_inj] at there
  subst there
  exact ⟨Prod.ext (congrArg InteractionKey.sessionId here) rpcId.symm, same⟩

/-- Only requests under the key are touched. -/
def Elsewhere (interaction : InteractionKey) (s s' : Interactions) : Prop :=
  s'.log = s.log ∧ ∀ other, other ≠ interaction → s'.pending other = s.pending other

theorem Elsewhere.refl (interaction : InteractionKey) (s : Interactions) :
    Elsewhere interaction s s :=
  ⟨rfl, fun _ _ => rfl⟩

theorem Elsewhere.trans {s'' : Interactions} (first : Elsewhere interaction s s')
    (second : Elsewhere interaction s' s'') : Elsewhere interaction s s'' :=
  ⟨second.1.trans first.1, fun other there => (second.2 other there).trans (first.2 other there)⟩

theorem AnswerableBut.elsewhere (but : AnswerableBut interaction s)
    (elsewhere : Elsewhere interaction s s') : AnswerableBut interaction s' := by
  intro id input other opened
  rw [elsewhere.1] at opened
  obtain ⟨pending, found, same⟩ := but id input other opened
  exact ⟨pending, (elsewhere.2 id.key other).trans found, same⟩

theorem Closed.elsewhere (closed : Closed interaction s) (elsewhere : Elsewhere interaction s s') :
    Closed interaction s' := by
  intro id here
  rw [elsewhere.1]
  exact closed id here

/-- An entry that is written again says what it said. -/
theorem Answerable.rewritten (answerable : Answerable s) (elsewhere : Elsewhere interaction s s')
    (found : s.pending interaction = some pending) {pending' : PendingInteractionView}
    (written : s'.pending interaction = some pending') (rpcId : pending'.rpcId = pending.rpcId)
    (input : pending'.input = pending.input) : Answerable s' := by
  intro id input' opened
  by_cases here : id.key = interaction
  · rw [elsewhere.1] at opened
    obtain ⟨rfl, same⟩ := answerable.of_key found here opened
    exact ⟨pending', by rw [here]; exact written, rpcId, input.trans same⟩
  · exact ((answerable.but interaction).elsewhere elsewhere) id input' here opened

/-! ## Effects -/

theorem Answerable.answered (answerable : Answerable s)
    (found : s.pending interaction = some pending) {progress : InputProgress}
    (input : pending.input = some progress) {answer : String}
    (log : s'.log = s.log ++ [.answered interaction answer])
    (others : ∀ other, other ≠ interaction → s'.pending other = s.pending other)
    {pending' : PendingInteractionView} (written : s'.pending interaction = some pending')
    (rpcId : pending'.rpcId = pending.rpcId)
    (given : pending'.input = some (progress.answered answer)) : Answerable s' := by
  intro id input' opened
  rw [log, openRequests_snoc] at opened
  by_cases here : id.key = interaction
  · simp only [OpenRequests.after, here, if_true, map_eq_some_iff] at opened
    obtain ⟨input'', before, rfl⟩ := opened
    obtain ⟨rfl, same⟩ := answerable.of_key found here before
    refine ⟨pending', by rw [here]; exact written, rpcId, ?_⟩
    rw [given, ← same, input]
    rfl
  · simp only [OpenRequests.after, here, if_false] at opened
    obtain ⟨other, there, same⟩ := answerable id input' opened
    exact ⟨other, (others id.key here).trans there, same⟩

theorem Answerable.handed (answerable : Answerable s)
    (found : s.pending interaction = some pending) {log : List Effect}
    (known : openRequests log = openRequests s.log ∨
      ∃ answer, openRequests log = (openRequests s.log).after (.answered interaction answer))
    (others : ∀ other, other ≠ interaction → s'.pending other = s.pending other)
    (handed : s'.log = log ++ [.handed interaction.sessionId pending.rpcId]) :
    Answerable s' := by
  have before : ∀ id input, openRequests s'.log id = some input → id.key ≠ interaction ∧
      openRequests s.log id = some input := by
    intro id input opened
    rw [handed, openRequests_snoc] at opened
    simp only [OpenRequests.after, update_apply] at opened
    split at opened
    · cases opened
    · rename_i other
      have elsewhere : ∀ input, openRequests s.log id = some input → id.key ≠ interaction :=
        fun input known here => other (answerable.of_key found here known).1
      obtain same | ⟨answer, same⟩ := known
      · rw [same] at opened
        exact ⟨elsewhere input opened, opened⟩
      · rw [same] at opened
        by_cases here : id.key = interaction
        · simp only [OpenRequests.after, here, if_true, map_eq_some_iff] at opened
          obtain ⟨input', known, -⟩ := opened
          exact absurd here (elsewhere input' known)
        · simp only [OpenRequests.after, here, if_false] at opened
          exact ⟨here, opened⟩
  intro id input opened
  obtain ⟨there, known⟩ := before id input opened
  obtain ⟨pending, found, same⟩ := answerable id input known
  exact ⟨pending, (others id.key there).trans found, same⟩

theorem Answerable.handed_other (answerable : Answerable s) {session : SessionId} {rpcId : RpcId}
    (same : s'.pending = s.pending) (handed : s'.log = s.log ++ [.handed session rpcId]) :
    Answerable s' := by
  intro id input opened
  rw [handed, openRequests_snoc] at opened
  simp only [OpenRequests.after, update_apply] at opened
  split at opened
  · cases opened
  · rw [Interactions.Has, same]
    exact answerable id input opened

/-- The new entry is that of the request, and takes the place of no other. -/
theorem Answerable.rendered (answerable : Answerable s) {request : InteractionRequest}
    (fresh : ∀ pending, s.pending (interactionKey request) = some pending →
      pending.rpcId = request.rpcId ∧ pending.input = request.input)
    (log : s'.log = s.log ++ [.rendered request])
    (others : ∀ other, other ≠ interactionKey request → s'.pending other = s.pending other)
    (written : s'.pending (interactionKey request) = some pending)
    (rpcId : pending.rpcId = request.rpcId) (input : pending.input = request.input) :
    Answerable s' := by
  intro id input' opened
  rw [log, openRequests_snoc] at opened
  by_cases same : id = request.id
  · subst same
    refine ⟨pending, written, rpcId, ?_⟩
    simp only [OpenRequests.after] at opened
    split at opened
    · obtain ⟨before, found, -, had⟩ := answerable _ _ opened
      rw [input, ← (fresh before found).2, had]
    · rw [update_self, some_inj] at opened
      exact input.trans opened
  · have known : openRequests s.log id = some input' := by
      simp only [OpenRequests.after] at opened
      split at opened
      · exact opened
      · rwa [update_of_ne same] at opened
    obtain ⟨before, found, named, had⟩ := answerable id input' known
    by_cases here : id.key = interactionKey request
    · rw [here] at found
      have session : id.1 = request.sessionId := congrArg InteractionKey.sessionId here
      exact absurd (Prod.ext session (named.symm.trans (fresh before found).1)) same
    · exact ⟨before, (others id.key here).trans found, named, had⟩

end Agentix.Flows

/-! # What the handlers keep

A handler that puts the entry back, or hands the request over, leaves every open request its entry.
-/

namespace Agentix.Flows

open Lib Function
open Lib.Served
open Bindings List

variable {attachment : Attachment} {calls : Calls} {s s' : Interactions}
  {interaction : InteractionKey} {ownerId groupId : String} {post : Interactions → Prop}

/-! ## Small steps -/

variable {call : Call} {rest : Handler Unit} {β : Type}

/-- Neither the entries nor the log nor the reply mode change. -/
structure Quiet (s s' : Interactions) : Prop where
  pending : s'.pending = s.pending
  log : s'.log = s.log
  replyMode : s'.replyMode = s.replyMode

theorem Quiet.refl (s : Interactions) : Quiet s s := ⟨rfl, rfl, rfl⟩

theorem Quiet.trans {a b c : Interactions} (first : Quiet a b) (second : Quiet b c) : Quiet a c :=
  ⟨second.pending.trans first.pending, second.log.trans first.log,
    second.replyMode.trans first.replyMode⟩

theorem Quiet.elsewhere (quiet : Quiet s s') (interaction : InteractionKey) :
    Elsewhere interaction s s' :=
  ⟨quiet.log, fun _ _ => by rw [quiet.pending]⟩

theorem Answerable.congr (answerable : Answerable s) (pending : s'.pending = s.pending)
    (log : s'.log = s.log) : Answerable s' := by
  intro id input opened
  rw [log] at opened
  rw [Interactions.Has, pending]
  exact answerable id input opened

theorem Quiet.answerable (quiet : Quiet s s') (answerable : Answerable s) : Answerable s' :=
  answerable.congr quiet.pending quiet.log

theorem perform_quiet (calls : Calls) (call : Call) : Respects Quiet (perform calls call) := by
  intro s
  unfold perform
  split <;> exact Quiet.refl s

/-- A step that always succeeds, quietly. -/
def Silent {α : Type} (action : Handler α) : Prop :=
  ∀ s, ∃ value s', run action s = (.ok value, s') ∧ Quiet s s'

theorem Silent.ends_bind {α : Type} {action : Handler α} {next : α → Handler β}
    (silent : Silent action) (rest : ∀ value s', Quiet s s' → Ends (next value) s' post) :
    Ends (action >>= next) s post := by
  obtain ⟨value, s', step, quiet⟩ := silent s
  refine Served.ends_bind (fun message other step' => ?_) fun value' other step' => ?_
  · rw [step] at step'
    cases step'
  · rw [step] at step'
    cases step'
    exact rest value s' quiet

theorem newGroup_silent : Silent newGroup := fun _ => ⟨_, _, rfl, rfl, rfl, rfl⟩

theorem revokeActionGroup_silent (groupId : String) : Silent (revokeActionGroup groupId) :=
  fun _ => ⟨_, _, rfl, rfl, rfl, rfl⟩

theorem issueActions_silent (attachment : Attachment) (ownerId groupId : String)
    (actions : List UiAction) : Silent (issueActions attachment ownerId groupId actions) := by
  induction actions with
  | nil => exact fun s => ⟨_, s, rfl, Quiet.refl s⟩
  | cons action rest ih =>
    intro s
    obtain ⟨_, issued, step, quiet⟩ : ∃ value issued,
        run (issueAction attachment ownerId groupId action) s = (.ok value, issued) ∧
          Quiet s issued := ⟨_, _, rfl, rfl, rfl, rfl⟩
    obtain ⟨value, s', later, quiet'⟩ := ih issued
    refine ⟨value, s', ?_, quiet.trans quiet'⟩
    rw [issueActions, run_bind, step]
    exact later

theorem quiet_bind {α : Type} {first : Handler α} {next : α → Handler β}
    (quiet : Respects Quiet first) (rest : ∀ value, Respects Quiet (next value)) :
    Respects Quiet (first >>= next) :=
  @respects_bind Interactions α β Quiet @Quiet.trans first next quiet rest

theorem notices_quiet (calls : Calls) (messages : List MessageRef) :
    Respects Quiet (notices calls messages) := by
  induction messages with
  | nil => exact fun s => Quiet.refl s
  | cons message rest ih =>
    exact quiet_bind (perform_quiet calls _) fun _ => ih

theorem perform_of_succeeds (succeeds : calls.succeeds call) :
    perform calls call = pure () := by
  unfold perform
  rw [succeeds]

theorem ends_perform_bind {next : Unit → Handler β} (fails : ¬ calls.succeeds call → post s)
    (rest : calls.succeeds call → Ends (next ()) s post) :
    Ends (perform calls call >>= next) s post := by
  unfold perform
  split
  · rename_i succeeds
    rw [ends_pure_bind]
    exact rest succeeds
  · rename_i error failed
    rw [ends_throw_bind]
    exact fails fun succeeds => by simp [Calls.succeeds, failed] at succeeds

theorem ends_perform (holds : post s) : Ends (perform calls call) s post := by
  unfold perform
  split <;> exact holds

theorem ends_noted_bind {effect : Effect} {next : Unit → Handler β} :
    Ends (noted effect >>= next) s post ↔
      Ends (next ()) { s with log := s.log ++ [effect] } post := Iff.rfl

theorem ends_takePending {next : Option PendingInteractionView → Handler β} :
    Ends (takePending interaction >>= next) s post ↔ Ends (next (s.pending interaction))
      { s with pending := update s.pending interaction none } post := Iff.rfl

theorem ends_takeReplyMode {next : Option InteractionKey → Handler β} :
    Ends (takeReplyMode >>= next) s post ↔
      Ends (next s.replyMode) { s with replyMode := none } post := Iff.rfl

theorem ends_then_quiet {first : Handler Unit} (ends : Ends first s Answerable)
    (quiet : Respects Quiet rest) : Ends (first >>= fun _ => rest) s Answerable := by
  rw [Ends] at ends
  refine Served.ends_bind (fun message s' step => ?_) fun value s' step => ?_
  · rw [step] at ends
    exact ends
  · rw [step] at ends
    exact quiet.ends fun s'' quiet' => Quiet.answerable quiet' ends

theorem resolveExternalInteraction_elsewhere (calls : Calls) (interaction : InteractionKey) :
    Respects (Elsewhere interaction) (resolveExternalInteraction calls interaction) := by
  intro s
  have taken : Elsewhere interaction s { s with pending := update s.pending interaction none } :=
    ⟨rfl, fun other there => update_of_ne there _ _⟩
  change Ends (resolveExternalInteraction calls interaction) s (Elsewhere interaction s)
  unfold resolveExternalInteraction
  rw [ends_takePending]
  cases s.pending interaction with
  | none => exact taken
  | some pending =>
    exact taken.trans ((perform_quiet calls (.update interaction) _).elsewhere interaction)

theorem finishQueuedQuestion_elsewhere (calls : Calls) (interaction : InteractionKey) :
    Respects (Elsewhere interaction) (finishQueuedQuestion calls interaction) := by
  intro s
  change Ends (finishQueuedQuestion calls interaction) s (Elsewhere interaction s)
  unfold finishQueuedQuestion
  rw [ends_get_bind]
  split
  · exact Elsewhere.refl interaction s
  · rename_i question _
    have told := notices_quiet calls question.notices
    refine told.ends_bind (fun s' quiet => ?_) fun _ s' quiet => ?_
    · exact Quiet.elsewhere quiet interaction
    · have before : Elsewhere interaction s s' := Quiet.elsewhere quiet interaction
      split
      · exact before.trans (resolveExternalInteraction_elsewhere calls interaction s')
      · exact before

/-- Where no open request has the key, what is done under the key costs nothing. -/
theorem Answerable.elsewhere {action : Handler Unit} (respects : Respects (Elsewhere interaction) action)
    (answerable : Answerable s) (closed : Closed interaction s) : Ends action s Answerable :=
  ((answerable.but interaction).elsewhere (respects s)).answerable (closed.elsewhere (respects s))

/-! ## Cards -/

/-- The question of the request can be shown once more. -/
def Shown (calls : Calls) (s : Interactions) (interaction : InteractionKey) : Prop :=
  ∀ pending, s.pending interaction = some pending →
    pending.input.isSome ∧ calls.succeeds (.update interaction)

theorem update_absent (absent : s.pending interaction = none) :
    { s with pending := update s.pending interaction none } = s := by
  rw [← absent, update_eq_self]

/-- The state while a handler has the entry. -/
def Interactions.without (s : Interactions) (interaction : InteractionKey) : Interactions :=
  { s with pending := update s.pending interaction none }

theorem Answerable.put (answerable : Answerable s) {pending pending' : PendingInteractionView}
    (found : s.pending interaction = some pending) (quiet : Quiet (s.without interaction) s')
    (rpcId : pending'.rpcId = pending.rpcId) (input : pending'.input = pending.input) :
    Ends (putPending interaction pending') s' Answerable := by
  have elsewhere : Elsewhere interaction s (run (putPending interaction pending') s').2 := by
    refine ⟨quiet.log, fun other there => ?_⟩
    change update s'.pending interaction _ other = _
    rw [update_of_ne there, quiet.pending]
    exact update_of_ne there _ _
  exact answerable.rewritten elsewhere found (update_self _ _ _) rpcId input

theorem showInputQuestion_answerable (answerable : Answerable s) (shown : Shown calls s interaction) :
    Ends (showInputQuestion attachment calls ownerId interaction) s Answerable := by
  unfold showInputQuestion
  rw [ends_takePending]
  cases found : s.pending interaction with
  | none =>
    rw [update_absent found]
    exact answerable
  | some pending =>
    obtain ⟨some_input, succeeds⟩ := shown pending found
    obtain ⟨progress, input⟩ := Option.isSome_iff_exists.mp some_input
    simp only [input]
    refine newGroup_silent.ends_bind fun actionGroup drawn first => ?_
    have issued := issueActions_silent attachment ownerId actionGroup
      (inputActions interaction progress)
    refine issued.ends_bind fun _ shown second => ?_
    rw [perform_of_succeeds succeeds, ends_pure_bind]
    exact answerable.put found (first.trans second) rfl input.symm

theorem beginCustomInput_answerable (answerable : Answerable s)
    (shown : Shown calls s interaction) :
    Ends (beginCustomInput calls interaction) s Answerable := by
  unfold beginCustomInput
  rw [ends_takePending]
  cases found : s.pending interaction with
  | none =>
    rw [update_absent found]
    exact answerable
  | some pending =>
    obtain ⟨some_input, succeeds⟩ := shown pending found
    obtain ⟨progress, input⟩ := Option.isSome_iff_exists.mp some_input
    simp only [input]
    rw [perform_of_succeeds succeeds, ends_pure_bind]
    have stored : Ends (putPending interaction pending) (s.without interaction) Answerable :=
      answerable.put found (Quiet.refl _) rfl rfl
    -- the reply mode does not matter to an answer
    exact Answerable.congr stored rfl rfl

/-- The entry of a new card is a new one, or says what the old one said. -/
def Rendered (attachment : Attachment) (calls : Calls) (s : Interactions)
    (request : InteractionRequest) : Prop :=
  attachment.owner.isSome → calls.succeeds .send →
    ∀ pending, s.pending (interactionKey request) = some pending →
      pending.rpcId = request.rpcId ∧ pending.input = request.input

theorem renderInteraction_answerable {request : InteractionRequest} {delivery : DeliveryClass}
    (answerable : Answerable s) (rendered : Rendered attachment calls s request) :
    Ends (renderInteraction attachment calls request delivery) s Answerable := by
  unfold renderInteraction
  split
  · exact answerable
  · rename_i ownerId owner
    refine newGroup_silent.ends_bind fun actionGroup drawn first => ?_
    refine (issueActions_silent attachment ownerId actionGroup _).ends_bind fun _ issued second => ?_
    have quiet := first.trans second
    refine ends_perform_bind (fun _ => quiet.answerable answerable) fun sent => ?_
    refine answerable.rendered (rendered (by rw [owner]; rfl) sent) ?_ ?_
      (update_self _ _ _) rfl rfl
    · exact congrArg (· ++ [Effect.rendered request]) quiet.log
    · intro other there
      change update issued.pending _ _ other = _
      rw [update_of_ne there, quiet.pending]

/-! ## Answers -/

/-- The answer is to a question, and the call that it needs succeeds: the last answer is handed to
the agent, any other one is shown on the card. -/
def Answered (attachment : Attachment) (calls : Calls) (s : Interactions)
    (interaction : InteractionKey) (answer : String) : Prop :=
  attachment.session = some interaction.sessionId →
    ∀ pending, s.pending interaction = some pending →
      ∃ progress question slot, pending.input = some progress ∧
        progress.slot = some (question, slot) ∧
        (InputProgress.refuses question slot answer = false →
          if progress.completes question answer then calls.succeeds (.resolve interaction)
          else calls.succeeds (.update interaction))

/-- Once the request is handed over, nothing is owed under its key. -/
theorem Answerable.over (answerable : Answerable s) {pending : PendingInteractionView}
    (found : s.pending interaction = some pending)
    (respects : Respects (Elsewhere interaction) rest)
    (others : ∀ other, other ≠ interaction → s'.pending other = s.pending other)
    (gone : s'.pending interaction = none) {log : List Effect}
    (known : openRequests log = openRequests s.log ∨ ∃ answer,
      openRequests log = (openRequests s.log).after (.answered interaction answer))
    (handed : s'.log = log ++ [.handed interaction.sessionId pending.rpcId]) :
    Ends rest s' Answerable := by
  have kept := answerable.handed found known others handed
  exact kept.elsewhere respects (kept.closed gone)

theorem elsewhere_of_quiet (quiet : Respects Quiet rest) (interaction : InteractionKey) :
    Respects (Elsewhere interaction) rest :=
  fun s => (quiet s).elsewhere interaction

theorem finish_elsewhere (calls : Calls) (elsewhere : Respects (Elsewhere interaction) rest) :
    Respects (Elsewhere interaction) (do
      finishQueuedQuestion calls interaction
      rest) := by
  have trans : ∀ {a b c : Interactions}, Elsewhere interaction a b → Elsewhere interaction b c →
      Elsewhere interaction a c := fun first second => first.trans second
  exact @respects_bind Interactions Unit Unit (Elsewhere interaction) @trans _ _
    (finishQueuedQuestion_elsewhere calls interaction) fun _ => elsewhere

theorem answerInput_answerable {answer : String} (answerable : Answerable s)
    (answered : Answered attachment calls s interaction answer) :
    Ends (answerInput attachment calls ownerId interaction answer) s Answerable := by
  unfold answerInput
  split
  · exact answerable
  · rename_i current
    rw [ends_takePending]
    cases found : s.pending interaction with
    | none =>
      rw [update_absent found]
      exact answerable
    | some pending =>
      obtain ⟨progress, question, slot, input, asked, needed⟩ :=
        answered (not_not.mp current) pending found
      simp only [input, asked]
      split
      · -- a refused answer leaves the entry as it was
        exact answerable.put found (Quiet.refl _) rfl rfl
      · rename_i accepted
        have needed := needed (eq_false_of_ne_true accepted)
        have given : progress.answered answer = progress.record question slot answer := by
          simp only [InputProgress.answered, asked]
        rw [ends_noted_bind]
        split
        · -- the card shows the answer, and the entry comes back with it
          rename_i further
          rw [InputProgress.record_lt_iff asked] at further
          rw [further] at needed
          refine newGroup_silent.ends_bind fun actionGroup drawn first => ?_
          have issued := issueActions_silent attachment ownerId actionGroup
            (inputActions interaction (progress.record question slot answer))
          refine issued.ends_bind fun _ shown second => ?_
          rw [perform_of_succeeds needed, ends_pure_bind]
          have quiet := first.trans second
          refine answerable.answered found input quiet.log (fun other there => ?_)
            (update_self _ _ _) rfl (congrArg some given.symm)
          change update shown.pending _ _ other = _
          rw [update_of_ne there, quiet.pending]
          exact update_of_ne there _ _
        · -- the agent has the answers
          rename_i last
          rw [InputProgress.record_lt_iff asked, Bool.not_eq_false] at last
          rw [last] at needed
          unfold resolveInteraction
          rw [perform_of_succeeds needed, pure_bind, ends_noted_bind]
          exact answerable.over found
            (finish_elsewhere calls (elsewhere_of_quiet (perform_quiet calls _) interaction))
            (fun other there => update_of_ne there _ _) (update_self _ _ _)
            (.inr ⟨answer, openRequests_snoc _ _⟩) rfl

/-! ## Decisions -/

/-- The decision is on the request that has the entry, and the agent takes it. -/
def Resolved (calls : Calls) (s : Interactions) (interaction : InteractionKey)
    (decision : InteractionDecision) : Prop :=
  ∀ pending, s.pending interaction = some pending →
    (pending.sessionSwitchClient = none ∨ calls.succeeds .switch) →
      pending.rpcId = decision.rpcId ∧ calls.succeeds (.resolve interaction)

theorem runResolve_answerable {decision : InteractionDecision} (answerable : Answerable s)
    (resolved : Resolved calls s interaction decision) :
    Ends (runAction attachment calls ownerId (.resolve interaction decision)) s Answerable := by
  have shown : ∀ pending : Option PendingInteractionView,
      Respects Quiet (if pending.isSome then perform calls (.update interaction) else pure ()) := by
    intro pending
    split
    · exact perform_quiet calls _
    · exact fun s => Quiet.refl s
  have taken : (∀ pending, s.pending interaction = some pending →
      pending.sessionSwitchClient = none ∨ calls.succeeds .switch) →
      Ends (do
        let pending ← takePending interaction
        resolveInteraction calls interaction decision
        finishQueuedQuestion calls interaction
        if pending.isSome then perform calls (.update interaction)) s Answerable := by
    intro free
    rw [ends_takePending]
    unfold resolveInteraction
    rw [bind_assoc]
    cases found : s.pending interaction with
    | none =>
      rw [update_absent found]
      refine ends_perform_bind (fun _ => answerable) fun _ => ?_
      rw [ends_noted_bind]
      have kept : Answerable
          { s with log := s.log ++ [.handed interaction.sessionId decision.rpcId] } :=
        answerable.handed_other rfl rfl
      exact kept.elsewhere
        (finish_elsewhere calls (elsewhere_of_quiet (shown none) interaction)) (kept.closed found)
    | some pending =>
      obtain ⟨named, succeeds⟩ := resolved pending found (free pending found)
      rw [perform_of_succeeds succeeds, ends_pure_bind, ends_noted_bind, ← named]
      exact answerable.over found
        (finish_elsewhere calls (elsewhere_of_quiet (shown (some pending)) interaction))
        (fun other there => update_of_ne there _ _) (update_self _ _ _)
        (.inl rfl) rfl
  unfold runAction
  rw [ends_get_bind]
  dsimp only
  split
  · refine ends_perform_bind (fun _ => answerable) fun succeeds => ?_
    exact taken fun _ _ => .inr succeeds
  · rename_i free
    refine taken fun pending found => .inl ?_
    rw [found] at free
    simpa using free

/-! ## Cancellations -/

/-- The reply mode is as it was, and no entry is new. -/
structure Shrinks (s s' : Interactions) : Prop where
  replyMode : s'.replyMode = s.replyMode
  pending : ∀ interaction pending, s'.pending interaction = some pending →
    s.pending interaction = some pending

theorem Shrinks.trans {a b c : Interactions} (first : Shrinks a b) (second : Shrinks b c) :
    Shrinks a c :=
  ⟨second.replyMode.trans first.replyMode,
    fun interaction pending found => first.pending _ _ (second.pending interaction pending found)⟩

theorem Shrinks.absent (shrinks : Shrinks s s') (absent : s.pending interaction = none) :
    s'.pending interaction = none := by
  cases found : s'.pending interaction with
  | none => rfl
  | some pending => exact absurd (shrinks.pending _ _ found) (by simp [absent])

/-- What a cancellation that the agent takes leaves of a request. -/
structure Cancelled (s : Interactions) (interaction : InteractionKey) (s' : Interactions) :
    Prop where
  answerable : Answerable s'
  gone : s'.pending interaction = none
  shrinks : Shrinks s s'

theorem cancelChoice_spec (answerable : Answerable s)
    (succeeds : calls.succeeds (.resolve interaction)) :
    Ends (cancelChoice calls interaction) s (Cancelled s interaction) := by
  unfold cancelChoice
  rw [ends_takePending]
  cases found : s.pending interaction with
  | none =>
    rw [update_absent found]
    exact ⟨answerable, found, rfl, fun _ _ => id⟩
  | some pending =>
    have cancelled : ∀ s', Quiet (s.without interaction) s' → ∀ s'', Quiet
        { s' with log := s'.log ++ [.handed interaction.sessionId pending.rpcId] } s'' →
        Cancelled s interaction s'' := by
      intro s' quiet s'' quiet'
      have entries : s''.pending = update s.pending interaction none :=
        quiet'.pending.trans quiet.pending
      refine ⟨?_, ?_, quiet'.replyMode.trans quiet.replyMode, fun other pending' kept => ?_⟩
      · refine answerable.handed found (.inl rfl) (fun other there => ?_) (quiet'.log.trans ?_)
        · rw [entries, update_of_ne there]
        · exact congrArg (· ++ [Effect.handed interaction.sessionId pending.rpcId]) quiet.log
      · rw [entries, update_self]
      · rw [entries] at kept
        by_cases here : other = interaction
        · rw [here, update_self] at kept
          cases kept
        · rwa [update_of_ne here] at kept
    refine (revokeActionGroup_silent pending.actionGroup).ends_bind fun _ s' quiet => ?_
    dsimp only
    rw [if_pos succeeds, ends_noted_bind]
    have written : Respects Quiet (do perform calls (.update interaction); pure ()) :=
      quiet_bind (perform_quiet calls _) fun _ s => Quiet.refl s
    split
    · exact (quiet_bind (perform_quiet calls _) fun _ => written).ends (cancelled s' quiet)
    · exact written.ends (cancelled s' quiet)

/-- What the cancellations leave, when all of them come to their end. -/
theorem cancelChoices_spec {order : List InteractionKey} (answerable : Answerable s)
    (succeeds : ∀ interaction ∈ order, calls.succeeds (.resolve interaction)) :
    Answerable (run (cancelChoices calls order) s).2 ∧
      Shrinks s (run (cancelChoices calls order) s).2 ∧
      ((run (cancelChoices calls order) s).1 = .ok () → ∀ interaction ∈ order,
        (run (cancelChoices calls order) s).2.pending interaction = none) := by
  induction order generalizing s with
  | nil => exact ⟨answerable, ⟨rfl, fun _ _ => id⟩, fun _ _ mem => absurd mem not_mem_nil⟩
  | cons interaction rest ih =>
    obtain ⟨first, others⟩ := forall_mem_cons.mp succeeds
    have cancelled := cancelChoice_spec answerable first
    rw [Ends] at cancelled
    rw [cancelChoices, run_bind]
    cases step : run (cancelChoice calls interaction) s with
    | mk answer s' =>
      rw [step] at cancelled
      cases answer with
      | error message =>
        exact ⟨cancelled.answerable, cancelled.shrinks, fun failed => by cases failed⟩
      | ok value =>
        obtain ⟨kept, shrinks, gone⟩ := ih cancelled.answerable others
        refine ⟨kept, cancelled.shrinks.trans shrinks, fun ended => ?_⟩
        exact forall_mem_cons.mpr ⟨shrinks.absent cancelled.gone, gone ended⟩

/-- The agent takes the cancellations, and the question of the reply mode can be shown, unless it
was cancelled as well. -/
def Cancels (attachment : Attachment) (calls : Calls) (s : Interactions)
    (order : List InteractionKey) : Prop :=
  (∀ interaction ∈ s.choices attachment order, calls.succeeds (.resolve interaction)) ∧
    ∀ interaction, s.replyMode = some interaction →
      interaction ∉ s.choices attachment order → Shown calls s interaction

theorem cancelPendingReply_answerable {order : List InteractionKey} (answerable : Answerable s)
    (cancels : Cancels attachment calls s order) :
    Ends (cancelPendingReply attachment calls ownerId order) s Answerable := by
  unfold cancelPendingReply
  rw [ends_get_bind]
  obtain ⟨kept, shrinks, gone⟩ := cancelChoices_spec answerable cancels.1
  refine Served.ends_bind (fun message s' step => ?_) fun value s' step => ?_
  · rw [step] at kept
    exact kept
  · rw [step] at kept shrinks gone
    refine ends_perform_bind (fun _ => kept) fun _ => ?_
    rw [ends_takeReplyMode]
    have read : Answerable { s' with replyMode := none } := kept.congr rfl rfl
    cases mode : s'.replyMode with
    | none => exact ends_perform read
    | some interaction =>
      refine ends_then_quiet (showInputQuestion_answerable read fun pending found => ?_)
        (perform_quiet calls _)
      have uncancelled : interaction ∉ s.choices attachment order := by
        intro mem
        have absent := gone rfl interaction mem
        exact absurd (absent.symm.trans found) (by simp)
      exact cancels.2 interaction (shrinks.replyMode.symm.trans mode) uncancelled pending
        (shrinks.pending interaction pending found)

/-! ## Runs -/

/-- The condition under which a handler keeps the entries. -/
def Spared (attachment : Attachment) (s : Interactions) (label : Event × Calls) : Prop :=
  match label.1 with
  | .render request _ => Rendered attachment label.2 s request
  | .action ownerId token =>
    match (s.consumed attachment ownerId token).1 with
    | .error _ => True
    | .ok (.resolve interaction decision) => Resolved label.2 s interaction decision
    | .ok (.beginInput interaction) | .ok (.beginCustomInput interaction) =>
      Shown label.2 s interaction
    | .ok (.selectInput interaction answer) => Answered attachment label.2 s interaction answer
    | .ok (.submitInput interaction) => Answered attachment label.2 s interaction ""
  | .reply _ text => ∀ interaction, s.replyMode = some interaction →
    Answered attachment label.2 s interaction text
  | .cancel _ order => Cancels attachment label.2 s order
  | .resolved _ | .invalidate _ => True

theorem handleAction_answerable {token : String} (answerable : Answerable s)
    (spared : Spared attachment s (.action ownerId token, calls)) :
    Ends (handleAction attachment calls ownerId token) s Answerable := by
  unfold handleAction
  rw [ends_get_bind]
  change Ends _ { s with actions := (s.consumed attachment ownerId token).2 } Answerable
  have read : Answerable { s with actions := (s.consumed attachment ownerId token).2 } :=
    answerable.congr rfl rfl
  simp only [Spared] at spared
  split
  · exact read
  · rename_i action consumed
    rw [consumed] at spared
    cases action with
    | resolve interaction decision => exact runResolve_answerable read spared
    | beginInput interaction => exact showInputQuestion_answerable read spared
    | selectInput interaction answer => exact answerInput_answerable read spared
    | submitInput interaction => exact answerInput_answerable read spared
    | beginCustomInput interaction => exact beginCustomInput_answerable read spared

theorem handleResolved_answerable (answerable : Answerable s) (interaction : InteractionKey) :
    Ends (handleResolved calls interaction) s Answerable := by
  unfold handleResolved
  rw [ends_noted_bind]
  have closed : Closed interaction
      { s with log := s.log ++ [.resolvedOutside interaction] } := by
    intro id here
    simp [OpenRequests.after, here]
  have but : AnswerableBut interaction
      { s with log := s.log ++ [.resolvedOutside interaction] } := by
    intro id input there opened
    simp only [openRequests_snoc, OpenRequests.after, there, if_false] at opened
    exact answerable id input opened
  exact (but.answerable closed).elsewhere
    (finish_elsewhere calls (resolveExternalInteraction_elsewhere calls interaction)) closed

theorem invalidateSessionActions_answerable (answerable : Answerable s) (session : SessionId) :
    Ends (invalidateSessionActions session) s Answerable := by
  intro id input opened
  change openRequests (s.log ++ [.invalidated session]) id = some input at opened
  rw [openRequests_snoc] at opened
  simp only [OpenRequests.after] at opened
  split at opened
  · cases opened
  · rename_i other
    obtain ⟨pending, found, same⟩ := answerable id input opened
    refine ⟨pending, ?_, same⟩
    change (if id.1 = session then none else s.pending id.key) = some pending
    rw [if_neg other, found]

/-- Every handler that meets the condition keeps the entries of the open requests. -/
theorem handle_answerable {event : Event} (answerable : Answerable s)
    (spared : Spared attachment s (event, calls)) :
    Ends (handle attachment calls event) s Answerable := by
  cases event with
  | render request delivery => exact renderInteraction_answerable answerable spared
  | action ownerId token => exact handleAction_answerable answerable spared
  | reply ownerId text =>
    simp only [handle, handleReply]
    rw [ends_takeReplyMode]
    have read : Answerable { s with replyMode := none } := answerable.congr rfl rfl
    cases mode : s.replyMode with
    | none => exact read
    | some interaction => exact answerInput_answerable read (spared interaction mode)
  | cancel ownerId order => exact cancelPendingReply_answerable answerable spared
  | resolved interaction => exact handleResolved_answerable answerable interaction
  | invalidate session => exact invalidateSessionActions_answerable answerable session

end Agentix.Flows
