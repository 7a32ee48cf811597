import Agentix.Codex.Matching
import Agentix.Codex.Outcomes
import Agentix.Codex.Threads
import Agentix.Codex.Watching

/-! # Terminals

Terminals keep their sessions: who is bound stays bound, and who is not gets the first session left.
-/

namespace Agentix.Codex

open Lib List Prod

variable {P T : Type} [DecidableEq P]

theorem after_concat (calls : List (Iteration P × Poll P T)) (iteration : Iteration P)
    (poll : Poll P T) : Bindings.after (calls ++ [(iteration, poll)]) =
      ((Bindings.after calls).resolve iteration poll.loaded poll.snapshot).2 := by
  rw [Bindings.after, Bindings.after, foldl_concat]

theorem after_injective (calls : List (Iteration P × Poll P T)) {pid pid' : Nat}
    {session : SessionId} (here : Bindings.after calls pid = some session)
    (there : Bindings.after calls pid' = some session) : pid = pid' := by
  induction calls using reverseRecOn generalizing pid pid' session with
  | nil => cases here
  | append_singleton calls call ih =>
    rw [after_concat calls call.1 call.2] at here there
    exact (Bindings.settled_resolve (Bindings.after calls) call.2 call.1
      ih).injective here there

theorem settled_after (calls : List (Iteration P × Poll P T)) (iteration : Iteration P)
    (poll : Poll P T) :
    Settled (Bindings.after calls) (Bindings.after (calls ++ [(iteration, poll)])) poll := by
  rw [after_concat]
  exact Bindings.settled_resolve _ _ _ (after_injective calls)

theorem after_kept (calls more : List (Iteration P × Poll P T)) {pid : Nat} {session : SessionId}
    (bound : Bindings.after calls pid = some session)
    (lasting : ∀ call ∈ more, pid ∈ call.2.snapshot.daemonClients.map DaemonClient.pid ∧
      session ∈ call.2.loaded.map SessionSummary.id ∧
        session ∉ call.2.snapshot.directSessionIds) :
    Bindings.after (calls ++ more) pid = some session := by
  induction more using reverseRecOn with
  | nil => rwa [append_nil]
  | append_singleton more call ih =>
    have before := ih fun call mem =>
      lasting call (mem_append_left _ mem)
    obtain ⟨present, loaded, free⟩ := lasting call (mem_append_right _ mem_cons_self)
    obtain ⟨client, known, rfl⟩ := mem_map.mp present
    rw [← append_assoc]
    exact (settled_after (calls ++ more) call.1 call.2).kept known before loaded free

theorem resolve_unique (bindings : Bindings) (poll : Poll P T) (iteration other : Iteration P) :
    bindings.resolve iteration poll.loaded poll.snapshot =
      bindings.resolve other poll.loaded poll.snapshot := by
  simp only [Bindings.resolve]
  rw [resolveRunningSessions_unique poll.distinct (Bindings.unresolved_pids poll.pids)
    iteration other]

theorem after_unique (calls others : List (Iteration P × Poll P T))
    (same : others.map snd = calls.map snd) :
    Bindings.after others = Bindings.after calls := by
  induction calls using reverseRecOn generalizing others with
  | nil =>
    rw [map_eq_nil_iff.mp same]
  | append_singleton calls call ih =>
    rw [map_append, map_eq_append_iff] at same
    obtain ⟨others, last, rfl, before, now⟩ := same
    obtain ⟨other, rfl, poll⟩ := map_eq_singleton_iff.mp now
    rw [after_concat others other.1 other.2, after_concat calls call.1 call.2,
      ih others before, poll]
    exact congrArg snd (resolve_unique _ _ _ _)

/-- Every call leaves bindings that nobody shares, of clients to loaded sessions of their own
directories that no process owns; it keeps what can be kept, and gives the sessions that nobody held
to the clients without one, in order, until one of them runs out.  A binding lasts over any calls
that list its client and its session.  The order of a map's keys, and the arrangement of the
candidates that are not first, do not matter. -/
theorem clients_keep_their_sessions (calls : List (Iteration P × Poll P T))
    (iteration : Iteration P) (poll : Poll P T) :
    Settled (Bindings.after calls) (Bindings.after (calls ++ [(iteration, poll)])) poll ∧
      (∀ pid session more, Bindings.after calls pid = some session →
        (∀ call ∈ more, pid ∈ call.2.snapshot.daemonClients.map DaemonClient.pid ∧
          session ∈ call.2.loaded.map SessionSummary.id ∧
            session ∉ call.2.snapshot.directSessionIds) →
        Bindings.after (calls ++ more) pid = some session) ∧
      ∀ others : List (Iteration P × Poll P T), others.map snd = calls.map snd → ∀ other,
        (Bindings.after others).resolve other poll.loaded poll.snapshot =
          (Bindings.after calls).resolve iteration poll.loaded poll.snapshot := by
  refine ⟨settled_after calls iteration poll, fun pid session more => after_kept calls more, ?_⟩
  intro others same other
  rw [after_unique calls others same]
  exact resolve_unique _ _ _ _

/-- Two sessions of a directory, the second one active. -/
def sessions : List (SessionSummary String) :=
  [⟨"older", some "/work", some 1, .idle⟩, ⟨"newer", some "/work", some 2, .active⟩]

/-- Two clients of the directory. -/
def bothClients : Poll String String where
  loaded := sessions
  snapshot := ⟨∅, fun _ => none, [⟨100, "/work", some "%0"⟩, ⟨200, "/work", none⟩]⟩
  distinct := by decide
  pids := by decide

/-- The newer client has exited. -/
def olderClient : Poll String String where
  loaded := sessions
  snapshot := ⟨∅, fun _ => none, [⟨100, "/work", some "%0"⟩]⟩
  distinct := by decide
  pids := by decide

/-- Keys as they come, candidates sorted. -/
def sorted : Iteration String := ⟨id, fun _ => .refl _, .sorting⟩

/-- The older client keeps the older session when the newer client exits. -/
theorem older_client_keeps_its_session :
    Bindings.after [(sorted, bothClients)] 100 = some "older" ∧
      Bindings.after [(sorted, bothClients)] 200 = some "newer" ∧
      Bindings.after [(sorted, bothClients), (sorted, olderClient)] 100 = some "older" := by
  have first : Bindings.after [(sorted, bothClients)] 100 = some "older" := by decide
  have second : Bindings.after [(sorted, bothClients)] 200 = some "newer" := by decide
  obtain ⟨settled, lasting, -⟩ :=
    clients_keep_their_sessions [(sorted, bothClients)] sorted olderClient
  refine ⟨first, second, lasting 100 "older" [(sorted, olderClient)] first ?_⟩
  intro call member
  rw [mem_singleton.mp member]
  exact ⟨by decide, by decide, by decide⟩

end Agentix.Codex

/-! # Outcomes of requests to the app server

The outcome that a call reports is never mistaken.
-/

namespace Agentix.Codex

open Lib

variable {V : Type}

namespace RpcState

/-- What the outcomes of calls say, between any two steps. -/
structure Faithful (s : RpcState V) : Prop where
  /-- A response is taken once. -/
  once : (s.replies.log.map Prod.fst).Nodup
  /-- A call that has an answer has the one that came for it. -/
  answered : ∀ id call value, s.calls id = some call → call.phase = .done (.ok value) →
    (id, .ok value) ∈ s.replies.log
  rejected : ∀ id call code message, s.calls id = some call →
    call.phase = .done (.error (.rpc code message)) → (id, .error ⟨code, message⟩) ∈ s.replies.log
  /-- An entry belongs to a call that goes on. -/
  pending : ∀ id, s.replies.pending id = true →
    ∃ call, s.calls id = some call ∧ call.phase.active = true
  /-- A call hands its frame over once. -/
  handed : s.frames.Nodup
  /-- A call that is made again after a reconnection hands over one frame, unless its method may be
  repeated. -/
  unrepeated : ∀ number id id' call call', s.calls id = some call → s.calls id' = some call' →
    call.owner = some number → call'.owner = some number → call.method ∉ idempotent →
      id ∈ s.frames → id' ∈ s.frames → id = id'
  /-- An error that is neither uncertain nor the peer's says that nothing was handed over. -/
  certain : ∀ id call error, s.calls id = some call → call.phase = .done (.error error) →
    call.method ∉ idempotent → error.certain = true → id ∉ s.frames

/-- Outcomes are faithful in every run.  A response leaves every other call as it is, and does
nothing when its call does not wait. -/
theorem outcomes_are_faithful (s : RpcState V) (run : system.Reachable System.always s) :
    s.Faithful ∧ ∀ id response s', s.step (.response id response) = some s' →
      s'.calls = s.calls ∧ (∀ other, other ≠ id → s'.replies.slot other = s.replies.slot other) ∧
        (s.replies.pending id = false → s'.replies = s.replies) := by
  have sound := sound_of_reachable run
  constructor
  · exact {
      once := sound.replies.once
      answered := fun id call value found => (sound.result id call found).ok value
      rejected := fun id call code message found => (sound.result id call found).rpc code message
      pending := sound.pending
      handed := sound.once
      unrepeated := fun number id id' call call' => sound.single id id' call call' number
      certain := fun id call error found => (sound.result id call found).unsent error }
  · intro id response s' next
    simp only [RpcState.step, read] at next
    split at next
    · cases next
      refine ⟨rfl, fun other differs => Replies.answer_slot_of_ne differs, fun gone => ?_⟩
      simp [Replies.answer, gone]
    · cases next

/-- A prompt is sent, and the connection is lost. -/
def lost : List (RpcStep Unit) :=
  [.request "turn/start", .lock 2, .sent 2, .disconnect, .receive 2]

/-- A prompt waits for the writer until its deadline, and another one is answered. -/
def waits : List (RpcStep Unit) :=
  [.request "turn/start", .request "turn/start", .lock 2, .expire 3, .sent 2,
    .response 2 (.ok ()), .receive 2]

theorem reachable_of_steps {s : RpcState Unit} (steps : List (RpcStep Unit))
    (ran : steps.foldlM RpcState.step start = some s) : system.Reachable System.always s :=
  System.reachable_of_foldlM steps ran

/-- A prompt whose connection is lost is uncertain; one that never got the writer was not sent. -/
theorem prompts_are_not_repeated :
    (∃ s : RpcState Unit, system.Reachable System.always s ∧ s.Faithful ∧
      s.calls 2 = some ⟨"turn/start", none, .done (.error (.uncertain .responseClosed))⟩) ∧
    ∃ s : RpcState Unit, system.Reachable System.always s ∧ 3 ∉ s.frames ∧
      s.calls 3 = some ⟨"turn/start", none, .done (.error .timeout)⟩ ∧
      (2, .ok ()) ∈ s.replies.log := by
  have first := reachable_of_steps lost rfl
  have second := reachable_of_steps waits rfl
  refine ⟨⟨_, first, (outcomes_are_faithful _ first).1, rfl⟩, _, second, ?_, rfl, ?_⟩
  · exact (outcomes_are_faithful _ second).1.certain 3 _ _ rfl rfl (by decide) rfl
  · exact (outcomes_are_faithful _ second).1.answered 2 _ () rfl rfl

end RpcState

end Agentix.Codex

/-! # Observed turns

A session that is only read has its turns closed when the polls read them ended.
-/

namespace Agentix.Codex

open Lib List

namespace Observation

variable {o : Observation} {s s' : ObservedSession}

/-- Whether a poll comes in time decides whether it leaves the turns closed. -/
theorem closed_publish (watched : o.Watched s) (next : s.publish o.session = some s')
    (closed : o.Closed s.events) : o.Closed s'.events ↔ o.Caught s .publish := by
  obtain ⟨turn, reading, ⟨detached, rfl⟩ | ⟨previous, observed, -, -, -, -, events⟩⟩ :=
    publish_cases next
  · apply iff_of_true closed
    intro _ turn previous _ observed
    rw [detached] at observed
    cases observed
  · have caught : o.Caught s .publish ↔ (turn.opens previous = true → ∀ id, o.Opened s id →
        ∃ read ∈ s.reads, read.id = id ∧ read.status.terminal = true) := by
      constructor
      · intro caught
        exact caught rfl turn previous reading observed
      · intro caught _ turn' previous' reading' observed'
        cases reading.symm.trans reading'
        cases observed.symm.trans observed'
        exact caught
    rw [caught, events]
    by_cases same : previous = some turn
    · -- a snapshot that is read again is not published
      rw [if_pos same, append_nil]
      apply iff_of_true closed
      intro opens
      simp [TurnSummary.opens, same] at opens
    · rw [if_neg same, closed_append closed]
      apply forall_congr'
      intro opens
      apply forall_congr'
      intro id
      rw [watched.started]
      apply forall_congr'
      intro opened
      constructor
      · rintro ⟨status, error, completed⟩
        exact watched.ended id status error completed
      · rintro ⟨read, mem, rfl, terminal⟩
        exact watched.completed read mem terminal opened.1

theorem events_of_step {label : ObservedStep} (next : s.step o.session label = some s')
    (other : label ≠ .publish) : s'.events = s.events := by
  cases label with
  | begins turn =>
    simp only [ObservedSession.step, ObservedSession.begins] at next
    split at next <;> cases next
    rfl
  | changes turn =>
    obtain ⟨last, -, next⟩ := Option.bind_eq_some_iff.mp next
    split at next <;> cases next
    rfl
  | read =>
    simp only [ObservedSession.step, ObservedSession.read] at next
    split at next <;> cases next
    rfl
  | publish => exact absurd rfl other
  | detach =>
    cases next
    rfl

/-- In every run in which each turn that a poll has found in progress is read again, after its end,
before a poll finds another one in progress, a turn is only started when the turns started before it
have been completed.  Any poll that comes too late for one of them breaks this. -/
theorem started_turns_are_closed (o : Observation) :
    (∀ s, o.system.Reachable o.Caught s → o.Closed s.events) ∧
      ∀ s s', o.system.Reachable System.always s → s.step o.session .publish = some s' →
        o.Closed s.events → (o.Closed s'.events ↔ o.Caught s .publish) := by
  constructor
  · intro s run
    apply run.invariant fun s => o.Closed s.events
    · intro before turn after split
      cases before <;> cases split
    · intro s s' label before caught closed next
      by_cases poll : label = .publish
      · subst poll
        exact (closed_publish (watched_of_reachable before) next closed).mpr caught
      · rw [events_of_step next poll]
        exact closed
  · intro s s' run next closed
    exact closed_publish (watched_of_reachable run) next closed

def turn (id : String) (status : TurnStatus) : TurnSummary :=
  ⟨id, status, some "prompt", none, [], []⟩

/-- A session without turns. -/
def empty : Observation where
  session := "thread"
  turns := []
  found := none
  distinct := nodup_nil
  ended := by simp
  known := .inl rfl

def late : List ObservedStep :=
  [.begins (turn "first" .inProgress), .read, .publish, .changes (turn "first" .completed),
    .begins (turn "second" .inProgress), .read, .publish]

/-- A turn that ends between two polls stays open. -/
theorem missed_turn_stays_open :
    ∃ s, empty.system.Reachable System.always s ∧ ¬ empty.Closed s.events := by
  refine ⟨_, System.reachable_of_foldlM late rfl, fun closed => ?_⟩
  obtain ⟨status, error, completed⟩ := closed
    (publishTurnSnapshot "thread" none (turn "first" .inProgress)) "second" _ rfl "first"
    (mem_publish_started.mpr ⟨rfl, rfl, rfl⟩)
  have ended := (mem_publish_completed.mp completed).1
  cases ended

/-- A poll in time closes the first turn before the second one is started. -/
theorem caught_turn_is_closed : ∃ s, empty.system.Reachable empty.Caught s ∧
    s.observed = some (some (turn "second" .inProgress)) ∧ empty.Closed s.events := by
  have other : ∀ {s s'} label, empty.system.Reachable empty.Caught s → label ≠ .publish →
      s.step "thread" label = some s' → empty.system.Reachable empty.Caught s' :=
    fun _ before differs next => before.step (fun same => absurd same differs) next
  have poll : ∀ {s s'}, empty.system.Reachable empty.Caught s → empty.Caught s .publish →
      s.step "thread" .publish = some s' → empty.system.Reachable empty.Caught s' :=
    fun before caught next => before.step caught next
  have read := other .read (other (.begins (turn "first" .inProgress)) .start nofun rfl) nofun rfl
  have opened := poll read (by
    -- nothing has been read before
    rintro - _ _ _ _ _ id ⟨-, first, found, -⟩
    cases found) rfl
  have again := other .read (other (.changes (turn "first" .completed)) opened nofun rfl) nofun rfl
  have closed := poll again (by
    -- the turn that is read has ended
    intro _ _ _ reading _ opens
    cases reading
    cases opens) rfl
  have next := other .read (other (.begins (turn "second" .inProgress)) closed nofun rfl) nofun rfl
  have last := poll next (by
    rintro - _ _ _ _ _ id ⟨-, first, found, -⟩
    have same := find?_some found
    have member := mem_of_find?_eq_some found
    refine ⟨turn "first" .completed, mem_cons_of_mem _ mem_cons_self, ?_, rfl⟩
    obtain rfl | ended := mem_cons.mp member
    · exact of_decide_eq_true same
    · rw [mem_singleton.mp ended] at same
      exact of_decide_eq_true same) rfl
  exact ⟨_, last, rfl, (started_turns_are_closed empty).1 _ last⟩

end Observation

end Agentix.Codex

/-! # Announcements of background turns

The polls of a session announce each turn once, while rollbacks leave them what they remember.
-/

namespace Agentix.Codex

open Lib List

namespace Thread

/-- In every run in which rollbacks leave the turn that a poll remembers and the turn that was
delivered last, or take every ended turn before them with them, the polls announce no turn twice and
none that was delivered before, in the order of their execution, and only turns that ended after the
client had started. -/
theorem turns_are_announced_once (thread : Thread) {s : BackgroundState}
    (run : thread.system.Reachable thread.Lasting s) : thread.Announced s :=
  (kept_of_reachable run).announced

/-- Names of turns by their length. -/
def tally (n : Nat) : String := String.ofList (replicate n 'a')

theorem tally_injective : tally.Injective := by
  intro m n same
  have lengths := congrArg String.length same
  simpa [tally] using lengths

def old : Thread where
  session := "thread"
  name := tally
  distinct := tally_injective
  startedAt := 10
  begun := 1
  listed := [0]
  status := fun n => if n = 0 then .completed else .inProgress
  endedAt := fun n => if n = 0 then some 5 else none
  completedAt := fun n => if n = 0 then some 5 else none
  sorted := pairwise_singleton _ _
  known := by simp
  future := by
    intro n bound
    rw [if_neg (by omega)]
  terminal := by
    intro n
    by_cases first : n = 0 <;> simp [first, TurnStatus.terminal]
  reported := fun _ _ same => same

def poll : List BackgroundStep := [.select, .answer, .settle true, .publish]

def rollsBack : List BackgroundStep :=
  poll ++ [.begins, .ends 1 .completed true none] ++ poll ++ [.rollback [1]] ++ poll

/-- After a rollback, a turn is announced that had ended before the client started. -/
theorem old_turn_is_announced :
    ∃ s, old.system.Reachable System.always s ∧ ¬ old.Announced s := by
  refine ⟨_, System.reachable_of_foldlM rollsBack rfl, fun announced => ?_⟩
  obtain ⟨n, time, same, ended, bound⟩ := announced.recent
    (.announced (.turnCompleted "thread" (tally 0) .completed none))
    (mem_cons_of_mem _ mem_cons_self) rfl
  cases tally_injective same
  cases ended
  have late : 10 ≤ 5 := bound
  omega

/-- Without a rollback, the second turn is announced, and nothing else. -/
theorem second_turn_is_announced : ∃ s, old.system.Reachable old.Lasting s ∧ old.Announced s ∧
    s.log = [.announced (.turnCompleted "thread" (tally 1) .completed none)] := by
  have free : ∀ {s s'} step, old.system.Reachable old.Lasting s → old.Lasting s step →
      old.step s step = some s' → old.system.Reachable old.Lasting s' :=
    fun _ before lasting next => before.step lasting next
  have asked := free .answer (free .select .start trivial rfl) trivial rfl
  have first := free .publish (free (.settle true) asked nofun rfl) nofun rfl
  have ended := free (.ends 1 .completed true none) (free .begins first trivial rfl) trivial rfl
  have again := free .answer (free .select ended trivial rfl) trivial rfl
  have settled := free (.settle true) again (by
    -- the first turn is still listed
    intro turns anchor polling latest
    cases polling
    cases latest
    exact .inl ⟨_, mem_cons_of_mem _ mem_cons_self, rfl, rfl⟩) rfl
  have last := free .publish settled nofun rfl
  exact ⟨_, last, turns_are_announced_once old last, rfl⟩

end Thread

end Agentix.Codex
