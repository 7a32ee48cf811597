import Agentix.Codex.Process

/-! # Snapshots

What the polls publish, as a function of what they read.
-/

namespace Agentix.Codex

open Lib List

/-! ## One poll -/

section

variable {session other : SessionId} {previous : Option TurnSummary} {turn : TurnSummary}
  {id : String} {status : TurnStatus} {error : Option String}

theorem mem_publish_started :
    .turnStarted other id ∈ publishTurnSnapshot session previous turn ↔
      turn.opens previous = true ∧ other = session ∧ id = turn.id := by
  by_cases opens : turn.opens previous = true <;> by_cases ends : turn.status.terminal = true <;>
    simp [publishTurnSnapshot, opens, ends]

theorem mem_publish_completed :
    .turnCompleted other id status error ∈ publishTurnSnapshot session previous turn ↔
      turn.status.terminal = true ∧ other = session ∧ id = turn.id ∧ status = turn.status ∧
        error = none := by
  by_cases opens : turn.opens previous = true <;> by_cases ends : turn.status.terminal = true <;>
    simp [publishTurnSnapshot, opens, ends]

/-- A turn is started before anything else is said about it. -/
theorem publish_of_opens (session : SessionId) (opens : turn.opens previous = true) :
    ∃ rest, publishTurnSnapshot session previous turn = .turnStarted session turn.id :: rest ∧
      ∀ other id, AgentEvent.turnStarted other id ∉ rest := by
  refine ⟨_, by rw [publishTurnSnapshot, if_pos opens]; rfl, fun other id mem => ?_⟩
  by_cases ends : turn.status.terminal = true <;> simp [ends] at mem

end

namespace Observation

variable {o : Observation}

theorem closed_append {events : List AgentEvent} {previous : Option TurnSummary}
    {turn : TurnSummary} (closed : o.Closed events) :
    o.Closed (events ++ publishTurnSnapshot o.session previous turn) ↔
      (turn.opens previous = true → ∀ earlier, .turnStarted o.session earlier ∈ events →
        ∃ status error, .turnCompleted o.session earlier status error ∈ events) := by
  constructor
  · intro after opens
    obtain ⟨rest, published, -⟩ := publish_of_opens o.session opens
    rw [published] at after
    exact after events turn.id rest rfl
  · intro caught before started after split
    obtain ⟨inside, rfl, published⟩ | ⟨inside, rfl, published⟩ :=
      append_eq_append_iff.mp split
    · -- the new events contain the start: it is their first one
      have mem : .turnStarted o.session started ∈
          publishTurnSnapshot o.session previous turn := by
        rw [published]
        exact mem_append_right _ mem_cons_self
      have opens := (mem_publish_started.mp mem).1
      obtain ⟨rest, first, none⟩ := publish_of_opens o.session opens
      rw [first] at published
      cases inside with
      | nil =>
        rw [append_nil]
        exact caught opens
      | cons event inside =>
        obtain ⟨-, rfl⟩ := cons.inj published
        exact absurd (mem_append_right _ mem_cons_self) (none _ _)
    · cases inside with
      | nil =>
        rw [nil_append] at published
        have mem : .turnStarted o.session started ∈
            publishTurnSnapshot o.session previous turn := by
          rw [← published]
          exact mem_cons_self
        rw [append_nil] at caught
        exact caught (mem_publish_started.mp mem).1
      | cons event inside =>
        obtain ⟨rfl, -⟩ := cons.inj published
        exact closed before started inside rfl

/-! ## The order of what is read -/

/-- What has been read of the session, newest last. -/
def seen (o : Observation) (s : ObservedSession) : List TurnSummary :=
  o.found.toList ++ s.reads

/-- Turns are read in the order in which they have begun. -/
structure Ordered (ids : List String) (seen : List TurnSummary) : Prop where
  distinct : ids.Nodup
  known : ∀ turn ∈ seen, turn.id ∈ ids
  sorted : seen.Pairwise fun a b => ids.idxOf a.id ≤ ids.idxOf b.id

namespace Ordered

variable {ids : List String} {seen : List TurnSummary} {turn : TurnSummary} {id : String}

theorem left {more : List TurnSummary} (ordered : Ordered ids (seen ++ more)) : Ordered ids seen where
  distinct := ordered.distinct
  known := fun turn mem => ordered.known turn (mem_append_left _ mem)
  sorted := (pairwise_append.mp ordered.sorted).1

theorem begins (ordered : Ordered ids seen) (new : id ∉ ids) : Ordered (ids ++ [id]) seen where
  distinct := nodup_append.mpr ⟨ordered.distinct, nodup_singleton id, by
    rintro a here b there rfl
    exact new (mem_singleton.mp there ▸ here)⟩
  known := fun turn mem => mem_append_left _ (ordered.known turn mem)
  sorted := by
    apply ordered.sorted.imp_of_mem
    intro a b here there before
    rw [idxOf_append_of_mem (ordered.known a here),
      idxOf_append_of_mem (ordered.known b there)]
    exact before

/-- The newest turn is not before any other. -/
theorem snoc {ids : List String} (ordered : Ordered (ids ++ [turn.id]) seen) :
    Ordered (ids ++ [turn.id]) (seen ++ [turn]) where
  distinct := ordered.distinct
  known := by
    intro other mem
    obtain mem | same := mem_append.mp mem
    · exact ordered.known other mem
    · rw [mem_singleton.mp same]
      exact mem_append_right _ mem_cons_self
  sorted := by
    apply pairwise_append.mpr ⟨ordered.sorted, pairwise_singleton _ _, ?_⟩
    intro other here last there
    rw [mem_singleton.mp there]
    have new : turn.id ∉ ids := fun mem =>
      (nodup_append.mp ordered.distinct).2.2 _ mem _ mem_cons_self rfl
    have position : (ids ++ [turn.id]).idxOf turn.id = ids.length := by
      rw [idxOf_append_of_notMem new]
      simp
    have bound := idxOf_lt_length_of_mem (ordered.known other here)
    rw [length_append, length_singleton] at bound
    omega

/-- A turn that differs from the one read before it has not been read. -/
theorem unread_of_ne (ordered : Ordered ids (seen ++ [turn]))
    (other : ∀ old, seen.getLast? = some old → old.id ≠ turn.id) :
    turn.id ∉ seen.map TurnSummary.id := by
  intro mem
  obtain ⟨old, here, same⟩ := mem_map.mp mem
  obtain ⟨before, last, rfl⟩ : ∃ before last, seen = before ++ [last] :=
    (eq_nil_or_concat' seen).resolve_left (ne_nil_of_mem here)
  have ne := other last getLast?_concat
  have sorted := pairwise_append.mp ordered.sorted
  have after : ids.idxOf last.id ≤ ids.idxOf turn.id :=
    sorted.2.2 last (mem_append_right _ mem_cons_self) turn mem_cons_self
  obtain here | here := mem_append.mp here
  · have first : ids.idxOf old.id ≤ ids.idxOf last.id :=
      (pairwise_append.mp sorted.1).2.2 old here last mem_cons_self
    rw [same] at first
    have known := ordered.known last (mem_append_left _ (mem_append_right _
      mem_cons_self))
    exact ne ((idxOf_inj known).mp (le_antisymm after first))
  · rw [mem_singleton.mp here] at same
    exact ne same

end Ordered

end Observation

end Agentix.Codex

/-! # Observations

What the events of an observation say about the turns that its polls have read.
-/

namespace Agentix.Codex

open Lib List Option

namespace Observation

variable {o : Observation} {s s' : ObservedSession} {label : ObservedStep}

/-- What is kept by every step of an observation. -/
structure Watched (o : Observation) (s : ObservedSession) : Prop where
  ordered : Ordered (s.turns.map TurnSummary.id) (o.seen s ++ s.reading.toList)
  /-- The snapshot that is remembered is the one read last. -/
  last : ∀ previous, s.observed = some previous → previous = (o.seen s).getLast?
  /-- The turns that are started are those that a poll has found in progress. -/
  started : ∀ id, .turnStarted o.session id ∈ s.events ↔ o.Opened s id
  /-- A turn is completed when a poll has read it ended. -/
  ended : ∀ id status error, .turnCompleted o.session id status error ∈ s.events →
    ∃ read ∈ s.reads, read.id = id ∧ read.status.terminal = true
  completed : ∀ read ∈ s.reads, read.status.terminal = true →
    o.found.map TurnSummary.id ≠ some read.id →
      ∃ status error, .turnCompleted o.session read.id status error ∈ s.events

theorem watched_start : o.Watched o.start where
  ordered := by
    refine ⟨o.distinct, fun turn mem => ?_, ?_⟩
    · obtain none | last := o.known
      · simp [seen, start, none] at mem
      · obtain same : o.turns.getLast? = some turn := by
          simpa [seen, start, last] using mem
        exact mem_map_of_mem (mem_of_getLast? same)
    · cases o.found <;> simp [seen, start]
  last := by
    intro previous same
    cases same
    simp only [seen, start, append_nil]
    cases o.found <;> rfl
  started := by simp [start, Opened]
  ended := by simp [start]
  completed := by simp [start]

/-- A step of the session alone, or the end of the observation. -/
theorem Watched.of_same (watched : o.Watched s) (reads : s'.reads = s.reads)
    (events : s'.events = s.events)
    (observed : s'.observed = s.observed ∨ s'.observed = none)
    (ordered : Ordered (s'.turns.map TurnSummary.id) (o.seen s' ++ s'.reading.toList)) :
    o.Watched s' where
  ordered := ordered
  last := by
    intro previous found
    rw [seen, reads]
    obtain same | gone := observed
    · exact watched.last previous (same.symm.trans found)
    · rw [gone] at found
      cases found
  started := by
    intro id
    rw [events, watched.started, Opened, Opened, reads]
  ended := by
    rw [events, reads]
    exact watched.ended
  completed := by
    rw [events, reads]
    exact watched.completed

theorem changes_ids {turn : TurnSummary} (next : s.changes turn = some s') :
    s'.turns.map TurnSummary.id = s.turns.map TurnSummary.id := by
  obtain ⟨last, newest, next⟩ := bind_eq_some_iff.mp next
  obtain ⟨before, turns⟩ := getLast?_eq_some_iff.mp newest
  split at next
  · rename_i same
    cases next
    simp [turns, same.1]
  · cases next

theorem publish_cases {session : SessionId} (next : s.publish session = some s') :
    ∃ turn, s.reading = some turn ∧
      ((s.observed = none ∧ s' = { s with reading := none }) ∨
        ∃ previous, s.observed = some previous ∧ s'.turns = s.turns ∧ s'.reading = none ∧
          s'.reads = s.reads ++ [turn] ∧ s'.observed = some (some turn) ∧
          s'.events = s.events ++
            if previous = some turn then [] else publishTurnSnapshot session previous turn) := by
  obtain ⟨turn, reading, next⟩ := map_eq_some_iff.mp next
  refine ⟨turn, reading, ?_⟩
  cases observed : s.observed with
  | none =>
    rw [observed] at next
    exact .inl ⟨rfl, next.symm⟩
  | some previous =>
    rw [observed] at next
    by_cases same : previous = some turn
    · simp only [if_pos same] at next
      cases next
      exact .inr ⟨previous, rfl, rfl, rfl, rfl, congrArg some same, by rw [if_pos same, append_nil]⟩
    · simp only [if_neg same] at next
      cases next
      exact .inr ⟨previous, rfl, rfl, rfl, rfl, rfl, by rw [if_neg same]⟩

section

variable {turn : TurnSummary} {previous : Option TurnSummary}

/-- A poll starts a turn when it reads it for the first time, in progress. -/
theorem opens_iff (ordered : Ordered (s.turns.map TurnSummary.id) (o.seen s ++ [turn]))
    (last : previous = (o.seen s).getLast?) : turn.opens previous = true ↔
      turn.status = .inProgress ∧ turn.id ∉ (o.seen s).map TurnSummary.id := by
  rw [TurnSummary.opens, decide_eq_true_eq, Option.all_eq_true, last]
  apply and_congr_right
  intro _
  constructor
  · intro other
    exact ordered.unread_of_ne fun old newest => of_decide_eq_true (other old newest)
  · intro unread old newest
    rw [decide_eq_true_eq]
    intro same
    exact unread (same ▸ mem_map_of_mem (mem_of_getLast? newest))

theorem opened_append (reads : s'.reads = s.reads ++ [turn]) (id : String) :
    o.Opened s' id ↔ o.Opened s id ∨
      id = turn.id ∧ turn.status = .inProgress ∧ turn.id ∉ (o.seen s).map TurnSummary.id := by
  have found : turn.id ∉ (o.seen s).map TurnSummary.id ↔
      o.found.map TurnSummary.id ≠ some turn.id ∧
        s.reads.find? (fun read => read.id = turn.id) = none := by
    rw [find?_eq_none]
    cases found : o.found <;> simp [seen, found, eq_comm]
  rw [Opened, Opened, reads, find?_append, found]
  cases before : s.reads.find? fun read => read.id = id with
  | some first =>
    simp only [some_or, some.injEq, exists_eq_left']
    constructor
    · exact .inl
    · rintro (old | ⟨rfl, -, -, none⟩)
      · exact old
      · rw [before] at none
        cases none
  | none =>
    by_cases same : turn.id = id
    · subst same
      simp [before, and_comm]
    · simp [same, Ne.symm same]

end

theorem watched_publish (watched : o.Watched s) (next : s.publish o.session = some s') :
    o.Watched s' := by
  obtain ⟨turn, reading, ⟨detached, rfl⟩ | ⟨previous, observed, turns, idle, reads, now, events⟩⟩ :=
    publish_cases next
  · refine watched.of_same rfl rfl (.inl rfl) ?_
    rw [toList_none, append_nil]
    exact watched.ordered.left
  · have ordered := watched.ordered
    rw [reading, toList_some] at ordered
    have last := watched.last previous observed
    have seen' : o.seen s' = o.seen s ++ [turn] := by
      rw [seen, seen, reads, append_assoc]
    have opens := opens_iff ordered last
    refine ⟨?_, ?_, ?_, ?_, ?_⟩
    · rw [turns, seen', idle, toList_none, append_nil]
      exact ordered
    · intro previous found
      rw [now] at found
      rw [seen', getLast?_concat]
      exact (some.inj found).symm
    · intro id
      rw [events, mem_append, watched.started, opened_append reads]
      apply or_congr_right
      rw [← opens]
      by_cases same : previous = some turn
      · simp [same, TurnSummary.opens]
      · rw [if_neg same, mem_publish_started]
        simp [and_comm]
    · intro id status error mem
      rw [events, mem_append] at mem
      rw [reads]
      obtain before | published := mem
      · obtain ⟨read, here, same⟩ := watched.ended id status error before
        exact ⟨read, mem_append_left _ here, same⟩
      · split at published
        · cases published
        · obtain ⟨terminal, -, rfl, -⟩ := mem_publish_completed.mp published
          exact ⟨turn, mem_append_right _ mem_cons_self, rfl, terminal⟩
    · intro read mem terminal new
      rw [reads, mem_append] at mem
      simp only [events, mem_append]
      have kept : read ∈ s.reads → ∃ status error,
          .turnCompleted o.session read.id status error ∈ s.events :=
        fun here => watched.completed read here terminal new
      obtain here | here := mem
      · obtain ⟨status, error, before⟩ := kept here
        exact ⟨status, error, .inl before⟩
      · rw [mem_singleton] at here
        subst here
        by_cases same : previous = some read
        · -- the same snapshot was read before, and completed then
          have before : read ∈ o.seen s := mem_of_getLast? (last.symm.trans same)
          have here : read ∈ s.reads := by
            obtain found | here := mem_append.mp before
            · rw [mem_toList] at found
              exact absurd (by rw [found]; rfl) new
            · exact here
          obtain ⟨status, error, before⟩ := kept here
          exact ⟨status, error, .inl before⟩
        · rw [if_neg same]
          exact ⟨_, _, .inr (mem_publish_completed.mpr ⟨terminal, rfl, rfl, rfl, rfl⟩)⟩

theorem watched_step (watched : o.Watched s) (next : s.step o.session label = some s') :
    o.Watched s' := by
  cases label with
  | begins turn =>
    simp only [ObservedSession.step, ObservedSession.begins] at next
    split at next
    · rename_i new
      cases next
      refine watched.of_same rfl rfl (.inl rfl) ?_
      rw [map_append]
      exact watched.ordered.begins new.1
    · cases next
  | changes turn =>
    have ids := changes_ids next
    obtain ⟨last, -, next⟩ := bind_eq_some_iff.mp next
    split at next
    · cases next
      refine watched.of_same rfl rfl (.inl rfl) ?_
      rw [ids]
      exact watched.ordered
    · cases next
  | read =>
    simp only [ObservedSession.step, ObservedSession.read] at next
    split at next
    · rename_i idle
      cases next
      have ordered := watched.ordered
      rw [isNone_iff_eq_none.mp idle, toList_none, append_nil] at ordered
      refine watched.of_same rfl rfl (.inl rfl) ?_
      cases newest : s.turns.getLast? with
      | none => simpa [seen, newest] using ordered
      | some turn =>
        obtain ⟨before, turns⟩ := getLast?_eq_some_iff.mp newest
        rw [turns, map_append] at ordered ⊢
        exact ordered.snoc
    · cases next
  | publish => exact watched_publish watched next
  | detach =>
    cases next
    exact watched.of_same rfl rfl (.inr rfl) watched.ordered

theorem watched_of_reachable {condition : ObservedSession → ObservedStep → Prop}
    (run : o.system.Reachable condition s) : o.Watched s :=
  run.invariant o.Watched watched_start fun _ _ watched next => watched_step watched next

end Observation

end Agentix.Codex
