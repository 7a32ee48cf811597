import Agentix.Codex.Process
import Mathlib.Data.List.TakeWhile
import Mathlib.Logic.Function.Basic

/-! # Background turns

The turns of a session that nobody has attached are polled.  A poll lists the turns, newest first,
down to the one remembered from the poll before, or to one that had ended when the client started,
and announces those that have ended.  What is modelled is one session with its entries of the maps
of the client; between the steps of a poll the session goes on, and is attached and detached.
-/

namespace Agentix.Codex

open Lib
open Function (update)

/-- A turn as `thread/turns/list` has it. -/
structure ListedTurn where
  id : String
  status : TurnStatus
  completedAt : Option Nat
  error : Option String
  deriving DecidableEq

namespace ListedTurn

def ended (turn : ListedTurn) : Bool := turn.status.terminal

def completion (session : SessionId) (turn : ListedTurn) : AgentEvent :=
  .turnCompleted session turn.id turn.status turn.error

/-- The remembered turn ends a listing.  Without one, a turn does that had ended when the client
started, or that does not say when. -/
def stops (startedAt : Nat) (previous : Option (Option String)) (turn : ListedTurn) : Bool :=
  previous.join = some turn.id ∨ (previous = none ∧ turn.completedAt.all fun time => time < startedAt)

end ListedTurn

/-- `read_completions`, over the turns of all pages: the turn to remember, and the turns that have
ended since, in the order of their execution. -/
def readCompletions (startedAt : Nat) (previous : Option (Option String))
    (turns : List ListedTurn) : Option String × List ListedTurn :=
  let ended := turns.filter ListedTurn.ended
  ((ended.head?.map ListedTurn.id).or previous.join,
    (ended.takeWhile fun turn => !turn.stops startedAt previous).reverse)

/-- What follows the turn that was delivered last. -/
def undelivered (completed : Option String) (events : List ListedTurn) : List ListedTurn :=
  (events.reverse.takeWhile fun turn => completed ≠ some turn.id).reverse

/-! ## The session and its polls -/

/-- The stages of a poll. -/
inductive Polling where
  | idle
  | asking
  | answered (turns : List ListedTurn)
  | ready (turns events : List ListedTurn)

inductive Notice where
  /-- Announced by a poll. -/
  | announced (event : AgentEvent)
  /-- Delivered by the live subscription. -/
  | delivered (turn : String)

namespace Notice

def turn : Notice → String
  | .announced event => event.turn
  | .delivered turn => turn

def isAnnounced : Notice → Bool
  | .announced _ => true
  | .delivered _ => false

end Notice

/-- A session when the client starts.  Its turns are numbered as they are executed. -/
structure Thread where
  session : SessionId
  name : Nat → String
  distinct : name.Injective
  startedAt : Nat
  begun : Nat
  listed : List Nat
  status : Nat → TurnStatus
  endedAt : Nat → Option Nat
  completedAt : Nat → Option Nat
  sorted : listed.Pairwise (· < ·)
  known : ∀ n ∈ listed, n < begun
  future : ∀ n, begun ≤ n → endedAt n = none
  terminal : ∀ n, (status n).terminal = (endedAt n).isSome
  reported : ∀ n time, completedAt n = some time → endedAt n = some time

structure BackgroundState where
  now : Nat
  begun : Nat
  listed : List Nat
  status : Nat → TurnStatus
  endedAt : Nat → Option Nat
  completedAt : Nat → Option Nat
  error : Nat → Option String
  attached : Bool
  /-- `latest_completed`. -/
  latest : Option (Option String)
  /-- `completed_turns`. -/
  completed : Option String
  polling : Polling
  log : List Notice

inductive BackgroundStep where
  | begins
  | ends (turn : Nat) (status : TurnStatus) (reported : Bool) (error : Option String)
  | rollback (gone : List Nat)
  | tick
  | attach
  | detach
  | delivers (turn : Nat)
  | select
  | answer
  | fail
  | settle (running : Bool)
  | publish

namespace Thread

variable (thread : Thread)

def start : BackgroundState where
  now := thread.startedAt
  begun := thread.begun
  listed := thread.listed
  status := thread.status
  endedAt := thread.endedAt
  completedAt := thread.completedAt
  error := fun _ => none
  attached := false
  latest := none
  completed := none
  polling := .idle
  log := []

/-- A turn as the server lists it. -/
def list (s : BackgroundState) (turn : Nat) : ListedTurn :=
  ⟨thread.name turn, s.status turn, s.completedAt turn, s.error turn⟩

/-- The server ends a turn; it may keep the time to itself. -/
def ends (s : BackgroundState) (turn : Nat) (status : TurnStatus) (reported : Bool)
    (error : Option String) : Option BackgroundState :=
  if turn < s.begun ∧ s.endedAt turn = none ∧ status.terminal then
    some { s with
      status := update s.status turn status
      endedAt := update s.endedAt turn (some s.now)
      completedAt := update s.completedAt turn (if reported then some s.now else none)
      error := update s.error turn error }
  else none

/-- The first check of `poll_selected`. -/
def select (s : BackgroundState) : Option BackgroundState :=
  match s.polling with
  | .idle => some (if s.attached then { s with latest := none } else { s with polling := .asking })
  | _ => none

def answer (s : BackgroundState) : Option BackgroundState :=
  match s.polling with
  | .asking => some { s with polling := .answered (s.listed.map (thread.list s)).reverse }
  | _ => none

def fail (s : BackgroundState) : Option BackgroundState :=
  match s.polling with
  | .asking => some { s with polling := .idle }
  | _ => none

/-- The turn is remembered while the session runs; a session that is attached now is left alone. -/
def settle (s : BackgroundState) (running : Bool) : Option BackgroundState :=
  match s.polling with
  | .answered turns =>
    let (latest, events) := readCompletions thread.startedAt s.latest turns
    some { s with
      latest := if running then some latest else none
      polling := if s.attached then .idle else .ready turns events }
  | _ => none

def publish (s : BackgroundState) : Option BackgroundState :=
  match s.polling with
  | .ready _ events =>
    let events := undelivered s.completed events
    some { s with
      polling := .idle
      completed := (events.getLast?.map ListedTurn.id).or s.completed
      log := s.log ++ events.map fun turn => .announced (turn.completion thread.session) }
  | _ => none

def delivers (s : BackgroundState) (turn : Nat) : Option BackgroundState :=
  if (s.endedAt turn).isSome then
    some { s with
      completed := some (thread.name turn)
      log := s.log ++ [.delivered (thread.name turn)] }
  else none

def step (s : BackgroundState) : BackgroundStep → Option BackgroundState
  | .begins => some { s with begun := s.begun + 1, listed := s.listed ++ [s.begun] }
  | .ends turn status reported error => ends s turn status reported error
  | .rollback gone => some { s with listed := s.listed.filter fun turn => turn ∉ gone }
  | .tick => some { s with now := s.now + 1 }
  | .attach => some { s with attached := true }
  | .detach => some { s with attached := false }
  | .delivers turn => thread.delivers s turn
  | .select => select s
  | .answer => thread.answer s
  | .fail => fail s
  | .settle running => thread.settle s running
  | .publish => thread.publish s

def system : System BackgroundState BackgroundStep := .ofStep thread.start thread.step

/-- A turn was executed before another one. -/
def Before (earlier later : String) : Prop :=
  ∃ m n, earlier = thread.name m ∧ later = thread.name n ∧ m < n

def Anchored (turns : List ListedTurn) (anchor : String) : Prop :=
  (∃ turn ∈ turns, turn.id = anchor ∧ turn.ended = true) ∨
    ∀ turn ∈ turns, turn.ended = true → thread.Before anchor turn.id

/-- A rollback leaves the turn that a poll remembers, and the turn that was delivered last, or takes
with them every ended turn before them.  The live subscription does not go back to older turns. -/
def Lasting (s : BackgroundState) : BackgroundStep → Prop
  | .settle _ => ∀ turns anchor, s.polling = .answered turns → s.latest = some (some anchor) →
      thread.Anchored turns anchor
  | .publish => ∀ turns events anchor, s.polling = .ready turns events →
      s.completed = some anchor → thread.Anchored turns anchor
  | .delivers turn => ∀ anchor, s.completed = some anchor →
      anchor = thread.name turn ∨ thread.Before anchor (thread.name turn)
  | _ => True

/-- What the polls announce. -/
structure Announced (s : BackgroundState) : Prop where
  /-- Nothing is announced that was announced or delivered before. -/
  once : s.log.Pairwise fun earlier later =>
    later.isAnnounced = true → earlier.turn ≠ later.turn
  /-- Turns are announced in the order of their execution. -/
  ordered : (s.log.filter Notice.isAnnounced).Pairwise fun earlier later =>
    thread.Before earlier.turn later.turn
  /-- No turn is announced that had ended when the client started. -/
  recent : ∀ notice ∈ s.log, notice.isAnnounced = true →
    ∃ n time, notice.turn = thread.name n ∧ s.endedAt n = some time ∧ thread.startedAt ≤ time

end Thread

end Agentix.Codex

/-! # Announcements

What a poll of a session knows about the turns that it has listed.
-/

namespace Agentix.Codex

open Lib List
open Function (update)

namespace Thread

variable {thread : Thread} {s s' : BackgroundState} {turns events : List ListedTurn}

theorem Before.trans {a b c : String} (first : thread.Before a b) (second : thread.Before b c) :
    thread.Before a c := by
  obtain ⟨m, n, rfl, rfl, less⟩ := first
  obtain ⟨n', o, same, rfl, more⟩ := second
  cases thread.distinct same
  exact ⟨m, o, rfl, rfl, by omega⟩

theorem Before.ne {a b : String} (before : thread.Before a b) : a ≠ b := by
  obtain ⟨m, n, rfl, rfl, less⟩ := before
  intro same
  have := thread.distinct same
  omega

/-- The turn ended when the client had started. -/
def Recent (thread : Thread) (s : BackgroundState) (turn : String) : Prop :=
  ∃ n time, turn = thread.name n ∧ s.endedAt n = some time ∧ thread.startedAt ≤ time

/-! ## What a poll has read -/

/-- The list that a poll has been given, while the session goes on. -/
structure Answer (thread : Thread) (s : BackgroundState) (turns : List ListedTurn) : Prop where
  sorted : turns.Pairwise fun newer older => thread.Before older.id newer.id
  reported : ∀ turn ∈ turns, turn.ended = true → ∀ time, turn.completedAt = some time →
    thread.startedAt ≤ time → thread.Recent s turn.id
  /-- What comes after the turn that is remembered has ended since. -/
  since : ∀ turn ∈ turns, turn.ended = true → ∀ cursor, s.latest = some cursor →
    (∀ anchor, cursor = some anchor → thread.Before anchor turn.id) → thread.Recent s turn.id
  /-- What was not listed as ended has ended since. -/
  later : ∀ n ∈ s.listed, ∀ time, s.endedAt n = some time →
    thread.startedAt ≤ time ∨ ∃ turn ∈ turns, turn.ended = true ∧ turn.id = thread.name n

/-- What a poll is about to announce. -/
structure Ready (thread : Thread) (s : BackgroundState) (turns events : List ListedTurn) : Prop where
  sorted : events.Pairwise fun older newer => thread.Before older.id newer.id
  recent : ∀ turn ∈ events, thread.Recent s turn.id
  listed : ∀ turn ∈ events, turn ∈ turns ∧ turn.ended = true
  /-- The listed turns that are left out come before those that are announced. -/
  segment : ∀ turn ∈ turns, turn.ended = true →
    turn ∈ events ∨ ∀ event ∈ events, thread.Before turn.id event.id

theorem Answer.ready (answer : thread.Answer s turns)
    (anchored : ∀ anchor, s.latest = some (some anchor) → thread.Anchored turns anchor) :
    thread.Ready s turns (readCompletions thread.startedAt s.latest turns).2 := by
  let ended := turns.filter ListedTurn.ended
  let stop := fun turn : ListedTurn => !turn.stops thread.startedAt s.latest
  have sorted : ended.Pairwise fun newer older => thread.Before older.id newer.id :=
    answer.sorted.sublist filter_sublist
  have parts : ended.takeWhile stop ++ ended.dropWhile stop = ended := takeWhile_append_dropWhile
  rw [← parts, pairwise_append] at sorted
  obtain ⟨newest, -, across⟩ := sorted
  have listed : ∀ turn ∈ ended.takeWhile stop, turn ∈ turns ∧ turn.ended = true :=
    fun turn mem => mem_filter.mp ((takeWhile_sublist stop).subset mem)
  have left : ∀ turn ∈ turns, turn.ended = true →
      turn ∈ ended.takeWhile stop ∨ turn ∈ ended.dropWhile stop := by
    intro turn mem ends
    have here : turn ∈ ended := mem_filter.mpr ⟨mem, ends⟩
    rw [← parts] at here
    exact mem_append.mp here
  show thread.Ready s turns (ended.takeWhile stop).reverse
  constructor
  · exact pairwise_reverse.mpr newest
  · intro turn mem
    rw [mem_reverse] at mem
    obtain ⟨here, ends⟩ := listed turn mem
    have goes := mem_takeWhile_imp mem
    cases latest : s.latest with
    | none =>
      -- without a remembered turn the time of its end decides
      have time : ¬ turn.completedAt.all (fun time => time < thread.startedAt) = true := by
        simpa [stop, ListedTurn.stops, latest] using goes
      rw [Option.all_eq_true] at time
      push Not at time
      obtain ⟨time, known, bound⟩ := time
      exact answer.reported turn here ends time known (by simpa using bound)
    | some cursor =>
      apply answer.since turn here ends cursor latest
      rintro anchor rfl
      obtain ⟨old, listed, rfl, over_⟩ | after := anchored anchor latest
      · obtain inside | outside := left old listed over_
        · have stops := mem_takeWhile_imp inside
          simp [stop, ListedTurn.stops, latest] at stops
        · exact across turn mem old outside
      · exact after turn here ends
  · intro turn mem
    exact listed turn (mem_reverse.mp mem)
  · intro turn mem ends
    obtain inside | outside := left turn mem ends
    · exact .inl (mem_reverse.mpr inside)
    · exact .inr fun event announced => across event (mem_reverse.mp announced) turn outside

theorem Ready.undelivered (ready : thread.Ready s turns events) {anchor : String}
    (anchored : thread.Anchored turns anchor) {turn : ListedTurn}
    (mem : turn ∈ undelivered (some anchor) events) : thread.Before anchor turn.id := by
  let other := fun turn : ListedTurn => decide (some anchor ≠ some turn.id)
  have inside : turn ∈ events.reverse.takeWhile other := mem_reverse.mp mem
  have here : turn ∈ events := mem_reverse.mp ((takeWhile_sublist other).subset inside)
  obtain ⟨old, listed, rfl, ended⟩ | after := anchored
  · obtain event | before := ready.segment old listed ended
    · have parts : events.reverse.takeWhile other ++ events.reverse.dropWhile other =
          events.reverse := takeWhile_append_dropWhile
      have sorted := pairwise_reverse.mpr ready.sorted
      rw [← parts, pairwise_append] at sorted
      have mem := mem_reverse.mpr event
      rw [← parts] at mem
      obtain skipped | left := mem_append.mp mem
      · have ne := mem_takeWhile_imp skipped
        simp [other] at ne
      · exact sorted.2.2 turn inside old left
    · exact before turn here
  · exact after turn (ready.listed turn here).1 (ready.listed turn here).2

theorem undelivered_sublist (completed : Option String) (events : List ListedTurn) :
    (undelivered completed events).Sublist events := by
  have prefix_ : (events.reverse.takeWhile fun turn => completed ≠ some turn.id).Sublist
      events.reverse := takeWhile_sublist _
  have sublist := prefix_.reverse
  rwa [reverse_reverse] at sublist

end Thread

end Agentix.Codex
