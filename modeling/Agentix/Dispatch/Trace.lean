import Agentix.Dispatch.Queue
import Agentix.Lib.Rows
import Agentix.Lib.Run

/-! # Runs of the dispatch queue

A traced queue numbers the work in the order of its admission and keeps what happened to it.  It
calls the queue of the source and steps as a fenced waiting line; without the numbers it is any
run of the source's queue.
-/

namespace Agentix.Dispatch

open Lib List Option Prod

/-- Accepted work with its place in the order of admission. -/
structure Ticket (T : Type) where
  number : Nat
  work : T
  deriving DecidableEq

/-- A call that pushes `T`, of a queue whose scopes are resolved from `S`. -/
inductive Call (K T S : Type) where
  | push (work : T) (now : Instant)
  | nextReady (scope : S → DispatchScope K) (now : Instant)
  | finish (id : DispatchId) (now : Instant)

structure Traced (K T : Type) where
  queue : DispatchQueue K (Ticket T)
  /-- The work of each number. -/
  accepted : List T
  /-- What `next_ready` has answered. -/
  dispatches : List (DispatchId × Ticket T)
  log : List (Event Nat)

namespace Traced

variable {K T : Type} [DecidableEq K] {traced traced' : Traced K T} {call : Call K T (Ticket T)}

variable {queue' : DispatchQueue K (Ticket T)} {now : Instant}

def empty (capacity concurrency : Nat) (positive : 0 < capacity ∧ 0 < concurrency) :
    Traced K T where
  queue := .new capacity concurrency positive
  accepted := []
  dispatches := []
  log := []

def push (traced : Traced K T) (work : T) (now : Instant) : Traced K T :=
  match traced.queue.tryPush ⟨traced.accepted.length, work⟩ now with
  | (.error _, queue) => { traced with queue }
  | (.ok (), queue) =>
    { traced with
      queue
      accepted := traced.accepted ++ [work]
      log := traced.log ++ [.admitted traced.accepted.length] }

def nextReady (traced : Traced K T) (scope : Ticket T → DispatchScope K) (now : Instant) :
    Fallible (Traced K T) := do
  let (answer, queue) ← traced.queue.nextReady scope now
  match answer with
  | none => pure { traced with queue }
  | some dispatched =>
    pure { traced with
      queue
      dispatches := traced.dispatches ++ [(dispatched.id, dispatched.work)]
      log := traced.log ++ [.taken dispatched.work.number] }

/-- The number that an id was given to. -/
def numberOf (traced : Traced K T) (id : DispatchId) : Option Nat :=
  (rowOf traced.dispatches fst id).map (·.2.number)

def finish (traced : Traced K T) (id : DispatchId) (now : Instant) : Fallible (Traced K T) := do
  let (answer, queue) ← traced.queue.finish id now
  let released := if answer then (traced.numberOf id).toList.map Event.released else []
  pure { traced with queue, log := traced.log ++ released }

def after (traced : Traced K T) : Call K T (Ticket T) → Fallible (Traced K T)
  | .push work now => pure (traced.push work now)
  | .nextReady scope now => traced.nextReady scope now
  | .finish id now => traced.finish id now

/-! A trace follows its queue wherever the queue answers. -/

omit [DecidableEq K] in
theorem push_queue {work : T} {answer : Except (Ticket T) Unit}
    (pushed : traced.queue.tryPush ⟨traced.accepted.length, work⟩ now = (answer, queue')) :
    (traced.push work now).queue = queue' := by
  unfold push
  rw [pushed]
  cases answer <;> rfl

theorem nextReady_queue {scope : Ticket T → DispatchScope K}
    {answer : Option (Dispatched (Ticket T))}
    (ready : traced.queue.nextReady scope now = .ok (answer, queue')) :
    ∃ traced' : Traced K T, traced.nextReady scope now = .ok traced' ∧ traced'.queue = queue' := by
  unfold nextReady
  rw [ready]
  cases answer <;> exact ⟨_, rfl, rfl⟩

omit [DecidableEq K] in
theorem finish_queue {id : DispatchId} {answer : Bool}
    (done : traced.queue.finish id now = .ok (answer, queue')) :
    ∃ traced' : Traced K T, traced.finish id now = .ok traced' ∧ traced'.queue = queue' := by
  unfold finish
  rw [done]
  exact ⟨_, rfl, rfl⟩

/-- The work of a number runs. -/
def Active (traced : Traced K T) (number : Nat) : Prop :=
  ∃ id ticket, (id, ticket) ∈ traced.dispatches ∧ id ∈ traced.queue.active ∧
    ticket.number = number

def Pending (traced : Traced K T) (number : Nat) : Prop :=
  ∃ entry ∈ traced.queue.pending, entry.1.number = number

def Finished (traced : Traced K T) (number : Nat) : Prop :=
  .released number ∈ traced.log

def line (traced : Traced K T) : Fenced Nat where
  waiting := traced.queue.pending.map fun entry => entry.1.number
  held := { number | traced.Active number }
  log := traced.log

end Traced

/-! ## What holds between a queue and its trace -/

def admittedNumber : Event Nat → Option Nat
  | .admitted number => some number
  | _ => none

def takenNumber : Event Nat → Option Nat
  | .taken number => some number
  | _ => none

namespace Traced

variable {K T : Type} {traced traced' : Traced K T}

structure Matched (traced : Traced K T) : Prop where
  sound : traced.queue.Sound
  ids : traced.dispatches.map fst = (range traced.queue.nextId).map DispatchId.mk
  admitted : traced.log.filterMap admittedNumber = range traced.accepted.length
  taken : traced.log.filterMap takenNumber = traced.dispatches.map fun entry => entry.2.number
  waits : ∀ entry ∈ traced.queue.pending, traced.accepted[entry.1.number]? = some entry.1.work
  ran : ∀ entry ∈ traced.dispatches, traced.accepted[entry.2.number]? = some entry.2.work
  count : traced.dispatches.length + traced.queue.pending.length = traced.accepted.length

namespace Matched

variable {id : DispatchId}

theorem empty {capacity concurrency : Nat} (positive : 0 < capacity ∧ 0 < concurrency) :
    Matched (Traced.empty capacity concurrency positive : Traced K T) := by
  constructor <;> simp [Traced.empty, DispatchQueue.new]
  exact DispatchQueue.Sound.new positive

theorem mem_admitted (matched : Matched traced) {number : Nat} :
    .admitted number ∈ traced.log ↔ number < traced.accepted.length := by
  rw [← mem_range, ← matched.admitted, mem_filterMap]
  constructor
  · exact fun here => ⟨_, here, rfl⟩
  · rintro ⟨event, here, same⟩
    cases event <;> cases same
    exact here

theorem distinct (matched : Matched traced) : Distinct fst traced.dispatches := by
  unfold Distinct
  rw [matched.ids]
  exact (nodup_range).map fun _ _ same => (DispatchId.mk.injEq _ _).mp same

theorem id_lt (matched : Matched traced) {ticket : Ticket T}
    (ran : (id, ticket) ∈ traced.dispatches) : id.number < traced.queue.nextId := by
  have here : id ∈ traced.dispatches.map fst := mem_map.mpr ⟨_, ran, rfl⟩
  rw [matched.ids, List.mem_map] at here
  obtain ⟨number, inRange, rfl⟩ := here
  exact mem_range.mp inRange

theorem dispatched (matched : Matched traced) (active : id ∈ traced.queue.active) :
    ∃ ticket, (id, ticket) ∈ traced.dispatches := by
  have here : id ∈ traced.dispatches.map fst := by
    rw [matched.ids, List.mem_map]
    exact ⟨id.number, mem_range.mpr (matched.sound.used id active), rfl⟩
  obtain ⟨⟨_, ticket⟩, ran, rfl⟩ := mem_map.mp here
  exact ⟨ticket, ran⟩

theorem numberOf_eq (matched : Matched traced) {ticket : Ticket T}
    (ran : (id, ticket) ∈ traced.dispatches) : traced.numberOf id = some ticket.number := by
  rw [numberOf, matched.distinct.rowOf_eq_some ran, map_some]

/-! ## What the calls keep -/

private theorem still_accepted {accepted : List T} {number : Nat} {work new : T}
    (old : accepted[number]? = some work) : (accepted ++ [new])[number]? = some work := by
  rw [getElem?_append_left (List.getElem?_eq_some_iff.mp old).1]
  exact old

theorem push (matched : Matched traced) (work : T) (now : Instant) :
    Matched (traced.push work now) := by
  cases pushed : traced.queue.tryPush ⟨traced.accepted.length, work⟩ now with
  | mk answer queue' =>
    have sound := matched.sound.tryPush pushed
    obtain ⟨-, rfl, rfl⟩ | ⟨-, rfl, rfl⟩ := DispatchQueue.tryPush_cases pushed
    · simp only [Traced.push, pushed]
      exact { matched with sound }
    · simp only [Traced.push, pushed]
      refine { matched with sound, admitted := ?_, taken := ?_, waits := ?_, ran := ?_, count := ?_ }
      · simp [matched.admitted, admittedNumber, range_succ]
      · simp [matched.taken, takenNumber]
      · intro entry here
        rw [mem_append, mem_singleton] at here
        obtain here | rfl := here
        · exact still_accepted (matched.waits entry here)
        · simp
      · intro entry here
        exact still_accepted (matched.ran entry here)
      · simp only [length_append, length_singleton]
        have count := matched.count
        omega

theorem nextReady [DecidableEq K] {scope : Ticket T → DispatchScope K} {now : Instant}
    (matched : Matched traced) (ready : traced.nextReady scope now = .ok traced') :
    Matched traced' := by
  simp only [Traced.nextReady, bind_ok, Prod.exists] at ready
  obtain ⟨answer, queue', answered, ready⟩ := ready
  have sound := matched.sound.nextReady answered
  obtain ⟨rfl, rfl⟩ | ⟨before, item, after, waits, -, -, -, rfl, rfl⟩ :=
    DispatchQueue.nextReady_cases answered
  · cases ready
    exact matched
  · cases ready
    have mem : item ∈ traced.queue.pending := by simp [waits]
    constructor
    · exact sound
    · simp [matched.ids, DispatchQueue.dispatching, range_succ]
    · simp [matched.admitted, admittedNumber]
    · simp [matched.taken, takenNumber]
    · intro entry here
      refine matched.waits entry ?_
      simp only [DispatchQueue.dispatching, mem_append] at here
      rw [waits, mem_append, mem_cons]
      tauto
    · intro entry here
      rw [mem_append, mem_singleton] at here
      obtain here | rfl := here
      · exact matched.ran entry here
      · exact matched.waits item mem
    · have count := matched.count
      simp only [waits, DispatchQueue.dispatching, length_append, length_cons,
        length_nil] at count ⊢
      omega

theorem finish {now : Instant} (matched : Matched traced)
    (done : traced.finish id now = .ok traced') : Matched traced' := by
  simp only [Traced.finish, bind_ok, Prod.exists, pure_ok] at done
  obtain ⟨answer, queue', answered, rfl⟩ := done
  have sound := matched.sound.finish answered
  obtain ⟨-, rfl, rfl⟩ | ⟨startedAt, active, rfl, rfl⟩ := DispatchQueue.finish_cases answered
  · simpa using matched
  · obtain ⟨ticket, ran⟩ := matched.dispatched active
    refine { matched with sound, admitted := ?_, taken := ?_ }
    · simp [matched.numberOf_eq ran, matched.admitted, admittedNumber]
    · simp [matched.numberOf_eq ran, matched.taken, takenNumber]

theorem after [DecidableEq K] {call : Call K T (Ticket T)} (matched : Matched traced)
    (step : traced.after call = .ok traced') : Matched traced' := by
  cases call with
  | push work now =>
    cases step
    exact matched.push work now
  | nextReady scope now => exact matched.nextReady step
  | finish id now => exact matched.finish step

end Matched

/-! ## A queue steps as a fenced waiting line -/

section Line

variable {conflicts : Nat → Nat → Prop} {fits : Nat → DispatchScope K → Prop}

variable {now : Instant}

/-- The scopes of the running work are scopes that its numbers may have. -/
def Recorded (fits : Nat → DispatchScope K → Prop) (traced : Traced K T) : Prop :=
  ∀ id ticket, (id, ticket) ∈ traced.dispatches →
    ∀ resources, traced.queue.active.lookup id = some resources → fits ticket.number resources

def Resolves (fits : Nat → DispatchScope K → Prop) (traced : Traced K T) :
    Call K T (Ticket T) → Prop
  | .nextReady scope _ => ∀ entry ∈ traced.queue.pending, fits entry.1.number (scope entry.1)
  | _ => True

theorem Recorded.empty {capacity concurrency : Nat} (positive : 0 < capacity ∧ 0 < concurrency) :
    Recorded fits (Traced.empty capacity concurrency positive : Traced K T) := by
  simp [Recorded, Traced.empty]

theorem Recorded.after [DecidableEq K] {call : Call K T (Ticket T)}
    (recorded : Recorded fits traced) (matched : Matched traced) (resolves : Resolves fits traced call)
    (step : traced.after call = .ok traced') : Recorded fits traced' := by
  cases call with
  | push work now =>
    cases step
    intro id ticket ran resources found
    cases pushed : traced.queue.tryPush ⟨traced.accepted.length, work⟩ now with
    | mk answer queue' =>
      obtain ⟨-, rfl, rfl⟩ | ⟨-, rfl, rfl⟩ := DispatchQueue.tryPush_cases pushed
      all_goals
        simp only [push, pushed] at ran found
        exact recorded id ticket ran resources found
  | nextReady scope now =>
    simp only [Traced.after, nextReady, bind_ok, Prod.exists] at step
    obtain ⟨answer, queue', answered, step⟩ := step
    obtain ⟨rfl, rfl⟩ | ⟨before, item, after, waits, -, -, -, rfl, rfl⟩ :=
      DispatchQueue.nextReady_cases answered
    · cases step
      exact recorded
    · cases step
      intro id ticket ran resources found
      rw [mem_append, mem_singleton, Prod.mk.injEq] at ran
      obtain ran | ⟨rfl, rfl⟩ := ran
      · have old : id ≠ ⟨traced.queue.nextId⟩ := by
          rintro rfl
          exact lt_irrefl _ (matched.id_lt ran)
        simp only [DispatchQueue.dispatching, AList.lookup_insert_ne old] at found
        exact recorded id ticket ran resources found
      · simp only [DispatchQueue.dispatching, AList.lookup_insert, some.injEq] at found
        subst found
        exact resolves item (by simp [waits])
  | finish id now =>
    simp only [Traced.after, finish, bind_ok, Prod.exists, pure_ok] at step
    obtain ⟨answer, queue', answered, rfl⟩ := step
    obtain ⟨-, rfl, rfl⟩ | ⟨startedAt, active, rfl, rfl⟩ := DispatchQueue.finish_cases answered
    · simpa using recorded
    · intro other ticket ran resources found
      have differ : other ≠ id := by
        rintro rfl
        rw [AList.lookup_erase] at found
        cases found
      rw [AList.lookup_erase_ne differ] at found
      exact recorded other ticket ran resources found

theorem line_push (matched : Matched traced) (work : T) (now : Instant) :
    (traced.push work now).line = traced.line ∨
      Fenced.Step conflicts traced.line (traced.push work now).line := by
  cases pushed : traced.queue.tryPush ⟨traced.accepted.length, work⟩ now with
  | mk answer queue' =>
    obtain ⟨-, rfl, rfl⟩ | ⟨-, rfl, rfl⟩ := DispatchQueue.tryPush_cases pushed
    · left
      simp only [push, pushed]
      rfl
    · right
      have last : ∀ earlier, .admitted earlier ∈ traced.line.log →
          earlier < traced.accepted.length := fun _ here => matched.mem_admitted.mp here
      have lined : (traced.push work now).line = ⟨traced.line.waiting ++ [traced.accepted.length],
          traced.line.held, traced.line.log ++ [.admitted traced.accepted.length]⟩ := by
        simp only [push, pushed, line, map_append, map_cons, map_nil]
        rfl
      rw [lined]
      exact .accept last

def taking (traced : Traced K T) (before after : List (Ticket T × Instant))
    (item : Ticket T × Instant) (resources : DispatchScope K) (now : Instant) : Traced K T where
  queue := traced.queue.dispatching before after item resources now
  accepted := traced.accepted
  dispatches := traced.dispatches ++ [(⟨traced.queue.nextId⟩, item.1)]
  log := traced.log ++ [.taken item.1.number]

theorem active_taking (matched : Matched traced) {before after : List (Ticket T × Instant)}
    {item : Ticket T × Instant} {resources : DispatchScope K} {number : Nat} :
    (traced.taking before after item resources now).Active number ↔
      number = item.1.number ∨ traced.Active number := by
  simp only [Active, taking, DispatchQueue.dispatching, mem_append, mem_singleton,
    Prod.mk.injEq, AList.mem_insert]
  constructor
  · rintro ⟨id, ticket, ran | ⟨rfl, rfl⟩, active, rfl⟩
    · obtain rfl | active := active
      · exact absurd (matched.id_lt ran) (lt_irrefl _)
      · exact .inr ⟨id, ticket, ran, active, rfl⟩
    · exact .inl rfl
  · rintro (rfl | ⟨id, ticket, ran, active, rfl⟩)
    · exact ⟨_, _, .inr ⟨rfl, rfl⟩, .inl rfl, rfl⟩
    · exact ⟨id, ticket, .inl ran, .inr active, rfl⟩

theorem line_nextReady [DecidableEq K] {scope : Ticket T → DispatchScope K}
    (respects : ∀ a b ra rb, fits a ra → fits b rb → conflicts a b → ra.Conflicts rb)
    (matched : Matched traced) (recorded : Recorded fits traced)
    (resolves : Resolves fits traced (.nextReady scope now))
    (step : traced.nextReady scope now = .ok traced') :
    traced'.line = traced.line ∨ Fenced.Step conflicts traced.line traced'.line := by
  simp only [nextReady, bind_ok, Prod.exists] at step
  obtain ⟨answer, queue', answered, step⟩ := step
  obtain ⟨rfl, rfl⟩ | ⟨before, item, after, waits, -, -, free, rfl, rfl⟩ :=
    DispatchQueue.nextReady_cases answered
  · cases step
    exact .inl rfl
  · right
    have taken : traced' = traced.taking before after item (scope item.1) now := by
      cases step
      rfl
    have waitsLine : traced.line.waiting = before.map (fun entry => entry.1.number) ++
        item.1.number :: after.map (fun entry => entry.1.number) := by
      simp [line, waits]
    have lined : traced'.line = ⟨before.map (fun entry => entry.1.number) ++
        after.map (fun entry => entry.1.number), insert item.1.number traced.line.held,
        traced.line.log ++ [.taken item.1.number]⟩ := by
      have held : traced'.line.held = insert item.1.number traced.line.held := by
        rw [taken]
        exact Set.ext fun number => active_taking matched
      rw [← held, taken]
      simp [line, taking, DispatchQueue.dispatching]
    rw [lined]
    refine .take waitsLine ?_
    have fitsItem : fits item.1.number (scope item.1) := resolves item (by simp [waits])
    rintro other (here | ⟨id, ticket, ran, active, rfl⟩) conflict
    · obtain ⟨entry, mem, rfl⟩ := mem_map.mp here
      refine free (scope entry.1) ?_ ?_
      · exact mem_append_right _ (mem_map.mpr ⟨entry, mem, rfl⟩)
      · have waiting : entry ∈ traced.queue.pending := by simp [waits, mem]
        exact respects _ _ _ _ (resolves entry waiting) fitsItem conflict
    · obtain ⟨resources, found⟩ := isSome_iff_exists.mp (AList.lookup_isSome.mpr active)
      refine free resources ?_ ?_
      · exact mem_append_left _ (mem_map.mpr ⟨_, AList.mem_lookup_iff.mp found, rfl⟩)
      · exact respects _ _ _ _ (recorded id ticket ran resources found) fitsItem conflict

theorem Matched.once (matched : Matched traced) (once : traced.log.Nodup) :
    (traced.dispatches.map fun entry => entry.2.number).Nodup := by
  rw [← matched.taken]
  refine once.filterMap fun a b number isA isB => ?_
  cases a <;> cases isA
  cases b <;> cases isB
  rfl

theorem line_finish {id : DispatchId} (matched : Matched traced) (once : traced.log.Nodup)
    (step : traced.finish id now = .ok traced') :
    traced'.line = traced.line ∨ Fenced.Step conflicts traced.line traced'.line := by
  simp only [finish, bind_ok, Prod.exists, pure_ok] at step
  obtain ⟨answer, queue', answered, rfl⟩ := step
  obtain ⟨-, rfl, rfl⟩ | ⟨startedAt, active, rfl, rfl⟩ := DispatchQueue.finish_cases answered
  · left
    simp [line]
  · right
    obtain ⟨ticket, ran⟩ := matched.dispatched active
    have held : ticket.number ∈ traced.line.held := ⟨id, ticket, ran, active, rfl⟩
    have step : Fenced.Step conflicts traced.line _ := .release held
    convert step using 1
    simp only [line, matched.numberOf_eq ran, toList_some, map_cons, map_nil,
      if_true, Fenced.mk.injEq, true_and, and_true]
    ext number
    constructor
    · rintro ⟨other, ticket', ran', active', rfl⟩
      obtain ⟨differ, active'⟩ := AList.mem_erase.mp active'
      refine ⟨⟨other, ticket', ran', active', rfl⟩, fun same => differ ?_⟩
      exact congrArg fst (inj_on_of_nodup_map (matched.once once) ran' ran same)
    · rintro ⟨⟨other, ticket', ran', active', rfl⟩, differ⟩
      refine ⟨other, ticket', ran', AList.mem_erase.mpr ⟨?_, active'⟩, rfl⟩
      rintro rfl
      have same := matched.distinct.eq_of_key ran' ran rfl
      exact differ (congrArg (fun entry : DispatchId × Ticket T => entry.2.number) same)

theorem line_after [DecidableEq K] (conflicts : Nat → Nat → Prop) {call : Call K T (Ticket T)}
    (respects : ∀ a b ra rb, fits a ra → fits b rb → conflicts a b → ra.Conflicts rb)
    (matched : Matched traced) (recorded : Recorded fits traced)
    (resolves : Resolves fits traced call) (once : traced.log.Nodup)
    (step : traced.after call = .ok traced') :
    traced'.line = traced.line ∨ Fenced.Step conflicts traced.line traced'.line := by
  cases call with
  | push work now =>
    cases step
    exact line_push matched work now
  | nextReady scope now => exact line_nextReady respects matched recorded resolves step
  | finish id now => exact line_finish matched once step

end Line

theorem limits_after [DecidableEq K] {call : Call K T (Ticket T)}
    (step : traced.after call = .ok traced') :
    traced'.queue.capacity = traced.queue.capacity ∧
      traced'.queue.concurrency = traced.queue.concurrency := by
  cases call with
  | push work now =>
    cases step
    cases pushed : traced.queue.tryPush ⟨traced.accepted.length, work⟩ now with
    | mk answer queue' =>
      obtain ⟨-, rfl, rfl⟩ | ⟨-, rfl, rfl⟩ := DispatchQueue.tryPush_cases pushed <;>
        simp only [push, pushed, and_self]
  | nextReady scope now =>
    simp only [Traced.after, nextReady, bind_ok, Prod.exists] at step
    obtain ⟨answer, queue', answered, step⟩ := step
    obtain ⟨rfl, rfl⟩ | ⟨before, item, after, -, -, -, -, rfl, rfl⟩ :=
      DispatchQueue.nextReady_cases answered <;> cases step <;> exact ⟨rfl, rfl⟩
  | finish id now =>
    simp only [Traced.after, finish, bind_ok, Prod.exists, pure_ok] at step
    obtain ⟨answer, queue', answered, rfl⟩ := step
    obtain ⟨-, rfl, rfl⟩ | ⟨startedAt, active, rfl, rfl⟩ :=
      DispatchQueue.finish_cases answered <;> exact ⟨rfl, rfl⟩

/-- The calls one after the other; one that panics leaves no trace. -/
def played [DecidableEq K] (traced : Traced K T) (calls : List (Call K T (Ticket T))) :
    Traced K T :=
  calls.foldl (fun traced call => (traced.after call).toOption.getD traced) traced

end Traced

/-! ## Reachable queues -/

section Runs

variable {K T : Type} [DecidableEq K] {capacity concurrency : Nat}
  {positive : 0 < capacity ∧ 0 < concurrency} {traced : Traced K T}
  {fits : Nat → DispatchScope K → Prop} {conflicts : Nat → Nat → Prop}

variable {condition : Traced K T → Call K T (Ticket T) → Prop}

/-- The runs of a queue with these limits. -/
def dispatching (K T : Type) [DecidableEq K] (capacity concurrency : Nat)
    (positive : 0 < capacity ∧ 0 < concurrency) : System (Traced K T) (Call K T (Ticket T)) where
  start := .empty capacity concurrency positive
  step traced call traced' := traced.after call = .ok traced'

theorem reachable_after {traced' : Traced K T}
    (run : (dispatching K T capacity concurrency positive).Reachable condition traced)
    (call : Call K T (Ticket T)) (met : condition traced call)
    (step : traced.after call = .ok traced') :
    (dispatching K T capacity concurrency positive).Reachable condition traced' :=
  run.step met step

theorem reachable_line (conflicts : Nat → Nat → Prop) (symmetric : ∀ a b, conflicts a b → conflicts b a)
    (respects : ∀ a b ra rb, fits a ra → fits b rb → conflicts a b → ra.Conflicts rb)
    (run : (dispatching K T capacity concurrency positive).Reachable (Traced.Resolves fits) traced) :
    traced.Matched ∧ traced.Recorded fits ∧ traced.line.Accounted ∧
      traced.line.Excludes conflicts := by
  refine run.invariant (fun traced => traced.Matched ∧ traced.Recorded fits ∧
    traced.line.Accounted ∧ traced.line.Excludes conflicts) ?_ ?_
  · have empty : (Traced.empty capacity concurrency positive : Traced K T).line = Fenced.empty := by
      simp [Traced.line, Traced.empty, DispatchQueue.new, Fenced.empty, Traced.Active]
    refine ⟨.empty positive, .empty positive, ?_⟩
    show (Traced.empty capacity concurrency positive : Traced K T).line.Accounted ∧
      (Traced.empty capacity concurrency positive : Traced K T).line.Excludes conflicts
    rw [empty]
    exact ⟨.empty, .empty⟩
  · rintro traced traced' call - resolves ⟨matched, recorded, accounted, excludes⟩ step
    refine ⟨matched.after step, recorded.after matched resolves step, ?_⟩
    obtain same | taken := Traced.line_after conflicts respects matched recorded
      resolves accounted.once step
    · rw [same]
      exact ⟨accounted, excludes⟩
    · exact ⟨accounted.step taken, excludes.step symmetric accounted taken⟩

theorem reachable_limits
    (run : (dispatching K T capacity concurrency positive).Reachable condition traced) :
    traced.queue.capacity = capacity ∧ traced.queue.concurrency = concurrency := by
  refine run.invariant
    (fun traced => traced.queue.capacity = capacity ∧ traced.queue.concurrency = concurrency)
    ⟨rfl, rfl⟩ ?_
  rintro traced traced' call - - limits step
  have same := Traced.limits_after step
  rw [same.1, same.2]
  exact limits

/-- Without a condition on the scopes. -/
theorem reachable_accounted
    (run : (dispatching K T capacity concurrency positive).Reachable System.always traced) :
    traced.Matched ∧ traced.line.Accounted := by
  have unconditional : (dispatching K T capacity concurrency positive).Reachable
      (Traced.Resolves fun _ _ => True) traced := by
    refine run.mono fun traced call _ => ?_
    cases call <;> simp [Traced.Resolves]
  obtain ⟨matched, -, accounted, -⟩ := reachable_line (fun _ _ => False)
    (fun _ _ absurd => absurd) (fun _ _ _ _ _ _ absurd => absurd.elim) unconditional
  exact ⟨matched, accounted⟩

theorem reachable_played {calls : List (Call K T (Ticket T))}
    (met : ∀ traced, ∀ call ∈ calls, condition traced call)
    (run : (dispatching K T capacity concurrency positive).Reachable condition traced) :
    (dispatching K T capacity concurrency positive).Reachable condition (traced.played calls) := by
  induction calls generalizing traced with
  | nil => exact run
  | cons call rest ih =>
    have later : ∀ traced, ∀ call ∈ rest, condition traced call :=
      fun traced other here => met traced other (.tail _ here)
    rw [Traced.played, foldl_cons]
    cases stepped : traced.after call with
    | error message => exact ih later run
    | ok traced' => exact ih later (run.step (met traced call (.head _)) stepped)

end Runs

end Agentix.Dispatch
