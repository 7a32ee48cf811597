import Agentix.Lib.Fallible
import Mathlib.Algebra.Group.Nat.Defs
import Mathlib.Data.List.AList

/-! # The dispatch queue

Bounded admission of operations that share resources: work is accepted, dispatched in an order
that its scopes allow, and finished.  A panic is an error with the text of its `expect`.
-/

namespace Agentix.Dispatch

open Lib

/-- Nanoseconds of the monotonic clock. -/
abbrev Instant := Nat

/-- Nanoseconds; additions stay at `maxDuration`. -/
abbrev Duration := Nat

/-- `u64::MAX` seconds and 999 999 999 nanoseconds. -/
def maxDuration : Duration := 2 ^ 64 * 1000000000 - 1

def maxU64 : Nat := 2 ^ 64 - 1

def saturatingAdd (limit a b : Nat) : Nat := min (a + b) limit

def checkedAdd (a b : Nat) : Option Nat := if a + b ≤ maxU64 then some (a + b) else none

/-- Resources that must remain ordered for one operation. -/
inductive DispatchScope (K : Type) where
  | keys (keys : List K)
  /-- Readers share a resource; any exclusive operation fences all readers. -/
  | access (shared exclusive : List K)
  /-- Observes all preceding work and finishes before any subsequent work starts. -/
  | global
  deriving DecidableEq

/-- The shared and the exclusive keys of a scope. -/
def DispatchScope.access? {K : Type} : DispatchScope K → Option (List K × List K)
  | .global => none
  | .keys exclusive => some ([], exclusive)
  | .access shared exclusive => some (shared, exclusive)

structure DispatchId where
  number : Nat
  deriving DecidableEq

structure Dispatched (T : Type) where
  id : DispatchId
  work : T
  queuedFor : Duration
  deriving DecidableEq

structure DispatchStatistics where
  pending : Nat := 0
  active : Nat := 0
  admitted : Nat := 0
  rejected : Nat := 0
  started : Nat := 0
  completed : Nat := 0
  waitTotal : Duration := 0
  waitMax : Duration := 0
  executionTotal : Duration := 0
  executionMax : Duration := 0
  oldestPending : Duration := 0
  deriving DecidableEq

structure DispatchQueue (K T : Type) where
  capacity : Nat
  concurrency : Nat
  nextId : Nat
  pending : List (T × Instant)
  active : AList fun _ : DispatchId => DispatchScope K
  startedAt : AList fun _ : DispatchId => Instant
  statistics : DispatchStatistics

namespace DispatchQueue

variable {K T : Type} [DecidableEq K]

/-- The limits are asserted to be positive. -/
def new (capacity concurrency : Nat) (_positive : 0 < capacity ∧ 0 < concurrency) :
    DispatchQueue K T where
  capacity
  concurrency
  nextId := 0
  pending := []
  active := ∅
  startedAt := ∅
  statistics := {}

def activeCount (queue : DispatchQueue K T) : Nat := queue.active.entries.length

def isFull (queue : DispatchQueue K T) : Bool :=
  queue.pending.length + queue.activeCount ≥ queue.capacity

/-- The counters with the current gauges. -/
def statisticsAt (queue : DispatchQueue K T) (now : Instant) : DispatchStatistics :=
  { queue.statistics with
    pending := queue.pending.length
    active := queue.activeCount
    oldestPending := queue.pending.head?.elim 0 fun (_, at_) => now - at_ }

/-- Answers the original work when admission is full. -/
def tryPush (queue : DispatchQueue K T) (work : T) (now : Instant) :
    Except T Unit × DispatchQueue K T :=
  if queue.isFull then
    (.error work, { queue with statistics := { queue.statistics with
      rejected := saturatingAdd maxU64 queue.statistics.rejected 1 } })
  else
    (.ok (), { queue with
      pending := queue.pending ++ [(work, now)]
      statistics := { queue.statistics with
        admitted := saturatingAdd maxU64 queue.statistics.admitted 1 } })

def reservations : List (DispatchScope K) → Option (List K × List K)
  | [] => some ([], [])
  | scope :: rest => do
    let (shared, exclusive) ← scope.access?
    let (readers, writers) ← reservations rest
    pure (shared ++ readers, exclusive ++ writers)

/-- Whether an operation has to wait for the readers and the writers of other operations. -/
def blocked (readers writers shared exclusive : List K) : Bool :=
  shared.any (fun key => key ∈ writers) ||
    exclusive.any fun key => key ∈ readers || key ∈ writers

/-- The loop of `next_ready` over the pending work: the index of the work to dispatch and the
scope resolved for it.  Blocked work adds its keys to what later work has to wait for. -/
def firstReady (scope : T → DispatchScope K) (idle : Bool) (readers writers : List K)
    (index : Nat) : List (T × Instant) → Option (Nat × DispatchScope K)
  | [] => none
  | (work, _) :: rest =>
    match (scope work).access? with
    | some (shared, exclusive) =>
      if blocked readers writers shared exclusive then
        firstReady scope idle (readers ++ shared) (writers ++ exclusive) (index + 1) rest
      else some (index, scope work)
    | none => if !idle || index ≠ 0 then none else some (index, scope work)

/-- The rest of `next_ready` once work has been chosen. -/
def dispatchAt (queue : DispatchQueue K T) (index : Nat) (resources : DispatchScope K)
    (now : Instant) : Fallible (Option (Dispatched T) × DispatchQueue K T) := do
  let id : DispatchId := ⟨queue.nextId⟩
  let nextId ← orElseError (checkedAdd queue.nextId 1) "dispatch ID exhausted"
  let (work, queuedAt) ← orElseError queue.pending[index]? "pending work"
  let queuedFor := now - queuedAt
  pure (some { id, work, queuedFor }, { queue with
    nextId
    active := queue.active.insert id resources
    pending := queue.pending.eraseIdx index
    startedAt := queue.startedAt.insert id now
    statistics := { queue.statistics with
      started := saturatingAdd maxU64 queue.statistics.started 1
      waitTotal := saturatingAdd maxDuration queue.statistics.waitTotal queuedFor
      waitMax := max queue.statistics.waitMax queuedFor } })

/-- Dispatches the earliest runnable operation. -/
def nextReady (queue : DispatchQueue K T) (scope : T → DispatchScope K) (now : Instant) :
    Fallible (Option (Dispatched T) × DispatchQueue K T) :=
  if queue.activeCount ≥ queue.concurrency then pure (none, queue)
  else match reservations (queue.active.entries.map Sigma.snd) with
    | none => pure (none, queue)
    | some (readers, writers) =>
      match firstReady scope queue.active.entries.isEmpty readers writers 0 queue.pending with
      | none => pure (none, queue)
      | some (index, resources) => queue.dispatchAt index resources now

/-- Releases reservations only after the worker has stopped using them. -/
def finish (queue : DispatchQueue K T) (id : DispatchId) (now : Instant) :
    Fallible (Bool × DispatchQueue K T) :=
  match queue.active.lookup id with
  | none => pure (false, queue)
  | some _ => do
    let startedAt ← orElseError (queue.startedAt.lookup id) "active dispatch timestamp"
    let elapsed := now - startedAt
    pure (true, { queue with
      active := queue.active.erase id
      startedAt := queue.startedAt.erase id
      statistics := { queue.statistics with
        completed := saturatingAdd maxU64 queue.statistics.completed 1
        executionTotal := saturatingAdd maxDuration queue.statistics.executionTotal elapsed
        executionMax := max queue.statistics.executionMax elapsed } })

end DispatchQueue

end Agentix.Dispatch

/-! # What `next_ready` dispatches

The reader and writer sets of the loop stand for all the scopes they were collected from, so the
work it finds conflicts with no active and no earlier pending operation.
-/

namespace Agentix.Dispatch

open Lib List

variable {K T : Type}

def DispatchScope.Conflicts (a b : DispatchScope K) : Prop :=
  match a.access?, b.access? with
  | some (sharedA, exclusiveA), some (sharedB, exclusiveB) =>
    (∃ key ∈ exclusiveA, key ∈ sharedB ∨ key ∈ exclusiveB) ∨
      ∃ key ∈ exclusiveB, key ∈ sharedA ∨ key ∈ exclusiveA
  | _, _ => True

theorem DispatchScope.Conflicts.symm {a b : DispatchScope K} (conflict : a.Conflicts b) :
    b.Conflicts a := by
  unfold Conflicts at conflict ⊢
  cases resolvedA : a.access? <;> cases resolvedB : b.access? <;> try trivial
  simp only [resolvedA, resolvedB] at conflict
  exact Or.symm conflict

theorem DispatchScope.global_conflicts (a : DispatchScope K) : a.Conflicts .global := by
  unfold Conflicts
  cases a.access? <;> trivial

namespace DispatchQueue

variable {held : List (DispatchScope K)} {scope : DispatchScope K}
  {readers writers shared exclusive : List K}

theorem reservations_snoc (reserved : reservations held = some (readers, writers))
    (resolved : scope.access? = some (shared, exclusive)) :
    reservations (held ++ [scope]) = some (readers ++ shared, writers ++ exclusive) := by
  induction held generalizing readers writers with
  | nil =>
    cases reserved
    simp [reservations, resolved]
  | cons other rest ih =>
    simp only [reservations, Option.pure_def, Option.bind_eq_bind, Option.bind_eq_some_iff,
      Option.some.injEq, Prod.mk.injEq, Prod.exists] at reserved
    obtain ⟨sharedOther, exclusiveOther, resolvedOther, readers', writers', earlier, rfl, rfl⟩ :=
      reserved
    simp [reservations, resolvedOther, ih earlier]

variable [DecidableEq K]

theorem blocked_append {readers' writers' : List K} :
    blocked (readers ++ readers') (writers ++ writers') shared exclusive =
      (blocked readers writers shared exclusive || blocked readers' writers' shared exclusive) := by
  rw [Bool.eq_iff_iff]
  simp only [blocked, Bool.or_eq_true, any_eq_true, mem_append, decide_eq_true_eq,
    and_or_left, exists_or, or_assoc]
  grind

theorem blocked_of_access {other : DispatchScope K}
    (resolvedOther : other.access? = some (readers, writers))
    (resolved : scope.access? = some (shared, exclusive)) :
    blocked readers writers shared exclusive ↔ other.Conflicts scope := by
  simp only [blocked, DispatchScope.Conflicts, resolvedOther, resolved, Bool.or_eq_true,
    any_eq_true, decide_eq_true_eq]
  constructor
  · rintro (⟨key, here, there⟩ | ⟨key, here, there⟩)
    · exact .inl ⟨key, there, .inl here⟩
    · exact .inr ⟨key, here, there⟩
  · rintro (⟨key, here, there | there⟩ | ⟨key, here, there⟩)
    · exact .inl ⟨key, there, here⟩
    · exact .inr ⟨key, there, .inr here⟩
    · exact .inr ⟨key, here, there⟩

/-- The reservations block exactly what conflicts with one of the scopes behind them. -/
theorem blocked_iff (reserved : reservations held = some (readers, writers))
    (resolved : scope.access? = some (shared, exclusive)) :
    blocked readers writers shared exclusive ↔ ∃ other ∈ held, other.Conflicts scope := by
  induction held generalizing readers writers with
  | nil =>
    cases reserved
    simp [blocked]
  | cons other rest ih =>
    simp only [reservations, Option.pure_def, Option.bind_eq_bind, Option.bind_eq_some_iff,
      Option.some.injEq, Prod.mk.injEq, Prod.exists] at reserved
    obtain ⟨sharedOther, exclusiveOther, resolvedOther, readers', writers', earlier, rfl, rfl⟩ :=
      reserved
    rw [blocked_append, Bool.or_eq_true, blocked_of_access resolvedOther resolved,
      ih earlier, exists_mem_cons_iff]

theorem firstReady_eq_some {resolve : T → DispatchScope K} {idle : Bool} {index found : Nat}
    {pending : List (T × Instant)} {resources : DispatchScope K}
    (reserved : reservations held = some (readers, writers))
    (alone : idle = true → index = 0 → held = [])
    (ready : firstReady resolve idle readers writers index pending = some (found, resources)) :
    ∃ before item after, pending = before ++ item :: after ∧ found = index + before.length ∧
      resources = resolve item.1 ∧
      ∀ other ∈ held ++ before.map (fun entry => resolve entry.1), ¬ other.Conflicts resources := by
  induction pending generalizing held readers writers index with
  | nil => cases ready
  | cons item rest ih =>
    obtain ⟨work, queuedAt⟩ := item
    rw [firstReady] at ready
    cases resolved : (resolve work).access? with
    | none =>
      simp only [resolved, Option.ite_none_left_eq_some, Bool.not_eq_true', Bool.or_eq_true,
        decide_eq_true_eq, not_or, Bool.not_eq_false, ne_eq, not_not, Option.some.injEq,
        Prod.mk.injEq] at ready
      obtain ⟨⟨isIdle, first⟩, rfl, rfl⟩ := ready
      refine ⟨[], (work, queuedAt), rest, rfl, rfl, rfl, ?_⟩
      simp [alone isIdle first]
    | some access =>
      obtain ⟨shared, exclusive⟩ := access
      simp only [resolved] at ready
      split at ready
      · -- blocked: its keys are reserved for the work behind it
        obtain ⟨before, item, after, rfl, rfl, rfl, free⟩ :=
          ih (reservations_snoc reserved resolved) (by simp) ready
        refine ⟨(work, queuedAt) :: before, item, after, rfl, ?_, rfl, ?_⟩
        · rw [length_cons]
          omega
        · simpa using free
      · rename_i unblocked
        cases ready
        refine ⟨[], (work, queuedAt), rest, rfl, rfl, rfl, ?_⟩
        rw [blocked_iff reserved resolved] at unblocked
        simpa using unblocked

/-- With nothing reserved the loop takes the first pending work, whatever its scope. -/
theorem firstReady_idle (resolve : T → DispatchScope K) (item : T × Instant)
    (rest : List (T × Instant)) :
    firstReady resolve true [] [] 0 (item :: rest) = some (0, resolve item.1) := by
  obtain ⟨work, queuedAt⟩ := item
  rw [firstReady]
  cases (resolve work).access? <;> simp [blocked]

end DispatchQueue

end Agentix.Dispatch

/-! # Bounds and counters of the dispatch queue

What each call does, once, and from it the bounds of the three containers and what the counters
say about them.
-/

namespace Agentix.Dispatch

open Lib List

namespace DispatchQueue

variable {K T : Type} {queue queue' : DispatchQueue K T} {work : T} {id : DispatchId} {now : Instant}

/-! ## What the calls do -/

variable {scope : T → DispatchScope K}

theorem tryPush_cases {answer : Except T Unit} (push : queue.tryPush work now = (answer, queue')) :
    (queue.isFull = true ∧ answer = .error work ∧
      queue' = { queue with statistics := { queue.statistics with
        rejected := saturatingAdd maxU64 queue.statistics.rejected 1 } }) ∨
    (queue.isFull = false ∧ answer = .ok () ∧
      queue' = { queue with
        pending := queue.pending ++ [(work, now)]
        statistics := { queue.statistics with
          admitted := saturatingAdd maxU64 queue.statistics.admitted 1 } }) := by
  unfold tryPush at push
  split at push
  · rename_i full
    cases push
    exact .inl ⟨full, rfl, rfl⟩
  · rename_i room
    cases push
    exact .inr ⟨Bool.eq_false_iff.mpr room, rfl, rfl⟩

/-- The queue after the dispatch of the item between `before` and `after`. -/
def dispatching (queue : DispatchQueue K T) (before after : List (T × Instant))
    (item : T × Instant) (resources : DispatchScope K) (now : Instant) : DispatchQueue K T :=
  { queue with
    nextId := queue.nextId + 1
    active := queue.active.insert ⟨queue.nextId⟩ resources
    pending := before ++ after
    startedAt := queue.startedAt.insert ⟨queue.nextId⟩ now
    statistics := { queue.statistics with
      started := saturatingAdd maxU64 queue.statistics.started 1
      waitTotal := saturatingAdd maxDuration queue.statistics.waitTotal (now - item.2)
      waitMax := max queue.statistics.waitMax (now - item.2) } }

theorem dispatchAt_eq {before after : List (T × Instant)} {item : T × Instant}
    {resources : DispatchScope K} (waits : queue.pending = before ++ item :: after)
    (remain : queue.nextId < maxU64) :
    queue.dispatchAt before.length resources now =
      .ok (some ⟨⟨queue.nextId⟩, item.1, now - item.2⟩,
        queue.dispatching before after item resources now) := by
  have counted : checkedAdd queue.nextId 1 = some (queue.nextId + 1) := if_pos remain
  simp [dispatchAt, dispatching, counted, waits, orElseError, eraseIdx_append_of_length_le,
    bind, Except.bind, pure, Except.pure]

theorem dispatchAt_exhausted {index : Nat} {resources : DispatchScope K}
    (exhausted : maxU64 ≤ queue.nextId) :
    queue.dispatchAt index resources now = .error "dispatch ID exhausted" := by
  have counted : checkedAdd queue.nextId 1 = none := if_neg (by omega)
  simp [dispatchAt, counted, orElseError, bind, Except.bind]

/-- `next_ready` leaves the queue alone or takes an item that conflicts with no active and no
earlier pending one. -/
theorem nextReady_choice [DecidableEq K] (queue : DispatchQueue K T) (scope : T → DispatchScope K)
    (now : Instant) :
    queue.nextReady scope now = .ok (none, queue) ∨
    ∃ before item after, queue.pending = before ++ item :: after ∧
      queue.activeCount < queue.concurrency ∧
      (∀ other ∈ queue.active.entries.map Sigma.snd ++ before.map (fun entry => scope entry.1),
        ¬ other.Conflicts (scope item.1)) ∧
      queue.nextReady scope now = queue.dispatchAt before.length (scope item.1) now := by
  unfold nextReady
  split
  · exact .inl rfl
  · rename_i room
    cases reserved : reservations (queue.active.entries.map Sigma.snd) with
    | none => exact .inl rfl
    | some sets =>
      obtain ⟨readers, writers⟩ := sets
      dsimp only
      split
      · exact .inl rfl
      · rename_i index resources found
        have alone : queue.active.entries.isEmpty = true → 0 = 0 →
            queue.active.entries.map Sigma.snd = [] := by
          intro idle _
          rw [isEmpty_iff.mp idle, map_nil]
        obtain ⟨before, item, after, waits, rfl, rfl, free⟩ :=
          firstReady_eq_some reserved alone found
        refine .inr ⟨before, item, after, waits, by omega, free, ?_⟩
        rw [Nat.zero_add]

theorem nextReady_idle [DecidableEq K] {item : T × Instant} {rest : List (T × Instant)}
    (idle : queue.activeCount = 0) (workers : 0 < queue.concurrency)
    (waits : queue.pending = item :: rest) :
    queue.nextReady scope now = queue.dispatchAt 0 (scope item.1) now := by
  have none_ : queue.active.entries = [] := eq_nil_of_length_eq_zero idle
  have room : ¬ queue.activeCount ≥ queue.concurrency := by omega
  simp [nextReady, room, none_, reservations, waits, firstReady_idle]

theorem nextReady_cases [DecidableEq K] {answer : Option (Dispatched T)}
    (ready : queue.nextReady scope now = .ok (answer, queue')) :
    (answer = none ∧ queue' = queue) ∨
    ∃ before item after, queue.pending = before ++ item :: after ∧
      queue.activeCount < queue.concurrency ∧ queue.nextId < maxU64 ∧
      (∀ other ∈ queue.active.entries.map Sigma.snd ++ before.map (fun entry => scope entry.1),
        ¬ other.Conflicts (scope item.1)) ∧
      answer = some ⟨⟨queue.nextId⟩, item.1, now - item.2⟩ ∧
      queue' = queue.dispatching before after item (scope item.1) now := by
  obtain same | ⟨before, item, after, waits, room, free, taken⟩ := queue.nextReady_choice scope now
  · rw [same] at ready
    cases ready
    exact .inl ⟨rfl, rfl⟩
  · rw [taken] at ready
    by_cases remain : queue.nextId < maxU64
    · rw [dispatchAt_eq waits remain] at ready
      cases ready
      exact .inr ⟨before, item, after, waits, room, remain, free, rfl, rfl⟩
    · rw [dispatchAt_exhausted (by omega)] at ready
      cases ready

theorem finish_cases {answer : Bool} (done : queue.finish id now = .ok (answer, queue')) :
    (id ∉ queue.active ∧ answer = false ∧ queue' = queue) ∨
    ∃ startedAt, id ∈ queue.active ∧ answer = true ∧
      queue' = { queue with
        active := queue.active.erase id
        startedAt := queue.startedAt.erase id
        statistics := { queue.statistics with
          completed := saturatingAdd maxU64 queue.statistics.completed 1
          executionTotal :=
            saturatingAdd maxDuration queue.statistics.executionTotal (now - startedAt)
          executionMax := max queue.statistics.executionMax (now - startedAt) } } := by
  unfold finish at done
  split at done
  · rename_i absent
    cases done
    exact .inl ⟨AList.lookup_eq_none.mp absent, rfl, rfl⟩
  · rename_i scope present
    simp only [bind_ok, orElseError_eq_ok, pure_ok, Prod.mk.injEq] at done
    obtain ⟨startedAt, -, rfl, rfl⟩ := done
    exact .inr ⟨startedAt, AList.lookup_isSome.mp (by simp [present]), rfl, rfl⟩

/-! ## What they keep -/

structure Sound (queue : DispatchQueue K T) : Prop where
  within : queue.pending.length + queue.activeCount ≤ queue.capacity
  busy : queue.activeCount ≤ queue.concurrency
  timed : queue.startedAt.keys = queue.active.keys
  used : ∀ id ∈ queue.active, id.number < queue.nextId
  ids : queue.nextId ≤ maxU64
  admitted : queue.statistics.admitted = min (queue.nextId + queue.pending.length) maxU64
  started : queue.statistics.started = queue.nextId
  completed : queue.statistics.completed + queue.activeCount = queue.nextId

theorem Sound.new {capacity concurrency : Nat} (positive : 0 < capacity ∧ 0 < concurrency) :
    Sound (new capacity concurrency positive : DispatchQueue K T) := by
  constructor <;> simp [DispatchQueue.new, activeCount]

theorem Sound.fresh (sound : Sound queue) : (⟨queue.nextId⟩ : DispatchId) ∉ queue.active :=
  fun active => lt_irrefl _ (sound.used _ active)

theorem activeCount_insert (resources : DispatchScope K) (fresh : id ∉ queue.active) :
    (queue.active.insert id resources).entries.length = queue.activeCount + 1 := by
  rw [AList.entries_insert_of_notMem fresh, length_cons, activeCount]

theorem activeCount_erase (active : id ∈ queue.active) :
    (queue.active.erase id).entries.length + 1 = queue.activeCount := by
  have keys := congrArg length (AList.keys_erase id queue.active)
  rw [List.length_erase_of_mem (AList.mem_keys.mp active)] at keys
  have some_ : 0 < queue.active.keys.length := List.length_pos_of_mem (AList.mem_keys.mp active)
  simp only [AList.keys, List.keys, List.length_map] at keys some_
  rw [activeCount]
  omega

theorem Sound.tryPush {answer : Except T Unit} (sound : Sound queue)
    (push : queue.tryPush work now = (answer, queue')) : Sound queue' := by
  obtain ⟨-, -, rfl⟩ | ⟨room, -, rfl⟩ := tryPush_cases push
  · exact { sound with }
  · have within : queue.pending.length + queue.activeCount < queue.capacity := by
      simpa [isFull] using room
    refine { sound with within := ?_, admitted := ?_ }
    · simp only [length_append, length_singleton]
      show _ + queue.activeCount ≤ _
      omega
    · simp only [length_append, length_singleton, saturatingAdd, sound.admitted]
      omega

theorem Sound.nextReady [DecidableEq K] {answer : Option (Dispatched T)} (sound : Sound queue)
    (ready : queue.nextReady scope now = .ok (answer, queue')) : Sound queue' := by
  obtain ⟨-, rfl⟩ | ⟨before, item, after, waits, room, remain, -, -, rfl⟩ := nextReady_cases ready
  · exact sound
  · have pending : queue.pending.length = (before ++ after).length + 1 := by
      rw [waits, length_append, length_cons, length_append]
      omega
    have count := activeCount_insert (scope item.1) sound.fresh
    have within := sound.within
    have completed := sound.completed
    constructor
    · simp only [dispatching, activeCount] at count ⊢
      rw [count]
      simp only [activeCount] at within
      omega
    · simp only [dispatching, activeCount] at count ⊢
      rw [count]
      exact room
    · simp only [dispatching, AList.keys_insert, sound.timed]
    · intro id active
      simp only [dispatching, AList.mem_insert] at active ⊢
      obtain rfl | active := active
      · exact Nat.lt_succ_self _
      · exact Nat.lt_succ_of_lt (sound.used id active)
    · exact remain
    · simp only [dispatching, sound.admitted, pending]
      congr 1
      omega
    · simp only [dispatching, saturatingAdd, sound.started]
      omega
    · simp only [dispatching, activeCount] at count completed ⊢
      omega

theorem Sound.finish {answer : Bool} (sound : Sound queue)
    (done : queue.finish id now = .ok (answer, queue')) : Sound queue' := by
  obtain ⟨-, -, rfl⟩ | ⟨startedAt, active, -, rfl⟩ := finish_cases done
  · exact sound
  · have count := activeCount_erase active
    have within := sound.within
    have busy := sound.busy
    have completed := sound.completed
    have ids := sound.ids
    refine { sound with within := ?_, busy := ?_, timed := ?_, used := ?_, completed := ?_ }
    · show queue.pending.length + (queue.active.erase id).entries.length ≤ queue.capacity
      omega
    · show (queue.active.erase id).entries.length ≤ queue.concurrency
      omega
    · simp only [AList.keys_erase, sound.timed]
    · exact fun other here => sound.used other (AList.mem_erase.mp here).2
    · show saturatingAdd maxU64 queue.statistics.completed 1 +
        (queue.active.erase id).entries.length = queue.nextId
      rw [saturatingAdd]
      omega

/-! ## No call panics -/

theorem Sound.finish_answers (sound : Sound queue) (id : DispatchId) (now : Instant) :
    ∃ answer queue', queue.finish id now = .ok (answer, queue') := by
  unfold DispatchQueue.finish
  split
  · exact ⟨_, _, rfl⟩
  · rename_i scope present
    have active : id ∈ queue.active := AList.lookup_isSome.mp (by simp [present])
    have timed : id ∈ queue.startedAt := by
      rwa [AList.mem_keys, sound.timed, ← AList.mem_keys]
    obtain ⟨startedAt, found⟩ := Option.isSome_iff_exists.mp (AList.lookup_isSome.mpr timed)
    rw [found]
    exact ⟨_, _, rfl⟩

end DispatchQueue

end Agentix.Dispatch
