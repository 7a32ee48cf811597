import Agentix.Dispatch.Trace
import Agentix.Runtime.Accounting

/-! # Order, bounds and progress of the dispatch queue

Operations that conflict run one after the other in the order of their admission, nothing is lost
or run twice, and an idle queue always has something to run.
-/

namespace Agentix.Dispatch

open Lib List

variable {K T : Type} [DecidableEq K] {capacity concurrency : Nat}
  {positive : 0 < capacity ∧ 0 < concurrency} {traced : Traced K T}

/-! ## Order -/

def Stable (scopes : Nat → DispatchScope K) : Traced K T → Call K T (Ticket T) → Prop :=
  Traced.Resolves fun number resources => resources = scopes number

theorem conflicting_operations_run_in_order {scopes : Nat → DispatchScope K}
    (run : (dispatching K T capacity concurrency positive).Reachable (Stable scopes) traced) :
    (∀ a b, traced.Active a → traced.Active b → a ≠ b → ¬ (scopes a).Conflicts (scopes b)) ∧
    (∀ a, traced.Active a → scopes a = .global → ∀ b, traced.Active b → b = a) ∧
    ∀ a b, [.admitted a, .admitted b].Sublist traced.log → (scopes a).Conflicts (scopes b) →
      ∀ before after, traced.log = before ++ .taken b :: after →
        [.taken a, .released a].Sublist before := by
  obtain ⟨matched, -, -, excludes⟩ :=
    reachable_line (fun a b => (scopes a).Conflicts (scopes b))
      (fun a b conflict => conflict.symm)
      (fun a b ra rb isA isB conflict => by rw [isA, isB]; exact conflict) run
  refine ⟨fun a b ha hb differ => excludes.apart a ha b hb differ, ?_, ?_⟩
  · intro a ha isGlobal b hb
    by_contra differ
    refine excludes.apart b hb a ha differ ?_
    simp only [isGlobal]
    exact DispatchScope.global_conflicts _
  · intro a b ordered conflict before after split
    have numbers : [a, b].Sublist (range traced.accepted.length) := by
      rw [← matched.admitted]
      exact ordered.filterMap admittedNumber
    have less : a < b := rel_of_pairwise_cons (pairwise_lt_range.sublist numbers) (by simp)
    exact excludes.inOrder a b before after split less (ordered.subset (by simp)) conflict

/-- A transfer between two resources, work on each of them and work on a third. -/
def transferScopes : Nat → DispatchScope Nat
  | 0 => .keys [1]
  | 1 => .keys [1, 2]
  | 2 => .access [2] []
  | _ => .keys [3]

def transferCalls : List (Call Nat Unit (Ticket Unit)) :=
  replicate 4 (.push () 0) ++
    [.nextReady (fun ticket => transferScopes ticket.number) 1,
     .nextReady (fun ticket => transferScopes ticket.number) 2, .finish ⟨0⟩ 3,
     .nextReady (fun ticket => transferScopes ticket.number) 4]

def transferred : Traced Nat Unit := (Traced.empty 5 3 (by decide)).played transferCalls

theorem transferred_stable :
    (dispatching Nat Unit 5 3 (by decide)).Reachable (Stable transferScopes) transferred := by
  refine reachable_played (fun traced call mem => ?_) .start
  simp only [transferCalls, replicate, cons_append, nil_append, mem_cons,
    not_mem_nil, or_false] at mem
  rcases mem with rfl | rfl | rfl | rfl | rfl | rfl | rfl | rfl <;> simp [Stable, Traced.Resolves]

/-- The work of the third resource overtook the transfer, which came after the work before it. -/
theorem transfer_in_order :
    transferred.log.drop 4 = [.taken 0, .taken 3, .released 0, .taken 1] ∧
    ∀ before after, transferred.log = before ++ .taken 1 :: after →
      [.taken 0, .released 0].Sublist before := by
  obtain ⟨-, -, ordered⟩ := conflicting_operations_run_in_order transferred_stable
  exact ⟨by decide, ordered 0 1 (by decide) (by simp [transferScopes, DispatchScope.Conflicts,
    DispatchScope.access?])⟩

/-! ## Bounds -/

/-- Exactly one of three things holds. -/
def OneOf (p q r : Prop) : Prop :=
  (p ∧ ¬ q ∧ ¬ r) ∨ (¬ p ∧ q ∧ ¬ r) ∨ (¬ p ∧ ¬ q ∧ r)

omit [DecidableEq K] in
theorem Traced.Matched.oneOf (matched : traced.Matched) (accounted : traced.line.Accounted)
    {number : Nat} (accepted : number < traced.accepted.length) :
    OneOf (traced.Pending number) (traced.Active number) (traced.Finished number) := by
  have admitted : .admitted number ∈ traced.line.log := matched.mem_admitted.mpr accepted
  have pending : traced.Pending number ↔ _ := mem_map.symm.trans (accounted.waits number)
  have active : traced.Active number ↔ _ := accounted.holds number
  have finished : traced.Finished number → .taken number ∈ traced.line.log :=
    accounted.taken_of_released
  unfold OneOf
  by_cases taken : .taken number ∈ traced.line.log
  · by_cases released : .released number ∈ traced.line.log
    · exact .inr (.inr ⟨fun waits => (pending.mp waits).2 taken,
        fun holds => (active.mp holds).2 released, released⟩)
    · exact .inr (.inl ⟨fun waits => (pending.mp waits).2 taken,
        active.mpr ⟨taken, released⟩, released⟩)
  · exact .inl ⟨pending.mpr ⟨admitted, taken⟩, fun holds => taken (active.mp holds).1,
      fun done => taken (finished done)⟩

/-- What a queue says about the work it accepted. -/
structure Bounded (capacity concurrency : Nat) (traced : Traced K T) : Prop where
  within : traced.queue.pending.length + traced.queue.activeCount ≤ capacity
  busy : traced.queue.activeCount ≤ concurrency
  standing : ∀ number < traced.accepted.length,
    OneOf (traced.Pending number) (traced.Active number) (traced.Finished number)
  /-- `next_ready` answers accepted work, and no work twice. -/
  answered : ∀ entry ∈ traced.dispatches, traced.accepted[entry.2.number]? = some entry.2.work
  once : (traced.dispatches.map fun entry => entry.2.number).Nodup
  fresh : (traced.dispatches.map Prod.fst).Nodup
  rejected : ∀ work now item queue', traced.queue.tryPush work now = (.error item, queue') →
    item = work ∧ queue' = { traced.queue with statistics := { traced.queue.statistics with
      rejected := saturatingAdd maxU64 traced.queue.statistics.rejected 1 } }

theorem queue_bounded
    (run : (dispatching K T capacity concurrency positive).Reachable System.always traced) :
    Bounded capacity concurrency traced ∧ ∀ now,
      let statistics := traced.queue.statisticsAt now
      statistics.completed + statistics.active = statistics.started ∧
      statistics.admitted = min (statistics.started + statistics.pending) maxU64 := by
  obtain ⟨matched, accounted⟩ := reachable_accounted run
  obtain ⟨rfl, rfl⟩ := reachable_limits run
  have sound := matched.sound
  refine ⟨⟨sound.within, sound.busy, fun number => matched.oneOf accounted, matched.ran,
    matched.once accounted.once, matched.distinct, ?_⟩, fun now => ?_⟩
  · intro work now item queue' push
    obtain ⟨-, same, rfl⟩ | ⟨-, wrong, -⟩ := DispatchQueue.tryPush_cases push
    · exact ⟨Except.error.inj same, rfl⟩
    · cases wrong
  · constructor
    · show traced.queue.statistics.completed + traced.queue.activeCount =
        traced.queue.statistics.started
      rw [sound.completed, sound.started]
    · show traced.queue.statistics.admitted =
        min (traced.queue.statistics.started + traced.queue.pending.length) maxU64
      rw [sound.admitted, sound.started]

theorem transferred_bounded : transferred.queue.pending.length = 1 ∧
    Bounded 5 3 transferred :=
  ⟨by decide, (queue_bounded (transferred_stable.mono fun _ _ _ => trivial)).1⟩

/-! ## The last id -/

/-- An idle queue after as many rounds of one operation. -/
def rested (rounds : Nat) : DispatchQueue Unit (Ticket Unit) :=
  { DispatchQueue.new 2 1 (by decide) with
    nextId := rounds
    statistics := { admitted := rounds, started := rounds, completed := rounds } }

def waiting (rounds admitted : Nat) (ticket : Ticket Unit) : DispatchQueue Unit (Ticket Unit) :=
  { rested rounds with
    pending := [(ticket, 0)]
    statistics := { admitted := admitted, started := rounds, completed := rounds } }

theorem rested_push (rounds : Nat) (ticket : Ticket Unit) :
    (rested rounds).tryPush ticket 0 =
      (.ok (), waiting rounds (saturatingAdd maxU64 rounds 1) ticket) := rfl

theorem waiting_round {rounds : Nat} (remain : rounds < maxU64) (ticket : Ticket Unit) :
    ∃ taken dispatched,
      (waiting rounds (saturatingAdd maxU64 rounds 1) ticket).nextReady (fun _ => .keys []) 0 =
        .ok (some dispatched, taken) ∧
      taken.finish ⟨rounds⟩ 0 = .ok (true, rested (rounds + 1)) := by
  have waits : (waiting rounds (saturatingAdd maxU64 rounds 1) ticket).pending =
      [] ++ (ticket, 0) :: [] := rfl
  refine ⟨_, _, (DispatchQueue.nextReady_idle rfl Nat.one_pos rfl).trans
    (DispatchQueue.dispatchAt_eq waits remain), ?_⟩
  have found {β : Type} (value : β) :
      (AList.singleton (β := fun _ : DispatchId => β) ⟨rounds⟩ value).lookup ⟨rounds⟩ =
        some value :=
    dlookup_cons_eq _ _ _
  have emptied {β : Type} (value : β) :
      (AList.singleton (β := fun _ : DispatchId => β) ⟨rounds⟩ value).erase ⟨rounds⟩ = ∅ := by
    apply AList.ext
    exact kerase_cons_eq rfl
  have next : min (rounds + 1) maxU64 = rounds + 1 := Nat.min_eq_left remain
  simp [DispatchQueue.finish, DispatchQueue.dispatching, waiting, rested, DispatchQueue.new, found,
    emptied, orElseError, bind, Except.bind, pure, Except.pure, saturatingAdd, next]

/-- As many rounds of one operation are a run, as long as there are ids for them. -/
theorem reachable_rested {rounds : Nat} (ids : rounds ≤ maxU64) :
    ∃ traced : Traced Unit Unit,
      (dispatching Unit Unit 2 1 (by decide)).Reachable System.always traced ∧
        traced.queue = rested rounds := by
  induction rounds with
  | zero => exact ⟨_, .start, rfl⟩
  | succ rounds ih =>
    obtain ⟨traced, run, rests⟩ := ih (Nat.le_of_succ_le ids)
    have pushes := rested_push rounds ⟨traced.accepted.length, ()⟩
    rw [← rests] at pushes
    obtain ⟨taken, dispatched, takes, finishes⟩ := waiting_round ids ⟨traced.accepted.length, ()⟩
    rw [← Traced.push_queue pushes] at takes
    obtain ⟨traced', took, isTaken⟩ := Traced.nextReady_queue takes
    rw [← isTaken] at finishes
    obtain ⟨traced'', finished, isRested⟩ := Traced.finish_queue finishes
    have pushed := reachable_after run (.push () 0) trivial rfl
    have started := reachable_after pushed (.nextReady (fun _ => .keys []) 0) trivial took
    exact ⟨traced'', reachable_after started (.finish ⟨rounds⟩ 0) trivial finished, isRested⟩

/-- After the last id more work can be accepted than the admission counter shows. -/
theorem admitted_saturates :
    ∃ traced : Traced Unit Unit,
      (dispatching Unit Unit 2 1 (by decide)).Reachable System.always traced ∧
        (traced.queue.statisticsAt 0).started ≠
          (traced.queue.statisticsAt 0).admitted - (traced.queue.statisticsAt 0).pending := by
  obtain ⟨traced, run, rests⟩ := reachable_rested (Nat.le_refl maxU64)
  have pushes := rested_push maxU64 ⟨traced.accepted.length, ()⟩
  rw [← rests] at pushes
  refine ⟨traced.push () 0, reachable_after run (.push () 0) trivial rfl, ?_⟩
  rw [Traced.push_queue pushes]
  show maxU64 ≠ saturatingAdd maxU64 maxU64 1 - 1
  decide

/-! ## Progress -/

theorem idle_queue_dispatches_oldest {scope : Ticket T → DispatchScope K} {now : Instant}
    (run : (dispatching K T capacity concurrency positive).Reachable System.always traced)
    (idle : traced.queue.activeCount = 0)
    (ids : (traced.queue.statisticsAt now).started < maxU64) :
    (traced.queue.pending ≠ [] → ∃ dispatched queue',
      traced.queue.nextReady scope now = .ok (some dispatched, queue') ∧
        traced.Pending dispatched.work.number ∧
        ∀ number, traced.Pending number → dispatched.work.number ≤ number) ∧
    ∀ number, traced.Pending number → (∀ earlier < number, traced.Finished earlier) →
      ∃ dispatched queue', traced.queue.nextReady scope now = .ok (some dispatched, queue') ∧
        dispatched.work.number = number := by
  obtain ⟨matched, accounted⟩ := reachable_accounted run
  have remain : traced.queue.nextId < maxU64 := matched.sound.started ▸ ids
  have workers : 0 < traced.queue.concurrency := by
    rw [(reachable_limits run).2]
    exact positive.2
  cases waits : traced.queue.pending with
  | nil =>
    refine ⟨fun some_ => absurd rfl some_, fun number pending => ?_⟩
    obtain ⟨entry, here, -⟩ := pending
    rw [waits] at here
    cases here
  | cons item rest =>
    have split : traced.queue.pending = [] ++ item :: rest := waits
    have taken : traced.queue.nextReady scope now = _ :=
      (DispatchQueue.nextReady_idle idle workers waits).trans
        (DispatchQueue.dispatchAt_eq split remain)
    have first : traced.Pending item.1.number := ⟨item, by simp [waits], rfl⟩
    have oldest : ∀ number, traced.Pending number → item.1.number ≤ number := by
      rintro number ⟨entry, here, rfl⟩
      have sorted := accounted.sorted
      simp only [Traced.line, waits, map_cons, pairwise_cons] at sorted
      rw [waits, mem_cons] at here
      obtain rfl | later := here
      · exact Nat.le_refl _
      · exact Nat.le_of_lt (sorted.1 _ (List.mem_map.mpr ⟨entry, later, rfl⟩))
    refine ⟨fun _ => ⟨_, _, taken, first, oldest⟩, fun number pending done => ⟨_, _, taken, ?_⟩⟩
    by_contra differ
    -- an earlier number cannot be pending, for it has finished
    have earlier : item.1.number < number := Nat.lt_of_le_of_ne (oldest number pending) differ
    have waiting := (accounted.waits item.1.number).mp (List.mem_map.mpr first)
    exact waiting.2 (accounted.taken_of_released (done _ earlier))

/-- Work that waits for another is dispatched when the other has finished. -/
theorem transferred_then_readers :
    ∃ dispatched queue', (transferred.played [.finish ⟨1⟩ 5, .finish ⟨2⟩ 6]).queue.nextReady
      (fun ticket => transferScopes ticket.number) 7 = .ok (some dispatched, queue') ∧
        dispatched.work.number = 2 := by
  have run : (dispatching Nat Unit 5 3 (by decide)).Reachable System.always
      (transferred.played [.finish ⟨1⟩ 5, .finish ⟨2⟩ 6]) :=
    reachable_played (fun _ _ _ => trivial) (transferred_stable.mono fun _ _ _ => trivial)
  exact (idle_queue_dispatches_oldest run (by decide) (by decide)).2 2
    (by unfold Traced.Pending; decide) (by unfold Traced.Finished; decide)

/-- When all ids have been given out the next dispatch panics. -/
theorem exhausted_ids_panic :
    ∃ traced : Traced Unit Unit,
      (dispatching Unit Unit 2 1 (by decide)).Reachable System.always traced ∧
        traced.queue.activeCount = 0 ∧ traced.queue.pending ≠ [] ∧
        traced.queue.nextReady (fun _ => .keys []) 0 = .error "dispatch ID exhausted" := by
  obtain ⟨traced, run, rests⟩ := reachable_rested (Nat.le_refl maxU64)
  have pushes := rested_push maxU64 ⟨traced.accepted.length, ()⟩
  rw [← rests] at pushes
  refine ⟨traced.push () 0, reachable_after run (.push () 0) trivial rfl, ?_⟩
  rw [Traced.push_queue pushes]
  refine ⟨rfl, cons_ne_nil _ _, ?_⟩
  rw [DispatchQueue.nextReady_idle rfl Nat.one_pos rfl]
  exact DispatchQueue.dispatchAt_exhausted (Nat.le_refl _)

end Agentix.Dispatch

/-! # The accounts of admission are exact -/

namespace Agentix.Runtime

open Lib
open Dispatch
open Bindings (ChannelKind ConversationRef)
open Function (update)

namespace EngineWorkers

variable {K C P : Type} [DecidableEq K]

/-- Between any two branches of the loop. -/
structure Exact (s : EngineWorkers K C P) : Prop where
  /-- The count of a conversation is the number of its envelopes. -/
  counts : ∀ conversation, (s.inboundCounts conversation).getD 0 =
    tally Prod.fst conversation (s.unfinished.filterMap EngineWork.inboundKey)
  limit : ∀ conversation, (s.inboundCounts conversation).getD 0 ≤ conversationCapacity
  ids : ∀ id, id ∈ s.inboundIds ↔ ∃ envelope, .inbound envelope ∈ s.unfinished ∧
    (envelope.conversation.channel, envelope.eventId) = id
  /-- A pair and a key have at most one item of work. -/
  once : ((s.unfinished.filterMap EngineWork.inboundKey).map pairId).Nodup
  refreshed : (s.unfinished.filterMap EngineWork.refresh).Nodup
  refreshes : ∀ refresh, refresh ∈ s.refreshes ↔
    ∃ work ∈ s.unfinished, work.refresh = some refresh
  /-- The workers that run are active, with the keys of their work. -/
  active : ∀ worker ∈ s.workers, ∃ dispatch,
    s.active worker.1 = some ⟨dispatch, worker.2.refresh, worker.2.inboundKey⟩
  /-- No expectation fails. -/
  answers : ∀ step message, s.enabled step = true → s.run step = .error message →
    message = "dispatch ID exhausted"

/-- Whatever is admitted, dispatched and joined, in any order. -/
theorem admission_is_exact (s : EngineWorkers K C P)
    (run : (system K C P).Reachable System.always s) : s.Exact := by
  have sound := sound_of_reachable run
  constructor
  case counts => exact sound.accounts.counted
  case limit => exact sound.accounts.limit
  case ids =>
    intro id
    rw [sound.accounts.paired, List.mem_map]
    constructor
    · rintro ⟨key, member, rfl⟩
      obtain ⟨work, held, its⟩ := List.mem_filterMap.mp member
      cases work with
      | inbound envelope =>
        cases its
        exact ⟨envelope, held, rfl⟩
      | _ => cases its
    · rintro ⟨envelope, held, rfl⟩
      exact ⟨_, List.mem_filterMap.mpr ⟨_, held, rfl⟩, rfl⟩
  case once => exact sound.accounts.once
  case refreshed => exact sound.accounts.refreshed
  case refreshes =>
    intro refresh
    rw [sound.accounts.kept, refreshKeys, List.mem_filterMap]
  case active => exact sound.owned.active
  case answers =>
    intro step message enabled failed
    obtain ⟨s', ran, -⟩ | exhausted := sound.run step enabled
    · rw [ran] at failed
      cases failed
    · rw [exhausted] at failed
      cases failed
      rfl

/-! ## A run -/

def chat : ConversationRef := ⟨.telegram, "1"⟩

/-- The second envelope has the pair of the first, and the worker of the first one fails. -/
def interrupted : List (Step Unit Unit Unit) :=
  [.inbound ⟨chat, "a", ()⟩ (.ok true) 0, .event () 1, .inbound ⟨chat, "a", ()⟩ (.ok true) 2,
    .inbound ⟨chat, "b", ()⟩ (.ok true) 3, .start (fun _ => .keys []) 4,
    .start (fun _ => .global) 5, .join 0 true 6]

theorem interrupted_is_exact : ∃ s, (system Unit Unit Unit).Reachable System.always s ∧ s.Exact ∧
    s.inboundCounts chat = some 1 ∧ s.queue.pending.length = 2 ∧ s.stopping = true := by
  have ends : (interrupted.foldlM step new).map
      (fun s => (s.inboundCounts chat, s.queue.pending.length, s.stopping)) =
        some (some 1, 2, true) := by decide
  obtain ⟨s, ran, ends⟩ := Option.map_eq_some_iff.mp ends
  have reachable := System.reachable_of_foldlM _ ran
  refine ⟨s, reachable, admission_is_exact s reachable, congrArg Prod.fst ends, ?_, ?_⟩
  · exact congrArg (fun ends => ends.2.1) ends
  · exact congrArg (fun ends => ends.2.2) ends

end EngineWorkers

end Agentix.Runtime
