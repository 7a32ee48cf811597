import Agentix.Dispatch.Queue
import Agentix.Lib.Rows
import Agentix.Runtime.Workers

/-! # Accounts of unfinished work

Counts, pairs and refresh keys are those of the work that has been admitted and not yet retired,
in whatever order it is.
-/

namespace Agentix.Runtime

open Lib List Option Function Prod
open Dispatch
open Bindings (ChannelKind ConversationRef)

variable {K C P : Type}

def pairId (key : ConversationRef × String) : ChannelKind × String := (key.1.channel, key.2)

def inboundKeys (works : List (EngineWork C P)) : List (ConversationRef × String) :=
  works.filterMap EngineWork.inboundKey

def refreshKeys (works : List (EngineWork C P)) : List Refresh :=
  works.filterMap EngineWork.refresh

structure Accounts (works : List (EngineWork C P)) (counts : ConversationRef → Option Nat)
    (ids : Finset (ChannelKind × String)) (refreshes : Finset Refresh) : Prop where
  counted : ∀ conversation,
    (counts conversation).getD 0 = tally fst conversation (inboundKeys works)
  positive : ∀ conversation, counts conversation ≠ some 0
  limit : ∀ conversation, (counts conversation).getD 0 ≤ conversationCapacity
  paired : ∀ id, id ∈ ids ↔ id ∈ (inboundKeys works).map pairId
  once : ((inboundKeys works).map pairId).Nodup
  kept : ∀ refresh, refresh ∈ refreshes ↔ refresh ∈ refreshKeys works
  refreshed : (refreshKeys works).Nodup

namespace Accounts

variable {works works' : List (EngineWork C P)} {work : EngineWork C P}
  {counts : ConversationRef → Option Nat} {ids : Finset (ChannelKind × String)}
  {refreshes : Finset Refresh} {refresh : Refresh} {conversation : ConversationRef}
  {eventId : String}

theorem empty : Accounts ([] : List (EngineWork C P)) (fun _ => none) ∅ ∅ := by
  constructor <;> simp [inboundKeys, refreshKeys]

theorem of_perm (accounts : Accounts works counts ids refreshes) (perm : works.Perm works') :
    Accounts works' counts ids refreshes := by
  have inbound := perm.filterMap EngineWork.inboundKey
  have refresh := perm.filterMap EngineWork.refresh
  exact {
    counted := fun conversation => (accounts.counted conversation).trans (tally_of_perm inbound)
    positive := accounts.positive
    limit := accounts.limit
    paired := fun id => (accounts.paired id).trans (inbound.map pairId).mem_iff
    once := (inbound.map pairId).nodup_iff.mp accounts.once
    kept := fun key => (accounts.kept key).trans refresh.mem_iff
    refreshed := refresh.nodup_iff.mp accounts.refreshed }

theorem of_keys (accounts : Accounts works counts ids refreshes)
    (inbound : inboundKeys works' = inboundKeys works)
    (refresh : refreshKeys works' = refreshKeys works) : Accounts works' counts ids refreshes where
  counted := inbound ▸ accounts.counted
  positive := accounts.positive
  limit := accounts.limit
  paired := inbound ▸ accounts.paired
  once := inbound ▸ accounts.once
  kept := refresh ▸ accounts.kept
  refreshed := refresh ▸ accounts.refreshed

theorem plain (inbound : work.inboundKey = none) (refresh : work.refresh = none) :
    Accounts (work :: works) counts ids refreshes ↔ Accounts works counts ids refreshes := by
  have inboundKeys_eq : inboundKeys (work :: works) = inboundKeys works :=
    filterMap_cons_none inbound
  have refreshKeys_eq : refreshKeys (work :: works) = refreshKeys works :=
    filterMap_cons_none refresh
  constructor
  · exact fun accounts => accounts.of_keys inboundKeys_eq.symm refreshKeys_eq.symm
  · exact fun accounts => accounts.of_keys inboundKeys_eq refreshKeys_eq

theorem add_refresh (accounts : Accounts works counts ids refreshes)
    (inbound : work.inboundKey = none) (key : work.refresh = some refresh)
    (free : refresh ∉ refreshes) :
    Accounts (work :: works) counts ids (insert refresh refreshes) := by
  have inboundKeys_eq : inboundKeys (work :: works) = inboundKeys works :=
    filterMap_cons_none inbound
  have refreshKeys_eq : refreshKeys (work :: works) = refresh :: refreshKeys works :=
    filterMap_cons_some key
  constructor
  · rw [inboundKeys_eq]
    exact accounts.counted
  · exact accounts.positive
  · exact accounts.limit
  · rw [inboundKeys_eq]
    exact accounts.paired
  · rw [inboundKeys_eq]
    exact accounts.once
  · intro other
    rw [refreshKeys_eq, Finset.mem_insert, mem_cons, accounts.kept]
  · rw [refreshKeys_eq, nodup_cons, ← accounts.kept]
    exact ⟨free, accounts.refreshed⟩

theorem remove_refresh (accounts : Accounts (work :: works) counts ids refreshes)
    (inbound : work.inboundKey = none) (key : work.refresh = some refresh) :
    Accounts works counts ids (refreshes.erase refresh) := by
  have inboundKeys_eq : inboundKeys (work :: works) = inboundKeys works :=
    filterMap_cons_none inbound
  have refreshKeys_eq : refreshKeys (work :: works) = refresh :: refreshKeys works :=
    filterMap_cons_some key
  obtain ⟨gone, refreshed⟩ := nodup_cons.mp (refreshKeys_eq ▸ accounts.refreshed)
  constructor
  · rw [← inboundKeys_eq]
    exact accounts.counted
  · exact accounts.positive
  · exact accounts.limit
  · rw [← inboundKeys_eq]
    exact accounts.paired
  · rw [← inboundKeys_eq]
    exact accounts.once
  · intro other
    rw [Finset.mem_erase, accounts.kept, refreshKeys_eq, mem_cons]
    constructor
    · rintro ⟨ne, same | mem⟩
      · exact absurd same ne
      · exact mem
    · intro mem
      exact ⟨fun same => gone (same ▸ mem), .inr mem⟩
  · exact refreshed

/-- An envelope whose pair is new, below the limit of its conversation. -/
theorem add_inbound (accounts : Accounts works counts ids refreshes)
    (key : work.inboundKey = some (conversation, eventId)) (refresh : work.refresh = none)
    (free : (conversation.channel, eventId) ∉ ids)
    (room : (counts conversation).getD 0 < conversationCapacity) :
    Accounts (work :: works)
      (update counts conversation (some ((counts conversation).getD 0 + 1)))
      (insert (conversation.channel, eventId) ids) refreshes := by
  have inboundKeys_eq :
      inboundKeys (work :: works) = (conversation, eventId) :: inboundKeys works :=
    filterMap_cons_some key
  have refreshKeys_eq : refreshKeys (work :: works) = refreshKeys works :=
    filterMap_cons_none refresh
  constructor
  · intro other
    rw [inboundKeys_eq, tally_cons, ← accounts.counted]
    by_cases same : other = conversation
    · subst same
      simp only [update_self, getD_some, if_true]
      omega
    · simp [update_of_ne same, Ne.symm same]
  · intro other
    by_cases same : other = conversation
    · simp [same]
    · rw [update_of_ne same]
      exact accounts.positive other
  · intro other
    by_cases same : other = conversation
    · subst same
      simp only [update_self, getD_some]
      omega
    · rw [update_of_ne same]
      exact accounts.limit other
  · intro id
    rw [inboundKeys_eq, Finset.mem_insert, map_cons, mem_cons, accounts.paired, pairId]
  · rw [inboundKeys_eq, map_cons, nodup_cons, ← accounts.paired]
    exact ⟨free, accounts.once⟩
  · rw [refreshKeys_eq]
    exact accounts.kept
  · rw [refreshKeys_eq]
    exact accounts.refreshed

theorem admitted (accounts : Accounts (work :: works) counts ids refreshes)
    (key : work.inboundKey = some (conversation, eventId)) :
    ∃ count, 0 < count ∧ counts conversation = some count := by
  have inboundKeys_eq :
      inboundKeys (work :: works) = (conversation, eventId) :: inboundKeys works :=
    filterMap_cons_some key
  have total := accounts.counted conversation
  rw [inboundKeys_eq, tally_cons, if_pos rfl] at total
  cases count : counts conversation with
  | none =>
    rw [count, getD_none] at total
    omega
  | some count' =>
    rw [count, getD_some] at total
    exact ⟨count', by omega, rfl⟩

theorem remove_inbound {count : Nat} (accounts : Accounts (work :: works) counts ids refreshes)
    (key : work.inboundKey = some (conversation, eventId)) (refresh : work.refresh = none)
    (held : counts conversation = some count) :
    Accounts works
      (update counts conversation (if count - 1 = 0 then none else some (count - 1)))
      (ids.erase (conversation.channel, eventId)) refreshes := by
  have inboundKeys_eq :
      inboundKeys (work :: works) = (conversation, eventId) :: inboundKeys works :=
    filterMap_cons_some key
  have refreshKeys_eq : refreshKeys (work :: works) = refreshKeys works :=
    filterMap_cons_none refresh
  have once := accounts.once
  rw [inboundKeys_eq, map_cons] at once
  obtain ⟨gone, once⟩ := nodup_cons.mp once
  have left : (if count - 1 = 0 then none else some (count - 1)).getD 0 = count - 1 := by
    split <;> simp_all
  constructor
  · intro other
    have total := accounts.counted other
    rw [inboundKeys_eq, tally_cons] at total
    by_cases same : other = conversation
    · subst same
      rw [held, getD_some, if_pos rfl] at total
      rw [update_self, left]
      omega
    · rw [update_of_ne same, total, if_neg (Ne.symm same), Nat.zero_add]
  · intro other
    by_cases same : other = conversation
    · subst same
      rw [update_self]
      split
      · simp
      · simpa using ‹¬ count - 1 = 0›
    · rw [update_of_ne same]
      exact accounts.positive other
  · intro other
    by_cases same : other = conversation
    · subst same
      have limit := accounts.limit other
      rw [held, getD_some] at limit
      rw [update_self, left]
      omega
    · rw [update_of_ne same]
      exact accounts.limit other
  · intro id
    rw [Finset.mem_erase, accounts.paired, inboundKeys_eq, map_cons, mem_cons]
    constructor
    · rintro ⟨ne, same | mem⟩
      · exact absurd same ne
      · exact mem
    · intro mem
      refine ⟨fun same => gone ?_, .inr mem⟩
      rwa [pairId, ← same]
  · exact once
  · rw [← refreshKeys_eq]
    exact accounts.kept
  · rw [← refreshKeys_eq]
    exact accounts.refreshed

end Accounts

namespace EngineWorkers

/-- Every task of the `JoinSet` is an active worker with the keys of its work. -/
structure Owned (s : EngineWorkers K C P) : Prop where
  queue : s.queue.Sound
  tasks : (s.workers.map fst).Nodup
  spawned : ∀ worker ∈ s.workers, worker.1 < s.spawned
  active : ∀ worker ∈ s.workers, ∃ dispatch,
    s.active worker.1 = some ⟨dispatch, worker.2.refresh, worker.2.inboundKey⟩

structure Sound (s : EngineWorkers K C P) : Prop where
  owned : s.Owned
  accounts : Accounts s.unfinished s.inboundCounts s.inboundIds s.refreshes

variable {s s' : EngineWorkers K C P} {now : Instant} {work : EngineWork C P}

theorem Sound.new : (new : EngineWorkers K C P).Sound where
  owned := {
    queue := DispatchQueue.Sound.new (by decide)
    tasks := .nil
    spawned := by simp [EngineWorkers.new]
    active := by simp [EngineWorkers.new] }
  accounts := Accounts.empty

theorem Owned.frame (owned : s.Owned) (queue : s'.queue = s.queue)
    (workers : s'.workers = s.workers) (spawned : s'.spawned = s.spawned)
    (active : s'.active = s.active) : s'.Owned where
  queue := queue ▸ owned.queue
  tasks := workers ▸ owned.tasks
  spawned := by
    rw [workers, spawned]
    exact owned.spawned
  active := by
    rw [workers, active]
    exact owned.active

/-- There is room, so that the expectation of a push holds. -/
theorem push_answers (owned : s.Owned) (room : s.queue.isFull = false) (expectation : String)
    (accounts : Accounts (work :: s.unfinished) s.inboundCounts s.inboundIds s.refreshes) :
    ∃ s', s.push work expectation now = .ok s' ∧ s'.Sound := by
  unfold push
  cases pushed : s.queue.tryPush work now with
  | mk answer queue =>
    have sound := owned.queue.tryPush pushed
    obtain ⟨full, -, -⟩ | ⟨-, rfl, same⟩ := DispatchQueue.tryPush_cases pushed
    · rw [room] at full
      cases full
    · refine ⟨{ s with queue }, rfl, { owned with queue := sound }, accounts.of_perm ?_⟩
      have unfinished : ({ s with queue } : EngineWorkers K C P).unfinished =
          s.queue.pending.map fst ++ work :: s.workers.map snd := by
        simp [EngineWorkers.unfinished, same]
      rw [unfinished]
      exact perm_middle.symm

theorem Sound.push_plain (sound : s.Sound) (room : s.queue.isFull = false) (expectation : String)
    (inbound : work.inboundKey = none) (refresh : work.refresh = none) :
    ∃ s', s.push work expectation now = .ok s' ∧ s'.Sound :=
  push_answers sound.owned room expectation ((Accounts.plain inbound refresh).mpr sound.accounts)

theorem Sound.admitInbound (sound : s.Sound) (room : s.queue.isFull = false)
    (envelope : InboundEnvelope C) (rejected : Except String Bool) :
    ∃ s', s.admitInbound envelope rejected now = .ok s' ∧ s'.Sound := by
  unfold EngineWorkers.admitInbound
  dsimp only
  split
  · exact ⟨s, rfl, sound⟩
  · rename_i fresh
    split
    · split
      · exact ⟨_, rfl, sound.owned.frame rfl rfl rfl rfl, sound.accounts⟩
      · exact ⟨s, rfl, sound⟩
    · rename_i below
      let admitted : EngineWorkers K C P := { s with
        inboundCounts := update s.inboundCounts envelope.conversation
          (some ((s.inboundCounts envelope.conversation).getD 0 + 1))
        inboundIds := insert (envelope.conversation.channel, envelope.eventId) s.inboundIds }
      have owned : admitted.Owned := sound.owned.frame rfl rfl rfl rfl
      refine push_answers owned room _ ?_
      exact sound.accounts.add_inbound rfl rfl fresh (by omega)

theorem Sound.maintain (sound : s.Sound) (refresh : Refresh) :
    ∃ s', s.maintain refresh now = .ok s' ∧ s'.Sound := by
  unfold EngineWorkers.maintain
  split
  · exact ⟨s, rfl, sound⟩
  · rename_i free
    obtain ⟨room, fresh⟩ := not_or.mp free
    have room : s.queue.isFull = false := by simpa using room
    let noted : EngineWorkers K C P := { s with refreshes := insert refresh s.refreshes }
    have owned : noted.Owned := sound.owned.frame rfl rfl rfl rfl
    refine push_answers owned room _ ?_
    have key : (refresh.work : EngineWork C P).refresh = some refresh ∧
        (refresh.work : EngineWork C P).inboundKey = none := by
      cases refresh <;> exact ⟨rfl, rfl⟩
    exact sound.accounts.add_refresh key.2 key.1 fresh

theorem Sound.conversations (sound : s.Sound) (conversations : List ConversationRef) :
    ∃ s', conversations.foldlM (fun s conversation => s.maintain (.sessionSwitch conversation) now)
      s = .ok s' ∧ s'.Sound := by
  induction conversations generalizing s with
  | nil => exact ⟨s, rfl, sound⟩
  | cons conversation rest ih =>
    obtain ⟨middle, first, sound⟩ :
        ∃ s', s.maintain (.sessionSwitch conversation) now = .ok s' ∧ s'.Sound :=
      sound.maintain (.sessionSwitch conversation)
    obtain ⟨s', others, sound⟩ := ih sound
    exact ⟨s', by rw [foldlM_cons, first]; exact others, sound⟩

theorem Sound.scheduleTurns (sound : s.Sound) (count : Nat) (turns : List (String × String)) :
    ∃ s', EngineWorkers.scheduleTurns count now s turns = .ok s' ∧ s'.Sound := by
  induction turns generalizing s with
  | nil => exact ⟨s, rfl, sound⟩
  | cons turn rest ih =>
    rw [EngineWorkers.scheduleTurns]
    split
    · exact ⟨s, rfl, sound⟩
    · have moved : ({ s with workingCursor := (s.workingCursor + 1) % count } :
          EngineWorkers K C P).Sound := ⟨sound.owned.frame rfl rfl rfl rfl, sound.accounts⟩
      obtain ⟨middle, first, sound⟩ := moved.maintain (.working turn.1 turn.2)
      obtain ⟨s', others, sound⟩ := ih sound
      refine ⟨s', ?_, sound⟩
      dsimp only
      rw [first]
      exact others

theorem Sound.scheduleRefreshes (sound : s.Sound) (conversations : Option (List ConversationRef))
    (turns : List (String × String)) :
    ∃ s', s.scheduleRefreshes conversations turns now = .ok s' ∧ s'.Sound := by
  obtain ⟨switched, first, sound⟩ := sound.conversations (conversations.getD [])
  obtain ⟨boarded, second, sound⟩ := sound.maintain .taskBoard
  let sorted := turns.mergeSort fun a b => a.1 < b.1 || (a.1 == b.1 && decide (a.2 ≤ b.2))
  obtain ⟨s', third, sound⟩ := sound.scheduleTurns sorted.length
    (sorted.rotate (boarded.workingCursor % sorted.length))
  refine ⟨s', ?_, sound⟩
  unfold EngineWorkers.scheduleRefreshes
  rw [first]
  show (switched.maintain .taskBoard now >>= _) = _
  rw [second]
  exact third

section Dispatching

variable [DecidableEq K] {scope : EngineWork C P → DispatchScope K}

theorem Sound.startReady (sound : s.Sound) (next : s.startReady scope now = .ok s') :
    s'.Sound := by
  simp only [EngineWorkers.startReady, bind_ok] at next
  obtain ⟨⟨job, queue⟩, ready, next⟩ := next
  have queueSound := sound.owned.queue.nextReady ready
  obtain ⟨rfl, same⟩ | ⟨before, item, after, waits, -, -, -, rfl, same⟩ :=
    DispatchQueue.nextReady_cases ready
  · simp only [pure_ok] at next
    subst next same
    exact ⟨sound.owned.frame rfl rfl rfl rfl, sound.accounts⟩
  · simp only [pure_ok] at next
    subst next
    refine ⟨?_, sound.accounts.of_perm ?_⟩
    · constructor
      case queue => exact queueSound
      case tasks =>
        have fresh : s.spawned ∉ s.workers.map fst := by
          intro mem
          obtain ⟨worker, held, same⟩ := mem_map.mp mem
          have below := sound.owned.spawned worker held
          omega
        rw [map_append]
        exact nodup_append_comm.mp (nodup_cons.mpr ⟨fresh, sound.owned.tasks⟩)
      case spawned =>
        intro worker mem
        obtain held | new := mem_append.mp mem
        · exact Nat.lt_succ_of_lt (sound.owned.spawned worker held)
        · rw [mem_singleton.mp new]
          exact Nat.lt_succ_self _
      case active =>
        intro worker mem
        obtain held | new := mem_append.mp mem
        · have below := sound.owned.spawned worker held
          obtain ⟨dispatch, found⟩ := sound.owned.active worker held
          exact ⟨dispatch, (update_of_ne (by omega) _ _).trans found⟩
        · rw [mem_singleton.mp new]
          exact ⟨_, update_self ..⟩
    · have pending : queue.pending = before ++ after := by rw [same]; rfl
      simp only [unfinished, pending, waits, map_append, map_cons, map_nil]
      -- the item leaves its place among the pending ones for the end of the workers
      have first : (before.map fst ++ item.1 :: after.map fst).Perm
          (item.1 :: (before.map fst ++ after.map fst)) := perm_middle
      refine (first.append_right (s.workers.map snd)).trans ?_
      rw [cons_append, ← append_assoc]
      exact (perm_append_singleton item.1 _).symm

theorem startReady_error {message : String} (failed : s.startReady scope now = .error message) :
    message = "dispatch ID exhausted" := by
  unfold EngineWorkers.startReady at failed
  obtain same | ⟨before, item, after, waits, -, -, taken⟩ := s.queue.nextReady_choice scope now
  · rw [same] at failed
    cases failed
  · rw [taken] at failed
    by_cases remain : s.queue.nextId < maxU64
    · rw [DispatchQueue.dispatchAt_eq waits remain] at failed
      cases failed
    · rw [DispatchQueue.dispatchAt_exhausted (by omega)] at failed
      cases failed
      rfl

end Dispatching

theorem releaseInbound_answers {conversation : ConversationRef} {eventId : String}
    {works : List (EngineWork C P)} (owned : s.Owned) (left : s.unfinished = works)
    (key : work.inboundKey = some (conversation, eventId)) (refresh : work.refresh = none)
    (accounts : Accounts (work :: works) s.inboundCounts s.inboundIds s.refreshes) :
    ∃ s', s.releaseInbound conversation eventId = .ok s' ∧ s'.Sound ∧ s'.stopping = s.stopping := by
  obtain ⟨count, positive, held⟩ := accounts.admitted key
  let released : EngineWorkers K C P := { s with
    inboundIds := s.inboundIds.erase (conversation.channel, eventId)
    inboundCounts := update s.inboundCounts conversation
      (if count - 1 = 0 then none else some (count - 1)) }
  have owned : released.Owned := owned.frame rfl rfl rfl rfl
  have accounts : Accounts released.unfinished released.inboundCounts released.inboundIds
      released.refreshes := left ▸ accounts.remove_inbound key refresh held
  refine ⟨released, ?_, ⟨owned, accounts⟩, rfl⟩
  unfold EngineWorkers.releaseInbound
  dsimp only
  rw [held]
  show (ensure (0 < count) _ >>= fun _ => _) = _
  rw [ensure, if_pos positive]
  rfl

theorem keys_cases (work : EngineWork C P) :
    (work.inboundKey = none ∧ work.refresh = none) ∨
    (work.inboundKey = none ∧ ∃ refresh, work.refresh = some refresh) ∨
    (∃ conversation eventId, work.inboundKey = some (conversation, eventId)) ∧
      work.refresh = none := by
  cases work with
  | inbound envelope => exact .inr (.inr ⟨⟨_, _, rfl⟩, rfl⟩)
  | working session turn => exact .inr (.inl ⟨rfl, _, rfl⟩)
  | taskBoard => exact .inr (.inl ⟨rfl, _, rfl⟩)
  | sessionSwitch conversation => exact .inr (.inl ⟨rfl, _, rfl⟩)
  | _ => exact .inl ⟨rfl, rfl⟩

theorem retire_answers {task : Nat} {works : List (EngineWork C P)} {dispatch : DispatchId}
    (owned : s.Owned) (gone : ∀ worker ∈ s.workers, worker.1 ≠ task) (left : s.unfinished = works)
    (accounts : Accounts (work :: works) s.inboundCounts s.inboundIds s.refreshes)
    (found : s.active task = some ⟨dispatch, work.refresh, work.inboundKey⟩) :
    ∃ s', s.retire task now = .ok s' ∧ s'.Sound ∧ s'.stopping = s.stopping := by
  obtain ⟨answer, queue, finished⟩ := owned.queue.finish_answers dispatch now
  have pending : queue.pending = s.queue.pending := by
    obtain ⟨-, -, rfl⟩ | ⟨_, -, -, rfl⟩ := DispatchQueue.finish_cases finished
    · rfl
    · rfl
  let freed : EngineWorkers K C P := { s with queue, active := update s.active task none }
  have freedOwned : freed.Owned := by
    refine ⟨owned.queue.finish finished, owned.tasks, owned.spawned, ?_⟩
    intro worker mem
    obtain ⟨dispatch', held⟩ := owned.active worker mem
    exact ⟨dispatch', (update_of_ne (gone worker mem) _ _).trans held⟩
  have freedLeft : freed.unfinished = works := by
    rw [← left, unfinished, unfinished]
    show queue.pending.map fst ++ _ = _
    rw [pending]
  unfold EngineWorkers.retire
  simp only [found]
  rw [finished]
  obtain ⟨inbound, refresh⟩ | ⟨inbound, key, refresh⟩ |
    ⟨⟨conversation, eventId, inbound⟩, refresh⟩ := keys_cases work
  · simp only [inbound, refresh]
    have sound : freed.Sound :=
      ⟨freedOwned, freedLeft ▸ (Accounts.plain inbound refresh).mp accounts⟩
    exact ⟨freed, rfl, sound, rfl⟩
  · simp only [inbound, refresh]
    let unkeyed : EngineWorkers K C P := { freed with refreshes := s.refreshes.erase key }
    have sound : unkeyed.Sound := ⟨freedOwned.frame rfl rfl rfl rfl,
      freedLeft ▸ accounts.remove_refresh inbound refresh⟩
    exact ⟨unkeyed, rfl, sound, rfl⟩
  · simp only [inbound, refresh]
    exact releaseInbound_answers freedOwned freedLeft inbound refresh accounts

theorem Sound.join [DecidableEq K] {task : Nat} {failed : Bool} (sound : s.Sound)
    (mem : task ∈ s.workers.map fst) :
    ∃ s', s.run (.join task failed now) = .ok s' ∧ s'.Sound := by
  obtain ⟨worker, held, rfl⟩ := mem_map.mp mem
  obtain ⟨before, after, split⟩ := append_of_mem held
  have tasks := sound.owned.tasks
  rw [split, map_append, map_cons, nodup_middle, nodup_cons] at tasks
  have others : ∀ other ∈ before ++ after, other.1 ≠ worker.1 := by
    intro other there same
    exact tasks.1 (map_append ▸ same ▸ mem_map_of_mem there)
  have joined : (s.workers.filter fun other => other.1 ≠ worker.1) = before ++ after := by
    rw [split, filter_append, filter_cons_of_neg (by simp), ← filter_append]
    exact filter_eq_self.mpr fun other there => by simpa using others other there
  obtain ⟨dispatch, found⟩ := sound.owned.active worker held
  let rest : EngineWorkers K C P := { s with workers := before ++ after }
  have within : ∀ other ∈ before ++ after, other ∈ s.workers := by
    intro other there
    rw [split]
    simp only [mem_append, mem_cons] at there ⊢
    exact there.imp id .inr
  have owned : rest.Owned := by
    refine ⟨sound.owned.queue, ?_, ?_, ?_⟩
    rotate_left
    · exact fun other there => sound.owned.spawned other (within other there)
    · exact fun other there => sound.owned.active other (within other there)
    show ((before ++ after).map fst).Nodup
    rw [map_append]
    exact tasks.2
  have accounts : Accounts (worker.2 :: rest.unfinished) s.inboundCounts s.inboundIds
      s.refreshes := by
    refine sound.accounts.of_perm ?_
    simp only [unfinished, rest, split, map_append, map_cons]
    rw [← append_assoc, ← append_assoc]
    exact perm_middle
  obtain ⟨s', retired, sound', -⟩ := retire_answers owned others rfl accounts found
  refine ⟨{ s' with stopping := s'.stopping || failed }, ?_,
    sound'.owned.frame rfl rfl rfl rfl, sound'.accounts⟩
  simp only [EngineWorkers.run, joined]
  show (rest.retire worker.1 now >>= _) = _
  rw [retired]
  rfl

/-- A step that can be taken answers, unless the last dispatch id has been given out. -/
theorem Sound.run [DecidableEq K] (sound : s.Sound) (step : Step K C P)
    (enabled : s.enabled step = true) :
    (∃ s', s.run step = .ok s' ∧ s'.Sound) ∨ s.run step = .error "dispatch ID exhausted" := by
  cases step with
  | recover now =>
    simp only [EngineWorkers.enabled, Bool.and_eq_true, Bool.not_eq_true'] at enabled
    exact .inl (sound.push_plain enabled.2 _ rfl rfl)
  | inbound envelope rejected now =>
    simp only [EngineWorkers.enabled, Bool.and_eq_true, Bool.not_eq_true'] at enabled
    exact .inl (sound.admitInbound enabled.2 envelope rejected)
  | pendingPrompt work now =>
    simp only [EngineWorkers.enabled, Bool.and_eq_true, Bool.not_eq_true'] at enabled
    cases work <;> exact .inl (sound.push_plain enabled.2 _ rfl rfl)
  | inputRecovery payload now =>
    simp only [EngineWorkers.enabled, Bool.and_eq_true, Bool.not_eq_true'] at enabled
    exact .inl (sound.push_plain enabled.2 _ rfl rfl)
  | event payload now =>
    simp only [EngineWorkers.enabled, Bool.and_eq_true, Bool.not_eq_true'] at enabled
    exact .inl (sound.push_plain enabled.2 _ rfl rfl)
  | tick conversations turns now => exact .inl (sound.scheduleRefreshes conversations turns)
  | start scope now =>
    cases next : s.startReady scope now with
    | ok s' => exact .inl ⟨s', next, sound.startReady next⟩
    | error message =>
      rw [← startReady_error next]
      exact .inr next
  | join task failed now => exact .inl (sound.join (by simpa [EngineWorkers.enabled] using enabled))
  | stop => exact .inl ⟨_, rfl, sound.owned.frame rfl rfl rfl rfl, sound.accounts⟩

theorem sound_of_reachable [DecidableEq K] (run : (system K C P).Reachable System.always s) :
    s.Sound := by
  refine run.invariant Sound Sound.new ?_
  intro s s' step _ _ sound next
  have next : (if s.enabled step then (s.run step).toOption else none) = some s' := next
  simp only [ite_none_right_eq_some] at next
  obtain ⟨enabled, next⟩ := next
  obtain ⟨s'', ran, sound⟩ | failed := sound.run step enabled
  · rw [ran] at next
    cases next
    exact sound
  · rw [failed] at next
    cases next

end EngineWorkers

end Agentix.Runtime
