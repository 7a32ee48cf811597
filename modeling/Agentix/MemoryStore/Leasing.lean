import Agentix.MemoryStore.Performing

/-! # Leases of work

What becomes of a work item while nothing is claimed, what a claim adds, and what both mean for
the leases that were given.
-/

namespace Agentix.MemoryStore

open Lib List Option

/-! ## Items without a claim -/

/-- An item later, while nothing is claimed. -/
structure Later (item item' : WorkItem) : Prop where
  id : item'.id = item.id
  project : item'.projectId = item.projectId
  receipt : item'.receiptId = item.receiptId
  kind : item'.kind = item.kind
  payload : item'.payload = item.payload
  generation : item.generation ≤ item'.generation
  running : item'.state = .running → item' = item
  settled : item.state = .done ∨ item.state = .cancelled → item' = item
  attempts : (item'.attempts = item.attempts ∧ item'.maxAttempts = item.maxAttempts) ∨
    (item'.attempts = 0 ∧ item'.maxAttempts = none)

/-- An item that was added since some identifier was the last. -/
structure Added (last : Nat) (item : WorkItem) : Prop where
  id : last < item.id
  idle : item.state ≠ .running
  attempts : item.attempts = 0
  maxAttempts : item.maxAttempts = none

namespace Later

theorem refl (item : WorkItem) : Later item item :=
  ⟨rfl, rfl, rfl, rfl, rfl, Nat.le_refl _, fun _ => rfl, fun _ => rfl, .inl ⟨rfl, rfl⟩⟩

theorem trans {a b c : WorkItem} (first : Later a b) (second : Later b c) : Later a c where
  id := by rw [second.id, first.id]
  project := by rw [second.project, first.project]
  receipt := by rw [second.receipt, first.receipt]
  kind := by rw [second.kind, first.kind]
  payload := by rw [second.payload, first.payload]
  generation := Nat.le_trans first.generation second.generation
  running runs := by
    have same := second.running runs
    rw [same] at runs
    rw [same, first.running runs]
  settled over_ := by
    have same := first.settled over_
    rw [← same] at over_
    rw [second.settled over_, same]
  attempts := by
    obtain ⟨attempts, most⟩ | reset := second.attempts
    · rw [attempts, most]
      exact first.attempts
    · exact .inr reset

/-- A change of an item that is neither done nor cancelled, which leaves it without a lease. -/
theorem ended {item item' : WorkItem}
    (about : item'.id = item.id ∧ item'.projectId = item.projectId ∧
      item'.receiptId = item.receiptId ∧ item'.kind = item.kind ∧ item'.payload = item.payload)
    (generation : item.generation ≤ item'.generation) (idle : item'.state ≠ .running)
    (unsettled : item.state ≠ .done ∧ item.state ≠ .cancelled)
    (attempts : (item'.attempts = item.attempts ∧ item'.maxAttempts = item.maxAttempts) ∨
      (item'.attempts = 0 ∧ item'.maxAttempts = none)) : Later item item' where
  id := about.1
  project := about.2.1
  receipt := about.2.2.1
  kind := about.2.2.2.1
  payload := about.2.2.2.2
  generation := generation
  running runs := absurd runs idle
  settled over_ := by
    obtain done | cancelled := over_
    · exact absurd done unsettled.1
    · exact absurd cancelled unsettled.2
  attempts := attempts

theorem unsettled_of_active {item : WorkItem} (active : item.active) :
    item.state ≠ .done ∧ item.state ≠ .cancelled := by
  constructor <;>
  · intro over_
    simp [WorkItem.active, over_] at active

theorem of_change {t : Transaction} {item item' : WorkItem} (unclaimed : t.given = none)
    (change : Change t item item') : Later item item' := by
  have about := change.about
  cases change with
  | revoke revocable =>
    refine ended about (Nat.le_succ _) (by simp [WorkItem.revoked]) ?_ (.inl ⟨rfl, rfl⟩)
    constructor <;>
    · intro over_
      simp [WorkItem.revocable, WorkItem.active, over_] at revocable
  | supersede active =>
    exact ended about (Nat.le_refl _) (by simp [WorkItem.superseded])
      (unsettled_of_active active) (.inl ⟨rfl, rfl⟩)
  | expire running =>
    exact ended about (Nat.le_refl _) (by simp [WorkItem.expiredOut])
      (by simp [running]) (.inl ⟨rfl, rfl⟩)
  | grant given =>
    rw [unclaimed] at given
    cases given
  | finish running =>
    exact ended about (Nat.le_refl _) (by simp [WorkItem.finished])
      (by simp [running]) (.inl ⟨rfl, rfl⟩)
  | fail running =>
    refine ended about (Nat.le_refl _) ?_ (by simp [running]) (.inl ⟨rfl, rfl⟩)
    simp only [WorkItem.failedWith]
    split <;> simp
  | retry failed =>
    exact ended about (Nat.le_refl _) (by simp [WorkItem.retried]) (by simp [failed])
      (.inr ⟨rfl, rfl⟩)

end Later

/-- A queue later, while nothing is claimed. -/
structure Unclaimed (db db' : Database) : Prop where
  sequence : db.workSequence ≤ db'.workSequence
  kept : ∀ item ∈ db.workItems, ∃ item' ∈ db'.workItems, Later item item'
  origin : ∀ item' ∈ db'.workItems, (∃ item ∈ db.workItems, Later item item') ∨
    Added db.workSequence item'

namespace Unclaimed

theorem refl (db : Database) : Unclaimed db db :=
  ⟨Nat.le_refl _, fun item member => ⟨item, member, .refl item⟩,
    fun item member => .inl ⟨item, member, .refl item⟩⟩

theorem trans {a b c : Database} (first : Unclaimed a b) (second : Unclaimed b c) :
    Unclaimed a c where
  sequence := Nat.le_trans first.sequence second.sequence
  kept item member := by
    obtain ⟨item', here, later⟩ := first.kept item member
    obtain ⟨item'', there, later'⟩ := second.kept item' here
    exact ⟨item'', there, later.trans later'⟩
  origin item'' member := by
    have bound := first.sequence
    obtain ⟨item', here, later'⟩ | added := second.origin item'' member
    · obtain ⟨item, there, later⟩ | added := first.origin item' here
      · exact .inl ⟨item, there, later.trans later'⟩
      · -- what was added may have been ended or retried since
        refine .inr ⟨by rw [later'.id]; exact added.id, fun runs => ?_, ?_, ?_⟩
        · have same := later'.running runs
          rw [same] at runs
          exact added.idle runs
        · obtain ⟨attempts, -⟩ | ⟨reset, -⟩ := later'.attempts
          · rw [attempts, added.attempts]
          · exact reset
        · obtain ⟨-, most⟩ | ⟨-, reset⟩ := later'.attempts
          · rw [most, added.maxAttempts]
          · exact reset
    · exact .inr ⟨by have := added.id; omega, added.idle, added.attempts, added.maxAttempts⟩

theorem of_same {db db' : Database} (items : db'.workItems = db.workItems)
    (sequence : db'.workSequence = db.workSequence) : Unclaimed db db' where
  sequence := Nat.le_of_eq sequence.symm
  kept item member := ⟨item, by rw [items]; exact member, .refl item⟩
  origin item member := .inl ⟨item, by rw [← items]; exact member, .refl item⟩

theorem addWork (db : Database) (projectId receiptId : String) (kind : WorkKind)
    (payload : Payload) (priority : Nat) :
    Unclaimed db (db.addWork projectId receiptId kind payload priority) where
  sequence := Nat.le_succ _
  kept item member := ⟨item, mem_append_left _ member, .refl item⟩
  origin item member := by
    obtain old | new := mem_append.mp member
    · exact .inl ⟨item, old, .refl item⟩
    · rw [mem_singleton.mp new]
      exact .inr ⟨Nat.lt_succ_self _, by simp, rfl, rfl⟩

theorem updateWork {db : Database} {selected : WorkItem → Bool} {change : WorkItem → WorkItem}
    (later : ∀ item ∈ db.workItems, selected item → Later item (change item)) :
    Unclaimed db (db.updateWork selected change) where
  sequence := Nat.le_refl _
  kept item member := by
    refine ⟨_, mem_map_of_mem member, ?_⟩
    split
    · rename_i chosen
      exact later item member chosen
    · exact .refl item
  origin item' member := by
    obtain ⟨item, here, rfl⟩ := mem_map.mp member
    refine .inl ⟨item, here, ?_⟩
    split
    · rename_i chosen
      exact later item here chosen
    · exact .refl item

variable [Environment] {t : Transaction} {db db' : Database}

theorem of_write (unclaimed : t.given = none) (write : Write t db db') : Unclaimed db db' := by
  cases write with
  | save _ ok =>
    rw [(saved_of_ok ok).tables]
    exact .of_same rfl rfl
  | suppress ok =>
    obtain ⟨_, rfl, -⟩ := suppressHistory_of_ok ok
    exact .of_same rfl rfl
  | observe => exact .of_same rfl rfl
  | schedule => exact (addWork db _ _ _ _ _).trans (.of_same rfl rfl)
  | add => exact addWork db _ _ _ _ _
  | change changes =>
    exact updateWork fun item member selected =>
      .of_change unclaimed (changes item member selected)
  | frame => exact .of_same rfl rfl

theorem of_writes (unclaimed : t.given = none) (writes : Writes t db db') : Unclaimed db db' := by
  induction writes with
  | refl => exact .refl db
  | tail _ write ih => exact ih.trans (of_write unclaimed write)

end Unclaimed

/-! ## Limits -/

/-- How many leases run for items of a sort. -/
def held (now : Int) (sort : WorkItem → Bool) (items : List WorkItem) : Nat :=
  (items.filter fun item => sort item && item.leased now).length

theorem leased_later {item : WorkItem} {now later : Int} (forward : now ≤ later)
    (leased : item.leased later) : item.leased now := by
  simp only [WorkItem.leased, WorkItem.unexpired, Bool.and_eq_true, decide_eq_true_eq,
    Option.any_eq_true] at leased ⊢
  obtain ⟨running, until_, present, after⟩ := leased
  exact ⟨running, until_, present, by omega⟩

theorem held_le {items items' : List WorkItem} {now later : Int} {sort : WorkItem → Bool}
    (distinct : Distinct WorkItem.id items')
    (subset : ∀ item ∈ items', sort item → item.leased later → item ∈ items ∧ item.leased now) :
    held later sort items' ≤ held now sort items := by
  have nodup : (items'.filter fun item => sort item && item.leased later).Nodup :=
    (List.Nodup.of_map _ distinct).filter _
  refine (subperm_of_subset nodup fun item member => ?_).length_le
  obtain ⟨here, kept⟩ := mem_filter.mp member
  rw [Bool.and_eq_true] at kept
  obtain ⟨old, leased⟩ := subset item here kept.1 kept.2
  exact mem_filter.mpr ⟨old, by rw [Bool.and_eq_true]; exact ⟨kept.1, leased⟩⟩

theorem held_le_succ {items items' : List WorkItem} {now : Int} {sort : WorkItem → Bool}
    {given : WorkItem} (distinct : Distinct WorkItem.id items')
    (subset : ∀ item ∈ items', item.leased now → item = given ∨ item ∈ items) :
    held now sort items' ≤ held now sort items + (if sort given then 1 else 0) := by
  by_cases counted : sort given
  · have nodup : (items'.filter fun item => sort item && item.leased now).Nodup :=
      (List.Nodup.of_map _ distinct).filter _
    have inside : (items'.filter fun item => sort item && item.leased now) ⊆
        given :: items.filter fun item => sort item && item.leased now := by
      intro item member
      obtain ⟨here, kept⟩ := mem_filter.mp member
      rw [Bool.and_eq_true] at kept
      obtain rfl | old := subset item here kept.2
      · exact mem_cons_self
      · refine mem_cons_of_mem _ (mem_filter.mpr ⟨old, ?_⟩)
        rw [Bool.and_eq_true]
        exact kept
    rw [if_pos counted]
    exact (subperm_of_subset nodup inside).length_le
  · rw [if_neg counted]
    refine held_le distinct fun item member sorted leased => ?_
    obtain rfl | old := subset item member leased
    · exact absurd sorted counted
    · exact ⟨old, leased⟩

/-- The items of a Project and kind. -/
def ofSort (projectId : String) (kind : WorkKind) (item : WorkItem) : Bool :=
  item.projectId = projectId && item.kind = kind

structure Limits (config : AgentConfig) (now : Int) (items : List WorkItem) : Prop where
  total : held now (fun _ => true) items ≤ config.maxConcurrentLoops
  extraction : ∀ projectId,
    held now (ofSort projectId .extract) items ≤ config.maxExtractionLoopsPerProject
  consolidation : ∀ projectId, held now (ofSort projectId .consolidate) items ≤ 1

section Limited

variable {config : AgentConfig} {now later : Int}

theorem Limits.mono {items items' : List WorkItem} (limits : Limits config now items)
    (distinct : Distinct WorkItem.id items')
    (subset : ∀ item ∈ items', item.leased later → item ∈ items ∧ item.leased now) :
    Limits config later items' where
  total := Nat.le_trans (held_le distinct fun item member _ => subset item member) limits.total
  extraction projectId := Nat.le_trans
    (held_le distinct fun item member _ => subset item member) (limits.extraction projectId)
  consolidation projectId := Nat.le_trans
    (held_le distinct fun item member _ => subset item member) (limits.consolidation projectId)

/-- While nothing is claimed, the leases that run are ones that ran before. -/
theorem Unclaimed.leased {db db' : Database} (unclaimed : Unclaimed db db') (forward : now ≤ later) :
    ∀ item ∈ db'.workItems, item.leased later → item ∈ db.workItems ∧ item.leased now := by
  intro item member leased
  have running : item.state = .running := by
    simp only [WorkItem.leased, Bool.and_eq_true, decide_eq_true_eq] at leased
    exact leased.1
  obtain ⟨old, here, kept⟩ | added := unclaimed.origin item member
  · rw [kept.running running] at leased ⊢
    exact ⟨here, leased_later forward leased⟩
  · exact absurd running added.idle

/-! ## Claims -/

variable {db : Database} {id : Option Nat} {item : WorkItem}

theorem mem_grant {lease : WorkLease} (distinct : Distinct WorkItem.id db.workItems)
    (member : item ∈ db.workItems) (same : lease.id = item.id) {other : WorkItem} :
    other ∈ (db.grant lease config).workItems ↔
      other = item.granted lease config ∨ (other ∈ db.workItems ∧ other.id ≠ item.id) := by
  have items : (db.grant lease config).workItems =
      db.workItems.map fun item => if item.id = lease.id then item.granted lease config else item := by
    simp only [Database.grant, Database.updateWork, decide_eq_true_eq]
  rw [items, List.mem_map, same]
  constructor
  · rintro ⟨old, here, rfl⟩
    split
    · rename_i chosen
      rw [distinct.eq_of_key here member chosen]
      exact .inl rfl
    · rename_i unchosen
      exact .inr ⟨here, unchosen⟩
  · rintro (rfl | ⟨here, unchosen⟩)
    · exact ⟨item, member, if_pos rfl⟩
    · exact ⟨other, here, if_neg unchosen⟩

theorem distinct_grant {lease : WorkLease} (distinct : Distinct WorkItem.id db.workItems) :
    Distinct WorkItem.id (db.grant lease config).workItems := by
  refine distinct.map fun item _ => ?_
  split <;> rfl

theorem Limits.grant (owner : String) (limits : Limits config now db.workItems)
    (distinct : Distinct WorkItem.id db.workItems) (member : item ∈ db.workItems)
    (claimable : db.claimable config now id item)
    (room : db.running now < config.maxConcurrentLoops) :
    Limits config now (db.grant (Database.leaseOf item owner config now) config).workItems := by
  generalize given : Database.leaseOf item owner config now = lease
  have same : lease.id = item.id := by rw [← given]; rfl
  have one : ∀ sort, held now sort (db.grant lease config).workItems ≤
      held now sort db.workItems + if sort (item.granted lease config) then 1 else 0 := by
    intro sort
    refine held_le_succ (distinct_grant distinct) fun other here _ => ?_
    obtain granted | ⟨old, -⟩ := (mem_grant distinct member same).mp here
    · exact .inl granted
    · exact .inr old
  -- the limit of the granted item's own Project and kind was checked before the grant
  simp only [Database.claimable, Bool.and_eq_true, decide_eq_true_eq] at claimable
  have checked := claimable.1.2
  have within : ∀ projectId kind limit,
      (item.kind = kind → held now (ofSort item.projectId item.kind) db.workItems < limit) →
      held now (ofSort projectId kind) db.workItems ≤ limit →
      held now (ofSort projectId kind) (db.grant lease config).workItems ≤ limit := by
    intro projectId kind limit bound before
    have after := one (ofSort projectId kind)
    by_cases counted : ofSort projectId kind (item.granted lease config)
    · rw [if_pos counted] at after
      have sort : item.projectId = projectId ∧ item.kind = kind := by
        obtain ⟨project, kind⟩ := (Bool.and_eq_true _ _).mp counted
        exact ⟨of_decide_eq_true project, of_decide_eq_true kind⟩
      have room := bound sort.2
      rw [sort.1, sort.2] at room
      omega
    · rw [if_neg counted] at after
      omega
  refine ⟨?_, fun projectId => within _ _ _ (fun extract => ?_) (limits.extraction projectId),
    fun projectId => within _ _ _ (fun consolidate => ?_) (limits.consolidation projectId)⟩
  rotate_left
  · rw [extract] at checked ⊢
    exact checked
  · rw [consolidate] at checked ⊢
    exact checked
  have after := one fun _ => true
  have all : held now (fun _ => true) db.workItems = db.running now := by
    simp [held, Database.running]
  rw [if_pos rfl, all] at after
  omega

end Limited

/-! ## States -/

/-- The item that a lease was given for. -/
structure Grants (lease : WorkLease) (item : WorkItem) : Prop where
  id : item.id = lease.id
  project : item.projectId = lease.projectId
  receipt : item.receiptId = lease.receiptId
  kind : item.kind = lease.kind
  payload : item.payload = lease.payload
  generation : lease.generation ≤ item.generation
  held : item.state = .running → item.generation = lease.generation →
    item.owner = some lease.owner ∧ item.leaseUntil = some lease.leaseUntil

theorem Grants.later {lease : WorkLease} {item item' : WorkItem} (grants : Grants lease item)
    (later : Later item item') : Grants lease item' where
  id := by rw [later.id, grants.id]
  project := by rw [later.project, grants.project]
  receipt := by rw [later.receipt, grants.receipt]
  kind := by rw [later.kind, grants.kind]
  payload := by rw [later.payload, grants.payload]
  generation := Nat.le_trans grants.generation later.generation
  held running same := by
    have equal := later.running running
    rw [equal] at running same ⊢
    exact grants.held running same

structure Leasing (config : AgentConfig) (s : State) : Prop where
  limits : Limits config s.clock s.db.workItems
  attempts : ∀ item ∈ s.db.workItems, item.attempts ≤ config.maxAttempts ∧
    (item.maxAttempts = none → item.attempts = 0) ∧
    ∀ most, item.maxAttempts = some most → most = config.maxAttempts
  granted : ∀ lease ∈ s.leases, ∃ item ∈ s.db.workItems, Grants lease item
  finished : ∀ c ∈ s.completions, ∃ item ∈ s.db.workItems,
    item.id = c.lease.id ∧ item.state = .done
  once : (s.completions.map fun c => c.lease.id).Nodup

section Steps

variable {config : AgentConfig} {now : Int} {s : State} {db : Database}

theorem Leasing.empty (opened : Int) : Leasing config (.empty opened) := by
  constructor
  · constructor <;> simp [held, State.empty]
  all_goals simp [State.empty]

theorem Leasing.wait (leasing : Leasing config s) (distinct : Distinct WorkItem.id s.db.workItems)
    (forward : s.clock ≤ now) : Leasing config { s with clock := now } :=
  { leasing with
    limits := leasing.limits.mono distinct fun _ member leased =>
      ⟨member, leased_later forward leased⟩ }

theorem Leasing.unclaimed (leasing : Leasing config s) (forward : s.clock ≤ now)
    (sound : Distinct WorkItem.id s.db.workItems) (unclaimed : Unclaimed s.db db)
    (distinct : Distinct WorkItem.id db.workItems) (completion : Option Completion)
    (completed : ∀ c, completion = some c → (∃ item, Fenced s.db c.lease now item) ∧
      ∃ item ∈ db.workItems, item.id = c.lease.id ∧ item.state = .done)
    (halfApplied : List (String × String)) :
    Leasing config
      { s with
        db, clock := now, completions := s.completions ++ completion.toList, halfApplied } where
  limits := leasing.limits.mono distinct (unclaimed.leased forward)
  attempts item member := by
    obtain ⟨old, here, later⟩ | added := unclaimed.origin item member
    · obtain ⟨attempts, most⟩ | ⟨attempts, most⟩ := later.attempts
      · rw [attempts, most]
        exact leasing.attempts old here
      · rw [attempts, most]
        exact ⟨Nat.zero_le _, fun _ => rfl, fun _ none => by cases none⟩
    · rw [added.attempts, added.maxAttempts]
      exact ⟨Nat.zero_le _, fun _ => rfl, fun _ none => by cases none⟩
  granted lease given := by
    obtain ⟨item, here, grants⟩ := leasing.granted lease given
    obtain ⟨item', there, later⟩ := unclaimed.kept item here
    exact ⟨item', there, grants.later later⟩
  finished c member := by
    obtain old | new := mem_append.mp member
    · obtain ⟨item, here, id, done⟩ := leasing.finished c old
      obtain ⟨item', there, later⟩ := unclaimed.kept item here
      have same := later.settled (.inl done)
      exact ⟨item', there, by rw [same, id], by rw [same, done]⟩
    · exact (completed c (mem_toList.mp new)).2
  once := by
    cases completion with
    | none => simpa using leasing.once
    | some c =>
      simp only [toList_some, map_append, map_cons, map_nil]
      refine nodup_append.mpr ⟨leasing.once, nodup_singleton _, ?_⟩
      intro id before id' last same
      rw [mem_singleton.mp last] at same
      obtain ⟨c', member, named⟩ := mem_map.mp before
      -- the item of an earlier completion is done, so it has no running lease
      obtain ⟨⟨item, fenced⟩, -⟩ := completed c rfl
      obtain ⟨old, here, is, done⟩ := leasing.finished c' member
      have equal := sound.eq_of_key here fenced.member (by rw [is, named, same, fenced.id])
      rw [equal, fenced.running] at done
      cases done

theorem Leasing.grant (leasing : Leasing config s) (distinct : Distinct WorkItem.id s.db.workItems)
    {item : WorkItem} {owner : String} {id : Option Nat} (member : item ∈ s.db.workItems)
    (claimable : s.db.claimable config s.clock id item)
    (room : s.db.running s.clock < config.maxConcurrentLoops) :
    Leasing config { s with
      db := s.db.grant (Database.leaseOf item owner config s.clock) config
      leases := s.leases ++ [Database.leaseOf item owner config s.clock] } := by
  -- The leased item counts one attempt more; no other item changes.
  have items : ∀ other, other ∈ (s.db.grant (Database.leaseOf item owner config s.clock)
      config).workItems ↔ other = item.granted (Database.leaseOf item owner config s.clock) config ∨
        (other ∈ s.db.workItems ∧ other.id ≠ item.id) :=
    fun other => mem_grant distinct member rfl
  have limits := leasing.limits.grant owner distinct member claimable room
  simp only [Database.claimable, Bool.and_eq_true, Bool.or_eq_true, decide_eq_true_eq,
    Bool.not_eq_true'] at claimable
  obtain ⟨⟨⟨ready, left⟩, -⟩, -⟩ := claimable
  refine ⟨limits, fun other here => ?_, fun lease given => ?_, fun c completed => ?_, leasing.once⟩
  · obtain rfl | ⟨old, -⟩ := (items other).mp here
    · -- the attempt that is counted now was left
      obtain ⟨bound, unset, set⟩ := leasing.attempts item member
      have positive := config.retries.1
      cases most : item.maxAttempts with
      | none =>
        have zero := unset most
        refine ⟨?_, (fun none => by cases none), fun most' same => ?_⟩
        · show item.attempts + 1 ≤ config.maxAttempts
          omega
        · simp only [WorkItem.granted, most, getD_none, some.injEq] at same
          exact same.symm
      | some limit =>
        have within := set limit most
        simp only [WorkItem.exhausted, most, any_some, decide_eq_false_iff_not] at left
        refine ⟨?_, (fun none => by cases none), fun most' same => ?_⟩
        · show item.attempts + 1 ≤ config.maxAttempts
          omega
        · simp only [WorkItem.granted, most, getD_some, some.injEq] at same
          rw [← same, within]
    · exact leasing.attempts other old
  · obtain old | new := mem_append.mp given
    · obtain ⟨other, there, grants⟩ := leasing.granted lease old
      by_cases same : other.id = item.id
      · -- the new generation is greater than that of any lease before
        have equal := distinct.eq_of_key there member same
        subst equal
        refine ⟨_, (items _).mpr (.inl rfl), grants.id, grants.project, grants.receipt, grants.kind,
          grants.payload, Nat.le_succ_of_le grants.generation, fun _ generation => ?_⟩
        have bound := grants.generation
        change other.generation + 1 = lease.generation at generation
        omega
      · exact ⟨other, (items other).mpr (.inr ⟨there, same⟩), grants⟩
    · rw [mem_singleton.mp new]
      exact ⟨_, (items _).mpr (.inl rfl), rfl, rfl, rfl, rfl, rfl, Nat.le_refl _,
        fun _ _ => ⟨rfl, rfl⟩⟩
  · obtain ⟨other, there, named, done⟩ := leasing.finished c completed
    refine ⟨other, (items other).mpr (.inr ⟨there, fun same => ?_⟩), named, done⟩
    rw [distinct.eq_of_key there member same] at done
    obtain ⟨pending, -⟩ | ⟨running, -⟩ := ready
    · simp [pending] at done
    · simp [running] at done

end Steps

/-! ## Runs -/

/-- The clock does not go back. -/
def Forward (s : State) (label : Int × Operation) : Prop :=
  s.clock ≤ label.1

section Runs

variable [Environment] {config : AgentConfig} {opened now : Int} {s : State} {operation : Operation}

omit [Environment] in
theorem intake_work (db : Database) (operation : Operation) :
    (operation.intake db).workItems = db.workItems ∧
      (operation.intake db).workSequence = db.workSequence := by
  obtain ⟨_, _, _, _, taken⟩ := operation.intake_eq db
  rw [taken]
  exact ⟨rfl, rfl⟩

theorem unclaimed_of_perform {answer : Answer} (sound : Sound s.db)
    (ok : operation.perform config now s.db = .ok answer) (none : answer.lease = none) :
    Unclaimed s.db answer.db := by
  have commits := perform_commits sound.consistent sound.settled sound.sourced ok
  obtain ⟨items, sequence⟩ := intake_work s.db operation
  exact (Unclaimed.of_same items sequence).trans (.of_writes none commits.writes)

omit [Environment] in
/-- A claim first ends the leases that expired and have no attempt left. -/
theorem unclaimed_failExpired (db : Database) (now : Int) (id : Option Nat) :
    Unclaimed db (db.failExpired now id) ∧
      (Distinct WorkItem.id db.workItems →
        Distinct WorkItem.id (db.failExpired now id).workItems) := by
  constructor
  · refine .updateWork fun item _ selected => ?_
    simp only [Bool.and_eq_true, decide_eq_true_eq] at selected
    exact .ended ⟨rfl, rfl, rfl, rfl, rfl⟩ (Nat.le_refl _) (by simp [WorkItem.expiredOut])
      (by simp [selected.1.1.1]) (.inl ⟨rfl, rfl⟩)
  · intro distinct
    refine distinct.map fun item _ => ?_
    split <;> rfl

theorem completed_of_perform {answer : Answer} (sound : Sound s.db)
    (ok : operation.perform config now s.db = .ok answer) {c : Completion}
    (completion : answer.completion = some c) :
    (∃ item, Fenced s.db c.lease now item) ∧
      ∃ item ∈ answer.db.workItems, item.id = c.lease.id ∧ item.state = .done := by
  obtain ⟨-, completes⟩ := perform_completes sound.consistent sound.settled ok completion
  obtain ⟨item, fenced⟩ := completes.fenced
  refine ⟨⟨item, { fenced with member := ?_ }⟩, completes.finished⟩
  rw [← (intake_work s.db operation).1]
  exact fenced.member

theorem Leasing.after (leasing : Leasing config s) (sound : Sound s.db) (forward : s.clock ≤ now) :
    Leasing config (s.after config now operation) := by
  have distinct := sound.consistent.items
  obtain failed | ⟨answer, ok, done⟩ := after_cases config s now operation
  · rw [failed]
    exact leasing.wait distinct forward
  · rw [done]
    have items := (sound.perform ok).consistent.items
    cases given : answer.lease with
    | none =>
      have after := leasing.unclaimed forward distinct (unclaimed_of_perform sound ok given) items
        answer.completion (fun c => completed_of_perform sound ok)
        (operation.halfApplied s.halfApplied)
      simpa using after
    | some lease =>
      obtain ⟨completion, owner, id, rfl, claimed⟩ := perform_claims given ok
      rw [completion]
      obtain ⟨expires, keeps⟩ := unclaimed_failExpired s.db now id
      have expired := leasing.unclaimed forward distinct expires (keeps distinct) none
        (fun c absent => by cases absent) s.halfApplied
      simp only [toList_none, append_nil] at expired ⊢
      generalize answer.db = db' at claimed
      cases claimed with
      | lease member claimable room =>
        exact expired.grant (keeps distinct) member claimable room

theorem leasing_of_reachable (run : (store config opened).Reachable Forward s) :
    Leasing config s := by
  induction run with
  | start => exact .empty opened
  | step before forward next ih =>
    cases next
    exact ih.after (sound_of_reachable before) forward

end Runs

end Agentix.MemoryStore
