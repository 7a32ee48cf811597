import Agentix.Lib.Rows
import Agentix.Outbox.Fencing

/-! # The notification outbox

Notifications are delivered in order and until they are acknowledged, and the notices of rejections
count every rejection.
-/

namespace Agentix.Outbox

open Lib List Option
open Bindings (ChannelKind ConversationRef)
open Function (update)

namespace State

variable {V : Type}

variable {until_ : Int} {sequences : List Int}

/-- A row stays, with its payload unless a rejection of its consumer is added to it, or it is
acknowledged with its latest delivery. -/
def Keeps (s s' : State V) (step : Step V) : Prop :=
  ∀ row ∈ s.rows,
    (∃ row' ∈ s'.rows, row'.key = row.key ∧ row'.line = row.line ∧ (row'.payload = row.payload ∨
      ∃ conversation eventId limit, step = .reject row.consumer conversation eventId limit)) ∨
    ∃ number now delivery, step = .finish number now none ∧
      s.deliveries[number]? = some delivery ∧ s.latest row.key = some delivery

/-- What workers can do, between any two transactions. -/
structure Fenced (s : State V) : Prop where
  /-- A worker whose row was leased again changes nothing. -/
  stale : ∀ delivery ∈ s.deliveries, s.latest delivery.key ≠ some delivery → ∀ now error,
    s.finishNotification delivery now error = (s, false)
  /-- The rows of a line are acknowledged in the order of their sequences. -/
  ordered : ∀ line, ((s.acknowledged.filter fun row => row.line = line).map Row.sequence).Pairwise
    (· < ·)
  /-- A sequence up to the cursor is staged without effect; so is one of a row that was there. -/
  replayed : ∀ consumer cursor sequence notification, s.cursors consumer = some cursor →
    sequence ≤ cursor → s.stageNotification consumer sequence notification = .ok s
  covered : ∀ row, row ∈ s.rows ∨ row ∈ s.acknowledged →
    ∃ cursor, s.cursors row.consumer = some cursor ∧ row.sequence ≤ cursor

/-- What a row adds to the notices of the consumers that rejections go to. -/
def weight (admission : String → Bool) (row : Row V) : Nat :=
  if admission row.consumer then row.coalescedCount else 0

/-- The counts of all notices that were created. -/
def noticed (admission : String → Bool) (s : State V) : Nat :=
  ((s.rows ++ s.acknowledged).map (weight admission)).sum

def Separate (admission : String → Bool) (_ : State V) : Step V → Prop
  | .stage consumer _ _ => admission consumer = false
  | .reject consumer _ _ _ => admission consumer = true
  | _ => True

variable {s s' : State V} {row : Row V} {delivery : Delivery V} {consumer : String} {sequence : Int}
  {conversation : ConversationRef} {text : String → String → V} {step : Step V}
  {admission : String → Bool}

/-! ## Rows -/

theorem keeps_lease (mem : row ∈ s.rows) :
    ∃ row' ∈ (s.lease consumer until_ sequence).rows, row'.key = row.key ∧ row'.line = row.line ∧
      row'.payload = row.payload := by
  by_cases leased : row.key = (consumer, sequence)
  · exact ⟨_, mem_alter.mpr ⟨row, mem, .inl ⟨leased, rfl⟩⟩, rfl, rfl, rfl⟩
  · exact ⟨row, mem_alter.mpr ⟨row, mem, .inr ⟨leased, rfl⟩⟩, rfl, rfl, rfl⟩

theorem keeps_leases (mem : row ∈ s.rows) :
    ∃ row' ∈ (sequences.foldl (fun s sequence => s.lease consumer until_ sequence) s).rows,
      row'.key = row.key ∧ row'.line = row.line ∧ row'.payload = row.payload := by
  induction sequences generalizing s row with
  | nil => exact ⟨row, mem, rfl, rfl, rfl⟩
  | cons sequence sequences ih =>
    obtain ⟨row', there, key, line, payload⟩ := keeps_lease mem
    obtain ⟨last, there, key', line', payload'⟩ := ih there
    exact ⟨last, there, key'.trans key, line'.trans line, payload'.trans payload⟩

theorem keeps_step (sound : s.Sound) (next : s.step text step = some s') : s.Keeps s' step := by
  intro row mem
  cases step with
  | cursor consumer legacy =>
    cases next
    refine .inl ⟨row, ?_, rfl, rfl, .inl rfl⟩
    simp only [State.cursor]
    split <;> exact mem
  | stage consumer sequence notification =>
    refine .inl ⟨row, ?_, rfl, rfl, .inl rfl⟩
    simp only [State.step, stageNotification] at next
    split at next
    · cases next
    · split at next
      · split at next
        · cases next
          exact mem_append_left _ mem
        · cases next
          exact mem
      · cases next
        exact mem
  | reject consumer conversation eventId limit =>
    cases next
    simp only [rejectOverloaded]
    split
    · show (∃ row' ∈ (s.notice text consumer conversation limit).rows, _) ∨ _
      simp only [notice]
      split
      · rename_i newest found
        by_cases same : row.key = (consumer, newest.sequence)
        · have same_consumer : row.consumer = consumer := congrArg Prod.fst same
          refine .inl ⟨_, mem_alter.mpr ⟨row, mem, .inl ⟨same, rfl⟩⟩, rfl, rfl, .inr ?_⟩
          exact ⟨conversation, eventId, limit, by rw [same_consumer]⟩
        · exact .inl ⟨row, mem_alter.mpr ⟨row, mem, .inr ⟨same, rfl⟩⟩, rfl, rfl, .inl rfl⟩
      · exact .inl ⟨row, mem_append_left _ mem, rfl, rfl, .inl rfl⟩
    · exact .inl ⟨row, mem, rfl, rfl, .inl rfl⟩
  | claim consumer now leaseSeconds limit =>
    simp only [State.step, claimNotifications] at next
    split at next
    · cases next
    · cases next
      obtain ⟨row', there, key, line, payload⟩ := keeps_leases mem
      exact .inl ⟨row', there, key, line, .inl payload⟩
  | finish number now error =>
    obtain ⟨delivery, found, rfl⟩ := map_eq_some_iff.mp next
    cases error with
    | some error =>
      refine .inl ⟨_, mem_map_of_mem mem, ?_⟩
      split <;> exact ⟨rfl, rfl, .inl rfl⟩
    | none =>
      by_cases held : delivery.holds row = true
      · obtain ⟨key, token⟩ := holds_iff.mp held
        obtain ⟨last, latest, same⟩ := sound.latest row mem _ token
        have handed := mem_of_getElem? found
        have handed' := (mem_filter.mp (mem_of_getLast? latest)).1
        obtain rfl := inj_on_of_nodup_map sound.once handed' handed same
        exact .inr ⟨number, now, last, rfl, found, latest⟩
      · exact .inl ⟨row, mem_filter.mpr ⟨mem, by simpa using held⟩, rfl, rfl, .inl rfl⟩
  | process channel eventId status =>
    cases next
    exact .inl ⟨row, mem, rfl, rfl, .inl rfl⟩

/-! ## Workers -/

theorem stale_finish (sound : s.Sound) (handed : delivery ∈ s.deliveries)
    (stale : s.latest delivery.key ≠ some delivery) (now : Int) (error : Option String) :
    s.finishNotification delivery now error = (s, false) := by
  have free : ∀ row ∈ s.rows, delivery.holds row = false := by
    intro row mem
    rw [Bool.eq_false_iff]
    intro held
    obtain ⟨key, token⟩ := holds_iff.mp held
    obtain ⟨last, latest, same⟩ := sound.latest row mem _ token
    have handed' := (mem_filter.mp (mem_of_getLast? latest)).1
    obtain rfl := inj_on_of_nodup_map sound.once handed' handed same
    exact stale (key ▸ latest)
  have none : s.rows.filter delivery.holds = [] := by
    rw [filter_eq_nil_iff]
    intro row mem held
    rw [free row mem] at held
    cases held
  cases error with
  | some error =>
    have same : s.rows.map (fun row => if delivery.holds row then
        { row with
          nextAttempt := saturatingAdd now (backoff delivery.attempts)
          leaseUntil := 0
          token := Option.none
          lastError := some (String.ofList (error.toList.take 1024)) } else row) = s.rows := by
      refine (map_congr_left fun row mem => ?_).trans (map_id _)
      rw [free row mem]
      rfl
    simp only [finishNotification, none, same]
    rfl
  | none =>
    have same : s.rows.filter (fun row => !delivery.holds row) = s.rows := by
      rw [filter_eq_self]
      intro row mem
      rw [free row mem]
      rfl
    simp only [finishNotification, none, same, append_nil]
    rfl

theorem Sound.fenced (sound : s.Sound) : s.Fenced where
  stale := fun _ handed stale => stale_finish sound handed stale
  ordered := by
    intro line
    rw [pairwise_map, pairwise_filter]
    refine sound.order.imp fun lower here there => ?_
    rw [decide_eq_true_iff] at here there
    exact lower (here.trans there.symm)
  replayed := by
    intro consumer cursor sequence notification found bound
    simp only [stageNotification, found]
    rw [if_neg (by omega)]
  covered := sound.bounded

/-! ## Notices -/

theorem noticed_eq : s.noticed admission =
    (s.rows.map (weight admission)).sum + (s.acknowledged.map (weight admission)).sum := by
  rw [noticed, map_append, sum_append]

theorem noticed_edits {f : Row V → Row V}
    (same : ∀ row, weight admission (f row) = weight admission row) :
    ((s.rows.map f).map (weight admission)).sum = (s.rows.map (weight admission)).sum := by
  rw [List.map_map]
  congr 1
  exact map_congr_left fun row _ => same row

theorem noticed_notice (sound : s.Sound) (text : String → String → V)
    (conversation : ConversationRef) (limit : Nat) (admitted : admission consumer = true) :
    (s.notice text consumer conversation limit).noticed admission = s.noticed admission + 1 := by
  rw [noticed_eq, noticed_eq]
  simp only [notice]
  split
  · rename_i newest found
    obtain ⟨mem, line, _⟩ := coalescing_mem found
    have its : newest.consumer = consumer := congrArg Prod.fst line
    have counted := sound.keys.sum_alter mem (fun row =>
      { row with
        payload := text "Session busy" (busy (newest.coalescedCount + 1) limit)
        coalescedCount := newest.coalescedCount + 1 }) (weight admission)
    simp only [weight, its, admitted, if_true] at counted
    rw [Row.key, its] at counted
    dsimp only
    omega
  · simp only [map_append, map_singleton, sum_append, sum_singleton, weight,
      Row.fresh, admitted, if_true]
    omega

theorem noticed_lease :
    (s.lease consumer until_ sequence).noticed admission = s.noticed admission := by
  rw [noticed_eq, noticed_eq]
  congr 1
  refine noticed_edits fun row => ?_
  split <;> rfl

theorem noticed_leases :
    (sequences.foldl (fun s sequence => s.lease consumer until_ sequence) s).noticed admission =
      s.noticed admission := by
  induction sequences generalizing s with
  | nil => rfl
  | cons sequence sequences ih =>
    rw [foldl_cons, ih, noticed_lease]

theorem leases_rejections :
    (sequences.foldl (fun s sequence => s.lease consumer until_ sequence) s).rejections =
      s.rejections := by
  induction sequences generalizing s with
  | nil => rfl
  | cons sequence sequences ih =>
    rw [foldl_cons, ih]
    rfl

theorem noticed_finish {now : Int} {error : Option String} :
    (s.finishNotification delivery now error).1.noticed admission = s.noticed admission := by
  rw [noticed_eq, noticed_eq]
  cases error with
  | some error =>
    congr 1
    refine noticed_edits fun row => ?_
    split <;> rfl
  | none =>
    have parts := ((filter_append_perm delivery.holds s.rows).map (weight admission)).sum_nat
    rw [map_append, sum_append] at parts
    simp only [finishNotification, map_append, sum_append]
    omega

theorem noticed_step (sound : s.Sound) (counted : s.noticed admission = s.rejections)
    (separate : s.Separate admission step) (next : s.step text step = some s') :
    s'.noticed admission = s'.rejections := by
  cases step with
  | cursor consumer legacy =>
    cases next
    simp only [State.cursor]
    split <;> exact counted
  | stage consumer sequence notification =>
    have outside : admission consumer = false := separate
    simp only [State.step, stageNotification] at next
    split at next
    · cases next
    · split at next
      · split at next
        · cases next
          rw [noticed_eq] at counted ⊢
          simp only [map_append, map_singleton, sum_append, sum_singleton,
            weight, Row.fresh, outside] at counted ⊢
          simpa using counted
        · cases next
          exact counted
      · cases next
        exact counted
  | reject consumer conversation eventId limit =>
    cases next
    simp only [rejectOverloaded]
    split
    · have noticed := noticed_notice sound text conversation limit separate
      rw [counted] at noticed
      exact noticed
    · exact counted
  | claim consumer now leaseSeconds limit =>
    simp only [State.step, claimNotifications] at next
    split at next
    · cases next
    · cases next
      rw [noticed_leases, leases_rejections]
      exact counted
  | finish number now error =>
    obtain ⟨delivery, found, rfl⟩ := map_eq_some_iff.mp next
    rw [noticed_finish, counted]
    cases error <;> rfl
  | process channel eventId status =>
    cases next
    exact counted

theorem noticed_of_reachable (reachable : (system text).Reachable (Separate admission) s) :
    s.noticed admission = s.rejections :=
  reachable.invariant (fun s => s.noticed admission = s.rejections) rfl
    fun before separate counted next => noticed_step (sound_of_reachable before) counted separate next

/-- The first line of a view. -/
def title (title _ : String) : String := title

def busyChat : ConversationRef := ⟨.slack, "chat"⟩

/-- Two requests are rejected, and a worker claims their notice. -/
def rejects : List (Step String) :=
  [.reject "admission:default" busyChat "first" 16, .reject "admission:default" busyChat "second" 16,
    .claim "admission:default" 0 60 1]

theorem reachable_rejects {s : State String} (ran : rejects.foldlM (State.step title) start = some s) :
    (system title).Reachable (Separate fun consumer => consumer = "admission:default") s := by
  simp only [rejects, foldlM_cons, foldlM_nil, bind_eq_bind,
    bind_eq_some_iff] at ran
  obtain ⟨once, first, twice, second, claimed, third, same⟩ := ran
  cases same
  refine .step (.step (.step .start ?_ first) ?_ second) ?_ third
  · exact decide_eq_true rfl
  · exact decide_eq_true rfl
  · trivial

end State

end Agentix.Outbox
