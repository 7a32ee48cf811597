import Agentix.Outbox.Notifications

/-! # Leases of notifications

Sequences only grow, a leased row is the oldest one of its line, and its token is the one of its
latest delivery.
-/

namespace Agentix.Outbox

open Lib List Option Function
open Bindings (ChannelKind ConversationRef)

namespace State

variable {V : Type} {s s' : State V} {row other : Row V} {delivery : Delivery V}
  {consumer : String} {sequence : Int} {conversation : ConversationRef}

def latest (s : State V) (key : String × Int) : Option (Delivery V) :=
  (s.deliveries.filter fun delivery => delivery.key = key).getLast?

structure Sound (s : State V) : Prop where
  keys : Distinct Row.key s.rows
  bounded : ∀ row, row ∈ s.rows ∨ row ∈ s.acknowledged →
    ∃ cursor, s.cursors row.consumer = some cursor ∧ row.sequence ≤ cursor
  drawn : ∀ delivery ∈ s.deliveries, delivery.token < s.tokens
  once : (s.deliveries.map Delivery.token).Nodup
  latest : ∀ row ∈ s.rows, ∀ token, row.token = some token →
    ∃ delivery, s.latest row.key = some delivery ∧ delivery.token = token
  oldest : ∀ row ∈ s.rows, ∀ token, row.token = some token → ∀ other ∈ s.rows,
    other.line = row.line → row.sequence ≤ other.sequence
  before : ∀ done ∈ s.acknowledged, ∀ row ∈ s.rows, row.line = done.line →
    done.sequence < row.sequence
  order : s.acknowledged.Pairwise fun a b => a.line = b.line → a.sequence < b.sequence

theorem sound_start : (start : State V).Sound where
  keys := .nil
  bounded := by simp [start]
  drawn _ mem := by cases mem
  once := .nil
  latest _ mem := by cases mem
  oldest _ mem := by cases mem
  before _ mem := by cases mem
  order := .nil

theorem Sound.edits {f : Row V → Row V} (sound : s.Sound)
    (keys : ∀ row ∈ s.rows, (f row).key = row.key) (lines : ∀ row ∈ s.rows, (f row).line = row.line)
    (tokens : ∀ row ∈ s.rows, ∀ token, (f row).token = some token → row.token = some token) :
    Sound { s with rows := s.rows.map f } := by
  have sequences : ∀ row ∈ s.rows, (f row).sequence = row.sequence := by
    intro row mem
    have same := keys row mem
    injection same
  constructor
  · exact sound.keys.map keys
  · rintro row (mem | done)
    · obtain ⟨old, known, rfl⟩ := mem_map.mp mem
      obtain ⟨cursor, found, bound⟩ := sound.bounded old (.inl known)
      have same := keys old known
      injection same with same_consumer
      rw [sequences old known, same_consumer]
      exact ⟨cursor, found, bound⟩
    · exact sound.bounded row (.inr done)
  · exact sound.drawn
  · exact sound.once
  · intro row mem token held
    obtain ⟨old, known, rfl⟩ := mem_map.mp mem
    rw [keys old known]
    exact sound.latest old known token (tokens old known token held)
  · intro row mem token held other there same
    obtain ⟨old, known, rfl⟩ := mem_map.mp mem
    obtain ⟨third, listed, rfl⟩ := mem_map.mp there
    rw [lines old known, lines third listed] at same
    rw [sequences old known, sequences third listed]
    exact sound.oldest old known token (tokens old known token held) third listed same
  · intro done acknowledged row mem same
    obtain ⟨old, known, rfl⟩ := mem_map.mp mem
    rw [lines old known] at same
    rw [sequences old known]
    exact sound.before done acknowledged old known same
  · exact sound.order

theorem Sound.advances (sound : s.Sound) (consumer : String) (sequence : Int)
    (ahead : ∀ cursor, s.cursors consumer = some cursor → cursor ≤ sequence) :
    Sound { s with cursors := update s.cursors consumer (some sequence) } := by
  refine { sound with bounded := fun row mem => ?_ }
  obtain ⟨cursor, found, bound⟩ := sound.bounded row mem
  by_cases same : row.consumer = consumer
  · subst same
    have far := ahead cursor found
    exact ⟨sequence, update_self .., by omega⟩
  · exact ⟨cursor, (update_of_ne same ..).trans found, bound⟩

theorem Sound.enters {payload : V} (sound : s.Sound)
    (ahead : ∀ cursor, s.cursors consumer = some cursor → cursor < sequence) :
    Sound { s with
      cursors := update s.cursors consumer (some sequence)
      rows := s.rows ++ [.fresh consumer sequence conversation payload] } := by
  have last : ∀ row, row ∈ s.rows ∨ row ∈ s.acknowledged → row.consumer = consumer →
      row.sequence < sequence := by
    intro row mem same
    obtain ⟨cursor, found, bound⟩ := sound.bounded row mem
    have far := ahead cursor (same ▸ found)
    omega
  have advanced := sound.advances consumer sequence fun cursor found =>
    Int.le_of_lt (ahead cursor found)
  constructor
  · refine sound.keys.append fun row mem same => ?_
    injection same with same_consumer same_sequence
    have := last row (.inl mem) same_consumer
    have same_sequence : row.sequence = sequence := same_sequence
    omega
  · rintro row (mem | done)
    · rw [mem_append, mem_singleton] at mem
      obtain mem | rfl := mem
      · exact advanced.bounded row (.inl mem)
      · exact ⟨sequence, update_self .., Int.le_refl _⟩
    · exact advanced.bounded row (.inr done)
  · exact sound.drawn
  · exact sound.once
  · intro row mem token held
    rw [mem_append, mem_singleton] at mem
    obtain mem | rfl := mem
    · exact sound.latest row mem token held
    · cases held
  · intro row mem token held other there same
    rw [mem_append, mem_singleton] at mem there
    obtain mem | rfl := mem
    · obtain there | rfl := there
      · exact sound.oldest row mem token held other there same
      · injection same with same_consumer
        exact Int.le_of_lt (last row (.inl mem) same_consumer.symm)
    · cases held
  · intro done acknowledged row mem same
    rw [mem_append, mem_singleton] at mem
    obtain mem | rfl := mem
    · exact sound.before done acknowledged row mem same
    · injection same with same_consumer
      exact last done (.inr acknowledged) same_consumer.symm
  · exact sound.order

theorem coalescing_mem (found : s.coalescing consumer conversation = some row) :
    row ∈ s.rows ∧ row.line = (consumer, conversation) ∧ row.token = none := by
  have mem := (mem_insertionSort _).mp (mem_of_head? found)
  simpa using mem_filter.mp mem

section

variable {text : String → String → V} {limit : Nat} {eventId : String}

theorem sound_notice (sound : s.Sound) : (s.notice text consumer conversation limit).Sound := by
  simp only [notice]
  split
  · rename_i row found
    have unleased := (coalescing_mem found).2.2
    refine sound.edits ?_ ?_ ?_
    · intro other _
      split <;> rfl
    · intro other _
      split <;> rfl
    · intro other _ token
      split
      · exact id
      · exact id
  · refine sound.enters fun cursor found => ?_
    rw [found]
    exact Int.lt_succ cursor

theorem sound_rejectOverloaded (sound : s.Sound) :
    (s.rejectOverloaded text consumer conversation eventId limit).1.Sound := by
  simp only [rejectOverloaded]
  split
  · have noticed : (s.notice text consumer conversation limit).Sound := sound_notice sound
    exact { noticed with }
  · exact sound

end

theorem sound_stageNotification {notification : Option (ConversationRef × V)} (sound : s.Sound)
    (staged : s.stageNotification consumer sequence notification = .ok s') : s'.Sound := by
  simp only [stageNotification] at staged
  split at staged
  · cases staged
  · rename_i cursor known
    have ahead : cursor < sequence → ∀ other, s.cursors consumer = some other → other < sequence := by
      intro later other found
      rw [known, some.injEq] at found
      omega
    split at staged
    · rename_i later
      split at staged
      · cases staged
        exact sound.enters (ahead later)
      · cases staged
        exact sound.advances consumer sequence fun other found => Int.le_of_lt (ahead later other found)
    · cases staged
      exact sound

/-! ## Deliveries -/

def Oldest (s : State V) (key : String × Int) : Prop :=
  ∀ row ∈ s.rows, row.key = key → ∀ other ∈ s.rows, other.line = row.line →
    row.sequence ≤ other.sequence

theorem oldest_of_due {now : Int} (sound : s.Sound) (mem : row ∈ s.rows)
    (due : s.due consumer now row = true) : s.Oldest row.key := by
  intro same here key other there line
  obtain rfl := sound.keys.eq_of_key here mem key
  simp only [State.due, Bool.and_eq_true, List.all_eq_true] at due
  have waits := due.2 other there
  simp only [Bool.not_eq_true', Bool.and_eq_false_imp, decide_eq_true_eq,
    decide_eq_false_iff_not] at waits
  have := waits line
  omega

theorem candidate_mem {now : Int} {limit : Nat} (mem : sequence ∈ s.candidates consumer now limit) :
    ∃ row ∈ s.rows, row.key = (consumer, sequence) ∧ s.due consumer now row = true := by
  obtain ⟨row, listed, rfl⟩ := mem_map.mp mem
  have sorted := (mem_insertionSort _).mp (mem_of_mem_take listed)
  obtain ⟨here, due⟩ := mem_filter.mp sorted
  have same : row.consumer = consumer := by
    simp only [State.due, Bool.and_eq_true, decide_eq_true_eq] at due
    exact due.1.1.1
  exact ⟨row, here, by rw [Row.key, same], due⟩

section

variable {until_ : Int} {key : String × Int}

theorem lease_rows (mem : row ∈ (s.lease consumer until_ sequence).rows) :
    ∃ old ∈ s.rows, row.key = old.key ∧ row.line = old.line ∧ row.payload = old.payload ∧
      row.sequence = old.sequence ∧
      (old.key = (consumer, sequence) ∧ row.token = some s.tokens ∨
        old.key ≠ (consumer, sequence) ∧ row = old) := by
  obtain ⟨old, there, ⟨same, rfl⟩ | ⟨ne, rfl⟩⟩ := mem_alter.mp mem
  · exact ⟨old, there, rfl, rfl, rfl, rfl, .inl ⟨same, rfl⟩⟩
  · exact ⟨row, there, rfl, rfl, rfl, rfl, .inr ⟨ne, rfl⟩⟩

theorem lease_deliveries (sound : s.Sound) (until_ : Int) (mem : row ∈ s.rows)
    (same : row.key = (consumer, sequence)) :
    ∃ delivery : Delivery V, delivery.key = (consumer, sequence) ∧ delivery.token = s.tokens ∧
      (s.lease consumer until_ sequence).deliveries = s.deliveries ++ [delivery] := by
  have leased : ∃ found, rowOf (s.lease consumer until_ sequence).rows Row.key (consumer, sequence) =
      some found := by
    have distinct : Distinct Row.key (s.lease consumer until_ sequence).rows :=
      sound.keys.alter fun _ _ => rfl
    exact ⟨_, same ▸ distinct.rowOf_eq_some (mem_alter.mpr ⟨row, mem, .inl ⟨same, rfl⟩⟩)⟩
  obtain ⟨found, selected⟩ := leased
  obtain ⟨_, key⟩ := rowOf_some selected
  refine ⟨⟨found.consumer, found.sequence, found.conversation, found.payload, found.attempts,
    s.tokens⟩, key, rfl, ?_⟩
  show s.deliveries ++ (rowOf (s.lease consumer until_ sequence).rows Row.key
    (consumer, sequence)).toList.map _ = _
  rw [selected]
  rfl

theorem latest_append {delivery : Delivery V} :
    (s.deliveries ++ [delivery]).filter (fun delivery => delivery.key = key) =
      (s.deliveries.filter fun delivery => delivery.key = key) ++
        if delivery.key = key then [delivery] else [] := by
  rw [filter_append, filter_singleton]
  by_cases same : delivery.key = key <;> simp [same]

theorem sound_lease (sound : s.Sound) (oldest : s.Oldest (consumer, sequence))
    (mem : row ∈ s.rows) (same : row.key = (consumer, sequence)) :
    (s.lease consumer until_ sequence).Sound := by
  obtain ⟨delivery, its_key, its_token, deliveries⟩ := lease_deliveries sound until_ mem same
  -- The lease adds one delivery, which is then the latest of its row.
  have latest : ∀ key, (s.lease consumer until_ sequence).latest key =
      if (consumer, sequence) = key then some delivery else s.latest key := by
    intro key
    rw [State.latest, deliveries, latest_append, its_key]
    by_cases here : (consumer, sequence) = key
    · rw [if_pos here, if_pos here, getLast?_append]
      rfl
    · rw [if_neg here, if_neg here, append_nil, State.latest]
  constructor
  · exact sound.keys.alter fun _ _ => rfl
  · rintro other (there | done)
    · obtain ⟨old, known, its, _, _, bound, _⟩ := lease_rows there
      injection its with its_consumer
      rw [its_consumer, bound]
      exact sound.bounded old (.inl known)
    · exact sound.bounded other (.inr done)
  · rw [deliveries]
    intro other there
    rw [mem_append, mem_singleton] at there
    have tokens : (s.lease consumer until_ sequence).tokens = s.tokens + 1 := rfl
    obtain there | rfl := there
    · have := sound.drawn other there
      omega
    · omega
  · rw [deliveries, map_append, map_singleton, its_token, nodup_append]
    refine ⟨sound.once, nodup_singleton _, ?_⟩
    intro token there _ new same
    rw [mem_singleton] at new
    obtain ⟨other, listed, rfl⟩ := mem_map.mp there
    have := sound.drawn other listed
    omega
  · intro other there token held
    obtain ⟨old, known, its, _, _, _, ⟨leased, new⟩ | ⟨ne, rfl⟩⟩ := lease_rows there
    · rw [new, some.injEq] at held
      rw [latest, its, leased, if_pos rfl]
      exact ⟨delivery, rfl, its_token.trans held⟩
    · rw [latest, if_neg (Ne.symm ne)]
      exact sound.latest other known token held
  · intro other there token held third listed line
    obtain ⟨old, known, _, its_line, _, its, which⟩ := lease_rows there
    obtain ⟨old', known', _, its_line', _, its', _⟩ := lease_rows listed
    rw [its_line, its_line'] at line
    rw [its, its']
    obtain ⟨leased, _⟩ | ⟨_, rfl⟩ := which
    · exact oldest old known leased old' known' line
    · exact sound.oldest other known token held old' known' line
  · intro done acknowledged other there line
    obtain ⟨old, known, _, its_line, _, its, _⟩ := lease_rows there
    rw [its_line] at line
    rw [its]
    exact sound.before done acknowledged old known line
  · exact sound.order

theorem sound_leases {sequences : List Int} (sound : s.Sound)
    (known : ∀ sequence ∈ sequences, s.Oldest (consumer, sequence) ∧
      ∃ row ∈ s.rows, row.key = (consumer, sequence)) :
    (sequences.foldl (fun s sequence => s.lease consumer until_ sequence) s).Sound := by
  induction sequences generalizing s with
  | nil => exact sound
  | cons sequence sequences ih =>
    obtain ⟨oldest, row, mem, same⟩ := known sequence (by simp)
    refine ih (sound_lease sound oldest mem same) fun other there => ?_
    obtain ⟨oldest, row, mem, same⟩ := known other (by simp [there])
    constructor
    · intro row here key third listed line
      obtain ⟨old, known, its, its_line, _, bound, _⟩ := lease_rows here
      obtain ⟨old', known', _, its_line', _, bound', _⟩ := lease_rows listed
      rw [its_line, its_line'] at line
      rw [bound, bound']
      exact oldest old known (its.symm.trans key) old' known' line
    · by_cases leased : row.key = (consumer, sequence)
      · exact ⟨_, mem_alter.mpr ⟨row, mem, .inl ⟨leased, rfl⟩⟩, same⟩
      · exact ⟨row, mem_alter.mpr ⟨row, mem, .inr ⟨leased, rfl⟩⟩, same⟩

end

theorem sound_claimNotifications {now leaseSeconds : Int} {limit : Nat} (sound : s.Sound)
    (claimed : s.claimNotifications consumer now leaseSeconds limit = .ok s') : s'.Sound := by
  simp only [claimNotifications] at claimed
  split at claimed
  · cases claimed
  · cases claimed
    refine sound_leases sound fun sequence candidate => ?_
    obtain ⟨row, mem, same, due⟩ := candidate_mem candidate
    exact ⟨same ▸ oldest_of_due sound mem due, row, mem, same⟩

/-! ## Ends of leases -/

theorem holds_iff : delivery.holds row = true ↔
    row.key = delivery.key ∧ row.token = some delivery.token := by
  simp [Delivery.holds]

theorem sound_finishNotification {now : Int} {error : Option String} (sound : s.Sound) :
    (s.finishNotification delivery now error).1.Sound := by
  cases error with
  | some error =>
    refine sound.edits ?_ ?_ ?_
    · intro row _
      split <;> rfl
    · intro row _
      split <;> rfl
    · intro row _ token
      split
      · nofun
      · exact id
  | none =>
    have left : ∀ row ∈ (s.finishNotification delivery now none).1.rows, row ∈ s.rows :=
      fun row mem => (mem_filter.mp mem).1
    -- an acknowledged row was the oldest one of its line
    have first : ∀ done ∈ s.rows, delivery.holds done = true →
        ∀ row ∈ (s.finishNotification delivery now none).1.rows, row.line = done.line →
          done.sequence < row.sequence := by
      intro done known held row mem line
      obtain ⟨there, free⟩ := mem_filter.mp mem
      have lower := sound.oldest done known _ (holds_iff.mp held).2 row there line
      have ne : row.sequence ≠ done.sequence := by
        intro same
        have key : row.key = done.key := by
          injection line with consumer
          rw [Row.key, Row.key, consumer, same]
        rw [sound.keys.eq_of_key there known key, held] at free
        cases free
      omega
    constructor
    · exact sound.keys.filter _
    · rintro row (mem | done)
      · exact sound.bounded row (.inl (left row mem))
      · obtain done | done := mem_append.mp done
        · exact sound.bounded row (.inr done)
        · exact sound.bounded row (.inl (mem_filter.mp done).1)
    · exact sound.drawn
    · exact sound.once
    · exact fun row mem => sound.latest row (left row mem)
    · intro row mem token held other there
      exact sound.oldest row (left row mem) token held other (left other there)
    · intro done acknowledged row mem line
      obtain acknowledged | new := mem_append.mp acknowledged
      · exact sound.before done acknowledged row (left row mem) line
      · obtain ⟨known, held⟩ := mem_filter.mp new
        exact first done known held row mem line
    · show (s.acknowledged ++ s.rows.filter delivery.holds).Pairwise _
      rw [pairwise_append]
      refine ⟨sound.order, ?_, ?_⟩
      · have single : ∀ a ∈ s.rows.filter delivery.holds, ∀ b ∈ s.rows.filter delivery.holds,
            a = b := by
          intro a one b other
          obtain ⟨known, held⟩ := mem_filter.mp one
          obtain ⟨known', held'⟩ := mem_filter.mp other
          exact sound.keys.eq_of_key known known'
            ((holds_iff.mp held).1.trans (holds_iff.mp held').1.symm)
        have distinct : (s.rows.filter delivery.holds).Nodup := (sound.keys.filter _).of_map
        exact distinct.imp_of_mem fun one other ne => absurd (single _ one _ other) ne
      · intro done acknowledged row new line
        exact sound.before done acknowledged row (mem_filter.mp new).1 line.symm

/-! ## Runs -/

variable {text : String → String → V} {step : Step V}

theorem sound_step (sound : s.Sound) (next : s.step text step = some s') : s'.Sound := by
  cases step with
  | cursor consumer legacy =>
    cases next
    simp only [State.cursor]
    split
    · exact sound
    · rename_i unknown
      refine sound.advances consumer legacy fun cursor found => ?_
      rw [unknown] at found
      cases found
  | stage consumer sequence notification =>
    cases staged : s.stageNotification consumer sequence notification with
    | error reason =>
      simp only [State.step, staged] at next
      cases next
    | ok t =>
      simp only [State.step, staged] at next
      cases next
      exact sound_stageNotification sound staged
  | reject consumer conversation eventId limit =>
    cases next
    exact sound_rejectOverloaded sound
  | claim consumer now leaseSeconds limit =>
    cases claimed : s.claimNotifications consumer now leaseSeconds limit with
    | error reason =>
      simp only [State.step, claimed] at next
      cases next
    | ok t =>
      simp only [State.step, claimed] at next
      cases next
      exact sound_claimNotifications sound claimed
  | finish delivery now error =>
    obtain ⟨delivery, _, rfl⟩ := map_eq_some_iff.mp next
    exact sound_finishNotification sound
  | process channel eventId status =>
    cases next
    exact { sound with }

theorem sound_of_reachable {allowed : State V → Step V → Prop}
    (reachable : (system text).Reachable allowed s) : s.Sound :=
  reachable.invariant Sound sound_start fun _ _ sound next => sound_step sound next

end State

end Agentix.Outbox
