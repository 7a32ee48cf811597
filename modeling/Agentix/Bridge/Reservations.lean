import Agentix.Bridge.Hub

/-! # Reservations of a bridge

A session is reserved by at most one call, and has no connection while that call acknowledges it.
-/

namespace Agentix.Bridge

open Lib List Option Function

namespace Hub

def Accept.record? : Accept → Option Registration
  | .reserved record | .acknowledging record | .acknowledged record => some record
  | _ => none

/-- The reservation of a call. -/
def Accept.holds : Accept → Option Key
  | .leaving key _ => some key
  | phase => phase.record?.map Registration.key

/-- The call has seen that its session has no connection. -/
def Accept.checked : Accept → Bool
  | .acknowledging _ | .acknowledged _ => true
  | _ => false

def keys (s : Hub) : List Key := s.registrations.map Prod.fst

structure Held (s : Hub) : Prop where
  pending : ∀ call phase key, s.accepts call = some phase → phase.holds = some key →
    s.pending key = true
  single : ∀ call call' phase phase' key, s.accepts call = some phase →
    s.accepts call' = some phase' → phase.holds = some key → phase'.holds = some key → call = call'
  free : ∀ call phase record, s.accepts call = some phase → phase.checked = true →
    phase.record? = some record → record.key ∉ s.keys
  configured : ∀ call phase record, s.accepts call = some phase → phase.record? = some record →
    (s.backends record.agent).isSome

variable {s s' : Hub} {call number : Nat} {key : Key} {phase phase' : Accept} {record : Registration}

theorem held_start : start.Held where
  pending _ _ _ found := by cases found
  single _ _ _ _ _ found := by cases found
  free _ _ _ found := by cases found
  configured _ _ _ found := by cases found

theorem Accept.holds_record (known : phase.record? = some record) : phase.holds = some record.key := by
  cases phase with
  | leaving key result => cases known
  | _ => simp [holds, known]

theorem owns_iff : s.owns key = true ↔ key ∈ s.keys := by
  simp only [owns, keys, lookup_isSome_iff, List.mem_map, beq_iff_eq]
  constructor
  · rintro ⟨entry, mem, same⟩
    exact ⟨entry, mem, same.symm⟩
  · rintro ⟨entry, mem, same⟩
    exact ⟨entry, mem, same.symm⟩

/-- A report does nothing, or takes the entry out and broadcasts that its session is offline. -/
theorem disconnected_cases (key : Key) (instance_ : String) :
    (s.disconnected key instance_ = s ∧ ∀ number link, s.registrations.lookup key = some number →
      s.links number = some link → link.instance_ ≠ instance_) ∨
    ∃ number link events, s.registrations.lookup key = some number ∧ s.links number = some link ∧
      link.instance_ = instance_ ∧ ((s.backends key.1).isSome →
        events = s.events ++ [(key.1, .sessionOffline key.2)]) ∧
      s.disconnected key instance_ = { s with
        registrations := s.registrations.filter fun entry => entry.1 ≠ key
        links := update s.links number (some { link with online := false })
        events := events } := by
  rw [disconnected]
  cases entry : s.registrations.lookup key with
  | none => exact .inl ⟨rfl, nofun⟩
  | some number =>
    cases found : s.links number with
    | none =>
      refine .inl ⟨by simp only [found], ?_⟩
      intro number link same there
      cases same
      rw [found] at there
      cases there
    | some link =>
      by_cases same : link.instance_ = instance_
      · by_cases known : (s.backends key.1).isSome
        · exact .inr ⟨number, link, _, rfl, found, same, fun _ => rfl,
            by simp [found, same, known, broadcast]⟩
        · exact .inr ⟨number, link, s.events, rfl, found, same, fun here => absurd here known,
            by simp [found, same, known]⟩
      · refine .inl ⟨by simp only [found, if_neg same], ?_⟩
        intro number link same_number there
        cases same_number
        rw [found, some.injEq] at there
        rw [← there]
        exact same

theorem Held.goes (held : s.Held) (found : s.accepts call = some phase)
    (accepts : s'.accepts = update s.accepts call (some phase'))
    (others : ∀ key, phase.holds ≠ some key → s'.pending key = s.pending key)
    (own : ∀ key, phase'.holds = some key → phase.holds = some key ∧ s'.pending key = s.pending key)
    (keys : ∀ key ∈ s'.keys, key ∈ s.keys ∨ phase.holds = some key ∧ phase'.checked = false)
    (backends : s'.backends = s.backends)
    (records : ∀ record, phase'.record? = some record → phase.record? = some record ∧
      (phase'.checked = true → phase.checked = true ∨ record.key ∉ s.keys)) : s'.Held := by
  have old : ∀ {other its}, s'.accepts other = some its → other ≠ call →
      s.accepts other = some its := by
    intro other its known ne
    rw [accepts, update_of_ne ne] at known
    exact known
  have new : ∀ {its}, s'.accepts call = some its → its = phase' := by
    intro its known
    rw [accepts, update_self, some.injEq] at known
    exact known.symm
  -- another call has another reservation
  have apart : ∀ {other its key}, s.accepts other = some its → its.holds = some key →
      other ≠ call → phase.holds ≠ some key := by
    intro other its key known holds ne same
    exact ne (held.single other call its phase key known found holds same)
  constructor
  · intro other its key known holds
    by_cases same : other = call
    · subst same
      rw [new known] at holds
      obtain ⟨before, same⟩ := own key holds
      rw [same]
      exact held.pending other phase key found before
    · rw [others key (apart (old known same) holds same)]
      exact held.pending other its key (old known same) holds
  · intro other third its its' key known known' holds holds'
    by_cases same : other = call
    · by_cases same' : third = call
      · rw [same, same']
      · subst same
        rw [new known] at holds
        exact absurd (own key holds).1 (apart (old known' same') holds' same')
    · by_cases same' : third = call
      · subst same'
        rw [new known'] at holds'
        exact absurd (own key holds').1 (apart (old known same) holds same)
      · exact held.single other third its its' key (old known same) (old known' same') holds holds'
  · intro other its record known checked its_record mem
    by_cases same : other = call
    · subst same
      rw [new known] at checked its_record
      obtain ⟨before, free⟩ := records record its_record
      obtain there | ⟨_, unchecked⟩ := keys _ mem
      · obtain checked | free := free checked
        · exact held.free other phase record found checked before there
        · exact free there
      · rw [checked] at unchecked
        cases unchecked
    · have holds := Accept.holds_record its_record
      obtain there | ⟨mine, _⟩ := keys _ mem
      · exact held.free other its record (old known same) checked its_record there
      · exact apart (old known same) holds same mine
  · intro other its record known its_record
    rw [backends]
    by_cases same : other = call
    · subst same
      rw [new known] at its_record
      exact held.configured other phase record found (records record its_record).1
    · exact held.configured other its record (old known same) its_record

theorem Held.begins (held : s.Held) (new : s.accepts call = none)
    (accepts : s'.accepts = update s.accepts call (some phase')) (keys : s'.keys = s.keys)
    (backends : s'.backends = s.backends) (unchecked : phase'.checked = false)
    (others : ∀ key, phase'.holds ≠ some key → s'.pending key = s.pending key)
    (own : ∀ key, phase'.holds = some key → s.pending key = false ∧ s'.pending key = true)
    (records : ∀ record, phase'.record? = some record → (s.backends record.agent).isSome) :
    s'.Held := by
  have old : ∀ {other its}, s'.accepts other = some its → other ≠ call →
      s.accepts other = some its := by
    intro other its known ne
    rw [accepts, update_of_ne ne] at known
    exact known
  have mine : ∀ {its}, s'.accepts call = some its → its = phase' := by
    intro its known
    rw [accepts, update_self, some.injEq] at known
    exact known.symm
  have apart : ∀ {other its key}, s.accepts other = some its → its.holds = some key →
      phase'.holds ≠ some key := by
    intro other its key known holds same
    have reserved := held.pending other its key known holds
    rw [(own key same).1] at reserved
    cases reserved
  constructor
  · intro other its key known holds
    by_cases same : other = call
    · subst same
      rw [mine known] at holds
      exact (own key holds).2
    · rw [others key (apart (old known same) holds)]
      exact held.pending other its key (old known same) holds
  · intro other third its its' key known known' holds holds'
    by_cases same : other = call
    · by_cases same' : third = call
      · rw [same, same']
      · subst same
        rw [mine known] at holds
        exact absurd holds (apart (old known' same') holds')
    · by_cases same' : third = call
      · subst same'
        rw [mine known'] at holds'
        exact absurd holds' (apart (old known same) holds)
      · exact held.single other third its its' key (old known same) (old known' same') holds holds'
  · intro other its record known checked its_record
    rw [keys]
    by_cases same : other = call
    · subst same
      rw [mine known, unchecked] at checked
      cases checked
    · exact held.free other its record (old known same) checked its_record
  · intro other its record known its_record
    rw [backends]
    by_cases same : other = call
    · subst same
      rw [mine known] at its_record
      exact records record its_record
    · exact held.configured other its record (old known same) its_record

/-- The calls stand as they are, and no entry is new. -/
theorem Held.stands (held : s.Held) (accepts : s'.accepts = s.accepts)
    (pending : s'.pending = s.pending) (keys : s'.keys ⊆ s.keys)
    (backends : ∀ agent, (s.backends agent).isSome → (s'.backends agent).isSome) : s'.Held where
  pending := by
    rw [accepts, pending]
    exact held.pending
  single := by
    rw [accepts]
    exact held.single
  free := by
    rw [accepts]
    intro call phase record found checked known mem
    exact held.free call phase record found checked known (keys mem)
  configured := by
    rw [accepts]
    intro call phase record found known
    exact backends _ (held.configured call phase record found known)

theorem Held.links (held : s.Held) {links : Nat → Option Link} {closed : Bool} {next : Nat}
    {shutdowns : Nat → Option Shutdown} {events : List (String × AgentEvent)} :
    Held { s with links, closed, next, shutdowns, events } :=
  held.stands rfl rfl (fun _ mem => mem) fun _ known => known

/-! ## Steps -/

theorem keys_insert {entries : List (Key × Nat)} :
    (insert key number entries).map Prod.fst =
      (entries.map Prod.fst).filter (fun other => other ≠ key) ++ [key] := by
  simp [insert, List.filter_map, comp_def]

theorem accepts_goto (phase : Accept) :
    (s.goto call phase).accepts = update s.accepts call (some phase) := rfl

theorem Held.disconnected {instance_ : String} (held : s.Held) :
    (s.disconnected key instance_).Held := by
  obtain ⟨same, _⟩ | ⟨number, link, events, _, _, _, _, same⟩ :=
    disconnected_cases key instance_
  · rw [same]
    exact held
  · rw [same]
    refine held.stands rfl rfl ?_ fun _ known => known
    intro other mem
    obtain ⟨entry, there, rfl⟩ := mem_map.mp mem
    exact mem_map_of_mem (mem_filter.mp there).1

theorem keys_enter : (s.enter record).keys = s.keys.filter (fun key => key ≠ record.key) ++ [record.key] :=
  keys_insert

theorem held_accept {fromValue : Json → Except String Registration} {frame : Json} (held : s.Held)
    (next : s.accept fromValue call frame = some s') : s'.Held := by
  simp only [accept] at next
  split at next
  · rename_i free
    have new : s.accepts call = none := isNone_iff_eq_none.mp free
    -- a call without a reservation
    have plain : ∀ {phase : Accept}, phase.holds = none → phase.record? = none →
        (s.goto call phase).Held := by
      intro phase holds none
      refine held.begins new rfl rfl rfl ?_ (fun _ _ => rfl) ?_ ?_
      · cases phase with
        | acknowledging record => cases none
        | acknowledged record => cases none
        | _ => rfl
      · intro key here
        rw [holds] at here
        cases here
      · intro record here
        rw [none] at here
        cases here
    injection next with next
    rw [← next]
    split
    · exact plain rfl rfl
    · exact plain rfl rfl
    · rename_i record parsed
      split
      · exact plain rfl rfl
      · rename_i admitted
        split
        · exact plain rfl rfl
        · rename_i unreserved
          have known : (s.backends record.agent).isSome := by
            simp only [admits] at admitted
            split at admitted
            · rename_i root backend
              rw [backend]
              rfl
            · simp at admitted
          refine held.begins new (accepts_goto (.reserved record)) rfl rfl rfl ?_ ?_ ?_
          · intro key ne
            have ne : key ≠ record.key := fun same => ne (by rw [same]; rfl)
            exact update_of_ne ne ..
          · intro key same
            cases same
            exact ⟨by simpa using unreserved, update_self ..⟩
          · intro other same
            cases same
            exact known
  · cases next

theorem held_check (held : s.Held) (next : s.check call = some s') : s'.Held := by
  obtain ⟨phase, found, next⟩ := bind_eq_some_iff.mp next
  split at next
  · rename_i record
    cases next
    refine held.goes found rfl (fun _ _ => rfl) ?_ (fun _ mem => .inl mem) rfl ?_
    · intro key
      split
      · exact fun holds => ⟨holds, rfl⟩
      · split
        · exact fun holds => ⟨holds, rfl⟩
        · exact fun holds => ⟨holds, rfl⟩
    · intro other
      split
      · nofun
      · split
        · nofun
        · rename_i free
          intro same
          refine ⟨same, fun _ => .inr ?_⟩
          cases same
          exact fun mem => free (owns_iff.mpr mem)
  · cases next

theorem held_register (held : s.Held) (next : s.register call = some s') : s'.Held := by
  obtain ⟨phase, found, next⟩ := bind_eq_some_iff.mp next
  split at next
  · rename_i record
    injection next with next
    rw [← next]
    split
    · exact held.goes found rfl (fun _ _ => rfl) (fun _ holds => ⟨holds, rfl⟩)
        (fun _ mem => .inl mem) rfl nofun
    · refine held.goes found rfl (fun _ _ => rfl) (fun _ holds => ⟨holds, rfl⟩) ?_ rfl nofun
      intro key mem
      have mem : key ∈ (s.enter record).keys := mem
      rw [keys_enter, mem_append, mem_filter, mem_singleton] at mem
      obtain ⟨mem, _⟩ | rfl := mem
      · exact .inl mem
      · exact .inr ⟨rfl, rfl⟩
  · cases next

theorem Held.releases (held : s.Held) (found : s.accepts call = some phase)
    (holds : phase.holds = some key) (unheld : phase'.holds = none) :
    Held { s.goto call phase' with pending := update s.pending key false } := by
  have none : phase'.record? = none := by
    cases known : phase'.record? with
    | none => rfl
    | some record =>
      rw [Accept.holds_record known] at unheld
      cases unheld
  refine held.goes found rfl ?_ ?_ (fun _ mem => .inl mem) rfl ?_
  · intro other ne
    have ne : other ≠ key := fun same => ne (by rw [same]; exact holds)
    exact update_of_ne ne ..
  · intro other here
    rw [unheld] at here
    cases here
  · intro record here
    rw [none] at here
    cases here

theorem held_cancel (held : s.Held) (next : s.cancel call = some s') : s'.Held := by
  obtain ⟨phase, found, next⟩ := bind_eq_some_iff.mp next
  split at next
  · cases next
    exact held.goes found rfl (fun _ _ => rfl) nofun (fun _ mem => .inl mem) rfl nofun
  · cases next
    exact held.releases found rfl rfl
  · cases next
    exact held.releases found rfl rfl
  · cases next
    exact held.releases found rfl rfl
  · cases next

variable {fromValue : Json → Except String Registration} {step : Step}

theorem held_step (held : s.Held) (next : s.step fromValue step = some s') : s'.Held := by
  cases step with
  | configure agent root =>
    cases next
    refine held.stands rfl rfl (fun _ mem => mem) ?_
    intro other known
    by_cases same : other = agent
    · simp [configure, same]
    · simpa [configure, update_of_ne same] using known
  | accept call frame => exact held_accept held next
  | inspect call =>
    obtain ⟨phase, found, next⟩ := bind_eq_some_iff.mp next
    split at next
    · cases next
      exact held.goes found rfl (fun _ _ => rfl) nofun (fun _ mem => .inl mem) rfl nofun
    · cases next
  | check call => exact held_check held next
  | acknowledge call =>
    obtain ⟨phase, found, next⟩ := bind_eq_some_iff.mp next
    split at next
    · cases next
      exact held.goes found rfl (fun _ _ => rfl) (fun _ holds => ⟨holds, rfl⟩)
        (fun _ mem => .inl mem) rfl fun _ same => ⟨same, fun _ => .inl rfl⟩
    · cases next
  | acknowledgeFails call reason =>
    obtain ⟨phase, found, next⟩ := bind_eq_some_iff.mp next
    split at next
    · cases next
      exact held.goes found rfl (fun _ _ => rfl) (fun _ holds => ⟨holds, rfl⟩)
        (fun _ mem => .inl mem) rfl nofun
    · cases next
  | register call => exact held_register held next
  -- The key of the call is given back.
  | finish call =>
    obtain ⟨phase, found, next⟩ := bind_eq_some_iff.mp next
    split at next
    · cases next
      exact held.releases found rfl rfl
    · cases next
  | cancel call => exact held_cancel held next
  -- The reservations are the calls' alone, and a link has no part in them.
  | forward number =>
    obtain ⟨link, _, next⟩ := bind_eq_some_iff.mp next
    split at next
    · cases next
      exact held.links
    · cases next
  | readerEnds number =>
    obtain ⟨link, _, next⟩ := bind_eq_some_iff.mp next
    split at next
    · cases next
      exact held.links
    · cases next
  | readerReports number =>
    obtain ⟨link, _, next⟩ := bind_eq_some_iff.mp next
    split at next
    · cases next
      have still : (s.setLink number { link with reader := .stopped }).Held :=
        held.links
      exact still.disconnected
    · cases next
  | readerStops number =>
    obtain ⟨link, _, next⟩ := bind_eq_some_iff.mp next
    split at next
    · cases next
      exact held.links
    · cases next
  | poison number =>
    obtain ⟨link, _, rfl⟩ := map_eq_some_iff.mp next
    exact held.links
  | poisonReports number =>
    obtain ⟨link, _, next⟩ := bind_eq_some_iff.mp next
    split at next
    · cases next
      have still : (s.setLink number { link with reports := link.reports - 1 }).Held :=
        held.links
      exact still.disconnected
    · cases next
  | dropped number =>
    obtain ⟨link, _, next⟩ := bind_eq_some_iff.mp next
    split at next
    · cases next
    · cases next
      exact held.links
  | shutdown call =>
    simp only [Hub.step, shutdown] at next
    split at next
    · cases next
      exact held.links
    · cases next
  -- Every registration goes at once, so a key that was found free is free all the more.
  | drain call order =>
    obtain ⟨phase, _, next⟩ := bind_eq_some_iff.mp next
    split at next
    · split at next
      · cases next
        exact held.stands rfl rfl (nil_subset _) fun _ known => known
      · cases next
    · cases next
  | stop call =>
    obtain ⟨phase, _, next⟩ := bind_eq_some_iff.mp next
    split at next
    · obtain ⟨link, _, rfl⟩ := map_eq_some_iff.mp next
      exact held.links
    · cases next
  | announce call =>
    obtain ⟨phase, _, next⟩ := bind_eq_some_iff.mp next
    split at next
    · injection next with next
      rw [← next]
      split
      · exact held.links
      · exact held.links
    · cases next
  | abandon call =>
    obtain ⟨phase, _, next⟩ := bind_eq_some_iff.mp next
    split at next
    · cases next
      exact held.links
    · cases next
      exact held.links
    · cases next

theorem held_of_reachable {allowed : Hub → Step → Prop}
    (reachable : (system fromValue).Reachable allowed s) : s.Held :=
  reachable.invariant Held held_start fun _ _ held next => held_step held next

end Hub

end Agentix.Bridge
