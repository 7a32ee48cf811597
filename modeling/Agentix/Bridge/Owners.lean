import Agentix.Bridge.Reservations
import Agentix.Lib.Replies
import Agentix.Lib.Updates

/-! # Owners of sessions

The table has one connection of a session, the latest one, and the events of a session tell whether
it has one.
-/

namespace Agentix.Bridge

open Lib List Option
open Function (update update_self update_of_ne)

namespace Hub

def AgentEvent.switch : AgentEvent → Option (String × Bool)
  | .sessionResumed session => some (session, true)
  | .sessionOffline session => some (session, false)
  | _ => none

def switches (key : Key) (events : List (String × AgentEvent)) : List Bool :=
  events.filterMap fun entry => entry.2.switch.bind fun switch =>
    if (entry.1, switch.1) = key then some switch.2 else none

def Drains (s : Hub) (call : Nat) (left : List (Key × Nat)) : Prop :=
  ∃ stopped, s.shutdowns call = some (.draining left stopped)

structure Owned (s : Hub) : Prop where
  keys : s.keys.Nodup
  links : ∀ key number, (key, number) ∈ s.registrations →
    ∃ link, s.links number = some link ∧ link.key = key
  fresh : ∀ number, s.next ≤ number → s.links number = none
  latest : ∀ key number other link, (key, number) ∈ s.registrations → s.links other = some link →
    link.key = key → other ≤ number
  configured : ∀ key ∈ s.keys, (s.backends key.1).isSome
  alternates : ∀ key, Alternates (switches key s.events)
  on : ∀ key ∈ s.keys, isOn (switches key s.events) = true
  off : s.closed = false → ∀ key, key ∉ s.keys → isOn (switches key s.events) = false
  closed : ∀ call, (s.shutdowns call).isSome → s.closed = true
  drained : ∀ call left, s.Drains call left → s.registrations = []
  left : ∀ call left, s.Drains call left → (left.map Prod.fst).Nodup ∧
    ∀ key ∈ left.map Prod.fst, isOn (switches key s.events) = true ∧ (s.backends key.1).isSome
  apart : ∀ call call' left left' key, s.Drains call left → s.Drains call' left' →
    key ∈ left.map Prod.fst → key ∈ left'.map Prod.fst → call = call'

variable {s s' : Hub} {call number : Nat} {key other : Key} {link : Link} {record : Registration}

theorem owned_start : start.Owned where
  keys := .nil
  links := nofun
  fresh := fun _ _ => rfl
  latest := nofun
  configured := nofun
  alternates := fun _ => alternates_nil
  on := nofun
  off := fun _ _ _ => rfl
  closed := nofun
  drained := nofun
  left := nofun
  apart := nofun

/-! ## Events -/

section

variable {events : List (String × AgentEvent)}

theorem switches_append {more : List (String × AgentEvent)} :
    switches key (events ++ more) = switches key events ++ switches key more :=
  filterMap_append

theorem switches_offline :
    switches key (events ++ [(key.1, .sessionOffline key.2)]) = switches key events ++ [false] := by
  rw [switches_append]
  simp [switches, AgentEvent.switch]

theorem switches_offline_of_ne (ne : other ≠ key) :
    switches other (events ++ [(key.1, .sessionOffline key.2)]) = switches other events := by
  rw [switches_append]
  simp [switches, AgentEvent.switch, Ne.symm ne]

theorem switches_announcements :
    switches record.key (events ++ (announcements record).map fun event => (record.agent, event)) =
      switches record.key events ++ [true] := by
  rw [switches_append, announcements]
  congr 1
  split
  · split <;> simp [switches, AgentEvent.switch, Registration.key]
  · simp [switches, AgentEvent.switch, Registration.key]

theorem switches_announcements_of_ne (ne : other ≠ record.key) :
    switches other (events ++ (announcements record).map fun event => (record.agent, event)) =
      switches other events := by
  have ne : (record.agent, record.sessionId) ≠ other := fun same => ne same.symm
  rw [switches_append, announcements, append_right_eq_self]
  split
  · split <;> simp [switches, AgentEvent.switch, ne]
  · simp [switches, AgentEvent.switch, ne]

end

/-! ## Steps -/

theorem Owned.stands (owned : s.Owned) (registrations : s'.registrations = s.registrations)
    (links : ∀ number, (s'.links number).map Link.key = (s.links number).map Link.key)
    (next : s'.next = s.next) (events : ∀ key, switches key s'.events = switches key s.events)
    (backends : ∀ agent, (s.backends agent).isSome → (s'.backends agent).isSome)
    (closed : s.closed = true → s'.closed = true)
    (shutdowns : ∀ call, (s'.shutdowns call).isSome → (s.shutdowns call).isSome ∨ s'.closed = true)
    (drains : ∀ call left', s'.Drains call left' → ∃ left, s.Drains call left ∧ left'.Sublist left) :
    s'.Owned := by
  have same : s'.keys = s.keys := by rw [Hub.keys, registrations, Hub.keys]
  -- A link keeps its key, so every link after the step was there before.
  have known : ∀ {number link}, s'.links number = some link →
      ∃ before, s.links number = some before ∧ before.key = link.key := by
    intro number link found
    have keys := links number
    rw [found] at keys
    exact map_eq_some_iff.mp keys.symm
  constructor
  · rw [same]
    exact owned.keys
  · rw [registrations]
    intro key number entry
    obtain ⟨link, found, rfl⟩ := owned.links key number entry
    have keys := links number
    rw [found] at keys
    exact map_eq_some_iff.mp keys
  · rw [next]
    intro number bound
    have keys := links number
    rw [owned.fresh number bound] at keys
    exact map_eq_none_iff.mp keys
  · rw [registrations]
    intro key number other link entry found same
    obtain ⟨before, found, kept⟩ := known found
    exact owned.latest key number other before entry found (kept.trans same)
  · rw [same]
    exact fun key mem => backends _ (owned.configured key mem)
  · intro key
    rw [events]
    exact owned.alternates key
  · intro key
    rw [events, same]
    exact owned.on key
  · intro opened key
    rw [events, same]
    refine owned.off ?_ key
    cases shut : s.closed with
    | false => rfl
    | true =>
      rw [closed shut] at opened
      cases opened
  · intro call known
    obtain before | shut := shutdowns call known
    · exact closed (owned.closed call before)
    · exact shut
  · rw [registrations]
    intro call left here
    obtain ⟨_, before, _⟩ := drains call left here
    exact owned.drained call _ before
  · intro call left' here
    obtain ⟨left, before, part⟩ := drains call left' here
    obtain ⟨distinct, lit⟩ := owned.left call left before
    refine ⟨distinct.sublist (part.map _), fun key mem => ?_⟩
    obtain ⟨on, known⟩ := lit key ((part.map _).subset mem)
    rw [events]
    exact ⟨on, backends _ known⟩
  · intro call call' left left' key here here' mem mem'
    obtain ⟨_, before, part⟩ := drains call left here
    obtain ⟨_, before', part'⟩ := drains call' left' here'
    exact owned.apart call call' _ _ key before before' ((part.map _).subset mem)
      ((part'.map _).subset mem')

theorem Owned.turns {link' : Link} (owned : s.Owned) (found : s.links number = some link)
    (same : link'.key = link.key) : (s.setLink number link').Owned := by
  refine owned.stands rfl ?_ rfl (fun _ => rfl) (fun _ known => known) (fun shut => shut)
    (fun _ known => .inl known) fun _ left drains => ⟨left, drains, .refl left⟩
  intro other
  show (update s.links number (some link') other).map Link.key = _
  by_cases here : other = number
  · rw [here, update_self, found, map_some, map_some, same]
  · rw [update_of_ne here]

theorem keys_filter {entries : List (Key × Nat)} :
    (entries.filter fun entry => entry.1 ≠ key).map Prod.fst =
      (entries.map Prod.fst).filter fun other => other ≠ key := by
  simp [List.filter_map, Function.comp_def]

theorem entry_of_lookup (entry : s.registrations.lookup key = some number) :
    (key, number) ∈ s.registrations := by
  obtain ⟨before, after, same, _⟩ := lookup_eq_some_iff.mp entry
  rw [same]
  exact mem_append_right _ mem_cons_self

theorem Owned.disconnected {instance_ : String} (owned : s.Owned) :
    (s.disconnected key instance_).Owned := by
  obtain ⟨same, _⟩ | ⟨number, link, events, entry, found, _, broadcast, same⟩ :=
    disconnected_cases key instance_
  · rw [same]
    exact owned
  have entry := entry_of_lookup entry
  have mem : key ∈ s.keys := mem_map_of_mem entry
  obtain ⟨_, found', its⟩ := owned.links key number entry
  rw [found, some.injEq] at found'
  subst found'
  have keys : (s.disconnected key instance_).keys = s.keys.filter fun other => other ≠ key := by
    rw [same]
    exact keys_filter
  have entries : ∀ entry ∈ (s.disconnected key instance_).registrations,
      entry ∈ s.registrations := by
    rw [same]
    exact fun entry mem => (mem_filter.mp mem).1
  have link_keys : ∀ other, ((s.disconnected key instance_).links other).map Link.key =
      (s.links other).map Link.key := by
    intro other
    rw [same]
    show (update s.links number _ other).map Link.key = _
    by_cases here : other = number
    · rw [here, update_self, found]
      rfl
    · rw [update_of_ne here]
  have events' : (s.disconnected key instance_).events =
      s.events ++ [(key.1, .sessionOffline key.2)] := by
    rw [same]
    exact broadcast (owned.configured key mem)
  -- no shutdown has emptied the table
  have undrained : ∀ call left, ¬ s.Drains call left := by
    intro call left drains
    rw [owned.drained call left drains] at entry
    cases entry
  have drains : ∀ call left, (s.disconnected key instance_).Drains call left →
      s.Drains call left := by
    rw [same]
    exact fun _ _ drains => drains
  constructor
  · rw [keys]
    exact owned.keys.filter _
  · intro other its_number here
    obtain ⟨its, there, rfl⟩ := owned.links other its_number (entries _ here)
    have kept := link_keys its_number
    rw [there] at kept
    exact map_eq_some_iff.mp kept
  · intro other bound
    have kept := link_keys other
    rw [owned.fresh other (by rw [same] at bound; exact bound)] at kept
    exact map_eq_none_iff.mp kept
  · intro other its_number third its here there same_key
    have kept := link_keys third
    rw [there] at kept
    obtain ⟨before, there, kept⟩ := map_eq_some_iff.mp kept.symm
    exact owned.latest other its_number third before (entries _ here) there (kept.trans same_key)
  · intro other here
    rw [keys] at here
    rw [same]
    exact owned.configured other (mem_filter.mp here).1
  · intro other
    rw [events']
    by_cases here : other = key
    · rw [here, switches_offline]
      refine (owned.alternates key).append ?_
      rw [owned.on key mem]
      rfl
    · rw [switches_offline_of_ne here]
      exact owned.alternates other
  · intro other here
    rw [keys, mem_filter, decide_eq_true_iff] at here
    rw [events', switches_offline_of_ne here.2]
    exact owned.on other here.1
  · intro opened other gone
    rw [events']
    by_cases here : other = key
    · rw [here, switches_offline, isOn_append, owned.on key mem]
      rfl
    · rw [switches_offline_of_ne here]
      refine owned.off (by rw [same] at opened; exact opened) other fun there => gone ?_
      rw [keys, mem_filter, decide_eq_true_iff]
      exact ⟨there, here⟩
  · rw [same]
    exact owned.closed
  · exact fun call left here => absurd (drains call left here) (undrained call left)
  · exact fun call left here => absurd (drains call left here) (undrained call left)
  · exact fun call _ left _ _ here => absurd (drains call left here) (undrained call left)

theorem owned_register (held : s.Held) (owned : s.Owned) (next : s.register call = some s') :
    s'.Owned := by
  obtain ⟨phase, found, next⟩ := bind_eq_some_iff.mp next
  split at next
  · rename_i record
    injection next with next
    rw [← next]
    split
    · exact owned.stands rfl (fun _ => rfl) rfl (fun _ => rfl) (fun _ known => known)
        (fun shut => shut) (fun _ known => .inl known) fun _ left drains => ⟨left, drains, .refl left⟩
    · rename_i opened
      have opened : s.closed = false := Bool.eq_false_iff.mpr opened
      have free : record.key ∉ s.keys := held.free call _ record found rfl rfl
      have known := held.configured call _ record found rfl
      -- while the hub is open, nothing is shut down
      have running : ∀ call, ¬ (s.shutdowns call).isSome := by
        intro call shut
        rw [owned.closed call shut] at opened
        cases opened
      have undrained : ∀ call left, ¬ s.Drains call left := by
        rintro call left ⟨stopped, drains⟩
        exact running call (by rw [drains]; rfl)
      have entries : ∀ entry, entry ∈ (s.enter record).registrations →
          entry ∈ s.registrations ∨ entry = (record.key, s.next) := by
        intro entry here
        obtain here | here := mem_append.mp here
        · exact .inl (mem_filter.mp here).1
        · exact .inr (mem_singleton.mp here)
      have keys : (s.enter record).keys = s.keys ++ [record.key] := by
        rw [keys_enter, filter_eq_self.mpr]
        intro key here
        rw [decide_eq_true_iff]
        exact fun same => free (same ▸ here)
      have new : (s.enter record).links s.next =
          some ⟨record.key, record.instance_, true, .running, false, 0⟩ := update_self ..
      have old : ∀ number, number ≠ s.next → (s.enter record).links number = s.links number :=
        fun number ne => update_of_ne ne ..
      have bound : ∀ number link, s.links number = some link → number < s.next := by
        intro number link there
        by_contra out
        rw [owned.fresh number (by omega)] at there
        cases there
      suffices (s.enter record).Owned from
        this.stands rfl (fun _ => rfl) rfl (fun _ => rfl) (fun _ known => known) (fun shut => shut)
          (fun _ known => .inl known) fun _ left drains => ⟨left, drains, .refl left⟩
      constructor
      · rw [keys, nodup_append]
        refine ⟨owned.keys, nodup_singleton _, ?_⟩
        intro key here other there same
        rw [mem_singleton] at there
        exact free (there ▸ same ▸ here)
      · intro key number here
        obtain here | same := entries _ here
        · obtain ⟨link, there, its⟩ := owned.links key number here
          have ne : number ≠ s.next := by
            have := bound number link there
            omega
          exact ⟨link, (old number ne).trans there, its⟩
        · injection same with same_key same_number
          rw [same_key, same_number]
          exact ⟨_, new, rfl⟩
      · intro number above
        have above : s.next + 1 ≤ number := above
        rw [old number (by omega)]
        exact owned.fresh number (by omega)
      · intro key number other link here there same
        by_cases last : other = s.next
        · subst last
          rw [new] at there
          cases there
          have same : record.key = key := same
          obtain here | same_entry := entries _ here
          · exact absurd (by rw [same]; exact mem_map_of_mem here) free
          · injection same_entry with _ same_number
            omega
        · rw [old other last] at there
          obtain here | same_entry := entries _ here
          · exact owned.latest key number other link here there same
          · injection same_entry with _ same_number
            have := bound other link there
            omega
      · intro key here
        rw [keys, mem_append, mem_singleton] at here
        obtain here | rfl := here
        · exact owned.configured key here
        · exact known
      · intro key
        show Alternates (switches key (s.events ++ _))
        by_cases same : key = record.key
        · rw [same, switches_announcements]
          refine (owned.alternates _).append ?_
          rw [owned.off opened _ free]
          rfl
        · rw [switches_announcements_of_ne same]
          exact owned.alternates key
      · intro key here
        show isOn (switches key (s.events ++ _)) = true
        rw [keys, mem_append, mem_singleton] at here
        by_cases same : key = record.key
        · rw [same, switches_announcements, isOn_append, owned.off opened _ free]
          rfl
        · rw [switches_announcements_of_ne same]
          exact owned.on key (here.resolve_right same)
      · intro _ key gone
        show isOn (switches key (s.events ++ _)) = false
        rw [keys, mem_append, mem_singleton, not_or] at gone
        rw [switches_announcements_of_ne gone.2]
        exact owned.off opened key gone.1
      · exact fun call shut => absurd shut (running call)
      · exact fun call left drains => absurd drains (undrained call left)
      · exact fun call left drains => absurd drains (undrained call left)
      · exact fun call _ left _ _ drains => absurd drains (undrained call left)
  · cases next

theorem Owned.shuts {phase phase' : Shutdown} (owned : s.Owned)
    (found : s.shutdowns call = some phase)
    (parts : ∀ left' stopped', phase' = .draining left' stopped' →
      ∃ left stopped, phase = .draining left stopped ∧ left'.Sublist left) :
    (s.setShutdown call phase').Owned := by
  refine owned.stands rfl (fun _ => rfl) rfl (fun _ => rfl) (fun _ known => known)
    (fun shut => shut) (fun other _ => .inr (owned.closed call (by rw [found]; rfl))) ?_
  rintro other left' ⟨stopped', here⟩
  obtain ⟨rfl, new⟩ | ⟨-, old⟩ := of_update_some here
  · obtain ⟨left, stopped, rfl, part⟩ := parts left' stopped' new.symm
    exact ⟨left, ⟨stopped, found⟩, part⟩
  · exact ⟨left', ⟨stopped', old⟩, .refl left'⟩

theorem owned_shutdown (owned : s.Owned) (next : s.shutdown call = some s') : s'.Owned := by
  simp only [shutdown] at next
  split at next
  · cases next
    refine owned.stands rfl (fun _ => rfl) rfl (fun _ => rfl) (fun _ known => known) (fun _ => rfl)
      (fun _ _ => .inr rfl) ?_
    rintro other left ⟨stopped, here⟩
    obtain ⟨-, new⟩ | ⟨-, old⟩ := of_update_some here
    · cases new
    · exact ⟨left, ⟨stopped, old⟩, .refl left⟩
  · cases next

theorem owned_drain {order : List (Key × Nat)} (owned : s.Owned)
    (next : s.drain call order = some s') : s'.Owned := by
  obtain ⟨phase, found, next⟩ := bind_eq_some_iff.mp next
  split at next
  · split at next
    · rename_i any
      cases next
      have shut : s.closed = true := owned.closed call (by rw [found]; rfl)
      have any_keys : (order.map Prod.fst).Perm s.keys := any.map _
      have known : ∀ other left, Drains { s.setShutdown call (.draining order false) with
          registrations := [] } other left → other = call ∧ left = order ∨ s.Drains other left := by
        rintro other left ⟨stopped, here⟩
        obtain ⟨same, new⟩ | ⟨-, old⟩ := of_update_some here
        · cases new
          exact .inl ⟨same, rfl⟩
        · exact .inr ⟨stopped, old⟩
      -- when another one has emptied the table, there is nothing left for this one
      have empty : ∀ other left, s.Drains other left → order = [] := by
        intro other left drains
        rw [owned.drained other left drains] at any
        exact any.eq_nil
      constructor
      · exact .nil
      · exact nofun
      · exact owned.fresh
      · exact nofun
      · exact nofun
      · exact owned.alternates
      · exact nofun
      · intro opened
        have opened : s.closed = false := opened
        rw [shut] at opened
        cases opened
      · exact fun _ _ => shut
      · exact fun _ _ _ => rfl
      · intro other left here
        obtain ⟨_, rfl⟩ | before := known other left here
        · refine ⟨any_keys.nodup_iff.mpr owned.keys, fun key mem => ?_⟩
          have mem := any_keys.mem_iff.mp mem
          exact ⟨owned.on key mem, owned.configured key mem⟩
        · exact owned.left other left before
      · intro other third left left' key here here' mem mem'
        obtain ⟨rfl, rfl⟩ | before := known other left here
        · obtain ⟨rfl, _⟩ | before' := known third left' here'
          · rfl
          · rw [empty third left' before'] at mem
            cases mem
        · obtain ⟨rfl, rfl⟩ | before' := known third left' here'
          · rw [empty other left before] at mem'
            cases mem'
          · exact owned.apart other third left left' key before before' mem mem'
    · cases next
  · cases next

theorem owned_announce (owned : s.Owned) (next : s.announce call = some s') : s'.Owned := by
  obtain ⟨phase, found, next⟩ := bind_eq_some_iff.mp next
  split at next
  · rename_i entry left
    have drains : s.Drains call (entry :: left) := ⟨true, found⟩
    obtain ⟨distinct, lit⟩ := owned.left call _ drains
    obtain ⟨on, known⟩ := lit entry.1 (by simp)
    rw [map_cons, nodup_cons] at distinct
    have empty := owned.drained call _ drains
    have rest : (s.setShutdown call (.draining left false)).Owned := by
      refine owned.shuts found ?_
      rintro _ _ same
      cases same
      exact ⟨_, _, rfl, sublist_cons_self ..⟩
    have heads : ∀ other its, (s.setShutdown call (.draining left false)).Drains other its →
        entry.1 ∉ its.map Prod.fst := by
      rintro other its ⟨stopped, here⟩ mem
      obtain ⟨-, new⟩ | ⟨ne, old⟩ := of_update_some here
      · cases new
        exact distinct.1 mem
      · exact ne (owned.apart other call its _ entry.1 ⟨stopped, old⟩ drains mem (by simp))
    have known' : ((s.setShutdown call (.draining left false)).backends entry.1.1).isSome := known
    injection next with next
    rw [← next, if_pos known']
    have events : ∀ key, key ≠ entry.1 →
        switches key (s.events ++ [(entry.1.1, .sessionOffline entry.1.2)]) =
          switches key s.events := fun key ne => switches_offline_of_ne ne
    refine { rest with alternates := ?_, on := ?_, off := ?_, left := ?_ }
    · intro key
      show Alternates (switches key (s.events ++ [(entry.1.1, .sessionOffline entry.1.2)]))
      by_cases same : key = entry.1
      · rw [same, switches_offline]
        refine (owned.alternates _).append ?_
        rw [on]
        rfl
      · rw [events key same]
        exact owned.alternates key
    · intro key mem
      have mem : key ∈ s.keys := mem
      rw [Hub.keys, empty] at mem
      cases mem
    · intro opened
      have opened : s.closed = false := opened
      rw [owned.closed call (by rw [found]; rfl)] at opened
      cases opened
    · intro other its here
      obtain ⟨distinct, lit⟩ := rest.left other its here
      refine ⟨distinct, fun key mem => ?_⟩
      show isOn (switches key (s.events ++ [(entry.1.1, .sessionOffline entry.1.2)])) = true ∧ _
      rw [events key fun same => heads other its here (same ▸ mem)]
      exact lit key mem
  · cases next

variable {fromValue : Json → Except String Registration} {step : Step}

theorem Owned.calls (owned : s.Owned) {accepts : Nat → Option Accept} {pending : Key → Bool} :
    Owned { s with accepts := accepts, pending := pending } :=
  owned.stands rfl (fun _ => rfl) rfl (fun _ => rfl) (fun _ known => known) (fun shut => shut)
    (fun _ known => .inl known) fun _ left drains => ⟨left, drains, .refl left⟩

theorem owned_step (held : s.Held) (owned : s.Owned) (next : s.step fromValue step = some s') :
    s'.Owned := by
  cases step with
  | configure agent root =>
    cases next
    refine owned.stands rfl (fun _ => rfl) rfl (fun _ => rfl) ?_ (fun shut => shut)
      (fun _ known => .inl known) fun _ left drains => ⟨left, drains, .refl left⟩
    intro other known
    by_cases same : other = agent
    · simp [configure, same]
    · simpa [configure, update_of_ne same] using known
  -- Until it registers, a call changes nothing but its own phase.
  | accept call frame =>
    simp only [Hub.step, accept] at next
    split at next
    · injection next with next
      rw [← next]
      split
      · exact owned.calls
      · exact owned.calls
      · split
        · exact owned.calls
        · split
          · exact owned.calls
          · exact owned.calls
    · cases next
  | inspect call =>
    obtain ⟨phase, found, next⟩ := bind_eq_some_iff.mp next
    split at next
    · cases next
      exact owned.calls
    · cases next
  | check call =>
    obtain ⟨phase, found, next⟩ := bind_eq_some_iff.mp next
    split at next
    · cases next
      exact owned.calls
    · cases next
  | acknowledge call =>
    obtain ⟨phase, found, next⟩ := bind_eq_some_iff.mp next
    split at next
    · cases next
      exact owned.calls
    · cases next
  | acknowledgeFails call reason =>
    obtain ⟨phase, found, next⟩ := bind_eq_some_iff.mp next
    split at next
    · cases next
      exact owned.calls
    · cases next
  | register call => exact owned_register held owned next
  | finish call =>
    obtain ⟨phase, found, next⟩ := bind_eq_some_iff.mp next
    split at next
    · cases next
      exact owned.calls
    · cases next
  | cancel call =>
    obtain ⟨phase, found, next⟩ := bind_eq_some_iff.mp next
    split at next
    · cases next
      exact owned.calls
    · cases next
      exact owned.calls
    · cases next
      exact owned.calls
    · cases next
      exact owned.calls
    · cases next
  | forward number =>
    obtain ⟨link, _, next⟩ := bind_eq_some_iff.mp next
    split at next
    · cases next
      refine owned.stands rfl (fun _ => rfl) rfl ?_ (fun _ known => known) (fun shut => shut)
        (fun _ known => .inl known) fun _ left drains => ⟨left, drains, .refl left⟩
      intro key
      exact switches_append.trans (append_nil _)
    · cases next
  | readerEnds number =>
    obtain ⟨link, found, next⟩ := bind_eq_some_iff.mp next
    split at next
    · cases next
      exact owned.turns found rfl
    · cases next
  -- The reader has stopped, and what it reports is that the link is down.
  | readerReports number =>
    obtain ⟨link, found, next⟩ := bind_eq_some_iff.mp next
    split at next
    · cases next
      have stopped : (s.setLink number { link with reader := .stopped }).Owned :=
        owned.turns found rfl
      exact stopped.disconnected
    · cases next
  | readerStops number =>
    obtain ⟨link, found, next⟩ := bind_eq_some_iff.mp next
    split at next
    · cases next
      exact owned.turns found rfl
    · cases next
  | poison number =>
    obtain ⟨link, found, rfl⟩ := map_eq_some_iff.mp next
    exact owned.turns found rfl
  | poisonReports number =>
    obtain ⟨link, found, next⟩ := bind_eq_some_iff.mp next
    split at next
    · cases next
      have reported : (s.setLink number { link with reports := link.reports - 1 }).Owned :=
        owned.turns found rfl
      exact reported.disconnected
    · cases next
  | dropped number =>
    obtain ⟨link, found, next⟩ := bind_eq_some_iff.mp next
    split at next
    · cases next
    · cases next
      exact owned.turns found rfl
  | shutdown call => exact owned_shutdown owned next
  | drain call order => exact owned_drain owned next
  | stop call =>
    obtain ⟨phase, found, next⟩ := bind_eq_some_iff.mp next
    split at next
    · obtain ⟨link, there, rfl⟩ := map_eq_some_iff.mp next
      have shut : (s.setLink _ { link with online := false, aborted := true }).Owned :=
        owned.turns there rfl
      refine shut.shuts found ?_
      rintro _ _ same
      cases same
      exact ⟨_, _, rfl, .refl _⟩
    · cases next
  | announce call => exact owned_announce owned next
  | abandon call =>
    obtain ⟨phase, found, next⟩ := bind_eq_some_iff.mp next
    split at next
    · cases next
      exact owned.shuts found (by simp)
    · cases next
      refine owned.shuts found ?_
      rintro _ _ same
      cases same
      exact ⟨_, _, rfl, nil_sublist _⟩
    · cases next

theorem owned_of_reachable {allowed : Hub → Step → Prop}
    (reachable : (system fromValue).Reachable allowed s) : s.Owned :=
  reachable.invariant Owned owned_start fun before _ owned next =>
    owned_step (held_of_reachable before) owned next

end Hub

end Agentix.Bridge
