import Agentix.Bridge.Owners
import Agentix.Bridge.Writers

/-! # Registrations of a bridge

A session has one owner, and reports take out no other connection as long as none comes after its
session has registered again with the same instance.
-/

namespace Agentix.Bridge

open Lib List Option
open Function (update)

namespace Hub

/-- The steps of `accept`. -/
def Step.accepting : Step → Bool
  | .accept .. | .inspect _ | .check _ | .acknowledge _ | .acknowledgeFails .. | .register _
  | .finish _ | .cancel _ => true
  | _ => false

/-- The connection whose end a step reports. -/
def Step.reporter : Step → Option Nat
  | .readerReports number | .poisonReports number => some number
  | _ => none

/-- Between any two steps. -/
structure OneOwner (s : Hub) : Prop where
  single : s.keys.Nodup
  alternates : ∀ key, Alternates (switches key s.events)
  present : s.closed = false → ∀ key, key ∈ s.keys ↔ isOn (switches key s.events) = true
  drained : ∀ call left, s.Drains call left → s.registrations = []

/-- Entries stay, and the new ones are about sessions without an entry. -/
def Adds (s s' : Hub) : Prop :=
  ∃ new, s'.registrations = s.registrations ++ new ∧ ∀ entry ∈ new, entry.1 ∉ s.keys

/-- A report takes out and marks no connection but the reporter. -/
structure OwnReport (number : Nat) (s s' : Hub) : Prop where
  entries : ∀ entry ∈ s.registrations, entry ∉ s'.registrations → entry.2 = number
  links : ∀ other, other ≠ number → s'.links other = s.links other

/-- Since the reporter was registered, its session has not been registered with the same instance. -/
def Timely (number : Nat) (s : Hub) : Prop :=
  ∀ link, s.links number = some link → ∀ later link', (link.key, later) ∈ s.registrations →
    s.links later = some link' → link'.instance_ = link.instance_ → later ≤ number

variable {s s' : Hub} {call number : Nat} {key : Key} {link : Link}
  {fromValue : Json → Except String Registration} {step : Step}

theorem Adds.refl (same : s'.registrations = s.registrations) : s.Adds s' :=
  ⟨[], by rw [same, append_nil], nofun⟩

theorem adds_register (held : s.Held) (next : s.register call = some s') : s.Adds s' := by
  obtain ⟨phase, found, next⟩ := bind_eq_some_iff.mp next
  split at next
  · rename_i record
    injection next with next
    rw [← next]
    split
    · exact .refl rfl
    · have free : record.key ∉ s.keys := held.free call _ record found rfl rfl
      refine ⟨[(record.key, s.next)], ?_, ?_⟩
      · show insert record.key s.next s.registrations = _
        rw [insert, filter_eq_self.mpr]
        intro entry here
        rw [decide_eq_true_iff]
        intro same
        exact free (same ▸ mem_map_of_mem here)
      · intro entry here
        rw [mem_singleton.mp here]
        exact free
  · cases next

theorem adds_accepting (held : s.Held) (accepting : step.accepting = true)
    (next : s.step fromValue step = some s') : s.Adds s' := by
  cases step with
  | accept call frame =>
    simp only [Hub.step, accept] at next
    split at next
    · injection next with next
      rw [← next]
      split
      · exact .refl rfl
      · exact .refl rfl
      · split
        · exact .refl rfl
        · split
          · exact .refl rfl
          · exact .refl rfl
    · cases next
  | inspect call =>
    obtain ⟨phase, found, next⟩ := bind_eq_some_iff.mp next
    split at next <;> cases next
    exact .refl rfl
  | check call =>
    obtain ⟨phase, found, next⟩ := bind_eq_some_iff.mp next
    split at next <;> cases next
    exact .refl rfl
  | acknowledge call =>
    obtain ⟨phase, found, next⟩ := bind_eq_some_iff.mp next
    split at next <;> cases next
    exact .refl rfl
  | acknowledgeFails call reason =>
    obtain ⟨phase, found, next⟩ := bind_eq_some_iff.mp next
    split at next <;> cases next
    exact .refl rfl
  | register call => exact adds_register held next
  | finish call =>
    obtain ⟨phase, found, next⟩ := bind_eq_some_iff.mp next
    split at next <;> cases next
    exact .refl rfl
  | cancel call =>
    obtain ⟨phase, found, next⟩ := bind_eq_some_iff.mp next
    split at next <;> cases next
    all_goals exact .refl rfl
  | _ => cases accepting

/-- A report of a connection takes the entry of its session out when the instance is the same. -/
theorem report_cases (reports : step.reporter = some number)
    (next : s.step fromValue step = some s') :
    ∃ link link', s.links number = some link ∧ link'.key = link.key ∧
      link'.instance_ = link.instance_ ∧
        s' = (s.setLink number link').disconnected link.key link.instance_ := by
  cases step with
  | readerReports _ =>
    cases reports
    obtain ⟨link, found, next⟩ := bind_eq_some_iff.mp next
    split at next <;> cases next
    exact ⟨link, { link with reader := .stopped }, found, rfl, rfl, rfl⟩
  | poisonReports _ =>
    cases reports
    obtain ⟨link, found, next⟩ := bind_eq_some_iff.mp next
    split at next <;> cases next
    exact ⟨link, { link with reports := link.reports - 1 }, found, rfl, rfl, rfl⟩
  | _ => cases reports

theorem Owned.entry_unique {one other : Nat} (owned : s.Owned) (first : (key, one) ∈ s.registrations)
    (second : (key, other) ∈ s.registrations) : one = other := by
  have same := inj_on_of_nodup_map owned.keys first second rfl
  injection same

theorem Owned.lookup (owned : s.Owned) (entry : (key, number) ∈ s.registrations) :
    s.registrations.lookup key = some number := by
  obtain ⟨other, found⟩ := isSome_iff_exists.mp (owns_iff.mpr (mem_map_of_mem entry))
  rw [found, owned.entry_unique entry (entry_of_lookup found)]

theorem report_iff (owned : s.Owned) (reports : step.reporter = some number)
    (next : s.step fromValue step = some s') : OwnReport number s s' ↔ s.Timely number := by
  obtain ⟨link, link', found, _, same_instance, rfl⟩ := report_cases reports next
  have marked : (s.setLink number link').links number = some link' := Function.update_self ..
  have unmarked : ∀ other, other ≠ number → (s.setLink number link').links other = s.links other :=
    fun other ne => Function.update_of_ne ne ..
  obtain ⟨same, unlike⟩ | ⟨last, its, events, looked, there, shared, _, same⟩ :=
    disconnected_cases (s := s.setLink number link') link.key link.instance_
  · -- nothing is taken out, for no entry of the session has the instance
    rw [same]
    refine ⟨fun _ => ?_, fun _ => ⟨fun _ mem gone => absurd mem gone, unmarked⟩⟩
    intro known here later later_link entry there alike
    rw [found, some.injEq] at here
    subst here
    have entry := owned.lookup entry
    by_cases itself : later = number
    · omega
    · exact absurd alike (unlike later later_link entry ((unmarked later itself).trans there))
  · have entry : (link.key, last) ∈ s.registrations := entry_of_lookup looked
    rw [same]
    constructor
    · intro own known here later later_link later_entry _ _
      rw [found, some.injEq] at here
      subst here
      rw [owned.entry_unique later_entry entry]
      apply Nat.le_of_eq
      refine own.entries (link.key, last) entry fun mem => ?_
      simpa using (mem_filter.mp mem).2
    · intro timely
      have itself : last = number := by
        by_contra ne
        rw [unmarked last ne] at there
        have early := timely link found last its entry there shared
        have late := owned.latest link.key last number link entry found rfl
        omega
      subst itself
      constructor
      · intro other mem gone
        have mine : other.1 = link.key := by
          by_contra ne
          exact gone (mem_filter.mpr ⟨mem, by simpa using ne⟩)
        have there : (link.key, other.2) ∈ s.registrations := by
          rw [← mine]
          exact mem
        exact owned.entry_unique there entry
      · intro other ne
        exact (Function.update_of_ne ne ..).trans (unmarked other ne)

/-- In every run a session has one owner, and the two kinds of events alternate; accepting replaces
nothing.  A report of a connection takes out that connection alone if and only if its session has not
been registered again with the same instance. -/
theorem sessions_have_one_owner (fromValue : Json → Except String Registration) (s : Hub)
    (reachable : (system fromValue).Reachable System.always s) :
    s.OneOwner ∧
    (∀ step s', step.accepting = true → s.step fromValue step = some s' → s.Adds s') ∧
    ∀ step number s', step.reporter = some number → s.step fromValue step = some s' →
      (OwnReport number s s' ↔ s.Timely number) := by
  have held := held_of_reachable reachable
  have owned := owned_of_reachable reachable
  refine ⟨?_, fun _ _ => adds_accepting held, fun _ _ _ => report_iff owned⟩
  refine ⟨owned.keys, owned.alternates, fun opened key => ⟨owned.on key, fun on => ?_⟩,
    owned.drained⟩
  by_contra gone
  rw [owned.off opened key gone] at on
  cases on

/-- A registration of one session. -/
def contract (_ : Json) : Except String Registration :=
  .ok ⟨"pi", "instance", "s1", "/sessions/s1", "instance", "s1", none, none⟩

def frame : Json :=
  .object [("method", .string "register"), ("params", .object [("version", .number [50])])]

def registers (call : Nat) : List Step :=
  [.accept call frame, .check call, .acknowledge call, .register call, .finish call]

def leaves : List Step :=
  [.configure "pi" "/sessions"] ++ registers 0 ++ [.readerEnds 0, .readerReports 0]

/-- The peer registers again, and a request that was still writing to it fails. -/
def reconnects : List Step := leaves ++ registers 1 ++ [.poison 0]

theorem session_comes_and_goes : ∃ s, (system contract).Reachable System.always s ∧ s.OneOwner ∧
    switches ("pi", "s1") s.events = [true, false] := by
  have events : (leaves.foldlM (step contract) start).map
      (fun s => switches ("pi", "s1") s.events) = some [true, false] := by decide
  obtain ⟨s, ran, events⟩ := Option.map_eq_some_iff.mp events
  have reachable := System.reachable_of_foldlM _ ran
  exact ⟨s, reachable, (sessions_have_one_owner contract s reachable).1, events⟩

/-- The report of the old connection takes the new one out. -/
theorem reconnected_session_is_removed : ∃ s s', (system contract).Reachable System.always s ∧
    s.step contract (.poisonReports 0) = some s' ∧ s.registrations = [(("pi", "s1"), 1)] ∧
      s'.registrations = [] ∧ ¬ OwnReport 0 s s' := by
  have before : (reconnects.foldlM (step contract) start).map Hub.registrations =
      some [(("pi", "s1"), 1)] := by decide
  have after : ((reconnects.foldlM (step contract) start).bind fun s =>
      (s.step contract (.poisonReports 0)).map Hub.registrations) = some [] := by decide
  obtain ⟨s, ran, before⟩ := Option.map_eq_some_iff.mp before
  rw [ran] at after
  obtain ⟨s', next, after⟩ := Option.map_eq_some_iff.mp after
  refine ⟨s, s', System.reachable_of_foldlM _ ran, next, before, after, fun own => ?_⟩
  have same := own.entries (("pi", "s1"), 1) (by simp [before]) (by simp [after])
  cases same

end Hub

end Agentix.Bridge

/-! # Requests over a bridge

Results are never mistaken, and frames stay whole as long as no request gets the writer between the
end of an unfinished one and the drop of its guard.
-/

namespace Agentix.Bridge

open Lib

namespace ConnectionState

/-- What results say holds in every run.  A response leaves the other requests as they are, and does
nothing when its request does not wait.  Frames stay whole in every run that lets no request get the
writer while another one has given up its frame midway and is still online. -/
theorem frames_stay_whole (toVec : String → String → Json → Except String (List UInt8))
    (s : ConnectionState) :
    ((system toVec).Reachable System.always s → s.Answered ∧
      ∀ id answer s', s.step toVec (.response id answer) = some s' →
        s'.requests = s.requests ∧ s'.written = s.written ∧
          (∀ other, other ≠ id → s'.replies.slot other = s.replies.slot other) ∧
            (s.replies.pending id = false → s'.replies = s.replies)) ∧
    ((system toVec).Reachable Undisturbed s → s.Whole) := by
  constructor
  · intro reachable
    refine ⟨(sound_of_reachable reachable).answered, ?_⟩
    intro id answer s' next
    simp only [ConnectionState.step, response] at next
    split at next
    · cases next
      refine ⟨rfl, rfl, fun other differs => Replies.answer_slot_of_ne differs, fun gone => ?_⟩
      simp [Replies.answer, gone]
    · cases next
  · exact fun reachable => (alone_of_reachable reachable).whole

/-- A request as a line of text. -/
def line (id method : String) (_ : Json) : Except String (List UInt8) :=
  .ok (("\x7b\"id\":\"" ++ id ++ "\",\"method\":\"" ++ method ++
    "\",\"params\":null\x7d").toList.map fun character => UInt8.ofNat character.toNat)

/-- A request gets the writer and writes a piece. -/
def begins (id method : String) : List Step :=
  [.call id method .null, .register id, .encode id, .acquire id, .write id 1]

theorem reachable_begins {s : ConnectionState}
    (ran : (begins "a" "interrupt").foldlM (step line) start = some s) :
    (system line).Reachable Undisturbed s := by
  simp only [begins, List.foldlM_cons, List.foldlM_nil, Option.bind_eq_bind,
    Option.bind_eq_some_iff] at ran
  obtain ⟨called, first, registered, second, encoded, third, acquired, fourth, wrote, fifth,
    same⟩ := ran
  cases same
  refine .step (.step (.step (.step (.step .start ?_ first) ?_ second) ?_ third) ?_ fourth) ?_ fifth
  · trivial
  · trivial
  · trivial
  · -- no other request is known
    cases first
    cases second
    cases third
    intro other request result found phase
    by_cases same : other = "a"
    · subst same
      cases found
      cases phase
    · rfl
  · trivial

/-- The piece of a frame stands alone, and its request has not returned. -/
theorem piece_stands_alone : ∃ s : ConnectionState, s.written = [("a", [123])] ∧ s.Whole := by
  cases ran : (begins "a" "interrupt").foldlM (step line) start with
  | none => cases ran
  | some s =>
    refine ⟨s, ?_, (frames_stay_whole line s).2 (reachable_begins ran)⟩
    cases ran
    rfl

/-- A request is cancelled midway; another one gets the writer before its guard is dropped. -/
def interrupted : List Step :=
  begins "a" "interrupt" ++ [.call "b" "history" .null, .register "b", .encode "b", .cancel "a",
    .acquire "b", .write "b" 1]

theorem frame_is_interrupted :
    ∃ s, (system line).Reachable System.always s ∧ s.written = [("a", [123]), ("b", [123])] ∧
      ¬ s.Whole := by
  have written : (interrupted.foldlM (step line) start).map ConnectionState.written =
      some [("a", [123]), ("b", [123])] := rfl
  obtain ⟨s, ran, written⟩ := Option.map_eq_some_iff.mp written
  refine ⟨s, System.reachable_of_foldlM interrupted ran, written, fun whole => ?_⟩
  have framed : ((interrupted.foldlM (step line) start).bind fun s =>
      (s.requests "a").bind Request.frame) ≠ some [123] := by decide
  rw [ran] at framed
  obtain unsent | ⟨request, found, same⟩ := whole [("a", [123])] "b" [123] [] written "a" (by decide)
  · cases unsent
  · apply framed
    show (s.requests "a").bind Request.frame = some [123]
    rw [found]
    exact same

end ConnectionState

end Agentix.Bridge
