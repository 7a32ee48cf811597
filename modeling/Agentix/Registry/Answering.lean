import Agentix.Lib.Updates
import Agentix.Registry.Terminal

/-! # Tokens of terminal interactions

A token waits in the table and with the prompt of its session, or one reply has taken it out, or it
has been resolved.
-/

namespace Agentix.Registry.Terminal

open Lib List Option Function

namespace Note

@[simp] def requested : Note → Option Token
  | .interactionRequested request => some request.rpcId
  | .interactionResolved .. | .sessionSwitchFailed .. | .recorded .. | .submitted .. => none

@[simp] def resolved : Note → Option Token
  | .interactionResolved _ token => some token
  | .interactionRequested _ | .sessionSwitchFailed .. | .recorded .. | .submitted .. => none

@[simp] def submission : Note → Option Token
  | .submitted token _ => some token
  | .interactionRequested _ | .interactionResolved .. | .sessionSwitchFailed .. | .recorded .. =>
    none

@[simp] def recordedFor (session : SessionRef) : Note → Option (Option Inspection)
  | .recorded other inspection => if other = session then some inspection else none
  | .interactionRequested _ | .interactionResolved .. | .sessionSwitchFailed .. | .submitted .. =>
    none

end Note

/-- What `record` saw of a session it observes. -/
def recordings (session : SessionRef) (log : List Note) : List (Option Inspection) :=
  log.filterMap (Note.recordedFor session)

def Ordered (log : List Note) : Prop :=
  ∀ before session token after, log = before ++ .interactionResolved session token :: after →
    token ∈ before.filterMap Note.requested

/-- A prompt is announced after two recordings of it in a row. -/
def Announced (log : List Note) : Prop :=
  ∀ before request after, log = before ++ .interactionRequested request :: after →
    ∃ earlier first second,
      recordings request.session before = earlier ++ [some first, some second] ∧
      first.Same second ∧ request =
        State.announcement request.rpcId request.session first request.sessionSwitch

theorem Ordered.snoc {log : List Note} {note : Note} (ordered : Ordered log)
    (known : ∀ token, note.resolved = some token → token ∈ log.filterMap Note.requested) :
    Ordered (log ++ [note]) := by
  intro before session token after split
  obtain ⟨rfl, rfl, rfl⟩ | ⟨after', rfl, shorter⟩ := split_snoc split
  · exact known token rfl
  · exact ordered before session token after' shorter

theorem Announced.snoc {log : List Note} {note : Note} (announced : Announced log)
    (quiet : note.requested = none) : Announced (log ++ [note]) := by
  intro before request after split
  obtain ⟨rfl, rfl, rfl⟩ | ⟨after', rfl, shorter⟩ := split_snoc split
  · cases quiet
  · exact announced before request after' shorter

namespace Phase

/-- The event has not been sent. -/
def isOpen : Phase → Bool
  | .taken | .observed | .targeted | .switching _ | .submitting => true
  | _ => false

/-- The port has not been asked. -/
def isEarly : Phase → Bool
  | .taken | .observed | .targeted | .switching _ => true
  | _ => false

theorem isOpen_of_isEarly {phase : Phase} (early : phase.isEarly = true) : phase.isOpen = true := by
  cases phase <;> simp [isEarly, isOpen] at early ⊢

end Phase

namespace State

structure Sound (s : State) : Prop where
  /-- The tokens of the table are those of the prompts. -/
  tokens : ∀ token session,
    (∃ pending, s.pending token = some pending ∧ pending.session = session) ↔
      ∃ seen, s.seen session = some seen ∧ seen.token = some token
  requested : s.log.filterMap Note.requested = range s.minted
  resolvedOnce : (s.log.filterMap Note.resolved).Nodup
  submittedOnce : (s.log.filterMap Note.submission).Nodup
  below : ∀ token, s.minted ≤ token →
    token ∉ s.log.filterMap Note.resolved ∧ token ∉ s.log.filterMap Note.submission
  waiting : ∀ {token pending}, s.pending token = some pending → token < s.minted ∧
    token ∉ s.log.filterMap Note.resolved ∧ token ∉ s.log.filterMap Note.submission
  taken : ∀ {call known}, s.calls call = some known →
    known.token < s.minted ∧ s.pending known.token = none
  opened : ∀ {call known}, s.calls call = some known → known.phase.isOpen = true →
    known.token ∉ s.log.filterMap Note.resolved
  early : ∀ {call known}, s.calls call = some known → known.phase.isEarly = true →
    known.token ∉ s.log.filterMap Note.submission
  distinct : ∀ {first second one two}, s.calls first = some one → s.calls second = some two →
    one.token = two.token → first = second
  /-- The last recording of a session shows the prompt that was seen. -/
  recent : ∀ {session seen}, s.seen session = some seen →
    ∃ last, (recordings session s.log).getLast? = some (some last) ∧ seen.toInspection.Same last ∧
      (seen.token = none → seen.answered = false → last = seen.toInspection)
  ordered : Ordered s.log
  announced : Announced s.log

variable {s : State} {session : SessionRef} {token : Token} {call : Nat} {known : Call}
  {phase : Phase} {inspection : Inspection} {seen : Seen}

theorem Sound.start : start.Sound := by
  constructor <;> simp [State.start, Ordered, Announced]

theorem Sound.frame {s' : State} (sound : s.Sound) (seen : s'.seen = s.seen)
    (pending : s'.pending = s.pending) (minted : s'.minted = s.minted) (calls : s'.calls = s.calls)
    (log : s'.log = s.log) : s'.Sound := by
  obtain ⟨⟩ := s'
  subst seen pending minted calls log
  exact { sound with }

theorem Sound.clear (sound : s.Sound) (session : SessionRef) : (s.clear session).Sound := by
  unfold State.clear
  cases held : s.seen session with
  -- The session was never seen.
  | none => exact sound
  | some seen =>
    cases its : seen.token with
    -- It was seen without a token, so nothing of it is pending.
    | none =>
      simp only [its]
      have tokens : ∀ token' other,
          (∃ pending, s.pending token' = some pending ∧ pending.session = other) ↔
            ∃ seen, update s.seen session none other = some seen ∧ seen.token = some token' := by
        intro token' other
        rw [sound.tokens]
        constructor
        · rintro ⟨seen', there, same⟩
          have ne : other ≠ session := by
            rintro rfl
            rw [held, some.injEq] at there
            rw [← there, its] at same
            cases same
          exact ⟨seen', by rw [update_of_ne ne, there], same⟩
        · rintro ⟨seen', there, same⟩
          exact ⟨seen', (of_update_none there).2, same⟩
      exact { sound with tokens, recent := fun there => sound.recent (of_update_none there).2 }
    | some token =>
      simp only [its]
      obtain ⟨pending, waits, own⟩ := (sound.tokens token session).mpr ⟨seen, held, its⟩
      obtain ⟨minted, unresolved, unsubmitted⟩ := sound.waiting waits
      -- The token waits, so no call holds it.
      have differs_of_call : ∀ {call known}, s.calls call = some known → known.token ≠ token := by
        rintro call known found rfl
        rw [(sound.taken found).2] at waits
        cases waits
      constructor
      case tokens =>
        intro token' other
        constructor
        · rintro ⟨pending', there, same⟩
          obtain ⟨ne, there⟩ := of_update_none there
          obtain ⟨seen', found, its'⟩ := (sound.tokens token' other).mp ⟨pending', there, same⟩
          have another : other ≠ session := by
            rintro rfl
            rw [held, some.injEq] at found
            rw [← found, its] at its'
            exact ne (some.inj its').symm
          exact ⟨seen', (update_of_ne another _ _).trans found, its'⟩
        · rintro ⟨seen', there, its'⟩
          obtain ⟨another, there⟩ := of_update_none there
          obtain ⟨pending', found, same⟩ := (sound.tokens token' other).mpr ⟨seen', there, its'⟩
          have ne : token' ≠ token := by
            rintro rfl
            rw [waits, some.injEq] at found
            rw [← found, own] at same
            exact another same.symm
          exact ⟨pending', (update_of_ne ne _ _).trans found, same⟩
      case requested => simpa [filterMap_cons] using sound.requested
      case resolvedOnce =>
        have once : (s.log.filterMap Note.resolved ++ [token]).Nodup :=
          nodup_append_comm.mp (nodup_cons.mpr ⟨unresolved, sound.resolvedOnce⟩)
        simpa using once
      case submittedOnce => simpa [filterMap_cons] using sound.submittedOnce
      case below =>
        intro token' unused
        have ne : token' ≠ token := Nat.ne_of_gt (Nat.lt_of_lt_of_le minted unused)
        simpa [ne] using sound.below token' unused
      case waiting =>
        intro token' pending' there
        obtain ⟨ne, there⟩ := of_update_none there
        simpa [ne] using sound.waiting there
      case taken =>
        intro call known found
        obtain ⟨used, absent⟩ := sound.taken found
        exact ⟨used, (update_of_ne (differs_of_call found) _ _).trans absent⟩
      case opened =>
        intro call known found isOpen
        simpa [differs_of_call found] using sound.opened found isOpen
      case early =>
        intro call known found isEarly
        simpa using sound.early found isEarly
      case distinct => exact sound.distinct
      case recent =>
        intro other seen' there
        simpa [recordings] using sound.recent (of_update_none there).2
      case ordered =>
        refine sound.ordered.snoc fun token' same => ?_
        cases same
        rw [sound.requested]
        exact mem_range.mpr minted
      case announced => exact sound.announced.snoc rfl

@[simp] theorem seen_clear (s : State) (session : SessionRef) :
    (s.clear session).seen session = none := by
  unfold State.clear
  cases held : s.seen session with
  | none => exact held
  | some seen => cases its : seen.token <;> simp [its]

theorem Sound.records (sound : s.Sound) (inspection : Option Inspection)
    (again : ∀ seen, s.seen session = some seen →
      ∃ shown, inspection = some shown ∧ seen.toInspection.Same shown ∧
        (seen.token.isSome = true ∨ seen.answered = true)) :
    (s.note (.recorded session inspection)).Sound where
  tokens := sound.tokens
  requested := by simpa [note, filterMap_cons] using sound.requested
  resolvedOnce := by simpa [note, filterMap_cons] using sound.resolvedOnce
  submittedOnce := by simpa [note, filterMap_cons] using sound.submittedOnce
  below := by simpa [note] using sound.below
  waiting := by
    intro token pending waits
    simpa [note] using sound.waiting waits
  taken := sound.taken
  opened := by
    intro call known found isOpen
    simpa [note] using sound.opened found isOpen
  early := by
    intro call known found isEarly
    simpa [note] using sound.early found isEarly
  distinct := sound.distinct
  recent := by
    intro other seen there
    by_cases same : other = session
    · subst same
      obtain ⟨shown, rfl, alike, settled⟩ := again seen there
      refine ⟨shown, by simp [note, recordings], alike, fun unannounced unanswered => ?_⟩
      simp [unannounced, unanswered] at settled
    · simpa [note, recordings, Ne.symm same] using sound.recent there
  ordered := sound.ordered.snoc fun _ same => by cases same
  announced := sound.announced.snoc rfl

theorem Sound.sees (sound : s.Sound)
    (same : ∀ token, (∃ old, s.seen session = some old ∧ old.token = some token) ↔
      seen.token = some token)
    (recent : ∃ last, (recordings session s.log).getLast? = some (some last) ∧
      seen.toInspection.Same last ∧
        (seen.token = none → seen.answered = false → last = seen.toInspection)) :
    Sound { s with seen := update s.seen session (some seen) } := by
  have tokens : ∀ token other,
      (∃ pending, s.pending token = some pending ∧ pending.session = other) ↔
        ∃ seen', update s.seen session (some seen) other = some seen' ∧
          seen'.token = some token := by
    intro token other
    rw [sound.tokens]
    by_cases same_session : other = session
    · subst same_session
      rw [same]
      simp
    · simp [update_of_ne same_session]
  refine { sound with tokens, recent := ?_ }
  intro other seen' there
  by_cases same_session : other = session
  · subst same_session
    obtain rfl : seen = seen' := by simpa using there
    exact recent
  · exact sound.recent ((update_of_ne same_session _ _).symm.trans there)

theorem Sound.announces (sound : s.Sound) (held : s.seen session = some seen)
    (unannounced : seen.token = none) (unanswered : seen.answered = false)
    (alike : seen.toInspection.Same inspection) (observations : Nat) :
    ((s.note (.recorded session (some inspection))).announce session
      { seen with observations }).Sound := by
  obtain ⟨last, recorded, -, first⟩ := sound.recent held
  rw [first unannounced unanswered] at recorded
  obtain ⟨earlier, recorded⟩ : ∃ earlier,
      recordings session s.log = earlier ++ [some seen.toInspection] :=
    ⟨_, (dropLast_append_getLast? _ recorded).symm⟩
  -- Every token in use was minted before, hence the new one is in use nowhere.
  have unused : ∀ {token pending}, s.pending token = some pending → token ≠ s.minted :=
    fun waits => Nat.ne_of_lt (sound.waiting waits).1
  constructor
  case tokens =>
    intro token other
    simp only [announce, note]
    by_cases minted : token = s.minted
    · subst minted
      rw [update_self]
      constructor
      · rintro ⟨pending, same, rfl⟩
        cases same
        exact ⟨_, update_self .., rfl⟩
      · rintro ⟨seen', there, its⟩
        by_cases same : other = session
        · exact ⟨_, rfl, same.symm⟩
        · -- no other prompt has the new token
          rw [update_of_ne same] at there
          obtain ⟨pending, waits, -⟩ := (sound.tokens _ other).mpr ⟨seen', there, its⟩
          exact absurd rfl (unused waits)
    · rw [update_of_ne minted, sound.tokens]
      by_cases same : other = session
      · subst same
        simp [held, unannounced, Ne.symm minted]
      · rw [update_of_ne same]
  case requested =>
    simp [announce, note, announcement, filterMap_cons, sound.requested, range_succ]
  case resolvedOnce =>
    simpa [announce, note, filterMap_cons] using sound.resolvedOnce
  case submittedOnce =>
    simpa [announce, note, filterMap_cons] using sound.submittedOnce
  case below =>
    intro token later
    have later : s.minted ≤ token := Nat.le_of_succ_le later
    simpa [announce, note] using sound.below token later
  case waiting =>
    intro token pending waits
    simp only [announce, note] at waits ⊢
    by_cases minted : token = s.minted
    · subst minted
      simpa using sound.below s.minted (Nat.le_refl _)
    · rw [update_of_ne minted] at waits
      obtain ⟨used, quiet⟩ := sound.waiting waits
      exact ⟨Nat.lt_succ_of_lt used, by simpa using quiet⟩
  case taken =>
    intro call known found
    obtain ⟨used, absent⟩ := sound.taken found
    refine ⟨Nat.lt_succ_of_lt used, ?_⟩
    exact (update_of_ne (Nat.ne_of_lt used) _ _).trans absent
  case opened =>
    intro call known found isOpen
    simpa [announce, note] using sound.opened found isOpen
  case early =>
    intro call known found isEarly
    simpa [announce, note] using sound.early found isEarly
  case distinct => exact sound.distinct
  case recent =>
    intro other seen' there
    simp only [announce, note] at there ⊢
    by_cases same : other = session
    · subst same
      rw [update_self, some.injEq] at there
      subst there
      refine ⟨inspection, ?_, alike, fun none => by cases none⟩
      simp [recordings, filterMap_cons]
    · rw [update_of_ne same] at there
      simpa [recordings, Ne.symm same] using sound.recent there
  case ordered =>
    refine (sound.ordered.snoc fun _ same => ?_).snoc fun _ same => ?_
    · cases same
    · cases same
  case announced =>
    intro before request after split
    obtain ⟨rfl, rfl, same⟩ | ⟨after', rfl, shorter⟩ := split_snoc split
    · cases same
      refine ⟨earlier, seen.toInspection, inspection, ?_, alike, rfl⟩
      simpa [note, recordings, announcement] using congrArg (· ++ [some inspection]) recorded
    · exact (sound.announced.snoc rfl) before request after' shorter

theorem Sound.record (sound : s.Sound) (session : SessionRef) (inspection : Option Inspection) :
    (s.record session inspection).Sound := by
  unfold State.record
  split
  · cases inspection with
    | none => exact (sound.clear session).records none (by simp)
    | some inspection =>
      dsimp only
      cases held : (s.seen session).filter fun seen => seen.toInspection.Same inspection with
      | none =>
        have noted : ((s.clear session).note (.recorded session (some inspection))).Sound :=
          (sound.clear session).records (some inspection) (by simp)
        have shown : inspection.Same inspection := ⟨rfl, rfl, rfl⟩
        refine noted.sees ?_ ⟨inspection, by simp [note, recordings], shown, fun _ _ => rfl⟩
        simp [note]
      | some seen =>
        obtain ⟨held, alike⟩ := filter_eq_some_iff.mp held
        have alike : seen.toInspection.Same inspection := by simpa using alike
        dsimp only
        split
        · rename_i settled
          have settled : seen.token.isSome = true ∨ seen.answered = true := by simpa using settled
          have noted : (s.note (.recorded session (some inspection))).Sound := by
            refine sound.records _ fun seen' there => ⟨inspection, rfl, ?_⟩
            rw [held, some.injEq] at there
            subst there
            exact ⟨alike, settled⟩
          obtain ⟨last, recorded, shown, first⟩ := noted.recent held
          refine noted.sees ?_ ⟨last, recorded, shown, first⟩
          intro token
          simp [note, held]
        · rename_i fresh
          simp only [Bool.or_eq_true, not_or, Bool.not_eq_true, isSome_eq_false_iff,
            isNone_iff_eq_none] at fresh
          exact sound.announces held fresh.1 fresh.2 alike _
  · exact sound

/-- A reply takes a waiting token out of the table and of its prompt. -/
theorem Sound.respond {s' : State} {decision : Option String} (sound : s.Sound)
    (next : s.respond call token decision = some s') : s'.Sound := by
  unfold State.respond at next
  cases free : s.calls call <;> simp only [free, reduceCtorEq] at next
  cases waits : s.pending token with
  | none =>
    simp only [waits, some.injEq] at next
    exact next ▸ sound
  | some pending =>
    obtain ⟨seen, held, its⟩ := (sound.tokens token pending.session).mp ⟨pending, waits, rfl⟩
    simp only [waits, held, some.injEq] at next
    subst next
    obtain ⟨minted, unresolved, unsubmitted⟩ := sound.waiting waits
    -- the calls are the earlier ones, with other tokens, and the new one
    have known_cases : ∀ {other known},
        update s.calls call (some ⟨token, pending, decision, .taken⟩) other = some known →
        (other = call ∧ known = ⟨token, pending, decision, .taken⟩) ∨
          (s.calls other = some known ∧ known.token ≠ token) := by
      intro other known found
      obtain mine | ⟨-, found⟩ := of_update_some found
      · exact .inl mine
      · refine .inr ⟨found, fun its => ?_⟩
        have absent := (sound.taken found).2
        rw [its, waits] at absent
        cases absent
    constructor
    case tokens =>
      intro token' session
      dsimp only
      by_cases mine : token' = token
      · subst mine
        simp only [update_self, reduceCtorEq, false_and, exists_false, false_iff,
          not_exists, not_and]
        intro seen' there other
        by_cases same : session = pending.session
        · rw [same, update_self, some.injEq] at there
          rw [← there] at other
          cases other
        · rw [update_of_ne same] at there
          obtain ⟨pending', waits', own⟩ := (sound.tokens token' session).mpr ⟨seen', there, other⟩
          rw [waits, some.injEq] at waits'
          exact same (waits' ▸ own.symm)
      · rw [update_of_ne mine, sound.tokens]
        by_cases same : session = pending.session
        · subst same
          simp [held, its, Ne.symm mine]
        · rw [update_of_ne same]
    case requested => exact sound.requested
    case resolvedOnce => exact sound.resolvedOnce
    case submittedOnce => exact sound.submittedOnce
    case below => exact sound.below
    case waiting =>
      intro token' pending' there
      exact sound.waiting (of_update_none there).2
    case taken =>
      intro other known found
      obtain ⟨-, rfl⟩ | ⟨found, ne⟩ := known_cases found
      · exact ⟨minted, update_self ..⟩
      · obtain ⟨used, absent⟩ := sound.taken found
        exact ⟨used, (update_of_ne ne _ _).trans absent⟩
    case opened =>
      intro other known found isOpen
      obtain ⟨-, rfl⟩ | ⟨found, -⟩ := known_cases found
      · exact unresolved
      · exact sound.opened found isOpen
    case early =>
      intro other known found isEarly
      obtain ⟨-, rfl⟩ | ⟨found, -⟩ := known_cases found
      · exact unsubmitted
      · exact sound.early found isEarly
    case distinct =>
      intro first second one two isOne isTwo same
      obtain ⟨rfl, rfl⟩ | ⟨before, ne⟩ := known_cases isOne <;>
        obtain ⟨rfl, rfl⟩ | ⟨before', differs'⟩ := known_cases isTwo
      · rfl
      · exact absurd same.symm differs'
      · exact absurd same ne
      · exact sound.distinct before before' same
    case recent =>
      intro session seen' there
      dsimp only at there
      by_cases same : session = pending.session
      · subst same
        rw [update_self, some.injEq] at there
        subst there
        obtain ⟨last, recorded, shown, -⟩ := sound.recent held
        exact ⟨last, recorded, shown, fun _ unanswered => by cases unanswered⟩
      · rw [update_of_ne same] at there
        exact sound.recent there
    case ordered => exact sound.ordered
    case announced => exact sound.announced

section Calls

variable {notes : List Note}

theorem Sound.goes (sound : s.Sound) (found : s.calls call = some known)
    (requested : notes.filterMap Note.requested = [])
    (recorded : ∀ session, recordings session notes = [])
    (resolves : notes.filterMap Note.resolved = [] ∧
        (phase.isOpen = true → known.phase.isOpen = true) ∨
      notes.filterMap Note.resolved = [known.token] ∧ known.phase.isOpen = true ∧
        phase.isOpen = false)
    (submits : notes.filterMap Note.submission = [] ∧
        (phase.isEarly = true → known.phase.isEarly = true) ∨
      notes.filterMap Note.submission = [known.token] ∧ known.phase.isEarly = true ∧
        phase.isEarly = false)
    (ordered : Ordered (s.log ++ notes)) (announced : Announced (s.log ++ notes)) :
    (State.goto { s with log := s.log ++ notes } call known phase).Sound := by
  obtain ⟨used, absent⟩ := sound.taken found
  have others : ∀ {other known'}, update s.calls call (some { known with phase }) other =
      some known' → (other = call ∧ known' = { known with phase }) ∨
        (s.calls other = some known' ∧ known'.token ≠ known.token) := by
    intro other known' there
    obtain mine | ⟨ne, there⟩ := of_update_some there
    · exact .inl mine
    · exact .inr ⟨there, fun alike => ne (sound.distinct there found alike)⟩
  have resolved : ∀ token, token ≠ known.token → (token ∈ (s.log ++ notes).filterMap Note.resolved ↔
      token ∈ s.log.filterMap Note.resolved) := by
    intro token ne
    rw [filterMap_append, mem_append]
    obtain ⟨none, -⟩ | ⟨one, -⟩ := resolves
    · simp [none]
    · simp [one, ne]
  have submitted : ∀ token, token ≠ known.token →
      (token ∈ (s.log ++ notes).filterMap Note.submission ↔
        token ∈ s.log.filterMap Note.submission) := by
    intro token ne
    rw [filterMap_append, mem_append]
    obtain ⟨none, -⟩ | ⟨one, -⟩ := submits
    · simp [none]
    · simp [one, ne]
  -- Only the token of this call is noted, so what the invariant says of the other calls is
  -- read off the facts above.
  constructor
  case tokens => exact sound.tokens
  case requested =>
    show (s.log ++ notes).filterMap Note.requested = range s.minted
    rw [filterMap_append, requested, append_nil, sound.requested]
  case resolvedOnce =>
    show ((s.log ++ notes).filterMap Note.resolved).Nodup
    rw [filterMap_append]
    obtain ⟨none, -⟩ | ⟨one, wasOpen, -⟩ := resolves
    · rw [none, append_nil]
      exact sound.resolvedOnce
    · rw [one]
      exact nodup_append_comm.mp
        (nodup_cons.mpr ⟨sound.opened found wasOpen, sound.resolvedOnce⟩)
  case submittedOnce =>
    show ((s.log ++ notes).filterMap Note.submission).Nodup
    rw [filterMap_append]
    obtain ⟨none, -⟩ | ⟨one, wasEarly, -⟩ := submits
    · rw [none, append_nil]
      exact sound.submittedOnce
    · rw [one]
      exact nodup_append_comm.mp
        (nodup_cons.mpr ⟨sound.early found wasEarly, sound.submittedOnce⟩)
  case below =>
    intro token unused
    have ne : token ≠ known.token := Nat.ne_of_gt (Nat.lt_of_lt_of_le used unused)
    obtain ⟨unresolved, unsubmitted⟩ := sound.below token unused
    exact ⟨mt (resolved token ne).mp unresolved, mt (submitted token ne).mp unsubmitted⟩
  case waiting =>
    intro token pending waits
    have ne : token ≠ known.token := by
      rintro rfl
      have waits : s.pending known.token = some pending := waits
      rw [absent] at waits
      cases waits
    obtain ⟨minted, unresolved, unsubmitted⟩ := sound.waiting waits
    exact ⟨minted, mt (resolved token ne).mp unresolved,
      mt (submitted token ne).mp unsubmitted⟩
  case taken =>
    intro other known' there
    obtain ⟨rfl, rfl⟩ | ⟨there, -⟩ := others there
    · exact ⟨used, absent⟩
    · exact sound.taken there
  case opened =>
    intro other known' there isOpen
    obtain ⟨rfl, rfl⟩ | ⟨there, ne⟩ := others there
    · obtain ⟨none, still⟩ | ⟨-, -, closed⟩ := resolves
      · show known.token ∉ (s.log ++ notes).filterMap Note.resolved
        rw [filterMap_append, none, append_nil]
        exact sound.opened found (still isOpen)
      · rw [isOpen] at closed
        cases closed
    · exact mt (resolved _ ne).mp (sound.opened there isOpen)
  case early =>
    intro other known' there isEarly
    obtain ⟨rfl, rfl⟩ | ⟨there, ne⟩ := others there
    · obtain ⟨none, still⟩ | ⟨-, -, late⟩ := submits
      · show known.token ∉ (s.log ++ notes).filterMap Note.submission
        rw [filterMap_append, none, append_nil]
        exact sound.early found (still isEarly)
      · rw [isEarly] at late
        cases late
    · exact mt (submitted _ ne).mp (sound.early there isEarly)
  case distinct =>
    intro first second one two isOne isTwo same
    obtain ⟨rfl, rfl⟩ | ⟨before, ne⟩ := others isOne <;>
      obtain ⟨rfl, rfl⟩ | ⟨before', differs'⟩ := others isTwo
    · rfl
    · exact absurd same.symm differs'
    · exact absurd same ne
    · exact sound.distinct before before' same
  case recent =>
    intro session seen there
    show ∃ last, (recordings session (s.log ++ notes)).getLast? = some (some last) ∧ _
    rw [recordings, filterMap_append]
    have none := recorded session
    rw [recordings] at none
    rw [none, append_nil]
    exact sound.recent there
  case ordered => exact ordered
  case announced => exact announced

/-- A call waits for its next answer, or is dropped. -/
theorem Sound.goto (sound : s.Sound) (found : s.calls call = some known)
    (opened : phase.isOpen = true → known.phase.isOpen = true)
    (early : phase.isEarly = true → known.phase.isEarly = true) :
    (s.goto call known phase).Sound := by
  have goes : (State.goto { s with log := s.log ++ [] } call known phase).Sound :=
    sound.goes found rfl (fun _ => rfl) (.inl ⟨rfl, opened⟩) (.inl ⟨rfl, early⟩)
      (by simpa using sound.ordered) (by simpa using sound.announced)
  simpa using goes

theorem Sound.finish (sound : s.Sound) (found : s.calls call = some known)
    (opened : known.phase.isOpen = true) (result : Result) :
    (s.finish call known result).Sound := by
  have minted := (sound.taken found).1
  have goes : ∀ phase, phase.isOpen = false → phase.isEarly = false →
      ((s.note (.interactionResolved known.pending.session known.token)).goto call known
        phase).Sound := by
    intro phase closed late
    refine sound.goes found rfl (fun _ => rfl) (.inr ⟨rfl, opened, closed⟩)
      (.inl ⟨rfl, fun early => ?_⟩) (sound.ordered.snoc fun token same => ?_)
      (sound.announced.snoc rfl)
    · rw [late] at early
      cases early
    · cases same
      rw [sound.requested]
      exact mem_range.mpr minted
  unfold State.finish
  dsimp only
  split
  · exact goes _ rfl rfl
  · exact goes _ rfl rfl

theorem Sound.submit (sound : s.Sound) (found : s.calls call = some known)
    (early : known.phase.isEarly = true) (selection : TerminalInteractionResponse) :
    (s.submit call known selection).Sound :=
  sound.goes found rfl (fun _ => rfl) (.inl ⟨rfl, fun _ => Phase.isOpen_of_isEarly early⟩)
    (.inr ⟨rfl, early, rfl⟩) (sound.ordered.snoc fun _ same => by cases same)
    (sound.announced.snoc rfl)

theorem Sound.access {s' : State} {readOnly : Bool} (sound : s.Sound)
    (next : s.access call readOnly = some s') : s'.Sound := by
  simp only [State.access, bind_eq_some_iff] at next
  obtain ⟨known, found, next⟩ := next
  cases phase : known.phase <;> simp only [phase, reduceCtorEq, some.injEq] at next
  have early : known.phase.isEarly = true := by rw [phase]; rfl
  have opened := Phase.isOpen_of_isEarly early
  subst next
  split
  · exact sound.finish found opened _
  · split
    · exact sound.finish found opened _
    · split
      · exact sound.finish found opened _
      · split
        · exact sound.finish found opened _
        · split
          · exact sound.goto found (fun _ => opened) fun _ => early
          · exact sound.submit found early _

theorem Sound.step {s' : State} {step : Step} (sound : s.Sound) (next : s.step step = some s') :
    s'.Sound := by
  cases step with
  -- What is observed and where a switch stands is not part of the invariant.
  | observe session =>
    cases next
    exact sound.frame rfl rfl rfl rfl rfl
  | unobserve session =>
    cases next
    have unobserved : Sound { s with
        observed := update s.observed session false
        switches := update s.switches session none } := sound.frame rfl rfl rfl rfl rfl
    exact unobserved.clear session
  | beginSwitch session clientId =>
    cases next
    exact sound.frame rfl rfl rfl rfl rfl
  | failSwitch session =>
    cases next
    exact sound.frame rfl rfl rfl rfl rfl
  | backendEvent session event =>
    cases next
    have failed : (s.failSwitch session).Sound := sound.frame rfl rfl rfl rfl rfl
    cases event with
    | sessionSwitchStarted clientId => exact sound.frame rfl rfl rfl rfl rfl
    | sessionSwitchFailed => exact failed.clear session
    | sessionExited => exact failed.clear session
    -- A new request makes the shown one stale.
    | interactionRequested => exact sound.clear session
    | other => exact sound
  | routed session =>
    cases next
    exact sound.clear session
  | record session inspection =>
    cases next
    exact sound.record session inspection
  | respond call token decision => exact sound.respond next
  | check call =>
    simp only [State.step, check, bind_eq_some_iff] at next
    obtain ⟨known, found, next⟩ := next
    cases phase : known.phase <;> simp only [phase, reduceCtorEq, some.injEq] at next
    subst next
    split
    · exact sound.goto found (fun _ => by rw [phase]; rfl) fun _ => by rw [phase]; rfl
    · exact sound.finish found (by rw [phase]; rfl) _
  | target call current =>
    simp only [State.step, target, bind_eq_some_iff] at next
    obtain ⟨known, found, next⟩ := next
    cases phase : known.phase <;> simp only [phase, reduceCtorEq, some.injEq] at next
    subst next
    split
    · exact sound.goto found (fun _ => by rw [phase]; rfl) fun _ => by rw [phase]; rfl
    · exact sound.finish found (by rw [phase]; rfl) _
  | access call readOnly => exact sound.access next
  | switched call result =>
    simp only [State.step, switched, bind_eq_some_iff] at next
    obtain ⟨known, found, next⟩ := next
    cases phase : known.phase <;> simp only [phase, reduceCtorEq, some.injEq] at next
    subst next
    cases result with
    | ok => exact sound.submit found (by rw [phase]; rfl) _
    | error reason => exact sound.finish found (by rw [phase]; rfl) _
  | answered call result =>
    simp only [State.step, answered, bind_eq_some_iff] at next
    obtain ⟨known, found, next⟩ := next
    cases phase : known.phase <;> simp only [phase, reduceCtorEq, some.injEq] at next
    subst next
    exact sound.finish found (by rw [phase]; rfl) _
  | closed call =>
    simp only [State.step, closed, bind_eq_some_iff] at next
    obtain ⟨known, found, next⟩ := next
    cases phase : known.phase <;> simp only [phase, reduceCtorEq, some.injEq] at next
    subst next
    exact sound.goes found rfl (fun _ => rfl) (.inl ⟨rfl, fun opened => by cases opened⟩)
      (.inl ⟨rfl, fun early => by cases early⟩) (sound.ordered.snoc fun _ same => by cases same)
      (sound.announced.snoc rfl)
  | drop call =>
    simp only [State.step, drop, bind_eq_some_iff] at next
    obtain ⟨known, found, next⟩ := next
    have dropped : (s.goto call known .dropped).Sound :=
      sound.goto found (fun opened => by cases opened) fun early => by cases early
    cases phase : known.phase <;> simp only [phase, reduceCtorEq, some.injEq] at next <;>
      exact next ▸ dropped

end Calls

theorem sound_of_reachable (run : system.Reachable System.always s) : s.Sound :=
  run.invariant Sound Sound.start fun _ _ sound next => sound.step next

end State

end Agentix.Registry.Terminal
