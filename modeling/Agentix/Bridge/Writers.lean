import Agentix.Bridge.Streams

/-! # The writer of a connection

A request that gets the writer finds no frame unfinished, unless another one has given up its frame
and has not yet taken the connection offline.
-/

namespace Agentix.Bridge

open Lib List Option Function

namespace ConnectionState

variable {s s' : ConnectionState} {id other : String} {request request' : Request}

def Finished (s : ConnectionState) (id : String) (bytes : List UInt8) : Prop :=
  bytes = [] ∨ ∃ request, s.requests id = some request ∧ request.frame = some bytes

structure Alone (s : ConnectionState) : Prop where
  whole : ∀ before id piece after, s.written = before ++ (id, piece) :: after →
    ∀ other, other ≠ id → s.Finished other (sent other before)
  writing : ∀ id request rest, s.requests id = some request → request.phase = .writing rest →
    ∀ other, other ≠ id → s.Finished other (sent other s.written)

theorem alone_start : start.Alone where
  whole := by
    intro before id piece after same
    simp [start] at same
  writing := nofun

/-- A request's frame is still the one that it has begun to write. -/
def Frames (s s' : ConnectionState) : Prop :=
  ∀ id request, s.requests id = some request → sent id s.written ≠ [] →
    ∃ request', s'.requests id = some request' ∧ request'.frame = request.frame

theorem sent_of_append {before after : List (String × List UInt8)}
    (unsent : sent id (before ++ after) = []) : sent id before = [] := by
  simp only [sent, filter_append, flatMap_append, append_eq_nil_iff] at unsent
  exact unsent.1

theorem Finished.frames {before after : List (String × List UInt8)} (frames : Frames s s')
    (written : s.written = before ++ after) (finished : s.Finished id (sent id before)) :
    s'.Finished id (sent id before) := by
  obtain none | ⟨request, found, framed⟩ := finished
  · exact .inl none
  · by_cases begun : sent id s.written = []
    · rw [written] at begun
      exact .inl (sent_of_append begun)
    · obtain ⟨request', found', same⟩ := frames id request found begun
      exact .inr ⟨request', found', same.trans framed⟩

theorem Alone.still (alone : s.Alone) (frames : Frames s s') (written : s'.written = s.written)
    (writing : ∀ id request rest, s'.requests id = some request → request.phase = .writing rest →
      ∃ request, s.requests id = some request ∧ request.phase = .writing rest) : s'.Alone where
  whole := by
    intro before id piece after same other ne
    rw [written] at same
    exact (alone.whole before id piece after same other ne).frames frames same
  writing := by
    intro id request rest found phase other ne
    obtain ⟨_, found, phase⟩ := writing id request rest found phase
    rw [written]
    have finished := alone.writing id _ rest found phase other ne
    exact finished.frames frames (append_nil _).symm

theorem frames_goto (requests : s'.requests = update s.requests id (some request'))
    (framed : ∀ request, s.requests id = some request → sent id s.written ≠ [] →
      request'.frame = request.frame) : Frames s s' := by
  intro other request found begun
  rw [requests]
  by_cases same : other = id
  · subst same
    exact ⟨request', update_self .., framed request found begun⟩
  · rw [update_of_ne same]
    exact ⟨request, found, rfl⟩

theorem Alone.goes (alone : s.Alone) (requests : s'.requests = update s.requests id (some request'))
    (written : s'.written = s.written)
    (framed : ∀ request, s.requests id = some request → sent id s.written ≠ [] →
      request'.frame = request.frame)
    (idle : ∀ rest, request'.phase ≠ .writing rest) : s'.Alone := by
  refine alone.still (frames_goto requests framed) written ?_
  intro other known rest found phase
  rw [requests] at found
  by_cases same : other = id
  · rw [same, update_self, some.injEq] at found
    rw [← found] at phase
    exact absurd phase (idle rest)
  · rw [update_of_ne same] at found
    exact ⟨known, found, phase⟩

theorem Alone.stands (alone : s.Alone) (requests : s'.requests = s.requests)
    (written : s'.written = s.written) : s'.Alone := by
  refine alone.still ?_ written ?_
  · intro id request found _
    exact ⟨request, requests ▸ found, rfl⟩
  · intro id request rest found phase
    exact ⟨request, requests ▸ found, phase⟩

theorem Alone.keeps (alone : s.Alone) (found : s.requests id = some request)
    (requests : s'.requests = update s.requests id (some request'))
    (written : s'.written = s.written) (framed : request'.frame = request.frame)
    (idle : ∀ rest, request'.phase ≠ .writing rest) : s'.Alone := by
  refine alone.goes requests written (fun known here _ => ?_) idle
  rw [found, some.injEq] at here
  rw [framed, here]

theorem alone_interrupt {result : Option Outcome} (alone : s.Alone)
    (next : s.interrupt id result = some s') : s'.Alone := by
  obtain ⟨request, found, next⟩ := bind_eq_some_iff.mp next
  split at next
  · cases next
    exact alone.keeps found rfl rfl rfl (by simp)
  · cases next
    exact alone.keeps found rfl rfl rfl (by simp)
  · cases next
    exact alone.keeps found rfl rfl rfl (by simp)
  · cases next
    exact alone.keeps found rfl rfl rfl (by simp)
  · cases next

theorem alone_acquire (sound : s.Sound) (alone : s.Alone)
    (undisturbed : s.Undisturbed (.acquire id)) (next : s.acquire id = some s') : s'.Alone := by
  obtain ⟨request, found, next⟩ := bind_eq_some_iff.mp next
  split at next
  · rename_i frame phase free
    split at next
    · rename_i online
      cases next
      have frames : Frames s { s.goto id { request with phase := .writing frame } with
          writer := some (.request id) } :=
        frames_goto rfl fun known here _ => by
          rw [found, some.injEq] at here
          rw [here]
      have finished : ∀ other, s.Finished other (sent other s.written) := by
        intro other
        by_contra unfinished
        obtain ⟨begun, framed⟩ := not_or.mp unfinished
        cases known : s.requests other with
        | none => exact begun (sound.unknown other known).2
        | some its =>
          have fits := sound.fits other its known
          have waits : its.dispatched = false := by
            cases dispatched : its.dispatched with
            | false => rfl
            | true => exact absurd ⟨its, known, fits.whole dispatched⟩ framed
          -- it is not writing, for the writer is free; and the connection is online
          obtain ⟨rest, writes⟩ | ⟨result, leaves⟩ | offline := fits.quiet waits begun
          · have writer := (fits.writing rest writes).2.2.1
            rw [free] at writer
            cases writer
          · exact begun (undisturbed other its result known leaves)
          · rw [online] at offline
            cases offline
      constructor
      · intro before other piece after same third ne
        exact (alone.whole before other piece after same third ne).frames frames same
      · intro _ _ _ _ _ other _
        exact (finished other).frames frames (append_nil _).symm
    · cases next
      exact alone.keeps found rfl rfl rfl (by simp)
  · cases next

theorem Alone.writes {rest piece : List UInt8} (sound : s.Sound) (alone : s.Alone)
    (found : s.requests id = some request) (phase : request.phase = .writing rest)
    (requests : s'.requests = update s.requests id (some request'))
    (framed : request'.frame = request.frame) (written : s'.written = s.written ++ [(id, piece)]) :
    s'.Alone := by
  have frames : Frames s s' := by
    refine frames_goto requests fun known here _ => ?_
    rw [found, some.injEq] at here
    rw [framed, here]
  have others := alone.writing id request rest found phase
  constructor
  · intro before other more after same third ne
    rw [written] at same
    -- the piece is the last one, or was there before
    obtain rfl | ⟨after, last, rfl⟩ := after.eq_nil_or_concat
    · obtain ⟨rfl, here⟩ := append_inj' same rfl
      injection here with here
      injection here with here
      subst here
      exact (others third ne).frames frames (append_nil _).symm
    · have same : s.written ++ [(id, piece)] = (before ++ (other, more) :: after) ++ [last] := by
        simpa using same
      obtain ⟨same, _⟩ := append_inj' same rfl
      exact (alone.whole before other more after same third ne).frames frames same
  · intro writer known left here writes other ne
    rw [requests] at here
    by_cases same : writer = id
    · subst same
      have finished := (others other ne).frames frames (append_nil _).symm
      rw [written, sent_append_of_ne ne]
      exact finished
    · -- only one request has the writer
      rw [update_of_ne same] at here
      have first := (sound.fits id request found).writing rest phase
      have second := (sound.fits writer known here).writing left writes
      have both := first.2.2.1.symm.trans second.2.2.1
      injection both with both
      injection both with both
      exact absurd both.symm same

theorem alone_write {count : Nat} (sound : s.Sound) (alone : s.Alone)
    (next : s.write id count = some s') : s'.Alone := by
  obtain ⟨request, found, next⟩ := bind_eq_some_iff.mp next
  split at next
  · rename_i rest phase
    split at next
    · split at next
      · cases next
        exact alone.writes sound found phase rfl rfl rfl
      · cases next
        exact alone.writes sound found phase rfl rfl rfl
    · cases next
  · cases next

/-! ## Runs -/

variable {toVec : String → String → Json → Except String (List UInt8)} {step : Step}

theorem alone_step (sound : s.Sound) (alone : s.Alone) (undisturbed : s.Undisturbed step)
    (next : s.step toVec step = some s') : s'.Alone := by
  cases step with
  | call id method params =>
    simp only [ConnectionState.step, call] at next
    split at next
    · rename_i free
      cases next
      refine alone.goes rfl rfl (fun known here _ => ?_) ?_
      · rw [here] at free
        cases free
      · intro rest
        cases s.online <;> simp
    · cases next
  | register id =>
    obtain ⟨request, found, next⟩ := bind_eq_some_iff.mp next
    split at next
    · cases next
      exact alone.keeps found rfl rfl rfl (by simp)
    · cases next
  | encode id =>
    obtain ⟨request, found, next⟩ := bind_eq_some_iff.mp next
    split at next
    · rename_i phase
      -- nothing of the frame has been written
      have unsent := ((sound.fits id request found).unsent (.inr (.inl phase))).1
      split at next
      · cases next
        exact alone.keeps found rfl rfl rfl (by simp)
      · dsimp only at next
        split at next
        · cases next
          exact alone.keeps found rfl rfl rfl (by simp)
        · cases next
          exact alone.goes rfl rfl (fun _ _ begun => absurd unsent begun) (by simp)
    · cases next
  | acquire id => exact alone_acquire sound alone undisturbed next
  | write id count => exact alone_write sound alone next
  | writeFails id reason =>
    obtain ⟨request, found, next⟩ := bind_eq_some_iff.mp next
    split at next
    · cases next
      exact alone.keeps found rfl rfl rfl (by simp)
    · cases next
  | answer id =>
    obtain ⟨request, found, next⟩ := bind_eq_some_iff.mp next
    split at next
    · cases next
      exact alone.keeps found rfl rfl rfl (by simp)
    · cases next
      exact alone.keeps found rfl rfl rfl (by simp)
    · cases next
  | expire id => exact alone_interrupt alone next
  | cancel id => exact alone_interrupt alone next
  | drop id =>
    obtain ⟨request, found, next⟩ := bind_eq_some_iff.mp next
    split at next
    · rename_i result broken phase
      cases next
      cases broken with
      | true => exact alone.keeps found rfl rfl rfl (by simp)
      | false => exact alone.keeps found rfl rfl rfl (by simp)
    · cases next
  | response id answer =>
    simp only [ConnectionState.step, response] at next
    split at next
    · cases next
      exact alone.stands rfl rfl
    · cases next
  | readerEnds =>
    simp only [ConnectionState.step, readerEnds] at next
    split at next
    · cases next
      exact alone.stands rfl rfl
    · cases next
  | readerReports registered =>
    simp only [ConnectionState.step, readerReports] at next
    split at next
    · cases next
      exact alone.stands rfl rfl
    · cases next
  | readerStops =>
    simp only [ConnectionState.step, readerStops] at next
    split at next
    · cases next
      exact alone.stands rfl rfl
    · cases next
  | shutdown =>
    cases next
    exact alone.stands rfl rfl
  | close =>
    simp only [ConnectionState.step, close] at next
    split at next
    · cases next
      exact alone.stands rfl rfl
    · cases next
  | closed =>
    simp only [ConnectionState.step, closed] at next
    split at next
    · cases next
      exact alone.stands rfl rfl
    · cases next

theorem alone_of_reachable (reachable : (system toVec).Reachable Undisturbed s) : s.Alone :=
  reachable.invariant Alone alone_start fun before undisturbed alone next =>
    alone_step (sound_of_reachable before) alone undisturbed next

end ConnectionState

end Agentix.Bridge
