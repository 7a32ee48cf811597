import Agentix.Bridge.Requests

/-! # The stream of a connection

What each request has written, and what its result says.
-/

namespace Agentix.Bridge

open Lib List Option Function

namespace ConnectionState

variable {s s' : ConnectionState} {id other : String} {request request' : Request}

/-! ## Pieces -/

section

variable {written : List (String × List UInt8)} {piece : List UInt8}

theorem sent_append : sent id (written ++ [(id, piece)]) = sent id written ++ piece := by
  simp [sent]

theorem sent_append_of_ne (ne : other ≠ id) :
    sent other (written ++ [(id, piece)]) = sent other written := by
  simp [sent, Ne.symm ne]

end

variable {broken : Bool} {result : Option Outcome}

/-- What a result says about the answers that have come. -/
structure Result (s : ConnectionState) (id : String) (request : Request) (result : Outcome) :
    Prop where
  value : ∀ value, result = .ok value → (id, .ok value) ∈ s.replies.log
  rejected : ∀ message, result = .error (.rejected message) → (id, .error message) ∈ s.replies.log
  certain : request.dispatched = true → mutating request.method request.params = true →
    (∃ answer : Answer, (id, answer) ∈ s.replies.log ∧ result = answer.outcome) ∨
      ∃ reason, result = .error (.uncertain reason)

/-- What holds of a request. -/
structure Fits (s : ConnectionState) (id : String) (request : Request) : Prop where
  live : s.replies.pending id = true → ∀ result, request.phase ≠ .returned result
  vacant : request.phase = .checked → s.replies.slot id = .vacant
  unsent : request.phase = .checked ∨ request.phase = .registered ∨
    (∃ frame, request.phase = .queued frame) →
      sent id s.written = [] ∧ request.dispatched = false
  queued : ∀ frame, request.phase = .queued frame → request.frame = some frame ∧ frame ≠ []
  writing : ∀ rest, request.phase = .writing rest →
    request.frame = some (sent id s.written ++ rest) ∧ rest ≠ [] ∧
      s.writer = some (.request id) ∧ request.dispatched = false
  receiving : request.phase = .receiving → request.dispatched = true
  whole : request.dispatched = true → request.frame = some (sent id s.written)
  part : request.dispatched = false → request.frame ≠ some (sent id s.written)
  result : ∀ result, (∃ broken, request.phase = .leaving (some result) broken) ∨
    request.phase = .returned (some result) → s.Result id request result
  /-- An unfinished frame is being written, or is about to take the connection offline, or has. -/
  quiet : request.dispatched = false → sent id s.written ≠ [] →
    (∃ rest, request.phase = .writing rest) ∨ (∃ result, request.phase = .leaving result true) ∨
      s.online = false

structure Sound (s : ConnectionState) : Prop where
  replies : s.replies.Sound
  unknown : ∀ id, s.requests id = none → s.replies.slot id = .vacant ∧ sent id s.written = []
  fits : ∀ id request, s.requests id = some request → s.Fits id request

theorem sound_start : start.Sound where
  replies := Replies.sound_empty
  unknown := fun _ _ => ⟨rfl, rfl⟩
  fits := nofun

theorem Result.mono {result : Outcome} (said : s.Result id request result)
    (log : ∀ entry ∈ s.replies.log, entry ∈ s'.replies.log) : s'.Result id request result where
  value := fun value same => log _ (said.value value same)
  rejected := fun message same => log _ (said.rejected message same)
  certain := by
    intro dispatched mutates
    obtain ⟨answer, mem, same⟩ | uncertain := said.certain dispatched mutates
    · exact .inl ⟨answer, log _ mem, same⟩
    · exact .inr uncertain

/-- What a request can tell of another state. -/
structure Still (s s' : ConnectionState) (id : String) : Prop where
  vacant : s.replies.slot id = .vacant → s'.replies.slot id = .vacant
  pending : s'.replies.pending id = true → s.replies.pending id = true
  log : ∀ entry ∈ s.replies.log, entry ∈ s'.replies.log
  sent : sent id s'.written = sent id s.written
  writer : s.writer = some (.request id) → s'.writer = some (.request id)
  online : s.online = false → s'.online = false

theorem Fits.still (fits : s.Fits id request) (still : Still s s' id) : s'.Fits id request where
  live := fun pending => fits.live (still.pending pending)
  vacant := fun phase => still.vacant (fits.vacant phase)
  unsent := by
    rw [still.sent]
    exact fits.unsent
  queued := fits.queued
  writing := by
    intro rest phase
    rw [still.sent]
    obtain ⟨frame, more, writer, unsent⟩ := fits.writing rest phase
    exact ⟨frame, more, still.writer writer, unsent⟩
  receiving := fits.receiving
  whole := by
    rw [still.sent]
    exact fits.whole
  part := by
    rw [still.sent]
    exact fits.part
  result := fun result phase => (fits.result result phase).mono still.log
  quiet := by
    rw [still.sent]
    intro unsent begun
    exact (fits.quiet unsent begun).imp_right (.imp_right still.online)

theorem Sound.goes (sound : s.Sound) (requests : s'.requests = update s.requests id (some request'))
    (replies : s'.replies.Sound) (still : ∀ other, other ≠ id → Still s s' other)
    (fits : s'.Fits id request') : s'.Sound where
  replies := replies
  unknown := by
    intro other free
    rw [requests] at free
    by_cases same : other = id
    · rw [same, update_self] at free
      cases free
    · rw [update_of_ne same] at free
      obtain ⟨vacant, unsent⟩ := sound.unknown other free
      exact ⟨(still other same).vacant vacant, (still other same).sent.trans unsent⟩
  fits := by
    intro other known found
    rw [requests] at found
    by_cases same : other = id
    · subst same
      rw [update_self, some.injEq] at found
      rw [← found]
      exact fits
    · rw [update_of_ne same] at found
      exact (sound.fits other known found).still (still other same)

theorem Sound.stands (sound : s.Sound) (requests : s'.requests = s.requests)
    (replies : s'.replies.Sound) (still : ∀ other, Still s s' other) : s'.Sound where
  replies := replies
  unknown := by
    intro other free
    rw [requests] at free
    obtain ⟨vacant, unsent⟩ := sound.unknown other free
    exact ⟨(still other).vacant vacant, (still other).sent.trans unsent⟩
  fits := by
    intro other known found
    rw [requests] at found
    exact (sound.fits other known found).still (still other)

theorem still_goto (request : Request) : Still s (s.goto other request) id :=
  ⟨fun vacant => vacant, fun pending => pending, fun _ mem => mem, rfl, fun writer => writer,
    fun offline => offline⟩

theorem release_writer (ne : id ≠ other) (writer : s.writer = some (.request id)) :
    (s.release other).writer = some (.request id) := by
  have free : ¬ s.writer = some (.request other) := by
    rw [writer]
    intro same
    injection same with same
    injection same with same
    exact ne same
  rw [release, if_neg free]
  exact writer

theorem still_leave (ne : id ≠ other) :
    Still s (s.leave other request result broken) id :=
  ⟨fun vacant => vacant, fun pending => pending, fun _ mem => mem, rfl,
    release_writer ne, fun offline => offline⟩

/-! ## Results -/

theorem classify_ok {result : Outcome} {value : Json}
    (same : request.classify result = .ok value) : result = .ok value := by
  simp only [Request.classify] at same
  split at same
  · split at same <;> cases same
  · exact same

theorem classify_rejected {result : Outcome} {message : String}
    (same : request.classify result = .error (.rejected message)) :
    result = .error (.rejected message) := by
  simp only [Request.classify] at same
  split at same
  · split at same <;> cases same
  · exact same

theorem result_of_failure {error : AgentError}
    (failure : ∀ message, error ≠ .rejected message)
    (known : request.dispatched = true → ∃ reason, error = .unavailable reason) :
    s.Result id request (request.classify (.error error)) where
  value := fun value same => by cases classify_ok same
  rejected := by
    intro message same
    injection classify_rejected same with same
    exact absurd same (failure message)
  certain := by
    intro dispatched mutates
    obtain ⟨reason, rfl⟩ := known dispatched
    exact .inr ⟨reason, by simp [Request.classify, dispatched, mutates]⟩

theorem result_of_answer {answer : Answer} (mem : (id, answer) ∈ s.replies.log) :
    s.Result id request (request.classify answer.outcome) := by
  have same : request.classify answer.outcome = answer.outcome := by
    cases answer <;> rfl
  rw [same]
  refine ⟨?_, ?_, fun _ _ => .inl ⟨answer, mem, rfl⟩⟩
  · intro value same
    cases answer <;> cases same
    exact mem
  · intro message same
    cases answer <;> cases same
    exact mem

/-! ## Steps of a request -/

theorem Sound.leave (sound : s.Sound) (found : s.requests id = some request)
    (said : ∀ outcome, result = some outcome → s.Result id request (request.classify outcome))
    (left : broken = false → ∀ rest, request.phase ≠ .writing rest)
    (first : ∀ result, request.phase ≠ .leaving result true) :
    (s.leave id request result broken).Sound := by
  have fits := sound.fits id request found
  refine sound.goes rfl sound.replies (fun other ne => still_leave ne) ?_
  exact {
    live := fun _ => nofun
    vacant := nofun
    unsent := by
      rintro (wrong | wrong | ⟨_, wrong⟩) <;> cases wrong
    queued := nofun
    writing := nofun
    receiving := nofun
    whole := fits.whole
    part := fits.part
    result := by
      rintro outcome (⟨_, same⟩ | same)
      · injection same with same
        obtain ⟨before, rfl, rfl⟩ := map_eq_some_iff.mp same
        have said := said before rfl
        exact ⟨said.value, said.rejected, said.certain⟩
      · cases same
    quiet := by
      intro unsent begun
      obtain ⟨rest, phase⟩ | ⟨_, phase⟩ | offline := fits.quiet unsent begun
      · cases broken with
        | true => exact .inr (.inl ⟨_, rfl⟩)
        | false => exact absurd phase (left rfl rest)
      · exact absurd phase (first _)
      · exact .inr (.inr offline) }

theorem sound_call {method : String} {params : Json} (sound : s.Sound)
    (next : s.call id method params = some s') : s'.Sound := by
  simp only [call] at next
  split at next
  · rename_i new
    cases next
    obtain ⟨vacant, unsent⟩ := sound.unknown id (isNone_iff_eq_none.mp new)
    refine sound.goes rfl sound.replies (fun other _ => still_goto _) ?_
    refine ⟨?_, fun _ => vacant, fun _ => ⟨unsent, rfl⟩, ?_, ?_, ?_, nofun, nofun, ?_, ?_⟩
    · intro pending
      have waits := sound.replies.waiting id pending
      rw [vacant] at waits
      cases waits
    · intro frame
      cases s.online <;> exact nofun
    · intro rest
      cases s.online <;> exact nofun
    · cases s.online <;> exact nofun
    · intro result
      cases s.online with
      | true => rintro (⟨_, wrong⟩ | wrong) <;> cases wrong
      | false =>
        rintro (⟨_, wrong⟩ | same)
        · cases wrong
        · cases same
          exact ⟨nofun, nofun, nofun⟩
    · intro _ begun
      exact absurd unsent begun
  · cases next

theorem sound_register (sound : s.Sound) (next : s.register id = some s') : s'.Sound := by
  obtain ⟨request, found, next⟩ := bind_eq_some_iff.mp next
  split at next
  · rename_i phase
    cases next
    have fits := sound.fits id request found
    have vacant := fits.vacant phase
    obtain ⟨unsent, waits⟩ := fits.unsent (.inl phase)
    refine sound.goes rfl (sound.replies.register vacant) (fun other ne => ?_) ?_
    · exact ⟨fun vacant => (Replies.register_slot_of_ne ne).trans vacant,
        fun pending => (Replies.register_pending_of_ne ne).symm.trans pending,
        fun _ mem => mem, rfl, fun writer => writer, fun offline => offline⟩
    · refine ⟨fun _ => nofun, nofun, fun _ => ⟨unsent, waits⟩, nofun, nofun, nofun, fits.whole,
        fits.part, ?_, fun _ begun => absurd unsent begun⟩
      rintro result (⟨_, wrong⟩ | wrong) <;> cases wrong
  · cases next

theorem sound_encode {toVec : String → String → Json → Except String (List UInt8)}
    (sound : s.Sound) (next : s.encode toVec id = some s') : s'.Sound := by
  obtain ⟨request, found, next⟩ := bind_eq_some_iff.mp next
  split at next
  · rename_i phase
    have fits := sound.fits id request found
    obtain ⟨unsent, waits⟩ := fits.unsent (.inr (.inl phase))
    have fails : ∀ {error : AgentError}, (∀ message, error ≠ .rejected message) →
        (s.leave id request (some (.error error)) false).Sound := by
      intro error failure
      refine sound.leave found ?_ (by rw [phase]; exact nofun)
        (by rw [phase]; exact nofun)
      rintro outcome same
      cases same
      apply result_of_failure failure
      rw [waits]
      exact nofun
    split at next
    · cases next
      exact fails fun _ same => by cases same
    · dsimp only at next
      split at next
      · cases next
        exact fails fun _ same => by cases same
      · rename_i bytes encoded _
        cases next
        refine sound.goes rfl sound.replies (fun other _ => still_goto _) ?_
        refine ⟨fun _ => nofun, nofun, fun _ => ⟨unsent, waits⟩, ?_, nofun, nofun, ?_, ?_, ?_, ?_⟩
        · intro frame same
          cases same
          exact ⟨rfl, by simp⟩
        · intro dispatched
          have dispatched : request.dispatched = true := dispatched
          rw [waits] at dispatched
          cases dispatched
        · intro _ same
          have same : some (bytes ++ [10]) = some (sent id s.written) := same
          rw [unsent] at same
          simp at same
        · rintro result (⟨_, wrong⟩ | wrong) <;> cases wrong
        · exact fun _ begun => absurd unsent begun
  · cases next

theorem sound_acquire (sound : s.Sound) (next : s.acquire id = some s') : s'.Sound := by
  obtain ⟨request, found, next⟩ := bind_eq_some_iff.mp next
  split at next
  · rename_i frame phase free
    have fits := sound.fits id request found
    obtain ⟨unsent, waits⟩ := fits.unsent (.inr (.inr ⟨frame, phase⟩))
    obtain ⟨framed, some_⟩ := fits.queued frame phase
    split at next
    · cases next
      refine sound.goes rfl sound.replies (fun other _ => ?_) ?_
      · refine ⟨fun vacant => vacant, fun pending => pending, fun _ mem => mem, rfl, ?_,
          fun offline => offline⟩
        intro writer
        rw [free] at writer
        cases writer
      · refine ⟨fun _ => nofun, nofun, ?_, nofun, ?_, nofun, fits.whole, fits.part, ?_,
          fun _ begun => absurd unsent begun⟩
        · rintro (wrong | wrong | ⟨_, wrong⟩) <;> cases wrong
        · intro rest same
          cases same
          refine ⟨?_, some_, rfl, waits⟩
          show request.frame = some (sent id s.written ++ frame)
          rw [unsent]
          exact framed
        · rintro result (⟨_, wrong⟩ | wrong) <;> cases wrong
    · cases next
      refine sound.leave found ?_ (by rw [phase]; exact nofun)
        (by rw [phase]; exact nofun)
      rintro outcome same
      cases same
      apply result_of_failure (fun _ same => by cases same)
      rw [waits]
      exact nofun
  · cases next

theorem sound_write {count : Nat} (sound : s.Sound) (next : s.write id count = some s') :
    s'.Sound := by
  obtain ⟨request, found, next⟩ := bind_eq_some_iff.mp next
  split at next
  · rename_i rest phase
    have fits := sound.fits id request found
    obtain ⟨framed, more, writer, waits⟩ := fits.writing rest phase
    split at next
    · rename_i bound
      split at next
      · -- the last bytes: the request waits for its response
        rename_i last
        cases next
        have all : rest.take count = rest := by rw [last, take_length]
        refine sound.goes rfl sound.replies (fun other ne => ?_) ?_
        · exact ⟨fun vacant => vacant, fun pending => pending, fun _ mem => mem,
            sent_append_of_ne ne, fun writer' => release_writer (s := s) ne writer',
            fun offline => offline⟩
        · refine ⟨fun _ => nofun, nofun, ?_, nofun, nofun, fun _ => rfl, ?_, nofun, ?_, nofun⟩
          · rintro (wrong | wrong | ⟨_, wrong⟩) <;> cases wrong
          · intro _
            show request.frame = some (sent id (s.written ++ [(id, rest.take count)]))
            rw [sent_append, all]
            exact framed
          · rintro result (⟨_, wrong⟩ | wrong) <;> cases wrong
      · rename_i some_
        cases next
        have left : rest.drop count ≠ [] := by
          intro none
          have := drop_eq_nil_iff.mp none
          omega
        have parts : sent id (s.written ++ [(id, rest.take count)]) ++ rest.drop count =
            sent id s.written ++ rest := by
          rw [sent_append, append_assoc, take_append_drop]
        refine sound.goes rfl sound.replies (fun other ne => ?_) ?_
        · exact ⟨fun vacant => vacant, fun pending => pending, fun _ mem => mem,
            sent_append_of_ne ne, fun writer' => writer', fun offline => offline⟩
        · refine ⟨fun _ => nofun, nofun, ?_, nofun, ?_, nofun, ?_, ?_, ?_,
            fun _ _ => .inl ⟨_, rfl⟩⟩
          · rintro (wrong | wrong | ⟨_, wrong⟩) <;> cases wrong
          · intro rest' same
            cases same
            refine ⟨?_, left, writer, waits⟩
            show request.frame = some (sent id (s.written ++ [(id, rest.take count)]) ++
              rest.drop count)
            rw [parts]
            exact framed
          · intro dispatched
            have dispatched : request.dispatched = true := dispatched
            rw [waits] at dispatched
            cases dispatched
          · intro _ same
            have same : request.frame = some (sent id (s.written ++ [(id, rest.take count)])) := same
            rw [framed, ← parts, some.injEq] at same
            exact left (append_right_eq_self.mp same)
          · rintro result (⟨_, wrong⟩ | wrong) <;> cases wrong
    · cases next
  · cases next

theorem sound_writeFails {reason : String} (sound : s.Sound)
    (next : s.writeFails id reason = some s') : s'.Sound := by
  obtain ⟨request, found, next⟩ := bind_eq_some_iff.mp next
  split at next
  · rename_i rest phase
    cases next
    refine sound.leave found ?_ nofun (by rw [phase]; exact nofun)
    rintro outcome same
    cases same
    exact result_of_failure (fun _ same => by cases same) fun _ => ⟨reason, rfl⟩
  · cases next

theorem sound_answer (sound : s.Sound) (next : s.answer id = some s') : s'.Sound := by
  obtain ⟨request, found, next⟩ := bind_eq_some_iff.mp next
  split at next
  · rename_i answer phase answered
    cases next
    refine sound.leave found ?_ (by rw [phase]; exact nofun)
      (by rw [phase]; exact nofun)
    rintro outcome same
    cases same
    exact result_of_answer ((sound.replies.answered id answer).mpr answered)
  · rename_i phase closed
    cases next
    refine sound.leave found ?_ (by rw [phase]; exact nofun)
      (by rw [phase]; exact nofun)
    rintro outcome same
    cases same
    exact result_of_failure (fun _ same => by cases same) fun _ => ⟨_, rfl⟩
  · cases next

theorem sound_interrupt (sound : s.Sound)
    (unavailable : ∀ outcome, result = some outcome → ∃ reason, outcome = .error (.unavailable reason))
    (next : s.interrupt id result = some s') : s'.Sound := by
  obtain ⟨request, found, next⟩ := bind_eq_some_iff.mp next
  have said : ∀ outcome, result = some outcome →
      s.Result id request (request.classify outcome) := by
    intro outcome same
    obtain ⟨reason, rfl⟩ := unavailable outcome same
    exact result_of_failure (fun _ same => by cases same) fun _ => ⟨reason, rfl⟩
  split at next
  · rename_i phase
    cases next
    exact sound.leave found said (by rw [phase]; exact nofun)
      (by rw [phase]; exact nofun)
  · rename_i frame phase
    cases next
    exact sound.leave found said (by rw [phase]; exact nofun)
      (by rw [phase]; exact nofun)
  · rename_i phase
    cases next
    exact sound.leave found said (by rw [phase]; exact nofun)
      (by rw [phase]; exact nofun)
  · rename_i rest phase
    cases next
    exact sound.leave found said nofun (by rw [phase]; exact nofun)
  · cases next

/-! ## The end of a request -/

theorem Still.trans {s'' : ConnectionState} (first : Still s s' id) (second : Still s' s'' id) :
    Still s s'' id :=
  ⟨fun vacant => second.vacant (first.vacant vacant),
    fun pending => first.pending (second.pending pending),
    fun entry mem => second.log entry (first.log entry mem), second.sent.trans first.sent,
    fun writer => second.writer (first.writer writer),
    fun offline => second.online (first.online offline)⟩

theorem still_poison (replies : s.replies.Sound) : Still s s.poison id :=
  ⟨(Replies.clear_vacant replies).mpr, nofun, fun _ mem => mem, rfl, fun writer => writer,
    fun _ => rfl⟩

theorem sound_shutdown (sound : s.Sound) : s.poison.Sound :=
  sound.stands rfl sound.replies.clear fun _ => still_poison sound.replies

/-- A request whose guard is dropped has taken the connection offline when it was writing. -/
theorem Fits.drops (fits : s.Fits id request) (phase : request.phase = .leaving result broken)
    (pending : s'.replies.pending id = false) (log : s'.replies.log = s.replies.log)
    (written : s'.written = s.written)
    (offline : broken = true ∨ s.online = false → s'.online = false) :
    s'.Fits id { request with phase := .returned result } where
  live := by
    intro here
    rw [pending] at here
    cases here
  vacant := nofun
  unsent := by
    rintro (wrong | wrong | ⟨_, wrong⟩) <;> cases wrong
  queued := nofun
  writing := nofun
  receiving := nofun
  whole := by
    rw [written]
    exact fits.whole
  part := by
    rw [written]
    exact fits.part
  result := by
    rintro outcome (⟨_, wrong⟩ | same)
    · cases wrong
    · cases same
      have said : s'.Result id request outcome :=
        (fits.result outcome (.inl ⟨broken, phase⟩)).mono (by rw [log]; exact fun _ mem => mem)
      exact ⟨said.value, said.rejected, said.certain⟩
  quiet := by
    intro unsent begun
    rw [written] at begun
    obtain ⟨rest, writing⟩ | ⟨_, leaving⟩ | gone := fits.quiet unsent begun
    · rw [phase] at writing
      cases writing
    · rw [phase] at leaving
      cases leaving
      exact .inr (.inr (offline (.inl rfl)))
    · exact .inr (.inr (offline (.inr gone)))

theorem sound_drop (sound : s.Sound) (next : s.drop id = some s') : s'.Sound := by
  obtain ⟨request, found, next⟩ := bind_eq_some_iff.mp next
  split at next
  · rename_i result broken phase
    have fits := sound.fits id request found
    have removed : ∀ other, other ≠ id → Still s
        { s.goto id { request with phase := .returned result } with
          replies := s.replies.remove id } other := by
      intro other _
      exact ⟨(Replies.remove_vacant sound.replies).mpr,
        fun pending => (Replies.pending_of_remove pending).2, fun _ mem => mem, rfl,
        fun writer => writer, fun offline => offline⟩
    have taken : (s.replies.remove id).pending id = false := update_self ..
    cases next
    cases broken with
    | true =>
      have replies : (s.replies.remove id).Sound := sound.replies.remove
      refine sound.goes rfl replies.clear
        (fun other ne => (removed other ne).trans (still_poison replies)) ?_
      exact fits.drops phase rfl rfl rfl fun _ => rfl
    | false =>
      refine sound.goes rfl sound.replies.remove removed ?_
      refine fits.drops phase taken rfl rfl ?_
      rintro (wrong | offline)
      · cases wrong
      · exact offline
  · cases next

/-! ## The reader and the writer's end -/

theorem sound_response {answer : Answer} (sound : s.Sound)
    (next : s.response id answer = some s') : s'.Sound := by
  simp only [response] at next
  split at next
  · cases next
    refine sound.stands rfl sound.replies.answer fun other => ?_
    exact ⟨(Replies.answer_vacant sound.replies).mpr, Replies.pending_of_answer,
      fun _ => Replies.log_of_answer, rfl, fun writer => writer, fun offline => offline⟩
  · cases next

theorem sound_readerEnds (sound : s.Sound) (next : s.readerEnds = some s') : s'.Sound := by
  simp only [readerEnds] at next
  split at next
  · cases next
    refine sound.stands rfl sound.replies.clear fun other => ?_
    exact ⟨(Replies.clear_vacant sound.replies).mpr, nofun, fun _ mem => mem, rfl,
      fun writer => writer, fun offline => offline⟩
  · cases next

theorem sound_readerReports {registered : Bool} (sound : s.Sound)
    (next : s.readerReports registered = some s') : s'.Sound := by
  simp only [readerReports] at next
  split at next
  · cases next
    refine sound.stands rfl sound.replies fun other => ?_
    refine ⟨fun vacant => vacant, fun pending => pending, fun _ mem => mem, rfl,
      fun writer => writer, fun offline => ?_⟩
    simp [offline]
  · cases next

theorem sound_readerStops (sound : s.Sound) (next : s.readerStops = some s') : s'.Sound := by
  simp only [readerStops] at next
  split at next
  · cases next
    exact sound.stands rfl sound.replies fun _ => ⟨fun vacant => vacant, fun pending => pending,
      fun _ mem => mem, rfl, fun writer => writer, fun offline => offline⟩
  · cases next

theorem sound_close (sound : s.Sound) (next : s.close = some s') : s'.Sound := by
  simp only [close] at next
  split at next
  · rename_i free
    cases next
    refine sound.stands rfl sound.replies fun other => ?_
    refine ⟨fun vacant => vacant, fun pending => pending, fun _ mem => mem, rfl, ?_,
      fun offline => offline⟩
    intro writer
    rw [free.2] at writer
    cases writer
  · cases next

theorem sound_closed (sound : s.Sound) (next : s.closed = some s') : s'.Sound := by
  simp only [closed] at next
  split at next
  · rename_i closing
    cases next
    refine sound.stands rfl sound.replies fun other => ?_
    refine ⟨fun vacant => vacant, fun pending => pending, fun _ mem => mem, rfl, ?_,
      fun offline => offline⟩
    intro writer
    rw [closing] at writer
    cases writer
  · cases next

/-! ## Runs -/

variable {toVec : String → String → Json → Except String (List UInt8)} {step : Step}

theorem sound_step (sound : s.Sound) (next : s.step toVec step = some s') : s'.Sound := by
  cases step with
  | call id method params => exact sound_call sound next
  | register id => exact sound_register sound next
  | encode id => exact sound_encode sound next
  | acquire id => exact sound_acquire sound next
  | write id count => exact sound_write sound next
  | writeFails id reason => exact sound_writeFails sound next
  | answer id => exact sound_answer sound next
  | expire id =>
    refine sound_interrupt sound ?_ next
    rintro outcome same
    cases same
    exact ⟨_, rfl⟩
  | cancel id =>
    refine sound_interrupt sound ?_ next
    intro _ same
    cases same
  | drop id => exact sound_drop sound next
  | response id answer => exact sound_response sound next
  | readerEnds => exact sound_readerEnds sound next
  | readerReports registered => exact sound_readerReports sound next
  | readerStops => exact sound_readerStops sound next
  | shutdown =>
    cases next
    exact sound_shutdown sound
  | close => exact sound_close sound next
  | closed => exact sound_closed sound next

theorem sound_of_reachable {allowed : ConnectionState → Step → Prop}
    (reachable : (system toVec).Reachable allowed s) : s.Sound :=
  reachable.invariant Sound sound_start fun _ _ sound next => sound_step sound next

theorem Sound.answered (sound : s.Sound) : s.Answered where
  once := sound.replies.once
  pending := by
    intro id pending
    cases found : s.requests id with
    | none =>
      have waits := sound.replies.waiting id pending
      rw [(sound.unknown id found).1] at waits
      cases waits
    | some request => exact ⟨request, rfl, (sound.fits id request found).live pending⟩
  own := by
    intro id request result found returned
    have said := (sound.fits id request found).result result (.inr returned)
    exact ⟨said.value, said.rejected⟩
  certain := by
    intro id request result found returned mutates framed
    have fits := sound.fits id request found
    refine (fits.result result (.inr returned)).certain ?_ mutates
    by_contra waits
    exact fits.part (Bool.eq_false_iff.mpr waits) framed

end ConnectionState

end Agentix.Bridge
