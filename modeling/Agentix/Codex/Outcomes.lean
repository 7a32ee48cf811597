import Agentix.Codex.Rpc
import Agentix.Lib.Updates

/-! # Outcomes of requests

What holds of the calls between any two steps.
-/

namespace Agentix.Codex

open Lib List Option Function

variable {V : Type}

/-- The call was not made. -/
def ClientError.certain : ClientError → Bool
  | .uncertain _ | .rpc _ _ => false
  | .timeout | .webSocket _ | .responseClosed => true

theorem certain_of_requestTransportError {method : String} {error : ClientError}
    (other : method ∉ idempotent) : (requestTransportError method error).certain = false := by
  rw [requestTransportError, if_neg other]
  rfl

def RetryStage.ended : RetryStage V → Bool
  | .done _ | .cancelled => true
  | .ready | .trying _ _ | .reconnecting _ => false

namespace RpcState

variable {s s' : RpcState V} {id : Int} {call : RpcCall V} {phase : CallPhase V}

/-- What a result says about the responses that were taken, and about the frame. -/
structure Result (s : RpcState V) (id : Int) (method : String) (phase : CallPhase V) : Prop where
  ok : ∀ value, phase = .done (.ok value) → (id, .ok value) ∈ s.replies.log
  rpc : ∀ code message, phase = .done (.error (.rpc code message)) →
    (id, .error ⟨code, message⟩) ∈ s.replies.log
  unsent : ∀ error, phase = .done (.error error) → method ∉ idempotent → error.certain = true →
    id ∉ s.frames

structure Sound (s : RpcState V) : Prop where
  replies : s.replies.Sound
  fresh : ∀ id, s.nextId ≤ id → s.calls id = none
  unknown : ∀ id, s.calls id = none → s.replies.slot id = .vacant ∧ id ∉ s.frames
  pending : ∀ id, s.replies.pending id = true →
    ∃ call, s.calls id = some call ∧ call.phase.active = true
  once : s.frames.Nodup
  waiting : ∀ id call, s.calls id = some call → call.phase = .waiting → id ∉ s.frames
  result : ∀ id call, s.calls id = some call → s.Result id call.method call.phase
  owned : ∀ id call number, s.calls id = some call → call.owner = some number →
    ∃ retried, s.retries number = some retried ∧ retried.method = call.method ∧
      (call.phase.active = true → ∃ generation, retried.stage = .trying id generation)
  /-- A frame was only sent by the attempt of now, unless the call is over. -/
  tried : ∀ id call number retried, s.calls id = some call → call.owner = some number →
    s.retries number = some retried → retried.method ∉ idempotent → id ∈ s.frames →
      (∃ generation, retried.stage = .trying id generation) ∨ retried.stage.ended = true
  single : ∀ id id' call call' number, s.calls id = some call → s.calls id' = some call' →
    call.owner = some number → call'.owner = some number → call.method ∉ idempotent →
      id ∈ s.frames → id' ∈ s.frames → id = id'

theorem sound_start : (start : RpcState V).Sound where
  replies := Replies.sound_empty
  fresh := fun _ _ => rfl
  unknown := fun _ _ => ⟨rfl, not_mem_nil⟩
  pending _ sent := by cases sent
  once := .nil
  waiting _ _ found := by cases found
  result _ _ found := by cases found
  owned _ _ _ found := by cases found
  tried _ _ _ _ found := by cases found
  single _ _ _ _ _ found := by cases found

/-- The writer, the reader and the generation do not matter. -/
theorem Sound.of_same (sound : s.Sound) (nextId : s'.nextId = s.nextId)
    (calls : s'.calls = s.calls) (retries : s'.retries = s.retries)
    (replies : s'.replies = s.replies) (frames : s'.frames = s.frames) : s'.Sound := by
  obtain ⟨h₁, h₂, h₃, h₄, h₅, h₆, h₇, h₈, h₉, h₁₀⟩ := sound
  constructor
  · rw [replies]; exact h₁
  · rw [nextId, calls]; exact h₂
  · rw [calls, replies, frames]; exact h₃
  · rw [replies, calls]; exact h₄
  · rw [frames]; exact h₅
  · rw [calls, frames]; exact h₆
  · intro id call found
    rw [calls] at found
    have result := h₇ id call found
    refine ⟨?_, ?_, ?_⟩
    · rw [replies]; exact result.ok
    · rw [replies]; exact result.rpc
    · rw [frames]; exact result.unsent
  · rw [calls, retries]; exact h₈
  · rw [calls, retries, frames]; exact h₉
  · rw [calls, frames]; exact h₁₀

/-! ## A call goes on -/

/-- A step of one call. -/
structure Advance (s s' : RpcState V) (id : Int) (call : RpcCall V) (phase : CallPhase V) :
    Prop where
  found : s.calls id = some call
  active : call.phase.active = true
  calls : s'.calls = update s.calls id (some { call with phase })
  nextId : s'.nextId = s.nextId
  retries : s'.retries = s.retries
  replies : s'.replies.Sound
  vacant : ∀ other, s'.replies.slot other = .vacant ↔ s.replies.slot other = .vacant
  log : s'.replies.log = s.replies.log
  pending : ∀ other, s'.replies.pending other = true →
    s.replies.pending other = true ∧ (other = id → phase.active = true)
  frames : (s'.frames = s.frames ∧ phase ≠ .waiting) ∨
    (s'.frames = s.frames ++ [id] ∧ call.phase = .waiting ∧ phase = .sending)
  result : s'.Result id call.method phase

/-- Calls stand where they stood, but for one that has another phase. -/
theorem Advance.call_cases (advance : Advance s s' id call phase) {other : Int}
    {call' : RpcCall V} (here : s'.calls other = some call') :
    (other = id ∧ call' = { call with phase }) ∨ (other ≠ id ∧ s.calls other = some call') := by
  rw [advance.calls] at here
  exact of_update_some here

theorem Advance.before (advance : Advance s s' id call phase) {other : Int} {call' : RpcCall V}
    (here : s'.calls other = some call') :
    ∃ old, s.calls other = some old ∧ old.owner = call'.owner ∧ old.method = call'.method ∧
      (call'.phase.active = true → old.phase.active = true) := by
  obtain ⟨rfl, rfl⟩ | ⟨-, same⟩ := advance.call_cases here
  · exact ⟨call, advance.found, rfl, rfl, fun _ => advance.active⟩
  · exact ⟨call', same, rfl, rfl, fun active => active⟩

theorem Advance.mem_frames (advance : Advance s s' id call phase) {other : Int}
    (mem : other ∈ s'.frames) : other ∈ s.frames ∨ other = id ∧ call.phase = .waiting := by
  obtain ⟨same, -⟩ | ⟨more, waiting, -⟩ := advance.frames
  · rw [same] at mem
    exact .inl mem
  · rw [more, mem_append, mem_singleton] at mem
    exact mem.imp_right fun same => ⟨same, waiting⟩

theorem Sound.advance (sound : s.Sound) (advance : Advance s s' id call phase) : s'.Sound where
  replies := advance.replies
  fresh := by
    intro other bound
    rw [advance.nextId] at bound
    have none := sound.fresh other bound
    have ne : other ≠ id := by
      rintro rfl
      rw [advance.found] at none
      cases none
    rw [advance.calls, update_of_ne ne]
    exact none
  unknown := by
    intro other none
    have ne : other ≠ id := by
      rintro rfl
      rw [advance.calls, update_self] at none
      cases none
    rw [advance.calls, update_of_ne ne] at none
    obtain ⟨vacant, unsent⟩ := sound.unknown other none
    refine ⟨(advance.vacant other).mpr vacant, fun mem => ?_⟩
    obtain before | ⟨same, -⟩ := advance.mem_frames mem
    · exact unsent before
    · exact ne same
  pending := by
    intro other here
    obtain ⟨before, active⟩ := advance.pending other here
    by_cases same : other = id
    · refine ⟨{ call with phase }, ?_, active same⟩
      rw [advance.calls, same, update_self]
    · obtain ⟨call', found, active'⟩ := sound.pending other before
      refine ⟨call', ?_, active'⟩
      rw [advance.calls, update_of_ne same]
      exact found
  -- A call is sent from the waiting phase alone, and a call that waits was not sent before.
  once := by
    obtain ⟨same, -⟩ | ⟨more, waiting, -⟩ := advance.frames
    · rw [same]
      exact sound.once
    · rw [more]
      apply nodup_append.mpr
      refine ⟨sound.once, nodup_singleton id, ?_⟩
      rintro other here _ there rfl
      rw [mem_singleton] at there
      subst there
      exact sound.waiting _ call advance.found waiting here
  waiting := by
    intro other call' here waits mem
    obtain ⟨rfl, rfl⟩ | ⟨ne, same⟩ := advance.call_cases here
    · obtain ⟨-, further⟩ | ⟨-, -, sending⟩ := advance.frames
      · exact further waits
      · rw [sending] at waits
        cases waits
    · obtain before | ⟨same', -⟩ := advance.mem_frames mem
      · exact sound.waiting other call' same waits before
      · exact ne same'
  result := by
    intro other call' here
    obtain ⟨rfl, rfl⟩ | ⟨ne, same⟩ := advance.call_cases here
    · exact advance.result
    · have result := sound.result other call' same
      refine ⟨?_, ?_, ?_⟩
      · rw [advance.log]
        exact result.ok
      · rw [advance.log]
        exact result.rpc
      · intro error done method certain mem
        obtain before | ⟨same', -⟩ := advance.mem_frames mem
        · exact result.unsent error done method certain before
        · exact ne same'
  -- A call keeps its owner and its method, and a call that is over stays over.
  owned := by
    intro other call' number here owner
    obtain ⟨old, found, owner', method, active⟩ := advance.before here
    obtain ⟨retried, known, same, trying⟩ := sound.owned other old number found (owner'.trans owner)
    rw [advance.retries]
    exact ⟨retried, known, same.trans method, fun active' => trying (active active')⟩
  tried := by
    intro other call' number retried here owner known method mem
    obtain ⟨old, found, owner', -⟩ := advance.before here
    rw [advance.retries] at known
    obtain before | ⟨rfl, -⟩ := advance.mem_frames mem
    · exact sound.tried other old number retried found (owner'.trans owner) known method before
    · obtain ⟨retried', known', -, trying⟩ :=
        sound.owned _ old number found (owner'.trans owner)
      rw [known, some.injEq] at known'
      subst known'
      rw [advance.found, some.injEq] at found
      subst found
      exact .inl (trying advance.active)
  single := by
    intro one two call₁ call₂ number here there owner₁ owner₂ method sent₁ sent₂
    obtain ⟨old₁, found₁, owner₁', method₁, -⟩ := advance.before here
    obtain ⟨old₂, found₂, owner₂', method₂, -⟩ := advance.before there
    have first := owner₁'.trans owner₁
    have second := owner₂'.trans owner₂
    rw [← method₁] at method
    -- the attempt of now has not sent a frame before
    have new : ∀ {other old}, s.calls other = some old → old.owner = some number →
        old.method ∉ idempotent → other ∈ s.frames → call.owner = some number →
          other = id := by
      intro other old found owner method sent owner'
      obtain ⟨retried, known, same, trying⟩ := sound.owned id call number advance.found owner'
      obtain ⟨generation, stage⟩ := trying advance.active
      obtain ⟨retried', known', same', -⟩ := sound.owned other old number found owner
      rw [known, some.injEq] at known'
      subst known'
      have unrepeated : retried.method ∉ idempotent := by
        rw [same']
        exact method
      obtain ⟨generation', stage'⟩ | over_ :=
        sound.tried other old number retried found owner known unrepeated sent
      · rw [stage] at stage'
        injection stage' with same
        exact same.symm
      · rw [stage] at over_
        cases over_
    obtain ⟨retried₁, known₁, same₁, -⟩ := sound.owned one old₁ number found₁ first
    obtain ⟨retried₂, known₂, same₂, -⟩ := sound.owned two old₂ number found₂ second
    rw [known₁, some.injEq] at known₂
    subst known₂
    have method₂' : old₂.method ∉ idempotent := by
      rw [← same₂, same₁]
      exact method
    obtain before₁ | ⟨rfl, -⟩ := advance.mem_frames sent₁
    · obtain before₂ | ⟨rfl, -⟩ := advance.mem_frames sent₂
      · exact sound.single one two old₁ old₂ number found₁ found₂ first second method before₁ before₂
      · rw [advance.found, some.injEq] at found₂
        subst found₂
        exact new found₁ first method before₁ second
    · rw [advance.found, some.injEq] at found₁
      subst found₁
      obtain before₂ | ⟨rfl, -⟩ := advance.mem_frames sent₂
      · exact (new found₂ second method₂' before₂ first).symm
      · rfl

theorem advance_finish (sound : s.Sound) (found : s.calls id = some call)
    (active : call.phase.active = true) (ended : phase ≠ .waiting)
    (result : s.Result id call.method phase) :
    Advance s (s.finish id call phase) id call phase where
  found := found
  active := active
  calls := rfl
  nextId := rfl
  retries := rfl
  replies := sound.replies.remove
  vacant := fun _ => Replies.remove_vacant sound.replies
  log := rfl
  pending := by
    intro other pending
    obtain ⟨ne, before⟩ := Replies.pending_of_remove pending
    exact ⟨before, fun same => absurd same ne⟩
  frames := .inl ⟨rfl, ended⟩
  result := ⟨result.ok, result.rpc, result.unsent⟩

theorem Sound.finish (sound : s.Sound) (found : s.calls id = some call)
    (active : call.phase.active = true) (ended : phase ≠ .waiting)
    (result : s.Result id call.method phase) : (s.finish id call phase).Sound :=
  sound.advance (advance_finish sound found active ended result)

theorem Sound.fail {error : ClientError} (sound : s.Sound) (found : s.calls id = some call)
    (active : call.phase.active = true) (certain : error.certain = true) :
    (s.fail id call error).Sound := by
  refine sound.finish found active nofun ⟨?_, ?_, ?_⟩
  · exact nofun
  · intro code message same
    simp only [CallPhase.done.injEq, Except.error.injEq] at same
    split at same
    · rw [same] at certain
      cases certain
    · rw [requestTransportError] at same
      split at same
      · rw [same] at certain
        cases certain
      · cases same
  · intro error' same method certain'
    simp only [CallPhase.done.injEq, Except.error.injEq] at same
    split at same
    · rename_i waits
      exact sound.waiting id call found waits
    · rw [← same, certain_of_requestTransportError method] at certain'
      cases certain'

/-! ## The steps of a call -/

theorem sound_lock (sound : s.Sound) (next : s.lock id = some s') : s'.Sound := by
  obtain ⟨call, found, next⟩ := bind_eq_some_iff.mp next
  split at next
  · rename_i waits free
    cases next
    have advance : Advance s { s.goto id call .sending with
        writer := some (.call id), frames := s.frames ++ [id] } id call .sending := {
      found
      active := by rw [waits]; rfl
      calls := rfl
      nextId := rfl
      retries := rfl
      replies := sound.replies
      vacant := fun _ => .rfl
      log := rfl
      pending := fun _ pending => ⟨pending, fun _ => rfl⟩
      frames := .inr ⟨rfl, waits, rfl⟩
      result := ⟨nofun, nofun, nofun⟩ }
    exact sound.advance advance
  · cases next

theorem sound_sent (sound : s.Sound) (next : s.sent id = some s') : s'.Sound := by
  obtain ⟨call, found, next⟩ := bind_eq_some_iff.mp next
  split at next
  · rename_i sends
    cases next
    have advance : Advance s ((s.goto id call .receiving).release id) id call .receiving := {
      found
      active := by rw [sends]; rfl
      calls := rfl
      nextId := rfl
      retries := rfl
      replies := sound.replies
      vacant := fun _ => .rfl
      log := rfl
      pending := fun _ pending => ⟨pending, fun _ => rfl⟩
      frames := .inl ⟨rfl, nofun⟩
      result := ⟨nofun, nofun, nofun⟩ }
    exact sound.advance advance
  · cases next

theorem sound_failed {text : String} (sound : s.Sound) (next : s.failed id text = some s') :
    s'.Sound := by
  obtain ⟨call, found, next⟩ := bind_eq_some_iff.mp next
  split at next
  · rename_i sends
    cases next
    exact sound.fail found (by rw [sends]; rfl) rfl
  · cases next

theorem sound_receive (sound : s.Sound) (next : s.receive id = some s') : s'.Sound := by
  obtain ⟨call, found, next⟩ := bind_eq_some_iff.mp next
  split at next
  · rename_i value receives answered
    cases next
    refine sound.finish found (by rw [receives]; rfl) nofun ⟨?_, nofun, nofun⟩
    rintro value' same
    cases same
    exact (sound.replies.answered id _).mpr answered
  · rename_i error receives answered
    cases next
    refine sound.finish found (by rw [receives]; rfl) nofun ⟨nofun, ?_, ?_⟩
    · intro code message same
      cases same
      exact (sound.replies.answered id _).mpr answered
    · intro error same _ certain
      cases same
      cases certain
  · rename_i receives closed
    cases next
    exact sound.fail found (by rw [receives]; rfl) rfl
  · cases next

theorem sound_expire (sound : s.Sound) (next : s.expire id = some s') : s'.Sound := by
  obtain ⟨call, found, next⟩ := bind_eq_some_iff.mp next
  split at next
  · rename_i active
    cases next
    exact sound.fail found active rfl
  · cases next

theorem sound_cancel (sound : s.Sound) (next : s.cancel id = some s') : s'.Sound := by
  obtain ⟨call, found, next⟩ := bind_eq_some_iff.mp next
  split at next
  · rename_i active
    cases next
    exact sound.finish found active nofun ⟨nofun, nofun, nofun⟩
  · cases next

/-! ## The reader -/

theorem Sound.replies_changed {t : Replies Int (Response V)} (sound : s.Sound) (table : t.Sound)
    (vacant : ∀ other, t.slot other = .vacant ↔ s.replies.slot other = .vacant)
    (log : ∀ entry ∈ s.replies.log, entry ∈ t.log)
    (pending : ∀ other, t.pending other = true → s.replies.pending other = true) :
    ({ s with replies := t } : RpcState V).Sound where
  replies := table
  fresh := sound.fresh
  unknown := fun other none =>
    ⟨(vacant other).mpr (sound.unknown other none).1, (sound.unknown other none).2⟩
  pending := fun other here => sound.pending other (pending other here)
  once := sound.once
  waiting := sound.waiting
  result := fun other call found =>
    have result := sound.result other call found
    ⟨fun value same => log _ (result.ok value same),
      fun code message same => log _ (result.rpc code message same), result.unsent⟩
  owned := sound.owned
  tried := sound.tried
  single := sound.single

theorem sound_read {response : Response V} (sound : s.Sound)
    (next : s.read id response = some s') : s'.Sound := by
  simp only [read] at next
  split at next
  · cases next
    apply sound.replies_changed sound.replies.answer
    · exact fun _ => Replies.answer_vacant sound.replies
    · intro entry mem
      by_cases pending : s.replies.pending id = true <;> simp [Replies.answer, pending, mem]
    · exact fun _ => Replies.pending_of_answer
  · cases next

theorem sound_disconnect (sound : s.Sound) (next : s.disconnect = some s') : s'.Sound := by
  simp only [disconnect] at next
  split at next
  · cases next
    have cleared := sound.replies_changed sound.replies.clear
      (fun _ => Replies.clear_vacant sound.replies) (fun _ mem => mem) nofun
    exact cleared.of_same rfl rfl rfl rfl rfl
  · cases next

/-! ## Calls that are repeated -/

theorem Sound.stage {number : Nat} {retried : Retried V} {stage : RetryStage V} (sound : s.Sound)
    (known : ∀ old, s.retries number = some old → old.method = retried.method)
    (idle : ∀ id call, s.calls id = some call → call.owner = some number →
      call.phase.active = false)
    (sent : ∀ id call, s.calls id = some call → call.owner = some number →
      call.method ∉ idempotent → id ∈ s.frames → stage.ended = true) :
    (s.stage number retried stage).Sound where
  replies := sound.replies
  fresh := sound.fresh
  unknown := sound.unknown
  pending := sound.pending
  once := sound.once
  waiting := sound.waiting
  result := fun id call found =>
    have result := sound.result id call found
    ⟨result.ok, result.rpc, result.unsent⟩
  owned := by
    intro id call other found owner
    obtain ⟨old, here, same, trying⟩ := sound.owned id call other found owner
    by_cases ne : other = number
    · subst ne
      refine ⟨{ retried with stage }, update_self _ _ _, ?_, ?_⟩
      · rw [← same, known old here]
      · intro active
        rw [idle id call found owner] at active
        cases active
    · exact ⟨old, (update_of_ne ne _ _).trans here, same, trying⟩
  tried := by
    intro id call other old found owner here method mem
    have here : update s.retries number (some { retried with stage }) other = some old := here
    by_cases ne : other = number
    · subst ne
      rw [update_self, some.injEq] at here
      subst here
      obtain ⟨old, here, same, -⟩ := sound.owned id call other found owner
      refine .inr (sent id call found owner ?_ mem)
      rw [← same, known old here]
      exact method
    · rw [update_of_ne ne] at here
      exact sound.tried id call other old found owner here method mem
  single := sound.single

section

variable {number : Nat} {retried : Retried V}

/-- Only a call that is tried has an attempt going on. -/
theorem Sound.idle (sound : s.Sound) (known : s.retries number = some retried)
    (other : ∀ id generation, retried.stage = .trying id generation →
      ∀ call, s.calls id = some call → call.phase.active = false)
    (found : s.calls id = some call) (owner : call.owner = some number) :
    call.phase.active = false := by
  by_contra active
  rw [Bool.not_eq_false] at active
  obtain ⟨retried', known', -, trying⟩ := sound.owned id call number found owner
  rw [known, some.injEq] at known'
  subst known'
  obtain ⟨generation, stage⟩ := trying active
  rw [other id generation stage call found] at active
  cases active

theorem Sound.sent_cases (sound : s.Sound) (known : s.retries number = some retried)
    (found : s.calls id = some call) (owner : call.owner = some number)
    (method : call.method ∉ idempotent) (mem : id ∈ s.frames) :
    (∃ generation, retried.stage = .trying id generation) ∨ retried.stage.ended = true := by
  obtain ⟨retried', known', same, -⟩ := sound.owned id call number found owner
  rw [known, some.injEq] at known'
  subst known'
  apply sound.tried id call number retried found owner known ?_ mem
  rw [same]
  exact method

theorem sound_settle (sound : s.Sound) (next : s.settle number = some s') : s'.Sound := by
  obtain ⟨retried, known, next⟩ := bind_eq_some_iff.mp next
  have same : ∀ old, s.retries number = some old → old.method = retried.method := by
    intro old here
    rw [known, some.injEq] at here
    rw [here]
  split at next
  · rename_i id generation stage
    obtain ⟨call, found, next⟩ := bind_eq_some_iff.mp next
    -- the attempt has its result
    have idle : call.phase.active = false → ∀ id call, s.calls id = some call →
        call.owner = some number → call.phase.active = false := by
      intro finished id' call' found' owner
      apply sound.idle known ?_ found' owner
      intro id₂ generation₂ stage₂ call₂ found₂
      rw [stage] at stage₂
      injection stage₂ with same
      subst same
      rw [found, some.injEq] at found₂
      subst found₂
      exact finished
    -- an attempt whose error is certain has sent nothing
    have unsent : ∀ error, call.phase = .done (.error error) → error.certain = true →
        ∀ id call, s.calls id = some call → call.owner = some number →
          call.method ∉ idempotent → id ∉ s.frames := by
      intro error finished certain id' call' found' owner method mem
      obtain ⟨generation', stage'⟩ | over_ := sound.sent_cases known found' owner method mem
      · rw [stage] at stage'
        injection stage' with same
        subst same
        rw [found, some.injEq] at found'
        subst found'
        exact (sound.result id call found).unsent error finished method certain mem
      · rw [stage] at over_
        cases over_
    split at next
    · rename_i finished
      cases next
      apply sound.stage same (idle (by rw [finished]; rfl))
      intro id call found owner method mem
      exact absurd mem (unsent _ finished rfl id call found owner method)
    · rename_i text finished
      cases next
      apply sound.stage same (idle (by rw [finished]; rfl))
      intro id call found owner method mem
      exact absurd mem (unsent _ finished rfl id call found owner method)
    · rename_i result _ _ finished
      cases next
      exact sound.stage same (idle (by rw [finished]; rfl)) fun _ _ _ _ _ _ => rfl
    · cases next
  · cases next

theorem sound_reconnected (sound : s.Sound) (next : s.reconnected number = some s') : s'.Sound := by
  obtain ⟨retried, known, next⟩ := bind_eq_some_iff.mp next
  split at next
  · rename_i generation stage
    split at next
    · cases next
      apply sound.stage
      · intro old here
        rw [known, some.injEq] at here
        rw [here]
      · intro id call
        apply sound.idle known
        intro _ _ trying
        rw [stage] at trying
        cases trying
      · intro id call found owner method mem
        obtain ⟨_, trying⟩ | over_ := sound.sent_cases known found owner method mem
        · rw [stage] at trying
          cases trying
        · rw [stage] at over_
          cases over_
    · cases next
  · cases next

theorem sound_leave {last : RetryStage V} (sound : s.Sound) (ended : last.ended = true)
    (next : s.leave number last = some s') : s'.Sound := by
  obtain ⟨retried, known, next⟩ := bind_eq_some_iff.mp next
  have same : ∀ old, s.retries number = some old → old.method = retried.method := by
    intro old here
    rw [known, some.injEq] at here
    rw [here]
  split at next
  · rename_i stage
    cases next
    apply sound.stage same ?_ fun _ _ _ _ _ _ => ended
    intro id call
    apply sound.idle known
    intro _ _ trying
    rw [stage] at trying
    cases trying
  · rename_i generation stage
    cases next
    apply sound.stage same ?_ fun _ _ _ _ _ _ => ended
    intro id call
    apply sound.idle known
    intro _ _ trying
    rw [stage] at trying
    cases trying
  · rename_i id generation stage
    cases next
    cases cancelled : s.cancel id with
    | none =>
      -- the attempt has its result already
      apply sound.stage same ?_ fun _ _ _ _ _ _ => ended
      intro id' call'
      apply sound.idle known
      intro id₂ generation₂ stage₂ call₂ found₂
      rw [stage] at stage₂
      injection stage₂ with same
      subst same
      simpa [cancel, found₂] using cancelled
    | some t =>
      have after := sound_cancel sound cancelled
      obtain ⟨call, found, cancelled⟩ := bind_eq_some_iff.mp cancelled
      split at cancelled
      · cases cancelled
        apply after.stage same ?_ fun _ _ _ _ _ _ => ended
        intro id' call'
        apply after.idle known
        intro id₂ generation₂ stage₂ call₂ found₂
        rw [stage] at stage₂
        injection stage₂ with same
        subst same
        have found₂ : update s.calls id (some { call with phase := .cancelled }) id = some call₂ :=
          found₂
        rw [update_self, some.injEq] at found₂
        rw [← found₂]
        rfl
      · cases cancelled
  · cases next
  · cases next

end

end RpcState

end Agentix.Codex

/-! # Runs of requests

New calls, and what holds in every run.
-/

namespace Agentix.Codex

open Lib Option Function

variable {V : Type}

namespace RpcState

variable {s s' : RpcState V} {method : String} {owner : Option Nat}
  {retries : Nat → Option (Retried V)}

theorem Sound.register (sound : s.Sound)
    (owned : ∀ number, owner = some number → ∃ old generation, s.retries number = some old ∧
      old.method = method ∧ old.stage = .ready ∧
        retries number = some ⟨method, .trying s.nextId generation⟩)
    (others : ∀ number, owner ≠ some number → retries number = s.retries number) :
    ({ s.register method owner with retries } : RpcState V).Sound := by
  have new := sound.fresh s.nextId (le_refl _)
  obtain ⟨vacant, unsent⟩ := sound.unknown s.nextId new
  -- what is known of a call
  have call_cases : ∀ {id call}, update s.calls s.nextId (some ⟨method, owner, .waiting⟩) id =
      some call → (id = s.nextId ∧ call = ⟨method, owner, .waiting⟩) ∨
        (id ≠ s.nextId ∧ s.calls id = some call) := of_update_some
  -- a call that is ready has no attempt, and has sent nothing
  have ready : ∀ {id call number}, s.calls id = some call → call.owner = some number →
      owner = some number → call.method = method ∧ call.phase.active = false ∧
        (call.method ∉ idempotent → id ∉ s.frames) := by
    intro id call number found holder same
    obtain ⟨old, generation, known, rfl, stage, -⟩ := owned number same
    obtain ⟨retried, known', named, trying⟩ := sound.owned id call number found holder
    rw [known, some.injEq] at known'
    subst known'
    refine ⟨named.symm, ?_, fun unrepeated mem => ?_⟩
    · by_contra active
      rw [Bool.not_eq_false] at active
      obtain ⟨_, wrong⟩ := trying active
      rw [stage] at wrong
      cases wrong
    · obtain ⟨_, wrong⟩ | wrong := sound.sent_cases known found holder unrepeated mem
      · rw [stage] at wrong
        cases wrong
      · rw [stage] at wrong
        cases wrong
  exact {
    replies := sound.replies.register vacant
    fresh := by
      intro id bound
      have bound : s.nextId + 1 ≤ id := bound
      show update s.calls s.nextId (some ⟨method, owner, .waiting⟩) id = none
      rw [update_of_ne (by omega)]
      exact sound.fresh id (by omega)
    unknown := by
      intro id free
      have free : update s.calls s.nextId (some ⟨method, owner, .waiting⟩) id = none := free
      have ne : id ≠ s.nextId := by
        rintro rfl
        rw [update_self] at free
        cases free
      rw [update_of_ne ne] at free
      obtain ⟨before, out⟩ := sound.unknown id free
      exact ⟨(Replies.register_slot_of_ne ne).trans before, out⟩
    pending := by
      intro id pending
      show ∃ call, update s.calls s.nextId (some ⟨method, owner, .waiting⟩) id = some call ∧ _
      by_cases same : id = s.nextId
      · subst same
        exact ⟨_, update_self _ _ _, rfl⟩
      · have before := (Replies.register_pending_of_ne same).symm.trans pending
        obtain ⟨call, found, active⟩ := sound.pending id before
        exact ⟨call, (update_of_ne same _ _).trans found, active⟩
    once := sound.once
    waiting := by
      intro id call found waits
      obtain ⟨rfl, -⟩ | ⟨-, before⟩ := call_cases found
      · exact unsent
      · exact sound.waiting id call before waits
    result := by
      intro id call found
      obtain ⟨rfl, rfl⟩ | ⟨-, before⟩ := call_cases found
      · exact ⟨nofun, nofun, nofun⟩
      · have result := sound.result id call before
        exact ⟨result.ok, result.rpc, result.unsent⟩
    owned := by
      intro id call number found holder
      obtain ⟨rfl, rfl⟩ | ⟨-, before⟩ := call_cases found
      · obtain ⟨old, generation, -, -, -, now⟩ := owned number holder
        exact ⟨_, now, rfl, fun _ => ⟨generation, rfl⟩⟩
      · by_cases same : owner = some number
        · obtain ⟨old, generation, -, -, -, now⟩ := owned number same
          obtain ⟨named, idle, -⟩ := ready before holder same
          refine ⟨_, now, named.symm, fun active => ?_⟩
          rw [idle] at active
          cases active
        · obtain ⟨retried, known, named, trying⟩ := sound.owned id call number before holder
          exact ⟨retried, (others number same).trans known, named, trying⟩
    tried := by
      intro id call number retried found holder known unrepeated mem
      obtain ⟨rfl, -⟩ | ⟨-, before⟩ := call_cases found
      · exact absurd mem unsent
      · by_cases same : owner = some number
        · obtain ⟨old, generation, -, -, -, now⟩ := owned number same
          obtain ⟨named, -, out⟩ := ready before holder same
          have known : retries number = some retried := known
          rw [now, some.injEq] at known
          subst known
          refine absurd mem (out ?_)
          rw [named]
          exact unrepeated
        · have known : retries number = some retried := known
          rw [others number same] at known
          exact sound.tried id call number retried before holder known unrepeated mem
    single := by
      intro one two call₁ call₂ number here there owner₁ owner₂ unrepeated sent₁ sent₂
      obtain ⟨rfl, -⟩ | ⟨-, before₁⟩ := call_cases here
      · exact absurd sent₁ unsent
      · obtain ⟨rfl, -⟩ | ⟨-, before₂⟩ := call_cases there
        · exact absurd sent₂ unsent
        · exact sound.single one two call₁ call₂ number before₁ before₂ owner₁ owner₂ unrepeated
            sent₁ sent₂ }

theorem sound_attempt {number : Nat} (sound : s.Sound) (next : s.attempt number = some s') :
    s'.Sound := by
  obtain ⟨retried, known, next⟩ := bind_eq_some_iff.mp next
  split at next
  · rename_i stage
    cases next
    apply sound.register
    · intro other same
      cases same
      exact ⟨retried, s.generation, known, rfl, stage, update_self _ _ _⟩
    · intro other ne
      have apart : other ≠ number := by
        rintro rfl
        exact ne rfl
      exact update_of_ne apart _ _
  · cases next

theorem sound_retry {number : Nat} (sound : s.Sound) (new : s.retries number = none) :
    (s.stage number ⟨method, .ready⟩ .ready).Sound := by
  -- no attempt belongs to a call that has not been made
  have none : ∀ id call, s.calls id = some call → call.owner ≠ some number := by
    intro id call found owner
    obtain ⟨_, known, -⟩ := sound.owned id call number found owner
    rw [new] at known
    cases known
  apply sound.stage
  · intro old known
    rw [new] at known
    cases known
  · intro id call found owner
    exact absurd owner (none id call found)
  · intro id call found owner
    exact absurd owner (none id call found)

theorem sound_step {step : RpcStep V} (sound : s.Sound) (next : s.step step = some s') :
    s'.Sound := by
  cases step with
  | request method =>
    cases next
    exact sound.register nofun fun _ _ => rfl
  | retry number method =>
    simp only [RpcState.step] at next
    split at next
    · rename_i new
      cases next
      exact sound_retry sound (isNone_iff_eq_none.mp new)
    · cases next
  | attempt number => exact sound_attempt sound next
  | settle number => exact sound_settle sound next
  | reconnected number => exact sound_reconnected sound next
  | deadline number | abandon number => exact sound_leave sound rfl next
  | lock id => exact sound_lock sound next
  | sent id => exact sound_sent sound next
  | failed id text => exact sound_failed sound next
  | receive id => exact sound_receive sound next
  | expire id => exact sound_expire sound next
  | cancel id =>
    simp only [RpcState.step] at next
    split at next
    · exact sound_cancel sound next
    · cases next
  | response id response => exact sound_read sound next
  | ping =>
    simp only [RpcState.step, ping] at next
    split at next <;> cases next
    exact sound.of_same rfl rfl rfl rfl rfl
  | pong =>
    simp only [RpcState.step, pong] at next
    split at next <;> cases next
    exact sound.of_same rfl rfl rfl rfl rfl
  | disconnect => exact sound_disconnect sound next
  | swap =>
    simp only [RpcState.step, swap] at next
    split at next <;> cases next
    exact sound.of_same rfl rfl rfl rfl rfl
  | restored =>
    simp only [RpcState.step, restored] at next
    split at next <;> cases next
    exact sound.of_same rfl rfl rfl rfl rfl

theorem sound_of_reachable {condition : RpcState V → RpcStep V → Prop}
    (run : system.Reachable condition s) : s.Sound :=
  run.invariant Sound sound_start fun _ _ sound next => sound_step sound next

end RpcState

end Agentix.Codex
