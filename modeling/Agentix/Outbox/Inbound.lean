import Agentix.Outbox.Notifications

/-! # Inbound events

A channel may deliver an event again, and handlers run at once.  A handler claims its event before it
does anything, and what it writes at its end decides whether the event may be claimed again; where
the store fails or the task of a handler is aborted, it ends without writing.
-/

namespace Agentix.Outbox.Inbound

open Lib List
open Bindings (ChannelKind)
open Function (update update_self update_of_ne)

abbrev EventKey := ChannelKind × String

/-- The status that a statement sets, and where it does: `none` stands for a new row. -/
structure Statement where
  status : EventStatus
  allowed : List (Option EventStatus)

def claimEvent : Statement := ⟨.processing, [none, some .failed]⟩

def fenceEvent : Statement := ⟨.uncertain, [none, some .processing]⟩

def completeEvent : Statement :=
  ⟨.completed, [some .processing, some .completed, some .uncertain, some .failed, some .rejected]⟩

def releaseEvent : Statement := ⟨.failed, [some .processing]⟩

def rejectOverloaded : Statement := ⟨.rejected, [none, some .failed]⟩

inductive Entry where
  | wrote (key : EventKey) (status : EventStatus)
  | opened
  deriving DecidableEq

structure State where
  processed : EventKey → Option EventStatus := fun _ => none
  /-- The events of the handlers that run, a handler with the prompt that it puts off. -/
  running : List EventKey := []
  /-- What has happened, the latest first. -/
  log : List Entry := []

inductive Step where
  | claim (key : EventKey)
  | complete (key : EventKey)
  | release (key : EventKey)
  /-- A handler ends without writing. -/
  | leave (key : EventKey)
  /-- The event is fenced by its handler, or by who finds that the handler was aborted. -/
  | fence (key : EventKey)
  | reject (key : EventKey)
  | reopen

namespace State

def write (s : State) (statement : Statement) (key : EventKey) (running : List EventKey) : State :=
  if s.processed key ∈ statement.allowed then
    ⟨update s.processed key (some statement.status), running,
      .wrote key statement.status :: s.log⟩
  else { s with running }

def step (s : State) : Step → Option State
  | .claim key => some (if s.processed key ∈ claimEvent.allowed then
      s.write claimEvent key (key :: s.running) else s)
  | .complete key =>
    if key ∈ s.running then some (s.write completeEvent key (s.running.erase key)) else none
  | .release key =>
    if key ∈ s.running then some (s.write releaseEvent key (s.running.erase key)) else none
  | .leave key => some { s with running := s.running.erase key }
  | .fence key => some (s.write fenceEvent key s.running)
  | .reject key => some (s.write rejectOverloaded key s.running)
  | .reopen => some
    { processed := fun key =>
        (s.processed key).map fun status => if status = .processing then .failed else status
      log := .opened :: s.log }

def system : System State Step := .ofStep {} step

end State

/-! ## At most once -/

/-- The event was claimed, and its handler has neither failed nor been cut off since. -/
def Begun (key : EventKey) : List Entry → Prop
  | [] => False
  | .wrote other status :: log =>
    if other = key then status ≠ .failed ∧ (status = .processing ∨ Begun key log) else Begun key log
  | .opened :: _ => False

def Final (status : EventStatus) : Prop := status ≠ .failed ∧ status ≠ .processing

def Settled (key : EventKey) (log : List Entry) : Prop :=
  ∃ status, Final status ∧ .wrote key status ∈ log

/-- Whenever an event is claimed, it has no outcome yet and no handler can be on it. -/
def Once : List Entry → Prop
  | [] => True
  | .wrote key .processing :: log => (¬ Begun key log ∧ ¬ Settled key log) ∧ Once log
  | _ :: log => Once log

structure State.Sound (s : State) : Prop where
  nodup : s.running.Nodup
  running : ∀ key ∈ s.running, Begun key s.log
  begun : ∀ key, Begun key s.log → ∃ status, s.processed key = some status ∧ status ≠ .failed
  settled : ∀ key, Settled key s.log → ∃ status, s.processed key = some status ∧ Final status
  once : Once s.log

variable {s s' : State} {key : EventKey} {statement : Statement} {running : List EventKey}

theorem State.Sound.write (sound : s.Sound) (nodup : running.Nodup)
    (others : ∀ other ∈ running, other ≠ key → other ∈ s.running)
    (own : key ∈ running → statement.status ≠ .failed ∧
      (statement.status = .processing ∨ key ∈ s.running))
    (claims : statement.status = .processing → ∀ old, some old ∈ statement.allowed → old = .failed)
    (settles : statement.status ≠ .processing →
      ∀ old, some old ∈ statement.allowed → Final old → Final statement.status)
    (allowed : s.processed key ∈ statement.allowed) :
    State.Sound ⟨update s.processed key (some statement.status), running,
      .wrote key statement.status :: s.log⟩ := by
  have idle : statement.status = .processing → ¬ Begun key s.log ∧ ¬ Settled key s.log := by
    intro claim
    refine ⟨fun begun => ?_, fun settled => ?_⟩
    · obtain ⟨old, known, active⟩ := sound.begun key begun
      exact active (claims claim old (known ▸ allowed))
    · obtain ⟨old, known, final⟩ := sound.settled key settled
      exact final.1 (claims claim old (known ▸ allowed))
  constructor
  case nodup => exact nodup
  case running =>
    intro other mem
    by_cases same : other = key
    · subst same
      have acts := own mem
      exact (if_pos rfl).mpr ⟨acts.1, acts.2.imp_right (sound.running _)⟩
    · exact (if_neg (Ne.symm same)).mpr (sound.running _ (others other mem same))
  case begun =>
    intro other begun
    by_cases same : other = key
    · subst same
      exact ⟨_, update_self .., ((if_pos rfl).mp begun).1⟩
    · obtain ⟨old, known, active⟩ := sound.begun other ((if_neg (Ne.symm same)).mp begun)
      exact ⟨old, (update_of_ne same ..).trans known, active⟩
  case settled =>
    rintro other ⟨status, final, mem⟩
    by_cases same : other = key
    · subst same
      refine ⟨_, update_self .., ?_⟩
      obtain new | before := mem_cons.mp mem
      · cases new
        exact final
      · obtain ⟨old, known, final⟩ := sound.settled other ⟨status, final, before⟩
        by_cases claim : statement.status = .processing
        · exact absurd ⟨status, ‹_›, before⟩ (idle claim).2
        · exact settles claim old (known ▸ allowed) final
    · obtain new | before := mem_cons.mp mem
      · cases new
        exact absurd rfl same
      · obtain ⟨old, known, final⟩ := sound.settled other ⟨status, final, before⟩
        exact ⟨old, (update_of_ne same ..).trans known, final⟩
  case once =>
    cases status : statement.status with
    | processing => exact ⟨idle status, sound.once⟩
    | _ => exact sound.once

theorem State.Sound.writes (sound : s.Sound) (fewer : running <+ s.running)
    (claims : statement.status ≠ .processing)
    (fails : statement.status = .failed → key ∉ running ∧ statement.allowed = [some .processing]) :
    (s.write statement key running).Sound := by
  rw [State.write]
  split
  · rename_i allowed
    refine sound.write (sound.nodup.sublist fewer) (fun other mem _ => fewer.subset mem)
      (fun mem => ⟨fun failed => (fails failed).1 mem, .inr (fewer.subset mem)⟩)
      (fun claim => absurd claim claims) (fun _ old known final => ⟨fun failed => ?_, claims⟩) allowed
    rw [(fails failed).2, mem_singleton, Option.some.injEq] at known
    exact final.2 known
  · exact { sound with
      nodup := sound.nodup.sublist fewer
      running := fun key mem => sound.running key (fewer.subset mem) }

theorem State.Sound.step {step : Step} (sound : s.Sound) (next : s.step step = some s') :
    s'.Sound := by
  cases step with
  | claim key =>
    cases next
    split
    · rename_i allowed
      have idle : key ∉ s.running := by
        intro mem
        obtain ⟨status, known, active⟩ := sound.begun key (sound.running key mem)
        simp [known, claimEvent, active] at allowed
      rw [State.write, if_pos allowed]
      refine sound.write (nodup_cons.mpr ⟨idle, sound.nodup⟩)
        (fun other mem ne => (mem_cons.mp mem).resolve_left ne) (fun _ => ⟨by decide, .inl rfl⟩)
        (fun _ old known => ?_) (fun other => absurd rfl other) allowed
      simpa [claimEvent] using known
    · exact sound
  | complete key =>
    simp only [State.step] at next
    split at next
    · cases next
      exact sound.writes erase_sublist (by decide) fun failed => absurd failed (by decide)
    · cases next
  | release key =>
    simp only [State.step] at next
    split at next
    · cases next
      exact sound.writes erase_sublist (by decide) fun _ => ⟨sound.nodup.not_mem_erase, rfl⟩
    · cases next
  | leave key =>
    cases next
    exact { sound with
      nodup := sound.nodup.erase key
      running := fun other mem => sound.running other (mem_of_mem_erase mem) }
  | fence key =>
    cases next
    exact sound.writes (.refl _) (by decide) fun failed => absurd failed (by decide)
  | reject key =>
    cases next
    exact sound.writes (.refl _) (by decide) fun failed => absurd failed (by decide)
  | reopen =>
    cases next
    refine ⟨.nil, forall_mem_nil _, fun _ begun => False.elim begun, ?_, sound.once⟩
    rintro key ⟨status, final, mem⟩
    obtain new | before := mem_cons.mp mem
    · cases new
    · obtain ⟨old, known, final⟩ := sound.settled key ⟨status, final, before⟩
      exact ⟨old, by simp [known, final.2], final⟩

def retriedRun : List Step :=
  [.claim (.slack, "e"), .claim (.slack, "e"), .release (.slack, "e"), .claim (.slack, "e"), .reopen,
    .claim (.slack, "e"), .fence (.slack, "e"), .leave (.slack, "e"), .claim (.slack, "e")]

def retriedState : State := (retriedRun.foldlM State.step {}).getD {}

example : retriedState.running = [] := by decide +kernel

end Agentix.Outbox.Inbound
