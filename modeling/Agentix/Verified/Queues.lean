import Agentix.Queue.Recovery
import Mathlib.Tactic.DeriveEncodable

/-! # The delivery journal survives failures -/

namespace Agentix.Queue

open Lib Option
open DurableQueue

variable {R : Type} {env : Settings R} {s s' : State R}

/-- However the process is killed, the queue opens again. -/
structure State.Survives (env : Settings R) (s : State R) : Prop where
  between : ∃ s', openQueue env s.disk = some s' ∧ s.Recovers s'
  during : ∀ op progress, s.Keeps env (.kill (some (op, progress))) →
    ∃ s', openQueue env (s.torn env op progress) = some s' ∧
      (s.Recovers s' ∨ (s.operate env op none).Recovers s')

theorem keys_empty (size : Option (Size R)) : (ofSaved size (.empty : Saved R)).Keys :=
  ⟨.nil, .nil, .nil⟩

theorem State.Intact.new : (openNew env fun _ => none).Intact env := by
  have saved : (replayed [.checkpoint (.empty : Saved R)]).toSaved =
      (ofSaved (some env.size) .empty).toSaved := rfl
  have empty : (ofSaved (some env.size) (.empty : Saved R)).Keys := keys_empty (some env.size)
  refine ⟨empty, [.checkpoint .empty], [], ?_, by simp, empty.of_toSaved saved, ?_⟩
  · simp [openNew, Codec.journal]
  · exact agree_of_toSaved saved fun _ => rfl

theorem State.Intact.step {label : Step R} (intact : s.Intact env) (keeps : s.Keeps env label)
    (next : s.step env label = some s') : s'.Intact env := by
  cases label with
  | run op fault =>
    cases next
    exact intact.operate keeps
  | kill during =>
    cases during with
    | none =>
      obtain ⟨opened, opens, intact', -⟩ := intact.opens
      obtain rfl : opened = s' := some.inj (opens.symm.trans next)
      exact intact'
    | some during =>
      obtain ⟨opened, opens, intact', -⟩ := intact.torn keeps
      obtain rfl : opened = s' := some.inj (opens.symm.trans next)
      exact intact'

theorem delivery_journal_survives (env : Settings R) (s : State R)
    (run : (system env).Reachable (State.Keeps env) s) : s.Survives env := by
  have intact : s.Intact env :=
    run.invariant (State.Intact env) .new fun _ keeps intact next => intact.step keeps next
  constructor
  · obtain ⟨s', opens, -, recovers⟩ := intact.opens
    exact ⟨s', opens, recovers⟩
  · intro op progress keeps
    obtain ⟨s', opens, -, recovers⟩ := intact.torn keeps
    exact ⟨s', opens, recovers⟩

/-! ## A record after a fragment -/

deriving instance Encodable for Item, Intent, Failure, Receipt, Saved, Delta, Change, Record

/-- The settings of a host without options. -/
def defaults : Settings Unit := ⟨2048, 4096, fun _ _ _ => 0, .ofEncodable⟩

def opened : State Unit := openNew defaults fun _ => none

def finishing : Change Unit := ⟨.state, false, none, none⟩

theorem opened_bytes : opened.live.journalBytes ≤ 1048002 :=
  Codec.length_ofEncodable (by decide +kernel)

theorem trimmed_eq_self (small : s.live.queue.trim env = (s.live.queue, [])) :
    s.live.trimmed env = s.live := by
  rw [Live.trimmed, small]

theorem checkpointed_eq_self (small : s.live.queue.trim env = (s.live.queue, []))
    (soon : s.live.due env = false) : s.live.checkpointed env = s.live := by
  rw [Live.checkpointed, trimmed_eq_self small, if_neg (by simp [soon])]

/-- Where no receipt leaves and no checkpoint is due, an operation writes its record only. -/
theorem persist_record {change : Change R} {fault : Option Nat}
    (small : s.live.queue.trim env = (s.live.queue, [])) (soon : s.live.due env = false)
    (admitted : s.live.queue.admits change.delta = true) : s.persist env change fault =
      match fault with
      | none => ⟨s.live.appended env change,
          { s.disk with file := s.disk.file ++ State.line env change }⟩
      | some written => ⟨s.live,
          { s.disk with file := s.disk.file ++ (State.line env change).dropLast.take written }⟩ := by
  have writes : s.live.writes env change = [] := by
    rw [Live.writes, trimmed_eq_self small, small, if_neg (by simp [soon])]
    rfl
  unfold State.persist
  rw [writes, trimmed_eq_self small, checkpointed_eq_self small soon]
  dsimp only
  rw [if_pos admitted]
  rfl

theorem opened_due : opened.live.due defaults = false := by
  have few : decide (byteLimit ≤ opened.live.journalBytes) = false := by
    have bytes := opened_bytes
    unfold byteLimit
    simp only [decide_eq_false_iff_not]
    omega
  unfold Live.due
  rw [few]
  rfl

theorem opened_small : opened.live.queue.trim defaults = (opened.live.queue, []) := by
  have fits : opened.live.queue.fits defaults.maxReceipts byteLimit = true := by decide
  unfold DurableQueue.trim DurableQueue.trimReceipts
  rw [if_pos fits]

/-- An item that is queued, and its record. -/
def item : Item := ⟨[1], [104]⟩

def queuing : Change Unit := ⟨.enqueue item, false, none, none⟩

theorem opened_file : opened.disk.file = defaults.codec.journal [.checkpoint .empty] := by
  simp [opened, openNew, Codec.journal]

theorem queued_item_survives : ∃ s : State Unit,
    s.live.queue.queue = [item] ∧ s.Survives defaults := by
  have committed : opened.commit (.enqueue item.id item.text) = some queuing := rfl
  have queued : (opened.operate defaults (.enqueue item.id item.text) none).live.queue.queue =
      [item] := by
    unfold State.operate
    rw [committed]
    dsimp only
    rw [persist_record opened_small opened_due (by rfl)]
    dsimp only [Live.appended]
    rw [checkpointed_eq_self opened_small opened_due]
    rfl
  have keeps : opened.Keeps defaults (.run (.enqueue item.id item.text) none) := by
    intro _ change commits _ _
    obtain rfl : queuing = change := some.inj (committed.symm.trans commits)
    constructor
    · have whole : endOfLines (defaults.codec.journal [.checkpoint .empty] ++ []) = _ :=
        defaults.codec.endOfLines_journal (by simp)
      rw [List.append_nil, ← opened_file] at whole
      exact whole
    · intro id result intent remembers
      cases remembers
  exact ⟨opened.operate defaults (.enqueue item.id item.text) none, queued,
    delivery_journal_survives defaults _ (System.Reachable.start.step keeps rfl)⟩

/-- `finish` on a new queue, when its append fails after a byte. -/
def spoiled : State Unit := opened.operate defaults (.finish false) (some 1)

theorem spoiled_eq : spoiled =
    ⟨opened.live, { opened.disk with file := opened.disk.file ++ [123] }⟩ := by
  have committed : opened.commit (.finish false) = some finishing := rfl
  have written : (State.line defaults finishing).dropLast.take 1 = [123] := by
    rw [dropLast_line]
    rfl
  unfold spoiled State.operate
  rw [committed]
  dsimp only
  rw [persist_record opened_small opened_due (by rfl)]
  dsimp only
  rw [written]

theorem glued_file : (spoiled.operate defaults (.finish false) none).disk.file =
    defaults.codec.journal [.checkpoint .empty] ++
      ([123] ++ defaults.codec.line (.change finishing)) := by
  have committed : spoiled.commit (.finish false) = some finishing := by
    rw [spoiled_eq]
    rfl
  unfold State.operate
  rw [committed]
  dsimp only
  rw [persist_record (s := spoiled) (by rw [spoiled_eq]; exact opened_small)
    (by rw [spoiled_eq]; exact opened_due) (by rw [spoiled_eq]; rfl), spoiled_eq, ← opened_file,
    ← List.append_assoc]
  rfl

/-- A record that follows the fragment of another cannot be read, and the queue does not open. -/
theorem failed_append_spoils_journal : ¬ ∀ s : State Unit,
    (system defaults).Reachable System.always s → s.Survives defaults := by
  intro claimed
  let glued : State Unit := spoiled.operate defaults (.finish false) none
  have failed : (system defaults).step opened (.run (.finish false) (some 1)) spoiled := rfl
  have finished : (system defaults).step spoiled (.run (.finish false) none) glued := rfl
  have run : (system defaults).Reachable System.always glued :=
    (System.Reachable.start.step trivial failed).step trivial finished
  obtain ⟨s', opens, -⟩ := (claimed glued run).between
  have spoils : defaults.codec.decode ([123] ++ defaults.codec.encode (.change finishing)) = none :=
    rfl
  have unread : defaults.codec.read glued.disk.file = none := by
    rw [glued_file]
    exact defaults.codec.read_glued (by decide) spoils
  rw [openQueue, unread] at opens
  cases opens

end Agentix.Queue
