import Mathlib.Data.List.Basic
import Mathlib.Data.List.Infix

/-! # Buffered readers

A stream comes in fragments.  The reader has what is left of the last one in its buffer, and goes on
to the next when the buffer is empty; what it reads depends on the stream and not on the fragments.
-/

namespace Agentix.Lib.Streams

open List

variable {α : Type}

/-- What is in the buffer, and the fragments to come; an empty read is the end of the stream. -/
structure Reader (α : Type) where
  buffer : List α
  incoming : List { fragment : List α // fragment ≠ [] }

namespace Reader

/-- What there is still to read. -/
def stream (reader : Reader α) : List α :=
  reader.buffer ++ (reader.incoming.map Subtype.val).flatten

/-- The next elements of the stream, at most `n` of them. -/
def read (n : Nat) (buffer : List α) :
    List { fragment : List α // fragment ≠ [] } → List α × Reader α
  | [] => (buffer.take n, ⟨buffer.drop n, []⟩)
  | fragment :: incoming =>
    if n ≤ buffer.length then (buffer.take n, ⟨buffer.drop n, fragment :: incoming⟩)
    else
      let (more, reader) := read (n - buffer.length) fragment.val incoming
      (buffer ++ more, reader)

section Until

variable [DecidableEq α]

/-- The stream up to the delimiter, at most `limit` elements of it. -/
def readUntil (delimiter : α) (limit : Nat) (buffer : List α) :
    List { fragment : List α // fragment ≠ [] } → List α × Reader α
  | [] =>
    match (buffer.take limit).findIdx? (· == delimiter) with
    | some place => (buffer.take (place + 1), ⟨buffer.drop (place + 1), []⟩)
    | none => (buffer.take limit, ⟨buffer.drop limit, []⟩)
  | fragment :: incoming =>
    match (buffer.take limit).findIdx? (· == delimiter) with
    | some place => (buffer.take (place + 1), ⟨buffer.drop (place + 1), fragment :: incoming⟩)
    | none =>
      if limit ≤ buffer.length then (buffer.take limit, ⟨buffer.drop limit, fragment :: incoming⟩)
      else
        let (more, reader) := readUntil delimiter (limit - buffer.length) fragment.val incoming
        (buffer ++ more, reader)

end Until

variable {buffer copied : List α} {incoming : List { fragment : List α // fragment ≠ [] }}
  {after : Reader α} {n limit : Nat}

theorem stream_cons (fragment : { fragment : List α // fragment ≠ [] }) :
    (Reader.mk buffer (fragment :: incoming)).stream =
      buffer ++ (Reader.mk fragment.val incoming).stream := by
  simp [stream]

/-- A read takes what the stream starts with, however it is fragmented. -/
theorem read_spec (done : read n buffer incoming = (copied, after)) :
    copied = (Reader.mk buffer incoming).stream.take n ∧
      after.stream = (Reader.mk buffer incoming).stream.drop n := by
  induction incoming generalizing n buffer copied with
  | nil =>
    cases done
    simp [stream]
  | cons fragment incoming ih =>
    rw [stream_cons]
    simp only [read] at done
    split at done
    · rename_i within
      cases done
      rw [take_append_of_le_length within, drop_append_of_le_length within, stream_cons]
      exact ⟨rfl, rfl⟩
    · rename_i past
      cases rest : read (n - buffer.length) fragment.val incoming with
      | mk more reader =>
        rw [rest] at done
        cases done
        obtain ⟨rfl, left⟩ := ih rest
        rw [take_append, drop_append, take_of_length_le (Nat.le_of_not_le past),
          drop_of_length_le (Nat.le_of_not_le past), left]
        exact ⟨rfl, rfl⟩

section Until

variable [DecidableEq α] {delimiter : α}

variable {rest text : List α}

/-- A read up to a delimiter ends behind it, or at the limit or the end of the stream before any. -/
def UpTo (delimiter : α) (limit : Nat) (copied rest : List α) : Prop :=
  (∃ text, copied = text ++ [delimiter] ∧ delimiter ∉ text ∧ text.length < limit) ∨
    delimiter ∉ copied ∧ (copied.length = limit ∨ rest = [] ∧ copied.length ≤ limit)

theorem upTo_found {place : Nat}
    (found : (buffer.take limit).findIdx? (· == delimiter) = some place) :
    UpTo delimiter limit (buffer.take (place + 1)) text := by
  obtain ⟨within, here, early⟩ := findIdx?_eq_some_iff_getElem.mp found
  rw [length_take] at within
  rw [getElem_take, beq_iff_eq] at here
  rw [take_succ_eq_append_getElem (by omega), here]
  refine .inl ⟨_, rfl, fun mem => ?_, by rw [length_take]; omega⟩
  obtain ⟨k, less, same⟩ := mem_take_iff_getElem.mp mem
  have ne := early k (by omega)
  rw [getElem_take] at ne
  simp [same] at ne

omit [DecidableEq α] in
theorem upTo_append (missing : delimiter ∉ buffer)
    (upTo : UpTo delimiter (limit - buffer.length) text rest) (room : buffer.length < limit) :
    UpTo delimiter limit (buffer ++ text) rest := by
  obtain ⟨early, rfl, clear, short⟩ | ⟨clear, same | ⟨ended, short⟩⟩ := upTo
  · refine .inl ⟨buffer ++ early, (append_assoc ..).symm, by simp [missing, clear], ?_⟩
    rw [length_append]
    omega
  · refine .inr ⟨by simp [missing, clear], .inl ?_⟩
    rw [length_append]
    omega
  · refine .inr ⟨by simp [missing, clear], .inr ⟨ended, ?_⟩⟩
    rw [length_append]
    omega

theorem readUntil_spec (done : readUntil delimiter limit buffer incoming = (copied, after)) :
    (Reader.mk buffer incoming).stream = copied ++ after.stream ∧
      UpTo delimiter limit copied after.stream := by
  have absent : ∀ {text : List α}, text.findIdx? (· == delimiter) = none → delimiter ∉ text := by
    intro text clear mem
    have ne := findIdx?_eq_none_iff.mp clear delimiter mem
    simp at ne
  induction incoming generalizing limit buffer copied with
  | nil =>
    simp only [readUntil] at done
    split at done
    · rename_i place found
      cases done
      exact ⟨by simp [stream], upTo_found found⟩
    · rename_i clear
      cases done
      refine ⟨by simp [stream], ?_⟩
      by_cases within : limit ≤ buffer.length
      · exact .inr ⟨absent clear, .inl (by rw [length_take]; omega)⟩
      · have whole : (Reader.mk (buffer.drop limit) []).stream = [] := by
          simp [stream, drop_of_length_le (show buffer.length ≤ limit by omega)]
        exact .inr ⟨absent clear, .inr ⟨whole, by rw [length_take]; omega⟩⟩
  | cons fragment incoming ih =>
    simp only [readUntil] at done
    split at done
    · rename_i place found
      cases done
      refine ⟨?_, upTo_found found⟩
      rw [stream_cons, stream_cons, ← append_assoc, take_append_drop]
    · rename_i clear
      split at done
      · cases done
        refine ⟨?_, .inr ⟨absent clear, .inl (by rw [length_take]; omega)⟩⟩
        rw [stream_cons, stream_cons, ← append_assoc, take_append_drop]
      · rename_i past
        cases rest : readUntil delimiter (limit - buffer.length) fragment.val incoming with
        | mk more reader =>
          rw [rest] at done
          cases done
          rw [take_of_length_le (by omega)] at clear
          obtain ⟨parts, upTo⟩ := ih rest
          exact ⟨by rw [stream_cons, parts, append_assoc],
            upTo_append (absent clear) upTo (by omega)⟩

omit [DecidableEq α] in
/-- The first delimiter of a stream is at one place. -/
theorem first_unique {a b rest' : List α} (clear : delimiter ∉ a) (clear' : delimiter ∉ b)
    (same : a ++ delimiter :: rest = b ++ delimiter :: rest') : a = b ∧ rest = rest' := by
  induction a generalizing b with
  | nil =>
    cases b with
    | nil => exact ⟨rfl, (cons.inj same).2⟩
    | cons c b =>
      obtain ⟨rfl, -⟩ := cons.inj same
      exact absurd mem_cons_self clear'
  | cons c a ih =>
    cases b with
    | nil =>
      obtain ⟨rfl, -⟩ := cons.inj same
      exact absurd mem_cons_self clear
    | cons d b =>
      obtain ⟨rfl, tails⟩ := cons.inj same
      rw [mem_cons, not_or] at clear clear'
      obtain ⟨rfl, rest⟩ := ih clear.2 clear'.2 tails
      exact ⟨rfl, rest⟩

theorem readUntil_of_stream (clear : delimiter ∉ text) (short : text.length < limit)
    (stream : (Reader.mk buffer incoming).stream = text ++ delimiter :: rest) :
    ∃ after, readUntil delimiter limit buffer incoming = (text ++ [delimiter], after) ∧
      after.stream = rest := by
  cases done : readUntil delimiter limit buffer incoming with
  | mk copied after =>
    obtain ⟨parts, upTo⟩ := readUntil_spec done
    rw [stream] at parts
    obtain ⟨early, rfl, clear', -⟩ | ⟨missing, same | ⟨ended, -⟩⟩ := upTo
    · rw [append_assoc, singleton_append] at parts
      obtain ⟨rfl, rfl⟩ := first_unique clear clear' parts
      exact ⟨after, rfl, rfl⟩
    · -- what is copied is longer than the text, so it would have the delimiter
      obtain ⟨more, rfl, tail⟩ | ⟨more, rfl, tail⟩ := append_eq_append_iff.mp parts
      · cases more with
        | nil =>
          rw [append_nil] at same
          omega
        | cons c more =>
          obtain ⟨rfl, -⟩ := cons.inj tail
          exact absurd (mem_append_right _ mem_cons_self) missing
      · rw [length_append] at short
        omega
    · rw [ended, append_nil] at parts
      exact absurd (parts ▸ mem_append_right _ mem_cons_self) missing

end Until

end Reader

end Agentix.Lib.Streams
