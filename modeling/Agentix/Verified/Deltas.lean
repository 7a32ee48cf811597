import Agentix.Lib.Overlap
import Agentix.Lib.Utf8
import Agentix.Output.History

/-! # Text that is seen twice is kept once -/

namespace Agentix.Output

open Lib List Option

variable {pattern text : List UInt8} {table : List Nat} {byte : UInt8} {inHistory : Bool}

/-! ## The table -/

/-- The first entries of the table are the longest overlaps of the pattern with its own starts. -/
def Tabulates (pattern : List UInt8) (table : List Nat) (size : Nat) : Prop :=
  ∀ i < size, ∃ k, table[i]? = some k ∧ Longest pattern (pattern.take (i + 1)).tail k

/-- The longest overlap that goes on with the byte, or none. -/
structure Falls (pattern text : List UInt8) (byte : UInt8) (k : Nat) : Prop where
  overlaps : Overlaps pattern text k
  longest : ∀ j, Overlaps pattern text j → k < j → pattern[j]? ≠ some byte
  ends : k = 0 ∨ pattern[k]? = some byte

theorem fallBack_falls (byte : UInt8) (fuel : Nat) {k : Nat} (tabulates : Tabulates pattern table k)
    (overlaps : Overlaps pattern text k)
    (longest : ∀ j, Overlaps pattern text j → k < j → pattern[j]? ≠ some byte)
    (inside : inHistory = true ∨ k < pattern.length) (enough : k < fuel) :
    ∃ m ≤ k, fallBack pattern table byte inHistory fuel k = some m ∧ Falls pattern text byte m := by
  induction fuel generalizing k with
  | zero => omega
  | succ fuel ih =>
    unfold fallBack
    by_cases none : k = 0
    · rw [if_pos none]
      exact ⟨0, by omega, rfl, none ▸ overlaps, none ▸ longest, .inl rfl⟩
    rw [if_neg none]
    -- the next shorter overlap is in the table, where this one does not go on
    obtain ⟨next, entry, own⟩ := tabulates (k - 1) (by omega)
    rw [Nat.sub_add_cancel (by omega)] at own
    obtain ⟨shorter, overlaps', between⟩ := overlaps.next own (by omega)
    have falls (stuck : pattern[k]? ≠ some byte) :
        ∃ m ≤ k, fallBack pattern table byte inHistory fuel next = some m ∧
          Falls pattern text byte m := by
      have longest' : ∀ j, Overlaps pattern text j → next < j → pattern[j]? ≠ some byte := by
        intro j also above
        obtain below | rfl | above' := Nat.lt_trichotomy j k
        · have := between j also below
          omega
        · exact stuck
        · exact longest j also above'
      obtain ⟨m, below, same, found⟩ := ih
        (fun i small => tabulates i (by omega)) overlaps' longest'
        (inside.imp_right fun small => by omega) (by omega)
      exact ⟨m, by omega, same, found⟩
    by_cases whole : (inHistory && k == pattern.length) = true
    · rw [if_pos whole, entry]
      apply falls
      simp only [Bool.and_eq_true, beq_iff_eq] at whole
      rw [getElem?_eq_none (by omega)]
      simp
    · rw [if_neg whole]
      have within : k < pattern.length := by
        have bound := overlaps.1
        obtain history | small := inside
        · simp [history] at whole
          omega
        · exact small
      rw [getElem?_eq_getElem within]
      by_cases goes : byte = pattern[k]
      · refine ⟨k, Nat.le_refl _, by simp [goes], overlaps, longest, .inr ?_⟩
        rw [getElem?_eq_getElem within, goes]
      · obtain ⟨m, below, same, found⟩ := falls fun same => by
          rw [getElem?_eq_getElem within, some.injEq] at same
          exact goes same.symm
        exact ⟨m, below, by simpa [goes, entry] using same, found⟩

theorem advance_longest (byte : UInt8) (inHistory : Bool) {k : Nat} (nonempty : pattern ≠ [])
    (tabulates : Tabulates pattern table k)
    (longest : Longest pattern text k) (inside : inHistory = true ∨ k < pattern.length) :
    ∃ m, advance pattern table byte inHistory k = some m ∧
      Longest pattern (text ++ [byte]) m := by
  obtain ⟨m, -, same, falls⟩ := fallBack_falls byte (k + 1) tabulates
    longest.overlaps
    (fun j also above => by
      have := longest.le_of_overlaps j also
      omega)
    inside (by omega)
  have size : 0 < pattern.length := length_pos_iff.mpr nonempty
  have within : m < pattern.length := by
    obtain rfl | goes := falls.ends
    · exact size
    · exact (List.getElem?_eq_some_iff.mp goes).1
  unfold advance
  rw [same]
  by_cases goes : byte = pattern[m]
  · refine ⟨m + 1, ?_, Longest.concat falls.overlaps ?_ falls.longest⟩
    · simp [getElem?_eq_getElem within, goes]
    · rw [getElem?_eq_getElem within, goes]
  · have stuck : pattern[m]? ≠ some byte := by
      rw [getElem?_eq_getElem within]
      exact fun same => goes (some.inj same).symm
    obtain rfl : m = 0 := falls.ends.resolve_right stuck
    refine ⟨0, by simp [getElem?_eq_getElem within, goes], Longest.concat_zero ?_⟩
    intro j also
    cases j with
    | zero => exact stuck
    | succ j => exact falls.longest _ also (by omega)

theorem Tabulates.mono {size small : Nat} (tabulates : Tabulates pattern table size)
    (within : small ≤ size) : Tabulates pattern table small :=
  fun i below => tabulates i (by omega)

theorem extendTable_tabulates {index : Nat} (some : 0 < index) (inside : index < pattern.length)
    (size : table.length = pattern.length) (tabulates : Tabulates pattern table index) :
    ∃ table', extendTable pattern table index = .some table' ∧
      table'.length = pattern.length ∧ Tabulates pattern table' (index + 1) := by
  obtain ⟨k, entry, longest⟩ := tabulates (index - 1) (by omega)
  rw [Nat.sub_add_cancel (by omega)] at longest
  have bound := longest.overlaps.le_length
  rw [length_tail, length_take] at bound
  have nonempty : pattern ≠ [] := ne_nil_of_length_pos (by omega)
  obtain ⟨m, advances, longest'⟩ := advance_longest pattern[index] false nonempty
    (tabulates.mono (by omega)) longest (.inr (by omega))
  have grown : (pattern.take index).tail ++ [pattern[index]] = (pattern.take (index + 1)).tail := by
    rw [take_add_one, getElem?_eq_getElem inside, toList_some,
      tail_append_of_ne_nil]
    exact ne_nil_of_length_pos (by rw [length_take]; omega)
  rw [grown] at longest'
  refine ⟨table.set index m, ?_, by rw [length_set, size], ?_⟩
  · unfold extendTable
    rw [getElem?_eq_getElem inside, entry]
    simp [advances]
  · intro i below
    by_cases last : i = index
    · subst last
      exact ⟨m, by rw [getElem?_set_self (by omega)], longest'⟩
    · obtain ⟨k, entry, longest⟩ := tabulates i (by omega)
      exact ⟨k, by rw [getElem?_set_ne (by omega), entry], longest⟩

theorem extendTable_run (count index : Nat) (some : 0 < index)
    (whole : index + count = pattern.length) (size : table.length = pattern.length)
    (tabulates : Tabulates pattern table index) :
    ∃ table', (range' index count).foldlM (extendTable pattern) table = .some table' ∧
      Tabulates pattern table' pattern.length := by
  induction count generalizing index table with
  | zero => exact ⟨table, rfl, by rwa [← whole]⟩
  | succ count ih =>
    obtain ⟨table', extended, size', tabulates'⟩ :=
      extendTable_tabulates some (by omega) size tabulates
    rw [range'_succ, foldlM_cons, extended]
    exact ih (index + 1) (by omega) (by omega) size' tabulates'

theorem prefixTable_tabulates (nonempty : pattern ≠ []) :
    ∃ table, prefixTable pattern = some table ∧ Tabulates pattern table pattern.length := by
  have size : 0 < pattern.length := length_pos_iff.mpr nonempty
  apply extendTable_run _ 1 (by omega) (by omega) (by simp)
  intro i below
  obtain rfl : i = 0 := by omega
  have none : (pattern.take 1).tail = [] := by
    apply eq_nil_of_length_eq_zero
    rw [length_tail, length_take]
    omega
  refine ⟨0, by simp [size], ?_⟩
  rw [none]
  exact .nil pattern

theorem overlap_run (rest : List UInt8) {k : Nat} (nonempty : pattern ≠ [])
    (tabulates : Tabulates pattern table pattern.length) (longest : Longest pattern text k) :
    ∃ m, rest.foldlM (fun overlap byte => advance pattern table byte true overlap) k = some m ∧
      Longest pattern (text ++ rest) m := by
  induction rest generalizing text k with
  | nil => exact ⟨k, rfl, by rwa [append_nil]⟩
  | cons byte rest ih =>
    obtain ⟨m, advances, longest'⟩ := advance_longest byte true nonempty
      (tabulates.mono longest.overlaps.1) longest (.inl rfl)
    obtain ⟨m', run, found⟩ := ih longest'
    refine ⟨m', ?_, ?_⟩
    · rw [foldlM_cons, advances]
      exact run
    · rwa [append_assoc] at found

/-! ## Characters -/

theorem contains_iff {text pattern : List Char} : contains text pattern = true ↔ pattern <:+: text := by
  rw [contains, List.any_eq_true, infix_iff_prefix_suffix]
  constructor
  · rintro ⟨rest, ends, starts⟩
    exact ⟨rest, isPrefixOf_iff_prefix.mp starts, (mem_tails _ _).mp ends⟩
  · rintro ⟨rest, starts, ends⟩
    exact ⟨rest, (mem_tails _ _).mpr ends, isPrefixOf_iff_prefix.mpr starts⟩

theorem bytes_append (a b : List Char) : bytes (a ++ b) = bytes a ++ bytes b :=
  flatMap_append

theorem utf8_bytes (text : List Char) : Utf8 (bytes text) := ⟨text, rfl⟩

theorem sliceFrom_bytes (start rest : List Char) :
    sliceFrom (start ++ rest) (bytes start).length = some rest := by
  induction start with
  | nil =>
    unfold sliceFrom
    rfl
  | cons c start ih =>
    have size : (bytes (c :: start)).length = c.utf8Size + (bytes start).length := by
      simp [bytes]
    have positive := c.utf8Size_pos
    obtain ⟨n, same⟩ : ∃ n, c.utf8Size + (bytes start).length = n + 1 :=
      ⟨_, (Nat.sub_add_cancel (by omega)).symm⟩
    rw [size, same, cons_append, sliceFrom, if_pos (by omega), ← same, Nat.add_sub_cancel_left]
    exact ih

/-- The bytes two texts share stop between two characters. -/
theorem overlap_characters {history observed : List Char} {k : Nat}
    (overlaps : Overlaps (bytes observed) (bytes history) k) :
    ∃ overlap rest, observed = overlap ++ rest ∧ (bytes overlap).length = k := by
  obtain ⟨inside, before, ends⟩ := overlaps
  have whole : (bytes observed).take k ++ (bytes observed).drop k = bytes observed :=
    take_append_drop k _
  have first : Utf8 ((bytes observed).take k) := by
    cases k with
    | zero => exact ⟨[], rfl⟩
    | succ k =>
      have valid : Utf8 (before ++ (bytes observed).take (k + 1)) := ends ▸ utf8_bytes history
      apply valid.ending (utf8_bytes observed)
      rw [head?_take, if_neg (by omega)]
  obtain ⟨rest, after⟩ := (whole ▸ utf8_bytes observed).rest first
  obtain ⟨overlap, first⟩ := first
  refine ⟨overlap, rest, encode_injective ?_, ?_⟩
  · rw [flatMap_append, ← first, ← after, whole]
    rfl
  · rw [bytes, ← first, length_take]
    omega

/-- The observed text is joined to the history after the longest overlap: the longest start of its
bytes that the history ends with, which is a text.  What the history contains is not added. -/
theorem mergeDelta_joins (history observed : String) :
    (observed.toList <:+: history.toList → mergeDelta history observed = some history) ∧
      (¬ observed.toList <:+: history.toList → ∃ overlap rest, observed.toList = overlap ++ rest ∧
        Longest (bytes observed.toList) (bytes history.toList) (bytes overlap).length ∧
        mergeDelta history observed = some (history ++ String.ofList rest) ∧
        (history.toList <+: observed.toList → mergeDelta history observed = some observed)) := by
  constructor
  · intro contained
    rw [mergeDelta, if_pos (contains_iff.mpr contained)]
  intro new
  have unknown : ¬ contains history.toList observed.toList = true := fun known =>
    new (contains_iff.mp known)
  by_cases starts : history.toList <+: observed.toList
  · have joined : mergeDelta history observed = some observed := by
      rw [mergeDelta, if_neg unknown, if_pos ( isPrefixOf_iff_prefix.mpr starts)]
    obtain ⟨rest, whole⟩ := starts
    refine ⟨history.toList, rest, whole.symm, ⟨⟨?_, ?_⟩, fun j also => also.le_length⟩, ?_,
      fun _ => joined⟩
    · rw [← whole, bytes_append, length_append]
      omega
    · rw [← whole, bytes_append, take_left]
    · rw [joined, some.injEq]
      apply String.toList_inj.mp
      rw [String.toList_append, String.toList_ofList, whole]
  · have nonempty : bytes observed.toList ≠ [] := by
      intro empty
      have none : observed.toList = [] := encode_injective empty
      exact new (none ▸ nil_infix)
    obtain ⟨table, tabulated, tabulates⟩ := prefixTable_tabulates nonempty
    obtain ⟨k, run, longest⟩ := overlap_run (bytes history.toList) nonempty tabulates (.nil _)
    obtain ⟨overlap, rest, whole, same⟩ := overlap_characters longest.overlaps
    refine ⟨overlap, rest, whole, same ▸ longest, ?_, fun also => absurd also starts⟩
    have sliced : sliceFrom observed.toList k = some rest := by
      rw [whole, ← same]
      exact sliceFrom_bytes overlap rest
    rw [mergeDelta, if_neg unknown, if_neg fun also => starts ( isPrefixOf_iff_prefix.mp also)]
    simp only [tabulated, run, sliced, bind_eq_bind, bind_some]

example : mergeDelta "hello wor" " world" = some "hello world" := by decide

end Agentix.Output
