import Mathlib.Data.List.Infix
import Mathlib.Algebra.Group.Nat.Defs

/-! # Lines of a text

A text is cut into lines that keep their ends.  Where the parts of a text end with a line end, its
lines are those of the parts; the last line of a text that is still written has no end.
-/

namespace Agentix.Lib.Lines

open List Option

variable {α : Type} [DecidableEq α] (newline : α)

/-! ## Cutting -/

def splitInclusive : List α → List (List α)
  | [] => []
  | c :: rest =>
    if c = newline then [c] :: splitInclusive rest
    else match splitInclusive rest with
      | [] => [[c]]
      | line :: lines => (c :: line) :: lines

/-- The text is empty or ends with a line end. -/
def Closed (text : List α) : Prop :=
  ∀ last ∈ text.getLast?, last = newline

variable {newline} {a b line text : List α}

omit [DecidableEq α] in
@[simp] theorem closed_nil : Closed newline [] := by
  simp [Closed]

omit [DecidableEq α] in
@[simp] theorem closed_concat : Closed newline (a ++ [newline]) := by
  simp [Closed]

omit [DecidableEq α] in
theorem Closed.append (ha : Closed newline a) (hb : Closed newline b) : Closed newline (a ++ b) := by
  intro last found
  rw [getLast?_append] at found
  cases ends : b.getLast? with
  | none =>
    rw [ends] at found
    exact ha last found
  | some c =>
    rw [ends] at found
    exact hb last (by rw [ends]; exact found)

omit [DecidableEq α] in
theorem Closed.of_append (closed : Closed newline (a ++ b)) : Closed newline b := by
  intro last found
  apply closed last
  rw [getLast?_append, mem_def.mp found]
  rfl

omit [DecidableEq α] in
theorem Closed.of_cons {c : α} (closed : Closed newline (c :: a)) : Closed newline a := by
  intro last found
  apply closed last
  rw [getLast?_cons, getD_eq_iff.mpr (.inl found)]
  rfl

theorem splitInclusive_append (closed : Closed newline a) :
    splitInclusive newline (a ++ b) = splitInclusive newline a ++ splitInclusive newline b := by
  induction a with
  | nil => rfl
  | cons c rest ih =>
    simp only [cons_append, splitInclusive]
    cases rest with
    | nil =>
      have last : c = newline := closed c (by simp)
      simp [last, splitInclusive]
    | cons d more =>
      rw [ih closed.of_cons]
      split
      · rfl
      · cases cut : splitInclusive newline (d :: more) with
        | nil =>
          simp only [splitInclusive] at cut
          split at cut
          · cases cut
          · split at cut <;> cases cut
        | cons line lines => rfl

theorem flatten_splitInclusive (text : List α) : (splitInclusive newline text).flatten = text := by
  induction text with
  | nil => rfl
  | cons c rest ih =>
    simp only [splitInclusive]
    split
    · simp [ih]
    · cases cut : splitInclusive newline rest with
      | nil =>
        rw [cut] at ih
        simp [← ih]
      | cons line lines =>
        rw [cut] at ih
        simp [← ih]

theorem ne_nil_of_mem_splitInclusive (mem : line ∈ splitInclusive newline text) : line ≠ [] := by
  induction text generalizing line with
  | nil => simp [splitInclusive] at mem
  | cons c rest ih =>
    simp only [splitInclusive] at mem
    split at mem
    · obtain rfl | later := mem_cons.mp mem
      · exact cons_ne_nil c []
      · exact ih later
    · cases cut : splitInclusive newline rest with
      | nil =>
        rw [cut, mem_singleton] at mem
        exact mem ▸ cons_ne_nil c []
      | cons first more =>
        rw [cut] at mem ih
        obtain rfl | later := mem_cons.mp mem
        · exact cons_ne_nil c first
        · exact ih (.tail _ later)

theorem closed_of_lines {before after : List (List α)}
    (lines : splitInclusive newline text = before ++ line :: after) :
    Closed newline before.flatten := by
  induction text generalizing before with
  | nil => simp [splitInclusive] at lines
  | cons c rest ih =>
    cases before with
    | nil => simp
    | cons first more =>
      simp only [splitInclusive] at lines
      split at lines
      · rename_i ending
        simp only [cons_append, cons.injEq] at lines
        obtain ⟨rfl, lines⟩ := lines
        rw [flatten_cons, ending]
        exact (closed_concat (a := [])).append (ih lines)
      · cases cut : splitInclusive newline rest with
        | nil =>
          rw [cut] at lines
          simp at lines
        | cons row others =>
          rw [cut] at lines
          simp only [cons_append, cons.injEq] at lines
          obtain ⟨rfl, rfl⟩ := lines
          have closed : Closed newline (row :: more).flatten := ih cut
          have nonempty : (row :: more).flatten ≠ [] := by
            rw [flatten_cons, ne_eq, append_eq_nil_iff]
            rintro ⟨empty, _⟩
            exact ne_nil_of_mem_splitInclusive (cut ▸ mem_cons_self) empty
          rw [flatten_cons] at closed nonempty ⊢
          intro last found
          apply closed last
          rw [cons_append, getLast?_cons, mem_def, some.injEq] at found
          rw [getLast?_eq_some_getLast nonempty] at found ⊢
          exact congrArg some found

theorem splitInclusive_line (inner : newline ∉ line) :
    splitInclusive newline (line ++ [newline]) = [line ++ [newline]] := by
  induction line with
  | nil => simp [splitInclusive]
  | cons c rest ih =>
    rw [mem_cons, not_or] at inner
    simp only [cons_append, splitInclusive, if_neg (Ne.symm inner.1),
      ih inner.2]

theorem splitInclusive_inner_append {c : α} (inner : newline ∉ c :: line) (text : List α) :
    splitInclusive newline (c :: line ++ text) =
      (c :: line ++ (splitInclusive newline text).headD []) :: (splitInclusive newline text).tail := by
  induction line generalizing c with
  | nil =>
    have other : c ≠ newline := fun same => inner (by simp [same])
    simp only [cons_append, nil_append, splitInclusive, if_neg other]
    cases splitInclusive newline text <;> rfl
  | cons d more ih =>
    have other : c ≠ newline := fun same => inner (by simp [same])
    rw [cons_append, splitInclusive, if_neg other,
      ih fun mem => inner (.tail _ mem)]
    rfl

theorem exists_last_line (newline : α) (text : List α) :
    ∃ lines rest, text = lines ++ rest ∧ Closed newline lines ∧ newline ∉ rest := by
  induction text using reverseRecOn with
  | nil => exact ⟨[], [], rfl, closed_nil, not_mem_nil⟩
  | append_singleton text c ih =>
    by_cases ending : c = newline
    · exact ⟨text ++ [c], [], by simp, by rw [ending]; exact closed_concat, not_mem_nil⟩
    · obtain ⟨lines, rest, rfl, closed, inner⟩ := ih
      refine ⟨lines, rest ++ [c], by simp, closed, ?_⟩
      simpa [inner] using Ne.symm ending

/-! ## Complete lines -/

theorem splitInclusive_inner (inner : newline ∉ text) (nonempty : text ≠ []) :
    splitInclusive newline text = [text] := by
  obtain ⟨c, rest, rfl⟩ := exists_cons_of_ne_nil nonempty
  have cut := splitInclusive_inner_append inner []
  simpa [splitInclusive] using cut

theorem splitInclusive_line_append (inner : newline ∉ line) (text : List α) :
    splitInclusive newline (line ++ newline :: text) =
      (line ++ [newline]) :: splitInclusive newline text := by
  have parts : line ++ newline :: text = (line ++ [newline]) ++ text := by simp
  rw [parts, splitInclusive_append closed_concat, splitInclusive_line inner]
  rfl

theorem getLast?_of_mem_splitInclusive (closed : Closed newline text)
    (mem : line ∈ splitInclusive newline text) : line.getLast? = some newline := by
  obtain ⟨before, after, lines⟩ := append_of_mem mem
  have whole : (splitInclusive newline text).flatten = text := flatten_splitInclusive text
  have nonempty : line ≠ [] := ne_nil_of_mem_splitInclusive mem
  have ends : Closed newline line := by
    have parts : splitInclusive newline text = (before ++ [line]) ++ after := by simp [lines]
    have closed : Closed newline (before ++ [line]).flatten := by
      cases after with
      | nil =>
        rw [append_nil] at parts
        rw [← parts, whole]
        exact closed
      | cons next rest =>
        exact closed_of_lines parts
    rw [flatten_append, flatten_singleton] at closed
    exact closed.of_append
  rw [getLast?_eq_some_getLast nonempty]
  exact congrArg some (ends _ (getLast?_eq_some_getLast nonempty))

variable (newline) in
/-- The lines that have their ends. -/
def complete (text : List α) : List (List α) :=
  (splitInclusive newline text).filter fun line => line.getLast? = some newline

theorem complete_closed (closed : Closed newline text) :
    complete newline text = splitInclusive newline text :=
  filter_eq_self.mpr fun _ mem =>
    decide_eq_true (getLast?_of_mem_splitInclusive closed mem)

theorem complete_append (closed : Closed newline a) :
    complete newline (a ++ b) = complete newline a ++ complete newline b := by
  rw [complete, splitInclusive_append closed, filter_append]
  rfl

theorem complete_inner (inner : newline ∉ text) : complete newline text = [] := by
  rw [complete, filter_eq_nil_iff]
  intro line mem ends
  have last : newline ∈ line := mem_of_getLast? (of_decide_eq_true ends)
  have whole : (splitInclusive newline text).flatten = text := flatten_splitInclusive text
  exact inner (whole ▸ mem_flatten.mpr ⟨line, mem, last⟩)

end Agentix.Lib.Lines
