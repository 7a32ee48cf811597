import Agentix.Telegram.Rendering

/-! # Texts that fit

A text is cut at fewer and fewer bytes until what it is rendered to fits: the loop ends at the latest
with the suffix alone.
-/

namespace Agentix.Telegram

open Lib.Cuts TaskStore Option List

section Limit

variable {render : List Char → List Char} {text : List Char} {maxBytes : Nat}

theorem shrink_fits (room : size (render suffix) ≤ maxBytes) {rounds n : Nat}
    (enough : floorBoundary text n < rounds) : ∃ part, part <+: text ∧
      shrink render text maxBytes rounds (floorBoundary text n) = .ok (render (part ++ suffix)) ∧
      size (render (part ++ suffix)) ≤ maxBytes := by
  induction rounds generalizing n with
  | zero => omega
  | succ rounds ih =>
    obtain ⟨part, after, parts⟩ := exists_cut_floorBoundary text n
    obtain ⟨whole, length⟩ := eq_of_cut parts
    have within : part <+: text := ⟨after, whole.symm⟩
    rw [shrink, parts]
    by_cases fits : size (render (part ++ suffix)) ≤ maxBytes
    · exact ⟨part, within, if_pos fits, fits⟩
    · -- not at the empty text, so the next one is shorter
      have some : part ≠ [] := by
        rintro rfl
        exact fits room
      have positive := size_pos some
      simp only [if_neg fits]
      apply ih
      have less := floorBoundary_le text (floorBoundary text n -
        max (size (render (part ++ suffix)) - maxBytes) 1)
      omega

theorem renderWithLimit_fits (small : size (render suffix) ≤ 3) (text : List Char) (maxBytes : Nat) :
    ∃ result, renderWithLimit text maxBytes render = .ok result ∧ size result ≤ maxBytes ∧
      ((result = [] ∧ maxBytes < 3) ∨ result = render text ∨
        ∃ part, part <+: text ∧ result = render (part ++ suffix)) := by
  have width : size suffix = 3 := by decide
  unfold renderWithLimit
  by_cases fits : size (render text) ≤ maxBytes
  · exact ⟨render text, if_pos fits, fits, .inr (.inl rfl)⟩
  · by_cases narrow : maxBytes < size suffix
    · refine ⟨[], ?_, Nat.zero_le _, .inl ⟨rfl, width ▸ narrow⟩⟩
      simp only [if_neg fits, if_pos narrow]
    · have room : size (render suffix) ≤ maxBytes := by omega
      have start := floorBoundary_le text (min (size text) (maxBytes - size suffix))
      have enough : floorBoundary text (min (size text) (maxBytes - size suffix)) < maxBytes + 1 := by
        omega
      obtain ⟨part, within, found, bound⟩ := shrink_fits room enough
      refine ⟨render (part ++ suffix), ?_, bound, .inr (.inr ⟨part, within, rfl⟩)⟩
      simp only [if_neg fits, if_neg narrow]
      exact found

end Limit

section View

variable {escape : List Char → List Char} {convert : List Char → Option (List Char)}

theorem convert_suffix : convertMarkdownWithBlockquotes convert suffix =
    (convert suffix).map fun rendered => rendered.rdropWhile (· == '\n') := by
  have read : (strLines suffix).foldlM (Conversion.line convert) {} =
      some { quoted := some false, lines := [suffix] } := rfl
  have source : ((['\n'].intercalate [suffix]).dropWhile (· == '\n')).rdropWhile (· == '\n') =
      suffix := by decide
  have text : suffix.all isWhitespace = false := by decide
  rw [convertMarkdownWithBlockquotes, read]
  simp only [bind_eq_bind, bind_some, getD_some, renderMarkdownChunk, source, text]
  cases convert suffix with
  | none => rfl
  | some rendered => simp [intercalate]

theorem renderMarkdown_suffix (escapes : escape suffix = suffix)
    (converts : ∀ rendered, convert suffix = some rendered →
      size (rendered.rdropWhile (· == '\n')) ≤ 3) :
    size (renderMarkdown escape convert suffix) ≤ 3 := by
  rw [renderMarkdown, convert_suffix]
  cases found : convert suffix with
  | none =>
    show size (escape suffix) ≤ 3
    rw [escapes]
    decide
  | some rendered =>
    have short := converts rendered found
    show size ((rendered.rdropWhile (· == '\n')).rdropWhile (· == '\n')) ≤ 3
    rwa [rdropWhile_idempotent]

theorem renderText_fits (escapes : escape suffix = suffix)
    (converts : ∀ rendered, convert suffix = some rendered →
      size (rendered.rdropWhile (· == '\n')) ≤ 3) (view : OutboundView) :
    ∃ text, renderText escape convert view = .ok text ∧ size text ≤ textLimit := by
  have plain : size (escape suffix) ≤ 3 := by
    rw [escapes]
    decide
  obtain ⟨header, headed, within, -⟩ := renderWithLimit_fits plain view.header textLimit
  by_cases alone : view.body = [] ∨ size header + 2 ≥ textLimit
  · refine ⟨header, ?_, within⟩
    simp only [renderText, renderPlainTextWithLimit, headed]
    exact if_pos alone
  · obtain ⟨body, rendered, short, -⟩ := renderWithLimit_fits
      (renderMarkdown_suffix escapes converts) view.body (textLimit - size header - 2)
    refine ⟨header ++ "\n\n".toList ++ body, ?_, ?_⟩
    · simp only [renderText, renderPlainTextWithLimit, renderMarkdownWithLimit, headed]
      exact (if_neg alone).trans (by rw [rendered]; rfl)
    · have blank : size "\n\n".toList = 2 := by decide
      rw [size_append, size_append, blank]
      omega

/-- The loop ends at a text that fits, for every text, limit and rendering that leaves the suffix
short; so the text of every view fits. -/
theorem texts_fit (escapes : escape suffix = suffix)
    (converts : ∀ rendered, convert suffix = some rendered →
      size (rendered.rdropWhile (· == '\n')) ≤ 3) :
    (∀ render : List Char → List Char, size (render suffix) ≤ 3 → ∀ text maxBytes,
      ∃ result, renderWithLimit text maxBytes render = .ok result ∧ size result ≤ maxBytes ∧
        ((result = [] ∧ maxBytes < 3) ∨ result = render text ∨
          ∃ part, part <+: text ∧ result = render (part ++ suffix))) ∧
    ∀ view, ∃ text, renderText escape convert view = .ok text ∧ size text ≤ textLimit :=
  ⟨fun _ small text maxBytes => renderWithLimit_fits small text maxBytes,
    renderText_fits escapes converts⟩

end View

/-- The escapes of Markdown, where a text has some. -/
def escapeSpecial (text : List Char) : List Char :=
  text.flatMap fun c => if c ∈ "_*[]()~`>#+-=|\x7b\x7d.!".toList then ['\\', c] else [c]

theorem short_view_fits : ∃ text,
    renderText escapeSpecial (fun source => .some (source ++ ['\n']))
      ⟨"Tasks (2)".toList, none, "…".toList, true⟩ = .ok text ∧ size text ≤ textLimit :=
  (@texts_fit escapeSpecial (fun source => .some (source ++ ['\n'])) (by decide)
    fun rendered found => by
      cases found
      decide).2 _

end Agentix.Telegram
