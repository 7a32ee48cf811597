import Agentix.Lib.Cuts
import Agentix.Lib.Lines
import Agentix.TaskStore.Text
import Mathlib.Data.List.DropRight

/-! # The text of a Telegram message

A message has a limit in bytes.  A text that is rendered to more is cut, and the cut text is rendered
again until it fits.  The text of a view is its escaped title and its converted Markdown.
-/

namespace Agentix.Telegram

open Lib.Cuts Lib.Lines TaskStore

def textLimit : Nat := 4096

/-! ## Cutting -/

def suffix : List Char := ['…']

/-- Why there is no text: the loop goes on, or it cut a text inside a character. -/
inductive Fault where
  | running
  | insideCharacter
  deriving DecidableEq

/-- The loop of `render_with_limit`, for a number of rounds. -/
def shrink (render : List Char → List Char) (text : List Char) (maxBytes : Nat) :
    Nat → Nat → Except Fault (List Char)
  | 0, _ => .error .running
  | rounds + 1, stop =>
    match cut text stop with
    | none => .error .insideCharacter
    | some (part, _) =>
      let rendered := render (part ++ suffix)
      if size rendered ≤ maxBytes then .ok rendered
      else
        let overflow := size rendered - maxBytes
        shrink render text maxBytes rounds (floorBoundary text (stop - max overflow 1))

/-- `render_with_limit`; the loop has one round for each byte of the limit. -/
def renderWithLimit (text : List Char) (maxBytes : Nat) (render : List Char → List Char) :
    Except Fault (List Char) :=
  let rendered := render text
  if size rendered ≤ maxBytes then .ok rendered
  else if maxBytes < size suffix then .ok []
  else
    shrink render text maxBytes (maxBytes + 1)
      (floorBoundary text (min (size text) (maxBytes - size suffix)))

/-! ## Markdown -/

structure MarkdownFence where
  marker : Char
  length : Nat
  quoted : Bool

structure MarkdownFenceMarker where
  marker : Char
  length : Nat
  closing : Bool

def markdownFenceMarker (line : List Char) : Option MarkdownFenceMarker :=
  let indentation := (line.takeWhile (· == ' ')).length
  if indentation > 3 then none
  else
    let line := line.drop indentation
    match line with
    | [] => none
    | marker :: _ =>
      if marker ≠ '\x60' ∧ marker ≠ '~' then none
      else
        let length := (line.takeWhile (· == marker)).length
        if length < 3 then none
        else some ⟨marker, length, (line.drop length).all isWhitespace⟩

/-- A line of `str::lines`, without its end. -/
def lineContent (line : List Char) : List Char :=
  match line.reverse with
  | '\n' :: '\r' :: rest => rest.reverse
  | '\n' :: rest => rest.reverse
  | _ => line

def strLines (text : List Char) : List (List Char) :=
  (splitInclusive '\n' text).map lineContent

/-- The markers of quotes at the start of a line, escaped, and the rest of the line. -/
def escapeMarkers : List Char → List Char × List Char
  | '>' :: ' ' :: rest =>
    let (escaped, rest) := escapeMarkers rest
    ("\\> ".toList ++ escaped, rest)
  | '>' :: rest =>
    let (escaped, rest) := escapeMarkers rest
    ("\\>".toList ++ escaped, rest)
  | rest => ([], rest)

def escapeBlockquotePrefix (line : List Char) : List Char :=
  let (escaped, rest) := escapeMarkers line
  escaped ++ rest

def escapeNestedBlockquotes (text : List Char) : List Char :=
  let lines := (splitOn '\n' text).foldl
    (fun (state : Bool × List (List Char)) line =>
      let rendered := if state.1 then line else escapeBlockquotePrefix line
      let boundary := "```".toList.isPrefixOf line
      (if boundary then !state.1 else state.1, state.2 ++ [rendered])) (false, [])
  ['\n'].intercalate lines.2

/-- Rendering of the lines of one chunk.  `convert` is `convert_with_strategy`. -/
def renderMarkdownChunk (convert : List Char → Option (List Char)) (chunks : List (List Char))
    (quoted : Bool) (lines : List (List Char)) : Option (List (List Char)) :=
  let source := ((['\n'].intercalate lines).dropWhile (· == '\n')).rdropWhile (· == '\n')
  if source.all isWhitespace then some chunks
  else do
    let rendered ← convert source
    let rendered := rendered.rdropWhile (· == '\n')
    if quoted then
      let rendered := escapeNestedBlockquotes rendered
      let lines := (strLines rendered).map fun line => if line = [] then ['>'] else "> ".toList ++ line
      some (chunks ++ [['\n'].intercalate lines])
    else some (chunks ++ [rendered])

structure Conversion where
  chunks : List (List Char) := []
  quoted : Option Bool := none
  lines : List (List Char) := []
  fence : Option MarkdownFence := none

/-- One line of `convert_markdown_with_blockquotes`. -/
def Conversion.line (convert : List Char → Option (List Char)) (state : Conversion)
    (line : List Char) : Option Conversion := do
  let quoteContent := match line with
    | '>' :: ' ' :: content => some content
    | '>' :: content => some content
    | _ => none
  let lineQuoted := match state.fence with
    | none => quoteContent.isSome
    | some fence => fence.quoted
  let content := if lineQuoted then quoteContent.getD line else line
  let state ←
    if state.quoted.any (· != lineQuoted) then do
      let chunks ← renderMarkdownChunk convert state.chunks (state.quoted.getD false) state.lines
      pure { state with chunks, lines := [] }
    else pure state
  let state := { state with quoted := some lineQuoted, lines := state.lines ++ [content] }
  match markdownFenceMarker content with
  | none => pure state
  | some marker =>
    match state.fence with
    | none => pure { state with fence := some ⟨marker.marker, marker.length, lineQuoted⟩ }
    | some opened =>
      if marker.closing ∧ marker.marker = opened.marker ∧ marker.length ≥ opened.length then
        pure { state with fence := none }
      else pure state

def convertMarkdownWithBlockquotes (convert : List Char → Option (List Char)) (text : List Char) :
    Option (List Char) := do
  let state ← (strLines text).foldlM (Conversion.line convert) {}
  let chunks ← renderMarkdownChunk convert state.chunks (state.quoted.getD false) state.lines
  pure ("\n\n".toList.intercalate chunks)

/-! ## Views -/

structure OutboundView where
  title : List Char
  subtitle : Option (List Char)
  body : List Char
  background : Bool

/-- `escape` is `teloxide::utils::markdown::escape`. -/
def renderPlainTextWithLimit (escape : List Char → List Char) (text : List Char) (maxBytes : Nat) :
    Except Fault (List Char) :=
  renderWithLimit text maxBytes escape

def renderMarkdown (escape : List Char → List Char) (convert : List Char → Option (List Char))
    (text : List Char) : List Char :=
  match convertMarkdownWithBlockquotes convert text with
  | none => escape text
  | some rendered => rendered.rdropWhile (· == '\n')

def renderMarkdownWithLimit (escape : List Char → List Char)
    (convert : List Char → Option (List Char)) (text : List Char) (maxBytes : Nat) :
    Except Fault (List Char) :=
  renderWithLimit text maxBytes (renderMarkdown escape convert)

def OutboundView.header (view : OutboundView) : List Char :=
  let header := if view.background then "⚫ Background\n".toList ++ view.title else view.title
  match view.subtitle with
  | none => header
  | some subtitle => header ++ '\n' :: subtitle

def renderText (escape : List Char → List Char) (convert : List Char → Option (List Char))
    (view : OutboundView) : Except Fault (List Char) := do
  let header ← renderPlainTextWithLimit escape view.header textLimit
  if view.body = [] ∨ size header + 2 ≥ textLimit then pure header
  else do
    let bodyLimit := textLimit - size header - 2
    let body ← renderMarkdownWithLimit escape convert view.body bodyLimit
    pure (header ++ "\n\n".toList ++ body)

end Agentix.Telegram
