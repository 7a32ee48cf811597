import Agentix.Wire.Reassembly
import Agentix.Wire.Sound

/-! # The projection is exact

However a message is split, the projection keeps of it what a full parse would show on the
lifecycle paths, and it keeps nothing of what is no document.
-/

namespace Agentix.Wire

open Lib List

namespace Projection

section

variable {text : List UInt8 → String} {inRange : List UInt8 → Prop}

mutual

theorem within_of_length (all : ∀ raw, inRange raw) (node : Node) (depth : Nat)
    (most : depth ≤ maxToken) (tree : Tree) (short : tree.bytes.length ≤ depth) :
    Within text inRange node depth tree := by
  match tree with
  | .atom token =>
    simp only [Tree.bytes] at short
    exact ⟨by omega, fun _ _ => all _⟩
  | .string token =>
    simp only [Tree.bytes] at short
    exact fun _ => by omega
  | .emptyArray space | .emptyObject space =>
    simp only [Tree.bytes, length_cons] at short
    simp only [Within]
    omega
  | .array items space =>
    simp only [Tree.bytes, length_cons, length_append] at short
    exact ⟨by omega, itemsWithin_of_length all (depth - 1) (by omega) items (by omega)⟩
  | .object members space =>
    simp only [Tree.bytes, length_cons, length_append] at short
    exact ⟨by omega, membersWithin_of_length all node (depth - 1) (by omega) members (by omega)⟩

theorem itemsWithin_of_length (all : ∀ raw, inRange raw) (depth : Nat)
    (most : depth ≤ maxToken) (items : Items) (short : items.bytes.length ≤ depth) :
    ItemsWithin text inRange depth items := by
  match items with
  | .one space item =>
    simp only [Items.bytes, length_append] at short
    exact within_of_length all .skip depth most item (by omega)
  | .more items before after item =>
    simp only [Items.bytes, length_append, length_cons] at short
    exact ⟨itemsWithin_of_length all depth most items (by omega),
      within_of_length all .skip depth most item (by omega)⟩

theorem membersWithin_of_length (all : ∀ raw, inRange raw) (node : Node) (depth : Nat)
    (most : depth ≤ maxToken) (members : Members) (short : members.bytes.length ≤ depth) :
    MembersWithin text inRange node depth members := by
  match members with
  | .one space key before after item =>
    simp only [Members.bytes, length_append, length_cons] at short
    exact ⟨fun _ => by omega, within_of_length all _ depth most item (by omega)⟩
  | .more members before after key left right item =>
    simp only [Members.bytes, length_append, length_cons] at short
    exact ⟨membersWithin_of_length all node depth most members (by omega), fun _ => by omega,
      within_of_length all _ depth most item (by omega)⟩

end

end

/-- The projection does not depend on the chunks, and within the budgets it is the full parse,
restricted to the lifecycle paths. -/
theorem projection_is_exact [Serde] (chunks : List (List UInt8)) :
    (feedAll chunks).finish = (feedAll [chunks.flatten]).finish ∧
      ∀ (text : List UInt8 → String) (inRange : List UInt8 → Prop), Lawful text inRange →
        (∀ tree, IsDocument chunks.flatten tree → Within text inRange .root maxDepth tree) →
        ((feedAll chunks).finish.isSome ↔
          Utf8 chunks.flatten ∧ ∃ tree, IsDocument chunks.flatten tree) ∧
        ∀ tree, Utf8 chunks.flatten → IsDocument chunks.flatten tree →
          (feedAll chunks).finish =
            some (Serde.render (restrict .root (tree.value text))) := by
  refine ⟨?_, fun text inRange lawful within => ?_⟩
  · rw [finish_feedAll, finish_feedAll]
    simp
  have exact_ : ∀ tree, Utf8 chunks.flatten → IsDocument chunks.flatten tree →
      (feedAll chunks).finish = some (Serde.render (restrict .root (tree.value text))) :=
    fun tree valid document => finish_of_document lawful document (within tree document) valid
  refine ⟨⟨fun kept => ?_, fun ⟨valid, tree, document⟩ => ?_⟩, exact_⟩
  · rw [finish_feedAll, Option.isSome_map, Option.isSome_iff_exists] at kept
    obtain ⟨value, verdict⟩ := kept
    obtain ⟨valid, tree, document, -⟩ := document_of_verdict lawful verdict
    exact ⟨valid, tree, document⟩
  · rw [exact_ tree valid document]
    rfl

/-! ## An example -/

/-- The text of a string without escapes. -/
def plainText (raw : List UInt8) : String :=
  String.ofList ((raw.drop 1).dropLast.map fun b => Char.ofNat b.toNat)

mutual

def compact : Json → String
  | .null => "null"
  | .bool value => if value then "true" else "false"
  | .number literal => String.ofList (literal.map fun b => Char.ofNat b.toNat)
  | .string text => "\"" ++ text ++ "\""
  | .array items => "[" ++ ",".intercalate (compactItems items) ++ "]"
  | .object fields => "\x7b" ++ ",".intercalate (compactFields fields) ++ "\x7d"

def compactItems : List Json → List String
  | [] => []
  | item :: rest => compact item :: compactItems rest

def compactFields : List (String × Json) → List String
  | [] => []
  | (key, value) :: rest => ("\"" ++ key ++ "\":" ++ compact value) :: compactFields rest

end

open Classical in
/-- Strings without escapes, and numbers of any size. -/
@[reducible] noncomputable def plainSerde : Serde where
  string raw := if IsString raw ∧ Utf8 raw then some (plainText raw) else none
  scalar raw := if IsAtom raw then some (atomValue raw) else none
  ignored raw := decide (IsAtom raw)
  render := compact

theorem plainSerde_lawful : @Lawful plainSerde plainText fun _ => True := by
  classical
  refine @Lawful.mk plainSerde _ _ ?_ ?_ ?_
  · intro raw is_string
    show (if IsString raw ∧ Utf8 raw then some (plainText raw) else none) = _
    by_cases valid : Utf8 raw <;> simp [is_string, valid]
  · intro raw _ value
    show (if IsAtom raw then some (atomValue raw) else none) = some value ↔ _
    by_cases atom : IsAtom raw <;> simp [atom, eq_comm]
  · intro raw _
    show decide (IsAtom raw) = true ↔ _
    exact decide_eq_true_iff

def plainString (body : List UInt8)
    (plain : body.all (fun b => isPlain b && decide (32 ≤ b.toNat)) = true) : Quoted :=
  ⟨quote :: (body ++ [quote]), body, rfl, isBody_of_plain plain⟩

/-- The key `id`. -/
def idKey : Quoted := plainString [105, 100] (by decide)

/-- The key `x`. -/
def otherKey : Quoted := plainString [120] (by decide)

/-- The number `7`. -/
def seven : Atom :=
  ⟨[55], .inr (.inr (.inr ⟨[], [55], [], [], rfl, .inl rfl,
    .inr ⟨55, [], rfl, rfl, by decide, by simp [Digits]⟩, .inl rfl, .inl rfl⟩))⟩

/-- An object with a member on a path and one that is on none. -/
def smallTree : Tree :=
  .object (.more (.one noSpace idKey noSpace noSpace (.atom seven)) noSpace noSpace otherKey noSpace
    noSpace (.emptyArray noSpace)) noSpace

theorem small_message_is_projected :
    @finish plainSerde (@feedAll plainSerde
      [[123, 34, 105, 100, 34, 58, 55, 44, 34], [120, 34, 58, 91, 93, 125]]) =
      some "\x7b\"id\":7\x7d" := by
  have document : IsDocument [123, 34, 105, 100, 34, 58, 55, 44, 34, 120, 34, 58, 91, 93, 125]
      smallTree := ⟨noSpace, noSpace, rfl⟩
  have kept := ((@projection_is_exact plainSerde
    [[123, 34, 105, 100, 34, 58, 55, 44, 34], [120, 34, 58, 91, 93, 125]]).2 plainText
    (fun _ => True) plainSerde_lawful (fun tree document => ?_)).2 smallTree (by decide) document
  · rw [kept]
    rfl
  · obtain ⟨before, after, whole⟩ := document
    refine within_of_length (fun _ => trivial) .root maxDepth (by decide) tree ?_
    have length := congrArg List.length whole
    simp only [length_append] at length
    have small : maxDepth = 128 := rfl
    simp at length
    omega

end Projection

end Agentix.Wire

/-! # The observer reads the text messages

Whatever the chunks of a connection, the callback sees its text messages, each of them once.
-/

namespace Agentix.Wire

open Lib List

variable [Serde] {role : Role} {o : Observer}

variable {calls : List Callback}

def Observer.feedChunks (o : Observer) : List (List UInt8) → Except String (Observer × List Callback)
  | [] => .ok (o, [])
  | chunk :: rest =>
    match o.feedWith chunk with
    | (_, _, .error error) => .error error
    | (o, now, .ok _) => (o.feedChunks rest).map fun (o, later) => (o, now ++ later)

theorem feedChunks_closed (closed : o.closed = true) (chunks : List (List UInt8)) :
    o.feedChunks chunks = .ok (o, []) := by
  induction chunks with
  | nil => rfl
  | cons chunk rest ih =>
    have ignored : o.feedWith chunk = (o, [], .ok (!o.closed)) := by
      simp [Observer.feedWith, closed]
    simp only [Observer.feedChunks, ignored, ih]
    rfl

theorem Awaits.running {wire : List UInt8} (awaits : Awaits role o wire calls) :
    o.disabled = false ∧ o.closed = false := by
  cases awaits with
  | header between => exact ⟨between.disabled, between.closed⟩
  | payload inside => exact ⟨inside.disabled, inside.closed⟩

theorem Awaits.ended (awaits : Awaits role o [] calls) : calls = [] := by
  generalize none_ : ([] : List UInt8) = wire at awaits
  cases awaits with
  | @header current frames trailing _ between legal stream missing =>
    subst none_
    cases frames with
    | nil => rfl
    | cons f frames =>
      have short := missing f rfl
      have length := congrArg length stream
      simp only [append_nil, flatMap_cons, LegalFrame.wire, length_append] at length
      omega
  | payload inside left_ legal =>
    have length := congrArg length none_
    simp only [length_nil, length_append, LegalFrame.length_sent] at length
    exact absurd (length_eq_zero_iff.mp (by omega)) left_

theorem feedChunks_spec {chunks : List (List UInt8)} (awaits : Awaits role o chunks.flatten calls) :
    ∃ o', o.feedChunks chunks = .ok (o', calls) := by
  induction chunks generalizing o calls with
  | nil => exact ⟨o, by rw [awaits.ended]; rfl⟩
  | cons chunk rest ih =>
    have open_ := awaits.running
    rw [flatten_cons] at awaits
    obtain ⟨o₁, now, later, decodes, split, ends⟩ := decode_spec awaits
    have fed : o.feedWith chunk = (o₁, now, .ok (!o₁.closed)) := by
      simp [Observer.feedWith, open_, decodes]
    simp only [Observer.feedChunks, fed]
    obtain awaits | ⟨closed, none_⟩ := ends
    · obtain ⟨o₂, reads⟩ := ih awaits
      exact ⟨o₂, by rw [reads, split]; rfl⟩
    · exact ⟨o₁, by rw [feedChunks_closed closed, split, none_]; rfl⟩

/-- For every stream of legal frames and every way to split it, the observer reports no error, and
calls back with the text messages that are completed before a close frame, in their order: the
short ones that are valid UTF-8 as they are, and the long ones as their projection. -/
theorem observer_reads_text_messages (role : Role) (frames : List (LegalFrame role))
    (trailing : List UInt8) (legal : Legal trailing false frames) (chunks : List (List UInt8))
    (stream : chunks.flatten = frames.flatMap LegalFrame.wire ++ trailing) :
    ∃ o, Observer.feedChunks { role } chunks =
      .ok (o, (texts none frames).filterMap delivered) := by
  have between : Between role { role } none :=
    ⟨rfl, rfl, rfl, rfl, rfl, TextMessage.holds_empty⟩
  have awaits : Awaits role { role } chunks.flatten (callbacks none frames) := by
    refine .header between legal stream ?_
    intro f _
    simp [LegalFrame.header]
  exact feedChunks_spec awaits

/-- A text in two masked fragments with a ping between them, a close frame, and a byte after it. -/
def sampleFrames : List (LegalFrame .server) :=
  [{ fin := false, opcode := .text, mask := some ⟨1, 2, 3, 4⟩, form := .short, payload := [104]
     masked := rfl, fits := by simp [LengthForm.Fits], control := by simp [Opcode.isControl], reason := by simp },
   { fin := true, opcode := .ping, mask := some ⟨5, 6, 7, 8⟩, form := .short, payload := []
     masked := rfl, fits := by simp [LengthForm.Fits], control := by simp, reason := by simp },
   { fin := true, opcode := .continuation, mask := some ⟨0, 0, 0, 9⟩, form := .medium
     payload := [101, 108, 108, 111], masked := rfl, fits := by simp [LengthForm.Fits]
     control := by simp [Opcode.isControl], reason := by simp },
   { fin := true, opcode := .close, mask := some ⟨0, 0, 0, 0⟩, form := .short, payload := []
     masked := rfl, fits := by simp [LengthForm.Fits], control := by simp, reason := by simp }]

omit [Serde] in
theorem fragments_are_joined :
    ∃ o, @Observer.feedChunks Projection.plainSerde { role := .server }
      [[1, 129, 1], [2, 3, 4, 105, 137], [128, 5, 6, 7, 8, 128, 254, 0, 4, 0, 0],
        [0, 9, 101, 108, 108, 102, 136, 128, 0, 0, 0, 0, 255]] =
      .ok (o, (@delivered Projection.plainSerde [104, 101, 108, 108, 111]).toList) := by
  obtain ⟨o, reads⟩ := @observer_reads_text_messages Projection.plainSerde .server sampleFrames [255]
    (by simp [Legal, sampleFrames, Opcode.isControl])
    [[1, 129, 1], [2, 3, 4, 105, 137], [128, 5, 6, 7, 8, 128, 254, 0, 4, 0, 0],
      [0, 9, 101, 108, 108, 102, 136, 128, 0, 0, 0, 0, 255]] (by decide)
  refine ⟨o, reads.trans ?_⟩
  cases delivers : @delivered Projection.plainSerde [104, 101, 108, 108, 111] <;>
    simp [texts, sampleFrames, Opcode.isControl, entered, delivers]

end Agentix.Wire
