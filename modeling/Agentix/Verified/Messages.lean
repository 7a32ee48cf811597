import Agentix.Registry.Reading
import Agentix.Verified.Projection

/-! # Long messages act like short ones

What the registry keeps of a message that is projected is all it would have looked at.
-/

namespace Agentix.Registry

open Lib Wire List Option

/-- In every state of the registry, a frame that is read in full, and whose projection is read back
as it was printed, has the same effect as a long message and as a short one. -/
theorem long_messages_act_like_short_ones [Text] [Serde] [Reader] {text : List UInt8 → String}
    {inRange : List UInt8 → Prop} (serde : Lawful text inRange) (reader : LawfulReader text)
    (texts : IdTexts) (calls : List Call) (connection : Nat) (fromClient : Bool)
    (questionInputs : String → Bool) (clock : Clock) (chunks : List (List UInt8)) (tree : Tree)
    (document : IsDocument chunks.flatten tree) (frame : IsFrame text tree)
    (valid : Utf8 chunks.flatten)
    (within : ∀ tree, IsDocument chunks.flatten tree → Within text inRange .root maxDepth tree)
    (message : Json) (full : Reader.value chunks.flatten = some message)
    (again : ∃ kept, Reader.value (Serde.render (restrict .root message)).toUTF8.data.toList =
      some kept ∧ Alike kept (restrict .root message)) :
    (State.after calls).largeMessage connection chunks fromClient clock =
      (State.after calls).smallMessage connection chunks.flatten fromClient questionInputs clock := by
  obtain ⟨kept, reads, same⟩ := again
  have alike : Alike kept message := same.trans (alike_restrict message)
  have keys := keysOfIds_after calls
  have header := reader.header _ tree document frame message full
  obtain ⟨tree', document', rfl⟩ := reader.value _ message full
  have emitted := Projection.finish_of_document serde document' (within tree' document') valid
  have leads : ∀ method, leadingMethod chunks.flatten = some method →
      ((tree'.value text).get? "method").isSome = true := by
    intro method leading
    have first := method_of_leadingMethod reader document frame valid leading
    -- the two trees have the same values on the paths
    have unique := Projection.restrict_unique serde document document' valid
      (within tree document) (within tree' document')
    have shown := alike_restrict (tree.value text) ["method"] (by decide)
    have shown' := alike_restrict (tree'.value text) ["method"] (by decide)
    rw [unique, shown'] at shown
    have some_ := congrArg isSome shown
    simp only [seen, valueAt, foldlM_cons, foldlM_nil, isSome_map] at some_
    simpa [first] using some_
  simp only [State.largeMessage]
  rw [show foldl Projection.feed {} chunks = Projection.feedAll chunks from rfl, emitted]
  simp only [State.projectedFrame, reads, State.smallMessage]
  cases fromClient with
  | true =>
    rw [if_pos rfl, if_pos rfl, clientFrame_eq header full, method_of_alike alike,
      clientMessage_of_alike alike]
    split <;> rfl
  | false =>
    rw [if_neg (by decide), if_neg (by decide), serverFrame_eq header full leads texts keys,
      ← serverMessage_of_alike alike texts keys]
    split
    · rename_i method named
      refine (serverMessage_of_method ?_).symm
      simp only [Json.index] at named
      cases there : kept.get? "method" with
      | none => rw [there] at named; cases named
      | some _ => rfl
    · rfl

/-! ## Examples -/

open Projection

/-- How far a string goes that was opened. -/
def tokenEnd (s : StringToken) : List UInt8 → Option Nat
  | [] => none
  | b :: rest =>
    match s.byte b with
    | none => none
    | some (true, _) => some 1
    | some (false, s) => (tokenEnd s rest).map (· + 1)

theorem tokenEnd_follow {s s' s'' : StringToken} {body : List UInt8} (rest : List UInt8)
    (follows : s.follow body = some s') (ends : s'.byte quote = some (true, s'')) :
    tokenEnd s (body ++ quote :: rest) = some (body.length + 1) := by
  induction body generalizing s with
  | nil =>
    cases follows
    simp [tokenEnd, ends]
  | cons b body ih =>
    simp only [StringToken.follow, foldlM_cons, bind_eq_bind,
      bind_eq_some_iff] at follows
    obtain ⟨next, reads, later⟩ := follows
    split at reads
    · rename_i next' goes
      cases reads
      simp [tokenEnd, goes, ih later]
    · cases reads

def plainNext (bytes : List UInt8) : Option (String × Nat) :=
  match bytes.dropWhile isSpace with
  | [] => none
  | b :: rest =>
    if b = quote then
      (tokenEnd {} rest).map fun n =>
        (plainText ((b :: rest).take (n + 1)), (bytes.takeWhile isSpace).length + (n + 1))
    else none

theorem plainNext_space (space : Space) {b : UInt8} (visible : isSpace b = false)
    (rest : List UInt8) :
    (space.val ++ b :: rest).dropWhile isSpace = b :: rest ∧
      (space.val ++ b :: rest).takeWhile isSpace = space.val := by
  have spaces : ∀ a ∈ space.val, isSpace a = true := all_eq_true.mp space.property
  refine ⟨?_, ?_⟩
  · rw [dropWhile_append_of_pos spaces, dropWhile_cons, visible]
    rfl
  · rw [takeWhile_append_of_pos spaces, takeWhile_cons, visible]
    simp

open Classical in
/-- Everything is read but what is refused. -/
@[reducible] noncomputable def plainReader (refused : List UInt8) : Reader where
  value bytes :=
    if bytes = refused then none
    else if h : ∃ tree, IsDocument bytes tree then some (h.choose.value plainText) else none
  header bytes :=
    if h : ∃ tree, IsDocument bytes tree then headerOf (h.choose.value plainText) else none
  nextString := plainNext

theorem plainReader_lawful (refused : List UInt8) :
    @LawfulReader (plainReader refused) plainText := by
  classical
  refine @LawfulReader.mk (plainReader refused) plainText ?_ ?_ ?_ ?_
  · intro bytes message read
    simp only [Reader.value] at read
    split at read
    · cases read
    split at read
    · rename_i h
      cases read
      exact ⟨h.choose, h.choose_spec, rfl⟩
    · cases read
  · intro bytes tree document _ message read
    simp only [Reader.value] at read
    split at read
    · cases read
    split at read
    · rename_i h
      cases read
      simp only [Reader.header, dif_pos h]
    · cases read
  · intro space raw rest is_string _
    obtain ⟨body, rfl, is_body⟩ := is_string
    obtain ⟨s, follows, idle⟩ := StringToken.follow_body (s := {}) is_body ⟨rfl, rfl, rfl, rfl⟩
      (fun captured => by cases captured)
    obtain ⟨capture, -, -⟩ := StringToken.follow_raw follows
    have ends := StringToken.byte_quote idle (fun captured => by rw [capture] at captured; cases captured)
    have length := tokenEnd_follow rest follows ends
    obtain ⟨drops, takes⟩ := plainNext_space space (show isSpace quote = false by decide)
      (body ++ quote :: rest)
    have split : space.val ++ (quote :: (body ++ [quote]) ++ rest) =
        space.val ++ quote :: (body ++ quote :: rest) := by simp
    show plainNext _ = _
    rw [split, plainNext, drops, takes]
    simp only [if_true, length, map_some]
    have cut : (quote :: (body ++ quote :: rest)).take (body.length + 1 + 1) =
        quote :: (body ++ [quote]) := by
      rw [show quote :: (body ++ quote :: rest) = (quote :: (body ++ [quote])) ++ rest by simp]
      exact take_left' (by simp)
    rw [cut]
    simp
  · intro space b rest visible other
    obtain ⟨drops, -⟩ := plainNext_space space visible rest
    show plainNext _ = _
    rw [plainNext, drops]
    simp [other]

/-- The first character tells strings and numbers from the rest. -/
def idChars : Json → List Char
  | .string text => '"' :: (text.toList ++ ['"'])
  | .number literal =>
    match literal.map fun b => Char.ofNat b.toNat with
    | [] => ['0']
    | c :: rest => if c = '-' ∨ c.isDigit = true then c :: rest else ['0']
  | .bool true => ['t', 'r', 'u', 'e']
  | .bool false => ['f', 'a', 'l', 's', 'e']
  | .null => ['n', 'u', 'l', 'l']
  | .array _ => ['[', ']']
  | .object _ => ['\x7b', '\x7d']

@[reducible] def plainTexts : Text where
  toText value := String.ofList (idChars value)

/-- The texts of strings and numbers begin like this. -/
def startsId (c : Char) : Bool := c == '"' || c == '-' || c.isDigit

theorem idChars_starts (value : Json) :
    ∃ c rest, idChars value = c :: rest ∧ startsId c = isId value := by
  cases value with
  | string text => exact ⟨'"', _, rfl, rfl⟩
  | number literal =>
    simp only [idChars]
    split
    · exact ⟨'0', [], rfl, rfl⟩
    · rename_i c rest _
      by_cases digit : c = '-' ∨ c.isDigit = true
      · refine ⟨c, rest, if_pos digit, ?_⟩
        obtain rfl | digit := digit
        · rfl
        · simp [startsId, digit, isId, Json.isNumber]
      · exact ⟨'0', [], if_neg digit, rfl⟩
  | bool value => cases value <;> exact ⟨_, _, rfl, rfl⟩
  | null => exact ⟨_, _, rfl, rfl⟩
  | array _ => exact ⟨_, _, rfl, rfl⟩
  | object _ => exact ⟨_, _, rfl, rfl⟩

theorem plainTexts_ids : @IdTexts plainTexts := by
  intro a b is_id same
  obtain ⟨c, rest, first, starts⟩ := idChars_starts a
  obtain ⟨c', rest', second, starts'⟩ := idChars_starts b
  have chars : idChars a = idChars b := String.ofList_injective same
  rw [first, second] at chars
  cases chars
  rw [← starts', starts, is_id]

def bytesOf (text : String) : List UInt8 := text.toUTF8.data.toList

theorem within_of_short {bytes : List UInt8} (few : bytes.length ≤ maxDepth) (tree : Tree)
    (document : IsDocument bytes tree) : Within plainText (fun _ => True) .root maxDepth tree := by
  obtain ⟨before, after, rfl⟩ := document
  refine within_of_length (fun _ => trivial) .root maxDepth (by decide) tree ?_
  simp only [length_append] at few
  omega

theorem plainReader_alike {refused bytes : List UInt8} {tree : Tree}
    (document : IsDocument bytes tree) (valid : Utf8 bytes) (few : bytes.length ≤ maxDepth)
    (kept : bytes ≠ refused) :
    ∃ message, @Reader.value (plainReader refused) bytes = some message ∧
      Alike message (tree.value plainText) ∧
      restrict .root message = restrict .root (tree.value plainText) := by
  classical
  have some_ : ∃ tree, IsDocument bytes tree := ⟨tree, document⟩
  let _ := plainSerde
  have same := restrict_unique plainSerde_lawful some_.choose_spec document valid
    (within_of_short few _ some_.choose_spec) (within_of_short few _ document)
  refine ⟨some_.choose.value plainText, ?_, ?_, same⟩
  · simp only [Reader.value, if_neg kept, dif_pos some_]
  · have one := alike_restrict (some_.choose.value plainText)
    rw [same] at one
    exact one.symm.trans (alike_restrict _)

def methodKey : Quoted := plainString (bytesOf "method") (by decide)

/-- A request to start a session. -/
def startTree : Tree :=
  .object (.more (.one noSpace idKey noSpace noSpace (.atom seven)) noSpace noSpace methodKey noSpace
    noSpace (.string (plainString (bytesOf "thread/start") (by decide)))) noSpace

/-- A long request to start a session waits like a short one. -/
theorem start_waits_for_its_response :
    @State.largeMessage plainTexts (plainReader []) plainSerde
        (@State.after plainTexts [.connect none (some "client") 0]) 1
        [bytesOf "\x7b\"id\":7,\"met", bytesOf "hod\":\"thread/start\"\x7d"] true ⟨0, 0, 0⟩ =
      @State.smallMessage plainTexts (plainReader [])
        (@State.after plainTexts [.connect none (some "client") 0]) 1
        (bytesOf "\x7b\"id\":7,\"method\":\"thread/start\"\x7d") true (fun _ => false) ⟨0, 0, 0⟩ := by
  have document : IsDocument (bytesOf "\x7b\"id\":7,\"method\":\"thread/start\"\x7d") startTree :=
    ⟨noSpace, noSpace, by decide⟩
  have valid : Utf8 (bytesOf "\x7b\"id\":7,\"method\":\"thread/start\"\x7d") := by decide
  have few : (bytesOf "\x7b\"id\":7,\"method\":\"thread/start\"\x7d").length ≤ maxDepth := by decide
  obtain ⟨message, full, alike, same⟩ :=
    @plainReader_alike [] _ _ document valid few (by decide)
  have printed : (@Serde.render plainSerde (restrict .root message)).toUTF8.data.toList =
      bytesOf "\x7b\"id\":7,\"method\":\"thread/start\"\x7d" := by
    rw [same]
    decide
  refine @long_messages_act_like_short_ones plainTexts plainSerde (plainReader []) plainText _
    plainSerde_lawful (plainReader_lawful []) plainTexts_ids _ 1 true (fun _ => false) ⟨0, 0, 0⟩
    [bytesOf "\x7b\"id\":7,\"met", bytesOf "hod\":\"thread/start\"\x7d"] startTree document ?_ valid
    (within_of_short few) message full ⟨message, ?_, (alike_restrict message).symm⟩
  · show (keysOf plainText _).Nodup
    decide
  · rw [printed]
    exact full

def paramsKey : Quoted := plainString (bytesOf "params") (by decide)

def clientInfoKey : Quoted := plainString (bytesOf "clientInfo") (by decide)

def nameKey : Quoted := plainString (bytesOf "name") (by decide)

def initializeText : Quoted := plainString (bytesOf "initialize") (by decide)

/-- The number `1e999`. -/
def enormous : Atom :=
  ⟨bytesOf "1e999", .inr (.inr (.inr ⟨[], [49], [], [101, 57, 57, 57], rfl, .inl rfl,
    .inr ⟨49, [], rfl, rfl, by decide, by simp [Digits]⟩, .inl rfl,
    .inr ⟨101, [], 57, [57, 57], rfl, .inl rfl, .inl rfl, rfl, by simp [Digits, isDigit]⟩⟩))⟩

def clientInfo : Members :=
  .one noSpace clientInfoKey noSpace noSpace
    (.object (.one noSpace nameKey noSpace noSpace
      (.string (plainString (bytesOf "n") (by decide)))) noSpace)

/-- The client names itself. -/
def namedTree (params : Members) : Tree :=
  .object (.more (.one noSpace methodKey noSpace noSpace (.string initializeText)) noSpace noSpace
    paramsKey noSpace noSpace (.object params noSpace)) noSpace

/-- The message with a number that no float can hold, in a place that no path leads to. -/
def refusedBytes : List UInt8 :=
  bytesOf "\x7b\"method\":\"initialize\",\"params\":\x7b\"clientInfo\":\x7b\"name\":\"n\"\x7d,\"x\":1e999\x7d\x7d"

def refusedTree : Tree :=
  namedTree (.more clientInfo noSpace noSpace otherKey noSpace noSpace (.atom enormous))

/-- The full parse refuses the number, and the projection skips it: the client of the long message
has a name, and that of the short one has none. -/
theorem skipped_number_is_accepted :
    IsDocument refusedBytes refusedTree ∧ IsFrame plainText refusedTree ∧ Utf8 refusedBytes ∧
      (∀ tree, IsDocument refusedBytes tree →
        Within plainText (fun _ => True) .root maxDepth tree) ∧
      ((@State.largeMessage plainTexts (plainReader refusedBytes) plainSerde
        (@State.after plainTexts [.connect none (some "client") 0]) 1 [refusedBytes] true
        ⟨0, 0, 0⟩).1.connections.lookup 1).bind Connection.clientName = some "n" ∧
      ((@State.smallMessage plainTexts (plainReader refusedBytes)
        (@State.after plainTexts [.connect none (some "client") 0]) 1 refusedBytes true
        (fun _ => false) ⟨0, 0, 0⟩).1.connections.lookup 1).bind Connection.clientName = none := by
  have document : IsDocument refusedBytes refusedTree := ⟨noSpace, noSpace, by decide⟩
  have valid : Utf8 refusedBytes := by decide
  have few : refusedBytes.length ≤ maxDepth := by decide
  refine ⟨document, ?_, valid, within_of_short few, ?_, ?_⟩
  · show (keysOf plainText _).Nodup
    decide
  · -- what is printed is read as another document
    let shownTree := namedTree clientInfo
    let shownBytes :=
      bytesOf "\x7b\"method\":\"initialize\",\"params\":\x7b\"clientInfo\":\x7b\"name\":\"n\"\x7d\x7d\x7d"
    have shown : IsDocument shownBytes shownTree := ⟨noSpace, noSpace, by decide⟩
    obtain ⟨kept, full, alike, -⟩ := @plainReader_alike refusedBytes _ _ shown (by decide)
      (by decide) (by decide)
    let _ := plainSerde
    let _ := plainTexts
    have emitted := finish_of_document plainSerde_lawful
      (show IsDocument [refusedBytes].flatten refusedTree from document)
      (within_of_short few _ document) valid
    have printed : (Serde.render (restrict .root (refusedTree.value plainText))).toUTF8.data.toList =
        shownBytes := by decide
    simp only [State.largeMessage]
    rw [show foldl Projection.feed {} [refusedBytes] = Projection.feedAll [refusedBytes] from rfl,
      emitted]
    simp only [printed, State.projectedFrame, full, if_true]
    rw [method_of_alike alike, clientMessage_of_alike alike]
    decide
  · have refused : @Reader.value (plainReader refusedBytes) refusedBytes = none := if_pos rfl
    simp only [State.smallMessage, State.clientFrame, if_true]
    split
    · rfl
    · split
      · rw [refused]
        rfl
      · rfl

end Agentix.Registry
