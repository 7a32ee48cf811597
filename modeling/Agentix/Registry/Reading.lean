import Agentix.Registry.Origins
import Agentix.Registry.Views
import Agentix.Wire.Sound

/-! # How frames are read

A frame is an object.  Its method decides what is done with it, wherever it stands among the
members.
-/

namespace Agentix.Registry

open Lib Wire List Option

/-! ## White space -/

theorem trimStart_stop {b : UInt8} (visible : whiteSpace.all fun blank => blank.head? != some b)
    (rest : List UInt8) : trimStart (b :: rest) = b :: rest := by
  rw [trimStart]
  split
  · rfl
  · rename_i blank found
    have starts : blank <+: b :: rest := by simpa using find?_some found
    have other := all_eq_true.mp visible blank (mem_of_find?_eq_some found)
    cases blank with
    | nil => exact absurd (mem_of_find?_eq_some found) (by decide)
    | cons c blank =>
      obtain ⟨later, same⟩ := starts
      cases same
      simp at other

theorem find_space {b : UInt8} (space : isSpace b = true) (rest : List UInt8) :
    whiteSpace.find? (fun blank => blank.isPrefixOf (b :: rest)) = some [b] := by
  simp only [isSpace, Bool.or_eq_true, beq_iff_eq] at space
  obtain ((rfl | rfl) | rfl) | rfl := space <;>
    simp [whiteSpace, find?, isPrefixOf]

theorem trimStart_space (space : Space) (rest : List UInt8) :
    trimStart (space.val ++ rest) = trimStart rest := by
  obtain ⟨bytes, spaces⟩ := space
  simp only
  induction bytes with
  | nil => rfl
  | cons b bytes ih =>
    rw [all_cons, Bool.and_eq_true] at spaces
    rw [cons_append, trimStart]
    split
    · rename_i none_
      rw [find_space spaces.1] at none_
      cases none_
    · rename_i blank found
      rw [find_space spaces.1] at found
      cases found
      exact ih spaces.2

/-! ## Objects -/

section

variable (text : List UInt8 → String)

def keysOf : Members → List String
  | .one _ key _ _ _ => [text key.val]
  | .more members _ _ key _ _ _ => keysOf members ++ [text key.val]

theorem lookup_replace (key name : String) (value : Json) (fields : List (String × Json)) :
    ((fields.map fun field => if field.1 = key then (key, value) else field).lookup name).isSome =
      (fields.lookup name).isSome := by
  induction fields with
  | nil => rfl
  | cons field rest ih =>
    obtain ⟨other, old⟩ := field
    by_cases same : other = key
    · subst same
      by_cases found : name = other
      · subst found
        simp
      · have ne : (name == other) = false := by simpa using found
        simpa [lookup_cons, ne] using ih
    · by_cases found : name = other
      · subst found
        simp [same]
      · have ne : (name == other) = false := by simpa using found
        simpa [lookup_cons, ne, same] using ih

theorem lookup_insertField (key name : String) (value : Json) (fields : List (String × Json)) :
    ((Json.insertField key value fields).lookup name).isSome =
      ((fields.lookup name).isSome || name == key) := by
  simp only [Json.insertField]
  split
  · rename_i known
    rw [lookup_replace]
    by_cases same : name = key
    · subst same
      simp [known]
    · simp [same]
  · rename_i fresh
    by_cases same : name = key
    · subst same
      simp [lookup_append]
    · have ne : (name == key) = false := by simpa using same
      simp [lookup_append, lookup_cons, ne]

def IsFrame : Tree → Prop
  | .emptyObject _ => True
  | .object members _ => (keysOf text members).Nodup
  | _ => False

/-- The first key names a member, and stands right after the brace. -/
theorem first_key (members : Members) :
    ∃ (space : Space) (key : Quoted) (rest : List UInt8),
      members.bytes = space.val ++ (key.val ++ rest) ∧
        ((members.fields text).lookup (text key.val)).isSome = true := by
  cases members with
  | one space key before after item =>
    refine ⟨space, key, before.val ++ colon :: (after.val ++ item.bytes), ?_, ?_⟩
    · simp [Members.bytes]
    · simp [Members.fields, lookup_insertField]
  | more members before after key left right item =>
    obtain ⟨space, first, rest, bytes, known⟩ := first_key members
    refine ⟨space, first, rest ++ before.val ++
      comma :: (after.val ++ (key.val ++ left.val ++ colon :: (right.val ++ item.bytes))), ?_, ?_⟩
    · simp [Members.bytes, bytes]
    · simp [Members.fields, lookup_insertField, known]

end

/-! ## The reader -/

/-- What the header of an object says: a method that is no text is an error. -/
def headerOf (message : Json) : Option (Option String × Option Json) :=
  let id := (message.get? "id").filter fun id => !id.isNull
  match message.get? "method" with
  | none => some (none, id)
  | some .null => some (none, id)
  | some (.string method) => some (some method, id)
  | some _ => none

/-- What the registry relies on of `serde_json`. -/
structure LawfulReader [Reader] (text : List UInt8 → String) : Prop where
  /-- A value is the value of the document. -/
  value : ∀ bytes message, Reader.value bytes = some message →
    ∃ tree, IsDocument bytes tree ∧ message = tree.value text
  /-- A frame that is read in full has the header it shows. -/
  header : ∀ bytes tree, IsDocument bytes tree → IsFrame text tree → ∀ message,
    Reader.value bytes = some message → Reader.header bytes = headerOf message
  /-- A string is read with the space before it. -/
  nextString : ∀ (space : Space) raw rest, IsString raw → Utf8 raw →
    Reader.nextString (space.val ++ (raw ++ rest)) =
      some (text raw, (space.val ++ raw).length)
  /-- Nothing else is a string. -/
  noString : ∀ (space : Space) b rest, isSpace b = false → b ≠ quote →
    Reader.nextString (space.val ++ b :: rest) = none

section

variable [Reader] {text : List UInt8 → String}

omit [Reader] in
theorem trimStart_openBrace (rest : List UInt8) : trimStart (openBrace :: rest) = openBrace :: rest :=
  trimStart_stop (by decide) rest

theorem method_of_leadingMethod (reader : LawfulReader text) {bytes : List UInt8} {tree : Tree}
    (document : IsDocument bytes tree) (frame : IsFrame text tree) (valid : Utf8 bytes)
    {method : String} (leads : leadingMethod bytes = some method) :
    ((tree.value text).get? "method").isSome = true := by
  obtain ⟨before, after, rfl⟩ := document
  have clean : Clean (before.val ++ tree.bytes ++ after.val) := clean_of_utf8 valid
  rw [leadingMethod, append_assoc, trimStart_space] at leads
  cases tree with
  | emptyObject space =>
    have none_ := reader.noString space closeBrace after.val (by decide) (by decide)
    simp [Tree.bytes, trimStart_openBrace, stripPrefix, none_] at leads
  | object members space =>
    obtain ⟨blank, key, rest, bytes, known⟩ := first_key text members
    have key_valid : Utf8 key.val := by
      refine clean key.val key.property
        ⟨before.val ++ openBrace :: blank.val, rest ++ space.val ++ closeBrace :: after.val, ?_⟩
      simp [Tree.bytes, bytes]
    have reads := reader.nextString blank key.val (rest ++ space.val ++ closeBrace :: after.val)
      key.property key_valid
    simp only [Tree.bytes, cons_append, trimStart_openBrace, stripPrefix, if_true, bytes,
      append_assoc, nil_append] at leads reads
    rw [reads] at leads
    simp only at leads
    split at leads
    · cases leads
    · rename_i named
      simp only [ne_eq, not_not] at named
      rw [named] at known
      simpa [Tree.value, Json.get?] using known
  | _ => exact frame.elim

/-! ## Frames -/

variable [Text] {s : State} {bytes : List UInt8} {message : Json}

omit [Reader] [Text] in
theorem headerOf_method (message : Json) :
    headerOf message = none ∧ (message.index "method").asStr = none ∨
      ∃ id, headerOf message = some ((message.index "method").asStr, id) := by
  simp only [headerOf, Json.index]
  generalize message.get? "method" = method
  cases method with
  | none => exact .inr ⟨_, rfl⟩
  | some method =>
    cases method with
    | null => exact .inr ⟨_, rfl⟩
    | string name => exact .inr ⟨_, rfl⟩
    | _ => exact .inl ⟨rfl, rfl⟩

theorem clientFrame_eq (header : Reader.header bytes = headerOf message)
    (full : Reader.value bytes = some message) (connection : Nat) :
    s.clientFrame connection bytes =
      if ((message.index "method").asStr).any lifecycleMethod then
        s.clientMessage connection message
      else s := by
  obtain ⟨refused, none_⟩ | ⟨id, shown⟩ := headerOf_method message
  · simp [State.clientFrame, header, refused, none_]
  · simp only [State.clientFrame, header, shown, full]

omit [Reader] in
theorem serverMessage_of_method {connection : Nat} {clock : Clock}
    (method : (message.get? "method").isSome = true) :
    s.serverMessage connection message clock = (s, []) := by
  simp only [State.serverMessage]
  split
  · rfl
  · simp [Connection.awaited, method]

omit [Reader] in
theorem serverMessage_of_awaited {connection : Nat} {clock : Clock}
    (none_ : ∀ c, s.connections.lookup connection = some c → c.awaited message = none) :
    s.serverMessage connection message clock = (s, []) := by
  simp only [State.serverMessage]
  split
  · rfl
  · rename_i c here
    simp [none_ c here]

theorem serverFrame_eq (header : Reader.header bytes = headerOf message)
    (full : Reader.value bytes = some message)
    (leads : ∀ method, leadingMethod bytes = some method → (message.get? "method").isSome = true)
    (texts : IdTexts)
    (keys : ∀ connection c, s.connections.lookup connection = some c → KeysOfIds c)
    (connection : Nat) (questionInputs : String → Bool) (clock : Clock) :
    s.serverFrame connection bytes questionInputs clock =
      s.serverMessage connection message clock := by
  by_cases method : (message.get? "method").isSome = true
  · rw [serverMessage_of_method method]
    simp only [State.serverFrame, header, full, serverMessage_of_method method]
    split
    · rfl
    split
    · rfl
    · rfl
    · rfl
    · split <;> rfl
  · have first : leadingMethod bytes = none := by
      cases leading : leadingMethod bytes with
      | none => rfl
      | some name => exact absurd (leads name leading) method
    have absent : message.get? "method" = none := by simpa using method
    simp only [State.serverFrame, first, header, headerOf, absent, full]
    cases id : message.get? "id" with
    | none =>
      refine (serverMessage_of_awaited fun c _ => ?_).symm
      simp [Connection.awaited, absent, id]
    | some id' =>
      by_cases null : id'.isNull = true
      · have other : isId id' = false := by
          cases id' <;> simp_all [Json.isNull, isId, Json.isString, Json.isNumber]
        simp only [Option.filter, null, Bool.not_true, Bool.false_eq_true, if_false]
        refine (serverMessage_of_awaited fun c here => ?_).symm
        simp [Connection.awaited, absent, id, lookup_of_other texts (keys connection c here) other]
      · have kept : (!id'.isNull) = true := by simpa using null
        simp only [Option.filter, kept, if_true]
        split
        · rfl
        · rename_i untracked
          refine (serverMessage_of_awaited fun c here => ?_).symm
          rw [here] at untracked
          simp only [any_some, Bool.or_eq_true, not_or, Bool.not_eq_true,
            isSome_eq_false_iff, isNone_iff_eq_none] at untracked
          simp [Connection.awaited, absent, id, untracked.1]

omit [Reader] in
theorem keysOfIds_after (calls : List Call) (connection : Nat) (c : Connection)
    (here : (State.after calls).connections.lookup connection = some c) : KeysOfIds c := by
  obtain ⟨pairing, sound⟩ := sound_after calls
  intro key mem
  obtain ⟨request, found⟩ := AList.lookup_isSome.mpr mem |> isSome_iff_exists.mp
  obtain ⟨issued, s, message, c', method, id, -, -, -, waits, rfl, -⟩ :=
    (sound.slots connection c here).pending key request found
  refine ⟨id, ?_, rfl⟩
  rw [requestId, filter_eq_some_iff] at waits
  exact waits.2

end

end Agentix.Registry
