import Agentix.Wire.Projection

/-! # What the projection should keep

The values on the lifecycle paths: arrays lose their items, and objects the members that are not on
a path.  The projection builds this from the inside out, and never sees the rest.
-/

namespace Agentix.Wire

open Lib List

/-! ## Restriction -/

mutual

/-- A value at a path, without what is not on a path below it. -/
def restrict (node : Node) : Json → Json
  | .object fields => .object (restrictFields node fields)
  | .array _ => .array []
  | .null => .null
  | .bool value => .bool value
  | .number literal => .number literal
  | .string text => .string text

def restrictFields (node : Node) : List (String × Json) → List (String × Json)
  | [] => []
  | (key, value) :: rest =>
    if node.child key = .skip then restrictFields node rest
    else (key, restrict (node.child key) value) :: restrictFields node rest

end

@[simp] theorem child_skip (key : String) : Node.skip.child key = .skip := rfl

@[simp] theorem child_leaf (key : String) : Node.leaf.child key = .skip := rfl

theorem restrict_atomValue (node : Node) (raw : List UInt8) :
    restrict node (atomValue raw) = atomValue raw := by
  simp only [atomValue]
  split
  · simp [restrict]
  split
  · simp [restrict]
  split <;> simp [restrict]

section

variable {node : Node} {fields : List (String × Json)}

theorem lookup_restrictFields {key : String} (kept : node.child key ≠ .skip) :
    (restrictFields node fields).lookup key =
      (fields.lookup key).map (restrict (node.child key)) := by
  induction fields with
  | nil => simp [restrictFields]
  | cons field rest ih =>
    obtain ⟨name, value⟩ := field
    by_cases same : key = name
    · subst same
      simp [restrictFields, kept]
    · have ne : (key == name) = false := by simpa using same
      by_cases dropped : node.child name = .skip <;>
        simp [restrictFields, dropped, lookup_cons, ne, ih]

theorem restrictFields_append (more : List (String × Json)) :
    restrictFields node (fields ++ more) =
      restrictFields node fields ++ restrictFields node more := by
  induction fields with
  | nil => simp [restrictFields]
  | cons field rest ih =>
    obtain ⟨name, value⟩ := field
    by_cases dropped : node.child name = .skip <;>
      simp [restrictFields, dropped, ih]

theorem restrictFields_replace {key : String} (value : Json) :
    restrictFields node (fields.map fun field => if field.1 = key then (key, value) else field) =
      (restrictFields node fields).map fun field =>
        if field.1 = key then (key, restrict (node.child key) value) else field := by
  induction fields with
  | nil => simp [restrictFields]
  | cons field rest ih =>
    obtain ⟨name, old⟩ := field
    by_cases same : name = key
    · subst same
      by_cases dropped : node.child name = .skip <;>
        simp [restrictFields, dropped, ih]
    · by_cases dropped : node.child name = .skip <;>
        simp [restrictFields, dropped, same, ih]

theorem child_of_mem_restrictFields {field : String × Json}
    (mem : field ∈ restrictFields node fields) : node.child field.1 ≠ .skip := by
  induction fields with
  | nil => simp [restrictFields] at mem
  | cons first rest ih =>
    obtain ⟨name, old⟩ := first
    by_cases dropped : node.child name = .skip
    · rw [restrictFields, if_pos dropped] at mem
      exact ih mem
    · rw [restrictFields, if_neg dropped, mem_cons] at mem
      obtain rfl | mem := mem
      · exact dropped
      · exact ih mem

/-- A member that is not on a path changes nothing, and one that is counts by its key. -/
theorem restrictFields_insertField (key : String) (value : Json) :
    restrictFields node (Json.insertField key value fields) =
      if node.child key = .skip then restrictFields node fields
      else Json.insertField key (restrict (node.child key) value) (restrictFields node fields) := by
  by_cases dropped : node.child key = .skip
  · rw [if_pos dropped]
    simp only [Json.insertField]
    split
    · rw [restrictFields_replace]
      -- no field of that key is left to be replaced
      refine map_congr_left (g := id) (fun field mem => ?_) |>.trans (map_id _)
      rw [if_neg]
      · rfl
      · intro same
        exact child_of_mem_restrictFields mem (same ▸ dropped)
    · simp [restrictFields_append, restrictFields, dropped]
  · rw [if_neg dropped]
    simp only [Json.insertField, lookup_restrictFields dropped, Option.isSome_map]
    split
    · rw [restrictFields_replace]
    · simp [restrictFields_append, restrictFields, dropped]

end

/-! ## The projection of a tree -/

section

variable (text : List UInt8 → String)

/-- The key of a member, where the keys of its object are kept. -/
def keyText (node : Node) (key : List UInt8) : String :=
  if node ≠ .skip ∧ node ≠ .leaf then text key else ""

mutual

def project (node : Node) : Tree → Json
  | .atom token => if node = .skip then .null else atomValue token.val
  | .string token => if node = .skip then .null else .string (text token.val)
  | .emptyArray _ | .array _ _ => .array []
  | .emptyObject _ => .object []
  | .object members _ => .object (projectMembers node members)

def projectMembers (node : Node) : Members → List (String × Json)
  | .one _ key _ _ item =>
    let name := keyText text node key.val
    if node.child name = .skip then []
    else Json.insertField name (project (node.child name) item) []
  | .more members _ _ key _ _ item =>
    let name := keyText text node key.val
    if node.child name = .skip then projectMembers node members
    else Json.insertField name (project (node.child name) item) (projectMembers node members)

end

theorem child_keyText (node : Node) (key : List UInt8) :
    node.child (keyText text node key) = node.child (text key) := by
  simp only [keyText]
  split
  · rfl
  · rename_i bare
    have none_ : node = .skip ∨ node = .leaf := by
      by_contra neither
      exact bare ⟨fun same => neither (.inl same), fun same => neither (.inr same)⟩
    obtain rfl | rfl := none_ <;> rfl

theorem keyText_of_child {node : Node} {key : List UInt8}
    (kept : node.child (keyText text node key) ≠ .skip) : keyText text node key = text key := by
  simp only [keyText]
  split
  · rfl
  · rename_i bare
    have none_ : node = .skip ∨ node = .leaf := by
      by_contra neither
      exact bare ⟨fun same => neither (.inl same), fun same => neither (.inr same)⟩
    obtain rfl | rfl := none_ <;> exact absurd rfl kept

mutual

theorem project_eq_restrict {node : Node} (kept : node ≠ .skip) (tree : Tree) :
    project text node tree = restrict node (tree.value text) := by
  match tree with
  | .atom token => simp [project, kept, Tree.value, restrict_atomValue]
  | .string token => simp [project, kept, Tree.value, restrict]
  | .emptyArray _ => simp [project, Tree.value, restrict]
  | .array items _ => simp [project, Tree.value, restrict]
  | .emptyObject _ => simp [project, Tree.value, restrict, restrictFields]
  | .object members _ =>
    simp only [project, Tree.value, restrict, projectMembers_eq_restrict node members]

theorem projectMembers_eq_restrict (node : Node) (members : Members) :
    projectMembers text node members = restrictFields node (members.fields text) := by
  match members with
  | .one _ key _ _ item =>
    simp only [projectMembers, Members.fields, restrictFields_insertField]
    rw [child_keyText]
    split
    · simp [restrictFields]
    · rename_i kept
      rw [keyText_of_child text (by rwa [child_keyText]), project_eq_restrict kept item]
      simp [restrictFields]
  | .more members _ _ key _ _ item =>
    simp only [projectMembers, Members.fields, restrictFields_insertField]
    rw [child_keyText, projectMembers_eq_restrict node members]
    split
    · rfl
    · rename_i kept
      rw [keyText_of_child text (by rwa [child_keyText]), project_eq_restrict kept item]

end

/-! ## Budgets -/

variable (inRange : List UInt8 → Prop)

mutual

/-- The tree stays within the budgets of the projection at a path, with so many levels left.
Tokens of skipped strings may be long, and skipped numbers large. -/
def Within (node : Node) (depth : Nat) : Tree → Prop
  | .atom token =>
    token.val.length ≤ maxToken ∧ (node ≠ .skip → IsNumber token.val → inRange token.val)
  | .string token => node ≠ .skip → token.val.length ≤ maxToken
  | .emptyArray _ | .emptyObject _ => 0 < depth
  | .array items _ => 0 < depth ∧ ItemsWithin (depth - 1) items
  | .object members _ => 0 < depth ∧ MembersWithin node (depth - 1) members

def ItemsWithin (depth : Nat) : Items → Prop
  | .one _ item => Within .skip depth item
  | .more items _ _ item => ItemsWithin depth items ∧ Within .skip depth item

def MembersWithin (node : Node) (depth : Nat) : Members → Prop
  | .one _ key _ _ item =>
    (node ≠ .skip ∧ node ≠ .leaf → key.val.length ≤ maxToken) ∧
      Within (node.child (text key.val)) depth item
  | .more members _ _ key _ _ item =>
    MembersWithin node depth members ∧
      (node ≠ .skip ∧ node ≠ .leaf → key.val.length ≤ maxToken) ∧
        Within (node.child (text key.val)) depth item

end

end

/-- The bytes that the projection takes for a number or a name. -/
def IsWord (raw : List UInt8) : Prop :=
  ∃ b rest, raw = b :: rest ∧ isAtomStart b = true ∧ ∀ c ∈ rest, isDelimiter c = false

/-- What the projection relies on of `serde_json`: strings are read as their text when they are
valid UTF-8, numbers are read when they are in the range of a float, and the validation without a
value accepts the numbers and the names. -/
structure Lawful [Serde] (text : List UInt8 → String) (inRange : List UInt8 → Prop) : Prop where
  string : ∀ raw, IsString raw → Serde.string raw = if Utf8 raw then some (text raw) else none
  scalar : ∀ raw, IsWord raw → ∀ value, Serde.scalar raw = some value ↔
    IsAtom raw ∧ (IsNumber raw → inRange raw) ∧ value = atomValue raw
  ignored : ∀ raw, IsWord raw → (Serde.ignored raw = true ↔ IsAtom raw)

end Agentix.Wire
