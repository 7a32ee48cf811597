import Agentix.Registry.State
import Agentix.Wire.Restriction

/-! # Frames of the client registry

A short message is looked at in full, if its method says that it matters; of a long one there is
only the projection.  The hints and questions that other parts of the registry take from a message
leave the ownership of sessions alone.
-/

namespace Agentix.Registry

open Lib Wire List

/-- What the registry calls of `serde_json`. -/
class Reader where
  /-- `from_str::<Value>`. -/
  value : List UInt8 → Option Json
  /-- `from_str::<FrameHeader>`: the method and the id, where they are not null. -/
  header : List UInt8 → Option (Option String × Option Json)
  /-- The next string of a stream, and the offset behind it. -/
  nextString : List UInt8 → Option (String × Nat)

/-! ## The leading method -/

/-- The encodings of the characters that `trim_start` removes. -/
def whiteSpace : List (List UInt8) :=
  [[9], [10], [11], [12], [13], [32], [0xC2, 0x85], [0xC2, 0xA0], [0xE1, 0x9A, 0x80],
    [0xE2, 0x80, 0x80], [0xE2, 0x80, 0x81], [0xE2, 0x80, 0x82], [0xE2, 0x80, 0x83],
    [0xE2, 0x80, 0x84], [0xE2, 0x80, 0x85], [0xE2, 0x80, 0x86], [0xE2, 0x80, 0x87],
    [0xE2, 0x80, 0x88], [0xE2, 0x80, 0x89], [0xE2, 0x80, 0x8A], [0xE2, 0x80, 0xA8],
    [0xE2, 0x80, 0xA9], [0xE2, 0x80, 0xAF], [0xE2, 0x81, 0x9F], [0xE3, 0x80, 0x80]]

def trimStart (bytes : List UInt8) : List UInt8 :=
  match _here : whiteSpace.find? fun blank => blank.isPrefixOf bytes with
  | none => bytes
  | some blank => trimStart (bytes.drop blank.length)
  termination_by bytes.length
  decreasing_by
    have starts : blank <+: bytes := by simpa using find?_some _here
    have some_ : blank ≠ [] := by
      have member := mem_of_find?_eq_some _here
      rintro rfl
      revert member
      decide
    have length := starts.length_le
    have positive := length_pos_of_ne_nil some_
    rw [length_drop]
    omega

/-- `strip_prefix` of one ASCII character. -/
def stripPrefix (b : UInt8) : List UInt8 → Option (List UInt8)
  | [] => none
  | c :: rest => if c = b then some rest else none

def leadingMethod [Reader] (text : List UInt8) : Option String :=
  match stripPrefix openBrace (trimStart text) with
  | none => none
  | some object =>
    match Reader.nextString object with
    | none => none
    | some (key, offset) =>
      if key ≠ "method" then none
      else
        match stripPrefix colon (trimStart (object.drop offset)) with
        | none => none
        | some value => (Reader.nextString value).map Prod.fst

/-! ## Frames -/

/-- A method of a client that matters to the ownership. -/
def lifecycleMethod (method : String) : Bool :=
  method == "initialize" || tracked method

namespace State

variable [Text] [Reader]

def clientFrame (s : State) (connection : Nat) (text : List UInt8) : State :=
  match Reader.header text with
  | none => s
  | some (method, _) =>
    if method.any lifecycleMethod then
      match Reader.value text with
      | none => s
      | some message => s.clientMessage connection message
    else s

/-- A response is looked at when the registry waits for it: for the request, or for the answers
that were submitted under its id. -/
def serverFrame (s : State) (connection : Nat) (text : List UInt8) (questionInputs : String → Bool)
    (clock : Clock) : State × List AgentEvent :=
  match leadingMethod text with
  | some _ => (s, [])
  | none =>
    match Reader.header text with
    | none => (s, [])
    | some (some _, _) => (s, [])
    | some (none, none) => (s, [])
    | some (none, some id) =>
      let tracked := (s.connections.lookup connection).any fun c =>
        (c.pending.lookup (toText id)).isSome || questionInputs (toText id)
      if tracked then
        match Reader.value text with
        | none => (s, [])
        | some message => s.serverMessage connection message clock
      else (s, [])

def projectedFrame (s : State) (connection : Nat) (text : List UInt8) (fromClient : Bool)
    (clock : Clock) : State × List AgentEvent :=
  match Reader.value text with
  | none => (s, [])
  | some value =>
    if fromClient then
      if ((value.index "method").asStr).any lifecycleMethod then
        (s.clientMessage connection value, [])
      else (s, [])
    else
      match (value.index "method").asStr with
      | some _ => (s, [])
      | none => s.serverMessage connection value clock

/-- A message as the observer of the connection hands it over when it is short. -/
def smallMessage (s : State) (connection : Nat) (text : List UInt8) (fromClient : Bool)
    (questionInputs : String → Bool) (clock : Clock) : State × List AgentEvent :=
  if fromClient then (s.clientFrame connection text, [])
  else s.serverFrame connection text questionInputs clock

/-- A message as the observer of the connection hands it over when it is long. -/
def largeMessage [Serde] (s : State) (connection : Nat) (chunks : List (List UInt8))
    (fromClient : Bool) (clock : Clock) : State × List AgentEvent :=
  match (chunks.foldl Projection.feed {}).finish with
  | none => (s, [])
  | some text => s.projectedFrame connection text.toUTF8.data.toList fromClient clock

end State

end Agentix.Registry

/-! # What the registry sees of a message

Of a message only a few scalars count.  Two messages that show the same ones have the same effect.
-/

namespace Agentix.Registry

open Lib Wire List Option

/-! ## Paths -/

def valueAt (value : Json) (path : List String) : Option Json :=
  path.foldlM Json.get? value

def shallow : Json → Json
  | .object _ => .object []
  | .array _ => .array []
  | .null => .null
  | .bool value => .bool value
  | .number literal => .number literal
  | .string text => .string text

def seen (value : Json) (path : List String) : Option Json :=
  (valueAt value path).map shallow

def lifecyclePaths : List (List String) :=
  [["id"], ["method"], ["params", "threadId"], ["params", "ephemeral"],
    ["params", "clientInfo", "name"], ["result"], ["result", "status"], ["result", "thread", "id"],
    ["result", "thread", "ephemeral"], ["result", "thread", "source", "subAgent"]]

/-- Two messages show the same where it counts. -/
def Alike (a b : Json) : Prop := ∀ path ∈ lifecyclePaths, seen a path = seen b path

theorem Alike.trans {a b c : Json} (first : Alike a b) (second : Alike b c) : Alike a c :=
  fun path mem => (first path mem).trans (second path mem)

theorem Alike.symm {a b : Json} (alike : Alike a b) : Alike b a :=
  fun path mem => (alike path mem).symm

/-! ## The projection shows the same -/

theorem shallow_restrict (node : Node) (value : Json) : shallow (restrict node value) = shallow value := by
  cases value <;> simp [restrict, shallow]

theorem get?_restrict {node : Node} {key : String} (kept : node.child key ≠ .skip) (value : Json) :
    (restrict node value).get? key = (value.get? key).map (restrict (node.child key)) := by
  cases value with
  | object fields => simpa [restrict, Json.get?] using lookup_restrictFields kept
  | _ => simp [restrict, Json.get?]

theorem child_ne_skip_of_follow {node : Node} {key : String} {path : List String}
    (kept : (path.foldl Node.child (node.child key)) ≠ .skip) : node.child key ≠ .skip := by
  intro dropped
  rw [dropped] at kept
  refine kept ?_
  induction path with
  | nil => rfl
  | cons key rest ih => simpa using ih

/-- On a path that is kept, the restriction shows what the value shows. -/
theorem seen_restrict {path : List String} {node : Node} (kept : path.foldl Node.child node ≠ .skip)
    (value : Json) : seen (restrict node value) path = seen value path := by
  induction path generalizing node value with
  | nil => simp [seen, valueAt, shallow_restrict]
  | cons key rest ih =>
    rw [foldl_cons] at kept
    have first := child_ne_skip_of_follow kept
    have there := get?_restrict first value
    simp only [seen, valueAt, foldlM_cons, there, bind_eq_bind]
    cases value.get? key with
    | none => rfl
    | some inner => exact ih kept inner

theorem alike_restrict (value : Json) : Alike (restrict .root value) value := by
  intro path mem
  apply seen_restrict
  revert path
  decide

/-! ## Scalars -/

theorem asStr_shallow (value : Json) : (shallow value).asStr = value.asStr := by
  cases value <;> rfl

theorem isTrue_shallow (value : Json) : (shallow value).isTrue = value.isTrue := by
  cases value <;> rfl

/-- An id as a request has it. -/
def isId (id : Json) : Bool := id.isString || id.isNumber

theorem isId_shallow (value : Json) : isId (shallow value) = isId value := by
  cases value <;> rfl

theorem shallow_of_isId {value : Json} (scalar : isId value = true) : shallow value = value := by
  cases value <;> simp_all [isId, shallow, Json.isString, Json.isNumber]

theorem getD_index (value : Option Json) (key : String) :
    (value.getD .null).index key = (value.bind (·.get? key)).getD .null := by
  cases value <;> rfl

theorem getD_get? (value : Option Json) (key : String) :
    (value.getD .null).get? key = value.bind (·.get? key) := by
  cases value <;> rfl

/-- `value[a][b]`, and so on. -/
def indexAt (value : Json) (path : List String) : Json :=
  path.foldl Json.index value

theorem indexAt_eq (value : Json) (path : List String) :
    indexAt value path = (valueAt value path).getD .null := by
  induction path using reverseRecOn with
  | nil => rfl
  | append_singleton path key ih =>
    simp only [indexAt, foldl_append, foldl_cons, foldl_nil] at ih ⊢
    rw [ih, getD_index]
    simp [valueAt, foldlM_append]

theorem asStr_indexAt (value : Json) (path : List String) :
    (indexAt value path).asStr = (seen value path).bind Json.asStr := by
  rw [indexAt_eq, seen]
  cases valueAt value path with
  | none => rfl
  | some inner => exact (asStr_shallow inner).symm

theorem isTrue_indexAt (value : Json) (path : List String) :
    (indexAt value path).isTrue = (seen value path).any Json.isTrue := by
  rw [indexAt_eq, seen]
  cases valueAt value path with
  | none => rfl
  | some inner => exact (isTrue_shallow inner).symm

theorem get?_indexAt (value : Json) (path : List String) (key : String) :
    ((indexAt value path).get? key).isSome = (seen value (path ++ [key])).isSome := by
  rw [indexAt_eq, getD_get?, seen, isSome_map]
  simp [valueAt, foldlM_append]

/-! ## Requests -/

variable {a b : Json}

theorem method_of_alike (alike : Alike a b) : (a.index "method").asStr = (b.index "method").asStr := by
  have same := alike ["method"] (by decide)
  have left := asStr_indexAt a ["method"]
  have right := asStr_indexAt b ["method"]
  rw [same, ← right] at left
  exact left

theorem requestId_eq (message : Json) : requestId message = (seen message ["id"]).filter isId := by
  have same : seen message ["id"] = (message.get? "id").map shallow := by
    simp [seen, valueAt]
  rw [same, requestId]
  cases message.get? "id" with
  | none => rfl
  | some id =>
    by_cases scalar : isId id = true
    · have plain : (id.isString || id.isNumber) = true := scalar
      rw [map_some, shallow_of_isId scalar]
      rfl
    · have bare : isId (shallow id) = false := by
        rw [isId_shallow]
        simpa using scalar
      have plain : (id.isString || id.isNumber) = false := by simpa [isId] using scalar
      simp [Option.filter, bare, plain]

theorem request_of_alike (alike : Alike a b) (c : Connection) (method : String) :
    c.request method a = c.request method b := by
  have thread : (indexAt a ["params", "threadId"]).asStr = (indexAt b ["params", "threadId"]).asStr := by
    rw [asStr_indexAt, asStr_indexAt, alike ["params", "threadId"] (by decide)]
  simp only [indexAt, foldl_cons, foldl_nil] at thread
  simp only [Connection.request, thread]

theorem ephemeral_of_alike (alike : Alike a b) (method : String) :
    ephemeral method a = ephemeral method b := by
  have same : (indexAt a ["params", "ephemeral"]).isTrue = (indexAt b ["params", "ephemeral"]).isTrue := by
    rw [isTrue_indexAt, isTrue_indexAt, alike ["params", "ephemeral"] (by decide)]
  simp only [indexAt, foldl_cons, foldl_nil] at same
  simp only [ephemeral, same]

section

variable [Text]

/-- Alike requests leave the same on their connection. -/
theorem clientMessage_of_alike (alike : Alike a b) (s : State) (connection : Nat) :
    s.clientMessage connection a = s.clientMessage connection b := by
  have name : (indexAt a ["params", "clientInfo", "name"]).asStr =
      (indexAt b ["params", "clientInfo", "name"]).asStr := by
    rw [asStr_indexAt, asStr_indexAt, alike ["params", "clientInfo", "name"] (by decide)]
  simp only [indexAt, foldl_cons, foldl_nil] at name
  have id : requestId a = requestId b := by
    rw [requestId_eq, requestId_eq, alike ["id"] (by decide)]
  simp only [State.clientMessage, method_of_alike alike, Connection.clientMessage, name, id,
    ephemeral_of_alike alike, request_of_alike alike]

end

/-! ## Responses -/

/-- The requests of a connection wait under the texts of their ids. -/
def KeysOfIds [Text] (c : Connection) : Prop :=
  ∀ key ∈ c.pending, ∃ id, isId id = true ∧ key = toText id

/-- The text of a string or a number is that of no other value. -/
def IdTexts [Text] : Prop :=
  ∀ a b, isId a = true → toText a = toText b → isId b = true

def ResultsAlike (a b : Json) : Prop :=
  ∀ path, "result" :: path ∈ lifecyclePaths → seen a path = seen b path

theorem resultsAlike_of_alike (alike : Alike a b) {result result' : Json}
    (first : a.get? "result" = some result) (second : b.get? "result" = some result') :
    ResultsAlike result result' := by
  intro path mem
  have same := alike _ mem
  simpa [seen, valueAt, first, second] using same

theorem respond_of_alike {result result' : Json} (alike : ResultsAlike result result')
    (c : Connection) (request : PendingRequest) (clock : Clock) :
    c.respond request result clock = c.respond request result' clock := by
  have status : (indexAt result ["status"]).asStr = (indexAt result' ["status"]).asStr := by
    rw [asStr_indexAt, asStr_indexAt, alike ["status"] (by decide)]
  have thread : (indexAt result ["thread", "id"]).asStr =
      (indexAt result' ["thread", "id"]).asStr := by
    rw [asStr_indexAt, asStr_indexAt, alike ["thread", "id"] (by decide)]
  have kept : (indexAt result ["thread", "ephemeral"]).isTrue =
      (indexAt result' ["thread", "ephemeral"]).isTrue := by
    rw [isTrue_indexAt, isTrue_indexAt, alike ["thread", "ephemeral"] (by decide)]
  have helper : ((indexAt result ["thread", "source"]).get? "subAgent").isSome =
      ((indexAt result' ["thread", "source"]).get? "subAgent").isSome := by
    rw [get?_indexAt, get?_indexAt]
    exact congrArg isSome (alike ["thread", "source", "subAgent"] (by decide))
  simp only [indexAt, foldl_cons, foldl_nil] at status thread kept helper
  have left : unsubscribed result = unsubscribed result' := by simp only [unsubscribed, status]
  have started : keptThread result = keptThread result' := by
    simp only [keptThread, thread, kept]
  have agent : subAgent result = subAgent result' := helper
  simp only [Connection.respond, left, started, agent]

variable [Text]

theorem lookup_of_other (texts : IdTexts) {c : Connection} (keys : KeysOfIds c) {id : Json}
    (other : isId id = false) : c.pending.lookup (toText id) = none := by
  rw [AList.lookup_eq_none]
  intro mem
  obtain ⟨id', is_id, same⟩ := keys _ mem
  rw [texts id' id is_id same.symm] at other
  cases other

theorem awaited_of_alike (alike : Alike a b) (texts : IdTexts) {c : Connection}
    (keys : KeysOfIds c) : c.awaited a = c.awaited b := by
  have method : (a.get? "method").isSome = (b.get? "method").isSome := by
    have same := congrArg isSome (alike ["method"] (by decide))
    simpa [seen, valueAt] using same
  have ids : (a.get? "id").map shallow = (b.get? "id").map shallow := by
    have same := alike ["id"] (by decide)
    simpa [seen, valueAt] using same
  simp only [Connection.awaited, method]
  cases first : a.get? "id" with
  | none =>
    rw [first] at ids
    have second : b.get? "id" = none := by simpa using ids.symm
    rw [second]
  | some id =>
    rw [first] at ids
    cases second : b.get? "id" with
    | none => rw [second] at ids; cases ids
    | some id' =>
      rw [second] at ids
      have same : shallow id = shallow id' := by simpa using ids
      by_cases scalar : isId id = true
      · have scalar' : isId id' = true := by rw [← isId_shallow, ← same, isId_shallow, scalar]
        rw [shallow_of_isId scalar, shallow_of_isId scalar'] at same
        rw [same]
      · have bare : isId id = false := by simpa using scalar
        have bare' : isId id' = false := by rw [← isId_shallow, ← same, isId_shallow, bare]
        simp [lookup_of_other texts keys bare, lookup_of_other texts keys bare']

theorem serverMessage_of_alike (alike : Alike a b) (texts : IdTexts) {s : State}
    (keys : ∀ connection c, s.connections.lookup connection = some c → KeysOfIds c)
    (connection : Nat) (clock : Clock) :
    s.serverMessage connection a clock = s.serverMessage connection b clock := by
  have results : (a.get? "result").map shallow = (b.get? "result").map shallow := by
    have same := alike ["result"] (by decide)
    simpa [seen, valueAt] using same
  simp only [State.serverMessage]
  cases there : s.connections.lookup connection with
  | none => rfl
  | some c =>
    simp only [awaited_of_alike alike texts (keys connection c there)]
    cases c.awaited b with
    | none => rfl
    | some found =>
      obtain ⟨key, request⟩ := found
      simp only
      cases first : a.get? "result" with
      | none =>
        rw [first] at results
        have second : b.get? "result" = none := by simpa using results.symm
        rw [second]
      | some result =>
        rw [first] at results
        cases second : b.get? "result" with
        | none => rw [second] at results; cases results
        | some result' =>
          simp only [respond_of_alike (resultsAlike_of_alike alike first second)]

end Agentix.Registry
