import Agentix.Wire.Complete

/-! # Only documents are read

What the parser holds after any bytes: one frame for each container that is open, and the token
that is under way.
-/

namespace Agentix.Wire

open Lib List Option

/-- The space is longer by a byte. -/
def spaceSnoc (space : Space) {b : UInt8} (blank : isSpace b = true) : Space :=
  ⟨space.val ++ [b], by simp [space.property, blank]⟩

def noSpace : Space := ⟨[], rfl⟩

section

variable (text : List UInt8 → String)

/-! ## Frames -/

/-- An object up to a place where a key may come. -/
inductive Keys (node : Node) : List (String × Json) → List UInt8 → Prop
  | first (space : Space) : Keys node [] (openBrace :: space.val)
  | next (members : Members) (before after : Space) :
      Keys node (projectMembers text node members)
        (openBrace :: (members.bytes ++ before.val ++ comma :: after.val))

/-- The bytes of a container that is open, up to the item that is under way. -/
inductive Unclosed (c : Container) : List UInt8 → Prop
  | array (kind : c.object = false) (phase : c.phase = .valueOrEnd) (space : Space) :
      Unclosed c (openBracket :: space.val)
  | item (kind : c.object = false) (phase : c.phase = .value) (items : Items)
      (before after : Space) :
      Unclosed c (openBracket :: (items.bytes ++ before.val ++ comma :: after.val))
  | items (kind : c.object = false) (phase : c.phase = .commaOrEnd) (items : Items)
      (space : Space) : Unclosed c (openBracket :: (items.bytes ++ space.val))
  | object (kind : c.object = true) (phase : c.phase = .keyOrEnd) (fields : c.fields = [])
      (space : Space) : Unclosed c (openBrace :: space.val)
  | key (kind : c.object = true) (phase : c.phase = .key) (members : Members)
      (fields : c.fields = projectMembers text c.node members) (before after : Space) :
      Unclosed c (openBrace :: (members.bytes ++ before.val ++ comma :: after.val))
  | colon {w : List UInt8} (kind : c.object = true) (phase : c.phase = .colon)
      (keys : Keys text c.node c.fields w) (key : Quoted)
      (name : c.key = keyText text c.node key.val) (space : Space) :
      Unclosed c (w ++ (key.val ++ space.val))
  | value {w : List UInt8} (kind : c.object = true) (phase : c.phase = .value)
      (keys : Keys text c.node c.fields w) (key : Quoted)
      (name : c.key = keyText text c.node key.val) (before after : Space) :
      Unclosed c (w ++ (key.val ++ before.val ++ Lib.colon :: after.val))
  | members (kind : c.object = true) (phase : c.phase = .commaOrEnd) (members : Members)
      (fields : c.fields = projectMembers text c.node members) (space : Space) :
      Unclosed c (openBrace :: (members.bytes ++ space.val))

/-- The open containers, the innermost first. -/
inductive Consumed : List Container → Option Json → List UInt8 → Prop
  | start (space : Space) : Consumed [] none space.val
  | done (before : Space) (tree : Tree) (after : Space) :
      Consumed [] (some (project text .root tree)) (before.val ++ tree.bytes ++ after.val)
  | inside {c : Container} {rest : List Container} {outer inner : List UInt8}
      (outside : Consumed rest none outer) (ready : Machine.Ready { stack := rest })
      (node : c.node = Machine.node { stack := rest }) (frame : Unclosed text c inner) :
      Consumed (c :: rest) none (outer ++ inner)

end

variable {text : List UInt8 → String}

theorem Keys.member {node : Node} {fields : List (String × Json)} {w : List UInt8}
    (keys : Keys text node fields w) (key : Quoted) (before after : Space) (item : Tree) :
    ∃ members : Members,
      w ++ (key.val ++ before.val ++ colon :: after.val) ++ item.bytes =
        openBrace :: members.bytes ∧
      projectMembers text node members =
        if node.child (keyText text node key.val) = .skip then fields
        else Json.insertField (keyText text node key.val)
          (project text (node.child (keyText text node key.val)) item) fields := by
  cases keys with
  | first space =>
    exact ⟨.one space key before after item, by simp [Members.bytes], by simp [projectMembers]⟩
  | next members left right =>
    exact ⟨.more members left right key before after item, by simp [Members.bytes],
      by simp [projectMembers]⟩

namespace Unclosed

variable {c : Container} {w : List UInt8} {b : UInt8}

theorem space (frame : Unclosed text c w) (blank : isSpace b = true) : Unclosed text c (w ++ [b]) := by
  cases frame with
  | array kind phase space => exact .array kind phase (spaceSnoc space blank)
  | item kind phase items before after =>
    simpa [spaceSnoc] using @Unclosed.item text c kind phase items before
      (spaceSnoc after blank)
  | items kind phase items space =>
    simpa [spaceSnoc] using @Unclosed.items text c kind phase items (spaceSnoc space blank)
  | object kind phase fields space => exact .object kind phase fields (spaceSnoc space blank)
  | key kind phase members fields before after =>
    simpa [spaceSnoc] using Unclosed.key kind phase members fields before (spaceSnoc after blank)
  | colon kind phase keys key name space =>
    simpa [spaceSnoc] using Unclosed.colon kind phase keys key name (spaceSnoc space blank)
  | value kind phase keys key name before after =>
    simpa [spaceSnoc] using Unclosed.value kind phase keys key name before (spaceSnoc after blank)
  | members kind phase members fields space =>
    simpa [spaceSnoc] using Unclosed.members kind phase members fields (spaceSnoc space blank)

theorem keys (frame : Unclosed text c w) (phase : c.phase = .keyOrEnd ∨ c.phase = .key) :
    c.object = true ∧ Keys text c.node c.fields w := by
  cases frame with
  | object kind _ fields space =>
    rw [fields]
    exact ⟨kind, .first space⟩
  | key kind _ members fields before after =>
    rw [fields]
    exact ⟨kind, .next members before after⟩
  | _ => simp_all

theorem item_read {item : Tree} (frame : Unclosed text c w)
    (phase : c.phase = .value ∨ c.phase = .valueOrEnd) :
    let node := if c.object then c.node.child c.key else .skip
    let c' : Container :=
      if c.object ∧ c.node.child c.key ≠ .skip then
        { c with fields := Json.insertField c.key (project text node item) c.fields, key := "" }
      else c
    Unclosed text { c' with phase := .commaOrEnd } (w ++ item.bytes) := by
  cases frame with
  | array kind _ space =>
    have read := @Unclosed.items text { c with phase := .commaOrEnd } kind rfl
      (.one space item) noSpace
    simpa [kind, Items.bytes, noSpace] using read
  | item kind _ items before after =>
    have read := @Unclosed.items text { c with phase := .commaOrEnd } kind rfl
      (.more items before after item) noSpace
    simpa [kind, Items.bytes, noSpace] using read
  | value kind _ keys key name before after =>
    obtain ⟨members, bytes, fields⟩ := keys.member key before after item
    rw [← name] at fields
    rw [bytes]
    by_cases skipped : c.node.child c.key = .skip
    · rw [if_pos skipped] at fields
      have read := @Unclosed.members text { c with phase := .commaOrEnd } kind rfl
        members fields.symm noSpace
      simpa [kind, skipped, noSpace] using read
    · rw [if_neg skipped] at fields
      have read := @Unclosed.members text { c with
        phase := .commaOrEnd, key := ""
        fields := Json.insertField c.key (project text (c.node.child c.key) item) c.fields }
        kind rfl members fields.symm noSpace
      simpa [kind, skipped, noSpace] using read
  | _ => simp_all

theorem after_key (frame : Unclosed text c w) (phase : c.phase = .keyOrEnd ∨ c.phase = .key)
    (key : Quoted) :
    Unclosed text { c with key := keyText text c.node key.val, phase := .colon } (w ++ key.val) := by
  obtain ⟨kind, keys⟩ := frame.keys phase
  have read := Unclosed.colon (c := { c with key := keyText text c.node key.val, phase := .colon })
    kind rfl keys key rfl noSpace
  simpa [noSpace] using read

theorem after_colon (frame : Unclosed text c w) (phase : c.phase = .colon) :
    Unclosed text { c with phase := .value } (w ++ [Lib.colon]) := by
  cases frame with
  | colon kind _ keys key name space =>
    have read := Unclosed.value (c := { c with phase := .value }) kind rfl keys key name space noSpace
    simpa [noSpace] using read
  | _ => simp_all

theorem after_comma (frame : Unclosed text c w) (phase : c.phase = .commaOrEnd) :
    Unclosed text { c with phase := if c.object then .key else .value } (w ++ [comma]) := by
  cases frame with
  | items kind _ items space =>
    have read := @Unclosed.item text { c with phase := .value } kind rfl items space noSpace
    simpa [noSpace, kind] using read
  | members kind _ members fields space =>
    have read := Unclosed.key (c := { c with phase := .key }) kind rfl members fields space noSpace
    simpa [noSpace, kind] using read
  | _ => simp_all

end Unclosed

namespace Consumed

variable {stack : List Container} {result : Option Json} {w : List UInt8} {b : UInt8}

theorem space (consumed : Consumed text stack result w) (blank : isSpace b = true) :
    Consumed text stack result (w ++ [b]) := by
  cases consumed with
  | start space => exact .start (spaceSnoc space blank)
  | done before tree after =>
    simpa [spaceSnoc] using @Consumed.done text before tree (spaceSnoc after blank)
  | inside outside ready node frame =>
    rw [append_assoc]
    exact .inside outside ready node (frame.space blank)

theorem inner {c c' : Container} {rest : List Container} {more : List UInt8}
    (consumed : Consumed text (c :: rest) result w) (node : c'.node = c.node)
    (goes : ∀ inner, Unclosed text c inner → Unclosed text c' (inner ++ more)) :
    Consumed text (c' :: rest) result (w ++ more) := by
  cases consumed with
  | inside outside ready same frame =>
    rw [append_assoc]
    exact .inside outside ready (node.trans same) (goes _ frame)

theorem value {m m' : Machine} {tree : Tree} (consumed : Consumed text m.stack m.result w)
    (ready : m.Ready) (valued : m.value (project text m.node tree) = some m') :
    Consumed text m'.stack m'.result (w ++ tree.bytes) := by
  obtain ⟨stack, token, result⟩ := m
  cases consumed with
  | start space =>
    cases valued
    simpa [noSpace, Machine.node] using @Consumed.done text space tree noSpace
  | done before tree after => cases ready
  | @inside c rest outer inner outside outerReady node frame =>
    have phase : c.phase = .value ∨ c.phase = .valueOrEnd := ready
    simp only [Machine.value, if_pos phase, some.injEq] at valued
    subst valued
    rw [append_assoc]
    have read := @Unclosed.item_read _ _ _ tree frame phase
    refine .inside outside outerReady ?_ read
    simp only
    split <;> exact node

end Consumed

/-! ## The parser -/

namespace Machine

variable {m m' : Machine} {c : Container} {rest : List Container} {w : List UInt8} {b : UInt8}

theorem close_eq (closes : m.close c rest b = some m') :
    b = (if c.object then closeBrace else closeBracket) ∧
      (c.phase = .keyOrEnd ∨ c.phase = .valueOrEnd ∨ c.phase = .commaOrEnd) ∧
      ({ m with stack := rest } : Machine).value
        (if c.object then .object c.fields else .array []) = some m' := by
  rw [close] at closes
  by_cases refused : b ≠ (if c.object then closeBrace else closeBracket) ∨
      ¬ (c.phase = .keyOrEnd ∨ c.phase = .valueOrEnd ∨ c.phase = .commaOrEnd)
  · rw [if_pos refused] at closes
    cases closes
  · rw [if_neg refused] at closes
    simp only [not_or, ne_eq, not_not] at refused
    exact ⟨refused.1, by simpa only [← not_or, not_not] using refused.2, closes⟩

theorem consumed_close (stack : m.stack = c :: rest) (consumed : Consumed text m.stack m.result w)
    (closes : m.close c rest b = some m') : Consumed text m'.stack m'.result (w ++ [b]) := by
  obtain ⟨matching, phase, closes⟩ := close_eq closes
  obtain ⟨_, token, result⟩ := m
  cases stack
  cases consumed with
  | @inside _ _ outer inner outside ready node frame =>
    have ends : ∀ tree : Tree,
        project text (Machine.node { stack := rest }) tree =
          (if c.object then .object c.fields else .array []) →
        inner ++ [b] = tree.bytes → Consumed text m'.stack m'.result (outer ++ inner ++ [b]) := by
      intro tree projected bytes
      rw [append_assoc, bytes]
      refine Consumed.value (m := { stack := rest, token, result := none }) outside ready ?_
      rw [← closes, ← projected]
      rfl
    cases frame with
    | array kind _ space =>
      refine ends (.emptyArray space) (by simp [project, kind]) ?_
      simp [Tree.bytes, matching, kind]
    | items kind _ items space =>
      refine ends (.array items space) (by simp [project, kind]) ?_
      simp [Tree.bytes, matching, kind]
    | object kind _ fields space =>
      refine ends (.emptyObject space) (by simp [project, kind, fields]) ?_
      simp [Tree.bytes, matching, kind]
    | members kind _ members fields space =>
      refine ends (.object members space) (by simp [project, kind, fields, ← node]) ?_
      simp [Tree.bytes, matching, kind]
    | _ => simp_all

theorem close_token (closes : m.close c rest b = some m') : m'.token = m.token :=
  value_token (m := { m with stack := rest }) (close_eq closes).2.2

/-- What the parser holds after these bytes. -/
inductive Holds (text : List UInt8 → String) (m : Machine) : List UInt8 → Prop
  | clear {w : List UInt8} (token : m.token = none)
      (consumed : Consumed text m.stack m.result w) : Holds text m w
  | atom {w raw : List UInt8} (token : m.token = some (.atom raw m.node)) (ready : m.Ready)
      (consumed : Consumed text m.stack m.result w) (word : IsWord raw) : Holds text m (w ++ raw)
  | string {w body : List UInt8} {s : StringToken} (token : m.token = some (.string s))
      (ready : m.Ready) (consumed : Consumed text m.stack m.result w) (reading : s.Reading body)
      (value : s.key = false) (capture : s.capture = decide (m.node ≠ .skip))
      (raw : s.capture = true → s.raw = quote :: body) : Holds text m (w ++ quote :: body)
  | key {w body : List UInt8} {s : StringToken} {c : Container} {rest : List Container}
      (token : m.token = some (.string s)) (stack : m.stack = c :: rest)
      (phase : c.phase = .keyOrEnd ∨ c.phase = .key)
      (consumed : Consumed text m.stack m.result w) (reading : s.Reading body)
      (key : s.key = true) (capture : s.capture = decide (c.node ≠ .skip ∧ c.node ≠ .leaf))
      (raw : s.capture = true → s.raw = quote :: body) : Holds text m (w ++ quote :: body)

theorem holds_start (text : List UInt8 → String) : Holds text {} [] :=
  .clear rfl (.start noSpace)

theorem holds_begin (consumed : Consumed text m.stack m.result w) (clear : m.token = none)
    (ready : m.Ready) (begins : m.begin b = some m') : Holds text m' (w ++ [b]) := by
  simp only [begin] at begins
  split at begins
  · rename_i opens
    split at begins
    · cases begins
    cases begins
    have result : m.result = none := by
      obtain ⟨stack, token, result⟩ := m
      cases consumed with
      | start => rfl
      | done => cases ready
      | inside => rfl
    have outside : Consumed text m.stack none w := result ▸ consumed
    have before : Ready { stack := m.stack } := by
      simp only [Ready] at ready ⊢
      split at ready
      · trivial
      · rename_i stack
        simpa [stack] using ready
    refine .clear clear ?_
    simp only [result]
    obtain rfl | rfl := opens
    · exact .inside outside before rfl (.object rfl rfl rfl noSpace)
    · exact .inside outside before rfl (.array rfl rfl noSpace)
  split at begins
  · rename_i is_quote
    cases begins
    subst is_quote
    exact .string rfl ready consumed (StringToken.Idle.reading ⟨rfl, rfl, rfl, rfl⟩) rfl rfl
      (fun _ => rfl)
  split at begins
  · rename_i start
    cases begins
    exact .atom rfl ready consumed ⟨b, [], rfl, start, by simp⟩
  · cases begins

theorem holds_punctuate (consumed : Consumed text m.stack m.result w) (clear : m.token = none)
    (reads : m.punctuate b = some m') : Holds text m' (w ++ [b]) := by
  simp only [punctuate] at reads
  split at reads
  · rename_i blank
    cases reads
    exact .clear clear (consumed.space blank)
  rename_i visible
  split at reads
  · rename_i c rest stack
    split at reads
    -- a key, or the end of an object
    · rename_i phase
      split at reads
      · rename_i is_quote
        cases reads
        subst is_quote
        exact .key rfl stack (.inl phase) consumed
          (StringToken.Idle.reading ⟨rfl, rfl, rfl, rfl⟩) rfl rfl (fun _ => rfl)
      split at reads
      · cases reads
      · exact .clear ((close_token reads).trans clear) (consumed_close stack consumed reads)
    · rename_i phase
      split at reads
      · rename_i is_quote
        cases reads
        subst is_quote
        exact .key rfl stack (.inr phase) consumed
          (StringToken.Idle.reading ⟨rfl, rfl, rfl, rfl⟩) rfl rfl (fun _ => rfl)
      split at reads
      · cases reads
      · exact .clear ((close_token reads).trans clear) (consumed_close stack consumed reads)
    · rename_i phase
      split at reads
      · cases reads
      rename_i same
      simp only [ne_eq, not_not] at same
      cases reads
      subst same
      rw [stack] at consumed
      exact .clear clear (consumed.inner rfl fun _ frame => frame.after_colon phase)
    · rename_i phase
      split at reads
      · rename_i same
        cases reads
        subst same
        rw [stack] at consumed
        exact .clear clear (consumed.inner rfl fun _ frame => frame.after_comma phase)
      by_cases other : b ≠ (if c.object then closeBrace else closeBracket)
      · rw [if_pos other] at reads
        cases reads
      · rw [if_neg other] at reads
        exact .clear ((close_token reads).trans clear) (consumed_close stack consumed reads)
    · rename_i phase
      split at reads
      · exact .clear ((close_token reads).trans clear) (consumed_close stack consumed reads)
      · exact holds_begin consumed clear (by simp [Ready, stack, phase]) reads
    · rename_i phase
      split at reads
      · exact .clear ((close_token reads).trans clear) (consumed_close stack consumed reads)
      · exact holds_begin consumed clear (by simp [Ready, stack, phase]) reads
  · rename_i stack
    split at reads
    · cases reads
    · rename_i empty
      exact holds_begin consumed clear (by simpa [Ready, stack] using empty) reads

variable [Serde] {inRange : List UInt8 → Prop}

theorem holds_finishAtom (lawful : Lawful text inRange) (holds : Holds text m w)
    (token : ∀ s, m.token ≠ some (.string s)) (finishes : m.finishAtom = some m') :
    m'.token = none ∧ Consumed text m'.stack m'.result w := by
  cases holds with
  | clear clear consumed =>
    rw [finishAtom_none clear] at finishes
    cases finishes
    exact ⟨clear, consumed⟩
  | @atom w raw is_atom ready consumed word =>
    have read : ∀ atom : IsAtom raw, ({ m with token := none } : Machine).value
        (project text m.node (.atom ⟨raw, atom⟩)) = some m' →
        m'.token = none ∧ Consumed text m'.stack m'.result (w ++ raw) := by
      intro atom valued
      exact ⟨value_token valued,
        @Consumed.value _ _ { m with token := none } _ (.atom ⟨raw, atom⟩) consumed ready
          valued⟩
    simp only [finishAtom, is_atom] at finishes
    split at finishes
    · rename_i skipped
      split at finishes
      · rename_i accepted
        have atom := (lawful.ignored raw word).mp accepted
        refine read atom ?_
        rw [← finishes]
        simp [project, skipped]
      · cases finishes
    · rename_i kept
      rw [bind_eq_some_iff] at finishes
      obtain ⟨value, scalar, valued⟩ := finishes
      obtain ⟨atom, -, rfl⟩ := (lawful.scalar raw word value).mp scalar
      refine read atom ?_
      rw [← valued]
      simp [project, kept]
  | string is_string => exact absurd is_string (token _)
  | key is_string => exact absurd is_string (token _)

omit [Serde] in
theorem raw_byte {s s' : StringToken} {body : List UInt8} {done : Bool}
    (reads : s.byte b = some (done, s')) (raw : s.capture = true → s.raw = quote :: body)
    (captured : s'.capture = true) : s'.raw = quote :: (body ++ [b]) := by
  obtain ⟨capture, -, kept, -⟩ := StringToken.byte_raw reads
  rw [capture] at captured
  rw [kept, StringToken.push, if_pos captured]
  simp [raw captured]

theorem string_read (lawful : Lawful text inRange) {raw : List UInt8} {read : String}
    (is_string : IsString raw) (reads : Serde.string raw = some read) : read = text raw := by
  rw [lawful.string raw is_string] at reads
  split at reads
  · cases reads
    rfl
  · cases reads

theorem holds_byte (lawful : Lawful text inRange) (holds : Holds text m w)
    (reads : m.byte b = some m') : Holds text m' (w ++ [b]) := by
  cases holds with
  -- Between tokens the byte is punctuation, or it starts a token.
  | clear clear consumed =>
    have same : m.byte b = m.punctuate b := by simp [Machine.byte, clear]
    exact holds_punctuate consumed clear (same.symm.trans reads)
  -- A delimiter closes the atom and is then read again as punctuation.
  | @atom w raw token ready consumed word =>
    by_cases delimiter : isDelimiter b = true
    · simp only [Machine.byte, token, if_pos delimiter] at reads
      rw [bind_eq_some_iff] at reads
      obtain ⟨m₁, finishes, later⟩ := reads
      obtain ⟨clear, consumed⟩ := holds_finishAtom lawful (.atom token ready consumed word)
        (by simp [token]) finishes
      exact holds_punctuate consumed clear later
    · simp only [Machine.byte, token, if_neg delimiter] at reads
      split at reads
      · cases reads
      cases reads
      obtain ⟨first, rest, rfl, start, inside⟩ := word
      rw [append_assoc]
      refine .atom rfl ready consumed ⟨first, rest ++ [b], by simp, start, ?_⟩
      intro c mem
      rw [mem_append, mem_singleton] at mem
      obtain mem | rfl := mem
      · exact inside c mem
      · simpa using delimiter
  -- The closing quote delivers the value of the string to the node that awaits it.
  | @string w body s token ready consumed reading value capture raw =>
    simp only [Machine.byte, token, stringByte] at reads
    split at reads
    · cases reads
    · rename_i s' ends
      obtain ⟨rfl, is_body, -⟩ := reading.byte ends
      obtain ⟨capture', key, -⟩ := StringToken.byte_raw ends
      have is_string : IsString (quote :: (body ++ [quote])) := ⟨body, rfl, is_body⟩
      have done : ({ m with token := none } : Machine).value
          (project text m.node (.string ⟨_, is_string⟩)) = some m' := by
        have other : s'.key = false := key.trans value
        simp only [finishString, other, Bool.false_eq_true, if_false] at reads
        by_cases captured : s'.capture = true
        · have kept : m.node ≠ .skip := by simpa [capture', capture] using captured
          rw [if_pos captured, raw_byte ends raw captured, bind_eq_some_iff] at reads
          obtain ⟨_, read, valued⟩ := reads
          rw [map_eq_some_iff] at read
          obtain ⟨read, known, rfl⟩ := read
          obtain rfl := string_read lawful is_string known
          simpa [project, kept] using valued
        · have skipped : m.node = .skip := by simpa [capture', capture] using captured
          rw [if_neg captured] at reads
          simpa [project, skipped] using reads
      refine .clear (value_token done) ?_
      have whole := Consumed.value (m := { m with token := none }) consumed ready done
      simpa [Tree.bytes] using whole
    · rename_i s' goes
      cases reads
      obtain ⟨capture', key, -⟩ := StringToken.byte_raw goes
      rw [append_assoc, cons_append]
      exact .string rfl ready consumed (reading.byte goes) (key.trans value)
        (capture'.trans capture) (raw_byte goes raw)
  | @key w body s c rest token stack phase consumed reading is_key capture raw =>
    simp only [Machine.byte, token, stringByte] at reads
    split at reads
    · cases reads
    · rename_i s' ends
      obtain ⟨rfl, is_body, -⟩ := reading.byte ends
      obtain ⟨capture', key, -⟩ := StringToken.byte_raw ends
      have is_string : IsString (quote :: (body ++ [quote])) := ⟨body, rfl, is_body⟩
      have named : m' = { m with
          token := none
          stack := { c with
            key := keyText text c.node (quote :: (body ++ [quote])), phase := .colon } :: rest } := by
        simp only [finishString, key.trans is_key, if_true, stack] at reads
        by_cases captured : s'.capture = true
        · have wanted : c.node ≠ .skip ∧ c.node ≠ .leaf := by
            simpa [capture', capture] using captured
          rw [if_pos captured, raw_byte ends raw captured, map_eq_some_iff] at reads
          obtain ⟨read, known, rfl⟩ := reads
          obtain rfl := string_read lawful is_string known
          simp [keyText, wanted]
        · have bare : ¬ (c.node ≠ .skip ∧ c.node ≠ .leaf) := by
            simpa [capture', capture] using captured
          rw [if_neg captured] at reads
          cases reads
          simp only [keyText, if_neg bare]
      subst named
      rw [stack] at consumed
      rw [append_assoc, cons_append]
      exact .clear rfl (consumed.inner rfl fun _ frame =>
        frame.after_key phase ⟨quote :: (body ++ [quote]), is_string⟩)
    · rename_i s' goes
      cases reads
      obtain ⟨capture', key, -⟩ := StringToken.byte_raw goes
      rw [append_assoc, cons_append]
      exact .key rfl stack phase consumed (reading.byte goes) (key.trans is_key)
        (capture'.trans capture) (raw_byte goes raw)

theorem holds_run (lawful : Lawful text inRange) {bytes : List UInt8} (holds : Holds text m w)
    (reads : m.run bytes = some m') : Holds text m' (w ++ bytes) := by
  induction bytes generalizing m w with
  | nil => cases reads; simpa using holds
  | cons b rest ih =>
    rw [run_cons, bind_eq_some_iff] at reads
    obtain ⟨next, first, later⟩ := reads
    have read := ih (holds_byte lawful holds first) later
    simpa using read

theorem document_of_ended (lawful : Lawful text inRange) {value : Json} (holds : Holds text m w)
    (ended : m.ended = some value) :
    ∃ tree, IsDocument w tree ∧ value = project text .root tree := by
  simp only [Machine.ended] at ended
  split at ended
  · cases ended
  rename_i m₁ finishes
  split at ended
  · cases ended
  rename_i complete
  simp only [ne_eq, not_or, not_not] at complete
  obtain ⟨-, bare⟩ := complete
  have consumed : Consumed text m₁.stack m₁.result w := by
    cases holds with
    | clear clear consumed => exact (holds_finishAtom lawful (.clear clear consumed) (by simp [clear]) finishes).2
    | atom token ready consumed word =>
      exact (holds_finishAtom lawful (.atom token ready consumed word) (by simp [token]) finishes).2
    | string token ready consumed =>
      -- a string under way is dropped, and no value was read before it
      simp only [finishAtom, token, some.injEq] at finishes
      subst finishes
      simp only at bare ended
      simp [Ready, bare, ended] at ready
    | key token stack =>
      simp only [finishAtom, token, some.injEq] at finishes
      subst finishes
      simp [stack] at bare
  rw [bare, ended] at consumed
  cases consumed with
  | done before tree after => exact ⟨tree, ⟨before, after, rfl⟩, rfl⟩

end Machine

namespace Projection

variable [Serde] {inRange : List UInt8 → Prop}

theorem document_of_verdict (lawful : Lawful text inRange) {bytes : List UInt8} {value : Json}
    (read : verdict bytes = some value) :
    Utf8 bytes ∧ ∃ tree, IsDocument bytes tree ∧ value = project text .root tree := by
  simp only [verdict] at read
  split at read
  · rename_i valid
    rw [bind_eq_some_iff] at read
    obtain ⟨m, runs, ended⟩ := read
    exact ⟨valid, Machine.document_of_ended lawful
      (Machine.holds_run lawful (Machine.holds_start text) runs) ended⟩
  · cases read

theorem finish_feedAll (chunks : List (List UInt8)) :
    (feedAll chunks).finish = (verdict chunks.flatten).map Serde.render := by
  rw [finish, outcome_feedAll]

theorem finish_of_document (lawful : Lawful text inRange) {chunks : List (List UInt8)} {tree : Tree}
    (document : IsDocument chunks.flatten tree) (within : Within text inRange .root maxDepth tree)
    (valid : Utf8 chunks.flatten) :
    (feedAll chunks).finish = some (Serde.render (restrict .root (tree.value text))) := by
  rw [finish_feedAll, verdict_of_document lawful document within valid,
    project_eq_restrict text (by decide) tree]
  rfl

theorem restrict_unique (lawful : Lawful text inRange) {bytes : List UInt8} {tree tree' : Tree}
    (document : IsDocument bytes tree) (document' : IsDocument bytes tree') (valid : Utf8 bytes)
    (within : Within text inRange .root maxDepth tree)
    (within' : Within text inRange .root maxDepth tree') :
    restrict .root (tree.value text) = restrict .root (tree'.value text) := by
  have first := verdict_of_document lawful document within valid
  rw [verdict_of_document lawful document' within' valid] at first
  rw [← project_eq_restrict text (by decide) tree, ← project_eq_restrict text (by decide) tree']
  exact (some.inj first).symm

end Projection

end Agentix.Wire
