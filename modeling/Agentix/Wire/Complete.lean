import Agentix.Wire.Restriction
import Agentix.Wire.Strings

/-! # Documents are read

A document within the budgets takes the parser to the projection of its tree.
-/

namespace Agentix.Wire

open Lib List Option

/-! ## Words -/

variable {bytes : List UInt8} {b : UInt8}

/-- The bytes of numbers. -/
def isNumeral (b : UInt8) : Bool :=
  isDigit b || b == 45 || b == 43 || b == 46 || b == 101 || b == 69

theorem isDelimiter_of_isDigit (digit : isDigit b = true) : isDelimiter b = false := by
  by_contra delimiter
  simp only [isDelimiter, isSpace, Bool.not_eq_false, Bool.or_eq_true, beq_iff_eq] at delimiter
  obtain (((((rfl | rfl) | rfl) | rfl) | rfl) | rfl) | rfl := delimiter <;> simp [isDigit] at digit <;>
    revert digit <;> decide

theorem isDelimiter_of_isNumeral (numeral : isNumeral b = true) :
    isDelimiter b = false := by
  simp only [isNumeral, Bool.or_eq_true, beq_iff_eq] at numeral
  obtain ((((digit | rfl) | rfl) | rfl) | rfl) | rfl := numeral
  · exact isDelimiter_of_isDigit digit
  all_goals decide

theorem isNumeral_of_isDigit (digit : isDigit b = true) : isNumeral b = true := by
  simp [isNumeral, digit]

theorem isNumeral_of_digits (digits : Digits bytes) :
    ∀ b ∈ bytes, isNumeral b = true :=
  fun b mem => isNumeral_of_isDigit (digits b mem)

theorem isNumeral_of_isInteger (integer : IsInteger bytes) :
    ∃ b rest, bytes = b :: rest ∧ isDigit b = true ∧ ∀ c ∈ rest, isNumeral c = true := by
  obtain rfl | ⟨first, rest, rfl, digit, -, digits⟩ := integer
  · exact ⟨48, [], rfl, by decide, by simp⟩
  · exact ⟨first, rest, rfl, digit, isNumeral_of_digits digits⟩

theorem isNumeral_of_isFraction (fraction : IsFraction bytes) :
    ∀ b ∈ bytes, isNumeral b = true := by
  obtain rfl | ⟨first, rest, rfl, digit, digits⟩ := fraction
  · simp
  · intro b mem
    rw [mem_cons, mem_cons] at mem
    obtain rfl | rfl | mem := mem
    · decide
    · exact isNumeral_of_isDigit digit
    · exact isNumeral_of_digits digits b mem

theorem isNumeral_of_isExponent (exponent : IsExponent bytes) :
    ∀ b ∈ bytes, isNumeral b = true := by
  obtain rfl | ⟨e, sign, first, rest, rfl, letter, signed, digit, digits⟩ := exponent
  · simp
  · intro b mem
    rw [mem_cons, mem_append, mem_cons] at mem
    obtain rfl | mem | rfl | mem := mem
    · obtain rfl | rfl := letter <;> decide
    · obtain rfl | rfl | rfl := signed <;> simp at mem <;> subst mem <;> decide
    · exact isNumeral_of_isDigit digit
    · exact isNumeral_of_digits digits b mem

theorem isWord_of_isNumber {raw : List UInt8} (number : IsNumber raw) : IsWord raw := by
  obtain ⟨sign, integer, fraction, exponent, rfl, signed, isInteger, isFraction, isExponent⟩ := number
  obtain ⟨b, rest, rfl, digit, numerals⟩ := isNumeral_of_isInteger isInteger
  have later : ∀ c ∈ rest ++ fraction ++ exponent, isDelimiter c = false := by
    intro c mem
    rw [mem_append, mem_append] at mem
    apply isDelimiter_of_isNumeral
    obtain (mem | mem) | mem := mem
    · exact numerals c mem
    · exact isNumeral_of_isFraction isFraction c mem
    · exact isNumeral_of_isExponent isExponent c mem
  obtain rfl | rfl := signed
  · exact ⟨b, rest ++ fraction ++ exponent, by simp, by simp [isAtomStart, digit], later⟩
  · refine ⟨45, b :: (rest ++ fraction ++ exponent), by simp, by decide, ?_⟩
    intro c mem
    rw [mem_cons] at mem
    obtain rfl | mem := mem
    · exact isDelimiter_of_isDigit digit
    · exact later c mem

theorem isWord_of_isAtom {raw : List UInt8} (atom : IsAtom raw) : IsWord raw := by
  obtain rfl | rfl | rfl | number := atom
  · exact ⟨116, [114, 117, 101], rfl, rfl,
      by simp [isDelimiter, isSpace, comma, closeBrace, closeBracket]⟩
  · exact ⟨102, [97, 108, 115, 101], rfl, rfl,
      by simp [isDelimiter, isSpace, comma, closeBrace, closeBracket]⟩
  · exact ⟨110, [117, 108, 108], rfl, rfl,
      by simp [isDelimiter, isSpace, comma, closeBrace, closeBracket]⟩
  · exact isWord_of_isNumber number

/-- What is not a delimiter, a brace, a quote, a comma or a colon. -/
theorem begin_of_isAtomStart (start : isAtomStart b = true) :
    isSpace b = false ∧ b ≠ openBrace ∧ b ≠ openBracket ∧ b ≠ closeBrace ∧ b ≠ closeBracket ∧
      b ≠ quote := by
  have not_digit : ∀ c : UInt8, isAtomStart c = false → b ≠ c := by
    rintro c other rfl
    rw [start] at other
    cases other
  refine ⟨?_, not_digit _ (by decide), not_digit _ (by decide), not_digit _ (by decide),
    not_digit _ (by decide), not_digit _ (by decide)⟩
  simp only [isSpace, Bool.or_eq_false_iff, beq_eq_false_iff_ne]
  exact ⟨⟨⟨not_digit _ (by decide), not_digit _ (by decide)⟩, not_digit _ (by decide)⟩,
    not_digit _ (by decide)⟩

/-! ## Tokens -/

namespace Machine

variable {m m' m₁ : Machine} {s s' : StringToken} {w : List UInt8} {b : UInt8}

/-- A value may come next. -/
def Ready (m : Machine) : Prop :=
  match m.stack with
  | [] => m.result = none
  | c :: _ => c.phase = .value ∨ c.phase = .valueOrEnd

variable [Serde]

/-- No string is under way, and the atom that is, if any, leads to this. -/
structure Settles (m : Machine) (outcome : Option Machine) : Prop where
  token : ∀ s, m.token ≠ some (.string s)
  finish : m.finishAtom = outcome

omit [Serde] in
theorem value_token {value : Json} (valued : m.value value = some m') : m'.token = m.token := by
  simp only [Machine.value] at valued
  split at valued
  · split at valued
    · split at valued <;> cases valued <;> rfl
    · cases valued
  · split at valued <;> cases valued
    rfl

omit [Serde] in
/-- Where a value may come, any value does. -/
theorem Ready.value (ready : m.Ready) (value : Json) : ∃ m', m.value value = some m' := by
  obtain ⟨stack, token, result⟩ := m
  cases stack with
  | nil =>
    have empty : result = none := ready
    simp [Machine.value, empty]
  | cons c rest =>
    have phase : c.phase = .value ∨ c.phase = .valueOrEnd := ready
    simp [Machine.value, phase]

theorem finishAtom_none (clear : m.token = none) : m.finishAtom = some m := by
  cases m
  simp only at clear
  subst clear
  rfl

theorem Settles.clear (clear : m.token = none) : m.Settles (some m) :=
  ⟨by simp [clear], finishAtom_none clear⟩

theorem Settles.token_none (settles : m.Settles (some m')) : m'.token = none := by
  have finish := settles.finish
  simp only [finishAtom] at finish
  split at finish
  · split at finish
    · split at finish
      · exact value_token finish
      · cases finish
    · rw [bind_eq_some_iff] at finish
      obtain ⟨_, -, valued⟩ := finish
      exact value_token valued
  · cases finish
    rfl

theorem Settles.byte (settles : m.Settles (some m')) (delimiter : isDelimiter b = true) :
    m.byte b = m'.punctuate b := by
  have token := settles.token
  have finish := settles.finish
  simp only [Machine.byte]
  split
  · rename_i s is_string
    exact absurd is_string (token s)
  · rw [if_pos delimiter, finish, bind_some]
  · rename_i clear
    rw [finishAtom_none clear] at finish
    cases finish
    rfl

omit [Serde] in
theorem punctuate_space (space : isSpace b = true) : m.punctuate b = some m := by
  simp [punctuate, space]

theorem byte_space (clear : m.token = none) (space : isSpace b = true) : m.byte b = some m := by
  simp [Machine.byte, clear, punctuate_space space]

theorem run_space (clear : m.token = none) (spaces : w.all isSpace = true) :
    m.run w = some m := by
  induction w with
  | nil => rfl
  | cons b rest ih =>
    rw [all_cons, Bool.and_eq_true] at spaces
    rw [run_cons, byte_space clear spaces.1, bind_some, ih spaces.2]

omit [Serde] in
theorem isDelimiter_of_isSpace (space : isSpace b = true) : isDelimiter b = true := by
  simp [isDelimiter, space]

/-- After space, or at once, a delimiter ends the atom that is under way. -/
theorem Settles.run (settles : m.Settles (some m')) (spaces : w.all isSpace = true)
    (delimiter : isDelimiter b = true) (rest : List UInt8) :
    m.run (w ++ b :: rest) = m'.run (b :: rest) := by
  have clear := settles.token_none
  have settled : m'.byte b = m'.punctuate b := by simp [Machine.byte, clear]
  cases w with
  | nil => rw [nil_append, run_cons, run_cons, settles.byte delimiter, settled]
  | cons c later =>
    rw [all_cons, Bool.and_eq_true] at spaces
    rw [cons_append, run_cons, settles.byte (isDelimiter_of_isSpace spaces.1),
      punctuate_space spaces.1, bind_some, run_append, run_space clear spaces.2,
      bind_some]

theorem Settles.space (settles : m.Settles (some m')) (spaces : w.all isSpace = true) :
    ∃ m₁, m.run w = some m₁ ∧ m₁.Settles (some m') := by
  have clear := settles.token_none
  cases w with
  | nil => exact ⟨m, rfl, settles⟩
  | cons c later =>
    rw [all_cons, Bool.and_eq_true] at spaces
    refine ⟨m', ?_, .clear clear⟩
    rw [run_cons, settles.byte (isDelimiter_of_isSpace spaces.1), punctuate_space spaces.1,
      bind_some, run_space clear spaces.2]

/-! ### Atoms -/

theorem run_word {raw rest : List UInt8} {node : Node} (token : m.token = some (.atom raw node))
    (word : ∀ c ∈ rest, isDelimiter c = false) (room : (raw ++ rest).length ≤ maxToken) :
    m.run rest = some { m with token := some (.atom (raw ++ rest) node) } := by
  induction rest generalizing m raw with
  | nil => simp [← token]
  | cons c rest ih =>
    have inside : isDelimiter c = false := word c mem_cons_self
    have enough : ¬ maxToken ≤ raw.length := by
      simp only [length_append, length_cons] at room
      omega
    have reads : m.byte c = some { m with token := some (.atom (raw ++ [c]) node) } := by
      simp [Machine.byte, token, inside, enough]
    rw [run_cons, reads, bind_some]
    rw [ih rfl (fun c mem => word c (mem_cons_of_mem _ mem))
      (by simpa using room)]
    simp

omit [Serde] in
theorem Ready.punctuate (ready : m.Ready) (space : isSpace b = false) (brace : b ≠ closeBrace)
    (bracket : b ≠ closeBracket) : m.punctuate b = m.begin b := by
  simp only [Ready] at ready
  simp only [Machine.punctuate, space, Bool.false_eq_true, if_false]
  split
  · rename_i c rest stack
    rw [stack] at ready
    obtain phase | phase := ready <;> simp [phase, brace, bracket]
  · rename_i stack
    rw [stack] at ready
    simp only at ready
    simp [ready]

theorem Ready.byte (ready : m.Ready) (clear : m.token = none) (space : isSpace b = false)
    (brace : b ≠ closeBrace) (bracket : b ≠ closeBracket) : m.byte b = m.begin b := by
  simp [Machine.byte, clear, ready.punctuate space brace bracket]

/-! ### Strings -/

theorem run_follow {body : List UInt8} (token : m.token = some (.string s))
    (follows : s.follow body = some s') :
    m.run body = some { m with token := some (.string s') } := by
  induction body generalizing m s with
  | nil => cases follows; simp [← token]
  | cons b rest ih =>
    simp only [StringToken.follow, foldlM_cons, bind_eq_bind,
      bind_eq_some_iff] at follows
    obtain ⟨next, reads, later⟩ := follows
    split at reads
    · rename_i next' goes
      cases reads
      have step : m.byte b = some { m with token := some (.string next) } := by
        simp [Machine.byte, token, stringByte, goes]
      rw [run_cons, step, bind_some, ih rfl later]
    · cases reads

theorem run_string {raw : List UInt8} (is_string : IsString raw) (token : m.token = some (.string s))
    (idle : s.Idle) (opened : s.raw = [quote])
    (room : s.capture = true → raw.length ≤ maxToken) :
    ∃ s' : StringToken, s'.key = s.key ∧ s'.capture = s.capture ∧
      (s.capture = true → s'.raw = raw) ∧
      m.run raw.tail = { m with token := none }.finishString s' := by
  obtain ⟨body, rfl, is_body⟩ := is_string
  have enough : s.Room (body.length + 1) := by
    intro captured
    have length := room captured
    simp only [length_cons, length_append, length_nil] at length
    rw [opened, length_singleton]
    omega
  obtain ⟨s₁, follows, idle₁⟩ := StringToken.follow_body is_body idle (enough.mono (by omega))
  obtain ⟨capture, key, kept⟩ := StringToken.follow_raw follows
  have ends := StringToken.byte_quote idle₁ (enough.follow follows)
  obtain ⟨capture', key', kept', -⟩ := StringToken.byte_raw ends
  refine ⟨s₁.push quote, key'.trans key, capture'.trans capture, fun captured => ?_, ?_⟩
  · rw [StringToken.push, if_pos (capture.trans captured)]
    simp [kept captured, opened]
  · rw [tail_cons, run_append, run_follow token follows, bind_some, run_cons]
    have closes : ({ m with token := some (.string s₁) } : Machine).byte quote =
        { m with token := none }.finishString (s₁.push quote) := by
      simp [Machine.byte, stringByte, ends]
    rw [closes]
    simp

/-! ### Containers -/

omit [Serde] in
theorem begin_open (shallow : m.stack.length < maxDepth) (opens : b = openBrace ∨ b = openBracket) :
    m.begin b = some { m with stack :=
      { object := b == openBrace
        phase := if b = openBrace then .keyOrEnd else .valueOrEnd
        node := m.node } :: m.stack } := by
  have deep : ¬ maxDepth ≤ m.stack.length := by omega
  simp [begin, opens, deep]

theorem byte_close {c : Container} {rest : List Container} (stack : m.stack = c :: rest)
    (clear : m.token = none)
    (ends : c.object = true ∧ c.phase = .keyOrEnd ∨ c.object = false ∧ c.phase = .valueOrEnd ∨
      c.phase = .commaOrEnd) :
    m.byte (if c.object then closeBrace else closeBracket) =
      { m with stack := rest }.value (if c.object then .object c.fields else .array []) := by
  have brace : isSpace closeBrace = false := by decide
  have bracket : isSpace closeBracket = false := by decide
  have brace' : closeBrace ≠ quote := by decide
  have comma₁ : closeBrace ≠ comma := by decide
  have comma₂ : closeBracket ≠ comma := by decide
  obtain ⟨object, phase⟩ | ⟨array, phase⟩ | phase := ends
  · simp [Machine.byte, clear, punctuate, stack, object, phase, close, brace, brace']
  · simp [Machine.byte, clear, punctuate, stack, array, phase, close, bracket]
  · cases kind : c.object
    · simp [Machine.byte, clear, punctuate, stack, kind, phase, close, bracket, comma₂]
    · simp [Machine.byte, clear, punctuate, stack, kind, phase, close, brace, comma₁]

theorem byte_comma {c : Container} {rest : List Container} (stack : m.stack = c :: rest)
    (clear : m.token = none) (phase : c.phase = .commaOrEnd) :
    m.byte comma =
      some { m with stack := { c with phase := if c.object then .key else .value } :: rest } := by
  have visible : isSpace comma = false := by decide
  simp [Machine.byte, clear, punctuate, stack, phase, visible]

/-! ## Documents -/

end Machine

/-- The strings in the bytes are valid. -/
def Clean (bytes : List UInt8) : Prop :=
  ∀ raw, IsString raw → raw <:+: bytes → Utf8 raw

theorem Clean.infix {bytes part : List UInt8} (clean : Clean bytes) (within : part <:+: bytes) :
    Clean part :=
  fun raw is_string inside => clean raw is_string (inside.trans within)

theorem Clean.middle {before part after : List UInt8} (clean : Clean (before ++ part ++ after)) :
    Clean part :=
  clean.infix ⟨before, after, rfl⟩

theorem clean_of_utf8 {bytes : List UInt8} (valid : Utf8 bytes) : Clean bytes := by
  rintro raw ⟨body, rfl, -⟩ ⟨before, after, rfl⟩
  exact valid.between (by decide) (by decide)

namespace Machine

variable [Serde] {m m' m₁ : Machine} {c : Container} {rest : List Container}
  {text : List UInt8 → String} {inRange : List UInt8 → Prop} {node : Node} {depth : Nat}

theorem run_atom (lawful : Lawful text inRange) (token : Atom) (ready : m.Ready)
    (clear : m.token = none) (within : Within text inRange m.node depth (.atom token)) :
    ∃ m', m.run token.val = some m' ∧
      m'.Settles (m.value (project text m.node (.atom token))) := by
  obtain ⟨raw, is_atom⟩ := token
  have is_word := isWord_of_isAtom is_atom
  obtain ⟨b, rest, rfl, start, word⟩ := isWord_of_isAtom is_atom
  simp only [Within] at within
  obtain ⟨room, range⟩ := within
  obtain ⟨space, brace, bracket, brace', bracket', other⟩ := begin_of_isAtomStart start
  have opens : m.byte b = some { m with token := some (.atom [b] m.node) } := by
    rw [ready.byte clear space brace' bracket']
    simp [begin, brace, bracket, other, start]
  have same : { m with token := none } = m := by rw [← clear]
  refine ⟨{ m with token := some (.atom (b :: rest) m.node) }, ?_, by simp, ?_⟩
  · rw [run_cons, opens, bind_some]
    rw [run_word rfl word (by simpa using room)]
    simp
  · by_cases skipped : m.node = .skip
    · have accepted := (lawful.ignored _ is_word).mpr is_atom
      simp [finishAtom, skipped, accepted, same, project]
    · have read := (lawful.scalar _ is_word _).mpr ⟨is_atom, range skipped, rfl⟩
      simp [finishAtom, skipped, read, same, project]

theorem run_quoted (lawful : Lawful text inRange) (token : Quoted) (ready : m.Ready)
    (clear : m.token = none) (within : Within text inRange m.node depth (.string token))
    (clean : Clean token.val) :
    m.run token.val = m.value (project text m.node (.string token)) := by
  obtain ⟨raw, is_string⟩ := token
  simp only [Within] at within
  have valid : Utf8 raw := clean raw is_string (infix_refl _)
  have read := lawful.string raw is_string
  rw [if_pos valid] at read
  let s : StringToken := { capture := m.node ≠ .skip, raw := [quote] }
  have opens : m.byte quote = some { m with token := some (.string s) } := by
    have brace : quote ≠ openBrace := by decide
    have bracket : quote ≠ openBracket := by decide
    rw [ready.byte clear (by decide) (by decide) (by decide)]
    simp [begin, brace, bracket, s]
  obtain ⟨s', key, capture, kept, ends⟩ :=
    run_string (m := { m with token := some (.string s) }) is_string rfl
      ⟨rfl, rfl, rfl, rfl⟩ rfl (by simpa [s] using within)
  have same : { m with token := none } = m := by rw [← clear]
  have head : raw = quote :: raw.tail := by
    obtain ⟨body, rfl, -⟩ := is_string
    rfl
  have result : m.run raw = m.finishString s' := by
    rw [head, run_cons, opens, bind_some, ends]
    exact congrArg (finishString · s') same
  rw [result]
  have other : s'.key = false := key
  by_cases skipped : m.node = .skip
  · have captured : s'.capture = false := by simp [capture, s, skipped]
    simp [finishString, other, captured, project, skipped]
  · have captured : s.capture = true := by simp [s, skipped]
    simp [finishString, other, capture.trans captured, kept captured, read, project, skipped]

theorem run_key (lawful : Lawful text inRange) (stack : m.stack = c :: rest)
    (clear : m.token = none) (phase : c.phase = .keyOrEnd ∨ c.phase = .key) (key : Quoted)
    (before after : Space) (clean : Clean key.val)
    (room : c.node ≠ .skip ∧ c.node ≠ .leaf → key.val.length ≤ maxToken) :
    m.run (key.val ++ before.val ++ colon :: after.val) = some { m with stack :=
      { c with key := keyText text c.node key.val, phase := .value } :: rest } := by
  obtain ⟨raw, is_string⟩ := key
  have valid : Utf8 raw := clean raw is_string (infix_refl _)
  have read := lawful.string raw is_string
  rw [if_pos valid] at read
  let s : StringToken :=
    { key := true, capture := c.node ≠ .skip ∧ c.node ≠ .leaf, raw := [quote] }
  have opens : m.byte quote = some { m with token := some (.string s) } := by
    have visible : isSpace quote = false := by decide
    obtain phase | phase := phase <;>
      simp [Machine.byte, clear, punctuate, stack, phase, visible, s]
  obtain ⟨s', is_key, capture, kept, ends⟩ :=
    run_string (m := { m with token := some (.string s) }) is_string rfl
      ⟨rfl, rfl, rfl, rfl⟩ rfl (by simpa [s] using room)
  have same : { m with token := none } = m := by rw [← clear]
  have head : raw = quote :: raw.tail := by
    obtain ⟨body, rfl, -⟩ := is_string
    rfl
  have result : m.run raw = m.finishString s' := by
    rw [head, run_cons, opens, bind_some, ends]
    exact congrArg (finishString · s') same
  let m₁ : Machine :=
    { m with stack := { c with key := keyText text c.node raw, phase := .colon } :: rest }
  let m₂ : Machine :=
    { m with stack := { c with key := keyText text c.node raw, phase := .value } :: rest }
  have named : m.finishString s' = some m₁ := by
    by_cases captured : s.capture = true
    · have wanted : c.node ≠ .skip ∧ c.node ≠ .leaf := by simpa [s] using captured
      simp [finishString, is_key, s, stack, capture.trans captured, kept captured, read, keyText,
        wanted, m₁]
    · have plain : s'.capture = false := by simpa [capture] using captured
      have skipped : ¬ (c.node ≠ .skip ∧ c.node ≠ .leaf) := by simpa [s] using captured
      simp [finishString, is_key, s, stack, plain, keyText, if_neg skipped, m₁]
  have separated : m₁.byte colon = some m₂ := by
    have visible : isSpace colon = false := by decide
    simp [Machine.byte, clear, punctuate, visible, m₁, m₂]
  have spaced₁ : m₁.run before.val = some m₁ := run_space clear before.property
  have spaced₂ : m₂.run after.val = some m₂ := run_space clear after.property
  rw [run_append, run_append, result, named, bind_some, spaced₁, bind_some, run_cons,
    separated, bind_some, spaced₂]

/-- The container with which a value at this point begins. -/
def opened (m : Machine) (object : Bool) : Machine :=
  { m with stack :=
    { object, phase := if object then .keyOrEnd else .valueOrEnd, node := m.node } :: m.stack }

theorem byte_open (ready : m.Ready) (clear : m.token = none)
    (shallow : m.stack.length < maxDepth) (object : Bool) :
    m.byte (if object then openBrace else openBracket) = some (m.opened object) := by
  cases object
  · have other : openBracket ≠ openBrace := by decide
    rw [if_neg (by decide), ready.byte clear (by decide) (by decide) (by decide),
      begin_open shallow (.inr rfl)]
    simp [opened, other]
  · rw [if_pos rfl, ready.byte clear (by decide) (by decide) (by decide),
      begin_open shallow (.inl rfl)]
    simp [opened]

theorem run_close {n : Machine} (ready : m.Ready) (clear : m.token = none) (stack : n.stack = c :: m.stack)
    (result : n.result = m.result) (clear₁ : n.token = none)
    (ends : c.object = true ∧ c.phase = .keyOrEnd ∨ c.object = false ∧ c.phase = .valueOrEnd ∨
      c.phase = .commaOrEnd) :
    ∃ m', n.run [if c.object then closeBrace else closeBracket] = some m' ∧
      m'.Settles (m.value (if c.object then .object c.fields else .array [])) := by
  have same : { n with stack := m.stack } = m := by
    cases m
    cases n
    simp_all
  obtain ⟨m', valued⟩ := ready.value (if c.object then .object c.fields else .array [])
  refine ⟨m', ?_, ?_⟩
  · rw [run_cons, byte_close stack clear₁ ends, same, valued]
    rfl
  · rw [valued]
    exact .clear ((value_token valued).trans clear)

mutual

theorem run_tree (lawful : Lawful text inRange) (tree : Tree) (m : Machine) (depth : Nat)
    (ready : m.Ready) (clear : m.token = none) (room : m.stack.length + depth ≤ maxDepth)
    (within : Within text inRange m.node depth tree) (clean : Clean tree.bytes) :
    ∃ m', m.run tree.bytes = some m' ∧ m'.Settles (m.value (project text m.node tree)) := by
  match tree with
  | .atom token => exact run_atom lawful token ready clear within
  | .string token =>
    obtain ⟨m', valued⟩ := ready.value (project text m.node (.string token))
    refine ⟨m', (run_quoted lawful token ready clear within clean).trans valued, ?_⟩
    rw [valued]
    exact .clear ((value_token valued).trans clear)
  | .emptyArray space =>
    simp only [Within] at within
    obtain ⟨m', ends, settles⟩ := run_close (n := m.opened false) ready clear rfl rfl clear
      (.inr (.inl ⟨rfl, rfl⟩))
    refine ⟨m', ?_, settles⟩
    have opens : m.byte openBracket = some (m.opened false) :=
      byte_open ready clear (by omega) false
    have spaced : (m.opened false).run space.val = some (m.opened false) :=
      run_space clear space.property
    rw [Tree.bytes, run_cons, opens, bind_some, run_append, spaced, bind_some]
    exact ends
  | .emptyObject space =>
    simp only [Within] at within
    obtain ⟨m', ends, settles⟩ := run_close (n := m.opened true) ready clear rfl rfl clear
      (.inl ⟨rfl, rfl⟩)
    refine ⟨m', ?_, settles⟩
    have opens : m.byte openBrace = some (m.opened true) :=
      byte_open ready clear (by omega) true
    have spaced : (m.opened true).run space.val = some (m.opened true) :=
      run_space clear space.property
    rw [Tree.bytes, run_cons, opens, bind_some, run_append, spaced, bind_some]
    exact ends
  | .array items space =>
    simp only [Within] at within
    have opens : m.byte openBracket = some (m.opened false) :=
      byte_open ready clear (by omega) false
    have inside : Clean items.bytes :=
      clean.infix ⟨[openBracket], space.val ++ [closeBracket], by simp [Tree.bytes]⟩
    have deeper : (m.opened false).stack.length + (depth - 1) ≤ maxDepth := by
      simp only [opened, length_cons]
      omega
    obtain ⟨m₁, reads, settles₁⟩ := run_items lawful items (m.opened false) _ m.stack (depth - 1)
      rfl rfl rfl clear deeper within.2 inside
    let c : Container := { object := false, phase := .commaOrEnd, node := m.node }
    obtain ⟨m', ends, settles⟩ := run_close (c := c) (n := { m with stack := c :: m.stack }) ready
      clear rfl rfl clear (.inr (.inr rfl))
    refine ⟨m', ?_, settles⟩
    rw [Tree.bytes, run_cons, opens, bind_some, append_assoc, run_append, reads,
      bind_some, settles₁.run space.property (by decide)]
    exact ends
  | .object members space =>
    simp only [Within] at within
    have opens : m.byte openBrace = some (m.opened true) :=
      byte_open ready clear (by omega) true
    have inside : Clean members.bytes :=
      clean.infix ⟨[openBrace], space.val ++ [closeBrace], by simp [Tree.bytes]⟩
    have deeper : (m.opened true).stack.length + (depth - 1) ≤ maxDepth := by
      simp only [opened, length_cons]
      omega
    obtain ⟨m₁, key, reads, settles₁⟩ := run_members lawful members (m.opened true) _ m.stack
      (depth - 1) rfl rfl rfl rfl clear deeper within.2 inside
    let c : Container :=
      { object := true, phase := .commaOrEnd, node := m.node, key
        fields := projectMembers text m.node members }
    obtain ⟨m', ends, settles⟩ := run_close (c := c) (n := { m with stack := c :: m.stack }) ready
      clear rfl rfl clear (.inr (.inr rfl))
    refine ⟨m', ?_, settles⟩
    rw [Tree.bytes, run_cons, opens, bind_some, append_assoc, run_append, reads,
      bind_some, settles₁.run space.property (by decide)]
    exact ends

theorem run_items (lawful : Lawful text inRange) (items : Items) (m : Machine) (c : Container)
    (rest : List Container) (depth : Nat) (stack : m.stack = c :: rest) (array : c.object = false)
    (phase : c.phase = .valueOrEnd) (clear : m.token = none)
    (room : m.stack.length + depth ≤ maxDepth) (within : ItemsWithin text inRange depth items)
    (clean : Clean items.bytes) :
    ∃ m', m.run items.bytes = some m' ∧
      m'.Settles (some { m with stack := { c with phase := .commaOrEnd } :: rest }) := by
  match items with
  | .one space item =>
    simp only [ItemsWithin] at within
    have ready : m.Ready := by simp [Ready, stack, phase]
    have node : m.node = .skip := by simp [Machine.node, stack, array]
    have inside : Clean item.bytes := clean.infix ⟨space.val, [], by simp [Items.bytes]⟩
    obtain ⟨m', reads, settles⟩ := run_tree lawful item m depth ready clear room
      (by rwa [node]) inside
    refine ⟨m', ?_, ?_⟩
    · rw [Items.bytes, run_append, run_space clear space.property, bind_some, reads]
    · convert settles using 1
      simp [Machine.value, stack, phase, array]
  | .more items before after item =>
    simp only [ItemsWithin] at within
    have first : Clean items.bytes :=
      clean.infix ⟨[], before.val ++ comma :: (after.val ++ item.bytes), by simp [Items.bytes]⟩
    have second : Clean item.bytes :=
      clean.infix ⟨items.bytes ++ before.val ++ comma :: after.val, [], by simp [Items.bytes]⟩
    obtain ⟨m₁, reads₁, settles₁⟩ := run_items lawful items m c rest depth stack array phase clear
      room within.1 first
    let m₂ : Machine := { m with stack := { c with phase := .value } :: rest }
    let m₃ : Machine := { m with stack := { c with phase := .commaOrEnd } :: rest }
    have comma₂ : m₃.byte comma = some m₂ := by
      have separates := byte_comma (m := m₃) rfl clear rfl
      simpa [array, m₂, m₃] using separates
    have node : m₂.node = .skip := by simp [Machine.node, array, m₂]
    have level : m₂.stack.length = m.stack.length := by simp [m₂, stack]
    obtain ⟨m', reads, settles⟩ := run_tree lawful item m₂ depth (.inl rfl) clear
      (by rwa [level]) (by rw [node]; exact within.2) second
    have spaced : m₂.run after.val = some m₂ := run_space clear after.property
    refine ⟨m', ?_, ?_⟩
    · rw [Items.bytes, append_assoc, run_append, reads₁, bind_some,
        settles₁.run before.property (by decide), run_cons, comma₂, bind_some, run_append,
        spaced, bind_some, reads]
    · convert settles using 1
      simp [Machine.value, array, m₂]

theorem run_members (lawful : Lawful text inRange) (members : Members) (m : Machine)
    (c : Container) (rest : List Container) (depth : Nat) (stack : m.stack = c :: rest)
    (object : c.object = true) (phase : c.phase = .keyOrEnd) (empty : c.fields = [])
    (clear : m.token = none) (room : m.stack.length + depth ≤ maxDepth)
    (within : MembersWithin text inRange c.node depth members) (clean : Clean members.bytes) :
    ∃ m' key, m.run members.bytes = some m' ∧ m'.Settles (some { m with stack :=
      { c with phase := .commaOrEnd, key, fields := projectMembers text c.node members } ::
        rest }) := by
  match members with
  -- The first member follows the brace: the key is read, then the value below its node.
  | .one space key before after item =>
    simp only [MembersWithin] at within
    have first : Clean key.val := clean.infix
      ⟨space.val, before.val ++ colon :: (after.val ++ item.bytes), by simp [Members.bytes]⟩
    have second : Clean item.bytes := clean.infix
      ⟨space.val ++ (key.val ++ before.val ++ colon :: after.val), [], by simp [Members.bytes]⟩
    let name := keyText text c.node key.val
    let m₂ : Machine := { m with stack := { c with key := name, phase := .value } :: rest }
    have named : m.run (key.val ++ before.val ++ colon :: after.val) = some m₂ :=
      run_key lawful stack clear (.inl phase) key before after first within.1
    have node : m₂.node = c.node.child name := by simp [Machine.node, m₂, object]
    have level : m₂.stack.length = m.stack.length := by simp [m₂, stack]
    obtain ⟨m', reads, settles⟩ := run_tree lawful item m₂ depth (.inl rfl) clear
      (by rwa [level]) (by rw [node, child_keyText]; exact within.2) second
    have whole : m.run (Members.one space key before after item).bytes = some m' := by
      have split : (Members.one space key before after item).bytes =
          space.val ++ (key.val ++ before.val ++ colon :: after.val) ++ item.bytes := by
        simp [Members.bytes]
      rw [split, run_append, run_append, run_space clear space.property, bind_some, named,
        bind_some, reads]
    rw [node] at settles
    by_cases skipped : c.node.child name = .skip
    · refine ⟨m', name, whole, ?_⟩
      simpa [Machine.value, m₂, skipped, projectMembers, name, empty] using settles
    · refine ⟨m', "", whole, ?_⟩
      simpa [Machine.value, m₂, object, skipped, projectMembers, name, empty] using settles
  -- The members before it leave the container at the comma.
  | .more members before after key left right item =>
    simp only [MembersWithin] at within
    have first : Clean members.bytes := clean.infix
      ⟨[], before.val ++
        comma :: (after.val ++ (key.val ++ left.val ++ colon :: (right.val ++ item.bytes))),
        by simp [Members.bytes]⟩
    have second : Clean key.val := clean.infix
      ⟨members.bytes ++ before.val ++ comma :: after.val,
        left.val ++ colon :: (right.val ++ item.bytes), by simp [Members.bytes]⟩
    have third : Clean item.bytes := clean.infix
      ⟨members.bytes ++ before.val ++
        comma :: (after.val ++ (key.val ++ left.val ++ colon :: right.val)), [],
        by simp [Members.bytes]⟩
    obtain ⟨m₁, key₁, reads₁, settles₁⟩ := run_members lawful members m c rest depth stack object
      phase empty clear room within.1 first
    let name := keyText text c.node key.val
    let c₁ : Container :=
      { c with phase := .commaOrEnd, key := key₁, fields := projectMembers text c.node members }
    let m₂ : Machine := { m with stack := c₁ :: rest }
    let m₃ : Machine := { m with stack := { c₁ with phase := .key } :: rest }
    have comma₂ : m₂.byte comma = some m₃ := by
      have separates := byte_comma (m := m₂) rfl clear rfl
      simpa [object, m₂, m₃, c₁] using separates
    let m₄ : Machine := { m with stack := { c₁ with key := name, phase := .value } :: rest }
    have named : m₃.run (key.val ++ left.val ++ colon :: right.val) = some m₄ :=
      run_key lawful (m := m₃) rfl clear (.inr rfl) key left right second within.2.1
    have node : m₄.node = c.node.child name := by simp [Machine.node, m₄, c₁, object]
    have level : m₄.stack.length = m.stack.length := by simp [m₄, stack]
    obtain ⟨m', reads, settles⟩ := run_tree lawful item m₄ depth (.inl rfl) clear
      (by rwa [level]) (by rw [node, child_keyText]; exact within.2.2) third
    have spaced : m₃.run after.val = some m₃ := run_space clear after.property
    have whole : m.run (Members.more members before after key left right item).bytes = some m' := by
      have split : (Members.more members before after key left right item).bytes =
          members.bytes ++ (before.val ++ comma ::
            (after.val ++ ((key.val ++ left.val ++ colon :: right.val) ++ item.bytes))) := by
        simp [Members.bytes]
      rw [split, run_append, reads₁, bind_some, settles₁.run before.property (by decide),
        run_cons, comma₂, bind_some, run_append, spaced, bind_some, run_append, named,
        bind_some, reads]
    rw [node] at settles
    by_cases skipped : c.node.child name = .skip
    · refine ⟨m', name, whole, ?_⟩
      simpa [Machine.value, m₄, c₁, skipped, projectMembers, name] using settles
    · refine ⟨m', "", whole, ?_⟩
      simpa [Machine.value, m₄, c₁, object, skipped, projectMembers, name] using settles

end

end Machine

namespace Projection

variable [Serde] {text : List UInt8 → String} {inRange : List UInt8 → Prop}

theorem verdict_of_document (lawful : Lawful text inRange) {bytes : List UInt8} {tree : Tree}
    (document : IsDocument bytes tree) (within : Within text inRange .root maxDepth tree)
    (valid : Utf8 bytes) : verdict bytes = some (project text .root tree) := by
  obtain ⟨before, after, rfl⟩ := document
  have clean : Clean tree.bytes := (clean_of_utf8 valid).middle
  let m : Machine := {}
  let done : Machine := { result := some (project text .root tree) }
  have valued : m.value (project text m.node tree) = some done := rfl
  obtain ⟨m₁, reads, settles⟩ := Machine.run_tree lawful tree m maxDepth
    (show m.Ready from rfl) rfl (show 0 + maxDepth ≤ maxDepth by simp) within clean
  rw [valued] at settles
  obtain ⟨m₂, last, settles₂⟩ := settles.space after.property
  have spaced : m.run before.val = some m := Machine.run_space rfl before.property
  have whole : m.run (before.val ++ tree.bytes ++ after.val) = some m₂ := by
    rw [Machine.run_append, Machine.run_append, spaced, bind_some, reads, bind_some,
      last]
  simp only [verdict, if_pos valid]
  rw [show Machine.run {} (before.val ++ tree.bytes ++ after.val) = some m₂ from whole,
    bind_some, Machine.ended, settles₂.finish]
  simp [done]

end Projection

end Agentix.Wire
