import Mathlib.Data.List.Basic
import Mathlib.Data.List.Induction

/-! # UTF-8

Bytes that encode characters, and the automaton that reads them from left to right: it can tell
bytes that lack their end from bytes that no continuation makes valid.
-/

namespace Agentix.Lib

open List Option

def Utf8 (bytes : List UInt8) : Prop :=
  ∃ chars : List Char, bytes = chars.flatMap String.utf8EncodeChar

/-- What the automaton expects: the first byte of a character, or one within bounds that is
followed by `more` continuation bytes. -/
inductive Expect where
  | lead
  | trail (low high more : Nat)
  deriving DecidableEq

namespace Expect

variable {expect next : Expect} {bytes : List UInt8} {high low : Nat} {byte : UInt8}

/-- The bounds after a first byte rule out what is too long for its character, the surrogates, and
what is past the last character. -/
def step : Expect → UInt8 → Option Expect
  | lead, byte =>
    let b := byte.toNat
    if b < 0x80 then some lead
    else if b < 0xC2 then none
    else if b < 0xE0 then some (trail 0x80 0xBF 0)
    else if b < 0xF0 then
      some (trail (if b = 0xE0 then 0xA0 else 0x80) (if b = 0xED then 0x9F else 0xBF) 1)
    else if b < 0xF5 then
      some (trail (if b = 0xF0 then 0x90 else 0x80) (if b = 0xF4 then 0x8F else 0xBF) 2)
    else none
  | trail low high more, byte =>
    let b := byte.toNat
    if low ≤ b ∧ b ≤ high then
      match more with
      | 0 => some lead
      | more + 1 => some (trail 0x80 0xBF more)
    else none

def run (expect : Expect) (bytes : List UInt8) : Option Expect :=
  bytes.foldlM step expect

@[simp] theorem run_nil (expect : Expect) : expect.run [] = some expect := rfl

@[simp] theorem run_cons (expect : Expect) (byte : UInt8) (bytes : List UInt8) :
    expect.run (byte :: bytes) = (expect.step byte).bind fun next => next.run bytes := rfl

theorem run_append (expect : Expect) (a b : List UInt8) :
    expect.run (a ++ b) = (expect.run a).bind fun next => next.run b := by
  simp [run, foldlM_append]

/-! ## Characters -/

theorem step_last (within : low ≤ byte.toNat ∧ byte.toNat ≤ high) :
    (trail low high 0).step byte = some lead := by
  simp [step, within]

theorem step_more {more : Nat} (within : low ≤ byte.toNat ∧ byte.toNat ≤ high) :
    (trail low high (more + 1)).step byte = some (trail 0x80 0xBF more) := by
  simp [step, within]

theorem toNat_ofNat_of_lt {n : Nat} (small : n < 256) : (UInt8.ofNat n).toNat = n := by
  simp [Nat.mod_eq_of_lt small]

theorem run_encoded (c : Char) : lead.run (String.utf8EncodeChar c) = some lead := by
  have valid : c.val.toNat < 0xD800 ∨ 0xDFFF < c.val.toNat ∧ c.val.toNat < 0x110000 := c.valid
  generalize same : c.val.toNat = v at valid
  simp only [String.utf8EncodeChar, same]
  by_cases one : v ≤ 0x7f
  · have first := toNat_ofNat_of_lt (n := v) (by omega)
    rw [if_pos one]
    simp only [run_cons, step, first, run_nil]
    rw [if_pos (by omega)]
    rfl
  rw [if_neg one]
  by_cases two : v ≤ 0x7ff
  · have first := toNat_ofNat_of_lt (n := v / 64 % 32 + 192) (by omega)
    have second := toNat_ofNat_of_lt (n := v % 64 + 128) (by omega)
    rw [if_pos two]
    simp only [run_cons, run_nil]
    rw [step, first]
    simp only [if_neg (show ¬ v / 64 % 32 + 192 < 0x80 by omega),
      if_neg (show ¬ v / 64 % 32 + 192 < 0xC2 by omega),
      if_pos (show v / 64 % 32 + 192 < 0xE0 by omega), bind_some]
    rw [step_last (by omega)]
    rfl
  rw [if_neg two]
  by_cases three : v ≤ 0xffff
  · have first := toNat_ofNat_of_lt (n := v / 4096 % 16 + 224) (by omega)
    have second := toNat_ofNat_of_lt (n := v / 64 % 64 + 128) (by omega)
    have third := toNat_ofNat_of_lt (n := v % 64 + 128) (by omega)
    rw [if_pos three]
    simp only [run_cons, run_nil]
    rw [step, first]
    simp only [if_neg (show ¬ v / 4096 % 16 + 224 < 0x80 by omega),
      if_neg (show ¬ v / 4096 % 16 + 224 < 0xC2 by omega),
      if_neg (show ¬ v / 4096 % 16 + 224 < 0xE0 by omega),
      if_pos (show v / 4096 % 16 + 224 < 0xF0 by omega), bind_some]
    rw [step_more (by constructor <;> split <;> omega), bind_some, step_last (by omega)]
    rfl
  · have first := toNat_ofNat_of_lt (n := v / 262144 % 8 + 240) (by omega)
    have second := toNat_ofNat_of_lt (n := v / 4096 % 64 + 128) (by omega)
    have third := toNat_ofNat_of_lt (n := v / 64 % 64 + 128) (by omega)
    have fourth := toNat_ofNat_of_lt (n := v % 64 + 128) (by omega)
    rw [if_neg three]
    simp only [run_cons, run_nil]
    rw [step, first]
    simp only [if_neg (show ¬ v / 262144 % 8 + 240 < 0x80 by omega),
      if_neg (show ¬ v / 262144 % 8 + 240 < 0xC2 by omega),
      if_neg (show ¬ v / 262144 % 8 + 240 < 0xE0 by omega),
      if_neg (show ¬ v / 262144 % 8 + 240 < 0xF0 by omega),
      if_pos (show v / 262144 % 8 + 240 < 0xF5 by omega), bind_some]
    rw [step_more (by constructor <;> split <;> omega), bind_some, step_more (by omega),
      bind_some, step_last (by omega)]
    rfl

theorem run_of_utf8 (valid : Utf8 bytes) : lead.run bytes = some lead := by
  obtain ⟨chars, rfl⟩ := valid
  induction chars with
  | nil => rfl
  | cons c chars ih =>
    rw [flatMap_cons, run_append, run_encoded]
    exact ih

theorem exists_char {v : Nat} (valid : v < 0xD800 ∨ 0xDFFF < v ∧ v < 0x110000) :
    ∃ c : Char, c.val.toNat = v := by
  have small : v < UInt32.size := by
    have : UInt32.size = 4294967296 := rfl
    omega
  have same : (UInt32.ofNat v).toNat = v := by simp [Nat.mod_eq_of_lt small]
  exact ⟨⟨UInt32.ofNat v, by unfold UInt32.isValidChar Nat.isValidChar; omega⟩, same⟩

/-! ## Bytes the automaton accepts -/

theorem trail_run {more : Nat} (accepts : (trail low high more).run bytes = some lead) :
    ∃ byte rest, bytes = byte :: rest ∧ low ≤ byte.toNat ∧ byte.toNat ≤ high ∧
      (match more with
        | 0 => lead
        | more + 1 => trail 0x80 0xBF more).run rest = some lead := by
  cases bytes with
  | nil => cases accepts
  | cons byte rest =>
    rw [run_cons] at accepts
    by_cases within : low ≤ byte.toNat ∧ byte.toNat ≤ high
    · refine ⟨byte, rest, rfl, within.1, within.2, ?_⟩
      cases more with
      | zero => rwa [step_last within] at accepts
      | succ more => rwa [step_more within] at accepts
    · simp [step, within] at accepts

theorem ofNat_eq_of_toNat {n : Nat} (byte : UInt8) (same : n = byte.toNat) :
    UInt8.ofNat n = byte := by
  rw [same, UInt8.ofNat_toNat]

theorem utf8_cons (c : Char) (encoded : List UInt8) {rest : List UInt8}
    (same : String.utf8EncodeChar c = encoded) (valid : Utf8 rest) : Utf8 (encoded ++ rest) := by
  obtain ⟨chars, rfl⟩ := valid
  exact ⟨c :: chars, by rw [flatMap_cons, same]⟩

/-- What the automaton accepts starts with the encoding of a character. -/
theorem utf8_of_run (accepts : lead.run bytes = some lead) : Utf8 bytes := by
  induction size : bytes.length using Nat.strongRecOn generalizing bytes with
  | _ n ih =>
  subst size
  cases bytes with
  | nil => exact ⟨[], rfl⟩
  | cons byte rest =>
    rw [run_cons] at accepts
    simp only [step] at accepts
    have bound := byte.toNat_lt
    split at accepts
    · -- one byte
      obtain ⟨c, value⟩ := exists_char (v := byte.toNat) (by omega)
      refine utf8_cons c [byte] ?_ (ih _ (by simp only [length_cons]; omega) accepts rfl)
      simp only [String.utf8EncodeChar, value]
      rw [if_pos (by omega), ofNat_eq_of_toNat byte rfl]
    split at accepts
    · cases accepts
    split at accepts
    · -- two bytes
      obtain ⟨second, rest, rfl, low, high, accepts⟩ := trail_run accepts
      obtain ⟨c, value⟩ := exists_char
        (v := (byte.toNat - 192) * 64 + (second.toNat - 128)) (by omega)
      refine utf8_cons c [byte, second] ?_ (ih _ (by simp only [length_cons]; omega) accepts rfl)
      simp only [String.utf8EncodeChar, value]
      rw [if_neg (by omega), if_pos (by omega), ofNat_eq_of_toNat byte (by omega),
        ofNat_eq_of_toNat second (by omega)]
    split at accepts
    · -- three bytes
      obtain ⟨second, rest, rfl, low, high, accepts⟩ := trail_run accepts
      obtain ⟨third, rest, rfl, low', high', accepts⟩ := trail_run accepts
      have first : byte.toNat = 0xE0 → 0xA0 ≤ second.toNat := fun same => by rwa [if_pos same] at low
      have surrogate : byte.toNat = 0xED → second.toNat ≤ 0x9F := fun same => by
        rwa [if_pos same] at high
      have wide : 0x80 ≤ second.toNat ∧ second.toNat ≤ 0xBF := by
        constructor
        · split at low <;> omega
        · split at high <;> omega
      obtain ⟨c, value⟩ := exists_char
        (v := (byte.toNat - 224) * 4096 + (second.toNat - 128) * 64 + (third.toNat - 128))
        (by omega)
      refine utf8_cons c [byte, second, third] ?_ (ih _ (by simp only [length_cons]; omega) accepts rfl)
      simp only [String.utf8EncodeChar, value]
      rw [if_neg (by omega), if_neg (by omega), if_pos (by omega), ofNat_eq_of_toNat byte (by omega),
        ofNat_eq_of_toNat second (by omega), ofNat_eq_of_toNat third (by omega)]
    split at accepts
    · -- four bytes
      obtain ⟨second, rest, rfl, low, high, accepts⟩ := trail_run accepts
      obtain ⟨third, rest, rfl, low', high', accepts⟩ := trail_run accepts
      obtain ⟨fourth, rest, rfl, low'', high'', accepts⟩ := trail_run accepts
      have first : byte.toNat = 0xF0 → 0x90 ≤ second.toNat := fun same => by rwa [if_pos same] at low
      have last : byte.toNat = 0xF4 → second.toNat ≤ 0x8F := fun same => by
        rwa [if_pos same] at high
      have wide : 0x80 ≤ second.toNat ∧ second.toNat ≤ 0xBF := by
        constructor
        · split at low <;> omega
        · split at high <;> omega
      obtain ⟨c, value⟩ := exists_char
        (v := (byte.toNat - 240) * 262144 + (second.toNat - 128) * 4096 +
          (third.toNat - 128) * 64 + (fourth.toNat - 128)) (by omega)
      refine utf8_cons c [byte, second, third, fourth] ?_
        (ih _ (by simp only [length_cons]; omega) accepts rfl)
      simp only [String.utf8EncodeChar, value]
      rw [if_neg (by omega), if_neg (by omega), if_neg (by omega), ofNat_eq_of_toNat byte (by omega),
        ofNat_eq_of_toNat second (by omega), ofNat_eq_of_toNat third (by omega),
        ofNat_eq_of_toNat fourth (by omega)]
    · cases accepts

theorem run_eq_lead_iff : lead.run bytes = some lead ↔ Utf8 bytes :=
  ⟨utf8_of_run, run_of_utf8⟩

/-! ## ASCII bytes -/

/-- Continuation bytes are not ASCII. -/
def Wide : Expect → Prop
  | lead => True
  | trail low _ _ => 0x80 ≤ low

theorem Wide.step (wide : expect.Wide) (steps : expect.step byte = some next) : next.Wide := by
  cases expect with
  | lead =>
    simp only [Expect.step] at steps
    split at steps
    · cases steps; trivial
    split at steps
    · cases steps
    split at steps
    · cases steps
      exact Nat.le_refl _
    split at steps
    · cases steps
      show 0x80 ≤ if byte.toNat = 0xE0 then 0xA0 else 0x80
      split <;> omega
    split at steps
    · cases steps
      show 0x80 ≤ if byte.toNat = 0xF0 then 0x90 else 0x80
      split <;> omega
    · cases steps
  | trail low high more =>
    simp only [Expect.step] at steps
    split at steps
    · cases more with
      | zero => cases steps; trivial
      | succ more => cases steps; exact Nat.le_refl _
    · cases steps

theorem Wide.run (wide : expect.Wide) (runs : expect.run bytes = some next) : next.Wide := by
  induction bytes generalizing expect with
  | nil => cases runs; exact wide
  | cons byte rest ih =>
    rw [run_cons, bind_eq_some_iff] at runs
    obtain ⟨middle, first, runs⟩ := runs
    exact ih (wide.step first) runs

theorem step_ascii (ascii : byte.toNat < 0x80) (wide : expect.Wide)
    (steps : expect.step byte = some next) :
    expect = lead ∧ next = lead := by
  cases expect with
  | lead =>
    simp only [step, if_pos ascii, some.injEq] at steps
    exact ⟨rfl, steps.symm⟩
  | trail low high more =>
    have above : 0x80 ≤ low := wide
    simp only [step] at steps
    rw [if_neg (by omega)] at steps
    cases steps

end Expect

instance (bytes : List UInt8) : Decidable (Utf8 bytes) :=
  decidable_of_iff _ Expect.run_eq_lead_iff

theorem utf8_ascii_append {ascii rest : List UInt8} (each : ∀ byte ∈ ascii, byte.toNat < 0x80) :
    Utf8 (ascii ++ rest) ↔ Utf8 rest := by
  induction ascii with
  | nil => rfl
  | cons byte ascii ih =>
    rw [forall_mem_cons] at each
    rw [← ih each.2, ← Expect.run_eq_lead_iff, ← Expect.run_eq_lead_iff,
      cons_append, Expect.run_cons, Expect.step, if_pos each.1, bind_some]

theorem Utf8.between {before middle after : List UInt8} {first last : UInt8}
    (valid : Utf8 (before ++ (first :: (middle ++ [last])) ++ after))
    (opens : first.toNat < 0x80) (closes : last.toNat < 0x80) :
    Utf8 (first :: (middle ++ [last])) := by
  have runs := Expect.run_of_utf8 valid
  simp only [Expect.run_append, Expect.run_cons, bind_eq_some_iff] at runs
  obtain ⟨ended, ⟨opened, start, ⟨inside, first', ⟨closing, middle', last'⟩⟩⟩, -⟩ := runs
  have wide : opened.Wide := Expect.Wide.run (show Expect.lead.Wide from trivial) start
  obtain ⟨rfl, rfl⟩ := Expect.step_ascii opens wide first'
  obtain ⟨final, last', -⟩ := last'
  obtain ⟨rfl, rfl⟩ := Expect.step_ascii closes
    (Expect.Wide.run (show Expect.lead.Wide from trivial) middle') last'
  apply Expect.utf8_of_run
  simp [Expect.run_append, first', middle', last']

/-! ## The end of a valid text -/

namespace Expect

variable {expect next : Expect}

/-- Continuation bytes start with the bits 10. -/
def Continues : Expect → Prop
  | lead => True
  | trail low high _ => 0x80 ≤ low ∧ high < 0xC0

theorem Continues.step {byte : UInt8} (continues : expect.Continues)
    (steps : expect.step byte = some next) : next.Continues := by
  cases expect with
  | lead =>
    simp only [Expect.step] at steps
    split at steps
    · cases steps; trivial
    split at steps
    · cases steps
    split at steps
    · cases steps
      exact ⟨Nat.le_refl _, by omega⟩
    split at steps
    · cases steps
      show 0x80 ≤ (if byte.toNat = 0xE0 then 0xA0 else 0x80) ∧
        (if byte.toNat = 0xED then 0x9F else 0xBF) < 0xC0
      constructor <;> split <;> omega
    split at steps
    · cases steps
      show 0x80 ≤ (if byte.toNat = 0xF0 then 0x90 else 0x80) ∧
        (if byte.toNat = 0xF4 then 0x8F else 0xBF) < 0xC0
      constructor <;> split <;> omega
    · cases steps
  | trail low high more =>
    simp only [Expect.step] at steps
    split at steps
    · cases more with
      | zero => cases steps; trivial
      | succ more => cases steps; exact ⟨Nat.le_refl _, by omega⟩
    · cases steps

theorem Continues.run {bytes : List UInt8} (continues : expect.Continues)
    (runs : expect.run bytes = some next) : next.Continues := by
  induction bytes generalizing expect with
  | nil => cases runs; exact continues
  | cons byte rest ih =>
    rw [run_cons, bind_eq_some_iff] at runs
    obtain ⟨middle, first, runs⟩ := runs
    exact ih (continues.step first) runs

theorem step_starts {next' : Expect} {byte : UInt8} (continues : expect.Continues)
    (starts : lead.step byte = some next') (steps : expect.step byte = some next) :
    expect = lead := by
  cases expect with
  | lead => rfl
  | trail low high more =>
    obtain ⟨above, below⟩ : 0x80 ≤ low ∧ high < 0xC0 := continues
    simp only [step] at steps
    split at steps
    · simp only [step] at starts
      rw [if_neg (by omega), if_pos (by omega)] at starts
      cases starts
    · cases steps

end Expect

theorem Utf8.rest {start rest : List UInt8} (valid : Utf8 (start ++ rest)) (first : Utf8 start) :
    Utf8 rest := by
  have runs := Expect.run_of_utf8 valid
  rw [Expect.run_append, Expect.run_of_utf8 first] at runs
  exact Expect.utf8_of_run runs

theorem Utf8.ending {before ending other : List UInt8} (valid : Utf8 (before ++ ending))
    (starts : Utf8 other) (same : ending.head? = other.head?) : Utf8 ending := by
  cases ending with
  | nil => exact ⟨[], rfl⟩
  | cons byte rest =>
    cases other with
    | nil => cases same
    | cons byte' rest' =>
      obtain rfl : byte = byte' := by simpa using same
      have runs := Expect.run_of_utf8 valid
      have other := Expect.run_of_utf8 starts
      rw [Expect.run_append, bind_eq_some_iff] at runs
      obtain ⟨expect, before, runs⟩ := runs
      have continues : expect.Continues :=
        Expect.Continues.run (show Expect.lead.Continues from trivial) before
      rw [Expect.run_cons, bind_eq_some_iff] at other
      obtain ⟨next', first', -⟩ := other
      have first := runs
      rw [Expect.run_cons, bind_eq_some_iff] at first
      obtain ⟨next, first, -⟩ := first
      rw [Expect.step_starts continues first' first] at runs
      exact Expect.utf8_of_run runs

theorem encode_injective {chars others : List Char}
    (same : chars.flatMap String.utf8EncodeChar = others.flatMap String.utf8EncodeChar) :
    chars = others := by
  have encoded : chars.utf8Encode = others.utf8Encode := by
    simp only [utf8Encode, same]
  have strings : String.ofList chars = String.ofList others := by
    apply String.toByteArray_inj.mp
    rw [String.toByteArray_ofList, String.toByteArray_ofList, encoded]
  have lists := congrArg String.toList strings
  rwa [String.toList_ofList, String.toList_ofList] at lists

/-! ## Bytes that may be invalid -/

namespace Expect

/-- What a first byte has of the code point. -/
def leadValue (byte : UInt8) : Nat :=
  let b := byte.toNat
  if b < 0x80 then b else if b < 0xE0 then b - 0xC0 else if b < 0xF0 then b - 0xE0 else b - 0xF0

/-- A first byte: the code points that are complete, and what comes next. -/
def begin (byte : UInt8) : List Nat × Expect × Nat :=
  match lead.step byte with
  | some lead => ([byte.toNat], lead, 0)
  | some next => ([], next, leadValue byte)
  | none => ([0xFFFD], lead, 0)

/-- A byte behind the value of a code point.  One that does not continue it begins another. -/
def feed (expect : Expect) (value : Nat) (byte : UInt8) : List Nat × Expect × Nat :=
  match expect with
  | lead => begin byte
  | trail low high more =>
    match (trail low high more).step byte with
    | some lead => ([value * 64 + (byte.toNat - 0x80)], lead, 0)
    | some next => ([], next, value * 64 + (byte.toNat - 0x80))
    | none => (0xFFFD :: (begin byte).1, (begin byte).2)

/-- The code points of some bytes, with U+FFFD for what encodes none. -/
def decode : Expect → Nat → List UInt8 → List Nat
  | lead, _, [] => []
  | trail _ _ _, _, [] => [0xFFFD]
  | expect, value, byte :: rest =>
    (feed expect value byte).1 ++ decode (feed expect value byte).2.1 (feed expect value byte).2.2 rest

theorem begin_wide (byte : UInt8) : (begin byte).2.1.Wide := by
  rw [begin]
  split
  · trivial
  · rename_i next steps
    exact Wide.step (show Expect.lead.Wide from trivial) steps
  · trivial

theorem feed_wide {expect : Expect} {value : Nat} {byte : UInt8} (wide : expect.Wide) :
    (feed expect value byte).2.1.Wide := by
  cases expect with
  | lead => exact begin_wide byte
  | trail low high more =>
    simp only [feed]
    split
    · trivial
    · rename_i next steps
      exact wide.step steps
    · exact begin_wide byte

theorem decode_append {expect : Expect} {value : Nat} {a b : List UInt8} (wide : expect.Wide) :
    decode expect value (a ++ 10 :: b) = decode expect value a ++ 10 :: decode lead 0 b := by
  induction a generalizing expect value with
  | nil =>
    cases expect with
    | lead => rfl
    | trail low high more =>
      have above : 0x80 ≤ low := wide
      have refused : (trail low high more).step 10 = none := by
        simp only [step]
        exact if_neg (by have : (10 : UInt8).toNat = 10 := rfl; omega)
      simp only [nil_append, decode, feed, refused]
      rfl
  | cons byte a ih =>
    have both : ∀ rest, decode expect value (byte :: rest) = (feed expect value byte).1 ++
        decode (feed expect value byte).2.1 (feed expect value byte).2.2 rest := by
      intro rest
      cases expect <;> rfl
    rw [cons_append, both, both, ih (feed_wide wide), append_assoc]

end Expect

/-! ## `std::str::from_utf8` -/

variable {bytes : List UInt8} {state : Scan}

/-- The outcome of a validation: malformed bytes have an error length, an incomplete end has none. -/
inductive Utf8Result where
  | ok
  | incomplete (validUpTo : Nat)
  | malformed
  deriving DecidableEq

/-- The automaton with the bytes of the character it is in. -/
structure Scan where
  expect : Expect := .lead
  tail : List UInt8 := []

def Scan.step (scan : Scan) (byte : UInt8) : Option Scan :=
  (scan.expect.step byte).map fun next =>
    { expect := next, tail := if next = .lead then [] else scan.tail ++ [byte] }

def scan (bytes : List UInt8) : Option Scan :=
  bytes.foldlM Scan.step {}

def fromUtf8 (bytes : List UInt8) : Utf8Result :=
  match scan bytes with
  | none => .malformed
  | some ⟨.lead, _⟩ => .ok
  | some ⟨_, tail⟩ => .incomplete (bytes.length - tail.length)

theorem Scan.foldlM_expect (bytes : List UInt8) (start : Scan) :
    (bytes.foldlM Scan.step start).map Scan.expect = start.expect.run bytes := by
  induction bytes generalizing start with
  | nil => rfl
  | cons byte rest ih =>
    rw [foldlM_cons, Expect.run_cons]
    cases steps : start.expect.step byte with
    | none => simp [Scan.step, steps]
    | some next => simpa [Scan.step, steps] using ih _

theorem scan_tail (scans : scan bytes = some state) :
    ∃ whole, bytes = whole ++ state.tail ∧ Expect.lead.run whole = some .lead ∧
      Expect.lead.run state.tail = some state.expect ∧ (state.expect = .lead ↔ state.tail = []) := by
  induction bytes using reverseRecOn generalizing state with
  | nil =>
    cases scans
    exact ⟨[], rfl, rfl, rfl, by simp⟩
  | append_singleton bytes byte ih =>
    rw [scan, foldlM_append, bind_eq_bind, bind_eq_some_iff] at scans
    obtain ⟨middle, before, last⟩ := scans
    obtain ⟨whole, split, boundary, inside, -⟩ := ih before
    simp only [foldlM_cons, foldlM_nil, Scan.step, bind_eq_bind,
      Option.pure_def, bind_eq_some_iff, map_eq_some_iff,
      some.injEq] at last
    obtain ⟨_, ⟨next, steps, rfl⟩, rfl⟩ := last
    have runs : Expect.lead.run (middle.tail ++ [byte]) = some next := by
      simp [Expect.run_append, inside, steps]
    by_cases done : next = .lead
    · refine ⟨whole ++ (middle.tail ++ [byte]), by simp [done, split], ?_, by simp [done], ?_⟩
      · simp [Expect.run_append, boundary, inside, steps, done]
      · simp [done]
    · exact ⟨whole, by simp [done, split], boundary, by simpa [done] using runs, by simp [done]⟩

theorem scan_append (a b : List UInt8) :
    scan (a ++ b) = (scan a).bind fun state => b.foldlM Scan.step state := by
  simp [scan, foldlM_append]

theorem scan_snoc (scans : scan bytes = some state) (byte : UInt8) :
    scan (bytes ++ [byte]) = state.step byte := by
  rw [scan_append, scans]
  simp

theorem scan_of_tail (scans : scan bytes = some state) :
    scan state.tail = some state := by
  induction bytes using reverseRecOn generalizing state with
  | nil => cases scans; rfl
  | append_singleton bytes byte ih =>
    rw [scan_append, bind_eq_some_iff] at scans
    obtain ⟨middle, before, last⟩ := scans
    have inside := ih before
    have steps : middle.step byte = some state := by simpa using last
    have unfolded := steps
    simp only [Scan.step, map_eq_some_iff] at unfolded
    obtain ⟨next, -, rfl⟩ := unfolded
    by_cases done : next = .lead
    · simp [done, scan]
    · simp only [done, if_false] at steps ⊢
      rw [scan_snoc inside, steps]

theorem scan_append_tail {a : List UInt8} (scans : scan a = some state) (b : List UInt8) :
    scan (a ++ b) = scan (state.tail ++ b) := by
  rw [scan_append, scans, scan_append, scan_of_tail scans]

/-- How many bytes an unfinished character can still take. -/
def Expect.room : Expect → Nat
  | .lead => 4
  | .trail _ _ more => more + 1

theorem Expect.step_room {expect : Expect} {byte : UInt8} {low high more : Nat}
    (steps : expect.step byte = some (.trail low high more)) : more + 2 ≤ expect.room := by
  cases expect with
  | lead =>
    simp only [Expect.step] at steps
    split at steps
    · cases steps
    split at steps
    · cases steps
    split at steps
    · cases steps; simp [room]
    split at steps
    · cases steps; simp [room]
    split at steps <;> cases steps
    simp [room]
  | trail low high more =>
    simp only [Expect.step] at steps
    split at steps
    · cases more with
      | zero => cases steps
      | succ more => cases steps; simp [room]
    · cases steps

theorem scan_tail_short (scans : scan bytes = some state) :
    state.tail.length + state.expect.room ≤ 4 := by
  induction bytes using reverseRecOn generalizing state with
  | nil => cases scans; simp [Expect.room]
  | append_singleton bytes byte ih =>
    rw [scan_append, bind_eq_some_iff] at scans
    obtain ⟨middle, before, last⟩ := scans
    have short := ih before
    have steps : middle.step byte = some state := by simpa using last
    simp only [Scan.step, map_eq_some_iff] at steps
    obtain ⟨next, steps, rfl⟩ := steps
    cases next with
    | lead => simp [Expect.room]
    | trail low high more =>
      have room := Expect.step_room steps
      simp only [reduceCtorEq, if_false, length_append, length_singleton, Expect.room]
      omega

theorem fromUtf8_ok : fromUtf8 bytes = .ok ↔ Utf8 bytes := by
  have same := Scan.foldlM_expect bytes {}
  rw [← Expect.run_eq_lead_iff, ← same]
  simp only [fromUtf8, scan]
  cases bytes.foldlM Scan.step {} with
  | none => simp
  | some state =>
    obtain ⟨expect, tail⟩ := state
    cases expect <;> simp

theorem fromUtf8_tail (bytes : List UInt8) :
    (match fromUtf8 bytes with
      | .ok => some []
      | .malformed => none
      | .incomplete validUpTo => some (bytes.drop validUpTo)) =
      (scan bytes).map Scan.tail := by
  cases scans : scan bytes with
  | none => simp [fromUtf8, scans]
  | some state =>
    obtain ⟨whole, split, -, -, done⟩ := scan_tail scans
    obtain ⟨expect, tail⟩ := state
    cases expect with
    | lead =>
      have empty : tail = [] := done.mp rfl
      simp [fromUtf8, scans, empty]
    | trail low high more =>
      have place : bytes.length - tail.length = whole.length := by
        rw [split, length_append]
        show whole.length + tail.length - tail.length = whole.length
        omega
      simp only [fromUtf8, scans, place, map_some]
      rw [split, drop_left]

end Agentix.Lib
