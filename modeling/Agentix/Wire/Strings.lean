import Agentix.Wire.Chunks
import Mathlib.Algebra.Group.Nat.Defs

/-! # Strings

The automaton of a string token accepts the bodies of JSON strings, and nothing else.
-/

namespace Agentix.Wire

open Lib List Option

/-! ## Hexadecimal digits -/

theorem hexDigit_lt {b : UInt8} {value : Nat} (digit : hexDigit b = some value) : value < 16 := by
  simp only [hexDigit] at digit
  split at digit
  · cases digit; omega
  split at digit
  · cases digit; omega
  split at digit <;> cases digit
  omega

theorem hexValue_snoc (digits : List UInt8) (b : UInt8) :
    hexValue (digits ++ [b]) =
      (hexValue digits).bind fun n => (hexDigit b).map fun digit => n * 16 + digit := by
  simp [hexValue, foldlM_append]

theorem hexValue_lt {digits : List UInt8} {code : Nat} (value : hexValue digits = some code) :
    code < 16 ^ digits.length := by
  induction digits using reverseRecOn generalizing code with
  | nil => cases value; simp
  | append_singleton digits b ih =>
    rw [hexValue_snoc, bind_eq_some_iff] at value
    obtain ⟨n, before, last⟩ := value
    rw [map_eq_some_iff] at last
    obtain ⟨digit, known, rfl⟩ := last
    have small := hexDigit_lt known
    have bound := ih before
    rw [length_append, length_singleton, Nat.pow_succ]
    omega

namespace StringToken

variable {s s' : StringToken} {b : UInt8} {w : List UInt8}

/-! ## What a token has read -/

variable {done : Bool} {digits : List UInt8} {code count value : Nat}

/-- The bytes since the last character that is complete. -/
inductive Partial : StringToken → List UInt8 → Prop
  | idle {s : StringToken} (escape : s.escape = false) (digits : s.digits = 0)
      (high : s.high = false) (low : s.lowEscape = 0) : Partial s []
  | escape {s : StringToken} (escape : s.escape = true) (digits : s.digits = 0)
      (high : s.high = false) (low : s.lowEscape = 0) : Partial s [backslash]
  | digits {s : StringToken} {read : List UInt8} (escape : s.escape = false)
      (some_ : 0 < s.digits) (high : s.high = false) (low : s.lowEscape = 0)
      (left : read.length + s.digits = 4) (code : hexValue read = some s.code) :
      Partial s (unicodeEscape ++ read)
  | high {s : StringToken} {read : List UInt8} {code : Nat} (escape : s.escape = false)
      (digits : s.digits = 0) (high : s.high = true) (low : s.lowEscape = 2)
      (four : read.length = 4) (value : hexValue read = some code)
      (first : IsHighSurrogate code) : Partial s (unicodeEscape ++ read)
  | again {s : StringToken} {read : List UInt8} {code : Nat} (escape : s.escape = false)
      (digits : s.digits = 0) (high : s.high = true) (low : s.lowEscape = 1)
      (four : read.length = 4) (value : hexValue read = some code)
      (first : IsHighSurrogate code) : Partial s (unicodeEscape ++ read ++ [backslash])
  | low {s : StringToken} {first read : List UInt8} {code : Nat} (escape : s.escape = false)
      (some_ : 0 < s.digits) (high : s.high = true) (low : s.lowEscape = 0)
      (four : first.length = 4) (value : hexValue first = some code)
      (surrogate : IsHighSurrogate code) (left : read.length + s.digits = 4)
      (code : hexValue read = some s.code) :
      Partial s (unicodeEscape ++ first ++ (unicodeEscape ++ read))

/-- The token has read these bytes after the opening quote. -/
def Reading (s : StringToken) (w : List UInt8) : Prop :=
  ∃ body part, w = body ++ part ∧ IsBody body ∧ Partial s part

/-- Nothing is escaped. -/
structure Idle (s : StringToken) : Prop where
  escape : s.escape = false
  digits : s.digits = 0
  high : s.high = false
  low : s.lowEscape = 0

theorem Idle.reading (idle : Idle s) : Reading s [] :=
  ⟨[], [], rfl, .nil, .idle idle.escape idle.digits idle.high idle.low⟩

@[simp] theorem push_escape (s : StringToken) (b : UInt8) : (s.push b).escape = s.escape := by
  simp only [push]; split <;> rfl

@[simp] theorem push_digits (s : StringToken) (b : UInt8) : (s.push b).digits = s.digits := by
  simp only [push]; split <;> rfl

@[simp] theorem push_code (s : StringToken) (b : UInt8) : (s.push b).code = s.code := by
  simp only [push]; split <;> rfl

@[simp] theorem push_high (s : StringToken) (b : UInt8) : (s.push b).high = s.high := by
  simp only [push]; split <;> rfl

@[simp] theorem push_lowEscape (s : StringToken) (b : UInt8) :
    (s.push b).lowEscape = s.lowEscape := by
  simp only [push]; split <;> rfl

theorem code_snoc {read : List UInt8} (short : read.length < 4) (known : hexValue read = some code)
    (digit : hexDigit b = some value) :
    (code * 16 + value) % 65536 = code * 16 + value ∧
      hexValue (read ++ [b]) = some (code * 16 + value) := by
  have longer : hexValue (read ++ [b]) = some (code * 16 + value) := by
    rw [hexValue_snoc, known, digit]
    rfl
  have bound := hexValue_lt longer
  rw [length_append, length_singleton] at bound
  have most : (16 : Nat) ^ (read.length + 1) ≤ 16 ^ 4 := Nat.pow_le_pow_right (by omega) (by omega)
  exact ⟨Nat.mod_eq_of_lt (by omega), longer⟩

theorem Reading.byte (reading : Reading s w) (reads : s.byte b = some (done, s')) :
    if done then b = quote ∧ IsBody w ∧ s' = s.push b else Reading s' (w ++ [b]) := by
  obtain ⟨body, part, rfl, complete, progress⟩ := reading
  simp only [StringToken.byte] at reads
  split at reads
  · cases reads
  cases progress with
  -- Outside an escape: the quote ends the string, a backslash opens an escape.
  | idle escape digits high low =>
    simp only [push_digits, digits, push_lowEscape, low, push_escape, escape, Nat.lt_irrefl,
      if_false, Bool.false_eq_true] at reads
    simp only [append_nil]
    split at reads
    · rename_i ends
      cases reads
      exact ⟨ends, complete, rfl⟩
    rename_i inside
    split at reads
    · rename_i escapes
      cases reads
      subst escapes
      exact ⟨body, [backslash], rfl, complete, .escape rfl (by simp) (by simpa) (by simp)⟩
    rename_i plain
    split at reads
    · cases reads
    · rename_i visible
      cases reads
      refine ⟨body ++ [b], [], by simp, .plain complete ?_ (by omega), .idle ?_ ?_ ?_ ?_⟩
      · simp [isPlain, inside, plain]
      all_goals simpa
  -- After a backslash: a u opens four digits, a short escape is complete at once.
  | escape escape digits high low =>
    simp only [push_digits, digits, push_lowEscape, low, push_escape, escape, Nat.lt_irrefl,
      if_false, if_true] at reads
    split at reads
    · rename_i unicode
      cases reads
      subst unicode
      exact ⟨body, unicodeEscape ++ [], by simp [unicodeEscape], complete,
        .digits rfl (Nat.succ_pos _) (by simpa) (by simp) rfl rfl⟩
    split at reads
    · rename_i short
      cases reads
      exact ⟨body ++ [backslash, b], [], by simp, .short complete short,
        .idle rfl (by simp) (by simpa) (by simp)⟩
    · cases reads
  -- The fourth digit decides: a high surrogate waits for its partner, a lone low one fails,
  -- any other code is a character.
  | @digits read escape some_ high low left code =>
    simp only [push_digits, if_pos some_] at reads
    split at reads
    · cases reads
    rename_i value digit
    rw [map_eq_some_iff] at reads
    obtain ⟨next, reads, same⟩ := reads
    cases same
    obtain ⟨fits, longer⟩ := code_snoc (by omega) code digit
    simp only [StringToken.digit, push_code, push_digits, push_high, high, fits] at reads
    split at reads
    · rename_i last
      simp only [Bool.false_eq_true, if_false] at reads
      have four : (read ++ [b]).length = 4 := by simp; omega
      split at reads
      · rename_i surrogate
        cases reads
        exact ⟨body, unicodeEscape ++ (read ++ [b]), by simp, complete,
          .high (by simpa) last rfl rfl four longer surrogate⟩
      rename_i notHigh
      split at reads
      · cases reads
      · rename_i notLow
        cases reads
        exact ⟨body ++ (unicodeEscape ++ (read ++ [b])), [], by simp,
          .unicode complete four longer ⟨notHigh, notLow⟩, .idle (by simpa) last (by simp) (by simpa)⟩
    · rename_i more
      cases reads
      refine ⟨body, unicodeEscape ++ (read ++ [b]), by simp, complete,
        .digits (by simpa) (Nat.pos_of_ne_zero more) (by simp) (by simpa) ?_ longer⟩
      simp
      omega
  | @high read code escape digits high low four value first =>
    simp only [push_digits, digits, push_lowEscape, low, Nat.lt_irrefl, if_false,
      Nat.zero_lt_succ, if_true] at reads
    split at reads
    · cases reads
    rename_i same
    simp only [ne_eq, not_not] at same
    cases reads
    subst same
    exact ⟨body, unicodeEscape ++ read ++ [backslash], by simp, complete,
      .again (by simpa) (by simp) (by simpa) rfl four value first⟩
  | @again read code escape digits high low four value first =>
    simp only [push_digits, digits, push_lowEscape, low, Nat.lt_irrefl, if_false,
      Nat.zero_lt_succ, if_true] at reads
    have same : b = 117 := by
      by_contra ne
      simp [ne] at reads
    subst same
    cases reads
    exact ⟨body, unicodeEscape ++ read ++ (unicodeEscape ++ []), by simp [unicodeEscape], complete,
      .low (by simpa) (Nat.succ_pos _) (by simpa) rfl four value first rfl rfl⟩
  | @low first read code escape some_ high low four value surrogate left code' =>
    simp only [push_digits, if_pos some_] at reads
    split at reads
    · cases reads
    rename_i digitValue digit
    rw [map_eq_some_iff] at reads
    obtain ⟨next, reads, same⟩ := reads
    cases same
    obtain ⟨fits, longer⟩ := code_snoc (by omega) code' digit
    simp only [StringToken.digit, push_code, push_digits, push_high, high, fits] at reads
    split at reads
    · rename_i last
      simp only [if_true] at reads
      have four' : (read ++ [b]).length = 4 := by simp; omega
      split at reads
      · rename_i second
        cases reads
        exact ⟨body ++ (unicodeEscape ++ first ++ (unicodeEscape ++ (read ++ [b]))), [], by simp,
          .pair complete four value surrogate four' longer second,
          .idle (by simpa) last rfl (by simpa)⟩
      · cases reads
    · rename_i more
      cases reads
      refine ⟨body, unicodeEscape ++ first ++ (unicodeEscape ++ (read ++ [b])), by simp, complete,
        .low (by simpa) (Nat.pos_of_ne_zero more) (by simp) (by simpa) four value surrogate ?_ longer⟩
      simp
      omega

/-! ## The bytes that are kept -/

theorem byte_raw (reads : s.byte b = some (done, s')) :
    s'.capture = s.capture ∧ s'.key = s.key ∧ s'.raw = (s.push b).raw ∧
      ¬ (s.capture ∧ s.raw.length = maxToken) := by
  have capture : (s.push b).capture = s.capture := by simp only [push]; split <;> rfl
  have key : (s.push b).key = s.key := by simp only [push]; split <;> rfl
  simp only [StringToken.byte] at reads
  split at reads
  · cases reads
  rename_i room
  refine (?_ : s'.capture = s.capture ∧ s'.key = s.key ∧ s'.raw = (s.push b).raw).elim
    fun one two => ⟨one, two.1, two.2, room⟩
  split at reads
  · split at reads
    · cases reads
    · rw [map_eq_some_iff] at reads
      obtain ⟨next, digit, same⟩ := reads
      cases same
      simp only [StringToken.digit] at digit
      split at digit
      · split at digit
        · split at digit <;> cases digit
          exact ⟨capture, key, rfl⟩
        split at digit
        · cases digit; exact ⟨capture, key, rfl⟩
        split at digit <;> cases digit
        exact ⟨capture, key, rfl⟩
      · cases digit; exact ⟨capture, key, rfl⟩
  split at reads
  · by_cases other : b ≠ if (s.push b).lowEscape = 2 then backslash else 117
    · rw [if_pos other] at reads
      cases reads
    · rw [if_neg other] at reads
      split at reads <;> cases reads <;> exact ⟨capture, key, rfl⟩
  split at reads
  · split at reads
    · cases reads; exact ⟨capture, key, rfl⟩
    split at reads <;> cases reads
    exact ⟨capture, key, rfl⟩
  split at reads
  · cases reads; exact ⟨capture, key, rfl⟩
  split at reads
  · cases reads; exact ⟨capture, key, rfl⟩
  split at reads <;> cases reads
  exact ⟨capture, key, rfl⟩

/-! ## Bodies are accepted -/

/-- The token goes on over bytes that do not end it. -/
def follow (s : StringToken) (bytes : List UInt8) : Option StringToken :=
  bytes.foldlM (fun s b =>
    match s.byte b with
    | some (false, s) => some s
    | _ => none) s

@[simp] theorem follow_nil (s : StringToken) : s.follow [] = some s := rfl

theorem follow_append (s : StringToken) (a b : List UInt8) :
    s.follow (a ++ b) = (s.follow a).bind fun s => s.follow b := by
  simp [follow, foldlM_append]

theorem follow_cons (reads : s.byte b = some (false, s')) (bytes : List UInt8) :
    s.follow (b :: bytes) = s'.follow bytes := by
  simp [follow, reads]

/-- There is room for so many more bytes. -/
def Room (s : StringToken) (count : Nat) : Prop :=
  s.capture = true → s.raw.length + count ≤ maxToken

theorem Room.byte (room : Room s (count + 1)) (reads : s.byte b = some (done, s')) :
    Room s' count := by
  obtain ⟨capture, -, raw, -⟩ := byte_raw reads
  intro captured
  rw [capture] at captured
  have before := room captured
  rw [raw, push, if_pos captured, length_append, length_singleton]
  omega

theorem Room.free (room : Room s (count + 1)) :
    ¬ (s.capture ∧ s.raw.length = maxToken) := by
  rintro ⟨captured, full⟩
  have before := room captured
  omega

/-- The value of more digits. -/
def hexFrom (code : Nat) (digits : List UInt8) : Option Nat :=
  digits.foldlM (fun n b => (hexDigit b).map fun digit => n * 16 + digit) code

theorem le_hexFrom (known : hexFrom code digits = some value) : code ≤ value := by
  induction digits generalizing code with
  | nil => cases known; exact Nat.le_refl _
  | cons b rest ih =>
    rw [hexFrom, foldlM_cons, bind_eq_bind, bind_eq_some_iff] at known
    obtain ⟨next, first, later⟩ := known
    rw [map_eq_some_iff] at first
    obtain ⟨digit, -, rfl⟩ := first
    have below := ih later
    omega

/-- What is made of the code point of a complete escape. -/
def settled (s : StringToken) : Option StringToken :=
  if s.high then
    if 0xdc00 ≤ s.code ∧ s.code ≤ 0xdfff then some { s with high := false } else none
  else if 0xd800 ≤ s.code ∧ s.code ≤ 0xdbff then some { s with high := true, lowEscape := 2 }
  else if 0xdc00 ≤ s.code ∧ s.code ≤ 0xdfff then none
  else some s

theorem follow_digits (room : Room s digits.length) (left : s.digits = digits.length)
    (some_ : digits ≠ []) (known : hexFrom s.code digits = some value) (small : value < 65536) :
    ∃ s₁ : StringToken, s₁.escape = s.escape ∧ s₁.digits = 0 ∧ s₁.code = value ∧
      s₁.high = s.high ∧ s₁.lowEscape = s.lowEscape ∧ s.follow digits = s₁.settled := by
  induction digits generalizing s with
  | nil => exact absurd rfl some_
  | cons b rest ih =>
    rw [hexFrom, foldlM_cons, bind_eq_bind, bind_eq_some_iff] at known
    obtain ⟨next, first, later⟩ := known
    rw [map_eq_some_iff] at first
    obtain ⟨digit, known, rfl⟩ := first
    rw [length_cons] at left room
    have positive : 0 < s.digits := by omega
    have below : s.code * 16 + digit ≤ value := le_hexFrom later
    have fits : (s.code * 16 + digit) % 65536 = s.code * 16 + digit := Nat.mod_eq_of_lt (by omega)
    let s₁ : StringToken :=
      { s.push b with code := s.code * 16 + digit, digits := s.digits - 1 }
    have reads : s.byte b = ((s.push b).digit digit).map fun s => (false, s) := by
      simp only [StringToken.byte, if_neg room.free, push_digits, if_pos positive, known]
    cases rest with
    | nil =>
      cases later
      have last : s.digits - 1 = 0 := by simp at left; omega
      have done : (s.push b).digit digit = s₁.settled := by
        simp only [StringToken.digit, push_code, push_digits, fits, last, if_true, settled, s₁]
      refine ⟨s₁, by simp [s₁], last, rfl, by simp [s₁], by simp [s₁], ?_⟩
      rw [done] at reads
      cases settles : s₁.settled with
      | none => simp [follow, reads, settles]
      | some s₂ => simp [follow, reads, settles]
    | cons c rest =>
      have more : s.digits - 1 ≠ 0 := by simp at left; omega
      have goes : s.byte b = some (false, s₁) := by
        rw [reads]
        simp only [StringToken.digit, push_code, push_digits, fits, if_neg more, map_some, s₁]
      obtain ⟨s₂, escape, digits, code, high, low, follows⟩ := ih
        (room.byte goes) (show s.digits - 1 = _ by omega) (by simp) later
      refine ⟨s₂, by simp [escape, s₁], digits, code, by simp [high, s₁], by simp [low, s₁], ?_⟩
      rw [follow_cons goes, follows]

theorem follow_two {a b : UInt8} {s₁ s₂ : StringToken} (first : s.byte a = some (false, s₁))
    (second : s₁.byte b = some (false, s₂)) (bytes : List UInt8) :
    s.follow (a :: b :: bytes) = s₂.follow bytes := by
  rw [follow_cons first, follow_cons second]

theorem follow_unicode (idle : Idle s) (room : Room s (digits.length + 2))
    (four : digits.length = 4) (known : hexValue digits = some value) :
    ∃ s₁ : StringToken, s₁.escape = false ∧ s₁.digits = 0 ∧ s₁.code = value ∧ s₁.high = false ∧
      s₁.lowEscape = 0 ∧ s.follow (unicodeEscape ++ digits) = s₁.settled := by
  let s₁ : StringToken := { s.push backslash with escape := true }
  have first : s.byte backslash = some (false, s₁) := by
    have other : backslash ≠ quote := by decide
    simp [StringToken.byte, room.free, idle.digits, idle.low, idle.escape, other, s₁]
  have room₁ : Room s₁ (digits.length + 1) := room.byte first
  let s₂ : StringToken := { s₁.push 117 with escape := false, digits := 4, code := 0 }
  have second : s₁.byte 117 = some (false, s₂) := by
    simp [StringToken.byte, room₁.free, idle.digits, idle.low, s₁, s₂]
  have bound := hexValue_lt known
  rw [four] at bound
  obtain ⟨s₃, escape, left, code, high, low, follows⟩ := follow_digits (s := s₂)
    (room₁.byte second) four.symm (by rintro rfl; cases four) known (by omega)
  refine ⟨s₃, escape, left, code, ?_, ?_, ?_⟩
  · simp [high, s₂, s₁, idle.high]
  · simp [low, s₂, s₁, idle.low]
  · rw [unicodeEscape, cons_append, cons_append, nil_append,
      follow_two first second, follows]

theorem follow_low (high : s.high = true) (escape : s.escape = false) (none_ : s.digits = 0)
    (low : s.lowEscape = 2) (room : Room s (digits.length + 2)) (four : digits.length = 4)
    (known : hexValue digits = some value) (second : IsLowSurrogate value) :
    ∃ s₁ : StringToken, Idle s₁ ∧ s.follow (unicodeEscape ++ digits) = some s₁ := by
  let s₁ : StringToken := { s.push backslash with lowEscape := 1 }
  have first : s.byte backslash = some (false, s₁) := by
    simp [StringToken.byte, room.free, none_, low, s₁]
  have room₁ : Room s₁ (digits.length + 1) := room.byte first
  let s₂ : StringToken := { s₁.push 117 with lowEscape := 0, digits := 4, code := 0 }
  have next : s₁.byte 117 = some (false, s₂) := by
    simp [StringToken.byte, room₁.free, none_, s₁, s₂]
  have bound := hexValue_lt known
  rw [four] at bound
  obtain ⟨s₃, escape₃, left, code, high₃, low₃, follows⟩ := follow_digits (s := s₂)
    (room₁.byte next) four.symm (by rintro rfl; cases four) known (by omega)
  have raised : s₃.high = true := by simp [high₃, s₂, s₁, high]
  have settles : s₃.settled = some { s₃ with high := false } := by
    have within : 0xdc00 ≤ s₃.code ∧ s₃.code ≤ 0xdfff := by rw [code]; exact second
    simp only [settled, raised, if_true, if_pos within]
  refine ⟨{ s₃ with high := false }, ⟨?_, left, rfl, ?_⟩, ?_⟩
  · simp [escape₃, s₂, s₁, escape]
  · simp [low₃, s₂]
  · rw [unicodeEscape, cons_append, cons_append, nil_append,
      follow_two first next, follows, settles]

theorem Room.follow (room : Room s (w.length + count)) (follows : s.follow w = some s') :
    Room s' count := by
  induction w generalizing s with
  | nil => cases follows; simpa using room
  | cons b rest ih =>
    rw [length_cons, Nat.add_right_comm] at room
    simp only [StringToken.follow, foldlM_cons, bind_eq_bind,
      bind_eq_some_iff] at follows
    obtain ⟨next, reads, later⟩ := follows
    split at reads
    · rename_i next' goes
      cases reads
      exact ih (room.byte goes) later
    · cases reads

theorem Room.mono {few many : Nat} (room : Room s many) (le : few ≤ many) : Room s few := by
  intro captured
  have enough := room captured
  omega

theorem follow_plain (idle : Idle s) (room : Room s 1) (plain : isPlain b = true)
    (visible : 32 ≤ b.toNat) : ∃ s', s.follow [b] = some s' ∧ Idle s' := by
  simp only [isPlain, Bool.and_eq_true, bne_iff_ne] at plain
  have reads : s.byte b = some (false, s.push b) := by
    have large : ¬ b.toNat < 32 := by omega
    simp [StringToken.byte, room.free, idle.digits, idle.low, idle.escape, plain.1, plain.2, large]
  refine ⟨s.push b, by rw [follow_cons reads, follow_nil], ?_, ?_, ?_, ?_⟩
  · simp [idle.escape]
  · simp [idle.digits]
  · simp [idle.high]
  · simp [idle.low]

theorem follow_short (idle : Idle s) (room : Room s 2) (escape : b ∈ shortEscapes) :
    ∃ s', s.follow [backslash, b] = some s' ∧ Idle s' := by
  let s₁ : StringToken := { s.push backslash with escape := true }
  have first : s.byte backslash = some (false, s₁) := by
    have other : backslash ≠ quote := by decide
    simp [StringToken.byte, room.free, idle.digits, idle.low, idle.escape, other, s₁]
  have room₁ : Room s₁ 1 := room.byte first
  let s₂ : StringToken := { s₁.push b with escape := false }
  have second : s₁.byte b = some (false, s₂) := by
    have short : b ≠ 117 := by
      rintro rfl
      exact absurd escape (by decide)
    simp [StringToken.byte, room₁.free, idle.digits, idle.low, short, escape, s₁, s₂]
  refine ⟨s₂, by rw [follow_two first second, follow_nil], rfl, ?_, ?_, ?_⟩
  · simp [s₂, s₁, idle.digits]
  · simp [s₂, s₁, idle.high]
  · simp [s₂, s₁, idle.low]

theorem follow_scalar (idle : Idle s) (room : Room s (digits.length + 2)) (four : digits.length = 4)
    (known : hexValue digits = some code)
    (scalar : ¬ IsHighSurrogate code ∧ ¬ IsLowSurrogate code) :
    ∃ s', s.follow (unicodeEscape ++ digits) = some s' ∧ Idle s' := by
  obtain ⟨s₁, escape, left, rfl, high, low, follows⟩ := follow_unicode idle room four known
  have settles : s₁.settled = some s₁ := by
    have notHigh : ¬ (0xd800 ≤ s₁.code ∧ s₁.code ≤ 0xdbff) := scalar.1
    have notLow : ¬ (0xdc00 ≤ s₁.code ∧ s₁.code ≤ 0xdfff) := scalar.2
    simp [settled, high, notHigh, notLow]
  exact ⟨s₁, follows.trans settles, escape, left, high, low⟩

theorem follow_pair (idle : Idle s) {first second : List UInt8} {code' : Nat}
    (room : Room s (first.length + second.length + 4)) (four : first.length = 4)
    (known : hexValue first = some code) (high : IsHighSurrogate code) (four' : second.length = 4)
    (known' : hexValue second = some code') (low : IsLowSurrogate code') :
    ∃ s', s.follow (unicodeEscape ++ first ++ (unicodeEscape ++ second)) = some s' ∧ Idle s' := by
  obtain ⟨s₁, escape, left, rfl, high₁, low₁, follows⟩ :=
    follow_unicode idle (room.mono (by omega)) four known
  have settles : s₁.settled = some { s₁ with high := true, lowEscape := 2 } := by
    have surrogate : 0xd800 ≤ s₁.code ∧ s₁.code ≤ 0xdbff := high
    simp [settled, high₁, surrogate]
  rw [settles] at follows
  have length : (unicodeEscape ++ first).length = first.length + 2 := by simp [unicodeEscape]
  have enough : Room s ((unicodeEscape ++ first).length + (second.length + 2)) :=
    room.mono (by omega)
  have room₁ := enough.follow follows
  obtain ⟨s₂, idle₂, follows₂⟩ := follow_low (s := { s₁ with high := true, lowEscape := 2 })
    rfl escape left rfl room₁ four' known' low
  exact ⟨s₂, by rw [follow_append, follows, bind_some, follows₂], idle₂⟩

theorem follow_body {body : List UInt8} (is_body : IsBody body) (idle : Idle s)
    (room : Room s body.length) : ∃ s', s.follow body = some s' ∧ Idle s' := by
  induction is_body with
  | nil => exact ⟨s, rfl, idle⟩
  | @plain body b before plain visible ih =>
    simp only [length_append] at room
    obtain ⟨s₁, first, idle₁⟩ := ih (room.mono (Nat.le_add_right _ _))
    rw [follow_append, first]
    exact follow_plain idle₁ (room.follow first) plain visible
  | @short body b before escape ih =>
    simp only [length_append] at room
    obtain ⟨s₁, first, idle₁⟩ := ih (room.mono (Nat.le_add_right _ _))
    rw [follow_append, first]
    exact follow_short idle₁ (room.follow first) escape
  | @unicode body digits code before four value scalar ih =>
    simp only [length_append] at room
    obtain ⟨s₁, first, idle₁⟩ := ih (room.mono (Nat.le_add_right _ _))
    rw [follow_append, first]
    refine follow_scalar idle₁ ((room.follow first).mono ?_) four value scalar
    simp [unicodeEscape]
    omega
  | @pair body high low code code' before four value first four' value' second ih =>
    simp only [length_append] at room
    obtain ⟨s₁, follows, idle₁⟩ := ih (room.mono (Nat.le_add_right _ _))
    rw [follow_append, follows]
    refine follow_pair idle₁ ((room.follow follows).mono ?_) four value first four' value' second
    simp [unicodeEscape]
    omega

theorem follow_raw (follows : s.follow w = some s') :
    s'.capture = s.capture ∧ s'.key = s.key ∧ (s.capture = true → s'.raw = s.raw ++ w) := by
  induction w generalizing s with
  | nil => cases follows; simp
  | cons b rest ih =>
    simp only [StringToken.follow, foldlM_cons, bind_eq_bind,
      bind_eq_some_iff] at follows
    obtain ⟨next, reads, later⟩ := follows
    split at reads
    · rename_i next' goes
      cases reads
      obtain ⟨capture, key, raw, -⟩ := byte_raw goes
      obtain ⟨capture', key', raw'⟩ := ih later
      refine ⟨capture'.trans capture, key'.trans key, fun captured => ?_⟩
      rw [raw' (capture.trans captured), raw, push, if_pos captured]
      simp
    · cases reads

theorem byte_quote (idle : Idle s) (room : Room s 1) : s.byte quote = some (true, s.push quote) := by
  simp [StringToken.byte, room.free, idle.digits, idle.low, idle.escape]

end StringToken

end Agentix.Wire
