import Agentix.Wire.Chunks
import Agentix.Wire.Observer
import Mathlib.Algebra.Group.Nat.Defs

/-! # The frames of a connection

What a peer may send, and the text messages that it says with it.
-/

namespace Agentix.Wire

open Lib List

inductive Opcode where
  | continuation
  | text
  | binary
  | close
  | ping
  | pong
  deriving DecidableEq

namespace Opcode

def code : Opcode → UInt8
  | continuation => 0
  | text => 1
  | binary => 2
  | close => 8
  | ping => 9
  | pong => 10

def isControl : Opcode → Bool
  | close | ping | pong => true
  | continuation | text | binary => false

end Opcode

/-- How the length is written: in the second byte, or in two or eight bytes after it. -/
inductive LengthForm where
  | short
  | medium
  | long
  deriving DecidableEq

namespace LengthForm

def Fits : LengthForm → Nat → Prop
  | short, n => n ≤ 125
  | medium, n => n < 65536
  | long, n => n ≤ i64Max

/-- What the second byte says of the length. -/
def code : LengthForm → Nat → Nat
  | short, n => n
  | medium, _ => 126
  | long, _ => 127

end LengthForm

/-- The bytes of a number, the most significant one first. -/
def toBeBytes : Nat → Nat → List UInt8
  | 0, _ => []
  | width + 1, n => toBeBytes width (n / 256) ++ [UInt8.ofNat n]

/-- A frame that the observer of the role may see. -/
structure LegalFrame (role : Role) where
  fin : Bool
  opcode : Opcode
  mask : Option Mask
  form : LengthForm
  payload : List UInt8
  masked : mask.isSome = decide (role = .server)
  fits : form.Fits payload.length
  control : opcode.isControl = true → fin = true ∧ payload.length ≤ 125
  reason : opcode = .close → payload.length ≠ 1

namespace LegalFrame

variable {role : Role}

def firstByte (f : LegalFrame role) : UInt8 := (if f.fin then 128 else 0) + f.opcode.code

def secondByte (f : LegalFrame role) : UInt8 :=
  (if f.mask.isSome then 128 else 0) + UInt8.ofNat (f.form.code f.payload.length)

def lengthBytes (f : LegalFrame role) : List UInt8 :=
  match f.form with
  | .short => []
  | .medium => toBeBytes 2 f.payload.length
  | .long => toBeBytes 8 f.payload.length

def maskBytes (f : LegalFrame role) : List UInt8 :=
  match f.mask with
  | none => []
  | some mask => [mask.first, mask.second, mask.third, mask.fourth]

def header (f : LegalFrame role) : List UInt8 :=
  f.firstByte :: f.secondByte :: (f.lengthBytes ++ f.maskBytes)

/-- A part of the payload, as it is sent. -/
def sent (f : LegalFrame role) (offset : Nat) (bytes : List UInt8) : List UInt8 :=
  match f.mask with
  | none => bytes
  | some mask => Observer.unmask mask offset bytes

def wire (f : LegalFrame role) : List UInt8 := f.header ++ f.sent 0 f.payload

end LegalFrame

/-! ## Messages -/

/-- The message that is under way: whether it is a text, and its bytes so far. -/
abbrev Current := Option (Bool × List UInt8)

section

variable {role : Role}

/-- Fragments come in order, and after a close frame anything may follow. -/
def Legal (trailing : List UInt8) : Bool → List (LegalFrame role) → Prop
  | _, [] => trailing = []
  | unfinished, f :: rest =>
    if f.opcode = .close then rest = []
    else if f.opcode.isControl then Legal trailing unfinished rest
    else (f.opcode = .continuation ↔ unfinished = true) ∧ Legal trailing (!f.fin) rest

/-- The message of a data frame, before its payload. -/
def entered (current : Current) (f : LegalFrame role) : Bool × List UInt8 :=
  match f.opcode with
  | .text => (true, [])
  | .continuation => current.getD (false, [])
  | _ => (false, [])

def texts (current : Current) : List (LegalFrame role) → List (List UInt8)
  | [] => []
  | f :: rest =>
    if f.opcode = .close then []
    else if f.opcode.isControl then texts current rest
    else
      let message := entered current f
      let payload := message.2 ++ f.payload
      if f.fin then (if message.1 then [payload] else []) ++ texts none rest
      else texts (some (message.1, payload)) rest

end

def delivered [Serde] (payload : List UInt8) : Option Callback :=
  if payload.length ≤ smallMessage then (textOf payload).map fun value => (value, false)
  else (Projection.feedAll [payload]).finish.map fun value => (value, true)

/-! ## Headers -/

theorem fromBeBytes_snoc (bytes : List UInt8) (b : UInt8) :
    fromBeBytes (bytes ++ [b]) = fromBeBytes bytes * 256 + b.toNat := by
  simp [fromBeBytes]

@[simp] theorem length_toBeBytes (width n : Nat) : (toBeBytes width n).length = width := by
  induction width generalizing n with
  | zero => rfl
  | succ width ih => simp [toBeBytes, ih]

theorem fromBeBytes_toBeBytes {width n : Nat} (fits : n < 256 ^ width) :
    fromBeBytes (toBeBytes width n) = n := by
  induction width generalizing n with
  | zero =>
    simp at fits
    subst fits
    rfl
  | succ width ih =>
    rw [Nat.pow_succ] at fits
    have quotient : n / 256 < 256 ^ width := Nat.div_lt_of_lt_mul (by omega)
    rw [toBeBytes, fromBeBytes_snoc, ih quotient]
    simp
    omega

namespace LegalFrame

variable {role : Role} (f : LegalFrame role)

theorem firstByte_opcode : f.firstByte &&& 15 = f.opcode.code := by
  rw [firstByte]
  cases f.fin <;> cases f.opcode <;> decide

theorem firstByte_fin : (f.firstByte &&& 128 ≠ 0) ↔ f.fin = true := by
  rw [firstByte]
  cases f.fin <;> cases f.opcode <;> decide

theorem firstByte_reserved : f.firstByte &&& 0x70 = 0 := by
  rw [firstByte]
  cases f.fin <;> cases f.opcode <;> decide

theorem code_small : f.form.code f.payload.length ≤ 127 := by
  have fits := f.fits
  cases form : f.form with
  | short =>
    rw [form] at fits
    simp only [LengthForm.Fits] at fits
    simp only [LengthForm.code]
    omega
  | medium => simp [LengthForm.code]
  | long => simp [LengthForm.code]

theorem split_byte : ∀ n < 128, ∀ masked : Bool,
    (((if masked then 128 else 0) + UInt8.ofNat n : UInt8) &&& 127).toNat = n ∧
      (((if masked then 128 else 0) + UInt8.ofNat n : UInt8) &&& 128 ≠ 0 ↔ masked = true) := by
  decide +kernel

theorem secondByte_length : (f.secondByte &&& 127).toNat = f.form.code f.payload.length :=
  (split_byte _ (by have small := f.code_small; omega) _).1

theorem secondByte_masked : (f.secondByte &&& 128 ≠ 0) ↔ f.mask.isSome = true :=
  (split_byte _ (by have small := f.code_small; omega) _).2

@[simp] theorem first_header : Observer.first f.header = f.firstByte := rfl

@[simp] theorem second_header : Observer.second f.header = f.secondByte := rfl

theorem second_eq_iff (b : UInt8) :
    f.secondByte &&& 127 = b ↔ f.form.code f.payload.length = b.toNat := by
  rw [← UInt8.toNat_inj, secondByte_length]

theorem header_length :
    f.header.length = 2 + f.lengthBytes.length + (if f.mask.isSome then 4 else 0) := by
  simp only [header, length_cons, length_append, maskBytes]
  cases f.mask <;> simp <;> omega

theorem length_lengthBytes :
    f.lengthBytes.length =
      if f.secondByte &&& 127 = 126 then 2 else if f.secondByte &&& 127 = 127 then 8 else 0 := by
  have medium : f.secondByte &&& 127 = 126 ↔ f.form.code f.payload.length = 126 :=
    f.second_eq_iff 126
  have long : f.secondByte &&& 127 = 127 ↔ f.form.code f.payload.length = 127 :=
    f.second_eq_iff 127
  have fits := f.fits
  simp only [lengthBytes]
  cases form : f.form with
  | short =>
    rw [form] at fits
    simp only [LengthForm.Fits] at fits
    simp only [form, LengthForm.code] at medium long
    rw [if_neg (fun is => by have := medium.mp is; omega),
      if_neg (fun is => by have := long.mp is; omega)]
    rfl
  | medium =>
    simp only [form, LengthForm.code] at medium
    rw [if_pos (medium.mpr trivial)]
    simp
  | long =>
    simp only [form, LengthForm.code] at medium long
    rw [if_neg (fun is => by have := medium.mp is; omega), if_pos (long.mpr trivial)]
    simp

/-- The length of the header is known from its second byte on. -/
theorem needed_header {header : List UInt8} (second : Observer.second header = f.secondByte)
    (two : ¬ header.length < 2) : Observer.needed header = f.header.length := by
  rw [Observer.needed, if_neg two, second, f.header_length, f.length_lengthBytes]
  by_cases masked : f.mask.isSome = true
  · rw [if_pos (f.secondByte_masked.mpr masked), if_pos masked]
  · rw [if_neg (fun is => masked (f.secondByte_masked.mp is)), if_neg masked]

theorem second_of_start {header later others : List UInt8}
    (wire : header ++ later = f.header ++ others) (two : ¬ header.length < 2) :
    Observer.second header = f.secondByte := by
  have same := congrArg (fun bytes => bytes.getD 1 0) wire
  simp only [LegalFrame.header, cons_append, getD_cons_succ, getD_cons_zero] at same
  rw [← same, Observer.second]
  simp only [getD_eq_getElem?_getD]
  rw [getElem?_append_left (by omega)]

theorem readHeader_spec {header bytes later others : List UInt8}
    (wire : header ++ bytes ++ later = f.header ++ others)
    (missing : header.length < f.header.length) :
    (header ++ bytes).length < f.header.length ∧
        Observer.readHeader header bytes = (header ++ bytes, [], false) ∨
      ∃ rest, header ++ bytes = f.header ++ rest ∧
        Observer.readHeader header bytes = (f.header, rest, true) := by
  have atLeast : 2 ≤ f.header.length := by simp [LegalFrame.header]
  induction header, bytes using Observer.readHeader.induct with
  | case1 header bytes filled short =>
    rw [Observer.readHeader, if_pos short]
    have most : Observer.needed header ≤ f.header.length := by
      by_cases two : header.length < 2
      · rw [Observer.needed, if_pos two]
        exact atLeast
      · rw [f.needed_header (f.second_of_start (by rw [← wire, append_assoc]) two) two]
    have same : filled = (header ++ bytes, []) := Observer.fill_short short
    refine .inl ⟨?_, congrArg (fun read => (read.1, read.2, false)) same⟩
    rw [same] at short
    exact Nat.lt_of_lt_of_le short most
  | case2 header bytes filled long longer ih =>
    rw [Observer.readHeader, if_neg long, dif_pos longer]
    have same : filled.1 ++ filled.2 = header ++ bytes := Observer.fill_append header bytes
    rw [← same]
    rw [← same] at wire
    have second := @second_of_start _ f filled.1 _ _ (by rw [← wire, append_assoc])
      (by omega)
    refine ih wire ?_
    rw [longer.1, ← f.needed_header second (by omega)]
    have more := (@Observer.needed_of_longer filled.1 (by omega)).mp longer.2.2
    have two := Observer.two_le_needed filled.1
    omega
  | case3 header bytes filled long done =>
    rw [Observer.readHeader, if_neg long, dif_neg done]
    have same : filled.1 ++ filled.2 = header ++ bytes := Observer.fill_append header bytes
    rw [← same]
    rw [← same] at wire
    have two : ¬ filled.1.length < 2 := by
      have least := Observer.two_le_needed header
      omega
    have second := @second_of_start _ f filled.1 _ _ (by rw [← wire, append_assoc]) two
    have needed := f.needed_header second two
    -- either the header ends after two bytes, or its length was known before
    have whole : filled.1.length = f.header.length := by
      by_cases start : header.length < 2
      · have first : Observer.needed header = 2 := by rw [Observer.needed, if_pos start]
        have length : filled.1.length = 2 :=
          (Observer.fill_long (by omega) long).trans first
        have plain : ¬ Observer.Longer filled.1 := fun longer => done ⟨length, first, longer⟩
        rw [Observer.needed_of_longer two, needed] at plain
        omega
      · have known : Observer.needed header = f.header.length :=
          f.needed_header (f.second_of_start (by rw [← wire, same, append_assoc]) start) start
        exact (Observer.fill_long (by omega) long).trans known
    have prefix_ : filled.1 = f.header := by
      have cut := congrArg (take f.header.length) wire
      rw [append_assoc, take_left' whole, take_left' rfl] at cut
      exact cut
    exact .inr ⟨filled.2, by rw [prefix_], congrArg (fun read => (read, filled.2, true)) prefix_⟩

theorem payloadLength_header :
    Observer.payloadLength f.header = (f.payload.length, 2 + f.lengthBytes.length) := by
  have medium : f.secondByte &&& 127 = 126 ↔ f.form.code f.payload.length = 126 :=
    f.second_eq_iff 126
  have long : f.secondByte &&& 127 = 127 ↔ f.form.code f.payload.length = 127 :=
    f.second_eq_iff 127
  have length := f.secondByte_length
  have fits := f.fits
  have after : f.header.drop 2 = f.lengthBytes ++ f.maskBytes := rfl
  rw [Observer.payloadLength, second_header]
  cases form : f.form with
  | short =>
    simp only [form, LengthForm.Fits, LengthForm.code] at medium long length fits
    rw [if_neg (fun is => by have := medium.mp is; omega),
      if_neg (fun is => by have := long.mp is; omega), length]
    simp [lengthBytes, form]
  | medium =>
    simp only [form, LengthForm.Fits, LengthForm.code] at medium fits
    have bytes : f.lengthBytes = toBeBytes 2 f.payload.length := by simp [lengthBytes, form]
    rw [if_pos (medium.mpr trivial), after, bytes, take_left' (length_toBeBytes 2 _),
      fromBeBytes_toBeBytes (by omega), length_toBeBytes]
  | long =>
    simp only [form, LengthForm.Fits, LengthForm.code] at medium long fits
    have bytes : f.lengthBytes = toBeBytes 8 f.payload.length := by simp [lengthBytes, form]
    simp only [i64Max] at fits
    rw [if_neg (fun is => by have := medium.mp is; omega), if_pos (long.mpr trivial), after, bytes,
      take_left' (length_toBeBytes 8 _), fromBeBytes_toBeBytes (by omega), length_toBeBytes]

theorem maskAt_header {mask : Mask} (masked : f.mask = some mask) :
    Observer.maskAt f.header (2 + f.lengthBytes.length) = mask := by
  have after : f.header = f.firstByte :: f.secondByte :: f.lengthBytes ++
      [mask.first, mask.second, mask.third, mask.fourth] := by
    simp [LegalFrame.header, maskBytes, masked]
  have start : 2 + f.lengthBytes.length =
      (f.firstByte :: f.secondByte :: f.lengthBytes).length := by
    simp
    omega
  have at_ : ∀ i, f.header.getD (2 + f.lengthBytes.length + i) 0 =
      [mask.first, mask.second, mask.third, mask.fourth].getD i 0 := by
    intro i
    rw [after, start]
    simp only [getD_eq_getElem?_getD]
    rw [getElem?_append_right (by omega)]
    simp
  have first := at_ 0
  rw [Nat.add_zero] at first
  rw [Observer.maskAt, first, at_ 1, at_ 2, at_ 3]
  rfl

theorem length_le : f.payload.length ≤ i64Max := by
  have fits := f.fits
  cases form : f.form <;> simp only [form, LengthForm.Fits, i64Max] at fits ⊢ <;> omega

/-- The frame is a part of the message that is under way. -/
def Continues (f : LegalFrame role) (unfinished : Bool) : Prop :=
  f.opcode.isControl = true ∨ (f.opcode = .continuation ↔ unfinished = true)

def payloadState (f : LegalFrame role) (remaining offset : Nat) : Payload :=
  { remaining, offset, mask := f.mask, opcode := f.opcode.code, fin := f.fin }

def messageOpcode (f : LegalFrame role) (before : Option UInt8) : Option UInt8 :=
  if f.opcode = .text ∨ f.opcode = .binary then some f.opcode.code else before

theorem beginFrame_spec {o : Observer} (header : o.header = f.header) (side : o.role = role)
    (continues : f.Continues o.messageOpcode.isSome) :
    o.beginFrame = .ok { o with
      header := []
      frame := some (f.payloadState f.payload.length 0)
      messageOpcode := f.messageOpcode o.messageOpcode } := by
  have known : f.opcode.code ∈ ([0, 1, 2, 8, 9, 10] : List UInt8) := by
    cases f.opcode <;> decide
  have masked := f.masked
  have control := f.control
  have reason := f.reason
  have most := f.length_le
  have maskState : (if f.secondByte &&& 128 ≠ 0 then
      some (Observer.maskAt f.header (2 + f.lengthBytes.length)) else none) = f.mask := by
    cases mask : f.mask with
    | none => rw [if_neg (by rw [f.secondByte_masked, mask]; simp)]
    | some mask' => rw [if_pos (by rw [f.secondByte_masked, mask]; rfl), f.maskAt_header mask]
  have right_ : ((f.secondByte &&& 128 ≠ 0) ≠ (o.role = .server)) = False := by
    rw [side]
    simp only [f.secondByte_masked, masked, decide_eq_true_eq, ne_eq, not_true_eq_false]
  have finite : ¬ i64Max < f.payload.length := by omega
  simp only [Observer.beginFrame, header, first_header, second_header, f.firstByte_opcode,
    f.firstByte_reserved, known, and_self, not_true_eq_false, if_false, right_,
    f.payloadLength_header, finite, maskState, f.firstByte_fin]
  simp only [Continues] at continues
  cases opcode : f.opcode with
  | continuation =>
    have some_ : o.messageOpcode ≠ none := by
      simpa [opcode, Opcode.isControl, Option.isSome_iff_ne_none] using continues
    simp [Opcode.code, some_, payloadState, messageOpcode, opcode]
  | text =>
    have none_ : o.messageOpcode = none := by
      simpa [opcode, Opcode.isControl] using continues
    simp [Opcode.code, none_, payloadState, messageOpcode, opcode]
  | binary =>
    have none_ : o.messageOpcode = none := by
      simpa [opcode, Opcode.isControl] using continues
    simp [Opcode.code, none_, payloadState, messageOpcode, opcode]
  | close =>
    obtain ⟨fin, short⟩ := control (by simp [opcode, Opcode.isControl])
    have length := reason opcode
    simp [Opcode.code, payloadState, messageOpcode, opcode, fin, short, length]
  | ping =>
    obtain ⟨fin, short⟩ := control (by simp [opcode, Opcode.isControl])
    simp [Opcode.code, payloadState, messageOpcode, opcode, fin, short]
  | pong =>
    obtain ⟨fin, short⟩ := control (by simp [opcode, Opcode.isControl])
    simp [Opcode.code, payloadState, messageOpcode, opcode, fin, short]

end LegalFrame

end Agentix.Wire
