import Agentix.Wire.Projection
import Mathlib.Data.Nat.Notation

/-! # The observer of a connection

Frames are decoded as the bytes pass by, and the text messages are handed to a callback: short
ones as they are, long ones as their projection.
-/

namespace Agentix.Wire

open Lib List

/-- The side that the observer stands in for: a server receives masked frames. -/
inductive Role where
  | server
  | client
  deriving DecidableEq

def smallMessage : Nat := 64 * 1024

/-- `i64::MAX`. -/
def i64Max : Nat := 9223372036854775807

/-- One call of the callback: the text, and whether it is a projection. -/
abbrev Callback := String × Bool

/-- `std::str::from_utf8`, as a text. -/
def textOf (bytes : List UInt8) : Option String :=
  String.fromUTF8? ⟨bytes.toArray⟩

/-! ## Messages -/

structure TextMessage where
  small : List UInt8 := []
  projection : Option Projection := none

namespace TextMessage

variable [Serde]

def feed (t : TextMessage) (bytes : List UInt8) : TextMessage :=
  match t.projection with
  | some projection => { t with projection := some (projection.feed bytes) }
  | none =>
    if t.small.length + bytes.length ≤ smallMessage then { t with small := t.small ++ bytes }
    else
      let projection : Projection := {}
      let projection := projection.feed t.small
      { small := [], projection := some (projection.feed bytes) }

def finish (t : TextMessage) : TextMessage × List Callback :=
  let texts :=
    match t.projection with
    | some projection => (projection.finish.map fun value => (value, true)).toList
    | none => ((textOf t.small).map fun value => (value, false)).toList
  ({ small := [], projection := none }, texts)

end TextMessage

/-! ## Frames -/

/-- The four bytes of a mask. -/
structure Mask where
  first : UInt8
  second : UInt8
  third : UInt8
  fourth : UInt8

/-- `mask[i & 3]`. -/
def Mask.at (mask : Mask) (i : Nat) : UInt8 :=
  match i % 4 with
  | 0 => mask.first
  | 1 => mask.second
  | 2 => mask.third
  | _ => mask.fourth

/-- The frame whose payload passes by. -/
structure Payload where
  remaining : Nat
  offset : Nat := 0
  mask : Option Mask
  opcode : UInt8
  fin : Bool

structure Observer where
  role : Role
  header : List UInt8 := []
  frame : Option Payload := none
  messageOpcode : Option UInt8 := none
  message : TextMessage := {}
  disabled : Bool := false
  closed : Bool := false

/-- `from_be_bytes`. -/
def fromBeBytes (bytes : List UInt8) : Nat :=
  bytes.foldl (fun n b => n * 256 + b.toNat) 0

namespace Observer

/-! ### Headers -/

variable {bytes header : List UInt8} {o o' : Observer} {frame : Payload}

def first (header : List UInt8) : UInt8 := header.getD 0 0

def second (header : List UInt8) : UInt8 := header.getD 1 0

def needed (header : List UInt8) : Nat :=
  if header.length < 2 then 2
  else
    2 + (if second header &&& 127 = 126 then 2 else if second header &&& 127 = 127 then 8 else 0) +
      (if second header &&& 128 ≠ 0 then 4 else 0)

/-- The bytes that are missing are taken from the message. -/
def fill (header bytes : List UInt8) : List UInt8 × List UInt8 :=
  let n := min (needed header - header.length) bytes.length
  (header ++ bytes.take n, bytes.drop n)

theorem fill_length (header bytes : List UInt8) :
    (fill header bytes).1.length + (fill header bytes).2.length =
      header.length + bytes.length := by
  simp only [fill, length_append, length_take, length_drop]
  omega

theorem fill_append (header bytes : List UInt8) :
    (fill header bytes).1 ++ (fill header bytes).2 = header ++ bytes := by
  simp [fill]

theorem fill_short (short : (fill header bytes).1.length < needed header) :
    fill header bytes = (header ++ bytes, []) := by
  simp only [fill, length_append, length_take] at short
  have all : min (needed header - header.length) bytes.length = bytes.length := by omega
  simp [fill, all]

theorem fill_long (room : header.length ≤ needed header)
    (long : ¬ (fill header bytes).1.length < needed header) :
    (fill header bytes).1.length = needed header := by
  simp only [fill, length_append, length_take] at long ⊢
  omega

theorem two_le_needed (header : List UInt8) : 2 ≤ needed header := by
  simp only [needed]
  split <;> omega

/-- The header names an extended length or a mask. -/
def Longer (header : List UInt8) : Prop :=
  126 ≤ (second header &&& 127).toNat ∨ second header &&& 128 ≠ 0

instance (header : List UInt8) : Decidable (Longer header) := by
  unfold Longer
  infer_instance

theorem needed_of_longer (two : ¬ header.length < 2) :
    Longer header ↔ needed header ≠ 2 := by
  have bound : (second header &&& 127).toNat ≤ 127 := by
    rw [UInt8.toNat_and]
    exact Nat.and_le_right
  simp only [Longer, needed, if_neg two]
  by_cases one : second header &&& 127 = 126
  · simp [one]
    omega
  by_cases other : second header &&& 127 = 127
  · simp [other]
    omega
  have short : (second header &&& 127).toNat < 126 := by
    have first : (second header &&& 127).toNat ≠ 126 := fun same => one (UInt8.toNat_inj.mp same)
    have second_ : (second header &&& 127).toNat ≠ 127 := fun same => other (UInt8.toNat_inj.mp same)
    omega
  by_cases masked : second header &&& 128 = 0
  · rw [UInt8.toNat_and] at short
    simp [one, other, masked]
    exact short
  · simp [masked]

/-- The header is read, and what is left of the bytes; `true` when it is complete. -/
def readHeader (header bytes : List UInt8) : List UInt8 × List UInt8 × Bool :=
  let filled := fill header bytes
  if filled.1.length < needed header then (filled.1, filled.2, false)
  else if _longer : filled.1.length = 2 ∧ needed header = 2 ∧ Longer filled.1 then
    readHeader filled.1 filled.2
  else (filled.1, filled.2, true)
  termination_by 2 - header.length
  decreasing_by
    obtain ⟨two, first, longer⟩ := _longer
    have short : header.length < 2 := by
      by_contra long
      -- nothing was missing, so that the header is the same
      have same : filled.1 = header := by
        simp only [filled, fill, first]
        rw [show 2 - header.length = 0 by omega]
        simp
      rw [same] at longer
      exact (needed_of_longer long).mp longer first
    simp only [filled] at two
    omega

def payloadLength (header : List UInt8) : Nat × Nat :=
  if second header &&& 127 = 126 then (fromBeBytes ((header.drop 2).take 2), 4)
  else if second header &&& 127 = 127 then (fromBeBytes ((header.drop 2).take 8), 10)
  else ((second header &&& 127).toNat, 2)

def maskAt (header : List UInt8) (start : Nat) : Mask where
  first := header.getD start 0
  second := header.getD (start + 1) 0
  third := header.getD (start + 2) 0
  fourth := header.getD (start + 3) 0

def beginFrame (o : Observer) : Except String Observer :=
  let opcode := first o.header &&& 15
  let fin := first o.header &&& 128 ≠ 0
  let masked := second o.header &&& 128 ≠ 0
  if ¬ (first o.header &&& 0x70 = 0 ∧ opcode ∈ ([0, 1, 2, 8, 9, 10] : List UInt8)) then
    .error "invalid WebSocket flags/opcode"
  else if masked ≠ (o.role = .server) then .error "invalid WebSocket masking"
  else
    let (length, start) := payloadLength o.header
    if i64Max < length then .error "invalid WebSocket length"
    else
      let frame : Payload :=
        { remaining := length
          mask := if masked then some (maskAt o.header start) else none
          opcode, fin }
      if 8 ≤ opcode.toNat then
        if ¬ (fin ∧ length ≤ 125 ∧ ¬ (opcode = 8 ∧ length = 1)) then .error "invalid control frame"
        else .ok { o with frame := some frame, header := [] }
      else if opcode = 0 then
        if o.messageOpcode = none then .error "unexpected continuation"
        else .ok { o with frame := some frame, header := [] }
      else if o.messageOpcode ≠ none then .error "unfinished fragmented message"
      else .ok { o with messageOpcode := some opcode, frame := some frame, header := [] }

/-! ### Payloads -/

def scratch : Nat := 8192

def unmask (mask : Mask) (offset : Nat) (bytes : List UInt8) : List UInt8 :=
  bytes.mapIdx fun i b => b ^^^ mask.at (offset + i)

variable [Serde]

def feedMasked (message : TextMessage) (mask : Mask) (offset : Nat) (bytes : List UInt8) :
    TextMessage × Nat :=
  match bytes with
  | [] => (message, offset)
  | b :: rest =>
    let chunk := (b :: rest).take scratch
    feedMasked (message.feed (unmask mask offset chunk)) mask ((offset + chunk.length) % 4)
      ((b :: rest).drop scratch)
  termination_by bytes.length
  decreasing_by simp only [length_drop, length_cons, scratch]; omega

/-- How one round of the decoder ends. -/
inductive Round where
  | failed (o : Observer) (error : String)
  | done (o : Observer)
  | next (o : Observer) (bytes : List UInt8) (texts : List Callback)

/-- The message with some bytes of a payload, and the offset of the mask after them. -/
def absorb (o : Observer) (frame : Payload) (bytes : List UInt8) : TextMessage × Nat :=
  if o.messageOpcode = some 1 ∧ frame.opcode.toNat < 8 then
    match frame.mask with
    | some mask => feedMasked o.message mask frame.offset bytes
    | none => (o.message.feed bytes, frame.offset)
  else (o.message, frame.offset)

def endPayload (o : Observer) (frame : Payload) (bytes : List UInt8) : Round :=
  if frame.opcode = 8 then .done { o with closed := true }
  else if frame.opcode.toNat < 8 ∧ frame.fin then
    let (message, texts) :=
      if o.messageOpcode = some 1 then o.message.finish else (o.message, [])
    .next { o with message, messageOpcode := none } bytes texts
  else .next o bytes []

def takePayload (o : Observer) (frame : Payload) (bytes : List UInt8) : Round :=
  let n := min frame.remaining bytes.length
  let (message, offset) := o.absorb frame (bytes.take n)
  let remaining := frame.remaining - n
  if remaining ≠ 0 then
    .done { o with message, frame := some { frame with remaining, offset } }
  else { o with message, frame := none }.endPayload frame (bytes.drop n)

theorem takePayload_short (short : bytes.length < frame.remaining) :
    o.takePayload frame bytes = .done { o with
      message := (o.absorb frame bytes).1
      frame := some { frame with
        remaining := frame.remaining - bytes.length
        offset := (o.absorb frame bytes).2 } } := by
  have all : min frame.remaining bytes.length = bytes.length := by omega
  have some_ : frame.remaining - bytes.length ≠ 0 := by omega
  simp only [takePayload, all, take_length, if_pos some_]

theorem takePayload_long (long : ¬ bytes.length < frame.remaining) :
    o.takePayload frame bytes =
      { o with message := (o.absorb frame (bytes.take frame.remaining)).1, frame := none }.endPayload
        frame (bytes.drop frame.remaining) := by
  have all : min frame.remaining bytes.length = frame.remaining := by omega
  simp only [takePayload, all, Nat.sub_self, ne_eq, not_true_eq_false, if_false]

def round (o : Observer) (bytes : List UInt8) : Round :=
  match o.frame with
  | some frame => o.takePayload frame bytes
  | none =>
    let (header, bytes, complete) := readHeader o.header bytes
    let o := { o with header }
    if complete then
      match o.beginFrame with
      | .error error => .failed o error
      | .ok o =>
        match o.frame with
        | some frame => o.takePayload frame bytes
        | none => .done o
    else .done o

/-- The header goes on in the next chunk. -/
theorem round_partial {rest : List UInt8} (frame : o.frame = none)
    (reads : readHeader o.header bytes = (header, rest, false)) :
    o.round bytes = .done { o with header } := by
  simp only [round, frame, reads, Bool.false_eq_true, if_false]

theorem round_complete {rest : List UInt8} {payload : Payload} (frame : o.frame = none)
    (reads : readHeader o.header bytes = (header, rest, true))
    (begins : { o with header }.beginFrame = .ok o') (inside : o'.frame = some payload) :
    o.round bytes = o'.takePayload payload rest := by
  simp only [frame] at begins
  simp only [round, frame, reads, if_true, begins, inside]

/-! ### The decoder -/

omit [Serde] in
theorem readHeader_length (header bytes : List UInt8) :
    (readHeader header bytes).1.length + (readHeader header bytes).2.1.length =
        header.length + bytes.length ∧
      ((readHeader header bytes).2.2 = true → 2 ≤ (readHeader header bytes).1.length) := by
  induction header, bytes using readHeader.induct with
  | case1 header bytes filled short =>
    rw [readHeader, if_pos short]
    exact ⟨fill_length header bytes, by simp⟩
  | case2 header bytes filled long longer ih =>
    rw [readHeader, if_neg long, dif_pos longer]
    exact ⟨ih.1.trans (fill_length header bytes), ih.2⟩
  | case3 header bytes filled long done =>
    rw [readHeader, if_neg long, dif_neg done]
    exact ⟨fill_length header bytes, fun _ => Nat.le_trans (two_le_needed header) (Nat.le_of_not_lt long)⟩

omit [Serde] in
theorem beginFrame_header (begins : o.beginFrame = .ok o') : o'.header = [] := by
  simp only [beginFrame] at begins
  split at begins
  · cases begins
  split at begins
  · cases begins
  split at begins
  · cases begins
  split at begins
  · split at begins <;> cases begins
    rfl
  split at begins
  · split at begins <;> cases begins
    rfl
  split at begins <;> cases begins
  rfl

/-- What is left to do. -/
def work (o : Observer) (bytes : List UInt8) : Nat :=
  bytes.length + o.header.length + (if o.frame.isSome then 1 else 0)

theorem takePayload_work {bytes' : List UInt8} {texts : List Callback}
    (next : o.takePayload frame bytes = .next o' bytes' texts) :
    o'.work bytes' ≤ bytes.length + o.header.length := by
  by_cases short : bytes.length < frame.remaining
  · rw [takePayload_short short] at next
    cases next
  · rw [takePayload_long short, endPayload] at next
    split at next
    · cases next
    split at next
    · cases next
      simp [work]
    · cases next
      simp [work]

theorem round_work {bytes' : List UInt8} {texts : List Callback}
    (next : o.round bytes = .next o' bytes' texts) : o'.work bytes' < o.work bytes := by
  cases frame : o.frame with
  | some frame =>
    simp only [round, frame] at next
    have less := takePayload_work next
    simp only [work, frame, Option.isSome_some, if_true] at less ⊢
    omega
  | none =>
    obtain ⟨total, complete⟩ := readHeader_length o.header bytes
    simp only [round, frame] at next
    generalize readHeader o.header bytes = read at total complete next
    obtain ⟨header, rest, done⟩ := read
    cases done with
    | false => cases next
    | true =>
      simp only [if_true] at next
      split at next
      · cases next
      · rename_i begun begins
        split at next
        · have less := takePayload_work next
          rw [beginFrame_header begins] at less
          have two := complete rfl
          simp only [work, frame] at less total two ⊢
          simp at less ⊢
          omega
        · cases next

/-- There is something left to do. -/
def pending (o : Observer) (bytes : List UInt8) : Bool :=
  !bytes.isEmpty || o.frame.any fun frame => frame.remaining == 0

/-- The observer after the bytes, what it called back with, and the error that stopped it. -/
def decode (o : Observer) (bytes : List UInt8) : Observer × List Callback × Option String :=
  if o.pending bytes then
    match _here : o.round bytes with
    | .failed o error => (o, [], some error)
    | .done o => (o, [], none)
    | .next o' bytes' texts =>
      let (o, later, error) := o'.decode bytes'
      (o, texts ++ later, error)
  else (o, [], none)
  termination_by o.work bytes
  decreasing_by exact round_work _here

/-- `Ok` says whether the connection is still open. -/
def feedWith (o : Observer) (bytes : List UInt8) : Observer × List Callback × Except String Bool :=
  if o.disabled ∨ o.closed then (o, [], .ok (!o.closed))
  else
    match o.decode bytes with
    | (o, texts, some error) =>
      ({ o with disabled := true, message := {}, frame := none }, texts, .error error)
    | (o, texts, none) => (o, texts, .ok (!o.closed))

end Observer

end Agentix.Wire
