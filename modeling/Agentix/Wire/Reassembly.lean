import Agentix.Wire.Frames

/-! # Reassembly

At every byte of a stream of frames the observer knows where it is: in a header, or in a payload
with the bytes of the message before it.
-/

namespace Agentix.Wire

open Lib List Option

/-! ## Masks -/

theorem Mask.at_mod (mask : Mask) (i j : Nat) : mask.at (i % 4 + j) = mask.at (i + j) := by
  simp only [Mask.at, Nat.mod_add_mod]

namespace Observer

@[simp] theorem length_unmask (mask : Mask) (offset : Nat) (bytes : List UInt8) :
    (unmask mask offset bytes).length = bytes.length := by
  simp [unmask]

theorem unmask_mod (mask : Mask) (offset : Nat) (bytes : List UInt8) :
    unmask mask (offset % 4) bytes = unmask mask offset bytes := by
  simp only [unmask, Mask.at_mod]

theorem unmask_append (mask : Mask) (offset : Nat) (a b : List UInt8) :
    unmask mask offset (a ++ b) =
      unmask mask offset a ++ unmask mask (offset + a.length) b := by
  simp only [unmask, mapIdx_append, Nat.add_assoc, Nat.add_comm a.length]

theorem unmask_unmask (mask : Mask) (offset : Nat) (bytes : List UInt8) :
    unmask mask offset (unmask mask offset bytes) = bytes := by
  apply ext_getElem
  · simp
  · intro i _ _
    simp [unmask, UInt8.xor_assoc]

end Observer

/-! ## Messages -/

variable [Serde]

namespace TextMessage

/-- What the message holds: its bytes while they are few, and their projection when they are
many. -/
inductive Holds (t : TextMessage) : List UInt8 → Prop
  | small (few : t.small.length ≤ smallMessage) (projection : t.projection = none) :
      Holds t t.small
  | large {chunks : List (List UInt8)} (many : smallMessage < chunks.flatten.length)
      (projection : t.projection = some (Projection.feedAll chunks)) : Holds t chunks.flatten

variable {t : TextMessage} {payload : List UInt8}

theorem holds_empty : Holds {} [] := .small (by simp) rfl

theorem feedAll_snoc (chunks : List (List UInt8)) (bytes : List UInt8) :
    Projection.feedAll (chunks ++ [bytes]) = (Projection.feedAll chunks).feed bytes := by
  simp [Projection.feedAll]

theorem Holds.feed (holds : t.Holds payload) (bytes : List UInt8) :
    (t.feed bytes).Holds (payload ++ bytes) := by
  cases holds with
  | small few projection =>
    simp only [TextMessage.feed, projection]
    by_cases fits : t.small.length + bytes.length ≤ smallMessage
    · rw [if_pos fits]
      exact .small (t := { small := t.small ++ bytes, projection := none }) (by simpa using fits) rfl
    · rw [if_neg fits]
      have fed := Holds.large (t := { projection := some (Projection.feedAll [t.small, bytes]) })
        (by simp; omega) rfl
      simpa [Projection.feedAll] using fed
  | @large chunks many projection =>
    simp only [TextMessage.feed, projection]
    have longer : smallMessage < (chunks ++ [bytes]).flatten.length := by
      rw [flatten_append, length_append]
      omega
    have fed := Holds.large (t := { t with projection := some _ }) longer rfl
    rw [feedAll_snoc] at fed
    simpa using fed

theorem Holds.finish (holds : t.Holds payload) :
    t.finish = ({}, (delivered payload).toList) := by
  cases holds with
  | small few projection =>
    simp only [TextMessage.finish, projection, delivered, if_pos few]
  | @large chunks many projection =>
    have same : (Projection.feedAll chunks).finish =
        (Projection.feedAll [chunks.flatten]).finish := by
      rw [Projection.finish, Projection.finish, Projection.outcome_feedAll,
        Projection.outcome_feedAll]
      simp
    simp only [TextMessage.finish, projection, delivered, if_neg (not_le.mpr many), same]

end TextMessage

namespace Observer

theorem feedMasked_spec {t : TextMessage} {payload : List UInt8} (holds : t.Holds payload)
    (mask : Mask) (offset : Nat) (small : offset < 4) (bytes : List UInt8) :
    (feedMasked t mask offset bytes).1.Holds (payload ++ unmask mask offset bytes) ∧
      (feedMasked t mask offset bytes).2 = (offset + bytes.length) % 4 := by
  induction t, offset, bytes using feedMasked.induct mask generalizing payload with
  | case1 t offset =>
    rw [feedMasked]
    simp only [unmask, mapIdx_nil, append_nil, length_nil]
    exact ⟨holds, by omega⟩
  | case2 t offset b rest chunk =>
    rename_i ih
    have split : b :: rest = chunk ++ (b :: rest).drop scratch :=
      (take_append_drop scratch (b :: rest)).symm
    obtain ⟨held, position⟩ := ih (holds.feed (unmask mask offset chunk))
      (Nat.mod_lt _ (by decide))
    have whole : unmask mask offset (b :: rest) = unmask mask offset chunk ++
        unmask mask ((offset + chunk.length) % 4) ((b :: rest).drop scratch) := by
      rw [unmask_mod, ← unmask_append, ← split]
    have length : (b :: rest).length = chunk.length + ((b :: rest).drop scratch).length := by
      conv_lhs => rw [split]
      exact length_append
    rw [feedMasked]
    refine ⟨?_, ?_⟩
    · rw [whole, ← append_assoc]
      exact held
    · refine position.trans ?_
      rw [length]
      omega

end Observer

/-! ## Frames -/

section

variable {role : Role} {f : LegalFrame role} {frames : List (LegalFrame role)} {current : Current}
  {o : Observer} {trailing done left bytes later : List UInt8}

variable {offset : Nat}

omit [Serde] in
theorem LegalFrame.sent_append (offset : Nat) (a b : List UInt8) :
    f.sent offset (a ++ b) = f.sent offset a ++ f.sent (offset + a.length) b := by
  simp only [LegalFrame.sent]
  split
  · rfl
  · exact Observer.unmask_append _ _ _ _

omit [Serde] in
@[simp] theorem LegalFrame.length_sent (offset : Nat) (bytes : List UInt8) :
    (f.sent offset bytes).length = bytes.length := by
  simp only [LegalFrame.sent]
  split <;> simp

omit [Serde] in
theorem LegalFrame.code_lt : f.opcode.code.toNat < 8 ↔ f.opcode.isControl = false := by
  cases f.opcode <;> decide

/-- The bytes of the text that is under way. -/
def heldText (current : Current) : List UInt8 :=
  match current with
  | some (true, payload) => payload
  | _ => []

/-- The opcode of the message that is under way. -/
def currentCode (current : Current) : Option UInt8 :=
  current.map fun message => if message.1 then 1 else 2

/-- The message within a frame, after some bytes of its payload. -/
def during (current : Current) (f : LegalFrame role) (done : List UInt8) : Current :=
  if f.opcode.isControl then current
  else some ((entered current f).1, (entered current f).2 ++ done)

/-- The observer is between two frames, or in a header. -/
structure Between (role : Role) (o : Observer) (current : Current) : Prop where
  side : o.role = role
  closed : o.closed = false
  disabled : o.disabled = false
  frame : o.frame = none
  opcode : o.messageOpcode = currentCode current
  message : o.message.Holds (heldText current)

/-- The observer is in a payload. -/
structure Inside (o : Observer) (current : Current) (f : LegalFrame role)
    (done left : List UInt8) (offset : Nat) : Prop where
  side : o.role = role
  closed : o.closed = false
  disabled : o.disabled = false
  header : o.header = []
  frame : o.frame = some (f.payloadState left.length offset)
  small : offset < 4
  masked : f.mask ≠ none → f.opcode.isControl = false → (entered current f).1 = true →
    offset = done.length % 4
  split : f.payload = done ++ left
  opcode : o.messageOpcode = currentCode (during current f done)
  message : o.message.Holds (heldText (during current f done))

omit [Serde] in
theorem currentCode_during (done more : List UInt8) :
    currentCode (during current f done) = currentCode (during current f more) := by
  simp only [during]
  split <;> rfl

theorem Inside.is_text (inside : Inside o current f done left offset) :
    (o.messageOpcode = some 1 ∧ f.opcode.code.toNat < 8) ↔
      f.opcode.isControl = false ∧ (entered current f).1 = true := by
  rw [LegalFrame.code_lt, inside.opcode]
  cases control : f.opcode.isControl
  · simp only [during, control, currentCode, Bool.false_eq_true, if_false, map_some]
    cases (entered current f).1 <;> simp
  · simp

theorem Inside.absorb (inside : Inside o current f done left offset) (remaining : Nat)
    (part : List UInt8) :
    let absorbed := o.absorb (f.payloadState remaining offset) (f.sent done.length part)
    absorbed.1.Holds (heldText (during current f (done ++ part))) ∧ absorbed.2 < 4 ∧
      (f.mask ≠ none → f.opcode.isControl = false → (entered current f).1 = true →
        absorbed.2 = (done ++ part).length % 4) := by
  have message := inside.message
  by_cases text : f.opcode.isControl = false ∧ (entered current f).1 = true
  · have reads : o.messageOpcode = some 1 ∧ f.opcode.code.toNat < 8 := inside.is_text.mpr text
    have held : ∀ more, heldText (during current f more) = (entered current f).2 ++ more := by
      intro more
      simp [during, heldText, text.1, text.2]
    rw [held] at message
    rw [held, ← append_assoc]
    have text_ : o.messageOpcode = some 1 ∧ (f.payloadState remaining offset).opcode.toNat < 8 :=
      reads
    have absorbs : ∀ bytes, o.absorb (f.payloadState remaining offset) bytes =
        f.mask.elim (o.message.feed bytes, offset)
          fun mask => Observer.feedMasked o.message mask offset bytes := by
      intro bytes
      rw [Observer.absorb, if_pos text_]
      cases masked : f.mask <;> simp [LegalFrame.payloadState, masked]
    simp only [absorbs, LegalFrame.sent]
    cases masked : f.mask with
    | none => exact ⟨message.feed part, inside.small, by simp⟩
    | some mask =>
      have position := inside.masked (by simp [masked]) text.1 text.2
      obtain ⟨fed, after⟩ := Observer.feedMasked_spec message mask offset inside.small
        (Observer.unmask mask done.length part)
      simp only [elim_some]
      rw [position, Observer.unmask_mod, Observer.unmask_unmask] at fed
      rw [position, Observer.length_unmask] at after
      rw [position]
      refine ⟨fed, by rw [after]; omega, fun _ _ _ => ?_⟩
      rw [after, length_append]
      omega
  · have skips : ¬ (o.messageOpcode = some 1 ∧ f.opcode.code.toNat < 8) :=
      fun reads => text (inside.is_text.mp reads)
    have held : heldText (during current f (done ++ part)) = heldText (during current f done) := by
      cases control : f.opcode.isControl
      · have other : (entered current f).1 = false := by simpa [control] using text
        simp [during, heldText, control, other]
      · simp [during, control]
    have absorbs : ∀ bytes, o.absorb (f.payloadState remaining offset) bytes =
        (o.message, offset) := fun bytes => if_neg skips
    rw [held]
    simp only [absorbs]
    exact ⟨message, inside.small, fun _ control is_text => absurd ⟨control, is_text⟩ text⟩

theorem Inside.more {part more : List UInt8}
    (inside : Inside o current f done (part ++ more) offset) :
    let frame := f.payloadState (part ++ more).length offset
    let absorbed := o.absorb frame (f.sent done.length part)
    Inside { o with
      message := absorbed.1
      frame := some { frame with
        remaining := frame.remaining - (f.sent done.length part).length
        offset := absorbed.2 } } current f (done ++ part) more absorbed.2 := by
  obtain ⟨holds, small, masked⟩ := inside.absorb (part ++ more).length part
  have count : (part ++ more).length - part.length = more.length := by simp
  exact {
    side := inside.side
    closed := inside.closed
    disabled := inside.disabled
    header := inside.header
    frame := by simp only [LegalFrame.payloadState, LegalFrame.length_sent, count]
    small
    masked
    split := by rw [inside.split, append_assoc]
    opcode := inside.opcode.trans (currentCode_during _ _)
    message := holds }

/-- What the callback is to see of the frames. -/
def callbacks (current : Current) (frames : List (LegalFrame role)) : List Callback :=
  (texts current frames).filterMap delivered

/-- Where the observer is in a stream, and what the callback is to see of the rest. -/
inductive Awaits (role : Role) (o : Observer) : List UInt8 → List Callback → Prop
  | header {current : Current} {frames : List (LegalFrame role)} {trailing rest : List UInt8}
      (between : Between role o current) (legal : Legal trailing current.isSome frames)
      (wire : o.header ++ rest = frames.flatMap LegalFrame.wire ++ trailing)
      (missing : ∀ f ∈ frames.head?, o.header.length < f.header.length) :
      Awaits role o rest (callbacks current frames)
  | payload {current : Current} {f : LegalFrame role} {frames : List (LegalFrame role)}
      {trailing done left : List UInt8} {offset : Nat}
      (inside : Inside o current f done left offset) (some_ : left ≠ [])
      (legal : Legal trailing current.isSome (f :: frames)) :
      Awaits role o
        (f.sent done.length left ++ (frames.flatMap LegalFrame.wire ++ trailing))
        (callbacks current (f :: frames))

/-- How a round ends: with all bytes read, in the same place of the stream; or with some bytes
left, after what the callback was to see of the others. -/
inductive Continues (role : Role) (later : List UInt8) (calls : List Callback) :
    Observer.Round → Prop
  | done {o : Observer} (awaits : Awaits role o later calls) : Continues role later calls (.done o)
  | closed {o : Observer} (closed : o.closed = true) (none_ : calls = []) :
      Continues role later calls (.done o)
  | next {o : Observer} {bytes : List UInt8} {now rest : List Callback} (split : calls = now ++ rest)
      (awaits : Awaits role o (bytes ++ later) rest) :
      Continues role later calls (.next o bytes now)

omit [Serde] in
theorem entered_during {payload : List UInt8} (data : f.opcode.isControl = false) :
    during current f payload = some ((entered current f).1, (entered current f).2 ++ payload) := by
  simp [during, data]

theorem endPayload_spec (inside : Inside o current f done left offset)
    (legal : Legal trailing current.isSome (f :: frames)) {message : TextMessage}
    (holds : message.Holds (heldText (during current f f.payload)))
    (wire : bytes ++ later = frames.flatMap LegalFrame.wire ++ trailing) :
    Continues role later (callbacks current (f :: frames))
      (({ o with message, frame := none } : Observer).endPayload
        (f.payloadState left.length offset) bytes) := by
  have first : ∀ g ∈ frames.head?, o.header.length < g.header.length := by
    intro g _
    simp [inside.header, LegalFrame.header]
  have rest : o.header ++ (bytes ++ later) = frames.flatMap LegalFrame.wire ++ trailing := by
    rw [inside.header, nil_append, wire]
  -- A close frame ends the observation; nothing after it is read.
  by_cases close : f.opcode = .close
  · have code : f.opcode.code = 8 := by rw [close]; rfl
    simp only [Observer.endPayload, LegalFrame.payloadState, if_pos code]
    exact .closed rfl (by simp [callbacks, texts, close])
  have other : f.opcode.code ≠ 8 := by
    cases opcode : f.opcode <;> simp_all [Opcode.code]
  simp only [Legal, if_neg close] at legal
  simp only [Observer.endPayload, LegalFrame.payloadState, if_neg other, LegalFrame.code_lt]
  cases control : f.opcode.isControl with
  -- A control frame may stand between two fragments and leaves the message alone.
  | true =>
    rw [control, if_pos rfl] at legal
    simp only [during, control, if_true] at holds
    have opcode := inside.opcode
    simp only [during, control, if_true] at opcode
    have same : callbacks current (f :: frames) = callbacks current frames := by
      simp only [callbacks, texts, if_neg close, control, if_true]
    rw [same]
    simp only [Bool.true_eq_false, false_and, if_false]
    have between : Between role { o with message, frame := none } current :=
      ⟨inside.side, inside.closed, inside.disabled, rfl, opcode, holds⟩
    exact .next rfl (.header between legal rest first)
  -- The payload of a data frame is held as part of the message it belongs to.
  | false =>
    rw [control, if_neg (by decide)] at legal
    rw [entered_during control] at holds
    have opcode := inside.opcode
    rw [entered_during control] at opcode
    cases fin : f.fin with
    | false =>
      have same : callbacks current (f :: frames) =
          callbacks (some ((entered current f).1, (entered current f).2 ++ f.payload)) frames := by
        simp [callbacks, texts, close, control, fin]
      rw [same]
      simp only [Bool.false_eq_true, and_false, if_false]
      have between : Between role { o with message, frame := none }
          (some ((entered current f).1, (entered current f).2 ++ f.payload)) :=
        ⟨inside.side, inside.closed, inside.disabled, rfl, opcode, holds⟩
      have later_ := legal.2
      rw [fin] at later_
      exact .next rfl (.header between later_ rest first)
    | true =>
      have later_ := legal.2
      rw [fin] at later_
      simp only [and_self, if_true]
      cases text : (entered current f).1 with
      | true =>
        have code : o.messageOpcode = some 1 := by simp [opcode, currentCode, text]
        rw [text] at holds
        have finishes := TextMessage.Holds.finish holds
        simp only [code, if_true, finishes, heldText]
        have between : Between role
            { o with message := {}, frame := none, messageOpcode := none } none :=
          ⟨inside.side, inside.closed, inside.disabled, rfl, rfl, TextMessage.holds_empty⟩
        refine .next ?_ (.header between later_ rest first)
        cases kept : delivered ((entered current f).2 ++ f.payload) <;>
          simp [callbacks, texts, close, control, fin, text, kept]
      | false =>
        have code : o.messageOpcode ≠ some 1 := by simp [opcode, currentCode, text]
        rw [text] at holds
        simp only [if_neg code]
        have between : Between role { o with message, frame := none, messageOpcode := none } none :=
          ⟨inside.side, inside.closed, inside.disabled, rfl, rfl, holds⟩
        refine .next ?_ (.header between later_ rest first)
        simp [callbacks, texts, close, control, fin, text]

theorem takePayload_spec (inside : Inside o current f done left offset)
    (legal : Legal trailing current.isSome (f :: frames))
    (wire : bytes ++ later = f.sent done.length left ++ (frames.flatMap LegalFrame.wire ++ trailing)) :
    Continues role later (callbacks current (f :: frames))
      (o.takePayload (f.payloadState left.length offset) bytes) := by
  by_cases short : bytes.length < left.length
  · -- the payload goes on in the next chunk
    rw [Observer.takePayload_short short]
    have split : left = left.take bytes.length ++ left.drop bytes.length :=
      (take_append_drop _ _).symm
    have size : (left.take bytes.length).length = bytes.length := by
      rw [length_take]
      omega
    generalize left.take bytes.length = part at split size
    generalize left.drop bytes.length = more at split
    subst split
    rw [LegalFrame.sent_append, append_assoc] at wire
    obtain ⟨rfl, rfl⟩ := append_inj wire (by simp [size])
    have some_ : more ≠ [] := by
      rintro rfl
      simp at short
    refine .done ?_
    rw [show done.length + part.length = (done ++ part).length by simp]
    exact .payload inside.more some_ legal
  · rw [Observer.takePayload_long short]
    have split : bytes = bytes.take left.length ++ bytes.drop left.length :=
      (take_append_drop _ _).symm
    have size : (bytes.take left.length).length = left.length := by
      rw [length_take]
      omega
    have whole : bytes.take left.length ++ (bytes.drop left.length ++ later) =
        f.sent done.length left ++ (frames.flatMap LegalFrame.wire ++ trailing) := by
      rw [← wire, ← append_assoc, ← split]
    obtain ⟨now, rest⟩ := append_inj whole (by simp [size])
    obtain ⟨holds, -⟩ := inside.absorb left.length left
    rw [← inside.split, ← now] at holds
    exact endPayload_spec inside legal holds rest

omit [Serde] in
theorem continues_of_legal (legal : Legal trailing current.isSome (f :: frames)) :
    f.Continues (currentCode current).isSome := by
  simp only [LegalFrame.Continues, currentCode, isSome_map]
  by_cases close : f.opcode = .close
  · exact .inl (by rw [close]; rfl)
  simp only [Legal, if_neg close] at legal
  cases control : f.opcode.isControl with
  | true => exact .inl rfl
  | false =>
    rw [control, if_neg (by decide)] at legal
    exact .inr legal.1

theorem Between.enter {payload : Payload} (between : Between role o current)
    (legal : Legal trailing current.isSome (f :: frames))
    (frame : payload = f.payloadState f.payload.length 0) :
    Inside { o with
      header := []
      frame := some payload
      messageOpcode := f.messageOpcode o.messageOpcode } current f [] f.payload 0 := by
  have continues := continues_of_legal legal
  have opcode := between.opcode
  have message := between.message
  have known : f.messageOpcode o.messageOpcode = currentCode (during current f []) ∧
      heldText (during current f []) = heldText current := by
    rw [opcode]
    simp only [LegalFrame.Continues, currentCode, isSome_map] at continues
    cases code : f.opcode with
    | continuation =>
      have some_ : current.isSome = true := by simpa [code, Opcode.isControl] using continues
      obtain ⟨⟨text, payload⟩, rfl⟩ := isSome_iff_exists.mp some_
      simp [LegalFrame.messageOpcode, during, entered, code, Opcode.isControl, currentCode]
    | text =>
      have none_ : current = none := by simpa [code, Opcode.isControl] using continues
      simp [LegalFrame.messageOpcode, during, entered, code, Opcode.isControl, currentCode, none_,
        heldText, Opcode.code]
    | binary =>
      have none_ : current = none := by simpa [code, Opcode.isControl] using continues
      simp [LegalFrame.messageOpcode, during, entered, code, Opcode.isControl, currentCode, none_,
        heldText, Opcode.code]
    | close | ping | pong =>
      simp [LegalFrame.messageOpcode, during, code, Opcode.isControl]
  exact {
    side := between.side
    closed := between.closed
    disabled := between.disabled
    header := rfl
    frame := by rw [frame]
    small := by decide
    masked := by simp
    split := rfl
    opcode := known.1
    message := by rw [known.2]; exact message }

theorem round_spec {calls : List Callback} (awaits : Awaits role o (bytes ++ later) calls)
    (some_ : bytes ≠ []) : Continues role later calls (o.round bytes) := by
  generalize whole : bytes ++ later = wire at awaits
  cases awaits with
  | @header current frames trailing _ between legal stream missing =>
    subst whole
    cases frames with
    | nil =>
      simp only [Legal] at legal
      subst legal
      simp [some_] at stream
    | cons f frames =>
      have short := missing f rfl
      have split : o.header ++ bytes ++ later =
          f.header ++ (f.sent 0 f.payload ++ (frames.flatMap LegalFrame.wire ++ trailing)) := by
        rw [append_assoc, stream]
        simp [LegalFrame.wire]
      obtain ⟨partial_, reads⟩ | ⟨rest, complete, reads⟩ := f.readHeader_spec split short
      · rw [Observer.round_partial between.frame reads]
        have still : Between role { o with header := o.header ++ bytes } current :=
          ⟨between.side, between.closed, between.disabled, between.frame, between.opcode,
            between.message⟩
        refine .done (.header still legal ?_ ?_)
        · rw [split]
          simp [LegalFrame.wire]
        · intro g first
          cases first
          exact partial_
      · have begins := f.beginFrame_spec (o := { o with header := f.header }) rfl between.side
          (by rw [between.opcode]; exact continues_of_legal legal)
        rw [Observer.round_complete between.frame reads begins rfl]
        refine takePayload_spec (between.enter legal rfl) legal ?_
        rw [complete, append_assoc] at split
        exact append_cancel_left split
  | @payload current f frames trailing done left offset inside left_ legal =>
    simp only [Observer.round, inside.frame]
    exact takePayload_spec inside legal whole

theorem decode_spec {calls : List Callback} (awaits : Awaits role o (bytes ++ later) calls) :
    ∃ o' now rest, o.decode bytes = (o', now, none) ∧ calls = now ++ rest ∧
      (Awaits role o' later rest ∨ o'.closed = true ∧ rest = []) := by
  induction size : o.work bytes using Nat.strongRecOn generalizing o bytes calls with
  | ind n ih =>
  subst size
  by_cases some_ : bytes = []
  · subst some_
    have idle : o.pending [] = false := by
      cases awaits with
      | header between => simp [Observer.pending, between.frame]
      | payload inside left_ =>
        simp [Observer.pending, inside.frame, LegalFrame.payloadState, left_]
    refine ⟨o, [], calls, ?_, rfl, .inl awaits⟩
    rw [Observer.decode, if_neg (by simp [idle])]
  · have busy : o.pending bytes = true := by simp [Observer.pending, some_]
    have continues := round_spec awaits some_
    rw [Observer.decode, if_pos busy]
    split
    · rename_i failed
      rw [failed] at continues
      cases continues
    · rename_i o' ends
      rw [ends] at continues
      refine ⟨o', [], calls, rfl, rfl, ?_⟩
      cases continues with
      | done awaits => exact .inl awaits
      | closed closed none_ => exact .inr ⟨closed, none_⟩
    · rename_i o' bytes' texts goes
      rw [goes] at continues
      cases continues with
      | @next _ _ _ rest split awaits =>
        obtain ⟨o₂, now, later', decodes, split', ends⟩ :=
          ih _ (Observer.round_work goes) awaits rfl
        refine ⟨o₂, texts ++ now, later', ?_, ?_, ends⟩
        · simp only [decodes]
        · rw [split, split', append_assoc]

end

end Agentix.Wire
