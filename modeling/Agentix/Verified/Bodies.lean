import Agentix.Codex.ProxyHttp

/-! # Bodies are forwarded byte for byte

The grammar of a chunked body, with its limits.  The copy succeeds on the streams that start with
one, writes the body and leaves the rest; where it fails it has written what the stream starts with.
-/

namespace Agentix.Codex.ProxyHttp

open Lib Lib.Streams List

/-! ## The grammar -/

def IsLine (bytes : Bytes) : Prop :=
  bytes.length ≤ 8192 ∧ ∃ text, bytes = text ++ lineEnd ∧ lineFeed ∉ text

/-- The line of a chunk: its size in hexadecimal digits, and perhaps an extension. -/
def SizeLine (header : Bytes) (size : Nat) : Prop :=
  IsLine header ∧ ∃ digits extension, header = digits ++ extension ++ lineEnd ∧ digits ≠ [] ∧
    (∀ c ∈ digits, (hexDigit? c).isSome) ∧ (extension = [] ∨ ∃ text, extension = 59 :: text ∧ Utf8 text) ∧
    hexValue digits = size ∧ size < 2 ^ 64

def IsChunk (bytes : Bytes) : Prop :=
  ∃ header data, SizeLine header data.length ∧ data ≠ [] ∧ bytes = header ++ data ++ lineEnd

/-- The trailers and the empty line behind them, after `total` bytes of them. -/
def IsTrailers (total : Nat) (bytes : Bytes) : Prop :=
  ∃ lines : List Bytes, (∀ trailer ∈ lines, IsLine trailer ∧ trailer ≠ lineEnd) ∧
    bytes = lines.flatten ++ lineEnd ∧ total + bytes.length ≤ 65536

def ChunkedBody (bytes : Bytes) : Prop :=
  ∃ (chunks : List Bytes) (header tail : Bytes), (∀ chunk ∈ chunks, IsChunk chunk) ∧ SizeLine header 0 ∧
    IsTrailers 0 tail ∧ bytes = chunks.flatten ++ (header ++ tail)

/-! ## Lines -/

section Lines

variable {reader after : Reader UInt8} {bytes rest : Bytes}

theorem IsLine.ne_nil (isLine : IsLine bytes) : bytes ≠ [] := by
  obtain ⟨-, text, rfl, -⟩ := isLine
  simp [lineEnd]

theorem isLine_lineEnd : IsLine lineEnd :=
  ⟨by decide, [], rfl, not_mem_nil⟩

theorem line_spec (done : line reader = .ok (bytes, after)) :
    IsLine bytes ∧ reader.stream = bytes ++ after.stream := by
  cases taken : Reader.readUntil lineFeed 8193 reader.buffer reader.incoming with
  | mk copied next =>
    simp only [line, taken, bind_ok, ensure_ok, pure_ok] at done
    obtain ⟨⟨⟩, ⟨short, text, whole⟩, same⟩ := done
    cases same
    obtain ⟨parts, upTo⟩ := Reader.readUntil_spec taken
    have cut : bytes = (text ++ [13]) ++ [lineFeed] := by simp [← whole, lineEnd, lineFeed]
    refine ⟨⟨short, text, whole.symm, ?_⟩, parts⟩
    obtain ⟨early, same, clear, -⟩ | ⟨missing, -⟩ := upTo
    · rw [cut] at same
      rw [← append_cancel_right same] at clear
      exact fun mem => clear (mem_append_left _ mem)
    · rw [cut] at missing
      exact absurd (mem_append_right _ mem_cons_self) missing

theorem line_of_stream (isLine : IsLine bytes) (stream : reader.stream = bytes ++ rest) :
    ∃ after, line reader = .ok (bytes, after) ∧ after.stream = rest := by
  obtain ⟨short, text, rfl, clear⟩ := isLine
  have cut : text ++ lineEnd = (text ++ [13]) ++ [lineFeed] := by simp [lineEnd, lineFeed]
  have clear' : lineFeed ∉ text ++ [13] := by
    simp only [mem_append, clear, mem_singleton, false_or]
    decide
  have within : (text ++ [13]).length < 8193 := by
    simp only [cut, length_append, length_singleton] at short ⊢
    omega
  rw [cut, append_assoc, singleton_append] at stream
  obtain ⟨after, taken, left⟩ := Reader.readUntil_of_stream clear' within stream
  refine ⟨after, ?_, left⟩
  simp only [line, taken, bind_ok, ensure_ok, pure_ok]
  exact ⟨⟨⟩, ⟨cut ▸ short, text, cut⟩, by rw [cut]⟩

end Lines

/-! ## Chunks -/

theorem ascii_of_hexDigit {c : UInt8} (digit : (hexDigit? c).isSome) : c.toNat < 0x80 ∧ c ≠ 59 := by
  have bounds : c.toNat < 0x80 ∧ c.toNat ≠ 59 := by
    simp only [hexDigit?] at digit
    split at digit
    · omega
    split at digit
    · omega
    split at digit
    · omega
    · cases digit
  exact ⟨bounds.1, fun same => bounds.2 (by rw [same]; rfl)⟩

section Headers

variable {reader after : Reader UInt8} {header text rest : Bytes} {size : Nat}

theorem chunkSize_eq_ok : chunkSize (text ++ lineEnd) = .ok size ↔ ∃ digits extension,
    text = digits ++ extension ∧ digits ≠ [] ∧ (∀ c ∈ digits, (hexDigit? c).isSome) ∧
      (extension = [] ∨ ∃ named, extension = 59 :: named ∧ Utf8 named) ∧
      hexValue digits = size ∧ size < 2 ^ 64 := by
  have cut : (text ++ lineEnd).take ((text ++ lineEnd).length - 2) = text := by
    simp [lineEnd]
  have semicolon : ∀ byte ∈ [(59 : UInt8)], byte.toNat < 0x80 :=
    forall_mem_singleton.mpr (by decide)
  simp only [chunkSize, cut, bind_ok, ensure_ok, pure_ok]
  constructor
  · rintro ⟨⟨⟩, valid, ⟨⟩, ⟨some, digits⟩, ⟨⟩, small, rfl⟩
    have each : ∀ c ∈ text.takeWhile (· != 59), (hexDigit? c).isSome := all_eq_true.mp digits
    refine ⟨_, text.dropWhile (· != 59), takeWhile_append_dropWhile.symm, some, each, ?_, rfl, small⟩
    cases named : text.dropWhile (· != 59) with
    | nil => exact .inl rfl
    | cons c named' =>
      have first : c = 59 := by
        have stop := head?_dropWhile_not (· != 59) text
        simpa [named] using stop
      subst first
      rw [← takeWhile_append_dropWhile (p := (· != 59)) (l := text), named] at valid
      have tail := (utf8_ascii_append fun c mem => (ascii_of_hexDigit (each c mem)).1).mp valid
      exact .inr ⟨named', rfl, (utf8_ascii_append semicolon).mp tail⟩
  · rintro ⟨digits, extension, rfl, some, each, named, rfl, small⟩
    have first : (digits ++ extension).takeWhile (· != 59) = digits := by
      rw [takeWhile_append_of_pos fun c mem => by
        simpa using (ascii_of_hexDigit (each c mem)).2]
      obtain rfl | ⟨name, rfl, -⟩ := named
      · exact append_nil _
      · exact append_nil _
    have valid : Utf8 (digits ++ extension) := by
      apply (utf8_ascii_append fun c mem => (ascii_of_hexDigit (each c mem)).1).mpr
      obtain rfl | ⟨name, rfl, valid⟩ := named
      · exact ⟨[], rfl⟩
      · exact (utf8_ascii_append semicolon).mpr valid
    rw [first]
    exact ⟨⟨⟩, valid, ⟨⟩, ⟨some, all_eq_true.mpr each⟩, ⟨⟩, small, rfl⟩

theorem chunkHeader_spec (done : chunkHeader reader = .ok (header, size, after)) :
    SizeLine header size ∧ reader.stream = header ++ after.stream := by
  simp only [chunkHeader, bind_ok, pure_ok] at done
  obtain ⟨⟨header, next⟩, taken, size, found, same⟩ := done
  cases same
  obtain ⟨isLine, parts⟩ := line_spec taken
  refine ⟨⟨isLine, ?_⟩, parts⟩
  obtain ⟨-, text, rfl, -⟩ := isLine
  obtain ⟨digits, extension, rfl, rest⟩ := chunkSize_eq_ok.mp found
  exact ⟨digits, extension, rfl, rest⟩

theorem chunkHeader_of_stream (sizeLine : SizeLine header size) (stream : reader.stream = header ++ rest) :
    ∃ after, chunkHeader reader = .ok (header, size, after) ∧ after.stream = rest := by
  obtain ⟨isLine, digits, extension, rfl, parts⟩ := sizeLine
  obtain ⟨after, taken, left⟩ := line_of_stream isLine stream
  refine ⟨after, ?_, left⟩
  simp only [chunkHeader, taken, bind_ok, pure_ok]
  exact ⟨_, rfl, size, chunkSize_eq_ok.mpr ⟨digits, extension, rfl, parts⟩, rfl⟩

end Headers

section Data

variable {reader after : Reader UInt8} {data rest copied : Bytes} {n : Nat}

theorem exact_spec (done : exact reader n = (copied, .ok after)) :
    copied.length = n ∧ reader.stream = copied ++ after.stream := by
  cases taken : Reader.read n reader.buffer reader.incoming with
  | mk found next =>
    obtain ⟨first, left⟩ := Reader.read_spec taken
    simp only [exact, taken, Prod.mk.injEq] at done
    obtain ⟨rfl, done⟩ := done
    split at done
    · rename_i length
      cases done
      exact ⟨length, by rw [first, left, take_append_drop]⟩
    · cases done

theorem exact_prefix (done : (exact reader n).1 = copied) : copied <+: reader.stream := by
  cases taken : Reader.read n reader.buffer reader.incoming with
  | mk found next =>
    obtain ⟨first, -⟩ := Reader.read_spec taken
    simp only [exact, taken] at done
    rw [← done, first]
    exact take_prefix _ _

theorem read_of_stream (stream : reader.stream = data ++ rest) :
    ∃ after, Reader.read data.length reader.buffer reader.incoming = (data, after) ∧
      after.stream = rest := by
  cases taken : Reader.read data.length reader.buffer reader.incoming with
  | mk found next =>
    obtain ⟨first, left⟩ := Reader.read_spec taken
    rw [stream, take_left] at first
    rw [stream, drop_left] at left
    exact ⟨next, by rw [first], left⟩

theorem exact_of_stream (stream : reader.stream = data ++ rest) :
    ∃ after, exact reader data.length = (data, .ok after) ∧ after.stream = rest := by
  obtain ⟨after, taken, left⟩ := read_of_stream stream
  refine ⟨after, ?_, left⟩
  simp [exact, taken]

end Data

/-! ## Copies -/

/-- A copy goes on from what is written: it succeeds behind a part of the grammar, or fails behind
something that the stream starts with. -/
def Forwards (grammar : Bytes → Prop) (written : Bytes) (reader : Reader UInt8)
    (result : Option (Bytes × Fallible (Reader UInt8))) : Prop :=
  ∃ part, (∃ after, result = .some (written ++ part, .ok after) ∧ grammar part ∧
      reader.stream = part ++ after.stream) ∨
    ∃ message, result = .some (written ++ part, .error message) ∧ part <+: reader.stream

section Copies

variable {grammar grammar' : Bytes → Prop} {written part : Bytes} {reader next : Reader UInt8}
  {result : Option (Bytes × Fallible (Reader UInt8))} {message : String}

theorem Forwards.fails (stream : part <+: reader.stream) :
    Forwards grammar written reader (.some (written ++ part, .error message)) :=
  ⟨part, .inr ⟨message, rfl, stream⟩⟩

theorem Forwards.fails_here :
    Forwards grammar written reader (.some (written, .error message)) :=
  ⟨[], .inr ⟨message, by rw [append_nil], nil_prefix⟩⟩

theorem Forwards.append (forwards : Forwards grammar (written ++ part) next result)
    (stream : reader.stream = part ++ next.stream)
    (grows : ∀ tail, grammar tail → grammar' (part ++ tail)) :
    Forwards grammar' written reader result := by
  obtain ⟨tail, ⟨after, rfl, accepted, left⟩ | ⟨message, rfl, ⟨more, left⟩⟩⟩ := forwards
  · refine ⟨part ++ tail, .inl ⟨after, by rw [append_assoc], grows tail accepted, ?_⟩⟩
    rw [stream, left, append_assoc]
  · refine ⟨part ++ tail, .inr ⟨message, by rw [append_assoc], more, ?_⟩⟩
    rw [stream, ← left, append_assoc]

end Copies

/-! ## Trailers -/

section Trailers

variable {reader : Reader UInt8} {tail rest : Bytes} {rounds total : Nat}

theorem trailers_forwards (written : Bytes) (total : Nat) (enough : reader.stream.length < rounds) :
    Forwards (IsTrailers total) written reader (trailers total written rounds reader) := by
  induction rounds generalizing reader written total with
  | zero => omega
  | succ rounds ih =>
    rw [trailers]
    cases taken : line reader with
    | error message => exact .fails_here
    | ok found =>
      obtain ⟨trailer, next⟩ := found
      obtain ⟨isLine, stream⟩ := line_spec taken
      have positive := length_pos_iff.mpr isLine.ne_nil
      have shorter : next.stream.length < rounds := by
        rw [stream, length_append] at enough
        omega
      by_cases within : total + trailer.length ≤ 65536
      · simp only [if_pos within]
        by_cases last : trailer = lineEnd
        · rw [if_pos last]
          refine ⟨trailer, .inl ⟨next, rfl, ⟨[], by simp, last, within⟩, stream⟩⟩
        · rw [if_neg last]
          refine (ih (written ++ trailer) (total + trailer.length) shorter).append
            stream fun tail grammar => ?_
          obtain ⟨lines, each, rfl, short⟩ := grammar
          refine ⟨trailer :: lines, forall_mem_cons.mpr ⟨⟨isLine, last⟩, each⟩, ?_, ?_⟩
          · rw [flatten_cons, append_assoc]
          · rw [length_append]
            omega
      · simp only [if_neg within]
        exact .fails_here

theorem trailers_of_stream (written : Bytes) (enough : reader.stream.length < rounds)
    (isTrailers : IsTrailers total tail) (stream : reader.stream = tail ++ rest) :
    ∃ after, trailers total written rounds reader = .some (written ++ tail, .ok after) ∧
      after.stream = rest := by
  obtain ⟨lines, each, rfl, short⟩ := isTrailers
  induction lines generalizing reader written total rounds with
  | nil =>
    obtain ⟨after, taken, left⟩ := line_of_stream isLine_lineEnd stream
    cases rounds with
    | zero => omega
    | succ rounds =>
      have within : total + lineEnd.length ≤ 65536 := short
      refine ⟨after, ?_, left⟩
      rw [trailers, taken]
      simp only [if_pos within]
      rfl
  | cons trailer lines ih =>
    rw [forall_mem_cons] at each
    obtain ⟨⟨isLine, ne⟩, each⟩ := each
    have parts : reader.stream = trailer ++ (lines.flatten ++ lineEnd ++ rest) := by
      rw [stream, flatten_cons]
      simp only [append_assoc]
    obtain ⟨next, taken, left⟩ := line_of_stream isLine parts
    rw [parts, ← left, length_append] at enough
    rw [flatten_cons, append_assoc, length_append] at short
    cases rounds with
    | zero => omega
    | succ rounds =>
      have positive := length_pos_iff.mpr isLine.ne_nil
      obtain ⟨after, done, rest⟩ := ih (written ++ trailer)
        (show next.stream.length < rounds by omega) each left
        (show total + trailer.length + _ ≤ 65536 by omega)
      refine ⟨after, ?_, rest⟩
      rw [trailers, taken]
      simp only [if_pos (show total + trailer.length ≤ 65536 by omega), if_neg ne, done]
      simp only [flatten_cons, append_assoc]

end Trailers

/-! ## Bodies -/

theorem ChunkedBody.cons {chunk body : Bytes} (grammar : ChunkedBody body) (isChunk : IsChunk chunk) :
    ChunkedBody (chunk ++ body) := by
  obtain ⟨chunks, header, tail, each, sizeLine, isTrailers, rfl⟩ := grammar
  exact ⟨chunk :: chunks, header, tail, forall_mem_cons.mpr ⟨isChunk, each⟩, sizeLine, isTrailers,
    by rw [flatten_cons, append_assoc]⟩

section Bodies

variable {reader : Reader UInt8} {body rest : Bytes} {rounds : Nat}

theorem chunksFrom_forwards (written : Bytes) (enough : reader.stream.length < rounds) :
    Forwards ChunkedBody written reader (chunksFrom written rounds reader) := by
  induction rounds generalizing reader written with
  | zero => omega
  | succ rounds ih =>
    rw [chunksFrom]
    cases headed : chunkHeader reader with
    | error message => exact .fails_here
    | ok found =>
      obtain ⟨header, size, next⟩ := found
      obtain ⟨sizeLine, stream⟩ := chunkHeader_spec headed
      have positive := length_pos_iff.mpr sizeLine.1.ne_nil
      have shorter : next.stream.length < rounds := by
        rw [stream, length_append] at enough
        omega
      by_cases last : size = 0
      · subst last
        simp only [↓reduceIte]
        exact (trailers_forwards (written ++ header) 0 shorter).append stream
          fun tail trailers => ⟨[], header, tail, by simp, sizeLine, trailers, rfl⟩
      · simp only [if_neg last]
        cases copying : exact next size with
        | mk data answer =>
          have started : header ++ data <+: reader.stream := by
            rw [stream, prefix_append_right_inj]
            exact exact_prefix (congrArg Prod.fst copying)
          cases answer with
          | error message =>
            simp only [append_assoc]
            exact .fails started
          | ok after =>
            obtain ⟨length, left⟩ := exact_spec copying
            cases ended : Reader.read 2 after.buffer after.incoming with
            | mk ending final =>
              obtain ⟨first, left'⟩ := Reader.read_spec ended
              simp only [ended, append_assoc]
              by_cases short : ending.length < 2
              · rw [if_pos short]
                exact .fails started
              · rw [if_neg short]
                by_cases terminates : ending = lineEnd
                · have whole : reader.stream = (header ++ (data ++ ending)) ++ final.stream := by
                    rw [stream, left, first, left']
                    simp only [append_assoc, take_append_drop]
                  have shorter' : final.stream.length < rounds := by
                    rw [whole, length_append, length_append] at enough
                    omega
                  rw [if_pos terminates]
                  refine (ih _ shorter').append whole fun body grammar => ?_
                  have some : data ≠ [] := by
                    rintro rfl
                    exact last length.symm
                  subst terminates
                  exact grammar.cons ⟨header, data, length ▸ sizeLine, some, (append_assoc ..).symm⟩
                · rw [if_neg terminates]
                  exact .fails started

theorem chunksFrom_of_stream (written : Bytes) (enough : reader.stream.length < rounds)
    (grammar : ChunkedBody body) (stream : reader.stream = body ++ rest) :
    ∃ after, chunksFrom written rounds reader = .some (written ++ body, .ok after) ∧
      after.stream = rest := by
  obtain ⟨chunks, header, tail, each, sizeLine, isTrailers, rfl⟩ := grammar
  induction chunks generalizing reader written rounds with
  | nil =>
    rw [flatten_nil, nil_append, append_assoc] at stream
    obtain ⟨next, headed, left⟩ := chunkHeader_of_stream sizeLine stream
    have positive := length_pos_iff.mpr sizeLine.1.ne_nil
    rw [stream, length_append, ← left] at enough
    cases rounds with
    | zero => omega
    | succ rounds =>
      obtain ⟨after, done, rest⟩ := trailers_of_stream (written ++ header)
        (show next.stream.length < rounds by omega) isTrailers left
      refine ⟨after, ?_, rest⟩
      rw [chunksFrom, headed]
      simp only [↓reduceIte, done]
      simp only [flatten_nil, nil_append, append_assoc]
  | cons chunk chunks ih =>
    rw [forall_mem_cons] at each
    obtain ⟨⟨opening, data, sized, nonempty, rfl⟩, each⟩ := each
    have parts : reader.stream =
        opening ++ (data ++ (lineEnd ++ (chunks.flatten ++ (header ++ tail) ++ rest))) := by
      rw [stream, flatten_cons]
      simp only [append_assoc]
    obtain ⟨next, headed, left⟩ := chunkHeader_of_stream sized parts
    obtain ⟨behind, copied, left'⟩ := exact_of_stream left
    obtain ⟨final, ended, left''⟩ := read_of_stream left'
    have positive := length_pos_iff.mpr sized.1.ne_nil
    rw [parts, ← left'', length_append, length_append, length_append] at enough
    cases rounds with
    | zero => omega
    | succ rounds =>
      obtain ⟨after, done, rest⟩ := ih (written ++ opening ++ data ++ lineEnd)
        (show final.stream.length < rounds by omega) each left''
      refine ⟨after, ?_, rest⟩
      have filled : data.length ≠ 0 := fun zero => nonempty (length_eq_zero_iff.mp zero)
      have terminator : Reader.read 2 behind.buffer behind.incoming = (lineEnd, final) := ended
      rw [chunksFrom, headed]
      simp only [if_neg filled, copied, terminator]
      rw [if_neg (by decide), if_pos trivial, done]
      simp only [flatten_cons, append_assoc]

/-- The copy ends.  It succeeds on the streams that start with a chunked body, writes the body and
leaves the rest; where it fails, it has written what the stream starts with. -/
theorem chunks_forwards (reader : Reader UInt8) : ∃ written answer,
    chunks reader = .some (written, answer) ∧
    (∀ body rest, ChunkedBody body ∧ reader.stream = body ++ rest ↔
      ∃ after, answer = .ok after ∧ written = body ∧ after.stream = rest) ∧
    ∀ message, answer = .error message → written <+: reader.stream := by
  have enough : reader.stream.length < reader.stream.length + 1 := Nat.lt_succ_self _
  obtain ⟨written, ⟨after, done, grammar, stream⟩ | ⟨message, done, stream⟩⟩ :=
    chunksFrom_forwards [] enough
  · refine ⟨written, .ok after, done, fun body rest => ⟨?_, ?_⟩, fun _ same => by cases same⟩
    · rintro ⟨accepted, parts⟩
      obtain ⟨after', done', left⟩ := chunksFrom_of_stream [] enough accepted parts
      rw [done] at done'
      cases done'
      exact ⟨after, rfl, rfl, left⟩
    · rintro ⟨after, same, rfl, rfl⟩
      cases same
      exact ⟨grammar, stream⟩
  · refine ⟨written, .error message, done, fun body rest => ⟨?_, ?_⟩, fun _ _ => stream⟩
    · rintro ⟨accepted, parts⟩
      obtain ⟨after', done', left⟩ := chunksFrom_of_stream [] enough accepted parts
      rw [done] at done'
      cases done'
    · rintro ⟨after, same, -⟩
      cases same

end Bodies

end Agentix.Codex.ProxyHttp
