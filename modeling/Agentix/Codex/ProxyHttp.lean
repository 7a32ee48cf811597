import Agentix.Lib.Fallible
import Agentix.Lib.Streams
import Agentix.Lib.Utf8
import Mathlib.Algebra.Group.Nat.Defs

/-! # Chunked bodies that are forwarded

A rejected upgrade has an HTTP body, which is copied to the client as it comes.  The body is read
line by line and chunk by chunk, with limits on the lines and the trailers.
-/

namespace Agentix.Codex.ProxyHttp

open Lib Lib.Streams

abbrev Bytes := List UInt8

def lineFeed : UInt8 := 10

def lineEnd : Bytes := [13, 10]

/-- `exact`: what is copied, and the reader after all of it. -/
def exact (reader : Reader UInt8) (n : Nat) : Bytes × Fallible (Reader UInt8) :=
  let (copied, reader) := Reader.read n reader.buffer reader.incoming
  (copied, if copied.length = n then .ok reader else .error "truncated HTTP body")

def line (reader : Reader UInt8) : Fallible (Bytes × Reader UInt8) := do
  let (bytes, reader) := Reader.readUntil lineFeed 8193 reader.buffer reader.incoming
  ensure (bytes.length ≤ 8192 ∧ lineEnd <:+ bytes) "invalid or oversized HTTP chunk line"
  pure (bytes, reader)

def hexDigit? (c : UInt8) : Option Nat :=
  let n := c.toNat
  if 48 ≤ n ∧ n ≤ 57 then some (n - 48)
  else if 97 ≤ n ∧ n ≤ 102 then some (n - 87)
  else if 65 ≤ n ∧ n ≤ 70 then some (n - 55)
  else none

def hexValue (digits : Bytes) : Nat :=
  digits.foldl (fun value c => 16 * value + (hexDigit? c).getD 0) 0

def chunkSize (header : Bytes) : Fallible Nat := do
  let text := header.take (header.length - 2)
  ensure (Utf8 text) "invalid utf-8 sequence"
  let size := text.takeWhile (· != 59)
  ensure (size ≠ [] ∧ size.all fun c => (hexDigit? c).isSome) "invalid chunk size"
  ensure (hexValue size < 2 ^ 64) "number too large to fit in target type"
  pure (hexValue size)

def chunkHeader (reader : Reader UInt8) : Fallible (Bytes × Nat × Reader UInt8) := do
  let (header, reader) ← line reader
  let size ← chunkSize header
  pure (header, size, reader)

/-- The loop over the trailers, of which there were `total` bytes; it has not ended after its
rounds where there is no answer. -/
def trailers (total : Nat) (written : Bytes) : Nat → Reader UInt8 → Option (Bytes × Fallible (Reader UInt8))
  | 0, _ => none
  | rounds + 1, reader =>
    match line reader with
    | .error message => some (written, .error message)
    | .ok (trailer, reader) =>
      let total := total + trailer.length
      if total ≤ 65536 then
        if trailer = lineEnd then some (written ++ trailer, .ok reader)
        else trailers total (written ++ trailer) rounds reader
      else some (written, .error "oversized HTTP trailers")

/-- The loop of `chunks`: what is written, and the reader after the body. -/
def chunksFrom (written : Bytes) : Nat → Reader UInt8 → Option (Bytes × Fallible (Reader UInt8))
  | 0, _ => none
  | rounds + 1, reader =>
    match chunkHeader reader with
    | .error message => some (written, .error message)
    | .ok (header, size, reader) =>
      let written := written ++ header
      if size = 0 then trailers 0 written rounds reader
      else
        match exact reader size with
        | (copied, .error message) => some (written ++ copied, .error message)
        | (copied, .ok reader) =>
          let written := written ++ copied
          let (ending, reader) := Reader.read 2 reader.buffer reader.incoming
          if ending.length < 2 then some (written, .error "early eof")
          else if ending = lineEnd then chunksFrom (written ++ ending) rounds reader
          else some (written, .error "invalid chunk terminator")

/-- `chunks`: every round reads at least a byte. -/
def chunks (reader : Reader UInt8) : Option (Bytes × Fallible (Reader UInt8)) :=
  chunksFrom [] (reader.stream.length + 1) reader

end Agentix.Codex.ProxyHttp
