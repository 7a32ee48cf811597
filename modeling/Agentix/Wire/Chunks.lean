import Agentix.Wire.Projection
import Mathlib.Data.List.TakeWhile

/-! # Chunks

However a message is split, the projection reads it byte by byte: the bulk scan of a skipped
string, and the tail of a character that a chunk cuts in two, change nothing.
-/

namespace Agentix.Wire

open Lib List Option

variable [Serde]

/-! ## The parser -/

namespace Machine

variable {m m' : Machine} {s : StringToken} {b : UInt8} {bytes : List UInt8}

def byte (m : Machine) (b : UInt8) : Option Machine :=
  match m.token with
  | some (.string s) => m.stringByte s b
  | some (.atom raw node) =>
    if isDelimiter b then m.finishAtom.bind fun m => m.punctuate b
    else if maxToken ≤ raw.length then none
    else some { m with token := some (.atom (raw ++ [b]) node) }
  | none => m.punctuate b

def run (m : Machine) (bytes : List UInt8) : Option Machine :=
  bytes.foldlM byte m

@[simp] theorem run_nil (m : Machine) : m.run [] = some m := rfl

@[simp] theorem run_cons (m : Machine) (b : UInt8) (bytes : List UInt8) :
    m.run (b :: bytes) = (m.byte b).bind fun m => m.run bytes := rfl

theorem run_append (m : Machine) (a b : List UInt8) :
    m.run (a ++ b) = (m.run a).bind fun m => m.run b := by
  simp [run, foldlM_append]

/-- A plain byte of a string that is skipped leaves no trace, unless it is a control byte. -/
theorem byte_plain (token : m.token = some (.string s)) (scanning : s.scanning)
    (plain : isPlain b) : m.byte b = if b.toNat < 32 then none else some m := by
  simp only [StringToken.scanning, Bool.and_eq_true, Bool.not_eq_true', beq_iff_eq] at scanning
  obtain ⟨⟨⟨capture, escape⟩, digits⟩, low⟩ := scanning
  simp only [isPlain, Bool.and_eq_true, bne_iff_ne] at plain
  have still : s.push b = s := by simp [StringToken.push, capture]
  have reads : s.byte b = if b.toNat < 32 then none else some (false, s) := by
    simp [StringToken.byte, still, capture, escape, digits, low, plain.1, plain.2]
  simp only [byte, token, stringByte, reads]
  split
  · rename_i control
    split at control
    · rename_i small
      rw [if_pos small]
    · cases control
  · rename_i ended
    split at ended <;> cases ended
  · rename_i goes
    split at goes
    · cases goes
    · rename_i large
      cases goes
      rw [if_neg large, ← token]

theorem run_plain (token : m.token = some (.string s)) (scanning : s.scanning)
    (plain : ∀ b ∈ bytes, isPlain b) :
    m.run bytes = if bytes.any fun b => decide (b.toNat < 32) then none else some m := by
  induction bytes with
  | nil => rfl
  | cons b rest ih =>
    rw [run_cons, byte_plain token scanning (plain b mem_cons_self)]
    have later := ih fun b mem => plain b (mem_cons_of_mem _ mem)
    by_cases control : b.toNat < 32
    · simp [control]
    · simp [control, later]

theorem parse_eq_run (m : Machine) (bytes : List UInt8) : m.parse bytes = m.run bytes := by
  induction size : bytes.length using Nat.strongRecOn generalizing m bytes with
  | ind n ih =>
  subst size
  cases bytes with
  | nil => rw [parse]; rfl
  | cons b rest =>
    have shorter : ∀ (m : Machine) (later : List UInt8), later.length ≤ rest.length →
        m.parse later = m.run later := fun m later bound =>
      ih later.length (by simp only [length_cons]; omega) m later rfl
    rw [parse]
    split
    · rename_i s token
      split
      · rename_i scanning
        -- the plain bytes, and what follows them
        have plain : ∀ c ∈ (b :: rest).takeWhile isPlain, isPlain c :=
          fun c mem => mem_takeWhile_imp mem
        have split_ := takeWhile_append_dropWhile (p := isPlain) (l := b :: rest)
        have scanned : m.run (b :: rest) =
            (m.run ((b :: rest).takeWhile isPlain)).bind
              fun m => m.run ((b :: rest).dropWhile isPlain) := by
          rw [← run_append, split_]
        rw [scanned, run_plain token scanning plain]
        split
        · rfl
        · rw [bind_some]
          split
          · rename_i done
            rw [done]
            rfl
          · rename_i c later more
            rw [more, run_cons]
            have bound : ((b :: rest).dropWhile isPlain).length ≤ (b :: rest).length :=
              (dropWhile_suffix _).length_le
            rw [more] at bound
            simp only [length_cons] at bound
            simp only [byte, token]
            congr 1
            funext m
            exact shorter m later (by omega)
      · simp only [run_cons, byte, token]
        congr 1
        funext m
        exact shorter m rest (Nat.le_refl _)
    · rename_i raw node token
      simp only [run_cons, byte, token]
      split
      · rw [bind_assoc]
        congr 1
        funext m
        congr 1
        funext m
        exact shorter m rest (Nat.le_refl _)
      · split
        · rfl
        · rw [bind_some]
          exact shorter _ rest (Nat.le_refl _)
    · rename_i token
      simp only [run_cons, byte, token]
      congr 1
      funext m
      exact shorter m rest (Nat.le_refl _)

end Machine

/-! ## Characters -/

namespace Projection

omit [Serde] in
theorem completeTail_scan {tail : List UInt8} {state : Scan} (scans : scan tail = some state)
    (same : state.tail = tail) (some_ : tail ≠ []) (bytes : List UInt8) :
    (match completeTail tail bytes with
      | none => none
      | some (tail, bytes) => if tail ≠ [] then some tail else (scan bytes).map Scan.tail) =
      (scan (tail ++ bytes)).map Scan.tail := by
  induction bytes generalizing tail state with
  | nil => simp [completeTail, some_, scans, same]
  | cons b rest ih =>
    have short := scan_tail_short scans
    have room : 0 < state.expect.room := by cases state.expect <;> simp [Expect.room]
    rw [same] at short
    rw [completeTail, if_pos (by omega)]
    have next : scan (tail ++ [b]) = state.step b := scan_snoc scans b
    have split : tail ++ b :: rest = (tail ++ [b]) ++ rest := by simp
    cases steps : state.step b with
    | none =>
      rw [steps] at next
      have read : fromUtf8 (tail ++ [b]) = .malformed := by simp only [fromUtf8, next]
      rw [split, scan_append, next]
      simp only [read]
      rfl
    | some middle =>
      rw [steps] at next
      have unfolded := steps
      simp only [Scan.step, map_eq_some_iff] at unfolded
      obtain ⟨expect, -, rfl⟩ := unfolded
      cases expect with
      | lead =>
        have whole : scan ((tail ++ [b]) ++ rest) = scan rest := by
          rw [scan_append_tail next]
          rfl
        have read : fromUtf8 (tail ++ [b]) = .ok := by simp only [fromUtf8, next]
        rw [split, whole]
        simp only [read, ne_eq, not_true_eq_false, if_false]
      | trail low high more =>
        have grown : (Scan.mk (.trail low high more)
            (if Expect.trail low high more = .lead then [] else state.tail ++ [b])).tail =
            tail ++ [b] := by simp [same]
        have later := ih next grown (by simp)
        rw [split, ← later]
        simp only [fromUtf8, next]

omit [Serde] in
theorem validateUtf8_scan {bytes chunk : List UInt8} {state : Scan}
    (scans : scan bytes = some state) :
    validateUtf8 state.tail chunk = (scan (bytes ++ chunk)).map Scan.tail := by
  rw [scan_append_tail scans]
  by_cases empty : state.tail = []
  · simp only [validateUtf8, empty, if_true, nil_append, ne_eq, not_true_eq_false, if_false]
    exact fromUtf8_tail chunk
  · rw [← completeTail_scan (scan_of_tail scans) rfl empty chunk]
    simp only [validateUtf8, if_neg empty]
    cases completeTail state.tail chunk with
    | none => rfl
    | some left =>
      obtain ⟨tail, rest⟩ := left
      simp only
      split
      · rfl
      · exact fromUtf8_tail rest

/-! ## Messages -/

/-- What the projection has read: the bytes so far, or that they are malformed. -/
structure Reads (p : Projection) (bytes : List UInt8) : Prop where
  broken : p.invalid = true ↔ scan bytes = none ∨ Machine.run {} bytes = none
  tail : ∀ state, p.invalid = false → scan bytes = some state → p.utf8Tail = state.tail
  machine : p.invalid = false → Machine.run {} bytes = some p.machine

theorem Reads.start : Reads {} [] where
  broken := by simp [scan]
  tail state _ scans := by cases scans; rfl
  machine _ := rfl

theorem Reads.feed {p : Projection} {bytes : List UInt8} (reads : Reads p bytes)
    (chunk : List UInt8) : Reads (p.feed chunk) (bytes ++ chunk) := by
  cases invalid : p.invalid with
  | true =>
    have same : p.feed chunk = p := by simp [Projection.feed, invalid]
    rw [same]
    refine ⟨⟨fun _ => ?_, fun _ => invalid⟩, fun _ wrong => ?_, fun wrong => ?_⟩
    · obtain scans | runs := reads.broken.mp invalid
      · exact .inl (by simp [scan_append, scans])
      · exact .inr (by simp [Machine.run_append, runs])
    · rw [invalid] at wrong; cases wrong
    · rw [invalid] at wrong; cases wrong
  | false =>
    have runs := reads.machine invalid
    have valid : scan bytes ≠ none := fun none_ => by
      have broken := reads.broken.mpr (.inl none_)
      rw [invalid] at broken
      cases broken
    obtain ⟨state, scans⟩ := ne_none_iff_exists'.mp valid
    have tail := reads.tail state invalid scans
    have scanned := @validateUtf8_scan _ chunk _ scans
    have parsed : Machine.run {} (bytes ++ chunk) = p.machine.parse chunk := by
      rw [Machine.run_append, runs, Machine.parse_eq_run]
      rfl
    rw [← tail] at scanned
    cases next : scan (bytes ++ chunk) with
    | none =>
      rw [next] at scanned
      have broken : p.feed chunk = { p with invalid := true, machine := {} } := by
        simp [Projection.feed, invalid, scanned]
      rw [broken]
      refine ⟨by simp [next], ?_, ?_⟩
      · exact fun _ wrong => by cases wrong
      · exact fun wrong => by cases wrong
    | some state' =>
      rw [next] at scanned
      cases goes : p.machine.parse chunk with
      | none =>
        have broken : p.feed chunk = { p with invalid := true, machine := {} } := by
          simp [Projection.feed, invalid, goes]
        rw [broken]
        refine ⟨by simp [parsed, goes], ?_, ?_⟩
        · exact fun _ wrong => by cases wrong
        · exact fun wrong => by cases wrong
      | some machine =>
        have fed : p.feed chunk = { p with machine, utf8Tail := state'.tail } := by
          simp [Projection.feed, invalid, scanned, goes]
        rw [fed]
        refine ⟨by simp [invalid, next, parsed, goes], fun other _ same => ?_, fun _ => ?_⟩
        · rw [next] at same; cases same; rfl
        · rw [parsed, goes]

def feedAll (chunks : List (List UInt8)) : Projection :=
  chunks.foldl feed {}

theorem reads_feedAll (chunks : List (List UInt8)) : Reads (feedAll chunks) chunks.flatten := by
  induction chunks using reverseRecOn with
  | nil => exact Reads.start
  | append_singleton chunks chunk ih =>
    simp only [feedAll, foldl_append, foldl_cons, foldl_nil, flatten_append,
      flatten_cons, flatten_nil, append_nil]
    exact ih.feed chunk

/-- The outcome of bytes that were read. -/
def verdict (bytes : List UInt8) : Option Json :=
  if Utf8 bytes then (Machine.run {} bytes).bind Machine.ended else none

theorem outcome_feedAll (chunks : List (List UInt8)) :
    (feedAll chunks).outcome = verdict chunks.flatten := by
  have reads := reads_feedAll chunks
  generalize feedAll chunks = p at reads
  generalize chunks.flatten = bytes at reads
  have valid : Utf8 bytes ↔ ∃ state, scan bytes = some state ∧ state.tail = [] := by
    rw [← fromUtf8_ok, fromUtf8]
    cases scans : scan bytes with
    | none => simp
    | some state =>
      have done := (scan_tail scans).choose_spec.2.2.2
      obtain ⟨expect, tail⟩ := state
      cases expect <;> simp_all
  cases invalid : p.invalid with
  | true =>
    simp only [outcome, invalid, true_or, if_true, verdict]
    obtain scans | runs := reads.broken.mp invalid
    · rw [if_neg]
      rw [valid, scans]
      rintro ⟨_, wrong, -⟩
      cases wrong
    · simp [runs]
  | false =>
    obtain ⟨state, scans⟩ : ∃ state, scan bytes = some state := by
      rw [← ne_none_iff_exists']
      intro none_
      have broken := reads.broken.mpr (.inl none_)
      rw [invalid] at broken
      cases broken
    have tail := reads.tail state invalid scans
    have whole : Utf8 bytes ↔ p.utf8Tail = [] := by
      rw [valid, tail]
      constructor
      · rintro ⟨_, same, empty⟩
        rw [scans] at same
        cases same
        exact empty
      · exact fun empty => ⟨state, scans, empty⟩
    simp only [outcome, invalid, verdict, whole, reads.machine invalid, bind_some,
      Bool.false_eq_true, false_or]
    by_cases empty : p.utf8Tail = [] <;> simp [empty]

end Projection

end Agentix.Wire
