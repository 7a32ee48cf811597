import Mathlib.Data.List.Basic
import Mathlib.Data.List.Induction
import Mathlib.Data.List.TakeWhile
import Mathlib.Data.Nat.Digits.Lemmas
import Mathlib.Logic.Encodable.Basic

/-! # Journals of lines

A journal is a file to which records are appended, each as one line.  A write that is cut off leaves
a fragment without a line end, and reading stops at the last line end.
-/

namespace Agentix.Lib

open List

abbrev Bytes := List UInt8

def newline : UInt8 := 10

/-- A format that has a line for each record. -/
structure Codec (ρ : Type) where
  encode : ρ → Bytes
  decode : Bytes → Option ρ
  decode_encode : ∀ record, decode (encode record) = some record
  encode_ne_nil : ∀ record, encode record ≠ []
  newline_notMem : ∀ record, newline ∉ encode record

/-- The place after the last line end. -/
def endOfLines (bytes : Bytes) : Nat :=
  bytes.length - (bytes.reverse.takeWhile (· ≠ newline)).length

def lines (bytes : Bytes) : List Bytes :=
  (bytes.splitOn newline).filter (· ≠ [])

namespace Codec

variable {ρ : Type} (codec : Codec ρ) {record : ρ} {records : List ρ} {fragment bytes : Bytes}

def line (record : ρ) : Bytes := codec.encode record ++ [newline]

def journal (records : List ρ) : Bytes := records.flatMap codec.line

/-- The records of the complete lines; `none` where one of them cannot be read. -/
def read (bytes : Bytes) : Option (List ρ) :=
  (lines (bytes.take (endOfLines bytes))).mapM codec.decode

@[simp] theorem journal_nil : codec.journal [] = [] := rfl

theorem journal_append {more : List ρ} :
    codec.journal (records ++ more) = codec.journal records ++ codec.journal more :=
  flatMap_append

theorem journal_snoc : codec.journal (records ++ [record]) =
    codec.journal records ++ codec.line record := by
  rw [journal_append]
  simp [journal]

theorem journal_ends (codec : Codec ρ) (records : List ρ) : codec.journal records = [] ∨
    ∃ before, codec.journal records = before ++ [newline] := by
  induction records using reverseRecOn with
  | nil => exact .inl rfl
  | append_singleton records record _ =>
    right
    refine ⟨codec.journal records ++ codec.encode record, ?_⟩
    rw [journal_snoc, line, append_assoc]

theorem newline_notMem_take {written : Nat} (cut : written < (codec.line record).length) :
    newline ∉ (codec.line record).take written := by
  have short : written ≤ (codec.encode record).length := by
    rw [line, length_append, length_singleton] at cut
    omega
  rw [line, take_append_of_le_length short]
  exact fun mem => codec.newline_notMem record (mem_of_mem_take mem)

theorem takeWhile_append_newline (clean : newline ∉ fragment) {rest : Bytes} :
    (fragment ++ newline :: rest).takeWhile (· ≠ newline) = fragment := by
  rw [takeWhile_append_of_pos]
  · simp
  · intro byte mem
    simp only [ne_eq, decide_not, Bool.not_eq_eq_eq_not, Bool.not_true, decide_eq_false_iff_not]
    intro same
    exact clean (same ▸ mem)

theorem endOfLines_journal (clean : newline ∉ fragment) :
    endOfLines (codec.journal records ++ fragment) = (codec.journal records).length := by
  have clean' : newline ∉ fragment.reverse := by simpa using clean
  unfold endOfLines
  rw [reverse_append]
  obtain empty | ⟨before, ends⟩ := codec.journal_ends records
  · rw [empty]
    have all : fragment.reverse.takeWhile (· ≠ newline) = fragment.reverse := by
      rw [takeWhile_eq_self_iff]
      intro byte mem
      simp only [ne_eq, decide_not, Bool.not_eq_eq_eq_not, Bool.not_true, decide_eq_false_iff_not]
      intro same
      exact clean' (same ▸ mem)
    rw [reverse_nil, append_nil, all, length_reverse, nil_append, Nat.sub_self]
    rfl
  · rw [ends, reverse_append, reverse_singleton, singleton_append,
      takeWhile_append_newline clean', length_reverse, length_append]
    omega

theorem splitOn_journal : (codec.journal records).splitOn newline =
    records.map codec.encode ++ [[]] := by
  induction records with
  | nil => rfl
  | cons record records ih =>
    have split : codec.journal (record :: records) =
        codec.encode record ++ newline :: codec.journal records := by
      simp [journal, line]
    rw [split, splitOn_append_cons_self_of_not_mem (codec.newline_notMem record),
      ih]
    rfl

theorem filter_encode :
    (records.map codec.encode).filter (· ≠ []) = records.map codec.encode := by
  rw [filter_eq_self]
  intro line mem
  obtain ⟨record, -, rfl⟩ := mem_map.mp mem
  simpa using codec.encode_ne_nil record

theorem lines_journal : lines (codec.journal records) = records.map codec.encode := by
  rw [lines, splitOn_journal, filter_append, filter_encode]
  simp

theorem mapM_decode : (records.map codec.encode).mapM codec.decode = some records := by
  induction records with
  | nil => rfl
  | cons record records ih =>
    rw [map_cons, mapM_cons, codec.decode_encode, ih]
    rfl

theorem read_journal (clean : newline ∉ fragment) :
    codec.read (codec.journal records ++ fragment) = some records := by
  rw [read, endOfLines_journal codec clean, take_left, lines_journal, mapM_decode]

theorem read_glued (clean : newline ∉ fragment)
    (spoiled : codec.decode (fragment ++ codec.encode record) = none) :
    codec.read (codec.journal records ++ (fragment ++ codec.line record)) = none := by
  have unbroken : newline ∉ fragment ++ codec.encode record := by
    simp [clean, codec.newline_notMem]
  have split : (codec.journal records ++ (fragment ++ codec.line record)).splitOn newline =
      records.map codec.encode ++ [fragment ++ codec.encode record, []] := by
    induction records with
    | nil =>
      have last : codec.journal [] ++ (fragment ++ codec.line record) =
          (fragment ++ codec.encode record) ++ newline :: [] := by simp [line]
      rw [last, splitOn_append_cons_self_of_not_mem unbroken]
      rfl
    | cons first records ih =>
      have head : codec.journal (first :: records) ++ (fragment ++ codec.line record) =
          codec.encode first ++ newline :: (codec.journal records ++ (fragment ++ codec.line record)) := by
        simp [journal, line]
      rw [head, splitOn_append_cons_self_of_not_mem (codec.newline_notMem first),
        ih]
      rfl
  have whole : endOfLines (codec.journal records ++ (fragment ++ codec.line record)) =
      (codec.journal records ++ (fragment ++ codec.line record)).length := by
    unfold endOfLines
    have ends : (codec.journal records ++ (fragment ++ codec.line record)).reverse =
        newline :: (codec.journal records ++ (fragment ++ codec.encode record)).reverse := by
      simp [line]
    rw [ends, takeWhile_cons_of_neg (by simp)]
    rfl
  have last : [fragment ++ codec.encode record, []].filter (· ≠ []) =
      [fragment ++ codec.encode record] := by
    rw [filter_cons_of_pos (by simp [codec.encode_ne_nil])]
    rfl
  rw [read, whole, take_length, lines, split, filter_append, filter_encode, last,
    mapM_append, mapM_decode, mapM_cons, spoiled]
  rfl

/-- A number in binary digits. -/
def writeDigits (number : ℕ) : Bytes :=
  (Nat.digits 2 number).map fun digit => if digit = 0 then 48 else 49

def readDigits (digits : Bytes) : Option ℕ :=
  if digits.all fun byte => byte = 48 || byte = 49 then
    some (Nat.ofDigits 2 (digits.map fun byte => if byte = 48 then 0 else 1))
  else none

theorem readDigits_writeDigits (number : ℕ) : readDigits (writeDigits number) = some number := by
  have binary : (Nat.digits 2 number).map
      ((fun byte : UInt8 => if byte = 48 then 0 else 1) ∘ fun digit =>
        if digit = 0 then 48 else 49) = Nat.digits 2 number := by
    refine (map_congr_left fun digit mem => ?_).trans (map_id _)
    have small : digit < 2 := Nat.digits_lt_base (by omega) mem
    obtain rfl | rfl : digit = 0 ∨ digit = 1 := by omega
    · rfl
    · rfl
  have clean : (writeDigits number).all (fun byte => byte = 48 || byte = 49) = true := by
    rw [all_eq_true]
    intro byte mem
    obtain ⟨digit, -, rfl⟩ := mem_map.mp mem
    split <;> rfl
  rw [readDigits, if_pos clean, writeDigits, map_map, binary, Nat.ofDigits_digits]

theorem newline_notMem_writeDigits (number : ℕ) : newline ∉ writeDigits number := by
  intro mem
  obtain ⟨digit, -, same⟩ := mem_map.mp mem
  split at same <;> cases same

def decodeNumber [Encodable ρ] : Bytes → Option ρ
  | [] => none
  | head :: digits => if head = 123 then (readDigits digits).bind Encodable.decode else none

/-- Records that can be numbered have a format: after a brace, the number in binary digits. -/
def ofEncodable [Encodable ρ] : Codec ρ where
  encode record := 123 :: writeDigits (Encodable.encode record)
  decode := decodeNumber
  decode_encode record := by
    rw [decodeNumber, if_pos rfl, readDigits_writeDigits, Option.bind_some, Encodable.encodek]
  encode_ne_nil record := by simp
  newline_notMem record := by
    intro member
    obtain same | member := mem_cons.mp member
    · cases same
    · exact newline_notMem_writeDigits _ member

theorem length_ofEncodable [Encodable ρ] {bits : ℕ}
    (bounded : Encodable.encode record < 2 ^ bits) :
    ((ofEncodable : Codec ρ).line record).length ≤ bits + 2 := by
  have digits := (Nat.digits_length_le_iff (by omega) (Encodable.encode record)).mpr bounded
  simpa [line, ofEncodable, writeDigits] using digits

end Codec

end Agentix.Lib
