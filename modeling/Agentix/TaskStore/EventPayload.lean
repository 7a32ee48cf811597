import Agentix.Lib.Json
import Agentix.Lib.OrderedMap
import Mathlib.Algebra.GroupWithZero.Nat
import Mathlib.Data.List.TakeWhile
import Mathlib.Data.String.Basic

/-! # Event payloads

Versioned notification summaries.  Unknown shapes are explicitly marked, never retained as
unbounded blobs.
-/

namespace Agentix.TaskStore.EventPayload

open Lib List Option

abbrev Fields := List (String × Json)

abbrev Summary := OrderedMap String Json

/-! ## Texts -/

def byteLength (text : List Char) : Nat := (text.map Char.utf8Size).sum

/-- The beginning of a text that ends at the last character boundary within the limit. -/
def cut : Nat → List Char → List Char
  | _, [] => []
  | limit, c :: rest =>
    if c.utf8Size ≤ limit then c :: cut (limit - c.utf8Size) rest else []

def textLimit : Nat := 4096

def bounded (text : String) : String := String.ofList (cut textLimit text.toList)

def exceeds (text : String) : Bool :=
  byteLength (bounded text).toList < byteLength text.toList

/-! ## The projection -/

/-- The entity of an identifier, by what stands before its first underscore. -/
def kindOf (id : List Char) : String :=
  if id.takeWhile (· ≠ '_') = "prj".toList then "project"
  else if id.takeWhile (· ≠ '_') = "job".toList then "job"
  else if id.takeWhile (· ≠ '_') = "task".toList then "task"
  else if id.takeWhile (· ≠ '_') = "issue".toList then "issue"
  else if id.takeWhile (· ≠ '_') = "milestone".toList then "milestone"
  else "unknown"

def kind (object : Fields) : String :=
  match (object.lookup "id").bind Json.asStr with
  | some id => kindOf id.toList
  | none => "unknown"

def summaryFields : List String :=
  ["id", "title", "name", "status", "phase", "reason", "review_reason", "deleted", "archived_at",
    "completed_at", "cancelled_at", "pending_review_at", "issue_id", "milestone_id"]

/-- The result so far, with the fields whose texts were truncated. -/
structure Progress where
  result : Summary
  truncated : List String

def Progress.field (object : Fields) (progress : Progress) (key : String) : Progress :=
  match object.lookup key with
  | none => progress
  | some (.string text) =>
    { result := progress.result.insert key (.string (bounded text))
      truncated := if exceeds text then progress.truncated ++ [key] else progress.truncated }
  | some (.array _) | some (.object _) =>
    { progress with result := progress.result.insert "unsupported_payload" (.bool true) }
  | some value => { progress with result := progress.result.insert key value }

def Progress.noteTruncated (progress : Progress) : Summary :=
  if progress.truncated = [] then progress.result
  else progress.result.insert "truncated_fields" (.array (progress.truncated.map .string))

def keepUnsupported (object : Fields) (result : Summary) : Summary :=
  match result.get "unsupported_payload", object.lookup "unsupported_payload" with
  | none, some value => result.insert "unsupported_payload" (.bool value.isTrue)
  | _, _ => result

def fieldNames (fields : List Json) : List String :=
  ((fields.filterMap Json.asStr).filter fun name => byteLength name.toList ≤ 32).take 12

def keepTruncated (object : Fields) (result : Summary) : Summary :=
  match result.get "truncated_fields", (object.lookup "truncated_fields").bind Json.asArray with
  | none, some fields =>
    result.insert "truncated_fields" (.array ((fieldNames fields).map .string))
  | _, _ => result

def versioned : Summary := OrderedMap.empty.insert "schema_version" (.number [49])

def summarize (object : Fields) : Summary :=
  let start : Progress := ⟨versioned.insert "entity_type" (.string (kind object)), []⟩
  let progress := summaryFields.foldl (Progress.field object) start
  -- markers are preserved when already summarized
  keepTruncated object (keepUnsupported object progress.noteTruncated)

def compactPayload : Json → Json
  | .object object => .object (summarize object).entries
  | _ => .object (versioned.insert "unsupported_payload" (.bool true)).entries

/-! ## Maintenance -/

section Maintenance

variable [DecidableEq Json]

/-- The payloads of the events that are not pruned, and how many of them were rewritten. -/
def compactEvents (payloads : List Json) : List Json × Nat :=
  (payloads.map compactPayload, payloads.countP fun payload => compactPayload payload ≠ payload)

end Maintenance

/-! ## What a summary has -/

variable {text : List Char} {limit : Nat}

/-- The value that a field of a summary keeps. -/
def kept : Json → Option Json
  | .string text => some (.string (bounded text))
  | .array _ | .object _ => none
  | value => some value

def shown (object : Fields) (key : String) : Option Json := (object.lookup key).bind kept

def compound : Json → Bool
  | .array _ | .object _ => true
  | _ => false

def long : Json → Bool
  | .string text => textLimit < byteLength text.toList
  | _ => false

def unsupported (object : Fields) : Bool :=
  summaryFields.any fun key => (object.lookup key).any compound

/-- The fields of a summary whose texts are above the limit. -/
def truncated (object : Fields) : List String :=
  summaryFields.filter fun key => (object.lookup key).any long

theorem byteLength_cut_le : byteLength (cut limit text) ≤ limit := by
  induction text generalizing limit with
  | nil => simp [cut, byteLength]
  | cons c rest ih =>
    unfold cut
    split
    · rename_i fits
      have shorter : byteLength (cut (limit - c.utf8Size) rest) ≤ _ := ih
      simp only [byteLength, map_cons, sum_cons] at shorter ⊢
      omega
    · simp [byteLength]

theorem cut_of_le (fits : byteLength text ≤ limit) :
    cut limit text = text := by
  induction text generalizing limit with
  | nil => rfl
  | cons c rest ih =>
    simp only [byteLength, map_cons, sum_cons] at fits
    have first : c.utf8Size ≤ limit := by omega
    rw [cut, if_pos first, ih]
    unfold byteLength
    omega

/-- A text that is cut is filled up to a character. -/
theorem cut_spec (above : limit < byteLength text) :
    ∃ rest, text = cut limit text ++ rest ∧ limit < byteLength (cut limit text) + 4 := by
  induction text generalizing limit with
  | nil => simp [byteLength] at above
  | cons c rest ih =>
    simp only [byteLength, map_cons, sum_cons] at above
    by_cases fits : c.utf8Size ≤ limit
    · have above' : limit - c.utf8Size < byteLength rest := by
        unfold byteLength
        omega
      obtain ⟨after, split, full⟩ := ih above'
      refine ⟨after, ?_, ?_⟩
      · rw [cut, if_pos fits, cons_append, ← split]
      · rw [cut, if_pos fits]
        simp only [byteLength, map_cons, sum_cons] at full ⊢
        omega
    · have small := c.utf8Size_le_four
      refine ⟨c :: rest, ?_, ?_⟩
      · rw [cut, if_neg fits, nil_append]
      · rw [cut, if_neg fits]
        simp only [byteLength, map_nil, sum_nil]
        omega

theorem exceeds_iff {text : String} : exceeds text = true ↔ textLimit < byteLength text.toList := by
  unfold exceeds bounded
  rw [String.toList_ofList, decide_eq_true_eq]
  constructor
  · intro shorter
    by_contra fits
    rw [cut_of_le (Nat.le_of_not_lt fits)] at shorter
    exact Nat.lt_irrefl _ shorter
  · intro above
    exact Nat.lt_of_le_of_lt byteLength_cut_le above

theorem bounded_bounded (text : String) : bounded (bounded text) = bounded text := by
  unfold bounded
  rw [String.toList_ofList, cut_of_le byteLength_cut_le]

theorem not_exceeds_bounded (text : String) : exceeds (bounded text) = false := by
  unfold exceeds
  rw [bounded_bounded]
  simp

/-- Only what stands before the first underscore is read of an identifier. -/
theorem takeWhile_cut (name : List Char) (short : byteLength name + 4 ≤ textLimit) :
    (cut textLimit text).takeWhile (· ≠ '_') = name ↔ text.takeWhile (· ≠ '_') = name := by
  by_cases above : textLimit < byteLength text
  · obtain ⟨rest, split, full⟩ := cut_spec above
    by_cases inside : ∀ c ∈ cut textLimit text, decide (c ≠ '_') = true
    · -- the identifier is cut before its first underscore, so it names no entity
      have whole : (cut textLimit text).takeWhile (· ≠ '_') = cut textLimit text :=
        takeWhile_eq_self_iff.mpr inside
      have longer : text.takeWhile (· ≠ '_') =
          cut textLimit text ++ rest.takeWhile (· ≠ '_') := by
        conv_lhs => rw [split]
        exact takeWhile_append_of_pos inside
      rw [whole, longer]
      constructor
      · intro same
        rw [same] at full
        omega
      · intro same
        rw [← same] at short
        simp only [byteLength, map_append, sum_append] at short full
        omega
    · have stops : text.takeWhile (· ≠ '_') = (cut textLimit text).takeWhile (· ≠ '_') := by
        conv_lhs => rw [split]
        rw [takeWhile_append, if_neg]
        intro all
        refine inside (takeWhile_eq_self_iff.mp ?_)
        exact ( takeWhile_prefix _).eq_of_length all
      rw [stops]
  · rw [cut_of_le (Nat.le_of_not_lt above)]

theorem kindOf_cut (text : List Char) : kindOf (cut textLimit text) = kindOf text := by
  unfold kindOf
  simp only [takeWhile_cut "prj".toList (by decide),
    takeWhile_cut "job".toList (by decide),
    takeWhile_cut "task".toList (by decide),
    takeWhile_cut "issue".toList (by decide),
    takeWhile_cut "milestone".toList (by decide)]

theorem kept_kept (value : Json) : (kept value).bind kept = kept value := by
  cases value <;> simp [kept, bounded_bounded]

theorem shown_shown {object object' : Fields} {key : String}
    (same : object'.lookup key = shown object key) : shown object' key = shown object key := by
  unfold shown at same ⊢
  rw [same, bind_assoc]
  simp only [kept_kept]

theorem kept_plain {value shorter : Json} (keeps : kept value = some shorter) :
    compound shorter = false ∧ long shorter = false := by
  cases value with
  | string text =>
    obtain rfl := some.inj keeps
    refine ⟨rfl, ?_⟩
    have fits := not_exceeds_bounded text
    rw [Bool.eq_false_iff] at fits ⊢
    exact fun above => fits (exceeds_iff.mpr (by simpa [long] using above))
  | array items => cases keeps
  | object fields => cases keeps
  | null | bool _ | number _ =>
    obtain rfl := some.inj keeps
    exact ⟨rfl, rfl⟩

/-! ## The values of a summary -/

section Fold

variable {object : Fields} {progress : Progress} {key : String} {keys : List String}

theorem get_field (apart : key ≠ "unsupported_payload") (name : String) :
    (progress.field object name).result.get key =
      if key = name then (shown object name).or (progress.result.get key)
      else progress.result.get key := by
  unfold Progress.field shown
  cases found : object.lookup name with
  | none => simp
  | some value =>
    by_cases same : key = name
    · subst same
      cases value <;> simp [kept, OrderedMap.get_insert_of_ne apart]
    · cases value <;>
        simp [same, OrderedMap.get_insert_of_ne apart, OrderedMap.get_insert_of_ne same]

theorem get_fold (apart : key ≠ "unsupported_payload") :
    (keys.foldl (Progress.field object) progress).result.get key =
      if key ∈ keys then (shown object key).or (progress.result.get key)
      else progress.result.get key := by
  induction keys generalizing progress with
  | nil => simp
  | cons name rest ih =>
    rw [foldl_cons, ih, get_field apart]
    by_cases here : key = name
    · subst here
      cases shown object key <;> simp
    · simp [here]

theorem unsupported_fold (apart : "unsupported_payload" ∉ keys) :
    (keys.foldl (Progress.field object) progress).result.get "unsupported_payload" =
      if keys.any fun key => (object.lookup key).any compound then some (.bool true)
      else progress.result.get "unsupported_payload" := by
  induction keys generalizing progress with
  | nil => simp
  | cons name rest ih =>
    simp only [mem_cons, not_or] at apart
    rw [foldl_cons, ih apart.2, any_cons]
    have first : (progress.field object name).result.get "unsupported_payload" =
        if (object.lookup name).any compound then some (.bool true)
        else progress.result.get "unsupported_payload" := by
      unfold Progress.field
      cases object.lookup name with
      | none => simp
      | some value => cases value <;> simp [compound, OrderedMap.get_insert_of_ne apart.1]
    rw [first]
    cases (object.lookup name).any compound <;> simp

theorem truncated_fold : (keys.foldl (Progress.field object) progress).truncated =
    progress.truncated ++ keys.filter fun key => (object.lookup key).any long := by
  induction keys generalizing progress with
  | nil => simp
  | cons name rest ih =>
    rw [foldl_cons, ih]
    have first : (progress.field object name).truncated =
        progress.truncated ++ if (object.lookup name).any long then [name] else [] := by
      unfold Progress.field
      cases object.lookup name with
      | none => simp
      | some value =>
        cases value with
        | string text =>
          have iff : exceeds text = long (.string text) := by
            rw [Bool.eq_iff_iff, exceeds_iff]
            simp [long]
          dsimp only [any_some]
          rw [iff]
          split <;> simp
        | _ => simp [long]
    rw [first, append_assoc, filter_cons]
    split <;> simp_all

end Fold

section Values

variable {object : Fields} {key : String}

def start (object : Fields) : Progress :=
  ⟨versioned.insert "entity_type" (.string (kind object)), []⟩

theorem get_noteTruncated {progress : Progress} (apart : key ≠ "truncated_fields") :
    progress.noteTruncated.get key = progress.result.get key := by
  unfold Progress.noteTruncated
  split
  · rfl
  · exact OrderedMap.get_insert_of_ne apart

theorem get_keepUnsupported {result : Summary} (apart : key ≠ "unsupported_payload") :
    (keepUnsupported object result).get key = result.get key := by
  unfold keepUnsupported
  split
  · exact OrderedMap.get_insert_of_ne apart
  · rfl

theorem get_keepTruncated {result : Summary} (apart : key ≠ "truncated_fields") :
    (keepTruncated object result).get key = result.get key := by
  unfold keepTruncated
  split
  · exact OrderedMap.get_insert_of_ne apart
  · rfl

theorem get_summary (unmarked : key ≠ "unsupported_payload") (listed : key ≠ "truncated_fields") :
    (summarize object).get key =
      if key ∈ summaryFields then (shown object key).or ((start object).result.get key)
      else (start object).result.get key := by
  unfold summarize
  rw [get_keepTruncated listed, get_keepUnsupported unmarked, get_noteTruncated listed,
    get_fold unmarked]
  rfl

theorem get_start_field (field : key ∈ summaryFields) : (start object).result.get key = none := by
  unfold start versioned
  simp only [summaryFields, mem_cons, not_mem_nil, or_false] at field
  rw [OrderedMap.get_insert_of_ne (by rintro rfl; revert field; decide),
    OrderedMap.get_insert_of_ne (by rintro rfl; revert field; decide), OrderedMap.get_empty]

theorem get_summary_field (field : key ∈ summaryFields) :
    (summarize object).get key = shown object key := by
  have unmarked : key ≠ "unsupported_payload" := by
    rintro rfl
    revert field
    decide
  have listed : key ≠ "truncated_fields" := by
    rintro rfl
    revert field
    decide
  rw [get_summary unmarked listed, if_pos field, get_start_field field, or_none]

theorem get_summary_unsupported : (summarize object).get "unsupported_payload" =
    if unsupported object then some (.bool true)
    else (object.lookup "unsupported_payload").map fun value => .bool value.isTrue := by
  unfold summarize
  rw [get_keepTruncated (by decide)]
  let before := (summaryFields.foldl (Progress.field object) (start object)).noteTruncated
  have summarized : before.get "unsupported_payload" =
      if unsupported object then some (.bool true) else none := by
    rw [get_noteTruncated (by decide), unsupported_fold (by decide)]
    rfl
  change (keepUnsupported object before).get "unsupported_payload" = _
  unfold keepUnsupported
  cases known : unsupported object with
  | true =>
    rw [known, if_pos rfl] at summarized
    rw [summarized]
    exact summarized
  | false =>
    rw [known, if_neg Bool.false_ne_true] at summarized
    rw [summarized]
    cases object.lookup "unsupported_payload" with
    | none => exact summarized
    | some value => exact OrderedMap.get_insert_self

theorem get_summary_truncated : (summarize object).get "truncated_fields" =
    if truncated object = [] then
      ((object.lookup "truncated_fields").bind Json.asArray).map fun fields =>
        .array ((fieldNames fields).map .string)
    else some (.array ((truncated object).map .string)) := by
  unfold summarize
  let progress := summaryFields.foldl (Progress.field object) (start object)
  have names : progress.truncated = truncated object := by
    dsimp only [progress]
    rw [truncated_fold]
    rfl
  have absent : progress.result.get "truncated_fields" = none := by
    dsimp only [progress]
    rw [get_fold (by decide), if_neg (by decide)]
    rfl
  have noted : progress.noteTruncated.get "truncated_fields" =
      if truncated object = [] then none
      else some (.array ((truncated object).map .string)) := by
    unfold Progress.noteTruncated
    rw [names]
    split
    · exact absent
    · exact OrderedMap.get_insert_self
  change (keepTruncated object (keepUnsupported object progress.noteTruncated)).get _ = _
  have marked : (keepUnsupported object progress.noteTruncated).get "truncated_fields" =
      progress.noteTruncated.get "truncated_fields" := get_keepUnsupported (by decide)
  unfold keepTruncated
  by_cases none_truncated : truncated object = []
  · have unnoted := marked.trans noted
    rw [if_pos none_truncated] at unnoted
    rw [unnoted, if_pos none_truncated]
    cases (object.lookup "truncated_fields").bind Json.asArray with
    | none => exact unnoted
    | some fields => exact OrderedMap.get_insert_self
  · have listed := marked.trans noted
    rw [if_neg none_truncated] at listed
    rw [listed, if_neg none_truncated]
    exact listed

end Values

end Agentix.TaskStore.EventPayload
