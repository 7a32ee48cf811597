import Agentix.TaskStore.EventPayload

/-! # Compacted payloads stay as they are -/

namespace Agentix.TaskStore.EventPayload

open Lib List Option

variable {object : Fields} {key : String}

/-! ## The summary of a summary -/

theorem shown_summary (field : key ∈ summaryFields) :
    shown (summarize object).entries key = shown object key :=
  shown_shown (get_summary_field field)

theorem plain_summary (field : key ∈ summaryFields) :
    ((summarize object).entries.lookup key).any compound = false ∧
      ((summarize object).entries.lookup key).any long = false := by
  have value : (summarize object).entries.lookup key = shown object key := get_summary_field field
  rw [value, shown]
  cases object.lookup key with
  | none => exact ⟨rfl, rfl⟩
  | some value =>
    cases keeps : kept value with
    | none => simp [keeps]
    | some shorter =>
      obtain ⟨plain, short⟩ := kept_plain keeps
      simp [keeps, plain, short]

theorem unsupported_summary : unsupported (summarize object).entries = false := by
  unfold unsupported
  rw [List.any_eq_false]
  intro key field
  simp [(plain_summary field).1]

theorem truncated_summary : truncated (summarize object).entries = [] := by
  unfold truncated
  rw [filter_eq_nil_iff]
  intro key field
  simp [(plain_summary field).2]

theorem kind_summary : kind (summarize object).entries = kind object := by
  have value : (summarize object).entries.lookup "id" = shown object "id" :=
    get_summary_field (by decide)
  unfold kind
  rw [value, shown]
  cases object.lookup "id" with
  | none => rfl
  | some id =>
    cases id with
    | string text =>
      simp only [bind_some, kept, Json.asStr, bounded, String.toList_ofList]
      exact kindOf_cut text.toList
    | _ => rfl

theorem fieldNames_string (names : List String) : fieldNames (names.map .string) =
    (names.filter fun name => byteLength name.toList ≤ 32).take 12 := by
  unfold fieldNames
  rw [filterMap_map]
  have strings : names.filterMap (Json.asStr ∘ Json.string) = names := by
    have same : (Json.asStr ∘ Json.string) = some := rfl
    rw [same, filterMap_some]
  rw [strings]

theorem fieldNames_fieldNames (fields : List Json) :
    fieldNames ((fieldNames fields).map .string) = fieldNames fields := by
  rw [fieldNames_string]
  have short : (fieldNames fields).filter (fun name => byteLength name.toList ≤ 32) =
      fieldNames fields := by
    rw [filter_eq_self]
    intro name mem
    exact (mem_filter.mp (mem_of_mem_take mem)).2
  rw [short, take_of_length_le]
  simp [fieldNames]

theorem fieldNames_truncated :
    fieldNames ((truncated object).map .string) = (truncated object).take 12 := by
  rw [fieldNames_string]
  have short : (truncated object).filter (fun name => byteLength name.toList ≤ 32) =
      truncated object := by
    rw [filter_eq_self]
    intro name mem
    have all : ∀ name ∈ summaryFields, decide (byteLength name.toList ≤ 32) = true := by decide
    exact all name (mem_of_mem_filter mem)
  rw [short]

/-! ## Idempotence -/

/-- The names of all truncated fields are kept: no more than twelve of them have texts over the
limit. -/
def AllNamed (object : Fields) : Prop := (truncated object).length ≤ 12

theorem get_truncated_twice : (summarize (summarize object).entries).get "truncated_fields" =
    if truncated object = [] then (summarize object).get "truncated_fields"
    else some (.array (((truncated object).take 12).map .string)) := by
  have value : (summarize object).entries.lookup "truncated_fields" = _ :=
    get_summary_truncated
  rw [get_summary_truncated, if_pos truncated_summary, value, get_summary_truncated]
  split
  · cases (object.lookup "truncated_fields").bind Json.asArray with
    | none => rfl
    | some fields =>
      simp only [map_some, bind_some, Json.asArray, fieldNames_fieldNames]
  · simp only [bind_some, Json.asArray, map_some, fieldNames_truncated]

theorem isTrue_bool (value : Bool) : (Json.bool value).isTrue = value := by
  cases value <;> rfl

theorem get_unsupported_twice : (summarize (summarize object).entries).get "unsupported_payload" =
    (summarize object).get "unsupported_payload" := by
  have value : (summarize object).entries.lookup "unsupported_payload" = _ :=
    get_summary_unsupported
  rw [get_summary_unsupported, unsupported_summary, value, get_summary_unsupported,
    if_neg Bool.false_ne_true]
  cases unsupported object with
  | true => rfl
  | false =>
    cases object.lookup "unsupported_payload" with
    | none => rfl
    | some marker => simp [isTrue_bool]

theorem summarize_summary :
    summarize (summarize object).entries = summarize object ↔ AllNamed object := by
  constructor
  · intro same
    have twice : (summarize (summarize object).entries).get "truncated_fields" = _ :=
      get_truncated_twice
    rw [same, get_summary_truncated] at twice
    unfold AllNamed
    by_cases none_truncated : truncated object = []
    · simp [none_truncated]
    · rw [if_neg none_truncated, if_neg none_truncated, some_inj, Json.array.injEq] at twice
      have lengths := congrArg length twice
      simp only [length_map, length_take] at lengths
      omega
  · intro named
    refine OrderedMap.ext_get fun key => ?_
    by_cases marked : key = "unsupported_payload"
    · rw [marked]
      exact get_unsupported_twice
    by_cases listed : key = "truncated_fields"
    · rw [listed, get_truncated_twice, take_of_length_le named]
      split
      · rfl
      · rw [get_summary_truncated, if_neg ‹_›]
    · rw [get_summary marked listed, get_summary marked listed]
      have starts : start (summarize object).entries = start object := by
        unfold start
        rw [kind_summary]
      rw [starts]
      split
      · rename_i field
        rw [shown_summary field]
      · rfl

theorem compactPayload_other {payload : Json} (other : ∀ object, payload ≠ .object object) :
    compactPayload (compactPayload payload) ≠ compactPayload payload := by
  let unknown : Summary := versioned.insert "unsupported_payload" (.bool true)
  have first : compactPayload payload = .object unknown.entries := by
    cases payload with
    | object fields => exact absurd rfl (other fields)
    | _ => rfl
  rw [first]
  intro same
  rw [compactPayload, Json.object.injEq] at same
  -- the summary of the marker has an entity, which the marker itself has not
  have entity : (summarize unknown.entries).get "entity_type" = unknown.get "entity_type" := by
    unfold OrderedMap.get
    rw [same]
  rw [get_summary (by decide) (by decide), if_neg (by decide)] at entity
  cases entity

/-- A payload that compaction leaves as it is, once it is compacted. -/
def Settles (payload : Json) : Prop := ∃ object, payload = .object object ∧ AllNamed object

theorem compactPayload_twice (payload : Json) :
    compactPayload (compactPayload payload) = compactPayload payload ↔ Settles payload := by
  constructor
  · intro same
    by_cases shape : ∃ object, payload = .object object
    · obtain ⟨object, rfl⟩ := shape
      refine ⟨object, rfl, summarize_summary.mp ?_⟩
      rw [compactPayload, compactPayload, Json.object.injEq] at same
      refine OrderedMap.ext_get fun key => ?_
      unfold OrderedMap.get
      rw [same]
    · exact absurd same (compactPayload_other fun object is => shape ⟨object, is⟩)
  · rintro ⟨object, rfl, named⟩
    rw [compactPayload, compactPayload, summarize_summary.mpr named]

theorem compaction_is_idempotent [DecidableEq Json] :
    (∀ payload, compactPayload (compactPayload payload) = compactPayload payload ↔
      Settles payload) ∧
    ∀ payloads, (compactEvents (compactEvents payloads).1).2 = 0 ↔
      ∀ payload ∈ payloads, Settles payload := by
  refine ⟨compactPayload_twice, fun payloads => ?_⟩
  simp only [compactEvents, countP_eq_zero, List.mem_map, decide_eq_true_eq, ne_eq,
    Decidable.not_not, forall_exists_index, and_imp, forall_apply_eq_imp_iff₂,
    compactPayload_twice]

/-- `null` has no entity, and its marker is given one. -/
theorem null_gains_entity :
    ¬ ∀ payload, compactPayload (compactPayload payload) = compactPayload payload := by
  intro claimed
  have other : compactPayload (compactPayload .null) ≠ compactPayload .null :=
    compactPayload_other (by simp)
  exact other (claimed .null)

end Agentix.TaskStore.EventPayload
