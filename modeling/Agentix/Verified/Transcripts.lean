import Agentix.Claude.History
import Mathlib.Data.List.Infix

/-! # The reader of the last turn

Two projections that agree on what was seen and on the last turn stay so with every record, and throw
at the same one.  What the reader has cached is the projection of the complete lines of its tail, and
the lines of a longer tail are those and the ones behind them.
-/

namespace Agentix.Claude.History

open Lib List Option

/-! ## Records -/

def Agree (p q : Projection) : Prop :=
  p.seen = q.seen ∧ p.turns.getLast? = q.turns.getLast?

section Records

variable {engine : JsEngine} {sessionId : JsString} {p q : Projection}

theorem rel_bind {α β γ : Type} {r : β → γ → Prop} {value : Option α} {f : α → Option β}
    {g : α → Option γ} (each : ∀ a, Option.Rel r (f a) (g a)) :
    Option.Rel r (value >>= f) (value >>= g) := by
  cases value with
  | none => exact .none
  | some a => exact each a

theorem rel_ite {α β : Type} {r : α → β → Prop} {condition : Prop} [Decidable condition]
    {a a' : Option α} {b b' : Option β} (yes : Option.Rel r a b) (no : Option.Rel r a' b') :
    Option.Rel r (if condition then a else a') (if condition then b else b') := by
  split
  · exact yes
  · exact no

theorem agree_concat {turns turns' : List Turn} {turn : Turn} {seen seen' : List JsValue}
    (same : seen = seen') : Agree ⟨turns ++ [turn], seen⟩ ⟨turns' ++ [turn], seen'⟩ :=
  ⟨same, by simp⟩

/-- A record leads to projections that agree, whether earlier turns are kept or not. -/
theorem appendRecord_agree (agree : Agree p q) (record : JsValue) :
    Option.Rel Agree (appendRecord engine sessionId false p record)
      (appendRecord engine sessionId true q record) := by
  obtain ⟨seen, last⟩ := agree
  have has : q.has = p.has := by
    funext uuid
    rw [Projection.has, Projection.has, seen]
  have same : Option.Rel Agree (some p) (some q) := .some ⟨seen, last⟩
  simp only [appendRecord, has, last]
  refine rel_bind fun own => rel_ite same ?_
  refine rel_bind fun sidechain => rel_ite same ?_
  refine rel_bind fun isMeta => rel_ite same ?_
  refine rel_bind fun uuid => ?_
  cases uuid with
  | none => exact same
  | some uuid =>
    have seen' : p.seen ++ [uuid] = q.seen ++ [uuid] := by rw [seen]
    refine rel_ite same ?_
    refine rel_bind fun message => rel_ite (.some ⟨seen', last⟩) ?_
    refine rel_bind fun content => rel_bind fun text => rel_bind fun type => ?_
    refine rel_ite (.some (agree_concat seen')) ?_
    cases q.turns.getLast? with
    | none => exact .some ⟨seen', last⟩
    | some turn =>
      refine rel_ite (rel_bind fun turn => .some (agree_concat seen')) ?_
      exact rel_ite (rel_bind fun turn => .some (agree_concat seen'))
        (rel_bind fun turn => .some (agree_concat seen'))

theorem foldlM_agree (agree : Agree p q) (rows : List JsValue) :
    Option.Rel Agree (rows.foldlM (appendRecord engine sessionId false) p)
      (rows.foldlM (appendRecord engine sessionId true) q) := by
  induction rows generalizing p q with
  | nil => exact .some agree
  | cons row rows ih =>
    rw [foldlM_cons, foldlM_cons]
    have step : Option.Rel Agree (appendRecord engine sessionId false p row)
        (appendRecord engine sessionId true q row) := appendRecord_agree agree row
    cases first : appendRecord engine sessionId false p row with
    | none =>
      rw [first] at step
      cases second : appendRecord engine sessionId true q row with
      | none => exact .none
      | some q' =>
        rw [second] at step
        cases step
    | some p' =>
      rw [first] at step
      cases second : appendRecord engine sessionId true q row with
      | none =>
        rw [second] at step
        cases step
      | some q' =>
        rw [second] at step
        cases step with
        | some agree => exact ih agree

end Records

/-! ## Lines -/

section Lines

variable {engine : JsEngine} {sessionId : JsString} {a b : List UInt8}

/-- The bytes are empty or end with a line end. -/
def Closed (bytes : List UInt8) : Prop :=
  bytes = [] ∨ ∃ lines, bytes = lines ++ [10]

/-- The records behind complete lines are read on their own. -/
theorem records_append (closed : Closed a) :
    records engine (utf8Text (a ++ b)) = records engine (utf8Text a) ++ records engine (utf8Text b) := by
  obtain rfl | ⟨lines, rfl⟩ := closed
  · rfl
  · have whole : utf8Text (lines ++ [10] ++ b) = utf8Text lines ++ 10 :: utf8Text b := by
      rw [append_assoc, singleton_append, utf8Text_append]
    have first : utf8Text (lines ++ [10]) = utf8Text lines ++ [10] := utf8Text_append lines []
    have nothing : ((splitUnits 10 []).filter (· != [])).filterMap engine.parse = [] := rfl
    rw [whole, first]
    simp only [records, splitUnits_append, filter_append, filterMap_append, nothing,
      append_nil]

end Lines

/-! ## Complete lines -/

/-- The complete lines of a buffer. -/
def complete (buffer : List UInt8) : List UInt8 :=
  buffer.rdropWhile (· != 10)

section Complete

variable {buffer a b : List UInt8} {tail : Tail}

theorem complete_concat (buffer : List UInt8) (byte : UInt8) : complete (buffer ++ [byte]) =
    if byte = 10 then buffer ++ [10] else complete buffer := by
  by_cases newline : byte = 10
  · subst newline
    rw [complete, rdropWhile_concat_neg _ _ _ (by decide), if_pos rfl]
  · rw [complete, rdropWhile_concat_pos _ _ _ (by simpa using newline), if_neg newline, complete]

theorem closed_complete (buffer : List UInt8) : Closed (complete buffer) := by
  induction buffer using reverseRecOn with
  | nil => exact .inl rfl
  | append_singleton buffer byte ih =>
    rw [complete_concat]
    split
    · exact .inr ⟨buffer, rfl⟩
    · exact ih

theorem complete_append (a b : List UInt8) : complete (a ++ b) =
    if complete b = [] then complete a else a ++ complete b := by
  induction b using reverseRecOn with
  | nil => simp [complete]
  | append_singleton b byte ih =>
    rw [← append_assoc, complete_concat, complete_concat, ih]
    by_cases newline : byte = 10
    · simp [newline]
    · simp only [if_neg newline]

theorem complete_prefix (a b : List UInt8) : complete a <+: complete (a ++ b) := by
  rw [complete_append]
  split
  · exact prefix_rfl
  · exact ( rdropWhile_prefix _ a).trans (prefix_append _ _)

theorem firstEnd_append_of_mem (mem : 10 ∈ a) : firstEnd (a ++ b) = firstEnd a := by
  rw [firstEnd, firstEnd, findIdx?_append]
  cases found : a.findIdx? (· == 10) with
  | none =>
    have ne := findIdx?_eq_none_iff.mp found 10 mem
    simp at ne
  | some place => rfl

theorem firstEnd_of_not_mem (missing : 10 ∉ a) : firstEnd a = 0 := by
  have absent : a.findIdx? (· == 10) = none := by
    rw [findIdx?_eq_none_iff]
    intro byte mem
    simpa using fun same : byte = 10 => missing (same ▸ mem)
  rw [firstEnd, absent]

theorem firstEnd_le (buffer : List UInt8) : firstEnd buffer ≤ buffer.length := by
  rw [firstEnd]
  split
  · rename_i place found
    exact (findIdx?_eq_some_iff_getElem.mp found).1
  · exact Nat.zero_le _

theorem mem_of_closed (closed : Closed a) (some : a ≠ []) : 10 ∈ a := by
  obtain rfl | ⟨lines, rfl⟩ := closed
  · exact absurd rfl some
  · exact mem_append_right _ mem_cons_self

theorem firstEnd_complete (buffer : List UInt8) : firstEnd (complete buffer) = firstEnd buffer := by
  induction buffer using reverseRecOn with
  | nil => rfl
  | append_singleton buffer byte ih =>
    rw [complete_concat]
    by_cases newline : byte = 10
    · rw [if_pos newline, newline]
    · rw [if_neg newline, ih]
      by_cases mem : 10 ∈ buffer
      · rw [firstEnd_append_of_mem mem]
      · rw [firstEnd_of_not_mem mem, firstEnd_of_not_mem (by simp [mem, Ne.symm newline])]

/-- Where the range of a tail starts. -/
def begin (tail : Tail) : Nat :=
  if tail.start = 0 then 0 else firstEnd tail.buffer

theorem begin_le (tail : Tail) : begin tail ≤ (complete tail.buffer).length := by
  rw [begin]
  split
  · exact Nat.zero_le _
  · rw [← firstEnd_complete]
    exact firstEnd_le _

theorem completeRange_eq (tail : Tail) :
    completeRange tail = (begin tail, (complete tail.buffer).length) := by
  have le := begin_le tail
  rw [completeRange, Prod.mk.injEq]
  exact ⟨rfl, max_eq_right le⟩

theorem subarray_complete (buffer : List UInt8) (n : Nat) :
    subarray buffer n (complete buffer).length = (complete buffer).drop n := by
  have whole : complete buffer <+: buffer := rdropWhile_prefix _ _
  rw [subarray, ← prefix_iff_eq_take.mp whole]

/-- The lines of a tail that are projected. -/
def region (tail : Tail) : List UInt8 :=
  (complete tail.buffer).drop (begin tail)

theorem closed_drop (closed : Closed a) (n : Nat) : Closed (a.drop n) := by
  obtain rfl | ⟨lines, rfl⟩ := closed
  · rw [drop_nil]
    exact .inl rfl
  · by_cases within : n ≤ lines.length
    · rw [drop_append_of_le_length within]
      exact .inr ⟨_, rfl⟩
    · rw [drop_of_length_le (by rw [length_append, length_singleton]; omega)]
      exact .inl rfl

theorem closed_region (tail : Tail) : Closed (region tail) :=
  closed_drop (closed_complete _) _

/-- A tail that starts with an earlier one has its lines, and those behind them. -/
theorem region_append {earlier : Tail} (start : earlier.start = tail.start)
    (first : earlier.buffer <+: tail.buffer) : region tail = region earlier ++
      (complete tail.buffer).drop (max (begin tail) (complete earlier.buffer).length) := by
  obtain ⟨behind, parts⟩ := first
  obtain ⟨more, whole⟩ := complete_prefix earlier.buffer behind
  rw [parts] at whole
  by_cases nothing : complete earlier.buffer = []
  · have empty : region earlier = [] := by rw [region, nothing, drop_nil]
    rw [empty, nothing, length_nil, Nat.max_zero, nil_append, region]
  · have mem := mem_of_closed (closed_complete _) nothing
    have same : begin tail = begin earlier := by
      rw [begin, begin, start, ← firstEnd_complete, ← whole, firstEnd_append_of_mem mem,
        firstEnd_complete]
    have le := begin_le earlier
    rw [region, region, same, max_eq_right le, ← whole, drop_append_of_le_length le, drop_left]

end Complete

/-! ## The reader -/

section Reader

variable {engine : JsEngine} {sessionId : JsString} {cached : Option Cached} {call : Call} {tail : Tail}

theorem appendRecords_append {a b : List UInt8} (closed : Closed a) (projection : Projection)
    (latestOnly : Bool) :
    appendRecords engine (utf8Text (a ++ b)) sessionId projection latestOnly =
      (appendRecords engine (utf8Text a) sessionId projection latestOnly).bind fun projection =>
        appendRecords engine (utf8Text b) sessionId projection latestOnly := by
  rw [appendRecords, records_append closed, foldlM_append]
  rfl

/-- The projection of the last turn of a tail. -/
def latest (engine : JsEngine) (sessionId : JsString) (tail : Tail) : Option Projection :=
  appendRecords engine (utf8Text (region tail)) sessionId {} true

def Valid (engine : JsEngine) (cached : Cached) : Prop :=
  cached.stop = (complete cached.tail.buffer).length ∧
    latest engine cached.sessionId cached.tail = some cached.projection

def freshAnswer (engine : JsEngine) (call : Call) : Option (Option Turn) :=
  (readTranscript engine call.file call.sessionId).map getLast?

theorem freshAnswer_eq (found : readTail call.file = some tail) :
    freshAnswer engine call = (latest engine call.sessionId tail).map fun p => p.turns.getLast? := by
  have agree : Option.Rel Agree
      (appendRecords engine (utf8Text (region tail)) call.sessionId {} false)
      (latest engine call.sessionId tail) :=
    foldlM_agree ⟨rfl, rfl⟩ _
  rw [freshAnswer, readTranscript, found]
  simp only [bind_eq_bind, bind_some, completeRange_eq, subarray_complete]
  change ((appendRecords engine (utf8Text (region tail)) call.sessionId {} false).bind
    fun projection => some projection.turns).map getLast? = _
  generalize appendRecords engine (utf8Text (region tail)) call.sessionId {} false = whole at agree ⊢
  generalize latest engine call.sessionId tail = last at agree ⊢
  cases agree with
  | none => rfl
  | some agree => exact congrArg some agree.2

/-- The reader goes on from what it has to the projection of the whole tail. -/
theorem read_eq (valid : ∀ c, cached = some c → Valid engine c)
    (found : readTail call.file = some tail) :
    read engine cached call = ((latest engine call.sessionId tail).map fun p => p.turns.getLast?,
      (latest engine call.sessionId tail).map fun projection =>
        ⟨call.path, call.sessionId, tail, (complete tail.buffer).length, projection⟩) := by
  simp only [read, found, completeRange_eq]
  generalize appended : (cached.filter fun cached => decide (cached.path = call.path ∧
    cached.sessionId = call.sessionId ∧ cached.tail.start = tail.start ∧
      cached.tail.buffer <+: tail.buffer)) = own
  cases own with
  | none =>
    simp only [getD_none, max_self, subarray_complete]
    simp only [latest, region]
    generalize appendRecords engine _ call.sessionId {} true = projected
    cases projected <;> rfl
  | some c =>
    obtain ⟨held, met⟩ := filter_eq_some_iff.mp appended
    obtain ⟨-, session, start, first⟩ := of_decide_eq_true met
    obtain ⟨stop, projected⟩ := valid c held
    have whole : latest engine call.sessionId tail = appendRecords engine (utf8Text
        ((complete tail.buffer).drop (max (begin tail) (complete c.tail.buffer).length)))
          call.sessionId c.projection true := by
      rw [latest, region_append start first,
        appendRecords_append (closed_region c.tail), ← session]
      rw [latest] at projected
      rw [projected]
      rfl
    simp only [getD_some, stop, subarray_complete, whole]
    generalize appendRecords engine _ call.sessionId c.projection true = projected
    cases projected <;> rfl

theorem read_spec (valid : ∀ c, cached = some c → Valid engine c) :
    (read engine cached call).1 = freshAnswer engine call ∧
      ∀ c, (read engine cached call).2 = some c → Valid engine c := by
  cases found : readTail call.file with
  | none =>
    have fresh : freshAnswer engine call = none := by
      rw [freshAnswer, readTranscript, found]
      rfl
    rw [fresh, read, found]
    exact ⟨rfl, valid⟩
  | some tail =>
    rw [freshAnswer_eq found, read_eq valid found]
    refine ⟨rfl, fun c same => ?_⟩
    obtain ⟨projection, projected, rfl⟩ := map_eq_some_iff.mp same
    exact ⟨rfl, projected⟩

end Reader

/-- Whatever the files were, every call of a reader answers with the last turn of a fresh read, or
throws where a fresh read throws. -/
theorem answers_fresh (engine : JsEngine) (calls : List Call) :
    answers engine none calls = calls.map (freshAnswer engine) := by
  suffices any : ∀ cached : Option Cached, (∀ c, cached = some c → Valid engine c) →
      answers engine cached calls = calls.map (freshAnswer engine) from
    any none fun _ same => by cases same
  induction calls with
  | nil => exact fun _ _ => rfl
  | cons call calls ih =>
    intro cached valid
    have spec : (read engine cached call).1 = freshAnswer engine call ∧ _ := read_spec valid
    obtain ⟨answer, next⟩ := spec
    rw [answers, map_cons, ← answer, ← ih _ next]

end Agentix.Claude.History
