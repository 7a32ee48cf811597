import Agentix.Lib.Naming
import Agentix.Lib.Streams
import Agentix.OpenCode.PartCache
import Mathlib.Algebra.GroupWithZero.Nat

/-! # Streamed text is never repeated

The cache knows of a part the text that was streamed, or its length, or that it has lost a length.  In
each case the end of the part emits what continues the text, or nothing.
-/

namespace Agentix.OpenCode

open Lib List Option Prod

/-! ## Keys -/

theorem key_toList (part : PartId) : part.key.toList =
    part.assistantMessageID.toList ++ ':' :: Nat.toDigits 10 part.ordinal := by
  simp [PartId.key]

theorem key_injective {part other : PartId} (same : part.key = other.key) : part = other := by
  have digits : ∀ n, ':' ∉ (Nat.toDigits 10 n).reverse := fun n mem =>
    absurd (Nat.isDigit_of_mem_toDigits (by decide) (by decide) (mem_reverse.mp mem)) (by decide)
  have lists := congrArg (fun key => key.toList.reverse) same
  simp only [key_toList, reverse_append, reverse_cons, append_assoc,
    singleton_append] at lists
  obtain ⟨ordinals, messages⟩ := Streams.Reader.first_unique (digits _) (digits _) lists
  obtain ⟨message, ordinal⟩ := part
  obtain ⟨message', ordinal'⟩ := other
  rw [PartId.mk.injEq]
  exact ⟨String.toList_inj.mp (reverse_injective messages),
    toDigits_injective (reverse_injective ordinals)⟩

theorem key_ne_toolKey (part : PartId) (message id : String) (terminal : Bool) :
    part.key ≠ toolKey message id terminal := by
  intro same
  have last := congrArg (fun key => key.toList.getLast?) same
  have tool : (toolKey message id terminal).toList.getLast? = some 'd' := by
    cases terminal <;> simp [toolKey, getLast?_append, getLast?_cons]
  have some : Nat.toDigits 10 part.ordinal ≠ [] := Nat.toDigits_ne_nil
  obtain ⟨digit, ends⟩ := getLast?_isSome.mpr some |> isSome_iff_exists.mp
  simp only [key_toList, tool] at last
  rw [getLast?_append_of_ne_nil _ (cons_ne_nil _ _), getLast?_cons, ends,
    getD_some, Option.some.injEq] at last
  subst last
  exact absurd (Nat.isDigit_of_mem_toDigits (by decide) (by decide)
    (mem_of_getLast? ends)) (by decide)

/-! ## Evictions -/

section Maps

variable {α : Type} {m rest before : Entries String α} {k k' : String} {v w : α}

/-- Everything that the one map has, the other one has. -/
def Within (m m' : Entries String α) : Prop :=
  ∀ k v, m.get k = some v → m'.get k = some v

theorem within_append (distinct : ((before ++ rest).map fst).Nodup) :
    Within rest (before ++ rest) := by
  intro k v found
  rw [map_append, nodup_append] at distinct
  have mem : k ∈ rest.map fst := by
    by_contra absent
    rw [← Entries.get_eq_none, found] at absent
    cases absent
  have absent : before.get k = none :=
    Entries.get_eq_none.mpr fun early => distinct.2.2 k early k mem rfl
  rw [Entries.get_append_of_none absent, found]

theorem evict_suffix (entries : Entries String CacheValue) (bytes : Nat) :
    (evict entries bytes).1 <:+ entries := by
  induction entries generalizing bytes with
  | nil => exact suffix_rfl
  | cons entry rest ih =>
    rw [evict]
    split
    · exact (ih _).trans (suffix_cons _ _)
    · exact suffix_rfl

end Maps

/-- No key is twice in a map. -/
structure Distinct (cache : PartCache) : Prop where
  entries : (cache.entries.map fst).Nodup
  textLengths : (cache.textLengths.map fst).Nodup

section Cache

variable {cache : PartCache} {id other : String} {length : Nat} {value : CacheValue} {text : JsString}

theorem rememberText_entries : (cache.rememberText id length).entries = cache.entries := by
  rw [PartCache.rememberText]
  split <;> rfl

/-- What is remembered was so before, or is the new length; what is lost leaves the flag. -/
theorem rememberText_spec (distinct : Distinct cache) :
    ((cache.rememberText id length).textLengths.map fst).Nodup ∧
    Within (cache.rememberText id length).textLengths ((cache.textLengths.delete id).set id length) ∧
    ((cache.rememberText id length).textLengthsEvicted = true ∨
      (cache.rememberText id length).textLengths = (cache.textLengths.delete id).set id length ∧
        (cache.rememberText id length).textLengthsEvicted = cache.textLengthsEvicted) := by
  have nodup : (((cache.textLengths.delete id).set id length).map fst).Nodup :=
    Entries.nodup_set (Entries.nodup_delete distinct.textLengths)
  rw [PartCache.rememberText]
  generalize (cache.textLengths.delete id).set id length = lengths at nodup ⊢
  split
  · refine ⟨?_, ?_, .inl rfl⟩
    · rw [map_tail]
      exact nodup.tail
    · cases lengths with
      | nil => exact fun _ _ found => found
      | cons first lengths => exact (within_append nodup : Within lengths ([first] ++ lengths))
  · exact ⟨nodup, fun _ _ found => found, .inr ⟨rfl, rfl⟩⟩

theorem put_spec (distinct : Distinct cache) : ((cache.put id value).entries.map fst).Nodup ∧
    Within (cache.put id value).entries ((cache.entries.delete id).set id value) := by
  have nodup : (((cache.entries.delete id).set id value).map fst).Nodup :=
    Entries.nodup_set (Entries.nodup_delete distinct.entries)
  obtain ⟨before, parts⟩ := evict_suffix ((cache.entries.delete id).set id value)
    (cache.bytes - ((cache.entries.get id).map CacheValue.weight).getD 0 + value.weight)
  rw [← parts] at nodup ⊢
  refine ⟨?_, within_append nodup⟩
  rw [map_append, nodup_append] at nodup
  exact nodup.2.1

theorem distinct_rememberText (distinct : Distinct cache) :
    Distinct (cache.rememberText id length) :=
  ⟨by rw [rememberText_entries]; exact distinct.entries, (rememberText_spec distinct).1⟩

theorem distinct_put (distinct : Distinct cache) : Distinct (cache.put id value) :=
  ⟨(put_spec distinct).1, distinct.textLengths⟩

theorem distinct_setText (distinct : Distinct cache) : Distinct (cache.setText id text) :=
  distinct_put (distinct_rememberText distinct)

theorem rememberText_evicted (evicted : cache.textLengthsEvicted = true) :
    (cache.rememberText id length).textLengthsEvicted = true := by
  rw [PartCache.rememberText]
  split
  · rfl
  · exact evicted

/-! ## What is known of a part -/

/-- Where the cache has something of a part, it is what was streamed; a length is lost with a flag. -/
structure Tracks (cache : PartCache) (id : String) (streamed : JsString) : Prop where
  payload : ∀ value, cache.entries.get id = some value → value = .text streamed
  length : ∀ n, cache.textLengths.get id = some n → n = streamed.length
  lost : cache.textLengths.get id = none → cache.textLengthsEvicted = true ∨ streamed = []

variable {streamed : JsString}

theorem Tracks.put_of_ne (tracks : Tracks cache id streamed) (distinct : Distinct cache)
    (ne : id ≠ other) : Tracks (cache.put other value) id streamed := by
  refine ⟨fun found present => tracks.payload found ?_, tracks.length, tracks.lost⟩
  have before := (put_spec distinct).2 id found present
  rwa [Entries.get_set_of_ne ne, Entries.get_delete_of_ne ne] at before

theorem Tracks.rememberText_of_ne (tracks : Tracks cache id streamed) (distinct : Distinct cache)
    (ne : id ≠ other) : Tracks (cache.rememberText other length) id streamed := by
  obtain ⟨-, within, kept⟩ := @rememberText_spec cache other length distinct
  refine ⟨fun found present => tracks.payload found ?_, fun n present => tracks.length n ?_,
    fun absent => ?_⟩
  · rwa [rememberText_entries] at present
  · have before := within id n present
    rwa [Entries.get_set_of_ne ne, Entries.get_delete_of_ne ne] at before
  · obtain evicted | ⟨lengths, flag⟩ := kept
    · exact .inl evicted
    · rw [lengths, Entries.get_set_of_ne ne, Entries.get_delete_of_ne ne] at absent
      rw [flag]
      exact tracks.lost absent

/-- The length that is set is the one that is known, or is lost at once. -/
theorem rememberText_get (distinct : Distinct cache) :
    (∀ n, (cache.rememberText id length).textLengths.get id = some n → n = length) ∧
    ((cache.rememberText id length).textLengths.get id = none →
      (cache.rememberText id length).textLengthsEvicted = true) := by
  obtain ⟨-, within, kept⟩ := @rememberText_spec cache id length distinct
  refine ⟨fun n present => ?_, fun absent => ?_⟩
  · have same := within id n present
    rw [Entries.get_set_self, some.injEq] at same
    exact same.symm
  · obtain evicted | ⟨lengths, -⟩ := kept
    · exact evicted
    · rw [lengths, Entries.get_set_self] at absent
      cases absent

theorem tracks_rememberText (distinct : Distinct cache)
    (payload : ∀ value, cache.entries.get id = some value → value = .text streamed)
    (same : length = streamed.length) : Tracks (cache.rememberText id length) id streamed := by
  obtain ⟨known, lost⟩ := @rememberText_get cache id length distinct
  refine ⟨fun found present => payload found ?_, fun n present => (known n present).trans same,
    fun absent => .inl (lost absent)⟩
  rwa [rememberText_entries] at present

theorem tracks_setText (distinct : Distinct cache) : Tracks (cache.setText id text) id text := by
  obtain ⟨known, lost⟩ := @rememberText_get cache id text.length distinct
  refine ⟨fun found present => ?_, known, fun absent => .inl (lost absent)⟩
  have same := (put_spec (distinct_rememberText distinct)).2 id found present
  rw [Entries.get_set_self, some.injEq] at same
  exact same.symm

/-! ### Deltas and ends -/

theorem appendText_delta (text : JsString) : (cache.appendText id text).2 = text := by
  rw [PartCache.appendText]
  split <;> rfl

theorem Tracks.appendText (tracks : Tracks cache id streamed) (distinct : Distinct cache)
    (delta : JsString) : Tracks (cache.appendText id delta).1 id (streamed ++ delta) := by
  cases payload : cache.entries.get id with
  | some value =>
    cases tracks.payload value payload
    simp only [PartCache.appendText, payload]
    exact tracks_setText distinct
  | none =>
    cases length : cache.textLengths.get id with
    | some n =>
      simp only [PartCache.appendText, payload, length]
      refine tracks_rememberText distinct (fun value present => ?_) ?_
      · rw [payload] at present
        cases present
      · rw [length_append, tracks.length n length]
    | none =>
      simp only [PartCache.appendText, payload, length]
      split
      · rename_i evicted
        refine ⟨fun value present => ?_, fun n present => ?_, fun _ => .inl evicted⟩
        · rw [payload] at present
          cases present
        · rw [length] at present
          cases present
      · rename_i kept
        obtain evicted | rfl := tracks.lost length
        · exact absurd evicted kept
        · exact tracks_setText distinct

theorem Tracks.endText (tracks : Tracks cache id streamed) (distinct : Distinct cache)
    (starts : streamed <+: text) : Tracks (cache.endText id text).1 id text ∧
      ((cache.endText id text).2 = text.drop streamed.length ∨
        (cache.endText id text).2 = [] ∧ cache.textLengthsEvicted = true) := by
  refine ⟨tracks_setText distinct, ?_⟩
  cases payload : cache.entries.get id with
  | some value =>
    cases tracks.payload value payload
    simp only [PartCache.endText, payload, isPrefixOf_iff_prefix.mpr starts, if_true]
    exact .inl trivial
  | none =>
    cases length : cache.textLengths.get id with
    | some n =>
      simp only [PartCache.endText, payload, length, tracks.length n length]
      exact .inl trivial
    | none =>
      simp only [PartCache.endText, payload, length]
      split
      · rename_i evicted
        exact .inr ⟨rfl, evicted⟩
      · rename_i kept
        obtain evicted | rfl := tracks.lost length
        · exact absurd evicted kept
        · exact .inl rfl

end Cache

/-! ## Events -/

/-- The part whose text an event is about. -/
def Event.part? : Event → Option PartId
  | .textStarted part | .textDelta part _ | .textEnded part _ => some part
  | .tool _ _ _ => none

def run (parts : PartCache) : List ((String → Option String) × Event) →
    PartCache × List (Event × Option AgentMessageDelta)
  | [] => (parts, [])
  | (aliases, first) :: events =>
    let (next, emitted) := event aliases parts first
    let (after, rest) := run next events
    (after, (first, emitted) :: rest)

/-- The strings that are emitted for a part. -/
def textOf (part : PartId) (emissions : List (Event × Option AgentMessageDelta)) : JsString :=
  emissions.flatMap fun emission =>
    if emission.1.part? = some part then (emission.2.map AgentMessageDelta.delta).getD [] else []

section Events

variable {cache : PartCache} {aliases : String → Option String} {part : PartId} {first : Event}
  {streamed delta text : JsString} {root : String}

theorem delta_agentMessageDelta :
    ((agentMessageDelta root delta).map AgentMessageDelta.delta).getD [] = delta := by
  rw [agentMessageDelta]
  split
  · rename_i empty
    rw [empty]
    rfl
  · rfl

def Event.key : Event → String
  | .textStarted part | .textDelta part _ | .textEnded part _ => part.key
  | .tool message id terminal => toolKey message id terminal

theorem key_ne (ne : first.part? ≠ some part) : part.key ≠ first.key := by
  cases first with
  | textStarted other => exact fun same => ne (congrArg some (key_injective same).symm)
  | textDelta other delta => exact fun same => ne (congrArg some (key_injective same).symm)
  | textEnded other text => exact fun same => ne (congrArg some (key_injective same).symm)
  | tool message id terminal => exact key_ne_toolKey part message id terminal

/-- What an operation does to the cache, at a key. -/
inductive Touches (cache : PartCache) (key : String) : PartCache → Prop
  | none : Touches cache key cache
  | text (text : JsString) : Touches cache key (cache.setText key text)
  | length (length : Nat) : Touches cache key (cache.rememberText key length)
  | seen : Touches cache key (cache.put key .seen)

theorem touches_event : Touches cache first.key (event aliases cache first).1 := by
  cases first with
  | textStarted part =>
    simp only [event]
    split
    · exact .text []
    · exact .none
  | textDelta part delta =>
    simp only [event]
    split
    · exact .none
    · simp only [PartCache.appendText]
      split
      · exact .text _
      · exact .length _
      · split
        · exact .none
        · exact .text _
  | textEnded part text =>
    simp only [event]
    split
    · exact .none
    · exact .text text
  | tool message id terminal =>
    simp only [event]
    split
    · exact .none
    · split
      · exact .none
      · exact .seen

section Touches

variable {next : PartCache} {key : String}

theorem Touches.distinct (touches : Touches cache key next) (distinct : Distinct cache) :
    Distinct next := by
  cases touches with
  | none => exact distinct
  | text text => exact distinct_setText distinct
  | length length => exact distinct_rememberText distinct
  | seen => exact distinct_put distinct

/-- The flag stays. -/
theorem Touches.evicted (touches : Touches cache key next)
    (evicted : cache.textLengthsEvicted = true) : next.textLengthsEvicted = true := by
  cases touches with
  | none => exact evicted
  | text text => exact rememberText_evicted evicted
  | length length => exact rememberText_evicted evicted
  | seen => exact evicted

theorem Touches.tracks (touches : Touches cache key next) (distinct : Distinct cache)
    (tracks : Tracks cache part.key streamed) (ne : part.key ≠ key) :
    Tracks next part.key streamed := by
  cases touches with
  | none => exact tracks
  | text text =>
    exact (tracks.rememberText_of_ne distinct ne).put_of_ne (distinct_rememberText distinct)
      ne
  | length length => exact tracks.rememberText_of_ne distinct ne
  | seen => exact tracks.put_of_ne distinct ne

end Touches

theorem run_evicted (events : List ((String → Option String) × Event))
    (evicted : cache.textLengthsEvicted = true) : (run cache events).1.textLengthsEvicted = true := by
  induction events generalizing cache with
  | nil => exact evicted
  | cons head events ih =>
    exact ih (touches_event.evicted evicted)

/-- The events of a part. -/
def eventsOf (part : PartId) (events : List ((String → Option String) × Event)) : List Event :=
  (events.map snd).filter fun found => found.part? = some part

/-- The message of the part has a turn at each of its deltas and ends. -/
def Known (part : PartId) (events : List ((String → Option String) × Event)) : Prop :=
  ∀ entry ∈ events, entry.2.part? = some part → (rootOf entry.1 part.assistantMessageID).isSome

theorem eventsOf_cons (aliases : String → Option String) (first : Event)
    (events : List ((String → Option String) × Event)) : eventsOf part ((aliases, first) :: events) =
      if first.part? = some part then first :: eventsOf part events else eventsOf part events := by
  simp only [eventsOf, map_cons, filter_cons, decide_eq_true_eq]

theorem textOf_run_cons (aliases : String → Option String) (first : Event)
    (events : List ((String → Option String) × Event)) :
    textOf part (run cache ((aliases, first) :: events)).2 =
      (if first.part? = some part then
        ((event aliases cache first).2.map AgentMessageDelta.delta).getD [] else []) ++
      textOf part (run (event aliases cache first).1 events).2 := rfl

theorem tracks_started (distinct : Distinct cache) (tracks : Tracks cache part.key []) :
    Tracks (event aliases cache (.textStarted part)).1 part.key [] := by
  simp only [event]
  split
  · exact tracks_setText distinct
  · exact tracks

theorem started_silent : (event aliases cache (.textStarted part)).2 = none := by
  simp only [event]
  split <;> rfl

theorem event_textDelta (delta : JsString) (distinct : Distinct cache) (tracks : Tracks cache part.key streamed)
    (rooted : (rootOf aliases part.assistantMessageID).isSome) :
    Tracks (event aliases cache (.textDelta part delta)).1 part.key (streamed ++ delta) ∧
      ((event aliases cache (.textDelta part delta)).2.map AgentMessageDelta.delta).getD [] = delta := by
  obtain ⟨root, turn⟩ := isSome_iff_exists.mp rooted
  simp only [event, turn, appendText_delta]
  exact ⟨tracks.appendText distinct delta, delta_agentMessageDelta⟩

theorem event_textEnded (distinct : Distinct cache) (tracks : Tracks cache part.key streamed)
    (starts : streamed <+: text) (rooted : (rootOf aliases part.assistantMessageID).isSome) :
    Tracks (event aliases cache (.textEnded part text)).1 part.key text ∧
      (streamed ++ ((event aliases cache (.textEnded part text)).2.map
          AgentMessageDelta.delta).getD [] = text ∨
        ((event aliases cache (.textEnded part text)).2.map AgentMessageDelta.delta).getD [] = [] ∧
          (event aliases cache (.textEnded part text)).1.textLengthsEvicted = true) := by
  obtain ⟨root, turn⟩ := isSome_iff_exists.mp rooted
  obtain ⟨tracks', emitted⟩ := tracks.endText distinct starts
  simp only [event, turn, delta_agentMessageDelta]
  refine ⟨tracks', ?_⟩
  obtain rest | ⟨nothing, evicted⟩ := emitted
  · rw [rest]
    obtain ⟨more, rfl⟩ := starts
    rw [drop_left]
    exact .inl rfl
  · exact .inr ⟨nothing, rememberText_evicted evicted⟩

theorem run_continues {events : List ((String → Option String) × Event)} {begins : List Event}
    {deltas : List JsString} {ends : Nat} (distinct : Distinct cache)
    (tracks : Tracks cache part.key streamed) (known : Known part events)
    (started : begins = [] ∨ begins = [.textStarted part] ∧ streamed = [])
    (order : eventsOf part events =
      begins ++ (deltas.map (.textDelta part) ++ replicate ends (.textEnded part text)))
    (starts : streamed ++ deltas.flatten <+: text) :
    ∃ tail, textOf part (run cache events).2 = deltas.flatten ++ tail ∧
      streamed ++ (deltas.flatten ++ tail) <+: text ∧
      (ends ≠ 0 → (run cache events).1.textLengthsEvicted = false →
        streamed ++ (deltas.flatten ++ tail) = text) := by
  induction events generalizing cache streamed begins deltas ends with
  | nil =>
    obtain ⟨-, rest⟩ := append_eq_nil_iff.mp order.symm
    obtain ⟨none, never⟩ := append_eq_nil_iff.mp rest
    cases map_eq_nil_iff.mp none
    cases (replicate_eq_nil_iff _).mp never
    exact ⟨[], rfl, by simpa using starts, fun some => absurd rfl some⟩
  | cons entry events ih =>
    obtain ⟨aliases, first⟩ := entry
    have distinct' : Distinct (event aliases cache first).1 := touches_event.distinct distinct
    have known' : Known part events := fun entry mem => known entry (mem_cons_of_mem _ mem)
    rw [eventsOf_cons] at order
    rw [textOf_run_cons]
    by_cases same : first.part? = some part
    · rw [if_pos same] at order ⊢
      have rooted : (rootOf aliases part.assistantMessageID).isSome :=
        known _ mem_cons_self same
      obtain rfl | ⟨rfl, rfl⟩ := started
      · cases deltas with
        | cons delta deltas =>
          obtain ⟨rfl, rest⟩ := cons.inj order
          obtain ⟨tracks', emitted⟩ := event_textDelta delta distinct tracks rooted
          rw [flatten_cons, ← append_assoc] at starts
          obtain ⟨tail, whole, within, complete⟩ :=
            ih distinct' tracks' known' (.inl rfl) rest starts
          refine ⟨tail, ?_, ?_, fun some kept => ?_⟩
          · rw [emitted, whole, flatten_cons, append_assoc]
          · rw [flatten_cons, append_assoc, ← append_assoc]
            exact within
          · rw [flatten_cons, append_assoc, ← append_assoc]
            exact complete some kept
        | nil =>
          cases ends with
          | zero => cases order
          | succ ends =>
            obtain ⟨rfl, rest⟩ := cons.inj order
            rw [flatten_nil, append_nil] at starts
            obtain ⟨tracks', emitted⟩ := event_textEnded distinct tracks starts rooted
            have order : eventsOf part events = [] ++ (([] : List JsString).map (.textDelta part) ++
                replicate ends (.textEnded part text)) := rest
            obtain ⟨tail, whole, within, -⟩ := ih distinct' tracks' known' (.inl rfl) order (by simp)
            -- behind the whole text nothing follows
            obtain rfl : tail = [] := by
              have bound := within.length_le
              rw [flatten_nil, nil_append, length_append] at bound
              exact length_eq_zero_iff.mp (by omega)
            have final : (run cache ((aliases, .textEnded part text) :: events)).1 =
                (run (event aliases cache (.textEnded part text)).1 events).1 := rfl
            rw [whole, final]
            generalize ((event aliases cache (.textEnded part text)).2.map
              AgentMessageDelta.delta).getD [] = emission at emitted ⊢
            obtain rest | ⟨rfl, evicted⟩ := emitted
            · refine ⟨emission, append_nil _, ?_, fun _ _ => rest⟩
              exact rest ▸ prefix_rfl
            · refine ⟨[], rfl, ?_, fun _ kept => ?_⟩
              · simpa using starts
              · rw [run_evicted events evicted] at kept
                cases kept
      · obtain ⟨rfl, rest⟩ := cons.inj order
        rw [started_silent]
        exact ih distinct' (tracks_started distinct tracks) known' (.inl rfl) rest
          starts
    · rw [if_neg same] at order ⊢
      exact ih distinct' (touches_event.tracks distinct tracks (key_ne same)) known'
        started order starts

/-- Whatever happens to other parts, and whatever is evicted: what is emitted for a part is a prefix
of its text that has its deltas, and the whole text if no length was evicted. -/
theorem text_never_repeated (part : PartId) (text : JsString) (deltas : List JsString) (ends : Nat)
    (begins : List Event) (started : begins = [] ∨ begins = [.textStarted part])
    (events : List ((String → Option String) × Event)) (known : Known part events)
    (order : eventsOf part events =
      begins ++ (deltas.map (.textDelta part) ++ replicate ends (.textEnded part text)))
    (starts : deltas.flatten <+: text) :
    deltas.flatten <+: textOf part (run {} events).2 ∧ textOf part (run {} events).2 <+: text ∧
      (ends ≠ 0 → (run {} events).1.textLengthsEvicted = false →
        textOf part (run {} events).2 = text) := by
  have empty : Tracks {} part.key [] :=
    ⟨fun _ found => (by cases found), fun _ found => (by cases found), fun _ => .inr rfl⟩
  have begun : begins = [] ∨ begins = [.textStarted part] ∧ ([] : JsString) = [] :=
    started.imp_right fun only => ⟨only, rfl⟩
  have distinct : Distinct {} := ⟨nodup_nil, nodup_nil⟩
  obtain ⟨tail, whole, within, complete⟩ := run_continues distinct empty known begun order starts
  rw [whole]
  exact ⟨prefix_append _ _, within, complete⟩

end Events

/-- The end of a text that was streamed in part, and its replay. -/
theorem streamed_text_ends : textOf ⟨"m", 0⟩ (run {}
      [(fun _ => some "u", .textStarted ⟨"m", 0⟩), (fun _ => some "u", .textDelta ⟨"m", 0⟩ [104]),
        (fun _ => some "u", .tool "m" "t" true), (fun _ => some "u", .textEnded ⟨"m", 0⟩ [104, 105]),
        (fun _ => some "u", .textEnded ⟨"m", 0⟩ [104, 105])]).2 <+: [104, 105] :=
  (text_never_repeated ⟨"m", 0⟩ [104, 105] [[104]] 2 [.textStarted ⟨"m", 0⟩] (.inr rfl) _
    (by simp [Known, rootOf]) rfl (by decide)).2.1

/-! ## Bounds -/

def weights (entries : Entries String CacheValue) : Nat :=
  (entries.map fun entry => entry.2.weight).sum

/-- The counter has the bytes of the texts, so the loop of `set` ends with the last entry. -/
structure Bounded (cache : PartCache) : Prop where
  weighed : cache.bytes = weights cache.entries
  entries : cache.entries.length ≤ 8192
  bytes : cache.bytes ≤ 8 * 1024 * 1024
  textLengths : cache.textLengths.length ≤ 8192

section Bounds

variable {cache next : PartCache} {id key : String} {value : CacheValue} {length : Nat}

theorem evict_weights (entries : Entries String CacheValue) :
    (evict entries (weights entries)).2 = weights (evict entries (weights entries)).1 ∧
      (evict entries (weights entries)).1.length ≤ 8192 ∧
      (evict entries (weights entries)).2 ≤ 8 * 1024 * 1024 := by
  induction entries with
  | nil => decide
  | cons entry rest ih =>
    have less : weights (entry :: rest) - entry.2.weight = weights rest := by
      simp [weights]
    rw [evict]
    split
    · rwa [less]
    · rename_i fits
      refine ⟨rfl, ?_, ?_⟩
      · rw [length_cons]
        omega
      · dsimp only
        omega

theorem weights_delete (entries : Entries String CacheValue) (id : String) :
    weights (entries.delete id) + ((entries.get id).map CacheValue.weight).getD 0 =
      weights entries := by
  induction entries with
  | nil => rfl
  | cons entry rest ih =>
    by_cases same : entry.1 = id
    · simp [weights, Entries.delete, Entries.get, same, Nat.add_comm]
    · simp only [weights, Entries.delete, Entries.get, same, if_false, map_cons, sum_cons] at ih ⊢
      omega

theorem length_delete_le {α : Type} (m : Entries String α) (id : String) : (m.delete id).length ≤ m.length := by
  induction m with
  | nil => exact Nat.le_refl _
  | cons entry rest ih =>
    rw [Entries.delete]
    split <;> simp only [length_cons] <;> omega

theorem Bounded.rememberText (bounded : Bounded cache) (distinct : Distinct cache) :
    Bounded (cache.rememberText id length) := by
  have added : ((cache.textLengths.delete id).set id length).length =
      (cache.textLengths.delete id).length + 1 := by
    rw [Entries.set_of_none (Entries.get_delete_self distinct.textLengths), length_append,
      length_singleton]
  have shorter := length_delete_le cache.textLengths id
  have before := bounded.textLengths
  rw [PartCache.rememberText]
  split
  · refine { bounded with textLengths := ?_ }
    rw [length_tail]
    omega
  · refine { bounded with textLengths := ?_ }
    dsimp only
    omega

theorem Bounded.put (bounded : Bounded cache) (distinct : Distinct cache) :
    Bounded (cache.put id value) := by
  have counted : cache.bytes - ((cache.entries.get id).map CacheValue.weight).getD 0 +
      value.weight = weights ((cache.entries.delete id).set id value) := by
    have removed := weights_delete cache.entries id
    rw [Entries.set_of_none (Entries.get_delete_self distinct.entries), bounded.weighed]
    simp only [weights, map_append, sum_append, map_cons, map_nil, sum_cons, sum_nil] at removed ⊢
    omega
  obtain ⟨weighed, few, small⟩ := evict_weights ((cache.entries.delete id).set id value)
  rw [PartCache.put, counted]
  exact ⟨weighed, few, small, bounded.textLengths⟩

theorem Touches.bounded (touches : Touches cache key next) (bounded : Bounded cache)
    (distinct : Distinct cache) : Bounded next := by
  cases touches with
  | none => exact bounded
  | text text => exact (bounded.rememberText distinct).put (distinct_rememberText distinct)
  | length length => exact bounded.rememberText distinct
  | seen => exact bounded.put distinct

end Bounds

/-- Whatever events come: the cache has 8192 entries and 8 MiB of text at most, the counter is exact,
and the map of the lengths has 8192 entries at most. -/
theorem parts_stay_bounded (events : List ((String → Option String) × Event)) :
    Bounded (run {} events).1 := by
  suffices ∀ cache, Bounded cache → Distinct cache → Bounded (run cache events).1 from
    this {} (by constructor <;> decide) ⟨nodup_nil, nodup_nil⟩
  induction events with
  | nil => exact fun _ bounded _ => bounded
  | cons head events ih =>
    intro cache bounded distinct
    exact ih _ (touches_event.bounded bounded distinct) (touches_event.distinct distinct)

end Agentix.OpenCode
