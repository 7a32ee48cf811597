import Agentix.Output.Buffer

/-! # The output of a turn keeps its order -/

namespace Agentix.Output

open Codex TaskStore List Option

variable {items : List TurnOutputItem} {item : TurnOutputItem} {index : Nat}

/-! ## Items -/

variable {i : Nat} {a : TurnOutputItem} {f : TurnOutputItem → TurnOutputItem}

/-- No two items have the same id, at most one is active, and at most one is the answer of a summary
that no item has taken yet. -/
structure Settled (items : List TurnOutputItem) : Prop where
  ids : ∀ {i j : Nat} {a b : TurnOutputItem}, items[i]? = some a → items[j]? = some b →
    a.id ≠ none → a.id = b.id → i = j
  active : ∀ {i j : Nat} {a b : TurnOutputItem}, items[i]? = some a → items[j]? = some b →
    a.active = true → b.active = true → i = j
  fallback : ∀ {i j : Nat} {a b : TurnOutputItem}, items[i]? = some a → items[j]? = some b →
    a.summaryFallback = true → b.summaryFallback = true → i = j
  summary : ∀ {i : Nat} {a : TurnOutputItem}, items[i]? = some a → a.summaryFallback = true →
    a.id = none ∧ a.process = false

/-- An entry keeps its id; only the answer of a summary gets one, and no entry becomes one. -/
structure Adopts (old new : TurnOutputItem) : Prop where
  fallback : new.summaryFallback = true → old.summaryFallback = true
  id : new.id = old.id ∨ old.summaryFallback = true ∧ old.id = none

/-- Every entry stays at its place. -/
def Grows (old new : List TurnOutputItem) : Prop :=
  ∀ (i : Nat) (a : TurnOutputItem), old[i]? = some a → ∃ b, new[i]? = some b ∧ Adopts a b

theorem Adopts.refl (item : TurnOutputItem) : Adopts item item := ⟨fun same => same, .inl rfl⟩

theorem Adopts.trans {b c : TurnOutputItem} (first : Adopts a b) (second : Adopts b c) :
    Adopts a c where
  fallback := fun summary => first.fallback (second.fallback summary)
  id := by
    obtain same | ⟨summary, unnamed⟩ := second.id
    · rw [same]
      exact first.id
    · obtain same' | adopted := first.id
      · exact .inr ⟨first.fallback summary, same' ▸ unnamed⟩
      · exact .inr adopted

theorem Grows.refl (items : List TurnOutputItem) : Grows items items :=
  fun _ a here => ⟨a, here, .refl a⟩

theorem Grows.trans {a b c : List TurnOutputItem} (first : Grows a b) (second : Grows b c) :
    Grows a c := by
  intro i x here
  obtain ⟨y, there, adopts⟩ := first i x here
  obtain ⟨z, there', adopts'⟩ := second i y there
  exact ⟨z, there', adopts.trans adopts'⟩

theorem Settled.nil : Settled [] where
  ids := fun none => by simp at none
  active := fun none => by simp at none
  fallback := fun none => by simp at none
  summary := fun none => by simp at none

/-! ## Adding, updating and activating an item -/

theorem getElem?_concat :
    (items ++ [item])[i]? = some a ↔ items[i]? = some a ∨ i = items.length ∧ a = item := by
  rw [getElem?_append]
  split
  · rename_i inside
    constructor
    · exact .inl
    · rintro (here | ⟨rfl, -⟩)
      · exact here
      · omega
  · rename_i outside
    have absent : items[i]? = none := getElem?_eq_none (by omega)
    rw [absent, getElem?_singleton]
    split
    · simp only [some.injEq, reduceCtorEq, false_or]
      constructor
      · rintro rfl
        exact ⟨by omega, rfl⟩
      · rintro ⟨-, rfl⟩
        rfl
    · simp only [reduceCtorEq, false_or, false_iff]
      rintro ⟨rfl, -⟩
      omega

theorem Grows.append (items added : List TurnOutputItem) : Grows items (items ++ added) := by
  intro i a here
  refine ⟨a, ?_, .refl a⟩
  rw [getElem?_append_left (List.getElem?_eq_some_iff.mp here).1]
  exact here

theorem Settled.append (settled : Settled items) (idle : item.active = false)
    (fresh : item.id ≠ none → ∀ a ∈ items, a.id ≠ item.id)
    (summary : item.summaryFallback = true →
      item.id = none ∧ item.process = false ∧ ∀ a ∈ items, a.summaryFallback = false) :
    Settled (items ++ [item]) where
  ids := by
    intro i j a b first second named same
    obtain one | ⟨rfl, rfl⟩ := getElem?_concat.mp first
    · obtain two | ⟨rfl, rfl⟩ := getElem?_concat.mp second
      · exact settled.ids one two named same
      · exact absurd same (fresh (same ▸ named) a (mem_of_getElem? one))
    · obtain two | ⟨rfl, rfl⟩ := getElem?_concat.mp second
      · exact absurd same.symm (fresh named b (mem_of_getElem? two))
      · rfl
  active := by
    intro i j a b first second on on'
    obtain one | ⟨rfl, rfl⟩ := getElem?_concat.mp first
    · obtain two | ⟨rfl, rfl⟩ := getElem?_concat.mp second
      · exact settled.active one two on on'
      · simp [idle] at on'
    · simp [idle] at on
  fallback := by
    intro i j a b first second on on'
    obtain one | ⟨rfl, rfl⟩ := getElem?_concat.mp first
    · obtain two | ⟨rfl, rfl⟩ := getElem?_concat.mp second
      · exact settled.fallback one two on on'
      · simp [(summary on').2.2 a (mem_of_getElem? one)] at on
    · obtain two | ⟨rfl, rfl⟩ := getElem?_concat.mp second
      · simp [(summary on).2.2 b (mem_of_getElem? two)] at on'
      · rfl
  summary := by
    intro i a here on
    obtain here | ⟨rfl, rfl⟩ := getElem?_concat.mp here
    · exact settled.summary here on
    · exact ⟨(summary on).1, (summary on).2.1⟩

theorem getElem?_modify_cases (here : items[index]? = some item)
    (there : (items.modify index f)[i]? = some a) :
    i = index ∧ a = f item ∨ i ≠ index ∧ items[i]? = some a := by
  rw [getElem?_modify] at there
  by_cases same : index = i
  · subst same
    rw [here] at there
    exact .inl ⟨rfl, by simpa using there.symm⟩
  · exact .inr ⟨fun h => same h.symm, by simpa [same] using there⟩

theorem Grows.modify (here : items[index]? = some item) (adopts : Adopts item (f item)) :
    Grows items (items.modify index f) := by
  intro i a there
  rw [getElem?_modify, there]
  by_cases same : index = i
  · subst same
    obtain rfl : item = a := some.inj (here.symm.trans there)
    exact ⟨f item, by simp, adopts⟩
  · exact ⟨a, by simp [same], .refl a⟩

theorem Settled.modify (settled : Settled items) (here : items[index]? = some item)
    (same : (f item).active = item.active)
    (id : (f item).id = item.id ∨ ∀ a ∈ items, a.id ≠ (f item).id)
    (summary : (f item).summaryFallback = true → item.summaryFallback = true ∧
      (f item).id = item.id ∧ (f item).process = item.process) :
    Settled (items.modify index f) where
  ids := by
    intro i j a b first second named alike
    obtain ⟨rfl, rfl⟩ | ⟨other, one⟩ := getElem?_modify_cases here first
    · obtain ⟨rfl, rfl⟩ | ⟨other, two⟩ := getElem?_modify_cases here second
      · rfl
      · obtain kept | fresh := id
        · exact settled.ids here two (kept ▸ named) (kept ▸ alike)
        · exact absurd alike.symm (fresh b (mem_of_getElem? two))
    · obtain ⟨rfl, rfl⟩ | ⟨other', two⟩ := getElem?_modify_cases here second
      · obtain kept | fresh := id
        · exact settled.ids one here named (alike.trans kept)
        · exact absurd alike (fresh a (mem_of_getElem? one))
      · exact settled.ids one two named alike
  active := by
    intro i j a b first second on on'
    obtain ⟨rfl, rfl⟩ | ⟨other, one⟩ := getElem?_modify_cases here first
    · obtain ⟨rfl, rfl⟩ | ⟨other, two⟩ := getElem?_modify_cases here second
      · rfl
      · exact settled.active here two (same ▸ on) on'
    · obtain ⟨rfl, rfl⟩ | ⟨other', two⟩ := getElem?_modify_cases here second
      · exact settled.active one here on (same ▸ on')
      · exact settled.active one two on on'
  fallback := by
    intro i j a b first second on on'
    obtain ⟨rfl, rfl⟩ | ⟨other, one⟩ := getElem?_modify_cases here first
    · obtain ⟨rfl, rfl⟩ | ⟨other, two⟩ := getElem?_modify_cases here second
      · rfl
      · exact settled.fallback here two (summary on).1 on'
    · obtain ⟨rfl, rfl⟩ | ⟨other', two⟩ := getElem?_modify_cases here second
      · exact settled.fallback one here on (summary on').1
      · exact settled.fallback one two on on'
  summary := by
    intro i a there on
    obtain ⟨rfl, rfl⟩ | ⟨other, old⟩ := getElem?_modify_cases here there
    · obtain ⟨before, kept, kept'⟩ := summary on
      obtain ⟨unnamed, answer⟩ := settled.summary here before
      exact ⟨kept.trans unnamed, kept'.trans answer⟩
    · exact settled.summary old on

theorem getElem?_activateOutput :
    (activateOutput items index)[i]? = some a ↔
      ∃ b, items[i]? = some b ∧ a = { b with active := i == index } := by
  rw [activateOutput, getElem?_mapIdx, map_eq_some_iff]
  simp only [eq_comm]

theorem Grows.activateOutput (items : List TurnOutputItem) (index : Nat) :
    Grows items (activateOutput items index) :=
  fun _ a here => ⟨_, getElem?_activateOutput.mpr ⟨a, here, rfl⟩, fun same => same, .inl rfl⟩

theorem Settled.activateOutput (settled : Settled items) (index : Nat) :
    Settled (activateOutput items index) where
  ids := by
    intro i j a b first second named same
    obtain ⟨x, one, rfl⟩ := getElem?_activateOutput.mp first
    obtain ⟨y, two, rfl⟩ := getElem?_activateOutput.mp second
    exact settled.ids one two named same
  active := by
    intro i j a b first second on on'
    obtain ⟨x, one, rfl⟩ := getElem?_activateOutput.mp first
    obtain ⟨y, two, rfl⟩ := getElem?_activateOutput.mp second
    simp only [beq_iff_eq] at on on'
    omega
  fallback := by
    intro i j a b first second on on'
    obtain ⟨x, one, rfl⟩ := getElem?_activateOutput.mp first
    obtain ⟨y, two, rfl⟩ := getElem?_activateOutput.mp second
    exact settled.fallback one two on on'
  summary := by
    intro i a here on
    obtain ⟨x, old, rfl⟩ := getElem?_activateOutput.mp here
    have unnamed := settled.summary old on
    exact unnamed

/-! ## The item a text belongs to -/

section Existing

variable {id : Option String} {process : Bool}

theorem existingIndex_some (found : existingIndex items id process = some index) :
    ∃ item, items[index]? = some item ∧ id ≠ none ∧
      (item.id = id ∨ item.summaryFallback = true ∧ ∀ a ∈ items, a.id ≠ id) := by
  unfold existingIndex at found
  cases named : items.findIdx? fun item => id.isSome && item.id == id with
  | some place =>
    rw [named] at found
    obtain rfl : place = index := some.inj found
    obtain ⟨inside, holds, -⟩ := findIdx?_eq_some_iff_getElem.mp named
    simp only [Bool.and_eq_true, beq_iff_eq] at holds
    refine ⟨items[place], getElem?_eq_getElem inside, ?_, .inl holds.2⟩
    exact isSome_iff_ne_none.mp holds.1
  | none =>
    rw [named] at found
    change (if (!process && id.isSome) = true then _ else _) = some index at found
    split at found
    · rename_i answer
      simp only [Bool.and_eq_true] at answer
      obtain ⟨inside, holds, -⟩ := findIdx?_eq_some_iff_getElem.mp found
      refine ⟨items[index], getElem?_eq_getElem inside,
        isSome_iff_ne_none.mp answer.2, .inr ⟨holds, ?_⟩⟩
      intro a mem same
      have ne := findIdx?_eq_none_iff.mp named a mem
      simp [answer.2, same] at ne
    · cases found

theorem existingIndex_none (missing : existingIndex items id process = none) (named : id ≠ none) :
    ∀ a ∈ items, a.id ≠ id := by
  unfold existingIndex at missing
  cases found : items.findIdx? fun item => id.isSome && item.id == id with
  | some place =>
    rw [found] at missing
    cases missing
  | none =>
    intro a mem same
    have ne := findIdx?_eq_none_iff.mp found a mem
    simp [isSome_iff_ne_none.mpr named, same] at ne

theorem existingIndex_named (settled : Settled items) (here : items[index]? = some item)
    (same : item.id = id) (named : id ≠ none) : existingIndex items id process = some index := by
  unfold existingIndex
  cases found : items.findIdx? fun item => id.isSome && item.id == id with
  | some place =>
    obtain ⟨inside, holds, -⟩ := findIdx?_eq_some_iff_getElem.mp found
    simp only [Bool.and_eq_true, beq_iff_eq] at holds
    have alike := settled.ids here (getElem?_eq_getElem inside) (same ▸ named)
      (same.trans holds.2.symm)
    rw [alike]
    rfl
  | none =>
    have ne := findIdx?_eq_none_iff.mp found item (mem_of_getElem? here)
    simp [isSome_iff_ne_none.mpr named, same] at ne

end Existing

/-! ## Recording a text -/

variable {now : Nat} {output : OutputConfig} {r : TurnOutputItem}

/-- The buffer shows the answer its items make up. -/
structure Sound (b : TurnBuffer) : Prop where
  settled : Settled b.outputItems
  text : b.agentText = answer b.outputItems

/-- What a call makes of the buffer. -/
structure Extends (b b' : TurnBuffer) : Prop where
  sound : Sound b'
  grows : Grows b.outputItems b'.outputItems

theorem Extends.trans {a b c : TurnBuffer} (first : Extends a b) (second : Extends b c) :
    Extends a c :=
  ⟨second.sound, first.grows.trans second.grows⟩

variable {b : TurnBuffer} {id : Option String} {text : String} {process append : Bool}

theorem Sound.extends_self (sound : Sound b) : Extends b b := ⟨sound, .refl _⟩

/-- Only a buffer that has been read without its items is hydrated. -/
theorem Sound.hydrated (sound : Sound b) : b.hydrated id process = b.outputItems := by
  unfold TurnBuffer.hydrated
  rw [if_neg]
  rintro ⟨empty, shown⟩
  rw [sound.text, empty] at shown
  exact shown rfl

/-- The items with a text recorded. -/
def recordedItems (items : List TurnOutputItem) (id : Option String) (text : String)
    (process append : Bool) : List TurnOutputItem :=
  match existingIndex items id process with
  | some index => items.modify index (·.recorded id text process append)
  | none => items ++ [{ id := id, text := text, process := process }]

theorem recordedItems_settled (settled : Settled items) :
    Settled (recordedItems items id text process append) := by
  unfold recordedItems
  cases found : existingIndex items id process with
  | some index =>
    obtain ⟨item, here, named, same⟩ := existingIndex_some found
    refine settled.modify here rfl ?_ (fun on => by simp [TurnOutputItem.recorded] at on)
    cases summary : item.summaryFallback with
    | false => exact .inl (by simp [TurnOutputItem.recorded, summary])
    | true =>
      obtain same | ⟨-, fresh⟩ := same
      · exact absurd (same.symm.trans (settled.summary here summary).1) named
      · exact .inr (by simpa [TurnOutputItem.recorded, summary] using fresh)
  | none =>
    apply settled.append rfl
    · exact fun named => existingIndex_none found named
    · exact fun on => by cases on

theorem recordedItems_grows (settled : Settled items) :
    Grows items (recordedItems items id text process append) := by
  unfold recordedItems
  cases found : existingIndex items id process with
  | some index =>
    obtain ⟨item, here, -, -⟩ := existingIndex_some found
    apply Grows.modify here
    refine ⟨fun on => by simp [TurnOutputItem.recorded] at on, ?_⟩
    cases summary : item.summaryFallback with
    | false => exact .inl (by simp [TurnOutputItem.recorded, summary])
    | true => exact .inr ⟨rfl, (settled.summary here summary).1⟩
  | none => exact Grows.append _ _

/-- The items after a text is recorded, where one of them may have become the active one. -/
theorem Sound.recordOutput_items (sound : Sound b) (id : Option String) (text : String)
    (process append : Bool) :
    (b.recordOutput id text process append).outputItems =
        recordedItems b.outputItems id text process append ∨
      ∃ index, (b.recordOutput id text process append).outputItems =
        activateOutput (recordedItems b.outputItems id text process append) index := by
  unfold TurnBuffer.recordOutput TurnBuffer.refreshAgentText recordedItems
  rw [sound.hydrated]
  dsimp only
  split
  · exact .inr ⟨_, rfl⟩
  · exact .inl rfl

theorem Sound.recordOutput (sound : Sound b) (id : Option String) (text : String)
    (process append : Bool) : Extends b (b.recordOutput id text process append) := by
  obtain same | ⟨index, same⟩ := sound.recordOutput_items id text process append
  · refine ⟨⟨?_, rfl⟩, ?_⟩
    · rw [same]
      exact recordedItems_settled sound.settled
    · rw [same]
      exact recordedItems_grows sound.settled
  · refine ⟨⟨?_, rfl⟩, ?_⟩
    · rw [same]
      exact (recordedItems_settled sound.settled).activateOutput index
    · rw [same]
      exact (recordedItems_grows sound.settled).trans (.activateOutput _ index)

/-! ## Recording a summary -/

/-- The texts of the answers. -/
def answers (items : List TurnOutputItem) : List String :=
  (items.filter (!·.process)).map TurnOutputItem.text

theorem answers_eq (items : List TurnOutputItem) : answers items =
    ((items.map fun item => (item.process, item.text)).filter (!·.1)).map Prod.snd := by
  rw [answers, List.filter_map, List.map_map]
  rfl

theorem answers_cons (item : TurnOutputItem) (items : List TurnOutputItem) : answers (item :: items) =
    if item.process = true then answers items else item.text :: answers items := by
  cases process : item.process <;> simp [answers, process]

@[simp] theorem answers_activateOutput (items : List TurnOutputItem) (index : Nat) :
    answers (activateOutput items index) = answers items := by
  have shown : (activateOutput items index).map (fun item => (item.process, item.text)) =
      items.map fun item => (item.process, item.text) := by
    apply ext_getElem?
    intro i
    simp [activateOutput]
    rfl
  rw [answers_eq, answers_eq, shown]

theorem answers_modify {old : String} (one : answers items = [old]) :
    answers (items.modify (items.findIdx (!·.process)) fun item => { item with text := text }) =
      [text] := by
  induction items with
  | nil => cases one
  | cons item items ih =>
    rw [answers_cons] at one
    cases process : item.process with
    | true =>
      rw [if_pos process] at one
      rw [findIdx_cons, process]
      simp only [Bool.not_true, cond_false, modify_succ_cons, answers_cons]
      rw [if_pos process]
      exact ih one
    | false =>
      rw [if_neg (by simp [process])] at one
      obtain ⟨-, rest⟩ := cons.inj one
      rw [findIdx_cons, process]
      simp only [Bool.not_false, cond_true, modify_zero_cons, answers_cons, rest]
      rw [if_neg (by simp [process])]

theorem recordSummary_eq_self
    (known : answers b.outputItems = [text] ∨ 2 ≤ (answers b.outputItems).length) :
    b.recordSummary text = b := by
  unfold TurnBuffer.recordSummary
  dsimp only
  unfold answers at known
  cases found : b.outputItems.filter (!·.process) with
  | nil => simp [found] at known
  | cons item rest =>
    cases rest with
    | nil =>
      obtain same : item.text = text := by simpa [found] using known
      simp [same]
    | cons _ _ => rfl

/-- The answer of a summary, as an entry of its own. -/
def unclaimed (text : String) : TurnOutputItem :=
  { summaryFallback := true, id := none, text := text, process := false }

/-- What a summary does: nothing, or it adds the one answer, or it replaces its text. -/
theorem recordSummary_cases (b : TurnBuffer) (text : String) :
    b.recordSummary text = b ∧
        (answers b.outputItems = [text] ∨ 2 ≤ (answers b.outputItems).length) ∨
      (∃ items, (answers b.outputItems = [] ∧ items = b.outputItems ++ [unclaimed text] ∨
          ∃ old, answers b.outputItems = [old] ∧
            items = b.outputItems.modify (b.outputItems.findIdx (!·.process))
              fun item => { item with text := text }) ∧
        b.recordSummary text = TurnBuffer.refreshAgentText
          { b with outputItems := activateOutput items (items.findIdx (!·.process)) }) := by
  cases found : b.outputItems.filter (!·.process) with
  | nil =>
    refine .inr ⟨_, .inl ⟨by simp [answers, found], rfl⟩, ?_⟩
    unfold TurnBuffer.recordSummary
    dsimp only
    rw [found]
    rfl
  | cons item rest =>
    cases rest with
    | nil =>
      by_cases same : item.text = text
      · have known : answers b.outputItems = [text] := by simp [answers, found, same]
        exact .inl ⟨recordSummary_eq_self (.inl known), .inl known⟩
      · refine .inr ⟨_, .inr ⟨item.text, by simp [answers, found], rfl⟩, ?_⟩
        unfold TurnBuffer.recordSummary
        dsimp only
        rw [found]
        simp only [if_neg same]
    | cons next more =>
      have several : 2 ≤ (answers b.outputItems).length := by simp [answers, found]
      exact .inl ⟨recordSummary_eq_self (.inr several), .inr several⟩

theorem exists_answer {old : String} (one : answers items = [old]) :
    ∃ item, items[items.findIdx (!·.process)]? = some item ∧ item.process = false := by
  have inside : items.findIdx (!·.process) < items.length := by
    apply findIdx_lt_length_of_exists
    have mem : old ∈ answers items := by simp [one]
    obtain ⟨item, there, -⟩ := mem_map.mp mem
    exact ⟨item, (mem_filter.mp there).1, (mem_filter.mp there).2⟩
  refine ⟨_, getElem?_eq_getElem inside, ?_⟩
  simpa using findIdx_getElem (w := inside)

theorem Sound.recordSummary (sound : Sound b) : Extends b (b.recordSummary text) := by
  obtain ⟨same, -⟩ | ⟨items, how, same⟩ := recordSummary_cases b text
  · rw [same]
    exact sound.extends_self
  · rw [same]
    have settled : Settled items ∧ Grows b.outputItems items := by
      obtain ⟨none, rfl⟩ | ⟨old, one, rfl⟩ := how
      · refine ⟨sound.settled.append rfl (fun named => absurd rfl named) ?_, .append _ _⟩
        intro _
        refine ⟨rfl, rfl, fun a mem => ?_⟩
        cases summary : a.summaryFallback with
        | false => rfl
        | true =>
          obtain ⟨i, here⟩ := mem_iff_getElem?.mp mem
          have shown : a.text ∈ answers b.outputItems := by
            apply List.mem_map_of_mem
            simp [mem, (sound.settled.summary here summary).2]
          simp [none] at shown
      · obtain ⟨item, here, -⟩ := exists_answer one
        exact ⟨sound.settled.modify here rfl (.inl rfl) fun on => ⟨on, rfl, rfl⟩,
          .modify here ⟨fun on => on, .inl rfl⟩⟩
    exact ⟨⟨settled.1.activateOutput _, rfl⟩, settled.2.trans (.activateOutput _ _)⟩

theorem answers_recordSummary (b : TurnBuffer) (text : String) :
    answers (b.recordSummary text).outputItems = [text] ∨
      2 ≤ (answers (b.recordSummary text).outputItems).length := by
  obtain ⟨same, known⟩ | ⟨items, how, same⟩ := recordSummary_cases b text
  · rw [same]
    exact known
  · left
    rw [same]
    change answers (activateOutput items _) = [text]
    rw [answers_activateOutput]
    obtain ⟨none, rfl⟩ | ⟨old, one, rfl⟩ := how
    · rw [answers, filter_append, map_append, ← answers, none]
      rfl
    · exact answers_modify one

/-! ## Calls -/

theorem Sound.empty : Sound {} := ⟨.nil, rfl⟩

theorem Sound.applyItem {item : ItemSummary} (sound : Sound b) :
    Extends b (b.applyItem item output now).1 := by
  have started : Sound (b.ensureStarted now) := ⟨sound.settled, sound.text⟩
  unfold TurnBuffer.applyItem
  dsimp only
  split
  · exact sound.extends_self
  split
  · have recorded := started.recordOutput (some item.id) (item.text.getD "") false false
    exact ⟨⟨recorded.sound.settled, recorded.sound.text⟩, recorded.grows⟩
  split
  · have recorded := started.recordOutput (some item.id) ((output.processText item).getD "")
      true false
    exact ⟨recorded.sound, recorded.grows⟩
  split
  · exact ⟨⟨sound.settled, sound.text⟩, .refl _⟩
  split
  · rename_i text _
    have recorded := started.recordOutput (some item.id) text true false
    exact ⟨recorded.sound, recorded.grows⟩
  · exact ⟨⟨sound.settled, sound.text⟩, .refl _⟩

theorem Sound.appendCommentary {id delta : String} (sound : Sound b) :
    Extends b (b.appendCommentary id delta) := by
  unfold TurnBuffer.appendCommentary
  dsimp only
  split
  · exact (sound.recordOutput _ _ _ _).trans ((sound.recordOutput _ _ _ _).sound.recordOutput _ _ _ _)
  · exact sound.recordOutput _ _ _ _

theorem Sound.restore (sound : Sound b) (items : List TurnOutputItem) :
    Extends b (b.restore items) := by
  induction items generalizing b with
  | nil => exact sound.extends_self
  | cons item items ih =>
    unfold TurnBuffer.restore
    rw [foldl_cons]
    split
    · exact sound.recordSummary.trans (ih sound.recordSummary.sound)
    · exact (sound.recordOutput _ _ _ _).trans
        (ih (sound.recordOutput _ _ _ _).sound)

/-- The buffer with what a summary says of the turn besides its items. -/
def noted (b restored : TurnBuffer) (turn : TurnSummary) : TurnBuffer :=
  { b with
    answerComplete :=
      if blank restored.agentText then b.answerComplete else restored.answerComplete
    userText :=
      if !blank restored.userText && (turn.userText.any (!blank ·) || blank b.userText) then
        restored.userText
      else b.userText }

theorem mergeSummary_eq (b : TurnBuffer) (turn : TurnSummary) (output : OutputConfig) (now : Nat) :
    b.mergeSummary turn output now =
      (noted b (.fromSummary turn output now) turn).restore
        (TurnBuffer.fromSummary turn output now).outputItems := rfl

@[simp] theorem noted_outputItems (b restored : TurnBuffer) (turn : TurnSummary) :
    (noted b restored turn).outputItems = b.outputItems := rfl

@[simp] theorem noted_agentText (b restored : TurnBuffer) (turn : TurnSummary) :
    (noted b restored turn).agentText = b.agentText := rfl

theorem Sound.noted (sound : Sound b) (restored : TurnBuffer) (turn : TurnSummary) :
    Sound (noted b restored turn) where
  settled := by simpa using sound.settled
  text := by simpa using sound.text

theorem Sound.mergeSummary {turn : TurnSummary} (sound : Sound b) :
    Extends b (b.mergeSummary turn output now) := by
  rw [mergeSummary_eq]
  generalize TurnBuffer.fromSummary turn output now = summary
  have restored := (sound.noted summary turn).restore summary.outputItems
  have grows := restored.grows
  rw [noted_outputItems] at grows
  exact ⟨restored.sound, grows⟩

theorem Sound.call (sound : Sound b) (call : Call) : Extends b (b.call call) := by
  cases call with
  | recordOutput id text process append => exact sound.recordOutput id text process append
  | appendCommentary id delta => exact sound.appendCommentary
  | applyItem item output now => exact sound.applyItem
  | mergeSummary turn output now => exact sound.mergeSummary

theorem Sound.calls (sound : Sound b) (calls : List Call) :
    Extends b (calls.foldl TurnBuffer.call b) := by
  induction calls generalizing b with
  | nil => exact sound.extends_self
  | cons call calls ih =>
    exact (sound.call call).trans (ih (sound.call call).sound)

/-! ## Summaries once more -/

/-- The items hold what an item of a summary says. -/
def Held (items : List TurnOutputItem) (r : TurnOutputItem) : Prop :=
  ∃ (i : Nat) (a : TurnOutputItem), items[i]? = some a ∧ a.id ≠ none ∧ a.id = r.id ∧
    a.text = r.text ∧ a.process = r.process

theorem Held.activateOutput (held : Held items r) (index : Nat) :
    Held (activateOutput items index) r := by
  obtain ⟨i, a, here, same⟩ := held
  exact ⟨i, _, getElem?_activateOutput.mpr ⟨a, here, rfl⟩, same⟩

theorem Sound.recordOutput_held (sound : Sound b) (held : Held b.outputItems r) :
    b.recordOutput r.id r.text r.process false = b := by
  obtain ⟨i, a, here, named, same, text, process⟩ := held
  have found : existingIndex b.outputItems r.id r.process = some i :=
    existingIndex_named sound.settled here same (same ▸ named)
  have taken : a.summaryFallback = false := by
    cases summary : a.summaryFallback with
    | false => rfl
    | true => exact absurd (sound.settled.summary here summary).1 named
  have kept : a.recorded r.id r.text r.process false = a := by
    cases a
    simp_all [TurnOutputItem.recorded]
  have unchanged :
      b.outputItems.modify i (·.recorded r.id r.text r.process false) = b.outputItems := by
    apply ext_getElem?
    intro j
    rw [getElem?_modify]
    by_cases same : i = j
    · subst same
      simp [here, kept]
    · simp [same]
  unfold TurnBuffer.recordOutput TurnBuffer.refreshAgentText
  rw [sound.hydrated]
  dsimp only
  rw [found]
  simp only [bind_some, here, unchanged]
  have quiet : (!blank r.text && (false || Option.all (fun item => blank item.text ||
      (!r.process && (item.process || decide (item.text ≠ r.text)))) (some a))) = false := by
    simp only [all_some, text, process, ne_eq, not_true_eq_false, decide_false, Bool.or_false]
    cases blank r.text <;> cases r.process <;> rfl
  rw [quiet]
  simp only [Bool.and_false, Bool.false_eq_true, if_false, ← sound.text]

theorem Sound.recordOutput_holds (sound : Sound b) (named : r.id ≠ none) :
    Held (b.recordOutput r.id r.text r.process false).outputItems r := by
  have held : Held (recordedItems b.outputItems r.id r.text r.process false) r := by
    unfold recordedItems
    cases found : existingIndex b.outputItems r.id r.process with
    | some index =>
      obtain ⟨item, here, -, same⟩ := existingIndex_some found
      have taken : (item.recorded r.id r.text r.process false).id = r.id := by
        unfold TurnOutputItem.recorded
        dsimp only
        split
        · rfl
        · obtain same | ⟨summary, -⟩ := same
          · exact same
          · contradiction
      refine ⟨index, item.recorded r.id r.text r.process false, by simp [here], ?_, taken, rfl,
        rfl⟩
      rw [taken]
      exact named
    | none =>
      exact ⟨b.outputItems.length, { id := r.id, text := r.text, process := r.process }, by simp,
        named, rfl, rfl, rfl⟩
  obtain same | ⟨index, same⟩ := sound.recordOutput_items r.id r.text r.process false
  · rw [same]
    exact held
  · rw [same]
    exact held.activateOutput index

theorem Sound.recordOutput_keeps (sound : Sound b) (held : Held b.outputItems r)
    (other : id ≠ r.id) : Held (b.recordOutput id text process append).outputItems r := by
  obtain ⟨i, a, here, named, same, rest⟩ := held
  have held : Held (recordedItems b.outputItems id text process append) r := by
    unfold recordedItems
    cases found : existingIndex b.outputItems id process with
    | some index =>
      obtain ⟨item, there, -, taken⟩ := existingIndex_some found
      have ne : index ≠ i := by
        rintro rfl
        obtain rfl : a = item := some.inj (here.symm.trans there)
        obtain taken | ⟨summary, -⟩ := taken
        · exact other (taken.symm.trans same)
        · exact named (sound.settled.summary here summary).1
      exact ⟨i, a, by simp [ne, here], named, same, rest⟩
    | none =>
      refine ⟨i, a, ?_, named, same, rest⟩
      rw [getElem?_append_left (List.getElem?_eq_some_iff.mp here).1]
      exact here
  obtain same | ⟨index, same⟩ := sound.recordOutput_items id text process append
  · rw [same]
    exact held
  · rw [same]
    exact held.activateOutput index

theorem recordSummary_keeps (held : Held b.outputItems r) (inside : r.process = true) :
    Held (b.recordSummary text).outputItems r := by
  obtain ⟨same, -⟩ | ⟨items, how, same⟩ := recordSummary_cases b text
  · rw [same]
    exact held
  · rw [same]
    apply Held.activateOutput
    obtain ⟨i, a, here, named, id, text, process⟩ := held
    obtain ⟨-, rfl⟩ | ⟨old, one, rfl⟩ := how
    · refine ⟨i, a, ?_, named, id, text, process⟩
      rw [getElem?_append_left (List.getElem?_eq_some_iff.mp here).1]
      exact here
    · obtain ⟨item, there, answer⟩ := exists_answer one
      have ne : b.outputItems.findIdx (!·.process) ≠ i := by
        intro same
        rw [same] at there
        obtain rfl : a = item := some.inj (here.symm.trans there)
        simp [answer, inside] at process
      exact ⟨i, a, by simp [ne, here], named, id, text, process⟩

/-! ## What a summary is read as -/

/-- Every item has an id. -/
def Named (items : List TurnOutputItem) : Prop :=
  ∀ r ∈ items, r.id ≠ none

theorem recordedItems_named {key : String} (named : Named items) :
    Named (recordedItems items (some key) text process append) := by
  unfold recordedItems
  intro r mem
  cases found : existingIndex items (some key) process with
  | some index =>
    rw [found] at mem
    obtain ⟨item, here, -, -⟩ := existingIndex_some found
    obtain ⟨i, there⟩ := mem_iff_getElem?.mp mem
    obtain ⟨rfl, rfl⟩ | ⟨-, old⟩ := getElem?_modify_cases here there
    · unfold TurnOutputItem.recorded
      dsimp only
      split
      · simp
      · exact named item (mem_of_getElem? here)
    · exact named r (mem_of_getElem? old)
  | none =>
    rw [found] at mem
    obtain old | new := mem_append.mp mem
    · exact named r old
    · rw [mem_singleton.mp new]
      simp

theorem Named.activateOutput (named : Named items) (index : Nat) :
    Named (activateOutput items index) := by
  intro r mem
  obtain ⟨i, here⟩ := mem_iff_getElem?.mp mem
  obtain ⟨a, old, rfl⟩ := getElem?_activateOutput.mp here
  exact named a (mem_of_getElem? old)

theorem Sound.recordOutput_named {key : String} (sound : Sound b) (named : Named b.outputItems) :
    Named (b.recordOutput (some key) text process append).outputItems := by
  obtain same | ⟨index, same⟩ := sound.recordOutput_items (some key) text process append
  · rw [same]
    exact recordedItems_named named
  · rw [same]
    exact (recordedItems_named named).activateOutput index

theorem Sound.applyItem_named {item : ItemSummary} (sound : Sound b) (named : Named b.outputItems) :
    Named (b.applyItem item output now).1.outputItems := by
  have started : Sound (b.ensureStarted now) := ⟨sound.settled, sound.text⟩
  have named' : Named (b.ensureStarted now).outputItems := named
  unfold TurnBuffer.applyItem
  dsimp only
  split
  · exact named
  split
  · show Named ((b.ensureStarted now).recordOutput (some item.id) (item.text.getD "") false
      false).outputItems
    exact started.recordOutput_named named'
  split
  · exact started.recordOutput_named named'
  split
  · exact named
  split
  · exact started.recordOutput_named named'
  · exact named

/-- The items of a summary, without the answer that has no item. -/
theorem read_items (output : OutputConfig) (now : Nat) (read : List ItemSummary) (sound : Sound b)
    (named : Named b.outputItems) :
    let after := read.foldl (fun buffer item => (buffer.applyItem item output now).1) b
    Sound after ∧ Named after.outputItems := by
  induction read generalizing b with
  | nil => exact ⟨sound, named⟩
  | cons item read ih =>
    exact ih sound.applyItem.sound (sound.applyItem_named named)

/-- The items of a summary: they have ids, but for an answer without an item.  That one is the last,
and the others are no answers. -/
def Read (items : List TurnOutputItem) : Prop :=
  Named items ∨ ∃ read last, items = read ++ [last] ∧ last.summaryFallback = true ∧ Named read ∧
    ∀ r ∈ read, r.process = true

theorem process_of_answers_eq_nil (none : answers items = []) : ∀ r ∈ items, r.process = true := by
  intro r mem
  cases process : r.process with
  | true => rfl
  | false =>
    have shown : r.text ∈ answers items := mem_map_of_mem (by simp [mem, process])
    simp [none] at shown

theorem recordSummary_read (named : Named b.outputItems) :
    Read (b.recordSummary text).outputItems := by
  obtain ⟨same, -⟩ | ⟨items, how, same⟩ := recordSummary_cases b text
  · rw [same]
    exact .inl named
  · rw [same]
    change Read (activateOutput items (items.findIdx (!·.process)))
    obtain ⟨none, rfl⟩ | ⟨old, one, rfl⟩ := how
    · generalize (b.outputItems ++ [unclaimed text]).findIdx (!·.process) = index
      refine .inr ⟨activateOutput b.outputItems index, _, mapIdx_append, rfl,
        named.activateOutput index, ?_⟩
      intro r mem
      obtain ⟨i, here⟩ := mem_iff_getElem?.mp mem
      obtain ⟨a, old, rfl⟩ := getElem?_activateOutput.mp here
      exact process_of_answers_eq_nil none a (mem_of_getElem? old)
    · left
      apply Named.activateOutput
      obtain ⟨item, here, -⟩ := exists_answer one
      intro r mem
      obtain ⟨i, there⟩ := mem_iff_getElem?.mp mem
      obtain ⟨-, rfl⟩ | ⟨-, old⟩ := getElem?_modify_cases here there
      · exact named item (mem_of_getElem? here)
      · exact named r (mem_of_getElem? old)

theorem fromSummary_items (turn : TurnSummary) (output : OutputConfig) (now : Nat) :
    Settled (TurnBuffer.fromSummary turn output now).outputItems ∧
      Read (TurnBuffer.fromSummary turn output now).outputItems := by
  unfold TurnBuffer.fromSummary
  dsimp only
  have started : Sound { userText := turn.userText.getD "", status := turn.status } := ⟨.nil, rfl⟩
  obtain ⟨sound, named⟩ := read_items output now
    (turn.items.filter fun item => item.kind ≠ "userMessage") started fun _ mem => by cases mem
  generalize foldl _ _ _ = read at sound named
  generalize joined _ = shown
  have asked : ∃ b, (if blank read.userText = true then { read with userText := shown } else read) = b ∧
      Sound b ∧ Named b.outputItems := by
    refine ⟨_, rfl, ?_⟩
    split
    · exact ⟨⟨sound.settled, sound.text⟩, named⟩
    · exact ⟨sound, named⟩
  obtain ⟨b, same, sound, named⟩ := asked
  rw [same]
  split
  · split
    · exact ⟨sound.recordSummary.sound.settled, recordSummary_read named⟩
    · exact ⟨sound.settled, .inl named⟩
  · exact ⟨sound.settled, .inl named⟩

/-! ## The same summary again -/

theorem restore_cons (b : TurnBuffer) (item : TurnOutputItem) (items : List TurnOutputItem) :
    b.restore (item :: items) = (if item.summaryFallback then b.recordSummary item.text
      else b.recordOutput item.id item.text item.process false).restore items := rfl

theorem restore_append (b : TurnBuffer) (items more : List TurnOutputItem) :
    b.restore (items ++ more) = (b.restore items).restore more :=
  foldl_append

theorem Settled.unclaimed_unnamed (settled : Settled items) (mem : r ∈ items)
    (named : r.id ≠ none) : r.summaryFallback = false := by
  obtain ⟨i, here⟩ := mem_iff_getElem?.mp mem
  cases summary : r.summaryFallback with
  | false => rfl
  | true => exact absurd (settled.summary here summary).1 named

theorem Settled.pairwise (settled : Settled items) (named : Named items) :
    items.Pairwise fun a b => a.id ≠ b.id := by
  apply pairwise_iff_getElem.mpr
  intro i j inside inside' before same
  have alike := settled.ids (getElem?_eq_getElem inside) (getElem?_eq_getElem inside')
    (named _ (getElem_mem inside)) same
  omega

theorem Settled.left {more : List TurnOutputItem} (settled : Settled (items ++ more)) :
    Settled items := by
  have within : ∀ {i : Nat} {a : TurnOutputItem}, items[i]? = some a →
      (items ++ more)[i]? = some a := by
    intro i a here
    rw [getElem?_append_left (List.getElem?_eq_some_iff.mp here).1]
    exact here
  exact
    { ids := fun first second => settled.ids (within first) (within second)
      active := fun first second => settled.active (within first) (within second)
      fallback := fun first second => settled.fallback (within first) (within second)
      summary := fun here => settled.summary (within here) }

/-- What is held stays while items with other ids are recorded. -/
theorem Sound.restore_keeps (sound : Sound b) (held : Held b.outputItems r)
    (taken : ∀ a ∈ items, a.summaryFallback = false) (other : ∀ a ∈ items, a.id ≠ r.id) :
    Held (b.restore items).outputItems r := by
  induction items generalizing b with
  | nil => exact held
  | cons item items ih =>
    obtain ⟨first, taken⟩ := forall_mem_cons.mp taken
    obtain ⟨ne, other⟩ := forall_mem_cons.mp other
    rw [restore_cons, first]
    exact ih (sound.recordOutput _ _ _ _).sound (sound.recordOutput_keeps held ne) taken
      other

theorem Sound.restore_holds (sound : Sound b) (named : Named items)
    (taken : ∀ a ∈ items, a.summaryFallback = false) (apart : items.Pairwise fun a b => a.id ≠ b.id) :
    ∀ r ∈ items, Held (b.restore items).outputItems r := by
  induction items generalizing b with
  | nil => exact fun _ mem => by cases mem
  | cons item items ih =>
    obtain ⟨first, later⟩ := forall_mem_cons.mp taken
    obtain ⟨key, named⟩ := forall_mem_cons.mp named
    obtain ⟨ne, apart⟩ := pairwise_cons.mp apart
    rw [restore_cons, first]
    intro r mem
    obtain rfl | inside := mem_cons.mp mem
    · exact (sound.recordOutput _ _ _ _).sound.restore_keeps (sound.recordOutput_holds key) later
        fun a there => (ne a there).symm
    · exact ih (sound.recordOutput _ _ _ _).sound named later apart r inside

theorem Sound.restore_held (sound : Sound b) (taken : ∀ a ∈ items, a.summaryFallback = false)
    (held : ∀ r ∈ items, Held b.outputItems r) : b.restore items = b := by
  induction items with
  | nil => rfl
  | cons item items ih =>
    obtain ⟨first, taken⟩ := forall_mem_cons.mp taken
    obtain ⟨here, held⟩ := forall_mem_cons.mp held
    rw [restore_cons, first]
    simp only [Bool.false_eq_true, if_false]
    rw [sound.recordOutput_held here]
    exact ih taken held

theorem Sound.restore_twice (sound : Sound b) (settled : Settled items) (read : Read items) :
    (b.restore items).restore items = b.restore items := by
  obtain named | ⟨before, last, rfl, summary, named, inside⟩ := read
  · have taken : ∀ a ∈ items, a.summaryFallback = false := fun a mem =>
      settled.unclaimed_unnamed mem (named a mem)
    exact (sound.restore items).sound.restore_held taken
      (sound.restore_holds named taken (settled.pairwise named))
  · -- the items before the answer are held, and the answer leaves them as they are
    have taken : ∀ a ∈ before, a.summaryFallback = false := fun a mem =>
      settled.unclaimed_unnamed (mem_append_left _ mem) (named a mem)
    have apart := settled.left.pairwise named
    have held := sound.restore_holds named taken apart
    have once : ∀ c : TurnBuffer, c.restore [last] = c.recordSummary last.text := fun c => by
      rw [restore_cons, summary]
      rfl
    rw [restore_append, restore_append, once, once]
    have known := (sound.restore before).sound
    have kept : ∀ r ∈ before,
        Held ((b.restore before).recordSummary last.text).outputItems r := fun r mem =>
      recordSummary_keeps (held r mem) (inside r mem)
    rw [known.recordSummary.sound.restore_held taken kept]
    exact recordSummary_eq_self (answers_recordSummary _ _)

section Fields

variable (b : TurnBuffer) (items : List TurnOutputItem)

theorem recordSummary_fields (text : String) :
    (b.recordSummary text).answerComplete = b.answerComplete ∧
      (b.recordSummary text).userText = b.userText := by
  obtain ⟨same, -⟩ | ⟨items, -, same⟩ := recordSummary_cases b text
  · rw [same]
    exact ⟨rfl, rfl⟩
  · rw [same]
    exact ⟨rfl, rfl⟩

theorem restore_fields :
    (b.restore items).answerComplete = b.answerComplete ∧
      (b.restore items).userText = b.userText := by
  induction items generalizing b with
  | nil => exact ⟨rfl, rfl⟩
  | cons item items ih =>
    rw [restore_cons]
    split
    · rw [(ih _).1, (ih _).2]
      exact recordSummary_fields b item.text
    · rw [(ih _).1, (ih _).2]
      constructor
      · simp [TurnBuffer.recordOutput, TurnBuffer.refreshAgentText]
      · rfl

end Fields

theorem noted_of_fields {c restored : TurnBuffer} {turn : TurnSummary}
    (complete : c.answerComplete = (noted b restored turn).answerComplete)
    (asked : c.userText = (noted b restored turn).userText) : noted c restored turn = c := by
  have complete' : (if blank restored.agentText then c.answerComplete else restored.answerComplete) =
      c.answerComplete := by
    rw [complete]
    simp only [noted]
    split <;> rfl
  have asked' : (if !blank restored.userText && (turn.userText.any (!blank ·) || blank c.userText)
      then restored.userText else c.userText) = c.userText := by
    rw [asked]
    simp only [noted]
    split
    · split <;> rfl
    · rfl
  unfold noted
  rw [complete', asked']

/-- The time at which a turn was first seen, which nothing else depends on. -/
def since (b : TurnBuffer) (time : Option Nat) : TurnBuffer := { b with startedAt := time }

theorem ensureStarted_since (b : TurnBuffer) (time : Option Nat) (now now' : Nat) :
    (since b time).ensureStarted now' = since (b.ensureStarted now) (time <|> some now') := rfl

theorem recordOutput_since (b : TurnBuffer) (time : Option Nat) (id : Option String) (text : String)
    (process append : Bool) : (since b time).recordOutput id text process append =
      since (b.recordOutput id text process append) time := rfl

theorem applyItem_since (b : TurnBuffer) (time : Option Nat) (item : ItemSummary)
    (output : OutputConfig) (now now' : Nat) : ∃ time',
      ((since b time).applyItem item output now').1 = since (b.applyItem item output now).1 time' := by
  unfold TurnBuffer.applyItem
  rw [ensureStarted_since b time now now']
  generalize b.ensureStarted now = started
  simp only [recordOutput_since]
  split
  · exact ⟨time, rfl⟩
  refine ⟨time <|> some now', ?_⟩
  split
  · generalize started.recordOutput (some item.id) (item.text.getD "") false false = recorded
    rfl
  split
  · rfl
  split
  · rfl
  split
  · rfl
  · rfl

theorem read_since (read : List ItemSummary) (b : TurnBuffer) (time : Option Nat)
    (output : OutputConfig) (now now' : Nat) : ∃ time',
      read.foldl (fun buffer item => (buffer.applyItem item output now').1) (since b time) =
        since (read.foldl (fun buffer item => (buffer.applyItem item output now).1) b) time' := by
  induction read generalizing b time with
  | nil => exact ⟨time, rfl⟩
  | cons item read ih =>
    obtain ⟨time', same⟩ := applyItem_since b time item output now now'
    rw [foldl_cons, foldl_cons, same]
    exact ih _ _

def closed (turn : TurnSummary) (read : TurnBuffer) : TurnBuffer :=
  let asked :=
    if blank read.userText then
      let texts := (userMessages turn.items).filterMap ItemSummary.text
      { read with userText := joined (texts.filter (!blank ·)) }
    else read
  let answered :=
    if blank asked.agentText then
      match turn.agentText.filter (!blank ·) with
      | some text => asked.recordSummary text
      | none => asked
    else asked
  { answered with answerComplete := !blank answered.agentText && turn.status.terminal }

theorem fromSummary_eq (turn : TurnSummary) (output : OutputConfig) (now : Nat) :
    TurnBuffer.fromSummary turn output now = closed turn
      ((turn.items.filter fun item => item.kind ≠ "userMessage").foldl
        (fun buffer item => (buffer.applyItem item output now).1)
        { userText := turn.userText.getD "", status := turn.status }) := rfl

theorem recordSummary_since (b : TurnBuffer) (time : Option Nat) (text : String) :
    (since b time).recordSummary text = since (b.recordSummary text) time := by
  have items : (since b time).outputItems = b.outputItems := rfl
  unfold TurnBuffer.recordSummary
  dsimp only
  rw [items]
  split
  · rfl
  · rfl

theorem closed_since (turn : TurnSummary) (b : TurnBuffer) (time : Option Nat) :
    closed turn (since b time) = since (closed turn b) time := by
  have asked : ∀ (p : Prop) [Decidable p] (shown : String),
      (if p then { since b time with userText := shown } else since b time) =
        since (if p then { b with userText := shown } else b) time := by
    intro p _ shown
    split <;> rfl
  unfold closed
  dsimp only
  rw [show (since b time).userText = b.userText from rfl, asked]
  generalize (if blank b.userText = true then _ else b) = c
  rw [show (since c time).agentText = c.agentText from rfl]
  split
  · split
    · rw [recordSummary_since]
      rfl
    · rfl
  · rfl

theorem fromSummary_since (turn : TurnSummary) (output : OutputConfig) (now now' : Nat) :
    ∃ time, TurnBuffer.fromSummary turn output now' =
      since (TurnBuffer.fromSummary turn output now) time := by
  obtain ⟨time, same⟩ := read_since (turn.items.filter fun item => item.kind ≠ "userMessage")
    { userText := turn.userText.getD "", status := turn.status } none output now now'
  refine ⟨time, ?_⟩
  rw [fromSummary_eq, fromSummary_eq, ← closed_since, ← same]
  rfl

theorem restore_since (b summary : TurnBuffer) (turn : TurnSummary) (time : Option Nat) :
    (noted b (since summary time) turn).restore (since summary time).outputItems =
      (noted b summary turn).restore summary.outputItems := rfl

theorem mergeSummary_now (b : TurnBuffer) (turn : TurnSummary) (output : OutputConfig)
    (now now' : Nat) : b.mergeSummary turn output now' = b.mergeSummary turn output now := by
  obtain ⟨time, same⟩ := fromSummary_since turn output now now'
  rw [mergeSummary_eq, mergeSummary_eq, same, restore_since]

theorem Sound.mergeSummary_twice {turn : TurnSummary} {output : OutputConfig} {now now' : Nat}
    (sound : Sound b) :
    (b.mergeSummary turn output now).mergeSummary turn output now' =
      b.mergeSummary turn output now := by
  obtain ⟨settled, read⟩ := fromSummary_items turn output now
  rw [mergeSummary_now _ turn output now now', mergeSummary_eq, mergeSummary_eq]
  generalize TurnBuffer.fromSummary turn output now = summary at settled read
  obtain ⟨complete, asked⟩ := restore_fields (Output.noted b summary turn) summary.outputItems
  rw [noted_of_fields complete asked]
  exact (sound.noted summary turn).restore_twice settled read

/-- Whatever is recorded in the buffer of a turn: its items stay in the order in which they are first
seen, no two have the same id, at most one is active and at most one is the answer of a summary; the
answer it shows is what its answers make up; and a summary that is merged again changes nothing. -/
theorem turn_buffer_keeps_order (calls more : List Call) :
    let before := TurnBuffer.after calls
    Grows before.outputItems (TurnBuffer.after (calls ++ more)).outputItems ∧
      Settled before.outputItems ∧ before.agentText = answer before.outputItems ∧
      ∀ turn output now now', (before.mergeSummary turn output now).mergeSummary turn output now' =
        before.mergeSummary turn output now := by
  have sound : Sound (TurnBuffer.after calls) := (Sound.empty.calls calls).sound
  refine ⟨?_, sound.settled, sound.text, fun _ _ _ _ => sound.mergeSummary_twice⟩
  have grows := (sound.calls more).grows
  rwa [TurnBuffer.after, ← foldl_append] at grows

end Agentix.Output
