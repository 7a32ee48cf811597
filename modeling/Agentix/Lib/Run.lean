import Mathlib.Data.List.Basic
import Mathlib.Data.List.Induction
import Mathlib.Data.List.Nodup
import Mathlib.Data.Set.Insert
import Mathlib.Logic.Relation
import Mathlib.Order.Defs.LinearOrder

/-! # Runs of a transition system

A system has a start and labelled steps.  `Reachable` collects the states of the runs
whose every step meets a condition; what holds at the start and is kept by such steps
holds in all of them.
-/

namespace Agentix.Lib

open List

structure System (σ ι : Type) where
  start : σ
  step : σ → ι → σ → Prop

namespace System

variable {σ ι : Type} {system : System σ ι} {condition : σ → ι → Prop}

variable {s start : σ} {step : σ → ι → Option σ}

/-- The states of the runs from the start whose steps all meet the condition. -/
inductive Reachable (system : System σ ι) (condition : σ → ι → Prop) : σ → Prop
  | start : Reachable system condition system.start
  | step {s s' : σ} {label : ι} (before : Reachable system condition s)
      (met : condition s label) (next : system.step s label s') : Reachable system condition s'

/-- The condition every step meets. -/
def always : σ → ι → Prop := fun _ _ => True

theorem Reachable.mono {weaker : σ → ι → Prop} (run : Reachable system condition s)
    (implies : ∀ s label, condition s label → weaker s label) : Reachable system weaker s := by
  induction run with
  | start => exact .start
  | step _ met next ih => exact .step ih (implies _ _ met) next

/-- What the start has and every step keeps, every reachable state has. -/
theorem Reachable.invariant (run : Reachable system condition s) (property : σ → Prop)
    (initial : property system.start)
    (kept : ∀ {s s' label}, Reachable system condition s → condition s label → property s →
      system.step s label s' → property s') :
    property s := by
  induction run with
  | start => exact initial
  | step before met next ih => exact kept before met ih next

/-- A step that meets the condition. -/
def Next (system : System σ ι) (condition : σ → ι → Prop) (s s' : σ) : Prop :=
  ∃ label, condition s label ∧ system.step s label s'

/-- The states a run that is in one state comes to, by steps that all meet the condition. -/
def Path (system : System σ ι) (condition : σ → ι → Prop) : σ → σ → Prop :=
  Relation.ReflTransGen (system.Next condition)

theorem Reachable.path {s' : σ} (run : Reachable system condition s)
    (path : Path system condition s s') : Reachable system condition s' := by
  induction path with
  | refl => exact run
  | tail _ next ih =>
    obtain ⟨_, met, step⟩ := next
    exact ih.step met step

theorem Path.mono {weaker : σ → ι → Prop} {s' : σ} (path : Path system condition s s')
    (implies : ∀ s label, condition s label → weaker s label) : Path system weaker s s' :=
  Relation.ReflTransGen.mono (fun _ _ ⟨label, met, step⟩ => ⟨label, implies _ _ met, step⟩) _ _ path

/-- The system whose labels have at most one outcome. -/
def ofStep (start : σ) (step : σ → ι → Option σ) : System σ ι where
  start
  step s label s' := step s label = some s'

theorem path_of_labels {t : σ} (labels : List ι) (met : ∀ label ∈ labels, ∀ s, condition s label)
    (steps : labels.foldlM step s = some t) :
    (ofStep start step).Path condition s t := by
  induction labels using reverseRecOn generalizing t with
  | nil =>
    cases steps
    exact .refl
  | append_singleton labels label ih =>
    rw [foldlM_append, Option.bind_eq_bind, Option.bind_eq_some_iff] at steps
    obtain ⟨middle, before, last⟩ := steps
    have next : step middle label = some t := by simpa using last
    have earlier := ih (fun other mem => met other (by simp [mem])) before
    exact earlier.tail ⟨label, met label (by simp) middle, next⟩

theorem path_of_foldlM {t : σ} (labels : List ι) (steps : labels.foldlM step s = some t) :
    (ofStep start step).Path always s t :=
  path_of_labels labels (fun _ _ _ => trivial) steps

theorem reachable_of_foldlM (labels : List ι) (steps : labels.foldlM step start = some s) :
    (ofStep start step).Reachable always s :=
  (Reachable.start : (ofStep start step).Reachable always start).path (path_of_foldlM labels steps)

end System

/-! ## Steps made of smaller ones -/

theorem invariant_of_steps {α : Type} {small : α → α → Prop} (property : α → Prop)
    (kept : ∀ a b, small a b → property a → property b) {a b : α}
    (steps : Relation.ReflTransGen small a b) (holds : property a) : property b := by
  induction steps with
  | refl => exact holds
  | tail _ next ih => exact kept _ _ next ih

/-! ## Logs -/

theorem split_snoc {α : Type} {log before after : List α} {event last : α}
    (split : log ++ [last] = before ++ event :: after) :
    (after = [] ∧ log = before ∧ last = event) ∨
      ∃ after', after = after' ++ [last] ∧ log = before ++ event :: after' := by
  obtain rfl | ⟨after', last', rfl⟩ := after.eq_nil_or_concat'
  · obtain ⟨same, last_eq⟩ := append_inj' split rfl
    exact .inl ⟨rfl, same, singleton_inj.mp last_eq⟩
  · rw [← cons_append, ← append_assoc] at split
    obtain ⟨same, last_eq⟩ := append_inj' split rfl
    refine .inr ⟨after', ?_, same⟩
    rw [singleton_inj.mp last_eq]

end Agentix.Lib

/-! # Fenced waiting lines

Items wait in the order of their admission, are taken and later released.  An item may be taken
out of turn, but not while a conflicting item is held or waits before it.  Conflicting items then
run one after the other, in the order of their admission.
-/

namespace Agentix.Lib

open List

/-- What happened to an item. -/
inductive Event (α : Type) where
  | admitted (item : α)
  | taken (item : α)
  | released (item : α)
  deriving DecidableEq

/-- The items that wait, the items that are held and all events so far. -/
structure Fenced (α : Type) where
  waiting : List α
  held : Set α
  log : List (Event α)

namespace Fenced

variable {α : Type} [LinearOrder α] {conflicts : α → α → Prop} {line line' : Fenced α}

def empty : Fenced α := ⟨[], ∅, []⟩

inductive Step (conflicts : α → α → Prop) : Fenced α → Fenced α → Prop
  | accept {line : Fenced α} {item : α}
      (last : ∀ earlier, .admitted earlier ∈ line.log → earlier < item) :
      Step conflicts line ⟨line.waiting ++ [item], line.held, line.log ++ [.admitted item]⟩
  | take {line : Fenced α} {before after : List α} {item : α}
      (waits : line.waiting = before ++ item :: after)
      (free : ∀ other, other ∈ before ∨ other ∈ line.held → ¬ conflicts other item) :
      Step conflicts line ⟨before ++ after, insert item line.held, line.log ++ [.taken item]⟩
  | release {line : Fenced α} {item : α} (held : item ∈ line.held) :
      Step conflicts line ⟨line.waiting, line.held \ {item}, line.log ++ [.released item]⟩

/-- Where an item is, according to what happened to it. -/
structure Accounted (line : Fenced α) : Prop where
  sorted : line.waiting.Pairwise (· < ·)
  once : line.log.Nodup
  waits : ∀ item, item ∈ line.waiting ↔ .admitted item ∈ line.log ∧ .taken item ∉ line.log
  holds : ∀ item, item ∈ line.held ↔ .taken item ∈ line.log ∧ .released item ∉ line.log
  took : ∀ item, .taken item ∈ line.log → .admitted item ∈ line.log
  released : ∀ item, .released item ∈ line.log → [.taken item, .released item].Sublist line.log

theorem Accounted.taken_of_released (accounted : Accounted line) {item : α}
    (released : .released item ∈ line.log) : .taken item ∈ line.log :=
  (accounted.released item released).subset (by simp)

theorem Accounted.empty : Accounted (empty : Fenced α) := by
  constructor <;> simp [Fenced.empty]

theorem Accounted.step (accounted : Accounted line) (step : Step conflicts line line') :
    Accounted line' := by
  cases step with
  -- The new item is later than all before it, so it was never taken.
  | @accept item last =>
    have fresh : .admitted item ∉ line.log := fun old => lt_irrefl _ (last item old)
    have untaken : .taken item ∉ line.log := fun taken => fresh (accounted.took item taken)
    constructor
    · rw [pairwise_append]
      refine ⟨accounted.sorted, pairwise_singleton _ _, fun earlier waits new is_new => ?_⟩
      rw [mem_singleton.mp is_new]
      exact last earlier ((accounted.waits earlier).mp waits).1
    · simpa using accounted.once.concat fresh
    · intro other
      by_cases same : other = item
      · subst same
        simp [untaken]
      · simp [accounted.waits other, same]
    · simp [accounted.holds]
    · intro other taken
      simp only [mem_append, mem_singleton, reduceCtorEq, or_false] at taken
      exact mem_append_left _ (accounted.took other taken)
    · intro other released
      simp only [mem_append, mem_singleton, reduceCtorEq, or_false] at released
      exact (accounted.released other released).trans (sublist_append_left _ _)
  -- The item waited, and the order of the others does not depend on it.
  | @take before after item waits free =>
    have mem : item ∈ line.waiting := by simp [waits]
    obtain ⟨admitted, untaken⟩ := (accounted.waits item).mp mem
    have unreleased : .released item ∉ line.log :=
      fun released => untaken (accounted.taken_of_released released)
    have sorted := accounted.sorted
    rw [waits] at sorted
    have distinct : ∀ other, other ∈ before ++ after → other ≠ item := by
      intro other here same
      subst same
      have nodup : (before ++ other :: after).Nodup :=
        sorted.imp fun less => ne_of_lt less
      rw [nodup_middle] at nodup
      exact (nodup_cons.mp nodup).1 here
    constructor
    · exact sorted.sublist (List.Sublist.append_left (sublist_cons_self _ _) _)
    · simpa using accounted.once.concat untaken
    · intro other
      have old := accounted.waits other
      rw [waits] at old
      by_cases same : other = item
      · subst same
        simpa using fun here => distinct other (mem_append.mpr here) rfl
      · simpa [same] using old
    · intro other
      by_cases same : other = item
      · subst same
        simp [unreleased]
      · simp [accounted.holds other, same]
    · intro other taken
      refine mem_append_left _ ?_
      simp only [mem_append, mem_singleton, Event.taken.injEq] at taken
      obtain taken | rfl := taken
      · exact accounted.took other taken
      · exact admitted
    · intro other released
      simp only [mem_append, mem_singleton, reduceCtorEq, or_false] at released
      exact (accounted.released other released).trans (sublist_append_left _ _)
  -- Only what is held is released, and it was taken before.
  | @release item held =>
    obtain ⟨taken, unreleased⟩ := (accounted.holds item).mp held
    constructor
    · exact accounted.sorted
    · simpa using accounted.once.concat unreleased
    · simp [accounted.waits]
    · intro other
      by_cases same : other = item
      · subst same
        simp
      · simp [accounted.holds other, same]
    · intro other taken
      simp only [mem_append, mem_singleton, reduceCtorEq, or_false] at taken
      exact mem_append_left _ (accounted.took other taken)
    · intro other released
      by_cases same : other = item
      · subst same
        exact List.Sublist.append (singleton_sublist.mpr taken) (List.Sublist.refl _)
      · simp only [mem_append, mem_singleton, Event.released.injEq, same, or_false]
          at released
        exact (accounted.released other released).trans (sublist_append_left _ _)

/-- Items that conflict are not held together, and the earlier one was taken and released before
the later one was taken. -/
structure Excludes (conflicts : α → α → Prop) (line : Fenced α) : Prop where
  apart : ∀ a ∈ line.held, ∀ b ∈ line.held, a ≠ b → ¬ conflicts a b
  inOrder : ∀ a b before after, line.log = before ++ .taken b :: after → a < b →
    .admitted a ∈ line.log → conflicts a b → [.taken a, .released a].Sublist before

theorem Excludes.empty : Excludes conflicts (empty : Fenced α) := by
  constructor <;> simp [Fenced.empty]

theorem Excludes.step (symmetric : ∀ a b, conflicts a b → conflicts b a)
    (excludes : Excludes conflicts line) (accounted : Accounted line)
    (step : Step conflicts line line') : Excludes conflicts line' := by
  cases step with
  | @accept item last =>
    refine ⟨excludes.apart, fun a b before after split less admitted conflict => ?_⟩
    obtain ⟨-, -, wrong⟩ | ⟨after', -, earlier⟩ := split_snoc split
    · cases wrong
    · refine excludes.inOrder a b before after' earlier less ?_ conflict
      simp only [mem_append, mem_singleton, Event.admitted.injEq] at admitted
      obtain admitted | rfl := admitted
      · exact admitted
      · -- an item admitted just now is not earlier than one that was taken
        have taken : .taken b ∈ line.log := by
          rw [earlier]
          exact mem_append_right _ mem_cons_self
        exact absurd less (lt_asymm (last b (accounted.took b taken)))
  | @take before' after' item waits free =>
    constructor
    · intro a ha b hb differ conflict
      rw [Set.mem_insert_iff] at ha hb
      obtain rfl | ha := ha <;> obtain rfl | hb := hb
      · exact differ rfl
      · exact free b (.inr hb) (symmetric _ _ conflict)
      · exact free a (.inr ha) conflict
      · exact excludes.apart a ha b hb differ conflict
    · intro a b before after split less admitted conflict
      simp only [mem_append, mem_singleton, reduceCtorEq, or_false] at admitted
      obtain ⟨-, rfl, same⟩ | ⟨after'', -, earlier⟩ := split_snoc split
      · cases same
        -- the earlier item neither waits nor is held, so it was released
        have notWaiting : a ∉ line.waiting := by
          intro waiting
          have sorted := accounted.sorted
          rw [waits, pairwise_append] at sorted
          rw [waits, mem_append, mem_cons] at waiting
          obtain here | rfl | later := waiting
          · exact free a (.inl here) conflict
          · exact lt_irrefl _ less
          · exact lt_asymm less ((pairwise_cons.mp sorted.2.1).1 a later)
        have notHeld : a ∉ line.held := fun held => free a (.inr held) conflict
        have taken : .taken a ∈ line.log := by
          by_contra untaken
          exact notWaiting ((accounted.waits a).mpr ⟨admitted, untaken⟩)
        have released : .released a ∈ line.log := by
          by_contra unreleased
          exact notHeld ((accounted.holds a).mpr ⟨taken, unreleased⟩)
        exact accounted.released a released
      · exact excludes.inOrder a b before after'' earlier less admitted conflict
  | @release item held =>
    constructor
    · exact fun a ha b hb => excludes.apart a ha.1 b hb.1
    · intro a b before after split less admitted conflict
      simp only [mem_append, mem_singleton, reduceCtorEq, or_false] at admitted
      obtain ⟨-, -, wrong⟩ | ⟨after', -, earlier⟩ := split_snoc split
      · cases wrong
      · exact excludes.inOrder a b before after' earlier less admitted conflict

end Fenced

end Agentix.Lib
