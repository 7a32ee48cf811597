import Mathlib.Data.Finset.Card
import Mathlib.Data.Finset.Filter
import Mathlib.Logic.Relation

/-! # Acyclic relations

A relation stays acyclic when edges go away, when a new source points into it, and when
an edge is added whose target does not lead back to its source.  A finite one keeps its paths when
all edges are left out that a longer path stands for, and no fewer edges have the same paths.
-/

namespace Agentix.Lib

open Relation

variable {α : Type} {r r' : α → α → Prop}

variable {nodes : List α} {a b : α}

/-- No path leads back to its start. -/
def Acyclic (r : α → α → Prop) : Prop :=
  ∀ a, ¬ TransGen r a a

theorem Acyclic.mono (acyclic : Acyclic r) (fewer : ∀ a b, r' a b → r a b) : Acyclic r' :=
  fun a cycle => acyclic a (TransGen.mono fewer a a cycle)

theorem Acyclic.add_source (acyclic : Acyclic r) {x : α} (source : ∀ a, ¬ r' a x)
    (old : ∀ a b, a ≠ x → r' a b → r a b) : Acyclic r' := by
  have ends : ∀ {a b}, TransGen r' a b → b ≠ x := by
    rintro a b path rfl
    cases path with
    | single edge => exact source _ edge
    | tail _ edge => exact source _ edge
  have stays : ∀ {a b}, a ≠ x → TransGen r' a b → TransGen r a b := by
    intro a b start path
    induction path with
    | single edge => exact .single (old _ _ start edge)
    | tail before edge ih =>
      exact .tail ih (old _ _ (ends before) edge)
  exact fun a cycle => acyclic a (stays (ends cycle) cycle)

theorem Acyclic.add_edge (acyclic : Acyclic r) {x y : α} (apart : ¬ ReflTransGen r y x)
    (old : ∀ a b, r' a b → r a b ∨ (a = x ∧ b = y)) : Acyclic r' := by
  have split : ∀ {a b}, TransGen r' a b →
      TransGen r a b ∨ (ReflTransGen r a x ∧ ReflTransGen r y b) := by
    intro a b path
    induction path with
    | single edge =>
      rcases old _ _ edge with edge | ⟨rfl, rfl⟩
      · exact .inl (.single edge)
      · exact .inr ⟨.refl, .refl⟩
    | tail _ edge ih =>
      rcases old _ _ edge with edge | ⟨rfl, rfl⟩
      · rcases ih with path | ⟨before, after⟩
        · exact .inl (path.tail edge)
        · exact .inr ⟨before, after.tail edge⟩
      · rcases ih with path | ⟨before, _⟩
        · exact .inr ⟨path.to_reflTransGen, .refl⟩
        · exact .inr ⟨before, .refl⟩
  intro a cycle
  rcases split cycle with cycle | ⟨before, after⟩
  · exact acyclic a cycle
  · exact apart (after.trans before)

theorem Acyclic.of_rank (rank : α → Nat) (grows : ∀ a b, r a b → rank a < rank b) : Acyclic r := by
  have above : ∀ {a b}, TransGen r a b → rank a < rank b := by
    intro a b path
    induction path with
    | single edge => exact grows _ _ edge
    | tail _ edge ih => exact Nat.lt_trans ih (grows _ _ edge)
  exact fun a cycle => Nat.lt_irrefl _ (above cycle)

/-! ## Reduction -/

/-- An edge that no path by another predecessor of its target stands for. -/
def Reduced (r : α → α → Prop) (a b : α) : Prop :=
  r a b ∧ ¬ ∃ c, TransGen r a c ∧ r c b

def Within (nodes : List α) (r : α → α → Prop) : Prop :=
  ∀ a b, r a b → a ∈ nodes

theorem Within.mem (within : Within nodes r) (path : TransGen r a b) :
    a ∈ nodes := by
  induction path using TransGen.head_induction_on with
  | single edge => exact within _ _ edge
  | head edge _ _ => exact within _ _ edge

/-- A path is one reduced edge, or there is a node on the way. -/
theorem reduced_or_between (path : TransGen r a b) :
    Reduced r a b ∨ ∃ c, TransGen r a c ∧ TransGen r c b := by
  cases path with
  | single edge =>
    by_cases between : ∃ c, TransGen r a c ∧ r c b
    · obtain ⟨c, before, after⟩ := between
      exact .inr ⟨c, before, .single after⟩
    · exact .inl ⟨edge, between⟩
  | tail before edge => exact .inr ⟨_, before, .single edge⟩

theorem Acyclic.reduced_path (acyclic : Acyclic r) (within : Within nodes r)
    (path : TransGen r a b) : TransGen (Reduced r) a b := by
  classical
  let between (a b : α) : Finset α :=
    nodes.toFinset.filter fun c => TransGen r a c ∧ TransGen r c b
  have mem_between : ∀ {a b c : α}, c ∈ between a b ↔ TransGen r a c ∧ TransGen r c b := by
    intro a b c
    simp only [between, Finset.mem_filter, List.mem_toFinset, and_iff_right_iff_imp]
    exact fun paths => within.mem paths.2
  -- the induction is on how many nodes are on the way
  induction size : (between a b).card using Nat.strongRecOn generalizing a b with
  | _ n ih =>
    obtain edge | ⟨c, before, after⟩ := reduced_or_between path
    · exact .single edge
    have fewer : (between a c).card < n := by
      rw [← size]
      apply Finset.card_lt_card
      refine (Finset.ssubset_iff_of_subset fun d mem => ?_).mpr
        ⟨c, mem_between.mpr ⟨before, after⟩, fun mem => acyclic c (mem_between.mp mem).2⟩
      obtain ⟨first, second⟩ := mem_between.mp mem
      exact mem_between.mpr ⟨first, second.trans after⟩
    have fewer' : (between c b).card < n := by
      rw [← size]
      apply Finset.card_lt_card
      refine (Finset.ssubset_iff_of_subset fun d mem => ?_).mpr
        ⟨c, mem_between.mpr ⟨before, after⟩, fun mem => acyclic c (mem_between.mp mem).1⟩
      obtain ⟨first, second⟩ := mem_between.mp mem
      exact mem_between.mpr ⟨before.trans first, second⟩
    exact (ih _ fewer before rfl).trans (ih _ fewer' after rfl)

theorem Acyclic.reduced_path_iff (acyclic : Acyclic r) (within : Within nodes r) :
    TransGen (Reduced r) a b ↔ TransGen r a b :=
  ⟨TransGen.mono (fun _ _ edge => edge.1) a b, acyclic.reduced_path within⟩

theorem Reduced.minimal (edge : Reduced r a b) :
    ¬ TransGen (fun c d => Reduced r c d ∧ ¬ (c = a ∧ d = b)) a b := by
  intro path
  cases path with
  | single other => exact other.2 ⟨rfl, rfl⟩
  | tail before last =>
    exact edge.2 ⟨_, TransGen.mono (fun _ _ other => other.1.1) _ _ before, last.1.1⟩

end Agentix.Lib
