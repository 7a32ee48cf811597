import Agentix.MemoryStore.Moving

/-! # One decision of a proposal -/

namespace Agentix.MemoryStore

open Lib List

variable [Environment] {t : Transaction} {ids : Nat → String} {extra : List Memory}
  {p p' middle : Progress} {target next revised anchor : Memory} {lease : WorkLease} {now : Int}
  {candidate content : MemoryInput} {decision : ConsolidationDecision}

/-- The decision makes the memory conflicted, or leaves it so. -/
def ConsolidationDecision.marks (decision : ConsolidationDecision) (id : String) : Bool :=
  (decision.related.any fun r => r.action = .conflict && r.id = id) ||
    (decision.target = some id && (decision.action = .conflict ||
      (decision.action = .merge && decision.related.any fun r => r.action = .conflict)))

/-! ## The action on the target -/

/-- The anchor of an action, which is the target after a merge and a drawn memory else. -/
inductive Anchor (ids : Nat → String) (decision : ConsolidationDecision) (target : Memory)
    (drawn : Nat) (anchor : Memory) : Prop
  | merged (action : decision.action = .merge) (id : anchor.id = target.id)
      (status : anchor.status = target.status)
  | replacing {n : Nat} (action : decision.action = .supersede) (later : drawn ≤ n)
      (id : anchor.id = ids n) (status : anchor.status = .active)
  | opposing {n : Nat} (action : decision.action = .conflict) (later : drawn ≤ n)
      (id : anchor.id = ids n) (status : anchor.status = .conflicted)

structure Turned (ids : Nat → String) (decision : ConsolidationDecision) (target : Memory)
    (p middle : Progress) (revised anchor : Memory) : Prop where
  moves : Moves ids (fun id => decision.action = .conflict ∧ id = target.id) p middle
  revised : revised.id = target.id
  current : anchor ∈ middle.db.memories
  anchor : Anchor ids decision target p.drawn anchor

section Actions

variable (ready : Ready t ids [] p) (unused : Unused t.base ids)
  (numbered : Numbered p lease target next)

include ready numbered in
theorem turned_of_merge (action : decision.action = .merge)
    (ok : applyMerge lease content next p = .ok (revised, anchor, middle)) :
    Turned ids decision target p middle revised anchor := by
  simp only [applyMerge, bind_ok, pure_ok, Prod.mk.injEq] at ok
  obtain ⟨original, -, merged, -, saved, save, rfl, rfl, rfl⟩ := ok
  have same : next.status = target.status := numbered.status
  refine ⟨(Moves.next ids save numbered.member numbered.id fun _ =>
    ⟨numbered.searchable, fun before => same.trans before⟩).congr ?_, numbered.id, ?_,
    .merged action numbered.id same⟩
  · intro m here active
    have other : ¬(m.id = next.id ∧ next.status = .conflicted) := by
      rintro ⟨id, conflicted⟩
      have equal := ready.stage.consistent.memory_eq here numbered.member (id.trans numbered.id)
      exact active (equal ▸ same.symm.trans conflicted)
    simp [other, action]
  · simp only [Progress.save, bind_ok, pure_ok] at save
    obtain ⟨db, written, rfl⟩ := save
    exact (saved_of_ok written).mem_memories.mpr (.inl rfl)

include numbered in
theorem turned_of_supersede (action : decision.action = .supersede)
    (ok : applySupersede lease ids now content next p = .ok (revised, anchor, middle)) :
    Turned ids decision target p middle revised anchor := by
  simp only [applySupersede, Progress.newMemory, Progress.write, bind_ok, pure_ok,
    Prod.mk.injEq] at ok
  obtain ⟨retired, save, _, ⟨added, add, rfl⟩, rfl, rfl, rfl⟩ := ok
  have moves := Moves.draw.trans (Moves.next ids save numbered.member numbered.id
    fun searchable => by cases searchable)
  have drawn : p.drawn < retired.drawn := by
    simp only [Progress.save, bind_ok, pure_ok] at save
    obtain ⟨db, -, rfl⟩ := save
    exact Nat.lt_succ_self _
  refine ⟨((moves.add (Nat.le_refl _) drawn rfl add).congr fun m _ _ => ?_).push, numbered.id, ?_,
    .replacing action (Nat.le_refl _) rfl rfl⟩
  · simp [action]
  · simp only [Progress.save, bind_ok, pure_ok] at add
    obtain ⟨db, written, rfl⟩ := add
    exact (saved_of_ok written).mem_memories.mpr (.inl rfl)

include ready unused numbered

theorem turned_of_conflict (action : decision.action = .conflict)
    (ok : applyConflict lease ids now content next p = .ok (revised, anchor, middle)) :
    Turned ids decision target p middle revised anchor := by
  simp only [applyConflict, Progress.newMemory, Progress.write, bind_ok, pure_ok,
    Prod.mk.injEq] at ok
  obtain ⟨_, ⟨added, add, rfl⟩, opposed, save, rfl, rfl, rfl⟩ := ok
  have fresh := ready.fresh unused (Nat.le_refl p.drawn)
  have moves := Moves.new add rfl
  simp only [Progress.save, bind_ok, pure_ok] at add
  obtain ⟨db, written, rfl⟩ := add
  have stays : target ∈ db.memories := (saved_of_ok written).mem_memories.mpr
    (.inr ⟨numbered.member, fresh target numbered.member⟩)
  have turned := moves.push.trans (Moves.next ids save stays numbered.id
    fun _ => ⟨numbered.searchable, fun _ => rfl⟩)
  refine ⟨turned.congr fun m _ _ => ?_, numbered.id, ?_, .opposing action (Nat.le_refl _) rfl rfl⟩
  · simp [action, numbered.id]
  · simp only [Progress.save, bind_ok, pure_ok] at save
    obtain ⟨db', revise, rfl⟩ := save
    refine (saved_of_ok revise).mem_memories.mpr (.inr ⟨(saved_of_ok written).mem_memories.mpr
      (.inl rfl), fun same => fresh target numbered.member ?_⟩)
    exact numbered.id.symm.trans same.symm

theorem turned_of_ok
    (ok : applyAction lease ids now content decision next p = .ok (revised, anchor, middle)) :
    Turned ids decision target p middle revised anchor := by
  unfold applyAction at ok
  split at ok
  · exact turned_of_merge ready numbered ‹_› ok
  · exact turned_of_supersede numbered ‹_› ok
  · exact turned_of_conflict ready unused numbered ‹_› ok
  · cases ok

theorem checked_applyAction :
    Checked (applyAction lease ids now content decision next p) := by
  have consistent := ready.stage.consistent
  have fresh := ready.fresh unused (Nat.le_refl p.drawn)
  unfold applyAction
  split
  · refine .bind checked_load fun _ _ => .bind checked_preserveEvidence fun _ _ =>
      .bind (checked_saved consistent ?_) fun _ _ => .ok
    exact .after numbered.member numbered.id numbered.project numbered.revision
  · let retired : Memory := { next with
      supersededBy := some (ids p.drawn), status := .superseded }
    have place : Place p.db retired :=
      .after numbered.member numbered.id numbered.project numbered.revision
    refine .bind (checked_saved consistent place) fun q ok => ?_
    simp only [Progress.save, bind_ok, pure_ok] at ok
    obtain ⟨db, save, rfl⟩ := ok
    have saved := saved_of_ok save
    refine .bind (checked_write (consistent.save saved place) (.new rfl ?_)) fun _ _ => .ok
    intro m mem same
    obtain rfl | ⟨old, -⟩ := saved.mem_memories.mp mem
    · exact fresh target numbered.member (numbered.id.symm.trans same)
    · exact fresh m old same
  · let new : Memory := { Database.newMemory (ids p.drawn) lease.projectId content next.reason
      .agent now with status := .conflicted }
    have place : Place p.db new := .new rfl fresh
    refine .bind (checked_write consistent place) fun q ok => ?_
    simp only [Progress.write, Progress.save, bind_ok, pure_ok] at ok
    obtain ⟨_, ⟨db, save, rfl⟩, rfl⟩ := ok
    have saved := saved_of_ok save
    have stays : target ∈ db.memories :=
      saved.mem_memories.mpr (.inr ⟨numbered.member, fresh target numbered.member⟩)
    refine .bind (checked_saved (consistent.save saved place) ?_) fun _ _ => .ok
    exact .after stays numbered.id numbered.project numbered.revision
  · exact .error (by decide)

end Actions

/-! ## The loops over the related memories -/

section Loops

variable {related : List RelatedDecision} {against : Option Memory}

theorem steps_plain (ne : ∀ r ∈ related, ∀ a, against = some a → r.id ≠ a.id) :
    Steps lease candidate ids now against related (applyRelated lease candidate ids now against) :=
  ⟨fun r mem _ _ ok => ⟨ne r mem, ok⟩,
    fun r mem _ checked => checked (ne r mem)⟩

/-- The loop of a decision with a target checks that the target is not related as well. -/
theorem steps_target {target : String}
    (ne : ∀ r ∈ related, r.id ≠ target → ∀ a, against = some a → r.id ≠ a.id) :
    Steps lease candidate ids now against related (fun p r => do
      ensure (r.id ≠ target) "primary target cannot also be a related target"
      applyRelated lease candidate ids now against p r) := by
  constructor
  · intro r mem p p' ok
    simp only [bind_ok, ensure_ok] at ok
    obtain ⟨⟨⟩, other, applied⟩ := ok
    exact ⟨ne r mem other, applied⟩
  · intro r mem p checked
    refine .bind (.ensure (by decide)) fun _ other => checked ?_
    rw [ensure_ok] at other
    exact ne r mem other

theorem no_conflicts (ok : related.foldlM (applyRelated lease candidate ids now none) p = .ok p') :
    countConflicts related = 0 := by
  induction related generalizing p with
  | nil => rfl
  | cons decision rest ih =>
    rw [foldlM_cons, bind_ok] at ok
    obtain ⟨middle, applied, later⟩ := ok
    have rest_none := ih later
    have peaceful : decision.action ≠ .conflict := by
      intro conflicts
      simp only [applyRelated, conflicts, bind_ok] at applied
      obtain ⟨⟨⟩, -, applied⟩ := applied
      simp only [reduceCtorEq, if_false, bind_ok] at applied
      obtain ⟨prior, -, ⟨⟩, -, ⟨⟩, -, ⟨⟩, -, ⟨⟩, -, acted, action, -⟩ := applied
      simp only [relatedAction, conflicts, relatedConflict, bind_ok] at action
      obtain ⟨_, ⟨⟩, -⟩ := action
    unfold countConflicts at rest_none ⊢
    rw [countP_cons, rest_none, if_neg (by simpa using peaceful)]

end Loops

/-! ## A decision -/

/-- The identifiers that a decision names are not drawn. -/
structure Named (t : Transaction) (ids : Nat → String) (decision : ConsolidationDecision) : Prop
    where
  related : ∀ r ∈ decision.related, ∃ m ∈ t.base.memories, m.id = r.id
  target : ∀ n, decision.target ≠ some (ids n)

omit [Environment] in
theorem Named.differs (named : Named t ids decision) (unused : Unused t.base ids)
    {r : RelatedDecision} (mem : r ∈ decision.related) (n : Nat) : r.id ≠ ids n := by
  obtain ⟨m, here, id⟩ := named.related r mem
  exact id ▸ unused.free n m here

/-- A drawn memory is not related. -/
theorem Named.steps (named : Named t ids decision) (unused : Unused t.base ids) {a : Memory}
    {n : Nat} (id : a.id = ids n) : Steps lease candidate ids now (some a) decision.related
      (applyRelated lease candidate ids now (some a)) :=
  steps_plain fun r mem b same => by
    cases same
    rw [id]
    exact named.differs unused mem n

theorem created (ready : Ready t ids [] p) {memory : Memory} (first : memory.revision = 1)
    (id : memory.id = ids p.drawn) (active : memory.status = .active)
    (vouched : ∀ e ∈ memory.content.evidence, Vouched t.base memory.projectId e)
    (ok : Progress.save { p with drawn := p.drawn + 1 } memory = .ok p') :
    Ready t ids [memory] p' ∧ Anchored p' (some memory) ∧ memory ∈ p'.db.memories ∧
      Moves ids (fun _ => False) p p' := by
  have searchable : memory.status.searchable = true := by
    rw [active]
    rfl
  have start : Ready t ids [memory] p := ⟨ready.stage.later, ready.drawn⟩
  obtain ⟨applied, known⟩ := applied_of_save ok start.stage
    (.first first searchable vouched) fun _ => ⟨_, mem_singleton.mpr rfl, rfl, rfl⟩
  have moves : Moves ids (fun _ => False) p p' := Moves.new ok id
  refine ⟨start.moved ⟨applied.stage, applied.extended⟩ moves, ?_, ?_, moves⟩
  · intro a same
    cases same
    exact ⟨known, searchable⟩
  · simp only [Progress.save, bind_ok, pure_ok] at ok
    obtain ⟨db, save, rfl⟩ := ok
    exact (saved_of_ok save).mem_memories.mpr (.inl rfl)

/-- What is turned, and where the loop over the related memories begins. -/
theorem Turned.ready (turned : Turned ids decision target p middle revised anchor)
    (ready : Ready t ids [] p) (acted : Acted t p middle revised anchor) :
    Ready t ids [revised] middle := by
  have start : Ready t ids [revised] p := ⟨ready.stage.later, ready.drawn⟩
  exact start.moved acted.applied turned.moves

omit [Environment] in
theorem Turned.differs (turned : Turned ids decision target p middle revised anchor)
    (named : Named t ids decision) (unused : Unused t.base ids) :
    ∀ r ∈ decision.related, r.id ≠ revised.id → ∀ a, some anchor = some a → r.id ≠ a.id := by
  intro r mem other a same
  cases same
  cases turned.anchor with
  | merged _ id => rwa [id, ← turned.revised]
  | replacing _ _ id | opposing _ _ id =>
    rw [id]
    exact named.differs unused mem _

omit [Environment] in
theorem conflicts_iff {related : List RelatedDecision} {against : Option Memory} {id : String}
    (other : ∀ r ∈ related, ¬Opposed against r id) :
    (∃ r ∈ related, Conflicts against r id) ↔
      (related.any fun r => r.action = .conflict && r.id = id) = true := by
  simp only [any_eq_true, Bool.and_eq_true, decide_eq_true_eq]
  constructor
  · rintro ⟨r, mem, opposed | ⟨conflicts, same⟩⟩
    · exact absurd opposed (other r mem)
    · exact ⟨r, mem, conflicts, same.symm⟩
  · rintro ⟨r, mem, conflicts, same⟩
    exact ⟨r, mem, .inr ⟨conflicts, same.symm⟩⟩

theorem target_of_ok {db : Database} (ok : decisionTarget lease db content decision = .ok target) :
    decision.target = some target.id := by
  simp only [decisionTarget, bind_ok, orElseError_eq_ok, pure_ok] at ok
  obtain ⟨id, same, prior, loaded, ⟨⟩, -, ⟨⟩, -, ⟨⟩, -, rfl⟩ := ok
  rw [same, (mem_of_load loaded).2.2]

omit [Environment] in
theorem marks_iff {id : String} (targeted : decision.target = some target.id) :
    decision.marks id = true ↔
      (decision.related.any fun r => r.action = .conflict && r.id = id) = true ∨
        id = target.id ∧ (decision.action = .conflict ∨
          decision.action = .merge ∧ ∃ r ∈ decision.related, r.action = .conflict) := by
  have turn : target.id = id ↔ id = target.id := eq_comm
  simp [ConsolidationDecision.marks, targeted, turn]

section Decision

variable (ready : Ready t ids [] p) (unused : Unused t.base ids) (named : Named t ids decision)
include ready unused named

theorem applyCreate_moves (vouched : ∀ e ∈ content.evidence, Vouched t.base lease.projectId e)
    (ok : applyCreate lease ids now candidate content decision p = .ok p') :
    Moves ids (fun id => decision.marks id = true) p p' ∧ countConflicts decision.related ≤ 1 := by
  simp only [applyCreate, Progress.newMemory, bind_ok, ensure_ok, pure_ok] at ok
  obtain ⟨⟨⟩, ⟨targetless, -⟩, saved, save, related, settle, rfl⟩ := ok
  obtain ⟨further, anchored, -, moves⟩ := created ready rfl rfl rfl vouched save
  have others := applyAllRelated_moves (named.steps unused rfl) further unused anchored settle
  refine ⟨((moves.trans others).congr fun m mem _ => ?_).push,
    (conflicts_le_one (named.steps unused rfl) further unused anchored ?_ settle).1⟩
  rw [false_or, conflicts_iff]
  · simp [ConsolidationDecision.marks, targetless]
  · rintro r - ⟨-, a, same, -, id⟩
    cases same
    exact ready.fresh unused (Nat.le_refl _) m mem id
  · simp [Database.newMemory]

/-- The anchor of the decision is conflicted already, in the state where it is applied. -/
def Conflicted (decision : ConsolidationDecision) (db : Database) : Prop :=
  decision.action = .conflict ∨ decision.action = .merge ∧ ∃ m ∈ db.memories,
    decision.target = some m.id ∧ m.status.searchable = true ∧ m.status = .conflicted

theorem applyTarget_moves (vouched : ∀ e ∈ content.evidence, Vouched t.base lease.projectId e)
    (ok : applyTarget lease ids now candidate content decision p = .ok p') :
    Moves ids (fun id => decision.marks id = true) p p' ∧
      (countConflicts decision.related ≤ 1 ∨ Conflicted decision p.db) := by
  simp only [applyTarget, bind_ok, pure_ok] at ok
  obtain ⟨target, found, ⟨revised, anchor, middle⟩, acting, related, settle, rfl⟩ := ok
  obtain ⟨mem, project, searchable, loaded⟩ := decisionTarget_of_ok found
  have targeted := target_of_ok found
  have numbered : Numbered p lease target { target with
      revision := target.revision + 1, updatedAt := now, reason := decision.reason } :=
    ⟨mem, loaded, searchable, rfl, rfl, rfl, rfl, rfl, project⟩
  have acted := applyAction_of_ok ready.stage numbered vouched acting
  have turned := turned_of_ok ready unused numbered acting
  have further := turned.ready ready acted
  have steps : Steps lease candidate ids now (some anchor) decision.related _ :=
    steps_target (turned.differs named unused)
  have others := applyAllRelated_moves steps further unused acted.anchored settle
  refine ⟨((turned.moves.trans others).congr fun m here active => ?_).push, ?_⟩
  · rw [marks_iff targeted]
    -- What the action did to its target decides which conflicts the decision names.
    cases turned.anchor with
    | merged action id status =>
      by_cases same : m.id = target.id
      · -- every related conflict makes the merged memory conflicted
        have opposed : anchor.status ≠ .conflicted := by
          rw [status, ← ready.stage.consistent.memory_eq here mem same]
          exact active
        constructor
        · rintro (⟨conflict, -⟩ | ⟨r, related, ⟨conflicts, -⟩ | ⟨conflicts, -⟩⟩)
          · rw [action] at conflict
            cases conflict
          · exact .inr ⟨same, .inr ⟨action, r, related, conflicts⟩⟩
          · exact .inr ⟨same, .inr ⟨action, r, related, conflicts⟩⟩
        · have opposes : ∀ r ∈ decision.related, r.action = .conflict →
              ∃ r ∈ decision.related, Conflicts (some anchor) r m.id := fun r related conflicts =>
            ⟨r, related, .inl ⟨conflicts, anchor, rfl, opposed, same.trans id.symm⟩⟩
          rintro (named | ⟨-, conflict | ⟨-, r, related, conflicts⟩⟩)
          · obtain ⟨r, related, conflicts⟩ := any_eq_true.mp named
            simp only [Bool.and_eq_true, decide_eq_true_eq] at conflicts
            exact .inr (opposes r related conflicts.1)
          · rw [action] at conflict
            cases conflict
          · exact .inr (opposes r related conflicts)
      · rw [conflicts_iff]
        · simp [action, same]
        · rintro r - ⟨-, a, equal, -, id'⟩
          cases equal
          exact same (id'.trans id)
    | replacing action later id _ =>
      rw [conflicts_iff]
      · simp [action]
      · rintro r - ⟨-, a, equal, -, id'⟩
        cases equal
        exact ready.fresh unused later m here (id'.trans id)
    | opposing action _ _ status =>
      rw [conflicts_iff]
      · simp [action, or_comm]
      · rintro r - ⟨-, a, equal, opposed, -⟩
        cases equal
        exact opposed status
  · by_cases active : anchor.status = .conflicted
    · refine .inr ?_
      -- Only a merged target that was in conflict, or an opposition, leaves the anchor so.
      cases turned.anchor with
      | merged action _ status =>
        exact .inr ⟨action, target, mem, targeted, searchable, status.symm.trans active⟩
      | replacing _ _ _ status =>
        rw [status] at active
        cases active
      | opposing action => exact .inl action
    · exact .inl (conflicts_le_one steps further unused acted.anchored active settle).1

theorem applyDecision_moves {candidates : List MemoryInput} {indices : List Nat}
    (ok : applyDecision lease ids now candidates indices p decision = .ok p') :
    Moves ids (fun id => decision.marks id = true) p p' ∧
      (countConflicts decision.related ≤ 1 ∨ Conflicted decision p.db) := by
  simp only [applyDecision, bind_ok] at ok
  obtain ⟨⟨⟩, -, ⟨⟩, -, candidate, -, ⟨⟩, -, ⟨⟩, -, ok⟩ := ok
  split at ok
  · simp only [bind_ok, ensure_ok] at ok
    obtain ⟨⟨⟩, ⟨targetless, -⟩, related⟩ := ok
    have steps : Steps lease candidate ids now none decision.related _ :=
      steps_plain fun _ _ _ absent => by cases absent
    have anchored : Anchored p none := fun _ absent => by cases absent
    have moves := applyAllRelated_moves steps ready unused anchored related
    refine ⟨moves.congr fun m _ _ => ?_, .inl ?_⟩
    · rw [conflicts_iff]
      · simp [ConsolidationDecision.marks, targetless]
      · rintro r - ⟨-, a, absent, -⟩
        cases absent
    · rw [no_conflicts related]
      exact Nat.zero_le _
  · simp only [bind_ok] at ok
    obtain ⟨content, checked, ok⟩ := ok
    have vouched := decisionContent_vouched ready.stage checked
    split at ok
    · exact (applyCreate_moves ready unused named vouched ok).imp_right .inl
    · exact applyTarget_moves ready unused named vouched ok

theorem checked_applyCreate (vouched : ∀ e ∈ content.evidence, Vouched t.base lease.projectId e)
    (few : countConflicts decision.related ≤ 1) :
    Checked (applyCreate lease ids now candidate content decision p) := by
  have fresh := ready.fresh unused (Nat.le_refl p.drawn)
  refine .bind (.ensure (by decide)) fun _ _ =>
    .bind (checked_saved ready.stage.consistent (.new rfl fresh)) fun saved save => ?_
  obtain ⟨further, anchored, current, -⟩ := created ready rfl rfl rfl vouched save
  refine .bind (checked_applyAllRelated (named.steps unused rfl) further unused anchored ?_)
    fun _ _ => .ok
  intro a same
  cases same
  exact .inr (.inr ⟨few, current⟩)

def SparesTarget (decision : ConsolidationDecision) (db : Database) : Prop :=
  decision.action = .conflict ∨ decision.action = .merge ∧ ∀ m ∈ db.memories,
    decision.target = some m.id → m.status.searchable = true → m.status = .conflicted

theorem checked_applyTarget (vouched : ∀ e ∈ content.evidence, Vouched t.base lease.projectId e)
    (apart : countConflicts decision.related ≤ 1 ∨ SparesTarget decision p.db) :
    Checked (applyTarget lease ids now candidate content decision p) := by
  refine .bind checked_decisionTarget fun target found => ?_
  obtain ⟨mem, project, searchable, loaded⟩ := decisionTarget_of_ok found
  have targeted := target_of_ok found
  have numbered : Numbered p lease target { target with
      revision := target.revision + 1, updatedAt := now, reason := decision.reason } :=
    ⟨mem, loaded, searchable, rfl, rfl, rfl, rfl, rfl, project⟩
  refine .bind (checked_applyAction ready unused numbered) fun result acting => ?_
  obtain ⟨revised, anchor, middle⟩ := result
  have acted := applyAction_of_ok ready.stage numbered vouched acting
  have turned := turned_of_ok ready unused numbered acting
  have further := turned.ready ready acted
  have steps : Steps lease candidate ids now (some anchor) decision.related _ :=
    steps_target (turned.differs named unused)
  refine .bind (checked_applyAllRelated steps further unused acted.anchored ?_) fun _ _ => .ok
  intro a same
  cases same
  obtain few | conflict | ⟨merge, spared⟩ := apart
  · exact .inr (.inr ⟨few, turned.current⟩)
  · cases turned.anchor with
    | merged action | replacing action =>
      rw [action] at conflict
      cases conflict
    | opposing _ _ _ status => exact .inl status
  · cases turned.anchor with
    | merged _ _ status => exact .inl (status.trans (spared target mem targeted searchable))
    | replacing action | opposing action =>
      rw [action] at merge
      cases merge

theorem checked_applyDecision {candidates : List MemoryInput} {indices : List Nat}
    (apart : countConflicts decision.related ≤ 1 ∨ SparesTarget decision p.db) :
    Checked (applyDecision lease ids now candidates indices p decision) := by
  refine .bind (.ensure (by decide)) fun _ _ => .bind (.ensure (by decide)) fun _ _ =>
    .bind (.orElseError (by decide)) fun candidate _ => .bind (.ensure (by decide)) fun _ _ =>
    .bind (.ensure (by decide)) fun _ _ => ?_
  split
  · refine .bind (.ensure (by decide)) fun _ _ => ?_
    have steps : Steps lease candidate ids now none decision.related _ :=
      steps_plain fun _ _ _ absent => by cases absent
    exact checked_applyAllRelated steps ready unused (fun _ absent => by cases absent)
      fun _ absent => by cases absent
  · refine .bind checked_decisionContent fun content checked => ?_
    have vouched := decisionContent_vouched ready.stage checked
    split
    · rename_i create
      refine checked_applyCreate ready unused named vouched (apart.resolve_right ?_)
      rintro (conflict | ⟨merge, -⟩)
      · rw [create] at conflict
        cases conflict
      · rw [create] at merge
        cases merge
    · exact checked_applyTarget ready unused named vouched apart

end Decision

end Agentix.MemoryStore
