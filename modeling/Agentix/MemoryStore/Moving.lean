import Agentix.Lib.Fallible
import Agentix.MemoryStore.Applying

/-! # Refusals by checks

A proposal may be refused by a check.  What has no check of its own is the key of the versions:
a version is written once.
-/

namespace Agentix.MemoryStore

open Lib

variable {related : RelatedDecision}

def versionTaken : String :=
  "UNIQUE constraint failed: memory_versions.memory_id, memory_versions.revision"

/-- The computation fails by a check only. -/
abbrev Checked {α : Type} (value : Fallible α) : Prop := Avoids versionTaken value

variable [Environment] {db db' : Database} {projectId : String} {memory prior : Memory}
  {content : MemoryInput} {lease : WorkLease} {now : Int}

/-! ## Checks of contents and evidence -/

omit [Environment] in
theorem checked_load {id : String} : Checked (db.load projectId id) :=
  .orElseError (by decide)

theorem checked_fact {fact : Fact} : Checked fact.validate :=
  .bind (.ensure (by decide)) fun _ _ => .ensure (by decide)

theorem checked_validate {actor : Actor} : Checked (content.validate actor) := by
  unfold MemoryInput.validate
  dsimp only
  split
  · refine .bind checked_fact fun _ _ => ?_
    iterate 6 refine .bind (.ensure (by decide)) fun _ _ => ?_
    exact .ensure (by decide)
  · iterate 6 refine .bind (.ensure (by decide)) fun _ _ => ?_
    exact .ensure (by decide)

omit [Environment] in
theorem checked_quoted {evidence : Evidence} : Checked (db.quoted projectId evidence) :=
  .bind (.orElseError (by decide)) fun _ _ => .bind (.orElseError (by decide)) fun _ _ =>
    .bind (.ensure (by decide)) fun _ _ => .ok

theorem checked_evidenceKeys : Checked (db.evidenceKeys projectId content) :=
  .bind (.mapM fun _ => checked_quoted) fun _ _ => .bind (.ensure (by decide)) fun _ _ => .ok

theorem checked_validateEvidence : Checked (db.validateEvidence projectId content) :=
  .bind (.ensure (by decide)) fun _ _ => .bind checked_evidenceKeys fun _ _ =>
    .ensure (by decide)

theorem checked_suppressHistory {id : String} : Checked (db.suppressHistory projectId id) := by
  refine .foldlM (fun _ => True) trivial fun _ _ _ _ => ⟨?_, fun _ _ => trivial⟩
  exact .bind checked_evidenceKeys fun _ _ => .ok

omit [Environment] in
theorem checked_sourceOrder : Checked (db.sourceOrder projectId content) := by
  refine .foldlM (fun _ => True) trivial fun _ _ _ _ => ⟨?_, fun _ _ => trivial⟩
  exact .bind (.orElseError (by decide)) fun _ _ => .bind (.orElseError (by decide)) fun _ _ => .ok

theorem checked_validateReplacement : Checked (db.validateReplacement prior content) := by
  unfold Database.validateReplacement
  split
  · refine .bind (.ensure (by decide)) fun _ _ => ?_
    split
    · exact .bind checked_sourceOrder fun _ _ => .bind checked_sourceOrder fun _ _ =>
        .ensure (by decide)
    · exact .ok
  · exact .ok

theorem checked_preserveEvidence {old : MemoryInput} : Checked (preserveEvidence content old) :=
  .bind checked_validate fun _ _ => .ok

/-! ## Saves -/

theorem checked_validateVersion : Checked (db.validateVersion memory) := by
  unfold Database.validateVersion
  split
  · exact .ok
  · exact .ensure (by decide)

omit [Environment] in
theorem checked_validateMemory : Checked (db.validateMemory memory) := by
  unfold Database.validateMemory
  split
  · exact .bind (.ensure (by decide)) fun _ _ => .ensure (by decide)
  · exact .ok

theorem checked_indexFact : Checked (db.indexFact memory) := by
  unfold Database.indexFact
  split
  · exact .ok
  · exact .bind (.ensure (by decide)) fun _ _ => .ok

theorem Place.unwritten (place : Place db memory) (consistent : Consistent db) :
    ∀ v ∈ db.memoryVersions, v.id = memory.id → v.revision ≠ memory.revision := by
  intro v known id
  obtain ⟨m, mem, follows⟩ := consistent.current v known
  have bound := follows.revision
  have same : m.id = memory.id := follows.id.trans id
  cases place with
  | new _ free => exact absurd same (free m mem)
  | after here id' _ revision =>
    obtain rfl := consistent.memory_eq mem here (same.trans id')
    omega

theorem checked_save (consistent : Consistent db) (place : Place db memory) :
    Checked (db.save memory) := by
  refine .bind checked_validateMemory fun _ _ => .bind checked_validateVersion fun _ _ =>
    .bind checked_indexFact fun indexed index => .bind ?_ fun _ _ => .ok
  obtain ⟨-, rfl⟩ := MemoryStore.indexed index
  have versions : ((db.writeMemory memory).writeEvidence memory).memoryVersions =
      db.memoryVersions := by
    simp only [Database.writeEvidence, Database.writeMemory]
    split <;> rfl
  unfold ensure
  rw [if_pos]
  · exact .ok
  · simp only [versions, Bool.not_eq_true', List.any_eq_false, Bool.and_eq_true, decide_eq_true_eq]
    exact fun v known same => place.unwritten consistent v known same.1 same.2

/-! ## Checks of proposals -/

omit [Environment] in
theorem checked_fence : Checked (db.fence lease now) := .ensure (by decide)

omit [Environment] in
theorem checked_candidates : Checked (consolidationCandidates lease) := by
  unfold consolidationCandidates
  split
  · exact .ok
  · exact .ok
  · exact .error (by decide)

omit [Environment] in
theorem checked_validateSeed {decisions : List ConsolidationDecision} :
    Checked (validateSeed db lease decisions now) := by
  unfold validateSeed
  split
  · exact .ok
  · exact .bind checked_load fun _ _ => .bind (.ensure (by decide)) fun _ _ =>
      .bind (.ensure (by decide)) fun _ _ => .ensure (by decide)

omit [Environment] in
theorem checked_validateSnapshot :
    Checked (validateSnapshot db projectId related) :=
  .bind checked_load fun _ _ => .ensure (by decide)

omit [Environment] in
theorem checked_validateForget :
    Checked (validateForget db lease content related prior) :=
  .bind (.orElseError (by decide)) fun _ _ => .bind (.ensure (by decide)) fun _ _ =>
    .bind (.orElseError (by decide)) fun _ _ => .ensure (by decide)

theorem checked_validateRetained {progress : Progress} :
    Checked (validateRetained lease related progress) := by
  unfold validateRetained
  split
  · exact .ok
  · exact .bind (.ensure (by decide)) fun _ _ => .bind checked_validate fun _ _ =>
      checked_validateEvidence

theorem checked_decisionContent {candidate : MemoryInput} {decision : ConsolidationDecision} :
    Checked (decisionContent lease db candidate decision) := by
  refine .bind ?_ fun _ _ => .bind checked_validate fun _ _ => .bind (.ensure (by decide))
    fun _ _ => .bind (.ensure (by decide)) fun _ _ => .bind checked_validateEvidence
    fun _ _ => .ok
  unfold proposedContent
  dsimp only
  split
  · exact checked_preserveEvidence
  · exact .ok

theorem checked_decisionTarget {decision : ConsolidationDecision} :
    Checked (decisionTarget lease db content decision) := by
  refine .bind (.orElseError (by decide)) fun _ _ => .bind checked_load fun prior _ =>
    .bind (.ensure (by decide)) fun _ _ => .bind (.ensure (by decide)) fun _ _ =>
    .bind (.onlyIf ?_) fun _ _ => .ok
  refine .bind (.ensure (by decide)) fun _ _ => ?_
  split
  · exact .ensure (by decide)
  · exact checked_validateReplacement
  · exact .ok

theorem checked_checkSettled {changed : List Memory} : Checked (db.checkSettled changed) :=
  .ensure (by decide)

omit [Environment] in
theorem checked_observeChanged {changed : List Memory} :
    Checked (db.observeChanged lease changed now) := by
  unfold Database.observeChanged
  split
  · exact .bind checked_load fun _ _ => .ok
  · exact .ok

end Agentix.MemoryStore

/-! # What a proposal does to the rows

A proposal adds rows under identifiers it draws, and gives other rows their next version.  A row
that is conflicted stays so until it is retired.
-/

namespace Agentix.MemoryStore

open Lib List

variable [Environment] {t : Transaction} {ids : Nat → String} {extra : List Memory}
  {p p' p'' : Progress} {memory prior : Memory} {made made' : String → Prop}

/-- The identifiers that a transaction draws are new and distinct. -/
structure Unused (base : Database) (ids : Nat → String) : Prop where
  injective : Function.Injective ids
  free : ∀ n, ∀ m ∈ base.memories, m.id ≠ ids n

/-- The rows are those of the base and the drawn ones. -/
structure Ready (t : Transaction) (ids : Nat → String) (extra : List Memory) (p : Progress) : Prop
    where
  stage : Stage t (p.changed ++ extra) p.db
  drawn : ∀ m ∈ p.db.memories, (∃ b ∈ t.base.memories, b.id = m.id) ∨ ∃ n < p.drawn, m.id = ids n

theorem Ready.fresh (ready : Ready t ids extra p) (unused : Unused t.base ids) {n : Nat}
    (later : p.drawn ≤ n) : ∀ m ∈ p.db.memories, m.id ≠ ids n := by
  intro m mem same
  obtain ⟨b, here, id⟩ | ⟨k, before, id⟩ := ready.drawn m mem
  · exact unused.free n b here (id.trans same)
  · have equal : k = n := unused.injective (id.symm.trans same)
    omega

/-- What becomes of the rows: new ones are drawn, and the memories `made` so become conflicted. -/
structure Moves (ids : Nat → String) (made : String → Prop) (p p' : Progress) : Prop where
  drawn : p.drawn ≤ p'.drawn
  rows : ∀ m' ∈ p'.db.memories, (∃ n, p.drawn ≤ n ∧ n < p'.drawn ∧ m'.id = ids n) ∨
    ∃ m ∈ p.db.memories, m.id = m'.id ∧ (m'.status.searchable → m.status.searchable ∧
      (m'.status = .conflicted ↔ m.status = .conflicted ∨ made m'.id))

namespace Moves

omit [Environment] in
theorem refl : Moves ids (fun _ => False) p p :=
  ⟨Nat.le_refl _, fun m' mem => .inr ⟨m', mem, rfl, fun searchable =>
    ⟨searchable, by simp⟩⟩⟩

omit [Environment] in
theorem trans (first : Moves ids made p p') (second : Moves ids made' p' p'') :
    Moves ids (fun id => made id ∨ made' id) p p'' := by
  refine ⟨Nat.le_trans first.drawn second.drawn, fun m'' mem => ?_⟩
  have bounds := first.drawn
  obtain ⟨n, after, before, id⟩ | ⟨m', here, id, spec⟩ := second.rows m'' mem
  · exact .inl ⟨n, by omega, before, id⟩
  · obtain ⟨n, after, before, id'⟩ | ⟨m, there, id', spec'⟩ := first.rows m' here
    · have more := second.drawn
      exact .inl ⟨n, after, by omega, id.symm.trans id'⟩
    · refine .inr ⟨m, there, id'.trans id, fun searchable => ?_⟩
      obtain ⟨alive, same⟩ := spec searchable
      obtain ⟨alive', same'⟩ := spec' alive
      refine ⟨alive', ?_⟩
      rw [same, same', ← id, or_assoc]

omit [Environment] in
/-- Only what is made of the rows counts that are there and not conflicted yet. -/
theorem congr (moves : Moves ids made p p')
    (same : ∀ m ∈ p.db.memories, m.status ≠ .conflicted → (made m.id ↔ made' m.id)) :
    Moves ids made' p p' := by
  refine ⟨moves.drawn, fun m' mem => (moves.rows m' mem).imp_right ?_⟩
  rintro ⟨m, here, id, spec⟩
  refine ⟨m, here, id, fun searchable => ?_⟩
  obtain ⟨alive, iff⟩ := spec searchable
  refine ⟨alive, ?_⟩
  by_cases before : m.status = .conflicted
  · simp [iff, before]
  · rw [iff, ← id, same m here before]

omit [Environment] in
/-- The memories that are counted as changed do not matter. -/
theorem push (moves : Moves ids made p p') : Moves ids made p (p'.push memory) :=
  ⟨moves.drawn, moves.rows⟩

theorem next (ids : Nat → String) (ok : p.save memory = .ok p') (mem : prior ∈ p.db.memories)
    (id : memory.id = prior.id) (kept : memory.status.searchable = true →
      prior.status.searchable = true ∧ (prior.status = .conflicted → memory.status = .conflicted)) :
    Moves ids (fun id => id = memory.id ∧ memory.status = .conflicted) p p' := by
  simp only [Progress.save, bind_ok, pure_ok] at ok
  obtain ⟨db, save, rfl⟩ := ok
  refine ⟨Nat.le_refl _, fun m' here => .inr ?_⟩
  obtain rfl | ⟨old, other⟩ := (saved_of_ok save).mem_memories.mp here
  · refine ⟨prior, mem, id.symm, fun searchable => ?_⟩
    obtain ⟨alive, stays⟩ := kept searchable
    refine ⟨alive, ?_⟩
    constructor
    · exact fun conflicted => .inr ⟨rfl, conflicted⟩
    · rintro (before | ⟨-, conflicted⟩)
      · exact stays before
      · exact conflicted
  · exact ⟨m', old, rfl, fun searchable => ⟨searchable, by simp [other]⟩⟩

omit [Environment] in
theorem draw : Moves ids (fun _ => False) p { p with drawn := p.drawn + 1 } :=
  ⟨Nat.le_succ _, fun m' mem => .inr ⟨m', mem, rfl, fun searchable =>
    ⟨searchable, by simp⟩⟩⟩

theorem add {n : Nat} (moves : Moves ids made p p') (later : p.drawn ≤ n) (drawn : n < p'.drawn)
    (id : memory.id = ids n) (ok : p'.save memory = .ok p'') : Moves ids made p p'' := by
  simp only [Progress.save, bind_ok, pure_ok] at ok
  obtain ⟨db, save, rfl⟩ := ok
  refine ⟨moves.drawn, fun m' here => ?_⟩
  obtain rfl | ⟨old, -⟩ := (saved_of_ok save).mem_memories.mp here
  · exact .inl ⟨n, later, drawn, id⟩
  · exact moves.rows m' old

theorem new (ok : Progress.save { p with drawn := p.drawn + 1 } memory = .ok p')
    (id : memory.id = ids p.drawn) : Moves ids (fun _ => False) p p' :=
  draw.add (Nat.le_refl _) (Nat.lt_succ_self _) id ok

end Moves

theorem Ready.moved (ready : Ready t ids extra p) (applied : Applied t extra p p')
    (moves : Moves ids made p p') : Ready t ids extra p' := by
  refine ⟨applied.stage, fun m mem => ?_⟩
  have more := moves.drawn
  obtain ⟨n, -, before, id⟩ | ⟨m', here, id, -⟩ := moves.rows m mem
  · exact .inr ⟨n, before, id⟩
  · obtain base | ⟨n, before, id'⟩ := ready.drawn m' here
    · exact .inl (id ▸ base)
    · exact .inr ⟨n, by omega, id ▸ id'⟩

/-! ## Related memories -/

section Related

variable {lease : WorkLease} {candidate : MemoryInput} {now : Int} {decision : RelatedDecision}
  {anchor : Option Memory} {disposed a : Memory}

/-- The memories that a related conflict makes conflicted beside the related one. -/
def Opposed (anchor : Option Memory) (decision : RelatedDecision) (id : String) : Prop :=
  decision.action = .conflict ∧ ∃ a, anchor = some a ∧ a.status ≠ .conflicted ∧ id = a.id

theorem relatedAction_moves (ready : Ready t ids extra p) (anchored : Anchored p anchor)
    (ok : relatedAction lease candidate ids now decision anchor prior p = .ok (disposed, p')) :
    Moves ids (Opposed anchor decision) p p' := by
  unfold relatedAction at ok
  split at ok
  · rename_i supersedes
    have none_opposed : ∀ id, ¬Opposed anchor decision id := by simp [Opposed, supersedes]
    simp only [relatedSupersede, bind_ok] at ok
    obtain ⟨a, -, ⟨⟩, -, ⟨⟩, -, ok⟩ := ok
    split at ok
    · cases ok
      exact Moves.refl.congr fun m _ _ => by simp [none_opposed]
    · simp only [Progress.newMemory, Progress.write, bind_ok, pure_ok,
        Prod.mk.injEq] at ok
      obtain ⟨_, ⟨saved, save, rfl⟩, -, rfl⟩ := ok
      exact ((Moves.new save rfl).congr fun m _ _ => by simp [none_opposed]).push
  · rename_i conflicts
    simp only [relatedConflict, bind_ok, orElseError_eq_ok] at ok
    obtain ⟨a, rfl, ⟨⟩, -, ok⟩ := ok
    split at ok
    · rename_i already
      cases ok
      exact Moves.refl.congr fun m _ _ => by simp [Opposed, already]
    · rename_i active
      simp only [Progress.write, bind_ok, pure_ok, Prod.mk.injEq] at ok
      obtain ⟨_, ⟨saved, save, rfl⟩, -, rfl⟩ := ok
      have save' := save
      simp only [Progress.save, bind_ok] at save'
      obtain ⟨db, written, -⟩ := save'
      obtain ⟨known, searchable⟩ := anchored a rfl
      have current := ready.stage.consistent.prior_current (saved_of_ok written) known rfl rfl
      refine ((Moves.next ids save current rfl fun _ => ⟨searchable, fun _ => rfl⟩).congr ?_).push
      intro m _ _
      simp [Opposed, conflicts, active]
  · rename_i forgets
    simp only [relatedForget, bind_ok, pure_ok, Prod.mk.injEq] at ok
    obtain ⟨⟨⟩, -, db, forget, -, rfl⟩ := ok
    obtain ⟨suppressions, rfl, -⟩ := suppressHistory_of_ok forget
    refine ⟨Nat.le_refl _, fun m mem => .inr ⟨m, mem, rfl, fun searchable => ?_⟩⟩
    exact ⟨searchable, by simp [Opposed, forgets]⟩
  · cases ok

theorem relatedAction_keeps (ready : Ready t ids extra p) (unused : Unused t.base ids)
    (mem : memory ∈ p.db.memories)
    (other : decision.action = .conflict → ∀ a, anchor = some a → memory.id ≠ a.id)
    (ok : relatedAction lease candidate ids now decision anchor prior p = .ok (disposed, p')) :
    memory ∈ p'.db.memories := by
  unfold relatedAction at ok
  split at ok
  · simp only [relatedSupersede, bind_ok] at ok
    obtain ⟨a, -, ⟨⟩, -, ⟨⟩, -, ok⟩ := ok
    split at ok
    · cases ok
      exact mem
    · simp only [Progress.newMemory, Progress.write, Progress.save, bind_ok, pure_ok,
        Prod.mk.injEq] at ok
      obtain ⟨_, ⟨_, ⟨db, save, rfl⟩, rfl⟩, -, rfl⟩ := ok
      exact (saved_of_ok save).mem_memories.mpr
        (.inr ⟨mem, ready.fresh unused (Nat.le_refl _) memory mem⟩)
  · rename_i conflicts
    simp only [relatedConflict, bind_ok, orElseError_eq_ok] at ok
    obtain ⟨a, rfl, ⟨⟩, -, ok⟩ := ok
    split at ok
    · cases ok
      exact mem
    · simp only [Progress.write, Progress.save, bind_ok, pure_ok, Prod.mk.injEq] at ok
      obtain ⟨_, ⟨_, ⟨db, save, rfl⟩, rfl⟩, -, rfl⟩ := ok
      exact (saved_of_ok save).mem_memories.mpr (.inr ⟨mem, other conflicts a rfl⟩)
  · simp only [relatedForget, bind_ok, pure_ok, Prod.mk.injEq] at ok
    obtain ⟨⟨⟩, -, db, forget, -, rfl⟩ := ok
    obtain ⟨suppressions, rfl, -⟩ := suppressHistory_of_ok forget
    exact mem
  · cases ok

theorem disposed_status
    (ok : relatedAction lease candidate ids now decision anchor prior p = .ok (disposed, p')) :
    (decision.action = .conflict ∧ disposed.status = .conflicted) ∨
      (decision.action ≠ .conflict ∧ disposed.status.searchable = false) := by
  unfold relatedAction at ok
  split at ok
  · rename_i supersedes
    simp only [relatedSupersede, bind_ok] at ok
    obtain ⟨a, -, ⟨⟩, -, ⟨⟩, -, ok⟩ := ok
    split at ok
    · cases ok
      exact .inr ⟨by simp [supersedes], rfl⟩
    · simp only [bind_ok, pure_ok, Prod.mk.injEq] at ok
      obtain ⟨_, -, rfl, -⟩ := ok
      exact .inr ⟨by simp [supersedes], rfl⟩
  · rename_i conflicts
    simp only [relatedConflict, bind_ok] at ok
    obtain ⟨a, -, ⟨⟩, -, ok⟩ := ok
    split at ok
    · cases ok
      exact .inl ⟨conflicts, rfl⟩
    · simp only [bind_ok, pure_ok, Prod.mk.injEq] at ok
      obtain ⟨_, -, rfl, -⟩ := ok
      exact .inl ⟨conflicts, rfl⟩
  · rename_i forgets
    simp only [relatedForget, bind_ok, pure_ok, Prod.mk.injEq] at ok
    obtain ⟨⟨⟩, -, db, -, rfl, -⟩ := ok
    exact .inr ⟨by simp [forgets], rfl⟩
  · cases ok

/-- The memories that a related decision makes conflicted. -/
def Conflicts (anchor : Option Memory) (decision : RelatedDecision) (id : String) : Prop :=
  Opposed anchor decision id ∨ decision.action = .conflict ∧ id = decision.id

theorem applyRelated_moves (ready : Ready t ids extra p) (unused : Unused t.base ids)
    (anchored : Anchored p anchor) (ne : ∀ a, anchor = some a → decision.id ≠ a.id)
    (ok : applyRelated lease candidate ids now anchor p decision = .ok p') :
    Moves ids (Conflicts anchor decision) p p' := by
  simp only [applyRelated, bind_ok, ensure_ok] at ok
  obtain ⟨⟨⟩, -, ok⟩ := ok
  split at ok
  · rename_i keeps
    simp only [bind_ok, pure_ok] at ok
    obtain ⟨⟨⟩, -, rfl⟩ := ok
    exact Moves.refl.congr fun m _ _ => by simp [Conflicts, Opposed, keeps]
  · simp only [Progress.write, bind_ok, ensure_ok, pure_ok] at ok
    obtain ⟨prior, loaded, ⟨⟩, ⟨-, searchable⟩, ⟨⟩, -, ⟨⟩, -, ⟨⟩, retained, ⟨disposed, middle⟩, acted,
      saved, save, rfl⟩ := ok
    obtain ⟨mem, project, named⟩ := mem_of_load loaded
    obtain ⟨applied, same⟩ := relatedAction_of_ok ready.stage anchored project retained acted
    have stays := relatedAction_keeps ready unused mem
      (fun _ a present => named ▸ ne a present) acted
    have moved := relatedAction_moves ready anchored acted
    have written : Moves ids _ middle saved := Moves.next ids save stays same.id fun alive => by
      refine ⟨searchable, fun _ => ?_⟩
      obtain ⟨-, conflicted⟩ | ⟨-, retired⟩ := disposed_status acted
      · exact conflicted
      · exact absurd alive (by simp [retired])
    refine ((moved.trans written).congr fun m _ _ => or_congr Iff.rfl ?_).push
    have id : disposed.id = decision.id := same.id.trans named
    obtain ⟨conflicts, conflicted⟩ | ⟨other, retired⟩ := disposed_status acted
    · simp [id, conflicts, conflicted]
    · have unresolved : disposed.status ≠ .conflicted := by
        intro conflicted
        rw [conflicted] at retired
        cases retired
      simp [other, unresolved]

/-- A related decision leaves the anchor alone, but by a conflict. -/
theorem applyRelated_keeps (ready : Ready t ids extra p) (unused : Unused t.base ids)
    (anchored : Anchored p anchor) (mem : memory ∈ p.db.memories)
    (ne : decision.id ≠ memory.id) (peaceful : decision.action ≠ .conflict)
    (ok : applyRelated lease candidate ids now anchor p decision = .ok p') :
    memory ∈ p'.db.memories := by
  simp only [applyRelated, bind_ok, ensure_ok] at ok
  obtain ⟨⟨⟩, -, ok⟩ := ok
  split at ok
  · simp only [bind_ok, pure_ok] at ok
    obtain ⟨⟨⟩, -, rfl⟩ := ok
    exact mem
  · simp only [Progress.write, Progress.save, bind_ok, ensure_ok, pure_ok] at ok
    obtain ⟨prior, loaded, ⟨⟩, -, ⟨⟩, -, ⟨⟩, -, ⟨⟩, retained, ⟨disposed, middle⟩, acted, _,
      ⟨db, save, rfl⟩, rfl⟩ := ok
    obtain ⟨-, project, named⟩ := mem_of_load loaded
    obtain ⟨-, same⟩ := relatedAction_of_ok ready.stage anchored project retained acted
    have stays := relatedAction_keeps ready unused mem
      (fun conflicts => absurd conflicts peaceful) acted
    refine (saved_of_ok save).mem_memories.mpr (.inr ⟨stays, fun equal => ne ?_⟩)
    exact named.symm.trans (same.id.symm.trans equal.symm)

theorem applyRelated_opposes {a : Memory} (conflicts : decision.action = .conflict)
    (active : a.status ≠ .conflicted)
    (ok : applyRelated lease candidate ids now (some a) p decision = .ok p') :
    (∀ v ∈ p.db.memoryVersions, v.id = a.id → v.revision ≠ a.revision + 1) ∧
      ∃ v ∈ p'.db.memoryVersions, v.id = a.id ∧ v.revision = a.revision + 1 := by
  simp only [applyRelated, conflicts, bind_ok, ensure_ok] at ok
  obtain ⟨⟨⟩, -, ok⟩ := ok
  simp only [reduceCtorEq, if_false, Progress.write, Progress.save, bind_ok, ensure_ok,
    pure_ok] at ok
  obtain ⟨prior, loaded, ⟨⟩, -, ⟨⟩, -, ⟨⟩, -, ⟨⟩, -, ⟨disposed, middle⟩, acted, _,
    ⟨db, save, rfl⟩, rfl⟩ := ok
  simp only [relatedAction, conflicts, relatedConflict, bind_ok] at acted
  obtain ⟨_, ⟨⟩, ⟨⟩, -, acted⟩ := acted
  rw [if_neg active] at acted
  simp only [Progress.write, Progress.save, bind_ok, pure_ok, Prod.mk.injEq] at acted
  obtain ⟨_, ⟨_, ⟨opposed, saved, rfl⟩, rfl⟩, -, rfl⟩ := acted
  refine ⟨fun v known id => (saved_of_ok saved).fresh v known id, ?_⟩
  have written := (saved_of_ok saved).mem_versions.mpr (.inr rfl)
  exact ⟨_, (saved_of_ok save).mem_versions.mpr (.inl written), rfl, rfl⟩

/-! ## Checks -/

theorem checked_saved (consistent : Consistent p.db) (place : Place p.db memory) :
    Checked (p.save memory) :=
  .bind (checked_save consistent place) fun _ _ => .ok

theorem checked_write (consistent : Consistent p.db) (place : Place p.db memory) :
    Checked (p.write memory) :=
  .bind (checked_saved consistent place) fun _ _ => .ok

theorem checked_relatedAction (ready : Ready t ids extra p) (unused : Unused t.base ids)
    (current : decision.action = .conflict → ∀ a, anchor = some a →
      a.status = .conflicted ∨ a ∈ p.db.memories) :
    Checked (relatedAction lease candidate ids now decision anchor prior p) := by
  unfold relatedAction
  split
  · refine .bind (.orElseError (by decide)) fun a _ =>
      .bind (.onlyIf checked_validateReplacement) fun _ _ => .bind (.ensure (by decide))
      fun _ _ => ?_
    dsimp only
    split
    · exact .ok
    · refine .bind (checked_write ready.stage.consistent (.new rfl ?_)) fun _ _ => .ok
      exact ready.fresh unused (Nat.le_refl _)
  · rename_i conflicts
    refine .bind (.orElseError (by decide)) fun a found => .bind (.onlyIf (.ensure (by decide)))
      fun _ _ => ?_
    rw [orElseError_eq_ok] at found
    dsimp only
    split
    · exact .ok
    · rename_i active
      have mem := (current conflicts a found).resolve_left active
      exact .bind (checked_write ready.stage.consistent (.after mem rfl rfl rfl)) fun _ _ => .ok
  · exact .bind checked_validateForget fun _ _ => .bind checked_suppressHistory fun _ _ => .ok
  · exact .error (by decide)

theorem checked_applyRelated (ready : Ready t ids extra p) (unused : Unused t.base ids)
    (anchored : Anchored p anchor) (ne : ∀ a, anchor = some a → decision.id ≠ a.id)
    (current : decision.action = .conflict → ∀ a, anchor = some a →
      a.status = .conflicted ∨ a ∈ p.db.memories) :
    Checked (applyRelated lease candidate ids now anchor p decision) := by
  refine .bind (.ensure (by decide)) fun _ _ => ?_
  split
  · exact .bind (.ensure (by decide)) fun _ _ => .ok
  · refine .bind checked_load fun prior loaded => .bind (.ensure (by decide)) fun _ _ =>
      .bind (.ensure (by decide)) fun _ _ => .bind (.ensure (by decide)) fun _ _ =>
      .bind checked_validateRetained fun _ retained =>
      .bind (checked_relatedAction ready unused current) fun acted action => ?_
    obtain ⟨disposed, middle⟩ := acted
    obtain ⟨mem, project, named⟩ := mem_of_load loaded
    obtain ⟨applied, same⟩ := relatedAction_of_ok ready.stage anchored project retained action
    have stays := relatedAction_keeps ready unused mem
      (fun _ a present => named ▸ ne a present) action
    exact checked_write applied.stage.consistent
      (.after stays same.id same.project (congrArg (· + 1) same.revision))

/-! ## All related memories -/

/-- A step of the loop over the related memories, which may have a check of its own. -/
structure Steps (lease : WorkLease) (candidate : MemoryInput) (ids : Nat → String) (now : Int)
    (anchor : Option Memory) (related : List RelatedDecision)
    (step : Progress → RelatedDecision → Fallible Progress) : Prop where
  applies : ∀ decision ∈ related, ∀ p p', step p decision = .ok p' →
    (∀ a, anchor = some a → decision.id ≠ a.id) ∧
      applyRelated lease candidate ids now anchor p decision = .ok p'
  checked : ∀ decision ∈ related, ∀ p, ((∀ a, anchor = some a → decision.id ≠ a.id) →
    Checked (applyRelated lease candidate ids now anchor p decision)) → Checked (step p decision)

/-- How many of the related memories are conflicts. -/
def countConflicts (related : List RelatedDecision) : Nat :=
  related.countP fun decision => decision.action = .conflict

section Loop

variable {related : List RelatedDecision} {step : Progress → RelatedDecision → Fallible Progress}

theorem Steps.tail (steps : Steps lease candidate ids now anchor (decision :: related) step) :
    Steps lease candidate ids now anchor related step :=
  ⟨fun decision mem => steps.applies decision (mem_cons_of_mem _ mem),
    fun decision mem => steps.checked decision (mem_cons_of_mem _ mem)⟩

theorem applyAllRelated_moves (steps : Steps lease candidate ids now anchor related step)
    (ready : Ready t ids extra p) (unused : Unused t.base ids) (anchored : Anchored p anchor)
    (ok : related.foldlM step p = .ok p') :
    Moves ids (fun id => ∃ decision ∈ related, Conflicts anchor decision id) p p' := by
  induction related generalizing p with
  | nil =>
    cases ok
    exact Moves.refl.congr fun m _ _ => by simp
  | cons decision rest ih =>
    rw [foldlM_cons, bind_ok] at ok
    obtain ⟨middle, first, later⟩ := ok
    obtain ⟨ne, applied⟩ := steps.applies decision mem_cons_self p middle first
    have moves := applyRelated_moves ready unused anchored ne applied
    have further := applyRelated_of_ok ready.stage anchored applied
    have others := ih steps.tail (ready.moved further moves)
      (anchored.mono further.extended) later
    exact (moves.trans others).congr fun m _ _ => by simp

/-- With one conflict at most against an anchor that is not conflicted, only checks refuse. -/
theorem checked_applyAllRelated (steps : Steps lease candidate ids now anchor related step)
    (ready : Ready t ids extra p) (unused : Unused t.base ids) (anchored : Anchored p anchor)
    (apart : ∀ a, anchor = some a → a.status = .conflicted ∨ countConflicts related = 0 ∨
      countConflicts related ≤ 1 ∧ a ∈ p.db.memories) :
    Checked (related.foldlM step p) := by
  induction related generalizing p with
  | nil => exact .ok
  | cons decision rest ih =>
    rw [foldlM_cons]
    have counted : countConflicts (decision :: rest) =
        countConflicts rest + if decision.action = .conflict then 1 else 0 := by
      simp [countConflicts, countP_cons]
    refine .bind (steps.checked decision mem_cons_self p fun ne => ?_) ?_
    · refine checked_applyRelated ready unused anchored ne fun conflicts a present => ?_
      rw [if_pos conflicts] at counted
      obtain already | none_left | ⟨-, current⟩ := apart a present
      · exact .inl already
      · omega
      · exact .inr current
    · intro middle first
      obtain ⟨ne, applied⟩ := steps.applies decision mem_cons_self p middle first
      have moves := applyRelated_moves ready unused anchored ne applied
      have further := applyRelated_of_ok ready.stage anchored applied
      refine ih steps.tail (ready.moved further moves)
        (anchored.mono further.extended) fun a present => ?_
      obtain already | none_left | ⟨few, current⟩ := apart a present
      · exact .inl already
      · exact .inr (.inl (by omega))
      · by_cases conflicts : decision.action = .conflict
        · rw [if_pos conflicts] at counted
          exact .inr (.inl (by omega))
        · rw [if_neg conflicts] at counted
          exact .inr (.inr ⟨by omega, applyRelated_keeps ready unused anchored current
            (ne a present) conflicts applied⟩)

theorem conflicts_le_one {a : Memory} (steps : Steps lease candidate ids now (some a) related step)
    (ready : Ready t ids extra p) (unused : Unused t.base ids) (anchored : Anchored p (some a))
    (active : a.status ≠ .conflicted) (ok : related.foldlM step p = .ok p') :
    countConflicts related ≤ 1 ∧ ((∃ v ∈ p.db.memoryVersions, v.id = a.id ∧
      v.revision = a.revision + 1) → countConflicts related = 0) := by
  induction related generalizing p with
  | nil => simp [countConflicts]
  | cons decision rest ih =>
    rw [foldlM_cons, bind_ok] at ok
    obtain ⟨middle, first, later⟩ := ok
    obtain ⟨ne, applied⟩ := steps.applies decision mem_cons_self p middle first
    have moves := applyRelated_moves ready unused anchored ne applied
    have further := applyRelated_of_ok ready.stage anchored applied
    obtain ⟨few, none_left⟩ := ih steps.tail (ready.moved further moves)
      (anchored.mono further.extended) later
    have counted : countConflicts (decision :: rest) =
        countConflicts rest + if decision.action = .conflict then 1 else 0 := by
      simp [countConflicts, countP_cons]
    by_cases conflicts : decision.action = .conflict
    · obtain ⟨unwritten, written⟩ := applyRelated_opposes conflicts active applied
      rw [if_pos conflicts, none_left written] at counted
      refine ⟨by omega, ?_⟩
      rintro ⟨v, known, id, revision⟩
      exact absurd revision (unwritten v known id)
    · rw [if_neg conflicts] at counted
      refine ⟨by omega, ?_⟩
      rintro ⟨v, known, spec⟩
      rw [counted, none_left ⟨v, further.extended.versions known, spec⟩]

end Loop

end Related

end Agentix.MemoryStore
