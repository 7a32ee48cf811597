import Agentix.MemoryStore.Intake

/-! # Application of proposals

Every step of a proposal leaves a stage of its transaction, in which the memories it has changed
are the ones it still has to check.
-/

namespace Agentix.MemoryStore

open Lib List

variable [Environment]

/-- A step of an application.  The memories of `extra` are counted as changed later. -/
structure Applied (t : Transaction) (extra : List Memory) (before after : Progress) : Prop where
  stage : Stage t (after.changed ++ extra) after.db
  extended : Extends before.db after.db

section

variable {t : Transaction} {extra : List Memory} {p p' p'' : Progress} {memory : Memory}

theorem Applied.refl (stage : Stage t (p.changed ++ extra) p.db) : Applied t extra p p :=
  ⟨stage, .refl _⟩

theorem Applied.trans (first : Applied t extra p p') (second : Applied t extra p' p'') :
    Applied t extra p p'' :=
  ⟨second.stage, first.extended.trans second.extended⟩

theorem applied_of_save (ok : p.save memory = .ok p') (stage : Stage t (p.changed ++ extra) p.db)
    (grounded : Grounded t.base p.db memory)
    (later : memory.status.searchable → ∃ m ∈ extra, m.projectId = memory.projectId ∧
      m.content.factKey = memory.content.factKey) :
    Applied t extra p p' ∧ memory ∈ p'.db.memoryVersions := by
  simp only [Progress.save, bind_ok, pure_ok] at ok
  obtain ⟨db, save, rfl⟩ := ok
  refine ⟨⟨stage.save grounded save (List.Subset.refl _) fun searchable => ?_, ?_⟩, ?_⟩
  · obtain ⟨m, mem, named⟩ := later searchable
    exact ⟨m, mem_append_right _ mem, named⟩
  · exact (Write.save (t := t) grounded save).extends
  · exact (saved_of_ok save).mem_versions.mpr (.inr rfl)

theorem applied_of_write (ok : p.write memory = .ok p') (stage : Stage t (p.changed ++ extra) p.db)
    (grounded : Grounded t.base p.db memory) :
    Applied t extra p p' ∧ memory ∈ p'.db.memoryVersions := by
  simp only [Progress.write, Progress.save, bind_ok, pure_ok] at ok
  obtain ⟨_, ⟨db, save, rfl⟩, rfl⟩ := ok
  refine ⟨⟨stage.save grounded save (fun m mem => ?_) fun _ => ?_, ?_⟩, ?_⟩
  · simp only [Progress.push, mem_append, mem_singleton] at mem ⊢
    obtain changed | later := mem
    · exact .inl (.inl changed)
    · exact .inr later
  · exact ⟨memory, by simp [Progress.push], rfl, rfl⟩
  · exact (Write.save (t := t) grounded save).extends
  · exact (saved_of_ok save).mem_versions.mpr (.inr rfl)

theorem applied_of_push (applied : Applied t [memory] p p') : Applied t [] p (p'.push memory) where
  stage := by
    rw [append_nil]
    exact applied.stage
  extended := applied.extended

theorem Stage.later (stage : Stage t (p.changed ++ []) p.db) : Stage t (p.changed ++ extra) p.db :=
  stage.mono (by simp)

/-! ## Related memories -/

/-- What an action decides about a related memory, before its new version is written. -/
structure Disposed (db : Database) (prior disposed : Memory) : Prop where
  id : disposed.id = prior.id
  project : disposed.projectId = prior.projectId
  revision : disposed.revision = prior.revision
  content : disposed.content = prior.content
  forgets : disposed.status = .forgotten → ∀ v ∈ db.memoryVersions, v.id = prior.id →
    Suppressed db prior.projectId v.content

/-- The memory that related ones are settled against. -/
def Anchored (p : Progress) (anchor : Option Memory) : Prop :=
  ∀ a, anchor = some a → a ∈ p.db.memoryVersions ∧ a.status.searchable = true

omit [Environment] in
theorem Anchored.mono {anchor : Option Memory} (anchored : Anchored p anchor)
    (extended : Extends p.db p'.db) : Anchored p' anchor :=
  fun a present => ⟨extended.versions (anchored a present).1, (anchored a present).2⟩

section Related

variable {lease : WorkLease} {candidate : MemoryInput} {ids : Nat → String} {now : Int}
  {decision : RelatedDecision} {anchor : Option Memory} {prior disposed : Memory}

theorem relatedSupersede_of_ok (stage : Stage t (p.changed ++ extra) p.db)
    (retained : validateRetained lease decision p = .ok ())
    (ok : relatedSupersede lease ids now decision anchor prior p = .ok (disposed, p')) :
    Applied t extra p p' ∧ Disposed p'.db prior disposed := by
  simp only [relatedSupersede, bind_ok] at ok
  obtain ⟨anchor, -, ⟨⟩, -, ⟨⟩, -, ok⟩ := ok
  split at ok
  · cases ok
    exact ⟨.refl stage, rfl, rfl, rfl, rfl, fun gone => by cases gone⟩
  · rename_i content present
    simp only [bind_ok, pure_ok, Prod.mk.injEq] at ok
    obtain ⟨progress, written, rfl, rfl⟩ := ok
    simp only [validateRetained, present, bind_ok] at retained
    obtain ⟨⟨⟩, -, ⟨⟩, -, checked⟩ := retained
    obtain ⟨⟨stage, extended⟩, -⟩ := applied_of_write written stage
      (.first rfl rfl (stage.writes.vouched checked))
    exact ⟨⟨stage, extended⟩, rfl, rfl, rfl, rfl, fun gone => by cases gone⟩

theorem relatedConflict_of_ok (stage : Stage t (p.changed ++ extra) p.db)
    (anchored : Anchored p anchor)
    (ok : relatedConflict now anchor prior p = .ok (disposed, p')) :
    Applied t extra p p' ∧ Disposed p'.db prior disposed := by
  simp only [relatedConflict, bind_ok, orElseError_eq_ok] at ok
  obtain ⟨anchor, present, ⟨⟩, -, ok⟩ := ok
  split at ok
  · cases ok
    exact ⟨.refl stage, rfl, rfl, rfl, rfl, fun gone => by cases gone⟩
  · simp only [bind_ok, pure_ok, Prod.mk.injEq] at ok
    obtain ⟨progress, written, rfl, rfl⟩ := ok
    obtain ⟨known, searchable⟩ := anchored anchor present
    obtain ⟨applied, -⟩ := applied_of_write written stage
      (.same known (.searchable rfl rfl rfl searchable (by simp)) rfl)
    exact ⟨applied, rfl, rfl, rfl, rfl, fun gone => by cases gone⟩

theorem relatedForget_of_ok (stage : Stage t (p.changed ++ extra) p.db)
    (project : prior.projectId = lease.projectId)
    (ok : relatedForget lease candidate decision prior p = .ok (disposed, p')) :
    Applied t extra p p' ∧ Disposed p'.db prior disposed := by
  simp only [relatedForget, bind_ok, pure_ok, Prod.mk.injEq] at ok
  obtain ⟨⟨⟩, -, db, forget, rfl, rfl⟩ := ok
  have write : Write t p.db db := .suppress forget
  obtain ⟨suppressions, rfl, -, history⟩ := suppressHistory_of_ok forget
  refine ⟨⟨stage.write write rfl rfl, write.extends⟩, rfl, rfl, rfl, rfl, fun _ => ?_⟩
  rw [project]
  exact history

theorem relatedAction_of_ok (stage : Stage t (p.changed ++ extra) p.db)
    (anchored : Anchored p anchor) (project : prior.projectId = lease.projectId)
    (retained : validateRetained lease decision p = .ok ())
    (ok : relatedAction lease candidate ids now decision anchor prior p = .ok (disposed, p')) :
    Applied t extra p p' ∧ Disposed p'.db prior disposed := by
  unfold relatedAction at ok
  split at ok
  · exact relatedSupersede_of_ok stage retained ok
  · exact relatedConflict_of_ok stage anchored ok
  · exact relatedForget_of_ok stage project ok
  · cases ok

theorem applyRelated_of_ok (stage : Stage t (p.changed ++ extra) p.db)
    (anchored : Anchored p anchor)
    (ok : applyRelated lease candidate ids now anchor p decision = .ok p') :
    Applied t extra p p' := by
  simp only [applyRelated, bind_ok, ensure_ok] at ok
  obtain ⟨⟨⟩, -, ok⟩ := ok
  split at ok
  · simp only [bind_ok, pure_ok] at ok
    obtain ⟨⟨⟩, -, rfl⟩ := ok
    exact .refl stage
  · simp only [bind_ok, ensure_ok] at ok
    obtain ⟨prior, loaded, ⟨⟩, ⟨-, searchable⟩, ⟨⟩, -, ⟨⟩, -, ⟨⟩, retained, ⟨disposed, middle⟩, acted,
      written⟩ := ok
    obtain ⟨mem, project, -⟩ := mem_of_load loaded
    obtain ⟨applied, same⟩ := relatedAction_of_ok stage anchored project retained acted
    refine applied.trans (applied_of_write written applied.stage ?_).1
    refine .same (applied.extended.versions (stage.known mem)) ?_ same.content
    refine ⟨same.id, same.project, by rw [← same.revision], ?_, ?_, fun gone => ?_⟩
    · intro forgotten
      rw [forgotten] at searchable
      cases searchable
    · intro revoked
      rw [revoked] at searchable
      cases searchable
    · refine ⟨same.content, fun v known named => ?_⟩
      show Suppressed _ disposed.projectId v.content
      rw [same.project]
      exact same.forgets gone v known (by rw [named]; exact same.id)

theorem applyAllRelated_of_ok {related : List RelatedDecision}
    {step : Progress → RelatedDecision → Fallible Progress}
    (applies : ∀ p decision p', step p decision = .ok p' →
      applyRelated lease candidate ids now anchor p decision = .ok p')
    (stage : Stage t (p.changed ++ extra) p.db) (anchored : Anchored p anchor)
    (ok : related.foldlM step p = .ok p') : Applied t extra p p' := by
  refine foldlM_induction (motive := Applied t extra p) (fun decision _ before after ok applied => ?_)
    ok (.refl stage)
  exact applied.trans (applyRelated_of_ok applied.stage (anchored.mono applied.extended)
    (applies before decision after ok))

end Related

/-! ## Decisions -/

section Decisions

variable {lease : WorkLease} {ids : Nat → String} {now : Int} {candidate content : MemoryInput}
  {decision : ConsolidationDecision} {prior anchor revised : Memory}

theorem mem_preserved {content prior preserved : MemoryInput}
    (ok : preserveEvidence content prior = .ok preserved) :
    ∀ e ∈ preserved.evidence, e ∈ content.evidence ∨ e ∈ prior.evidence := by
  simp only [preserveEvidence, bind_ok, pure_ok] at ok
  obtain ⟨⟨⟩, -, rfl⟩ := ok
  have folded : ∀ (quotes : List Evidence) (content : MemoryInput),
      ∀ e ∈ (quotes.foldl (fun (content : MemoryInput) e => if content.covers e then content
        else { content with evidence := content.evidence ++ [e] }) content).evidence,
      e ∈ content.evidence ∨ e ∈ quotes := by
    intro quotes
    induction quotes with
    | nil => exact fun content e mem => .inl mem
    | cons quote rest ih =>
      intro content e mem
      obtain here | later := ih _ e mem
      · dsimp only at here
        split at here
        · exact .inl here
        · obtain old | new := mem_append.mp here
          · exact .inl old
          · exact .inr (mem_singleton.mp new ▸ mem_cons_self)
      · exact .inr (mem_cons_of_mem _ later)
  exact folded prior.evidence content

theorem decisionContent_vouched (stage : Stage t (p.changed ++ extra) p.db)
    (ok : decisionContent lease p.db candidate decision = .ok content) :
    ∀ e ∈ content.evidence, Vouched t.base lease.projectId e := by
  simp only [decisionContent, bind_ok, pure_ok] at ok
  obtain ⟨proposed, -, ⟨⟩, -, ⟨⟩, -, ⟨⟩, -, ⟨⟩, checked, rfl⟩ := ok
  exact stage.writes.vouched checked

theorem applyCreate_of_ok (stage : Stage t (p.changed ++ []) p.db)
    (vouched : ∀ e ∈ content.evidence, Vouched t.base lease.projectId e)
    (ok : applyCreate lease ids now candidate content decision p = .ok p') :
    Applied t [] p p' := by
  simp only [applyCreate, Progress.newMemory, bind_ok, pure_ok] at ok
  obtain ⟨⟨⟩, -, saved, save, related, settle, rfl⟩ := ok
  obtain ⟨⟨first, extended⟩, known⟩ := applied_of_save save stage.later (.first rfl rfl vouched)
    fun _ => ⟨_, mem_singleton.mpr rfl, rfl, rfl⟩
  have others := applyAllRelated_of_ok (fun _ _ _ ok => ok) first
    (fun a same => by
      cases same
      exact ⟨known, rfl⟩) settle
  exact applied_of_push ⟨others.stage, extended.trans others.extended⟩

theorem decisionTarget_of_ok {db : Database} (ok : decisionTarget lease db content decision = .ok prior) :
    prior ∈ db.memories ∧ prior.projectId = lease.projectId ∧ prior.status.searchable ∧
      db.load lease.projectId prior.id = .ok prior := by
  simp only [decisionTarget, bind_ok, ensure_ok, pure_ok] at ok
  obtain ⟨id, -, found, loaded, ⟨⟩, ⟨-, searchable⟩, ⟨⟩, -, ⟨⟩, -, rfl⟩ := ok
  obtain ⟨mem, project, named⟩ := mem_of_load loaded
  exact ⟨mem, project, searchable, by rw [named]; exact loaded⟩

/-- The next version of a target, before an action. -/
structure Numbered (p : Progress) (lease : WorkLease) (target next : Memory) : Prop where
  member : target ∈ p.db.memories
  loaded : p.db.load lease.projectId target.id = .ok target
  searchable : target.status.searchable = true
  id : next.id = target.id
  project : next.projectId = target.projectId
  revision : next.revision = target.revision + 1
  status : next.status = target.status
  content : next.content = target.content
  projectId : target.projectId = lease.projectId

theorem Numbered.revises {target next memory : Memory} {db : Database}
    (numbered : Numbered p lease target next) (id : memory.id = next.id)
    (project : memory.projectId = next.projectId) (revision : memory.revision = next.revision)
    (remembered : memory.status ≠ .forgotten) : Revises db target memory :=
  .searchable (by rw [id, numbered.id]) (by rw [project, numbered.project])
    (by rw [revision, numbered.revision]) numbered.searchable remembered

/-- An action writes the target, which is counted later, and leaves an anchor. -/
structure Acted (t : Transaction) (before after : Progress) (revised anchor : Memory) : Prop where
  applied : Applied t [revised] before after
  anchored : Anchored after (some anchor)

section Actions

variable {target next : Memory} (stage : Stage t (p.changed ++ []) p.db)
  (numbered : Numbered p lease target next)
  (vouched : ∀ e ∈ content.evidence, Vouched t.base lease.projectId e)
include stage numbered vouched

theorem applyMerge_of_ok (ok : applyMerge lease content next p = .ok (revised, anchor, p')) :
    Acted t p p' revised anchor := by
  simp only [applyMerge, bind_ok, pure_ok, Prod.mk.injEq] at ok
  obtain ⟨original, loaded, merged, preserve, saved, save, rfl, rfl, rfl⟩ := ok
  obtain rfl : target = original := by
    rw [numbered.id, numbered.loaded] at loaded
    exact Except.ok.inj loaded
  have searchable : next.status.searchable := numbered.status ▸ numbered.searchable
  have remembered : next.status ≠ .forgotten := by
    intro forgotten
    rw [forgotten] at searchable
    cases searchable
  have evidence : ∀ e ∈ merged.evidence,
      e ∈ target.content.evidence ∨ Vouched t.base next.projectId e := by
    intro e mem
    obtain new | old := mem_preserved preserve e mem
    · rw [numbered.project, numbered.projectId]
      exact .inr (vouched e new)
    · exact .inl old
  obtain ⟨applied, known⟩ := applied_of_save save stage.later
    (.next (stage.known numbered.member) (numbered.revises rfl rfl rfl remembered) evidence)
    fun _ => ⟨_, mem_singleton.mpr rfl, rfl, rfl⟩
  refine ⟨applied, fun a same => ?_⟩
  cases same
  exact ⟨known, searchable⟩

theorem applySupersede_of_ok
    (ok : applySupersede lease ids now content next p = .ok (revised, anchor, p')) :
    Acted t p p' revised anchor := by
  simp only [applySupersede, Progress.newMemory, bind_ok, pure_ok, Prod.mk.injEq] at ok
  obtain ⟨middle, save, final, write, rfl, rfl, rfl⟩ := ok
  obtain ⟨⟨retired, extended⟩, -⟩ := applied_of_save save stage.later
    (.same (stage.known numbered.member) (numbered.revises rfl rfl rfl (by simp)) numbered.content)
    fun searchable => by cases searchable
  obtain ⟨⟨written, more⟩, known⟩ := applied_of_write write retired (.first rfl rfl vouched)
  refine ⟨⟨written, extended.trans more⟩, fun a same => ?_⟩
  cases same
  exact ⟨known, rfl⟩

theorem applyConflict_of_ok
    (ok : applyConflict lease ids now content next p = .ok (revised, anchor, p')) :
    Acted t p p' revised anchor := by
  simp only [applyConflict, Progress.newMemory, bind_ok, pure_ok, Prod.mk.injEq] at ok
  obtain ⟨middle, write, final, save, rfl, rfl, rfl⟩ := ok
  obtain ⟨⟨written, extended⟩, known⟩ := applied_of_write write stage.later (.first rfl rfl vouched)
  obtain ⟨⟨revised, more⟩, -⟩ := applied_of_save save written
    (.same (extended.versions (stage.known numbered.member))
      (numbered.revises rfl rfl rfl (by simp)) numbered.content)
    fun _ => ⟨_, mem_singleton.mpr rfl, rfl, rfl⟩
  refine ⟨⟨revised, extended.trans more⟩, fun a same => ?_⟩
  cases same
  exact ⟨more.versions known, rfl⟩

theorem applyAction_of_ok
    (ok : applyAction lease ids now content decision next p = .ok (revised, anchor, p')) :
    Acted t p p' revised anchor := by
  unfold applyAction at ok
  split at ok
  · exact applyMerge_of_ok stage numbered vouched ok
  · exact applySupersede_of_ok stage numbered vouched ok
  · exact applyConflict_of_ok stage numbered vouched ok
  · cases ok

end Actions

theorem applyTarget_of_ok (stage : Stage t (p.changed ++ []) p.db)
    (vouched : ∀ e ∈ content.evidence, Vouched t.base lease.projectId e)
    (ok : applyTarget lease ids now candidate content decision p = .ok p') :
    Applied t [] p p' := by
  simp only [applyTarget, bind_ok, pure_ok] at ok
  obtain ⟨target, found, ⟨revised, anchor, middle⟩, acted, related, settle, rfl⟩ := ok
  obtain ⟨mem, project, searchable, loaded⟩ := decisionTarget_of_ok found
  have numbered : Numbered p lease target { target with
      revision := target.revision + 1, updatedAt := now, reason := decision.reason } :=
    ⟨mem, loaded, searchable, rfl, rfl, rfl, rfl, rfl, project⟩
  have acted := applyAction_of_ok stage numbered vouched acted
  have applies : ∀ (p : Progress) (related : RelatedDecision) (p' : Progress), (do
      ensure (related.id ≠ revised.id) "primary target cannot also be a related target"
      applyRelated lease candidate ids now (some anchor) p related) = .ok p' →
      applyRelated lease candidate ids now (some anchor) p related = .ok p' := by
    intro p related p' ok
    simp only [bind_ok] at ok
    obtain ⟨⟨⟩, -, applied⟩ := ok
    exact applied
  have others := applyAllRelated_of_ok applies acted.applied.stage acted.anchored settle
  exact applied_of_push (acted.applied.trans others)

theorem applyDecision_of_ok {candidates : List MemoryInput} {indices : List Nat}
    (stage : Stage t (p.changed ++ []) p.db)
    (ok : applyDecision lease ids now candidates indices p decision = .ok p') :
    Applied t [] p p' := by
  simp only [applyDecision, bind_ok] at ok
  obtain ⟨⟨⟩, -, ⟨⟩, -, candidate, -, ⟨⟩, -, ⟨⟩, -, ok⟩ := ok
  split at ok
  · simp only [bind_ok] at ok
    obtain ⟨⟨⟩, -, related⟩ := ok
    exact applyAllRelated_of_ok (fun _ _ _ ok => ok) stage (fun a same => by cases same) related
  · simp only [bind_ok] at ok
    obtain ⟨content, checked, ok⟩ := ok
    have vouched := decisionContent_vouched stage checked
    split at ok
    · exact applyCreate_of_ok stage vouched ok
    · exact applyTarget_of_ok stage vouched ok

theorem applyDecisions_of_ok {candidates : List MemoryInput} {indices : List Nat}
    {decisions : List ConsolidationDecision} (stage : Stage t (p.changed ++ []) p.db)
    (ok : applyDecisions lease ids now candidates indices decisions p = .ok p') :
    Applied t [] p p' := by
  induction decisions generalizing p indices with
  | nil =>
    cases ok
    exact .refl stage
  | cons decision rest ih =>
    simp only [applyDecisions, bind_ok] at ok
    obtain ⟨middle, first, later⟩ := ok
    have applied := applyDecision_of_ok stage first
    exact applied.trans (ih applied.stage later)

end Decisions

end

end Agentix.MemoryStore
