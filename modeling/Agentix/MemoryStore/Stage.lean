import Agentix.MemoryStore.Consistent

/-! # Stages of a transaction

A transaction that has written a part of what it writes.  A fact it has left with an active and a
conflicted version is one of the memories it still has to check.
-/

namespace Agentix.MemoryStore

open Lib List

variable [Environment]

/-! ## Settled facts -/

/-- No fact has both an active and a conflicted version. -/
def Settled (db : Database) : Prop :=
  ∀ projectId factKey, db.unsettled projectId factKey = false

def HasFact (db : Database) (projectId : String) (factKey : FactKey) (status : Status) : Prop :=
  ∃ row ∈ db.memoryFacts, row.projectId = projectId ∧ row.factKey = factKey ∧ row.status = status

section

variable {db db' : Database} {memory : Memory} {projectId : String} {factKey : FactKey}

omit [Environment] in
theorem unsettled_iff : db.unsettled projectId factKey = true ↔
    HasFact db projectId factKey .active ∧ HasFact db projectId factKey .conflicted := by
  simp only [Database.unsettled, HasFact, Bool.and_eq_true, any_eq_true, decide_eq_true_eq,
    and_assoc]

/-- The status a fact has after a save is the saved one, or it had it before. -/
theorem Saved.hasFact (saved : Saved db db' memory) (consistent : Consistent db)
    (place : Place db memory) {status : Status} (after : HasFact db' projectId factKey status) :
    HasFact db projectId factKey status ∨
      (memory.status = status ∧ memory.projectId = projectId ∧
        memory.content.factKey = some factKey) := by
  obtain ⟨row, mem, project, key, same⟩ := after
  obtain ⟨old, -⟩ | ⟨-, here, keyed, now⟩ := (saved.mem_facts consistent place).mp mem
  · exact .inl ⟨row, old, project, key, same⟩
  · exact .inr ⟨by rw [← now, same], by rw [← here, project], by rw [keyed, key]⟩

theorem Saved.unsettled (saved : Saved db db' memory) (consistent : Consistent db)
    (place : Place db memory) (unsettled : db'.unsettled projectId factKey = true) :
    db.unsettled projectId factKey = true ∨
      (memory.status.searchable ∧ memory.projectId = projectId ∧
        memory.content.factKey = some factKey) := by
  obtain ⟨active, conflicted⟩ := unsettled_iff.mp unsettled
  obtain active | ⟨status, named⟩ := saved.hasFact consistent place active
  · obtain conflicted | ⟨status, named⟩ := saved.hasFact consistent place conflicted
    · exact .inl (unsettled_iff.mpr ⟨active, conflicted⟩)
    · exact .inr ⟨by rw [status]; rfl, named⟩
  · exact .inr ⟨by rw [status]; rfl, named⟩

end

/-! ## Stages -/

structure Stage (t : Transaction) (touched : List Memory) (db : Database) : Prop where
  writes : Writes t t.base db
  consistent : Consistent db
  items : db.workItems = t.base.workItems
  covered : ∀ projectId factKey, db.unsettled projectId factKey = true →
    ∃ m ∈ touched, m.projectId = projectId ∧ m.content.factKey = some factKey

/-- Writes that leave what a transaction may end with. -/
structure Commits (t : Transaction) (start db : Database) : Prop where
  writes : Writes t start db
  consistent : Consistent db
  settled : Settled db

namespace Stage

variable {t : Transaction} {touched more : List Memory} {db db' : Database}

theorem begin (consistent : Consistent t.base) (settled : Settled t.base) :
    Stage t [] t.base where
  writes := .refl
  consistent := consistent
  items := rfl
  covered projectId factKey unsettled := by
    rw [settled projectId factKey] at unsettled
    cases unsettled

theorem mono (stage : Stage t touched db) (wider : touched ⊆ more) : Stage t more db where
  writes := stage.writes
  consistent := stage.consistent
  items := stage.items
  covered projectId factKey unsettled := by
    obtain ⟨m, mem, named⟩ := stage.covered projectId factKey unsettled
    exact ⟨m, wider mem, named⟩

/-- A write that leaves the facts and the work alone. -/
theorem write (stage : Stage t touched db) (write : Write t db db')
    (facts : db'.memoryFacts = db.memoryFacts) (items : db'.workItems = db.workItems) :
    Stage t touched db' where
  writes := stage.writes.tail write
  consistent := stage.consistent.write write
  items := by rw [items, stage.items]
  covered projectId factKey unsettled := by
    refine stage.covered projectId factKey ?_
    simpa only [Database.unsettled, facts] using unsettled

theorem save {memory : Memory} (stage : Stage t touched db)
    (grounded : Grounded t.base db memory) (ok : db.save memory = .ok db') (wider : touched ⊆ more)
    (noted : memory.status.searchable → ∃ m ∈ more, m.projectId = memory.projectId ∧
      m.content.factKey = memory.content.factKey) : Stage t more db' where
  writes := stage.writes.tail (.save grounded ok)
  consistent := stage.consistent.write (t := t) (.save grounded ok)
  items := by
    rw [(saved_of_ok ok).tables]
    exact stage.items
  covered projectId factKey unsettled := by
    have saved := saved_of_ok ok
    obtain before | ⟨searchable, project, key⟩ :=
      saved.unsettled stage.consistent (grounded.place stage.consistent saved) unsettled
    · obtain ⟨m, mem, named⟩ := stage.covered projectId factKey before
      exact ⟨m, wider mem, named⟩
    · obtain ⟨m, mem, same, sameKey⟩ := noted searchable
      exact ⟨m, mem, by rw [same, project], by rw [sameKey, key]⟩

theorem known (stage : Stage t touched db) {m : Memory} (mem : m ∈ db.memories) :
    m ∈ db.memoryVersions :=
  stage.consistent.written m mem

/-- The check at the end of a transaction finds every fact it left unsettled. -/
theorem commits (stage : Stage t touched db) (ok : db.checkSettled touched = .ok ()) :
    Commits t t.base db where
  writes := stage.writes
  consistent := stage.consistent
  settled projectId factKey := by
    by_contra unsettled
    rw [Bool.not_eq_false] at unsettled
    obtain ⟨m, mem, project, key⟩ := stage.covered projectId factKey unsettled
    simp only [Database.checkSettled, ensure_ok] at ok
    have settled := all_eq_true.mp ok m mem
    simp only [key, project, Option.all_some, unsettled, Bool.not_true] at settled
    cases settled

end Stage

namespace Commits

variable {t : Transaction} {start db db' : Database}

theorem refl (consistent : Consistent db) (settled : Settled db) : Commits t db db :=
  ⟨.refl, consistent, settled⟩

theorem trans {middle : Database} (first : Commits t start middle) (second : Commits t middle db) :
    Commits t start db :=
  ⟨Relation.ReflTransGen.trans first.writes second.writes, second.consistent, second.settled⟩

theorem write (commits : Commits t start db) (write : Write t db db')
    (facts : db'.memoryFacts = db.memoryFacts) : Commits t start db' where
  writes := commits.writes.tail write
  consistent := commits.consistent.write write
  settled projectId factKey := by
    simpa only [Database.unsettled, facts] using commits.settled projectId factKey

theorem save (commits : Commits t start db) {memory : Memory} (grounded : Grounded t.base db memory)
    (ok : db.save memory = .ok db') (retired : memory.status.searchable = false) :
    Commits t start db' where
  writes := commits.writes.tail (.save grounded ok)
  consistent := commits.consistent.write (t := t) (.save grounded ok)
  settled projectId factKey := by
    by_contra unsettled
    rw [Bool.not_eq_false] at unsettled
    have saved := saved_of_ok ok
    obtain before | ⟨searchable, -⟩ :=
      saved.unsettled commits.consistent (grounded.place commits.consistent saved) unsettled
    · rw [commits.settled projectId factKey] at before
      cases before
    · rw [retired] at searchable
      cases searchable

theorem known (commits : Commits t start db) {m : Memory} (mem : m ∈ db.memories) :
    m ∈ db.memoryVersions :=
  commits.consistent.written m mem

theorem change (commits : Commits t start db) {selected : WorkItem → Bool} {change : WorkItem → WorkItem}
    (changes : ∀ item ∈ db.workItems, selected item → Change t item (change item))
    (ended : ∀ item ∈ db.workItems, selected item →
      (change item).active ∨ (change item).state = .failed ∨ t.lost item ∨ Spent t db item) :
    Commits t start (db.updateWork selected change) :=
  commits.write (.change changes ended) rfl

end Commits

/-! ## Versions -/

section Versions

variable {base db : Database} {prior memory : Memory}

theorem Grounded.same (known : prior ∈ db.memoryVersions) (revises : Revises db prior memory)
    (content : memory.content = prior.content) : Grounded base db memory :=
  .next known revises fun _ mem => .inl (content ▸ mem)

theorem Revises.searchable (id : memory.id = prior.id)
    (project : memory.projectId = prior.projectId)
    (revision : memory.revision = prior.revision + 1) (alive : prior.status.searchable)
    (remembered : memory.status ≠ .forgotten) : Revises db prior memory where
  id := id
  project := project
  revision := revision
  alive forgotten := by
    rw [forgotten] at alive
    cases alive
  revoked revoked := by
    rw [revoked] at alive
    cases alive
  forgets forgotten := absurd forgotten remembered

end Versions

end Agentix.MemoryStore

/-! # Lifecycle transactions

The transactions that write one memory or two: creation, supersession, updates and changes of
status.
-/

namespace Agentix.MemoryStore

open Lib List

variable [Environment]

section

variable {t : Transaction} {projectId id reason newId : String} {revision : Nat}
  {content : MemoryInput} {actor : Actor} {status : Status} {memory : Memory} {db' : Database}
  {touched : List Memory} {now : Int}

theorem create_commits (stage : Stage t [] t.base)
    (ok : t.base.create projectId content actor newId now = .ok (memory, db')) :
    Commits t t.base db' := by
  simp only [Database.create, bind_ok, ensure_ok, pure_ok, Prod.mk.injEq] at ok
  obtain ⟨⟨⟩, -, ⟨⟩, -, ⟨⟩, checked, saved, save, ⟨⟩, settled, rfl, rfl⟩ := ok
  refine Stage.commits (stage.save ?_ save (nil_subset _) fun _ => ?_) settled
  · exact .first rfl rfl (vouched_of_ok checked)
  · exact ⟨_, mem_singleton.mpr rfl, rfl, rfl⟩

theorem update_commits (stage : Stage t [] t.base)
    (ok : t.base.update projectId id revision content actor now = .ok (memory, db')) :
    Commits t t.base db' := by
  simp only [Database.update, bind_ok, ensure_ok, pure_ok, Prod.mk.injEq] at ok
  obtain ⟨⟨⟩, -, prior, loaded, ⟨⟩, -, ⟨⟩, alive, ⟨⟩, checked, saved, save, ⟨⟩, settled, rfl, rfl⟩ := ok
  obtain ⟨mem, project, -⟩ := mem_of_load loaded
  refine Stage.commits (stage.save ?_ save (nil_subset _) fun _ => ?_) settled
  · refine .next (stage.known mem) ?_ fun e quoted => .inr ?_
    · exact ⟨rfl, rfl, rfl, alive, fun revoked => .inl revoked, fun gone => absurd gone alive⟩
    · show Vouched t.base prior.projectId e
      rw [project]
      exact vouched_of_ok checked e quoted
  · exact ⟨_, mem_singleton.mpr rfl, rfl, rfl⟩

theorem supersede_commits (stage : Stage t [] t.base)
    (ok : t.base.supersede projectId id revision content reason actor newId now =
      .ok (memory, db')) : Commits t t.base db' := by
  simp only [Database.supersede, bind_ok, ensure_ok, pure_ok, Prod.mk.injEq,
    Bool.and_eq_true, decide_eq_true_eq] at ok
  obtain ⟨⟨⟩, -, ⟨⟩, -, prior, loaded, ⟨⟩, ⟨-, searchable⟩, ⟨⟩, checked, ⟨⟩, -, retired, first, saved,
    second, ⟨⟩, settled, rfl, rfl⟩ := ok
  obtain ⟨mem, project, -⟩ := mem_of_load loaded
  have retire : Stage t [] retired := by
    refine stage.save ?_ first (nil_subset _) fun searchable => by cases searchable
    exact .same (stage.known mem) (.searchable rfl rfl rfl searchable (by simp)) rfl
  refine Stage.commits (retire.save ?_ second (nil_subset _) fun _ => ?_) settled
  · exact .first rfl rfl (vouched_of_ok checked)
  · exact ⟨_, mem_singleton.mpr rfl, rfl, rfl⟩

theorem setStatus_commits (stage : Stage t [] t.base)
    (ok : t.base.setStatus projectId id revision status reason actor now = .ok (memory, db')) :
    Commits t t.base db' := by
  simp only [Database.setStatus, bind_ok, ensure_ok, pure_ok, Prod.mk.injEq] at ok
  obtain ⟨⟨⟩, -, prior, loaded, ⟨⟩, -, ⟨⟩, alive, ⟨⟩, revoked, suppressed, forget, saved, save, ⟨⟩,
    settled, rfl, rfl⟩ := ok
  obtain ⟨mem, project, rfl⟩ := mem_of_load loaded
  have before : Stage t [] suppressed ∧ prior ∈ suppressed.memoryVersions ∧
      (status = .forgotten → ∀ v ∈ suppressed.memoryVersions, v.id = prior.id →
        Suppressed suppressed prior.projectId v.content) := by
    unfold Database.forgetHistory at forget
    split at forget
    · -- the history is suppressed before the last version is written
      obtain ⟨suppressions, rfl, -, history⟩ := suppressHistory_of_ok forget
      refine ⟨stage.write (.suppress forget) rfl rfl, stage.known mem, fun _ => ?_⟩
      rw [project]
      exact history
    · rename_i remembered
      cases forget
      exact ⟨stage, stage.known mem, fun gone => absurd gone remembered⟩
  obtain ⟨before, known, history⟩ := before
  refine Stage.commits (before.save ?_ save (nil_subset _) fun _ => ?_) settled
  · refine .same known ⟨rfl, rfl, rfl, alive, fun before => ?_, fun gone => ⟨rfl, history gone⟩⟩ rfl
    obtain other | kept := revoked
    · exact absurd before other
    · exact kept
  · exact ⟨_, mem_singleton.mpr rfl, rfl, rfl⟩

end

end Agentix.MemoryStore
