import Agentix.MemoryStore.Splitting

/-! # Lineage

Which memories a split has made of the records it retires.  Every part writes versions of its own
fact only, and the facts of the parts are different ones.
-/

namespace Agentix.MemoryStore

open Lib List

namespace Database

def derived (db : Database) (sourceId id : String) : Bool :=
  db.memoryFactOrigins.any fun o => o.memoryId = id && o.sourceMemoryId = sourceId

/-- All memories that were split off from a source, by identifier. -/
def derivatives (db : Database) (projectId sourceId : String) : List Memory :=
  (db.memories.filter fun m => m.projectId = projectId && db.derived sourceId m.id).insertionSort
    fun a b => a.id ≤ b.id

/-- One-to-many lineage for a legacy record split into facts. -/
def factDerivatives (db : Database) (projectId sourceId : String) : List Memory :=
  (db.derivatives projectId sourceId).take 100

variable {db : Database} {sourceId id projectId : String} {m : Memory}

theorem derived_iff : db.derived sourceId id = true ↔
    ∃ o ∈ db.memoryFactOrigins, o.memoryId = id ∧ o.sourceMemoryId = sourceId := by
  simp [derived]

theorem mem_derivatives : m ∈ db.derivatives projectId sourceId ↔
    m ∈ db.memories ∧ m.projectId = projectId ∧ db.derived sourceId m.id = true := by
  simp only [derivatives, mem_insertionSort, mem_filter, Bool.and_eq_true,
    decide_eq_true_eq]

end Database

variable [Environment]

section

variable {t : Transaction} {base : Database} {p p' : Progress} {memory : Memory}
  {lease : WorkLease} {ids : Nat → String} {now : Int}

/-! ## Parts -/

def Made (base : Database) (parts : List FactPart) (m : Memory) : Prop :=
  (∀ old ∈ base.memories, old.id ≠ m.id) ∨
    ∃ part ∈ parts, part.action = .merge ∧ part.target = some m.id

/-- A part has written the last version of a fact, or left it beside its own claim. -/
def Displaced (part : FactPart) (m : Memory) : Prop :=
  part.target = some m.id ∧ ((part.action = .supersede ∧ m.status = .superseded) ∨
    (part.action = .conflict ∧ m.status = .conflicted))

/-- What a part leaves of its fact. -/
structure PartOutcome (base : Database) (lease : WorkLease) (part : FactPart) (m : Memory) :
    Prop where
  key : m.content.factKey = part.content.factKey
  project : m.projectId = lease.projectId
  fate : (Made base [part] m ∧ m.status.searchable = true) ∨ Displaced part m

/-- The versions that one part writes.  They are new memories, or versions of the fact that the
part is reconciled with. -/
structure PartWrites (base : Database) (lease : WorkLease) (part : FactPart) (p p' : Progress)
    (added : List Memory) : Prop where
  changed : p'.changed = p.changed ++ added
  rows : ∀ m, m ∈ p'.db.memories ↔ m ∈ added ∨ (m ∈ p.db.memories ∧ ∀ a ∈ added, m.id ≠ a.id)
  origins : p'.db.memoryFactOrigins = p.db.memoryFactOrigins
  few : added.length ≤ 2
  outcome : ∀ m ∈ added, PartOutcome base lease part m
  place : ∀ m ∈ added, (∀ old, old ∈ base.memories ∨ old ∈ p.db.memories → old.id ≠ m.id) ∨
    ∃ prior ∈ p.db.memories, prior.id = m.id ∧ prior.content.factKey = part.content.factKey
  target : ∀ id, part.target = some id → ∃ prior ∈ p.db.memories, prior.id = id ∧
    prior.content.factKey = part.content.factKey ∧ ∃ m ∈ added, m.id = id

theorem saved_of_write (ok : p.write memory = .ok p') :
    Saved p.db p'.db memory ∧ p'.changed = p.changed ++ [memory] := by
  simp only [Progress.write, Progress.save, bind_ok, pure_ok] at ok
  obtain ⟨_, ⟨db, save, rfl⟩, rfl⟩ := ok
  exact ⟨saved_of_ok save, rfl⟩

theorem Saved.origins {db db' : Database} (saved : Saved db db' memory) :
    db'.memoryFactOrigins = db.memoryFactOrigins := by
  rw [saved.tables]

theorem Saved.extends {db db' : Database} (saved : Saved db db' memory) : Extends db db' := by
  rw [saved.tables]
  exact { Extends.refl db with versions := subset_append_left _ _ }

theorem preserved_factKey {content prior preserved : MemoryInput}
    (ok : preserveEvidence content prior = .ok preserved) :
    preserved.factKey = content.factKey := by
  simp only [preserveEvidence, bind_ok, pure_ok] at ok
  obtain ⟨⟨⟩, -, rfl⟩ := ok
  have folded : ∀ (quotes : List Evidence) (content : MemoryInput),
      (quotes.foldl (fun (content : MemoryInput) e => if content.covers e then content
        else { content with evidence := content.evidence ++ [e] }) content).fact =
      content.fact := by
    intro quotes
    induction quotes with
    | nil => exact fun _ => rfl
    | cons quote rest ih =>
      intro content
      rw [foldl_cons, ih]
      split <;> rfl
  rw [MemoryInput.factKey, folded]
  rfl

section Writes

variable {origins : List String} {part : FactPart} {target next : Memory}
  (consistent : Consistent base) (extended : Extends base p.db) (stage : Consistent p.db)
include consistent extended stage

theorem createPart_writes (ok : createPart lease ids now origins part p = .ok (memory, p')) :
    ∃ added, PartWrites base lease part p p' added ∧ memory ∈ added := by
  simp only [createPart, Progress.newMemory, bind_ok, ensure_ok, pure_ok,
    Prod.mk.injEq] at ok
  obtain ⟨⟨⟩, ⟨untargeted, -⟩, written, write, rfl, rfl⟩ := ok
  obtain ⟨saved, changed⟩ := saved_of_write write
  have new := consistent.first_new extended saved rfl
  have here := stage.first_new (.refl _) saved rfl
  refine ⟨_, ⟨changed, fun m => ?_, saved.origins, by simp, ?_, ?_, ?_⟩, mem_singleton.mpr rfl⟩
  · simp only [mem_singleton, forall_eq]
    exact saved.mem_memories
  · simp only [mem_singleton, forall_eq]
    exact ⟨rfl, rfl, .inl ⟨.inl new, rfl⟩⟩
  · simp only [mem_singleton, forall_eq]
    exact .inl fun old either => either.elim (new old) (here old)
  · intro id targeted
    rw [untargeted] at targeted
    cases targeted

variable (numbered : Numbered p lease target next) (targeted : part.target = some target.id)
  (key : target.content.factKey = part.content.factKey)
include numbered targeted key

omit consistent extended stage in
theorem mergePart_writes (merge : part.action = .merge)
    (ok : mergePart origins part next p = .ok (memory, p')) :
    ∃ added, PartWrites base lease part p p' added ∧ memory ∈ added := by
  simp only [mergePart, bind_ok, pure_ok, Prod.mk.injEq] at ok
  obtain ⟨⟨⟩, -, merged, preserve, written, write, rfl, rfl⟩ := ok
  obtain ⟨saved, changed⟩ := saved_of_write write
  refine ⟨_, ⟨changed, fun m => ?_, saved.origins, by simp, ?_, ?_, ?_⟩, mem_singleton.mpr rfl⟩
  · simp only [mem_singleton, forall_eq]
    exact saved.mem_memories
  · simp only [mem_singleton, forall_eq]
    refine ⟨preserved_factKey preserve, ?_, .inl ⟨.inr ⟨part, by simp, merge, ?_⟩, ?_⟩⟩
    · show next.projectId = lease.projectId
      rw [numbered.project, numbered.projectId]
    · show part.target = some next.id
      rw [targeted, numbered.id]
    · show next.status.searchable = true
      rw [numbered.status, numbered.searchable]
  · simp only [mem_singleton, forall_eq]
    exact .inr ⟨target, numbered.member, numbered.id.symm, key⟩
  · intro id same
    rw [targeted, Option.some.injEq] at same
    exact ⟨target, numbered.member, same, key, _, mem_singleton.mpr rfl,
      numbered.id.trans same⟩

/-- A part that leaves the prior fact with another status writes its own claim beside it. -/
theorem displacing_writes {prior claim : Memory} {start middle : Progress}
    (retire : start.write prior = .ok middle) (write : middle.write claim = .ok p')
    (begun : start.db = p.db ∧ start.changed = p.changed)
    (kept : prior.id = next.id ∧ prior.projectId = next.projectId ∧ prior.content = next.content)
    (displaced : Displaced part prior) (first : claim.revision = 1)
    (claims : claim.content = part.content ∧ claim.projectId = lease.projectId ∧
      claim.status.searchable = true) :
    ∃ added, PartWrites base lease part p p' added ∧ claim ∈ added := by
  obtain ⟨retired, changed⟩ := saved_of_write retire
  obtain ⟨saved, changed'⟩ := saved_of_write write
  rw [begun.1] at retired
  rw [begun.2] at changed
  obtain ⟨sameId, sameProject, sameContent⟩ := kept
  have id : prior.id = target.id := sameId.trans numbered.id
  have new := consistent.first_new (extended.trans retired.extends) saved first
  have here := stage.first_new retired.extends saved first
  have other : prior.id ≠ claim.id := id ▸ here target numbered.member
  have both : ∀ {motive : Memory → Prop}, motive prior → motive claim →
      ∀ m ∈ [prior, claim], motive m := by
    intro motive holds also m mem
    obtain rfl | rfl := mem_pair.mp mem
    · exact holds
    · exact also
  refine ⟨[prior, claim], ⟨by rw [changed', changed, append_assoc]; rfl, fun m => ?_,
    saved.origins.trans retired.origins, by simp, both ⟨?_, ?_, .inr displaced⟩
      ⟨?_, claims.2.1, .inl ⟨.inl new, claims.2.2⟩⟩, both ?_ ?_, fun x same => ?_⟩, by simp⟩
  · rw [saved.mem_memories, retired.mem_memories]
    constructor
    · rintro (rfl | ⟨rfl | ⟨old, apart⟩, aside⟩)
      · exact .inl (by simp)
      · exact .inl (by simp)
      · exact .inr ⟨old, both apart aside⟩
    · rintro (written | ⟨old, apart⟩)
      · obtain rfl | rfl := mem_pair.mp written
        · exact .inr ⟨.inl rfl, other⟩
        · exact .inl rfl
      · exact .inr ⟨.inr ⟨old, apart prior (by simp)⟩, apart claim (by simp)⟩
  · rw [MemoryInput.factKey, sameContent, numbered.content]
    exact key
  · rw [sameProject, numbered.project, numbered.projectId]
  · rw [MemoryInput.factKey, claims.1]
    rfl
  · exact .inr ⟨target, numbered.member, id.symm, key⟩
  · exact .inl fun old either => either.elim (new old) (here old)
  · rw [targeted, Option.some.injEq] at same
    exact ⟨target, numbered.member, same, key, prior, by simp, id.trans same⟩

theorem supersedePart_writes (supersede : part.action = .supersede)
    (ok : supersedePart lease ids now origins part next p = .ok (memory, p')) :
    ∃ added, PartWrites base lease part p p' added ∧ memory ∈ added := by
  simp only [supersedePart, Progress.newMemory, bind_ok, pure_ok, Prod.mk.injEq] at ok
  obtain ⟨⟨⟩, -, middle, retire, written, write, rfl, rfl⟩ := ok
  have same : part.target = some next.id := by rw [targeted, numbered.id]
  exact displacing_writes consistent extended stage numbered targeted key retire write ⟨rfl, rfl⟩
    ⟨rfl, rfl, rfl⟩ ⟨same, .inl ⟨supersede, rfl⟩⟩ rfl ⟨rfl, rfl, rfl⟩

theorem conflictPart_writes (conflict : part.action = .conflict)
    (ok : conflictPart lease ids now origins part next p = .ok (memory, p')) :
    ∃ added, PartWrites base lease part p p' added ∧ memory ∈ added := by
  simp only [conflictPart, Progress.newMemory, bind_ok, pure_ok, Prod.mk.injEq] at ok
  obtain ⟨middle, dispute, written, write, rfl, rfl⟩ := ok
  have same : part.target = some next.id := by rw [targeted, numbered.id]
  exact displacing_writes consistent extended stage numbered targeted key dispute write ⟨rfl, rfl⟩
    ⟨rfl, rfl, rfl⟩ ⟨same, .inr ⟨conflict, rfl⟩⟩ rfl ⟨rfl, rfl, rfl⟩

end Writes

theorem applyPart_writes {origins : List String} {part : FactPart} (consistent : Consistent base)
    (extended : Extends base p.db) (stage : Consistent p.db)
    (ok : applyPart lease ids now origins part p = .ok (memory, p')) :
    ∃ added, PartWrites base lease part p p' added ∧ memory ∈ added := by
  simp only [applyPart, bind_ok] at ok
  obtain ⟨⟨⟩, -, ok⟩ := ok
  split at ok
  · exact createPart_writes consistent extended stage ok
  · simp only [bind_ok, partTarget, orElseError_eq_ok, ensure_ok, pure_ok, sameIdentity,
      decide_eq_true_eq] at ok
    obtain ⟨⟨⟩, -, target, ⟨id, targeted, found, loaded, ⟨⟩, ⟨-, searchable⟩, ⟨⟩, -, ⟨⟩, ⟨-, key⟩, rfl⟩,
      ok⟩ := ok
    obtain ⟨mem, project, named⟩ := mem_of_load loaded
    rw [← named] at targeted loaded
    have numbered : Numbered p lease found { found with
        revision := found.revision + 1, updatedAt := now, reason := part.reason } :=
      ⟨mem, loaded, searchable, rfl, rfl, rfl, rfl, rfl, project⟩
    unfold reconcilePart at ok
    split at ok
    · rename_i merge
      exact mergePart_writes numbered targeted key merge ok
    · rename_i supersede
      exact supersedePart_writes consistent extended stage numbered targeted key supersede ok
    · rename_i conflict
      exact conflictPart_writes consistent extended stage numbered targeted key conflict ok
    · cases ok

theorem applyPart_targeted {origins : List String} {part : FactPart}
    (ok : applyPart lease ids now origins part p = .ok (memory, p')) :
    part.action ≠ .create → ∃ id, part.target = some id := by
  intro other
  simp only [applyPart, if_neg other, bind_ok, partTarget, orElseError_eq_ok] at ok
  obtain ⟨⟨⟩, -, ⟨⟩, -, target, ⟨id, targeted, -⟩, -⟩ := ok
  exact ⟨id, targeted⟩

/-! ## All parts -/

omit [Environment] in
theorem mem_insertOrigin {db : Database} {memoryId sourceId : String} {revision : Nat}
    {o : FactOrigin} : o ∈ (insertOrigin memoryId sourceId revision db).memoryFactOrigins ↔
      o ∈ db.memoryFactOrigins ∨ o = ⟨memoryId, sourceId, revision⟩ := by
  have inserted : o ∈ [FactOrigin.mk memoryId sourceId revision].foldl
      (fun rows row => insertOrIgnore id row rows) db.memoryFactOrigins ↔ _ :=
    mem_foldl_insertOrIgnore_id
  rw [mem_singleton] at inserted
  exact inserted

/-- What some parts have made of a database. -/
structure Reconciled (base : Database) (lease : WorkLease) (seed : Memory) (parts : List FactPart)
    (p : Progress) : Prop where
  facts : ∀ part ∈ parts, part.content.fact.isSome = true
  targeted : ∀ part ∈ parts, part.action ≠ .create → ∃ id, part.target = some id
  separate : (parts.map fun part => part.content.factKey).Nodup
  untouched : ∀ m ∈ base.memories, (∀ part ∈ parts, m.content.factKey ≠ part.content.factKey) →
    m ∈ p.db.memories
  written : ∀ m ∈ p.db.memories, m ∈ base.memories ∨ m ∈ p.changed
  stored : ∀ m ∈ p.changed, m ∈ p.db.memories
  outcome : ∀ m ∈ p.changed, ∃ part ∈ parts, PartOutcome base lease part m
  target : ∀ part ∈ parts, ∀ id, part.target = some id → ∃ prior ∈ base.memories, prior.id = id ∧
    prior.content.factKey = part.content.factKey ∧ ∃ m ∈ p.changed, m.id = id
  origins : ∀ o, o ∈ p.db.memoryFactOrigins → o ∈ base.memoryFactOrigins ∨
    ∃ m ∈ p.changed, o = ⟨m.id, seed.id, seed.revision⟩
  kept : base.memoryFactOrigins ⊆ p.db.memoryFactOrigins
  few : p.changed.length ≤ 2 * parts.length

theorem Reconciled.none (base : Database) (lease : WorkLease) (seed : Memory) :
    Reconciled base lease seed [] { db := base } := by
  constructor <;> simp

section Parts

variable {seed : Memory} {parts rest : List FactPart} {part : FactPart} {added : List Memory}
  {origins : List String} {keys : List FactKey}

/-- A memory of another fact is not written by a part. -/
theorem PartWrites.apart (writes : PartWrites base lease part p p' added)
    (stage : Consistent p.db) {m : Memory} (mem : m ∈ p.db.memories)
    (other : m.content.factKey ≠ part.content.factKey) : ∀ a ∈ added, m.id ≠ a.id := by
  intro a written same
  obtain new | ⟨prior, here, id, key⟩ := writes.place a written
  · exact new m (.inr mem) same
  · apply other
    rw [stage.memory_eq mem here (same.trans id.symm), key]

theorem Reconciled.snoc (reconciled : Reconciled base lease seed parts p) (stage : Consistent p.db)
    (writes : PartWrites base lease part p p' added) (made : memory ∈ added)
    (fact : part.content.fact.isSome = true)
    (targeted : part.action ≠ .create → ∃ id, part.target = some id)
    (fresh : ∀ other ∈ parts, other.content.factKey ≠ part.content.factKey) :
    Reconciled base lease seed (parts ++ [part])
      { p' with db := insertOrigin memory.id seed.id seed.revision p'.db } := by
  -- Parts have different keys, so what the earlier ones wrote is not touched by this one.
  have others : ∀ m ∈ p.changed, m.content.factKey ≠ part.content.factKey := by
    intro m mem
    obtain ⟨other, before, outcome⟩ := reconciled.outcome m mem
    rw [outcome.key]
    exact fresh other before
  have origin : ∀ o, o ∈ (insertOrigin memory.id seed.id seed.revision p'.db).memoryFactOrigins ↔
      o ∈ p.db.memoryFactOrigins ∨ o = ⟨memory.id, seed.id, seed.revision⟩ := by
    intro o
    rw [mem_insertOrigin, writes.origins]
  have grown : ∀ m, m ∈ p'.changed ↔ m ∈ p.changed ∨ m ∈ added := by
    intro m
    rw [writes.changed, mem_append]
  constructor
  · intro other mem
    obtain before | rfl := mem_append.mp mem |>.imp id mem_singleton.mp
    · exact reconciled.facts other before
    · exact fact
  · intro other mem
    obtain before | rfl := mem_append.mp mem |>.imp id mem_singleton.mp
    · exact reconciled.targeted other before
    · exact targeted
  · rw [map_append, nodup_append]
    refine ⟨reconciled.separate, by simp, fun a before b last => ?_⟩
    obtain ⟨other, mem, rfl⟩ := mem_map.mp before
    obtain rfl := mem_singleton.mp last
    exact fresh other mem
  · intro m mem apart
    have before := reconciled.untouched m mem fun other here =>
      apart other (mem_append_left _ here)
    exact (writes.rows m).mpr (.inr ⟨before, writes.apart stage before (apart part (by simp))⟩)
  · intro m mem
    obtain new | ⟨old, -⟩ := (writes.rows m).mp mem
    · exact .inr ((grown m).mpr (.inr new))
    · exact (reconciled.written m old).imp_right fun changed => (grown m).mpr (.inl changed)
  · intro m mem
    refine (writes.rows m).mpr ?_
    obtain old | new := (grown m).mp mem
    · have before := reconciled.stored m old
      exact .inr ⟨before, writes.apart stage before (others m old)⟩
    · exact .inl new
  · intro m mem
    obtain old | new := (grown m).mp mem
    · obtain ⟨other, before, outcome⟩ := reconciled.outcome m old
      exact ⟨other, mem_append_left _ before, outcome⟩
    · exact ⟨part, by simp, writes.outcome m new⟩
  · intro other mem x aimed
    obtain before | rfl := mem_append.mp mem |>.imp id mem_singleton.mp
    · obtain ⟨prior, here, named, key, m, changed, same⟩ :=
        reconciled.target other before x aimed
      exact ⟨prior, here, named, key, m, (grown m).mpr (.inl changed), same⟩
    · obtain ⟨prior, here, named, key, m, written, same⟩ := writes.target x aimed
      obtain old | changed := reconciled.written prior here
      · exact ⟨prior, old, named, key, m, (grown m).mpr (.inr written), same⟩
      · exact absurd key (others prior changed)
  · intro o mem
    obtain old | rfl := (origin o).mp mem
    · exact (reconciled.origins o old).imp_right fun ⟨m, changed, same⟩ =>
        ⟨m, (grown m).mpr (.inl changed), same⟩
    · exact .inr ⟨memory, (grown memory).mpr (.inr made), rfl⟩
  · exact fun o mem => (origin o).mpr (.inl (reconciled.kept mem))
  · have before := reconciled.few
    have few := writes.few
    simp only [writes.changed, length_append, length_singleton]
    omega

theorem applyParts_reconciled (consistent : Consistent t.base) (begun : Extends t.base p.db)
    (stage : Stage t (p.changed ++ []) p.db)
    (known : ∀ part ∈ parts, ∃ key ∈ keys, part.content.factKey = some key)
    (reconciled : Reconciled t.base lease seed parts p)
    (ok : applyParts lease ids now origins seed keys rest p = .ok p') :
    Reconciled t.base lease seed (parts ++ rest) p' := by
  induction rest generalizing p keys parts with
  | nil =>
    cases ok
    rw [append_nil]
    exact reconciled
  | cons part rest ih =>
    simp only [applyParts, bind_ok, orElseError_eq_ok, ensure_ok] at ok
    obtain ⟨⟨⟩, -, fact, present, ⟨⟩, fresh, ⟨⟩, checked, ⟨memory, middle⟩, one, later⟩ := ok
    have parted := applyPart_of_ok stage (stage.writes.vouched checked) one
    obtain ⟨added, writes, made⟩ := applyPart_writes consistent begun stage.consistent one
    have origin : Write t middle.db _ := insertOrigin_write memory.id seed.id seed.revision
    have noted := parted.applied.stage.write origin rfl rfl
    have key : part.content.factKey = some fact.key := by
      rw [MemoryInput.factKey, present, Option.map_some]
    have next := reconciled.snoc stage.consistent writes made (by rw [present]; rfl)
      (applyPart_targeted one) fun other mem same => by
        obtain ⟨k, here, keyed⟩ := known other mem
        rw [keyed, key, Option.some.injEq] at same
        exact fresh (same ▸ here)
    rw [append_cons]
    refine ih (begun.trans (parted.applied.extended.trans origin.extends))
      noted (fun other mem => ?_) next later
    obtain before | rfl := mem_append.mp mem |>.imp id mem_singleton.mp
    · obtain ⟨k, here, keyed⟩ := known other before
      exact ⟨k, mem_cons_of_mem _ here, keyed⟩
    · exact ⟨fact.key, mem_cons_self, key⟩

end Parts

/-! ## Retirement -/

/-- The legacy records that a split has retired in favour of the facts it wrote. -/
structure Retirement (base : Database) (facts retired : List Memory) (p : Progress) : Prop where
  listed : p.changed.filter (fun m => m.content.fact.isSome) = facts
  stored : ∀ m ∈ facts, m ∈ p.db.memories
  written : ∀ m ∈ p.db.memories, m ∈ base.memories ∨ m ∈ facts ∨ ∃ r ∈ retired, r.id = m.id
  known : ∀ r ∈ retired, r ∈ base.memories
  legacy : ∀ r ∈ retired, splitCovers facts r.content.evidence = true
  replaced : ∀ r ∈ retired, ∃ row ∈ p.db.memories, row.id = r.id ∧ row.status = .superseded ∧
    row.content = r.content ∧ row.supersededBy = facts.head?.map Memory.id
  origins : ∀ o ∈ p.db.memoryFactOrigins, o ∈ base.memoryFactOrigins ∨ ∃ m ∈ facts, m.id = o.memoryId
  kept : base.memoryFactOrigins ⊆ p.db.memoryFactOrigins
  traced : ∀ r ∈ retired, ∀ m ∈ facts, p.db.derived r.id m.id = true

omit [Environment] in
theorem mem_insertOrigins {parts : List Memory} {db : Database} {sourceId : String} {revision : Nat}
    {o : FactOrigin} :
    o ∈ (parts.foldl (fun db part => insertOrigin part.id sourceId revision db)
      db).memoryFactOrigins ↔
      o ∈ db.memoryFactOrigins ∨ ∃ m ∈ parts, o = ⟨m.id, sourceId, revision⟩ := by
  induction parts generalizing db with
  | nil => simp
  | cons part rest ih =>
    rw [foldl_cons, ih, mem_insertOrigin, or_assoc, exists_mem_cons_iff]

omit [Environment] in
theorem insertOrigins_memories {parts : List Memory} {db : Database} {sourceId : String}
    {revision : Nat} :
    (parts.foldl (fun db part => insertOrigin part.id sourceId revision db) db).memories =
      db.memories := by
  induction parts generalizing db with
  | nil => rfl
  | cons part rest ih => exact ih

omit [Environment] in
theorem Retirement.congr {facts retired : List Memory} {after : Database} {changed : List Memory}
    (retirement : Retirement base facts retired p) (same : changed = p.changed)
    (memories : after.memories = p.db.memories)
    (origins : after.memoryFactOrigins = p.db.memoryFactOrigins) :
    Retirement base facts retired { db := after, changed } where
  listed := by
    rw [same]
    exact retirement.listed
  stored := by
    rw [memories]
    exact retirement.stored
  written := by
    rw [memories]
    exact retirement.written
  known := retirement.known
  legacy := retirement.legacy
  replaced := by
    rw [memories]
    exact retirement.replaced
  origins := by
    rw [origins]
    exact retirement.origins
  kept := by
    rw [origins]
    exact retirement.kept
  traced r gone m fact := by
    rw [Database.derived, origins]
    exact retirement.traced r gone m fact

theorem Reconciled.begin {seed : Memory} {parts : List FactPart}
    (reconciled : Reconciled base lease seed parts p) : Retirement base p.changed [] p where
  listed := by
    refine filter_eq_self.mpr fun m mem => ?_
    obtain ⟨part, here, outcome⟩ := reconciled.outcome m mem
    have present := reconciled.facts part here
    have key := outcome.key
    unfold MemoryInput.factKey at key
    cases fact : m.content.fact with
    | none =>
      rw [fact] at key
      rw [Option.isSome_iff_exists] at present
      obtain ⟨f, same⟩ := present
      rw [same] at key
      cases key
    | some f => rfl
  stored := reconciled.stored
  written m mem := (reconciled.written m mem).imp_right .inl
  known := by simp
  legacy := by simp
  replaced := by simp
  origins o mem := (reconciled.origins o mem).imp_right fun ⟨m, here, same⟩ =>
    ⟨m, here, by rw [same]⟩
  kept := reconciled.kept
  traced := by simp

section Retire

variable {facts retired : List Memory} {prior : Memory} {reason : String}

theorem Retirement.retire (retirement : Retirement base facts retired p) (stage : Consistent p.db)
    (here : prior ∈ p.db.memories) (before : prior ∈ base.memories)
    (fresh : ∀ r ∈ retired, r.id ≠ prior.id) (ok : retire now reason prior p = .ok p') :
    Retirement base facts (retired ++ [prior]) p' ∧ facts ≠ [] := by
  simp only [MemoryStore.retire, retirement.listed, bind_ok, ensure_ok] at ok
  obtain ⟨⟨⟩, ⟨-, legacy⟩, ⟨⟩, ⟨some, covered⟩, write⟩ := ok
  obtain ⟨saved, changed⟩ := saved_of_write write
  have rows := fun m => saved.mem_memories (m := m)
  simp only [insertOrigins_memories] at rows
  have origins : ∀ o, o ∈ p'.db.memoryFactOrigins ↔ o ∈ p.db.memoryFactOrigins ∨
      ∃ m ∈ facts, o = ⟨m.id, prior.id, prior.revision⟩ := by
    intro o
    rw [saved.origins, mem_insertOrigins]
  -- a fact is none of the legacy records
  have apart : ∀ m ∈ facts, m.id ≠ prior.id := by
    intro m mem same
    have fact := (mem_filter.mp (retirement.listed ▸ mem)).2
    rw [stage.memory_eq (retirement.stored m mem) here same, legacy] at fact
    cases fact
  refine ⟨⟨?_, fun m mem => ?_, fun m mem => ?_, ?_, ?_, fun r mem => ?_,
    fun o mem => ?_, fun o mem => ?_, fun r mem m fact => ?_⟩, some⟩
  · rw [changed, filter_append, retirement.listed]
    simp [legacy]
  · exact (rows m).mpr (.inr ⟨retirement.stored m mem, apart m mem⟩)
  · obtain rfl | ⟨old, -⟩ := (rows m).mp mem
    · exact .inr (.inr ⟨prior, by simp, rfl⟩)
    · exact (retirement.written m old).imp_right fun either => either.imp_right
        fun ⟨r, gone, same⟩ => ⟨r, mem_append_left _ gone, same⟩
  · intro r mem
    obtain old | rfl := mem_append.mp mem |>.imp id mem_singleton.mp
    · exact retirement.known r old
    · exact before
  · intro r mem
    obtain old | rfl := mem_append.mp mem |>.imp id mem_singleton.mp
    · exact retirement.legacy r old
    · exact covered
  · obtain old | rfl := mem_append.mp mem |>.imp id mem_singleton.mp
    · obtain ⟨row, there, same, rest⟩ := retirement.replaced r old
      have other : row.id ≠ prior.id := by
        rw [same]
        exact fresh r old
      exact ⟨row, (rows row).mpr (.inr ⟨there, other⟩), same, rest⟩
    · exact ⟨_, (rows _).mpr (.inl rfl), rfl, rfl, rfl, rfl⟩
  · obtain old | ⟨m, fact, rfl⟩ := (origins o).mp mem
    · exact retirement.origins o old
    · exact .inr ⟨m, fact, rfl⟩
  · exact (origins o).mpr (.inl (retirement.kept mem))
  · rw [Database.derived_iff]
    obtain old | rfl := mem_append.mp mem |>.imp id mem_singleton.mp
    · obtain ⟨o, there, named⟩ := Database.derived_iff.mp (retirement.traced r old m fact)
      exact ⟨o, (origins o).mpr (.inl there), named⟩
    · exact ⟨_, (origins _).mpr (.inr ⟨m, fact, rfl⟩), rfl, rfl⟩

theorem retire_legacy (ok : retire now reason prior p = .ok p') : prior.content.fact = none := by
  simp only [MemoryStore.retire, bind_ok, ensure_ok] at ok
  obtain ⟨⟨⟩, ⟨-, legacy⟩, -⟩ := ok
  exact legacy

theorem Retirement.retireRelated {assessment : RelatedDecision}
    (retirement : Retirement t.base facts retired p) (begun : Parted t { db := t.base } p)
    (assessed : validateSnapshot t.base lease.projectId assessment = .ok ())
    (fresh : ∀ r ∈ retired, r.id ≠ assessment.id) (superseded : assessment.action = .supersede)
    (ok : MemoryStore.retireRelated lease now p assessment = .ok p') :
    ∃ prior, prior.id = assessment.id ∧ Retirement t.base facts (retired ++ [prior]) p' := by
  rw [MemoryStore.retireRelated, if_pos superseded] at ok
  simp only [bind_ok] at ok
  obtain ⟨prior, loaded, ok⟩ := ok
  simp only [validateSnapshot, bind_ok, ensure_ok] at assessed
  obtain ⟨before, found, -, -⟩ := assessed
  obtain ⟨here, -, named⟩ := mem_of_load loaded
  obtain ⟨there, -, named'⟩ := mem_of_load found
  rw [← named] at fresh
  have kept : prior ∈ t.base.memories := by
    obtain old | fact | ⟨r, gone, same⟩ := retirement.written prior here
    · exact old
    · have present := (mem_filter.mp (retirement.listed ▸ fact)).2
      rw [retire_legacy ok] at present
      cases present
    · exact absurd same (fresh r gone)
  exact ⟨prior, named, (retirement.retire begun.applied.stage.consistent here kept fresh ok).1⟩

theorem retireAll_of_ok {related : List RelatedDecision} (consistent : Consistent t.base)
    (assessed : ∀ a ∈ related, validateSnapshot t.base lease.projectId a = .ok ())
    (distinct : (related.map RelatedDecision.id).Nodup)
    (apart : ∀ a ∈ related, ∀ r ∈ retired, r.id ≠ a.id) (begun : Parted t { db := t.base } p)
    (retirement : Retirement t.base facts retired p)
    (ok : related.foldlM (retireRelated lease now) p = .ok p') :
    ∃ more, more.map Memory.id =
        (related.filter fun r => r.action = .supersede).map RelatedDecision.id ∧
      Retirement t.base facts (retired ++ more) p' ∧ Parted t { db := t.base } p' := by
  induction related generalizing p retired with
  | nil =>
    simp only [foldlM_nil, pure_ok] at ok
    subst ok
    exact ⟨[], rfl, by rw [append_nil]; exact retirement, begun⟩
  | cons a rest ih =>
    simp only [foldlM_cons, bind_ok] at ok
    obtain ⟨middle, one, later⟩ := ok
    have snapshot := assessed a mem_cons_self
    have next := retireRelated_of_ok consistent begun snapshot one
    rw [map_cons, nodup_cons] at distinct
    have assessed : ∀ a ∈ rest, _ := fun b mem => assessed b (mem_cons_of_mem _ mem)
    by_cases superseded : a.action = .supersede
    · obtain ⟨prior, named, retirement⟩ := retirement.retireRelated begun snapshot
        (apart a mem_cons_self) superseded one
      have apart : ∀ b ∈ rest, ∀ r ∈ retired ++ [prior], r.id ≠ b.id := by
        intro b mem r gone same
        obtain old | rfl := mem_append.mp gone |>.imp id mem_singleton.mp
        · exact apart b (mem_cons_of_mem _ mem) r old same
        · exact distinct.1 (mem_map.mpr ⟨b, mem, by rw [← same, named]⟩)
      obtain ⟨more, ids, retirement, parted⟩ :=
        ih assessed distinct.2 apart next retirement later
      refine ⟨prior :: more, ?_, ?_, parted⟩
      · simp only [filter_cons, superseded, decide_true, if_true, map_cons, ids, named]
      · rw [append_cons]
        exact retirement
    · rw [retireRelated, if_neg superseded] at one
      cases one
      obtain ⟨more, ids, retirement, parted⟩ := ih assessed distinct.2
        (fun b mem => apart b (mem_cons_of_mem _ mem)) begun retirement later
      refine ⟨more, ?_, retirement, parted⟩
      simp only [filter_cons, superseded, decide_false, ids]
      rfl

end Retire

/-! ## Splits -/

/-- The records that a proposal replaces by its parts. -/
def retiredIds (lease : WorkLease) (proposal : FactCompaction) : List String :=
  (lease.payload.seed.map Memory.id).toList ++
    (proposal.related.filter fun r => r.action = .supersede).map RelatedDecision.id

omit [Environment] in
theorem observed_origins (rows : List Memory) (db : Database) :
    (rows.foldl (Database.observed now) db).memoryFactOrigins = db.memoryFactOrigins := by
  induction rows generalizing db with
  | nil => rfl
  | cons m rest ih => exact ih (db.observed now m)

/-- What an accepted split has written and retired. -/
structure Split (base after : Database) (lease : WorkLease) (proposal : FactCompaction)
    (changed facts retired : List Memory) : Prop where
  reconciled : ∃ seed parts, Reconciled base lease seed proposal.parts parts ∧ parts.changed = facts
  retirement : Retirement base facts retired { db := after, changed }
  written : facts ≠ []
  seeded : retired ≠ []
  few : proposal.parts.length ≤ 16
  ids : retired.map Memory.id = retiredIds lease proposal
  distinct : Distinct Memory.id after.memories

theorem completeFactCompaction_retires {proposal : FactCompaction} {changed : List Memory}
    {after : Database} (consistent : Consistent t.base) (settled : Settled t.base)
    (split : proposal.parts ≠ [])
    (ok : t.base.completeFactCompaction lease proposal now ids = .ok (changed, after)) :
    ∃ facts retired, Split t.base after lease proposal changed facts retired := by
  simp only [Database.completeFactCompaction, bind_ok, ensure_ok, orElseError_eq_ok,
    pure_ok, Prod.mk.injEq] at ok
  obtain ⟨⟨⟩, -, seed, present, ⟨⟩, -, ⟨⟩, ⟨few, -⟩, ⟨⟩, -, current, valid, parts, applied, retired,
    retire, progress, related, ⟨⟩, checked, seedNow, loaded, rfl, rfl⟩ := ok
  simp only [validateSplit, bind_ok, ensure_ok, pure_ok] at valid
  obtain ⟨seedThen, found, ⟨⟩, fresh, ⟨⟩, distinct, ⟨⟩, assessed, rfl⟩ := valid
  obtain ⟨here, -, named⟩ := mem_of_load found
  have searchable : seedThen.status.searchable := by
    simp only [seedIsCurrent, Memory.compactable, Bool.and_eq_true] at fresh
    exact fresh.2.1.2
  have begun := stage_of_base (t := t) consistent settled
  have parted := applyParts_of_ok begun applied
  have reconciled := applyParts_reconciled consistent (.refl _) begun (by simp)
    (.none t.base lease seed) applied
  rw [nil_append] at reconciled
  rw [retireSeed, if_neg split] at retire
  -- no part has written the seed, since it is no fact
  have legacy := retire_legacy retire
  have kept := reconciled.untouched seedThen here fun part mem same => by
    have fact := reconciled.facts part mem
    rw [MemoryInput.factKey, legacy] at same
    rw [Option.isSome_iff_exists] at fact
    obtain ⟨f, known⟩ := fact
    rw [MemoryInput.factKey, known] at same
    cases same
  have known := parted.applied.stage.known kept
  have retiredSeed := parted.trans
    (retire_of_ok parted.applied.stage known (searchable_alive searchable) retire)
  obtain ⟨retirement, some⟩ := reconciled.begin.retire parted.applied.stage.consistent kept here
    (by simp) retire
  have snapshots : ∀ a ∈ proposal.related, a.id ≠ seed.id ∧
      validateSnapshot t.base lease.projectId a = .ok () := by
    intro a mem
    have checked := forM_eq_ok assessed mem
    simp only [validateAssessment, bind_ok, ensure_ok] at checked
    obtain ⟨⟨⟩, other, ⟨⟩, snapshot, -⟩ := checked
    exact ⟨other, snapshot⟩
  obtain ⟨more, ids, retirement, all⟩ := retireAll_of_ok consistent
    (fun a mem => (snapshots a mem).2) distinct
    (fun a mem r gone same => by
      rw [nil_append, mem_singleton] at gone
      rw [gone, named] at same
      exact (snapshots a mem).1 same.symm) retiredSeed retirement related
  have memories := (observeAll_tables now progress.changed progress.db).1
  have origins := @observed_origins now progress.changed progress.db
  refine ⟨parts.changed, [] ++ [seedThen] ++ more, ⟨seed, parts, reconciled, rfl⟩,
    retirement.congr rfl memories origins, some, by simp, few, ?_, ?_⟩
  · rw [nil_append, map_append, ids, retiredIds, present, map_singleton, named]
    rfl
  · show Distinct Memory.id (Database.memories (progress.changed.foldl _ progress.db))
    rw [memories]
    exact all.applied.stage.consistent.memories

end

end Agentix.MemoryStore
