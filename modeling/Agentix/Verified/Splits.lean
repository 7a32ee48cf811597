import Agentix.MemoryStore.Lineage
import Agentix.MemoryStore.Performing
import Agentix.MemoryStore.Run

/-! # Splits

What is left of a legacy record that was split: a successor, its quotations and its lineage.
-/

namespace Agentix.MemoryStore

open Lib List
open Lib.System (always)

section

variable [Environment]

/-- Nothing of a retired record is lost. -/
structure Preserved (before after : Database) (lease : WorkLease) (proposal : FactCompaction)
    (changed : List Memory) (record : Memory) : Prop where
  succeeded : ∃ row ∈ after.memories, row.id = record.id ∧ row.status = .superseded ∧
    ∃ next ∈ after.memories, row.supersededBy = some next.id ∧
      (next.status = .active ∨ next.status = .conflicted)
  covered : ∀ e ∈ record.content.evidence, ∃ m ∈ after.memories, m ∈ changed ∧
    (m.status = .active ∨ m.status = .conflicted) ∧ m.content.fact.isSome ∧ m.content.covers e
  derived : ∀ m ∈ after.memories, m.projectId = lease.projectId →
    (m ∈ after.derivatives lease.projectId record.id ↔
      before.derived record.id m.id ∨ Made before proposal.parts m)
  current : ∀ m ∈ after.derivatives lease.projectId record.id, ∀ part ∈ proposal.parts,
    part.action = .supersede → part.target ≠ some m.id
  page : (∀ id, before.derived record.id id = false) →
    after.factDerivatives lease.projectId record.id = after.derivatives lease.projectId record.id

/-- No part supersedes a fact, and a fact that a part conflicts with was split off from every
retired record before. -/
def Gentle (before : Database) (lease : WorkLease) (proposal : FactCompaction) : Prop :=
  ∀ part ∈ proposal.parts, part.action ≠ .supersede ∧
    (part.action = .conflict → ∀ sourceId ∈ retiredIds lease proposal, ∀ id,
      part.target = some id → before.derived sourceId id)

variable {base after : Database} {lease : WorkLease} {proposal : FactCompaction}
  {changed facts retired : List Memory}

namespace Split

variable (split : Split base after lease proposal changed facts retired)
variable {m r : Memory}

include split

theorem fact_of_mem (fact : m ∈ facts) :
    m ∈ changed ∧ m ∈ after.memories ∧ m.content.fact.isSome := by
  have listed := mem_filter.mp (split.retirement.listed ▸ fact)
  exact ⟨listed.1, split.retirement.stored m fact, listed.2⟩

theorem outcome_of_mem (fact : m ∈ facts) :
    ∃ part ∈ proposal.parts, PartOutcome base lease part m := by
  obtain ⟨seed, parts, reconciled, rfl⟩ := split.reconciled
  exact reconciled.outcome m fact

theorem mem_derivatives (fact : m ∈ facts) (gone : r ∈ retired) :
    m ∈ after.derivatives lease.projectId r.id := by
  obtain ⟨part, -, outcome⟩ := split.outcome_of_mem fact
  exact Database.mem_derivatives.mpr ⟨(split.fact_of_mem fact).2.1, outcome.project,
    split.retirement.traced r gone m fact⟩

/-- What is listed for a record was listed before, or is a fact of the split. -/
theorem derived_cases {sourceId : String} (here : m ∈ after.memories)
    (derived : after.derived sourceId m.id = true) :
    base.derived sourceId m.id = true ∨ m ∈ facts := by
  obtain ⟨o, mem, named, source⟩ := Database.derived_iff.mp derived
  obtain old | ⟨fact, written, same⟩ := split.retirement.origins o mem
  · exact .inl (Database.derived_iff.mpr ⟨o, old, named, source⟩)
  · have stored := (split.fact_of_mem written).2.1
    rw [split.distinct.eq_of_key here stored (named.symm.trans same.symm)]
    exact .inr written

theorem mem_of_made (here : m ∈ after.memories) (made : Made base proposal.parts m) :
    m ∈ facts := by
  obtain new | ⟨part, mem, -, targeted⟩ := made
  · obtain old | fact | ⟨r, gone, same⟩ := split.retirement.written m here
    · exact absurd rfl (new m old)
    · exact fact
    · exact absurd same (new r (split.retirement.known r gone))
  · obtain ⟨seed, parts, reconciled, rfl⟩ := split.reconciled
    obtain ⟨-, -, -, -, fact, written, same⟩ := reconciled.target part mem m.id targeted
    have stored := (split.fact_of_mem written).2.1
    rw [split.distinct.eq_of_key here stored same.symm]
    exact written

theorem current_of_gentle (gentle : Gentle base lease proposal) (fact : m ∈ facts) :
    m.status = .active ∨ m.status = .conflicted := by
  obtain ⟨part, mem, outcome⟩ := split.outcome_of_mem fact
  obtain ⟨-, searchable⟩ | ⟨-, ⟨supersede, -⟩ | ⟨-, conflicted⟩⟩ := outcome.fate
  · cases status : m.status <;> simp_all [Status.searchable]
  · exact absurd supersede (gentle part mem).1
  · exact .inr conflicted

theorem length_le : facts.length ≤ 32 := by
  obtain ⟨seed, parts, reconciled, rfl⟩ := split.reconciled
  have few := reconciled.few
  have parts := split.few
  omega

/-- The listing of a record that was not split before has the facts of the split only. -/
theorem derivatives_length (fresh : ∀ id, base.derived r.id id = false) :
    (after.derivatives lease.projectId r.id).length ≤ 32 := by
  have inside : after.derivatives lease.projectId r.id ⊆ facts := by
    intro m listed
    obtain ⟨here, -, derived⟩ := Database.mem_derivatives.mp listed
    obtain before | fact := split.derived_cases here derived
    · rw [fresh] at before
      cases before
    · exact fact
  have nodup : (after.derivatives lease.projectId r.id).Nodup :=
    (perm_insertionSort _ _).nodup_iff.mpr ((List.Nodup.of_map _ split.distinct).filter _)
  calc (after.derivatives lease.projectId r.id).length
      ≤ facts.length := (subperm_of_subset nodup inside).length_le
    _ ≤ 32 := split.length_le

theorem preserved (gentle : Gentle base lease proposal) (gone : r ∈ retired) :
    Preserved base after lease proposal changed r where
  succeeded := by
    obtain ⟨row, here, same, superseded, -, successor⟩ := split.retirement.replaced r gone
    obtain ⟨first, rest, shape⟩ := exists_cons_of_ne_nil split.written
    have fact : first ∈ facts := shape ▸ mem_cons_self
    refine ⟨row, here, same, superseded, first, (split.fact_of_mem fact).2.1, ?_,
      split.current_of_gentle gentle fact⟩
    rw [successor, shape]
    rfl
  covered e quoted := by
    have covers := all_eq_true.mp (split.retirement.legacy r gone) e quoted
    obtain ⟨m, fact, covered⟩ := any_eq_true.mp covers
    obtain ⟨listed, stored, present⟩ := split.fact_of_mem fact
    exact ⟨m, stored, listed, split.current_of_gentle gentle fact, present, covered⟩
  derived m here project := by
    constructor
    · intro listed
      obtain ⟨-, -, derived⟩ := Database.mem_derivatives.mp listed
      obtain before | fact := split.derived_cases here derived
      · exact .inl before
      · obtain ⟨part, mem, outcome⟩ := split.outcome_of_mem fact
        obtain ⟨made, -⟩ | ⟨targeted, ⟨supersede, -⟩ | ⟨conflict, -⟩⟩ := outcome.fate
        · refine .inr (made.imp_right fun ⟨other, one, merge⟩ => ?_)
          exact ⟨part, mem, mem_singleton.mp one ▸ merge⟩
        · exact absurd supersede (gentle part mem).1
        · refine .inl ((gentle part mem).2 conflict r.id ?_ m.id targeted)
          rw [← split.ids]
          exact mem_map_of_mem gone
    · rintro (before | made)
      · obtain ⟨o, mem, named⟩ := Database.derived_iff.mp before
        exact Database.mem_derivatives.mpr ⟨here, project,
          Database.derived_iff.mpr ⟨o, split.retirement.kept mem, named⟩⟩
      · exact split.mem_derivatives (split.mem_of_made here made) gone
  current m _ part mem supersede := absurd supersede (gentle part mem).1
  page fresh := by
    refine take_of_length_le ?_
    have short := split.derivatives_length fresh
    omega

/-- A part that conflicts with a fact lists it for the record, though it has not made it. -/
theorem gentle (distinct : Distinct Memory.id base.memories)
    (preserved : ∀ r ∈ retired, Preserved base after lease proposal changed r) :
    Gentle base lease proposal := by
  obtain ⟨seed, parts, reconciled, written⟩ := split.reconciled
  have source : ∀ sourceId ∈ retiredIds lease proposal, ∃ r ∈ retired, r.id = sourceId := by
    intro sourceId mem
    rw [← split.ids] at mem
    exact mem_map.mp mem
  have target : ∀ part ∈ proposal.parts, ∀ id, part.target = some id →
      ∃ m ∈ facts, m.id = id := by
    intro part mem id targeted
    obtain ⟨-, -, -, -, m, fact, same⟩ := reconciled.target part mem id targeted
    exact ⟨m, written ▸ fact, same⟩
  intro part mem
  constructor
  · intro supersede
    obtain ⟨id, targeted⟩ := reconciled.targeted part mem (by simp [supersede])
    obtain ⟨m, fact, rfl⟩ := target part mem id targeted
    obtain ⟨r, rest, shape⟩ := exists_cons_of_ne_nil split.seeded
    have gone : r ∈ retired := shape ▸ mem_cons_self
    exact (preserved r gone).current m (split.mem_derivatives fact gone) part mem supersede
      targeted
  · intro conflict sourceId retires id targeted
    obtain ⟨r, gone, rfl⟩ := source sourceId retires
    obtain ⟨m, fact, rfl⟩ := target part mem id targeted
    have stored := (split.fact_of_mem fact).2.1
    obtain ⟨-, project, -⟩ := Database.mem_derivatives.mp (split.mem_derivatives fact gone)
    obtain before | new | ⟨other, merges, merge, same⟩ :=
      ((preserved r gone).derived m stored project).mp (split.mem_derivatives fact gone)
    · exact before
    · obtain ⟨prior, here, named, -⟩ := reconciled.target part mem m.id targeted
      exact absurd named (new prior here)
    · -- two parts of one fact are one part
      obtain ⟨prior, here, named, key, -⟩ := reconciled.target part mem m.id targeted
      obtain ⟨prior', here', named', key', -⟩ := reconciled.target other merges m.id same
      have one := distinct.eq_of_key here here' (named.trans named'.symm)
      rw [one, key'] at key
      have equal := inj_on_of_nodup_map reconciled.separate merges mem key
      rw [equal, conflict] at merge
      cases merge

end Split

/-! ## Runs -/

variable {config : AgentConfig} {opened now : Int} {s : State} {ids : Nat → String}

theorem split_loses_nothing_iff (run : (store config opened).Reachable always s)
    (split : proposal.parts ≠ [])
    (ok : s.db.completeFactCompaction lease proposal now ids = .ok (changed, after)) :
    (∀ record ∈ s.db.memories, record.id ∈ retiredIds lease proposal →
      Preserved s.db after lease proposal changed record) ↔ Gentle s.db lease proposal := by
  have sound := sound_of_reachable run
  obtain ⟨facts, retired, done⟩ := completeFactCompaction_retires (t := { config, now, base := s.db })
    sound.consistent sound.settled split ok
  constructor
  · intro preserved
    refine done.gentle sound.consistent.memories fun r gone => preserved r ?_ ?_
    · exact done.retirement.known r gone
    · rw [← done.ids]
      exact List.mem_map_of_mem gone
  · intro gentle record here retires
    rw [← done.ids] at retires
    obtain ⟨r, gone, same⟩ := List.mem_map.mp retires
    rw [sound.consistent.memory_eq here (done.retirement.known r gone) same.symm]
    exact done.preserved gentle gone

end

/-- The port of the server as a fact. -/
def serverPort (value : String) : MemoryInput :=
  { Plain.note "receipt" with
    fact := some { entity := "server", factAttribute := "port", qualifiers := [], value } }

def legacyNote : Memory := Database.newMemory "note" "p" (Plain.note "receipt") "" .agent 3

def splitLease : WorkLease where
  id := 3
  projectId := "p"
  receiptId := "receipt"
  kind := .consolidate
  payload := .compact legacyNote
  generation := 1
  owner := "worker"
  leaseUntil := 305

def splitBegun : State :=
  Plain.run [
    (1, .ingest (Plain.turn "receipt" "p" "turn" none)),
    (2, .create "p" (serverPort "80") .agent "fact"),
    (3, .create "p" (Plain.note "receipt") .agent "note"),
    (4, .scheduleCompaction "p" "" 10 true 30),
    (5, .claim "worker" (some 3))]

/-- The note gives the fact a new value. -/
def supersedingSplit : FactCompaction where
  parts := [⟨serverPort "8080", .supersede, some "fact", some 1, "moved"⟩]
  related := []
  reason := "split"

def splitSuperseded : Database :=
  match @Database.completeFactCompaction Plain.environment splitBegun.db splitLease
    supersedingSplit 6 fun _ => "new" with
  | .ok (_, db) => db
  | .error _ => {}

def splitChanged : List Memory :=
  match @Database.completeFactCompaction Plain.environment splitBegun.db splitLease
    supersedingSplit 6 fun _ => "new" with
  | .ok (changed, _) => changed
  | .error _ => []

example : splitChanged.length = 3 := by decide +kernel

theorem superseded_fact_becomes_the_successor :
    (@store Plain.environment Plain.config 0).Reachable always splitBegun ∧
    splitBegun.leases = [splitLease] ∧
    @Database.completeFactCompaction Plain.environment splitBegun.db splitLease supersedingSplit 6
      (fun _ => "new") = .ok (splitChanged, splitSuperseded) ∧
    splitSuperseded.memories.map (fun m => (m.id, m.status, m.supersededBy)) =
      [("fact", .superseded, some "new"), ("note", .superseded, some "fact"),
        ("new", .active, none)] ∧
    (splitSuperseded.factDerivatives "p" "note").map Memory.id = ["fact", "new"] ∧
    legacyNote ∈ splitBegun.db.memories ∧
    "note" ∈ retiredIds splitLease supersedingSplit ∧
    ¬ Preserved splitBegun.db splitSuperseded splitLease supersedingSplit splitChanged legacyNote := by
  have successor : ∀ m ∈ splitSuperseded.memories, m.id = "note" → m.supersededBy = some "fact" := by
    decide +kernel
  have dead : ∀ m ∈ splitSuperseded.memories, m.id = "fact" → m.status = .superseded := by
    decide +kernel
  refine ⟨Plain.reachable_run _, by decide +kernel, by decide +kernel, by decide +kernel,
    by decide +kernel, by decide +kernel, by decide +kernel, fun preserved => ?_⟩
  obtain ⟨row, here, named, -, next, there, succeeded, alive⟩ := preserved.succeeded
  rw [successor row here named, Option.some.injEq] at succeeded
  rw [dead next there succeeded.symm] at alive
  simp at alive

def proxyPort : MemoryInput :=
  { serverPort "8080" with
    fact := some { entity := "proxy", factAttribute := "port", qualifiers := [], value := "8080" } }

def creatingSplit : FactCompaction where
  parts := [⟨proxyPort, .create, none, none, "own fact"⟩]
  related := []
  reason := "split"

def splitCreated : List Memory × Database :=
  match @Database.completeFactCompaction Plain.environment splitBegun.db splitLease creatingSplit 6
    fun _ => "new" with
  | .ok result => result
  | .error _ => ([], {})

theorem created_fact_succeeds_its_note :
    splitCreated.2.memories.map (fun m => (m.id, m.status, m.supersededBy)) =
      [("fact", .active, none), ("note", .superseded, some "new"), ("new", .active, none)] ∧
    ∀ record ∈ splitBegun.db.memories, record.id ∈ retiredIds splitLease creatingSplit →
      Preserved splitBegun.db splitCreated.2 splitLease creatingSplit
        splitCreated.1 record := by
  have ok : @Database.completeFactCompaction Plain.environment splitBegun.db splitLease
      creatingSplit 6 (fun _ => "new") = .ok (splitCreated.1, splitCreated.2) := by decide +kernel
  have run : (@store Plain.environment Plain.config 0).Reachable always splitBegun :=
    Plain.reachable_run _
  refine ⟨by decide +kernel, ?_⟩
  refine (@split_loses_nothing_iff Plain.environment _ _ _ _ _ _ _ _ _ run (by decide) ok).mpr ?_
  intro part member
  rw [mem_singleton.mp member]
  simp

end Agentix.MemoryStore
