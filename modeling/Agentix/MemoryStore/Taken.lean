import Agentix.MemoryStore.Taking

/-! # The tables that intakes leave

The tables of an empty store after any intakes are those of the latest revisions, whatever the order
of the intakes was.
-/

namespace Agentix.MemoryStore

open Lib List

variable {sources receipts : List Source} {s x y q : Source} {db db' : Database}
  {store store' : SourceStore} {bound : Option String}

/-! ## The latest revision of the turn of a further source -/

variable {before : Database}

/-- A further source leaves `q` as the latest revision of its turn. -/
structure Leads (sources : List Source) (s q : Source) : Prop where
  member : q ∈ sources ++ [s]
  turn : q.turn = s.turn
  latest : ∀ x, x ∈ latestSources (sources ++ [s]) ↔
    (x ∈ latestSources sources ∧ x.turn ≠ s.turn) ∨ x = q

theorem Leads.of_newer (newer : ∀ y ∈ sources, y.turn = s.turn → y.revision < s.revision) :
    Leads sources s s where
  member := mem_append_right _ (mem_singleton.mpr rfl)
  turn := rfl
  latest x := by
    rw [latestSources_newer newer, mem_append, mem_filter, mem_singleton,
      decide_eq_true_eq]

theorem Leads.of_older (coherent : Coherent sources) (known : q ∈ latestSources sources)
    (same : q.turn = s.turn) (older : s.revision < q.revision) : Leads sources s q where
  member := mem_append_left _ (mem_latestSources.mp known).1
  turn := same
  latest x := by
    rw [latestSources_older (mem_latestSources.mp known).1 same older]
    constructor
    · intro here
      by_cases turn : x.turn = s.turn
      · exact .inr (coherent.latest_eq here known (turn.trans same.symm))
      · exact .inl ⟨here, turn⟩
    · rintro (⟨here, -⟩ | rfl)
      · exact here
      · exact known

/-- The rows of a table that has one for each latest revision. -/
def Rows {ρ : Type} (sources : List Source) (row : Source → ρ) (rows : List ρ) : Prop :=
  ∀ r, r ∈ rows ↔ ∃ x ∈ latestSources sources, r = row x

/-- The row of the further source goes in, or the row of its turn is updated. -/
theorem Leads.rows {ρ : Type} {key : ρ → TurnKey} {row row' : Source → ρ} {new : ρ}
    {update : ρ → ρ} {rows : List ρ} (leads : Leads sources s q)
    (keys : ∀ x, key (row x) = x.turn) (here : key new = s.turn) (known : Rows sources row rows)
    (others : ∀ x ∈ latestSources sources, x.turn ≠ s.turn → row' x = row x)
    (updated : ∀ x ∈ latestSources sources, x.turn = s.turn → update (row x) = row' q)
    (inserted : (∀ y ∈ sources, y.turn ≠ s.turn) → new = row' q) :
    Rows (sources ++ [s]) row' (upsert key new update rows) := by
  intro r
  have unused : (∀ old ∈ rows, key old ≠ key new) → ∀ y ∈ sources, y.turn ≠ s.turn := by
    intro unused y member same
    obtain ⟨x, latest, turn⟩ := exists_latest member
    exact unused (row x) ((known _).mpr ⟨x, latest, rfl⟩)
      (by rw [keys, here, turn, same])
  rw [mem_upsert_iff]
  constructor
  · rintro (⟨old, other⟩ | ⟨old, member, same, rfl⟩ | ⟨free, rfl⟩)
    · obtain ⟨x, latest, rfl⟩ := (known r).mp old
      have turn : x.turn ≠ s.turn := by rwa [keys, here] at other
      exact ⟨x, (leads.latest x).mpr (.inl ⟨latest, turn⟩), (others x latest turn).symm⟩
    · obtain ⟨x, latest, rfl⟩ := (known old).mp member
      exact ⟨q, (leads.latest q).mpr (.inr rfl), updated x latest (by rwa [keys, here] at same)⟩
    · exact ⟨q, (leads.latest q).mpr (.inr rfl), inserted (unused free)⟩
  · rintro ⟨x, latest, rfl⟩
    obtain ⟨old, other⟩ | rfl := (leads.latest x).mp latest
    · rw [others x old other]
      exact .inl ⟨(known _).mpr ⟨x, old, rfl⟩, by rwa [keys, here]⟩
    · by_cases free : ∀ old ∈ rows, key old ≠ key new
      · exact .inr (.inr ⟨free, (inserted (unused free)).symm⟩)
      · simp only [not_forall, not_not] at free
        obtain ⟨old, member, same⟩ := free
        obtain ⟨x', latest', rfl⟩ := (known old).mp member
        exact .inr (.inl ⟨_, member, same, (updated x' latest' (by rwa [keys, here] at same)).symm⟩)

theorem Leads.turns {rows : List SourceTurn} (leads : Leads sources s q)
    (coherent : Coherent (sources ++ [s]))
    (newest : (q = s ∧ ∀ y ∈ sources, y.turn = s.turn → y.revision < s.revision) ∨
      q ∈ latestSources sources ∧ s.revision < q.revision)
    (known : Rows sources (Source.turnRow sources) rows) :
    Rows (sources ++ [s]) (Source.turnRow (sources ++ [s]))
      (upsert SourceTurn.turn s.row (SourceTurn.update s) rows) := by
  refine leads.rows (fun _ => rfl) rfl known ?_ ?_ ?_
  · intro x latest other
    simp only [Source.turnRow, firstSequence_other (mem_latestSources.mp latest).1 (Ne.symm other)]
  · intro x latest same
    have member := (mem_latestSources.mp latest).1
    have least := firstSequence_append member leads.member same leads.turn
    have project : x.projectId = q.projectId := coherent.projects x
      (mem_append_left _ member) q leads.member (same.trans leads.turn.symm)
    have turn : x.turn = q.turn := same.trans leads.turn.symm
    obtain ⟨rfl, newer⟩ | ⟨here, older⟩ := newest
    · have later := newer x member same
      simp [SourceTurn.update, Source.turnRow, Source.row, later, least, project, turn]
      omega
    · have only : x = q :=
        (coherent.subset fun _ => mem_append_left _).latest_eq latest here turn
      subst only
      simp [SourceTurn.update, Source.turnRow, Source.row, Int.not_lt.mpr (Int.le_of_lt older), least]
      omega
  · intro none_before
    obtain ⟨rfl, -⟩ | ⟨here, -⟩ := newest
    · rw [Source.turnRow, firstSequence_first none_before]
      rfl
    · exact absurd leads.turn (none_before q (mem_latestSources.mp here).1)

theorem Leads.heads {rows : List SourceHead} (leads : Leads sources s s)
    (coherent : Coherent (sources ++ [s])) (known : Rows sources Source.head rows) :
    Rows (sources ++ [s]) Source.head (upsert SourceHead.turn s.head
      (fun old => { old with revision := s.revision, receiptId := s.receiptId }) rows) := by
  refine leads.rows (fun _ => rfl) rfl known (fun _ _ _ => rfl) ?_ (fun _ => rfl)
  intro x latest same
  have project := coherent.projects x (mem_append_left _ (mem_latestSources.mp latest).1) s
    leads.member same
  simp [Source.head, same, project]

/-! ## The pending work -/

theorem receiptId_of_mem_work {item : WorkItem} (member : item ∈ x.work) :
    item.receiptId = x.receiptId := by
  obtain ⟨payload, -, rfl⟩ := mem_map.mp member
  rfl

theorem filter_work (rows : List Source) (receiptId : String) :
    (rows.flatMap Source.work).filter (fun item => item.receiptId ≠ receiptId) =
      (rows.filter fun x => x.receiptId ≠ receiptId).flatMap Source.work := by
  induction rows with
  | nil => rfl
  | cons x rest ih =>
    rw [flatMap_cons, filter_append, ih, filter_cons]
    by_cases same : x.receiptId = receiptId
    · have none_left : x.work.filter (fun item => item.receiptId ≠ receiptId) = [] := by
        rw [filter_eq_nil_iff]
        intro item member
        simp [receiptId_of_mem_work member, same]
      rw [none_left, nil_append]
      simp [same]
    · have all_left : x.work.filter (fun item => item.receiptId ≠ receiptId) = x.work := by
        rw [filter_eq_self]
        intro item member
        simp [receiptId_of_mem_work member, same]
      rw [all_left]
      simp [same]

theorem filter_latest (coherent : Coherent sources) (known : x ∈ latestSources sources)
    (same : x.turn = s.turn) :
    (latestSources sources).filter (fun y => y.receiptId ≠ x.receiptId) =
      (latestSources sources).filter fun y => y.turn ≠ s.turn := by
  refine filter_congr fun y here => ?_
  rw [Bool.eq_iff_iff]
  simp only [decide_eq_true_eq, ← same]
  refine not_congr ⟨fun receipt => ?_, fun turn => ?_⟩
  · rw [coherent.ids y (mem_latestSources.mp here).1 x (mem_latestSources.mp known).1 receipt]
  · rw [coherent.latest_eq here known turn]

/-! ## What intakes keep -/

/-- The tables are those of the sources that were taken in, and nothing was claimed. -/
structure Taken (bound : Option String) (store : SourceStore) : Prop where
  instance_ : store.db.sourceInstance = bound
  calm : store.db.cancelledJobs = []
  heads : Distinct SourceHead.turn store.db.sourceHeads
  mem_heads : Rows store.db.sources Source.head store.db.sourceHeads
  turns : Distinct SourceTurn.turn store.sourceTurns
  mem_turns : Rows store.db.sources (Source.turnRow store.db.sources) store.sourceTurns
  unclaimed : Waiting store.db
  work : store.db.pendingWork.Perm ((latestSources store.db.sources).flatMap Source.work)

theorem Taken.empty (bound : Option String) : Taken bound { db := { sourceInstance := bound } } where
  instance_ := rfl
  calm := rfl
  heads := nodup_nil
  mem_heads := by simp [Rows, latestSources]
  turns := nodup_nil
  mem_turns := by simp [Rows, latestSources]
  unclaimed := by simp [Waiting]
  work := .nil

/-- What the intake of a source makes of the heads and the work. -/
structure Enqueued (db : Database) (s q : Source) (db' : Database) : Prop where
  leads : Leads db.sources s q
  newest : (q = s ∧ ∀ y ∈ db.sources, y.turn = s.turn → y.revision < s.revision) ∨
    q ∈ latestSources db.sources ∧ s.revision < q.revision
  sources : db'.sources = db.sources ++ [s]
  instance_ : db'.sourceInstance = db.sourceInstance
  calm : db'.cancelledJobs = db.cancelledJobs
  heads : Distinct SourceHead.turn db'.sourceHeads
  mem_heads : Rows (db.sources ++ [s]) Source.head db'.sourceHeads
  unclaimed : Waiting db'
  work : db'.pendingWork.Perm ((latestSources (db.sources ++ [s])).flatMap Source.work)

/-- The source is in its table, with the heads and the work as they were. -/
structure Indexed (db : Database) (s : Source) (before : Database) : Prop where
  sources : before.sources = db.sources ++ [s]
  instance_ : before.sourceInstance = db.sourceInstance
  calm : before.cancelledJobs = db.cancelledJobs
  heads : before.sourceHeads = db.sourceHeads
  work : before.workItems = db.workItems

/-- A head for the further source, whose work follows the work on the other turns. -/
theorem Enqueued.of_head (leads : Leads db.sources s s)
    (newer : ∀ y ∈ db.sources, y.turn = s.turn → y.revision < s.revision)
    (coherent : Coherent (db.sources ++ [s])) (heads : Distinct SourceHead.turn db.sourceHeads)
    (mem_heads : Rows db.sources Source.head db.sourceHeads)
    (sources : before.sources = db.sources ++ [s])
    (instance_ : before.sourceInstance = db.sourceInstance)
    (calm : before.cancelledJobs = db.cancelledJobs) (same : before.sourceHeads = db.sourceHeads)
    (unclaimed : Waiting before)
    (work : before.pendingWork.Perm (((latestSources db.sources).filter fun x => x.turn ≠ s.turn).flatMap Source.work)) :
    Enqueued db s s (before.enqueueHead s) := by
  obtain ⟨items, workSequence, schedulerProjects, written, pending, payloads⟩ :=
    enqueueHead_spec before s
  have queued : (before.enqueueHead s).pendingWork = before.pendingWork ++ s.work := by
    rw [← payloads]
    exact pendingWork_append pending (by rw [written])
  exact {
    leads
    newest := .inl ⟨rfl, newer⟩
    sources := by rw [written]; exact sources
    instance_ := by rw [written]; exact instance_
    calm := by rw [written]; exact calm
    heads := by
      rw [written, same]
      exact heads.upsert fun _ _ => rfl
    mem_heads := by
      rw [written, same]
      exact leads.heads coherent mem_heads
    unclaimed := by
      rw [written]
      intro item member
      obtain old | new := mem_append.mp member
      · exact unclaimed item old
      · exact .inl (pending item new)
    work := by
      rw [queued, latestSources_newer newer, flatMap_append, flatMap_singleton]
      exact work.append_right _ }

theorem Indexed.pendingWork (indexed : Indexed db s before) :
    before.pendingWork = db.pendingWork := by
  rw [Database.pendingWork, indexed.work]
  rfl

theorem Indexed.unclaimed (indexed : Indexed db s before) (unclaimed : Waiting db) :
    Waiting before := by
  rw [Waiting, indexed.work]
  exact unclaimed

/-- Late and older revisions change no head and no work; newer ones take the place of the head's
revision. -/
theorem Taken.enqueueSource (taken : Taken bound store) (indexed : Indexed store.db s before)
    (coherent : Coherent (store.db.sources ++ [s])) (fresh : s ∉ store.db.sources) :
    ∃ db' q, before.enqueueSource s = .ok db' ∧ Enqueued store.db s q db' := by
  have known := coherent.subset fun _ => mem_append_left [s]
  have here : s ∈ store.db.sources ++ [s] := mem_append_right _ (mem_singleton.mpr rfl)
  unfold Database.enqueueSource
  rw [indexed.heads]
  split
  · rename_i absent
    -- The first source of its turn becomes the head.
    have none_before : ∀ y ∈ store.db.sources, y.turn ≠ s.turn := by
      intro y member same
      obtain ⟨x, latest, turn⟩ := exists_latest member
      have head := find?_eq_none.mp absent x.head ((taken.mem_heads _).mpr ⟨x, latest, rfl⟩)
      rw [decide_eq_true_eq] at head
      exact head (turn.trans same)
    have newer : ∀ y ∈ store.db.sources, y.turn = s.turn → y.revision < s.revision :=
      fun y member same => absurd same (none_before y member)
    have all_left : (latestSources store.db.sources).filter (fun x => x.turn ≠ s.turn) =
        latestSources store.db.sources := by
      rw [filter_eq_self]
      exact fun x latest => decide_eq_true (none_before x (mem_latestSources.mp latest).1)
    refine ⟨_, s, rfl, .of_head (.of_newer newer) newer coherent taken.heads taken.mem_heads
      indexed.sources indexed.instance_ indexed.calm indexed.heads
      (indexed.unclaimed taken.unclaimed) ?_⟩
    rw [all_left, indexed.pendingWork]
    exact taken.work
  · rename_i prior found
    obtain ⟨x, latest, rfl⟩ := (taken.mem_heads prior).mp (mem_of_find?_eq_some found)
    have turn := find?_some found
    rw [decide_eq_true_eq] at turn
    change x.turn = s.turn at turn
    obtain ⟨member, most⟩ := mem_latestSources.mp latest
    have project : x.projectId = s.projectId :=
      coherent.projects x (mem_append_left _ member) s here turn
    have distinct : s.revision ≠ x.revision := by
      intro same
      have equal := coherent.revisions x (mem_append_left _ member) s here turn same.symm
      exact fresh (equal ▸ member)
    by_cases older : s.revision ≤ x.revision
    · -- the head stays, and so does the work on it
      have less : s.revision < x.revision := by omega
      refine ⟨before, x, ?_, {
        leads := .of_older known latest turn less
        newest := .inr ⟨latest, less⟩
        sources := indexed.sources
        instance_ := indexed.instance_
        calm := indexed.calm
        heads := indexed.heads ▸ taken.heads
        mem_heads := ?_
        unclaimed := indexed.unclaimed taken.unclaimed
        work := ?_ }⟩
      · simp [Source.head, ensure, project, older, distinct]
      · rw [Rows, latestSources_older member turn less, indexed.heads]
        exact taken.mem_heads
      · rw [latestSources_older member turn less, indexed.pendingWork]
        exact taken.work
    · -- the work on the head's receipt is superseded
      have newer : ∀ y ∈ store.db.sources, y.turn = s.turn → y.revision < s.revision := by
        intro y there same
        have := most y there (same.trans turn.symm)
        omega
      let cancelled := before.updateWork
        (fun item => item.receiptId = x.receiptId && item.active) WorkItem.superseded
      have queued : Enqueued store.db s s (cancelled.enqueueHead s) := by
        refine .of_head (.of_newer newer) newer coherent taken.heads taken.mem_heads
          indexed.sources indexed.instance_ indexed.calm indexed.heads
          ((indexed.unclaimed taken.unclaimed).superseded x.receiptId) ?_
        rw [← filter_latest known latest turn, ← filter_work]
        have left := pendingWork_superseded (indexed.unclaimed taken.unclaimed) x.receiptId
        rw [indexed.pendingWork] at left
        exact (List.Perm.of_eq left).trans (taken.work.filter _)
      refine ⟨_, s, ?_, queued⟩
      simp [Source.head, ensure, project, older]
      rfl

/-! ## Intakes in any order -/

theorem bindReceipts_eq (db : Database) (source : Source) :
    ∃ sourceJobs sourceJobTurns, db.bindReceipts source = { db with sourceJobs, sourceJobTurns } := by
  unfold Database.bindReceipts
  split <;> exact ⟨_, _, rfl⟩

section

variable [Environment]

theorem indexSource_calm (db : Database) (source : Source) (calm : db.cancelledJobs = []) :
    ∃ before, db.indexSource source = .ok before ∧ before.sourceValid source.receiptId = true ∧
      ∃ sourceJobs sourceJobTurns, before = { db with sourceJobs, sourceJobTurns } := by
  obtain ⟨sourceJobs, sourceJobTurns, bound⟩ := bindReceipts_eq db source
  refine ⟨{ db with sourceJobs, sourceJobTurns }, ?_, ?_, sourceJobs, sourceJobTurns, rfl⟩
  · have none_cancelled : ∀ rows : List SourceJob,
        (rows.flatMap fun _ => ([] : List CancelledJob)) = [] := by simp
    simp only [Database.indexSource, bound, calm, filter_nil, none_cancelled]
    rfl
  · simp [Database.sourceValid, calm]

/-- An intake of an accepted receipt succeeds, and the tables are those of the known sources. -/
theorem Taken.ingest (taken : Taken bound store) (coherent : Coherent (store.db.sources ++ [s]))
    (ours : bound.all fun instance_ => instance_ = s.instanceId) :
    ∃ fresh store', store.ingest s = .ok (fresh, store') ∧ Taken bound store' ∧
      (∀ x, x ∈ store'.db.sources ↔ x ∈ store.db.sources ∨ x = s) ∧
      (Distinct Source.receiptId store.db.sources → Distinct Source.receiptId store'.db.sources) := by
  have here : s ∈ store.db.sources ++ [s] := mem_append_right _ (mem_singleton.mpr rfl)
  obtain ⟨identity, messages⟩ := coherent.accepted s here
  cases existing : store.db.source s.receiptId with
  | some old =>
    obtain ⟨member, receipt⟩ := rowOf_some existing
    have same : old = s :=
      coherent.ids old (mem_append_left _ member) s here receipt
    subst same
    refine ⟨false, store, ?_, taken, ?_, id⟩
    · simp only [SourceStore.ingest, Database.ingest, existing, bind_ok, ensure_ok]
      exact ⟨_, ⟨(), identity, (), messages, (), taken.instance_ ▸ ours, (), trivial, rfl⟩, rfl⟩
    · intro x
      refine ⟨.inl, ?_⟩
      rintro (known | rfl)
      · exact known
      · exact member
  | none =>
    have unused : ∀ x ∈ store.db.sources, x.receiptId ≠ s.receiptId := by
      intro x member same
      have absent := find?_eq_none.mp existing x member
      simp [same] at absent
    have fresh : s ∉ store.db.sources := fun member => unused s member rfl
    obtain ⟨before, index, valid, _, _, same⟩ := indexSource_calm
      { store.db with sources := store.db.sources ++ [s] } s taken.calm
    have indexed : Indexed store.db s before := by
      rw [same]
      exact ⟨rfl, rfl, rfl, rfl, rfl⟩
    obtain ⟨db', q, enqueued, made⟩ := taken.enqueueSource indexed coherent fresh
    refine ⟨true, ⟨db', upsert SourceTurn.turn s.row (SourceTurn.update s) store.sourceTurns⟩, ?_,
      ?_, ?_, ?_⟩
    · simp only [SourceStore.ingest, Database.ingest, existing, bind_ok, ensure_ok]
      refine ⟨(true, db'), ⟨(), identity, (), messages, (), taken.instance_ ▸ ours, before, index,
        ?_⟩, rfl⟩
      simp only [valid, if_true, bind_ok]
      exact ⟨db', enqueued, rfl⟩
    · exact {
        instance_ := made.instance_.trans taken.instance_
        calm := made.calm.trans taken.calm
        heads := made.heads
        mem_heads := made.sources ▸ made.mem_heads
        turns := taken.turns.upsert fun _ _ => rfl
        mem_turns := by
          rw [made.sources]
          exact made.leads.turns coherent made.newest taken.mem_turns
        unclaimed := made.unclaimed
        work := made.sources ▸ made.work }
    · intro x
      rw [made.sources, mem_append, mem_singleton]
    · intro receipts
      rw [made.sources]
      exact receipts.append unused

theorem Taken.ingestAll (taken : Taken bound store) (coherent : Coherent receipts)
    (ours : ∀ x ∈ receipts, bound.all fun instance_ => instance_ = x.instanceId)
    (known : ∀ x ∈ store.db.sources, x ∈ receipts)
    (distinct : Distinct Source.receiptId store.db.sources) {order : List Source}
    (accepted : ∀ x ∈ order, x ∈ receipts) :
    ∃ store', store.ingestAll order = .ok store' ∧ Taken bound store' ∧
      (∀ x, x ∈ store'.db.sources ↔ x ∈ store.db.sources ∨ x ∈ order) ∧
      Distinct Source.receiptId store'.db.sources := by
  induction order generalizing store with
  | nil =>
    refine ⟨store, rfl, taken, fun x => ?_, distinct⟩
    simp
  | cons s rest ih =>
    obtain ⟨here, later⟩ := forall_mem_cons.mp accepted
    have subset : ∀ x ∈ store.db.sources ++ [s], x ∈ receipts := by
      intro x member
      obtain old | new := mem_append.mp member
      · exact known x old
      · rw [mem_singleton.mp new]
        exact here
    obtain ⟨fresh, next, ingested, taken', sources, distinct'⟩ :=
      taken.ingest (coherent.subset subset) (ours s here)
    have known' : ∀ x ∈ next.db.sources, x ∈ receipts := by
      intro x member
      obtain old | rfl := (sources x).mp member
      · exact known x old
      · exact here
    obtain ⟨store', ran, taken'', sources', distinct''⟩ :=
      ih taken' known' (distinct' distinct) later
    refine ⟨store', ?_, taken'', fun x => ?_, distinct''⟩
    · rw [SourceStore.ingestAll, ingested]
      exact ran
    · rw [sources', sources, mem_cons, or_assoc]

end

/-! ## The tables of a set of receipts -/

/-- The tables of a store that took in the receipts. -/
structure Holds (receipts : List Source) (store : SourceStore) : Prop where
  sources : store.db.sources.Perm receipts
  sourceHeads : store.db.sourceHeads.Perm ((latestSources receipts).map Source.head)
  sourceTurns : store.sourceTurns.Perm ((latestSources receipts).map (Source.turnRow receipts))
  pendingWork : store.db.pendingWork.Perm ((latestSources receipts).flatMap Source.work)

theorem latestSources_perm (same : sources.Perm receipts) :
    (latestSources sources).Perm (latestSources receipts) := by
  have beaten : ∀ x : Source, (sources.all fun y => decide (y.turn = x.turn → y.revision ≤ x.revision)) =
      receipts.all fun y => decide (y.turn = x.turn → y.revision ≤ x.revision) :=
    fun x => same.all_eq
  rw [latestSources, latestSources]
  simp only [beaten]
  exact same.filter _

theorem turnRow_perm (same : sources.Perm receipts) (member : x ∈ sources) :
    x.turnRow sources = x.turnRow receipts := by
  have least : firstSequence sources x = firstSequence receipts x := by
    refine eq_of_forall_le_iff fun n => ?_
    rw [le_firstSequence member, le_firstSequence (same.mem_iff.mp member)]
    simp only [same.mem_iff]
  rw [Source.turnRow, Source.turnRow, least]

/-- Rows with distinct keys are those of the latest revisions, each once. -/
theorem Rows.perm {ρ κ : Type} {key : ρ → κ} {row : Source → ρ} {rows : List ρ}
    (described : Rows sources row rows) (distinct : Distinct key rows)
    (latest : ((latestSources sources).map row).Nodup) :
    rows.Perm ((latestSources sources).map row) := by
  rw [perm_ext_iff_of_nodup (List.Nodup.of_map _ distinct) latest]
  intro r
  rw [described r, mem_map]
  simp only [eq_comm]

theorem Coherent.nodup_latest {ρ : Type} (coherent : Coherent sources) (key : ρ → TurnKey)
    {row : Source → ρ} (nodup : sources.Nodup) (keys : ∀ x, key (row x) = x.turn) :
    ((latestSources sources).map row).Nodup := by
  refine (nodup_map_iff_inj_on (nodup.filter _)).mpr fun x here y there same => ?_
  exact coherent.latest_eq here there (by rw [← keys x, same, keys y])

theorem Taken.holds (taken : Taken bound store) (coherent : Coherent receipts)
    (nodup : receipts.Nodup) (distinct : Distinct Source.receiptId store.db.sources)
    (same : ∀ x, x ∈ store.db.sources ↔ x ∈ receipts) : Holds receipts store := by
  have sources : store.db.sources.Perm receipts :=
    (perm_ext_iff_of_nodup (List.Nodup.of_map _ distinct) nodup).mpr same
  have known := coherent.subset fun x member => (same x).mp member
  have unique := List.Nodup.of_map _ distinct
  have latest := latestSources_perm sources
  refine ⟨sources, ?_, ?_, taken.work.trans (latest.flatMap_right _)⟩
  · exact (taken.mem_heads.perm taken.heads (known.nodup_latest SourceHead.turn unique
      fun _ => rfl)).trans
      (latest.map _)
  · have rows := taken.mem_turns.perm taken.turns
      (known.nodup_latest SourceTurn.turn unique fun _ => rfl)
    have equal : (latestSources store.db.sources).map (Source.turnRow store.db.sources) =
        (latestSources store.db.sources).map (Source.turnRow receipts) :=
      map_congr_left fun x member => turnRow_perm sources (mem_latestSources.mp member).1
    exact (equal ▸ rows).trans (latest.map _)

end Agentix.MemoryStore
