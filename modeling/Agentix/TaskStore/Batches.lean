import Mathlib.Data.List.Perm.Basic
import Agentix.TaskStore.Merging

/-! # The order of a merged conversation

The entries of a conversation keep their order.  Those of an ordered batch have the order of the
batch, if those that were there before have it.
-/

namespace Agentix.TaskStore

open Lib List Option Prod

variable {session : String} {now : Int} {job : Job} {entries : List JobMessage}
  {indexes : List (String × Nat)} {messages : List Value} {batch : List Incoming} {ordered : Bool}
  {before : Option String}

/-! ## The merged conversation -/

/-- The position of a message in the conversation, if it is known. -/
def positionIn (indexes : List (String × Nat)) (m : Incoming) : Option Nat := indexes.lookup m.id

def batchAnchors (indexes : List (String × Nat)) (length : Nat) (ordered : Bool)
    (before : Option String) (batch : List Incoming) : List Nat :=
  if ordered then
    (anchors (positionIn indexes) ((before.bind fun id => indexes.lookup id).getD length) batch).1
  else batch.map fun _ => length

theorem anchorsBefore_of_reads (last : Nat) (reads : Reads messages batch) :
    anchorsBefore indexes last messages = anchors (positionIn indexes) last batch := by
  induction reads with
  | nil => rfl
  | cons read reads ih =>
    rw [anchorsBefore, anchors, ih, index_id_of_read read]
    rfl

theorem length_batchAnchors (length : Nat) :
    (batchAnchors indexes length ordered before batch).length = batch.length := by
  unfold batchAnchors
  split
  · exact length_anchors
  · exact length_map _

theorem length_adopted (session : String) (batch : List Incoming)
    (entries : List JobMessage) : (adopted session batch entries).length = entries.length := by
  unfold adopted
  split
  · rfl
  · rename_i pending last
    obtain ⟨init, rfl⟩ := getLast?_eq_some_iff.mp last
    split
    · split
      · rfl
      · simp
    · rfl

theorem placeInserted_append {old fresh : List JobMessage} {inserted : List Nat} :
    placeInserted (old ++ fresh) old.length inserted = placed old (fresh.zip inserted) := by
  simp only [placeInserted, placed, anchoredAt, take_left, drop_left]

theorem RolesKept.adopted (roles : RolesKept session batch entries)
    (distinct : (batch.map Incoming.id).Nodup) :
    RolesKept session batch (adopted session batch entries) := by
  unfold TaskStore.adopted
  split
  · exact roles
  · rename_i pending last
    obtain ⟨init, rfl⟩ := getLast?_eq_some_iff.mp last
    split
    · rename_i placeholder
      split
      · exact roles
      · rename_i m found
        intro m' mem full e there here named
        rw [dropLast_concat] at there
        obtain older | rfl := (mem_append.mp there).imp_right mem_singleton.mp
        · exact roles m' mem full e (mem_append_left _ older) here named
        · have user : m.role = "user" := by
            have found := find?_some found
            simp only [decide_eq_true_eq] at found
            exact found.1
          have same : m = m' :=
            inj_on_of_nodup_map distinct (mem_of_find?_eq_some found) mem named
          rw [← same, user]
          exact placeholder.1
    · exact roles

/-- What a batch makes of a conversation: the `fresh` messages are placed at their anchors. -/
structure Merges (session : String) (now : Int) (batch : List Incoming) (ordered : Bool)
    (before : Option String) (entries entries' : List JobMessage) (indexes : List (String × Nat))
    (fresh : List (Incoming × Nat)) : Prop where
  indexed : Indexed session (adopted session batch entries) indexes
  unknown : fresh = unknown (identities session (adopted session batch entries))
    (batch.zip (batchAnchors indexes entries.length ordered before batch))
  result : entries' = placed ((adopted session batch entries).map (revise session batch))
    (fresh.map fun x => (x.1.entry session now, x.2))

/-- A batch of valid messages is merged into the conversation of a Job. -/
theorem mergeMessages_spec (reads : Reads messages batch)
    (unique : (identities session job.conversation).Nodup)
    (distinct : (batch.map Incoming.id).Nodup) (roles : RolesKept session batch job.conversation) :
    ∃ job' count indexes fresh,
      mergeMessages job messages session now ordered before = .ok (job', count) ∧
        Merges session now batch ordered before job.conversation job'.conversation indexes fresh := by
  obtain ⟨indexes, count, adopts, indexed⟩ := adoptPlaceholder_spec reads unique
  have anchorsOf : (if ordered = true then (anchorsBefore indexes
      ((before.bind fun id => indexes.lookup id).getD job.conversation.length) messages).1
      else messages.map fun _ => job.conversation.length) =
        batchAnchors indexes job.conversation.length ordered before batch := by
    unfold batchAnchors
    split
    · rw [anchorsBefore_of_reads _ reads]
    · rw [map_const', map_const', List.Forall₂.length_eq reads]
  generalize anchored : batchAnchors indexes job.conversation.length ordered before batch = anchors
    at anchorsOf
  have lengths : anchors.length = batch.length := by
    rw [← anchored, length_batchAnchors]
  have zipped : (batch.zip anchors).map fst = batch :=
    map_fst_zip (Nat.le_of_eq lengths.symm)
  have ids : (batch.zip anchors).map (fun x => x.1.id) = batch.map Incoming.id := by
    conv_rhs => rw [← zipped, List.map_map]
    rfl
  obtain ⟨merge, run, result, inserted⟩ : ∃ merge', mergeBatch session now
      ⟨adopted session batch job.conversation, indexes, job.prompt, count, []⟩
      (batch.zip anchors) = .ok merge' ∧ _ :=
    mergeBatch_spec indexed (by rwa [ids]) (by rw [zipped]; exact roles.adopted distinct)
  rw [zipped] at result
  simp only [nil_append] at inserted
  generalize fresh : unknown (identities session (adopted session batch job.conversation))
    (batch.zip anchors) = unknowns at result inserted
  refine ⟨{ job with
      conversation := placed ((adopted session batch job.conversation).map (revise session batch))
        (unknowns.map fun x => (x.1.entry session now, x.2))
      prompt := merge.prompt }, merge.recorded, indexes, unknowns, ?_, indexed, ?_, rfl⟩
  · simp only [mergeMessages, adopts, bind, Except.bind, anchorsOf, mergeAll_of_reads reads, run,
      pure, Except.pure]
    refine congrArg Except.ok (Prod.ext ?_ rfl)
    refine congrArg (fun conversation => { job with conversation, prompt := merge.prompt }) ?_
    have zips : (unknowns.map fun x => x.1.entry session now).zip (unknowns.map snd) =
        unknowns.map fun x => (x.1.entry session now, x.2) := zip_map' ..
    have length : ((adopted session batch job.conversation).map (revise session batch)).length =
        job.conversation.length := by rw [length_map, length_adopted]
    rw [result, inserted, ← zips, ← length, placeInserted_append]
    split
    · rename_i none_fresh
      rw [map_eq_nil_iff.mp none_fresh]
      simp [placed_nil]
    · rfl
  · rw [← fresh, anchored]

theorem merges_of_ok {job' : Job} {count : Nat}
    (ok : mergeMessages job messages session now ordered before = .ok (job', count))
    (reads : Reads messages batch) (unique : (identities session job.conversation).Nodup)
    (distinct : (batch.map Incoming.id).Nodup) (roles : RolesKept session batch job.conversation) :
    ∃ indexes fresh,
      Merges session now batch ordered before job.conversation job'.conversation indexes fresh := by
  obtain ⟨job'', count', indexes, fresh, ok', merges⟩ : ∃ job'' count' indexes fresh,
      mergeMessages job messages session now ordered before = .ok (job'', count') ∧
        Merges session now batch ordered before job.conversation job''.conversation indexes fresh :=
    mergeMessages_spec reads unique distinct roles
  rw [ok, Except.ok.injEq, Prod.mk.injEq] at ok'
  obtain ⟨rfl, _⟩ := ok'
  exact ⟨indexes, fresh, merges⟩

/-! ## What is kept and what is added -/

/-- The messages of a batch that a conversation does not know. -/
def added (session : String) (batch : List Incoming) (entries : List JobMessage) :
    List Incoming :=
  batch.filter fun m => decide (m.id ∉ identities session (adopted session batch entries)) &&
    !blank m.text

def keptEntries (session : String) (batch : List Incoming) (entries : List JobMessage) :
    List JobMessage :=
  (adopted session batch entries).map (revise session batch)

namespace Merges

variable {entries' : List JobMessage} {fresh : List (Incoming × Nat)}

theorem position_lt (merges : Merges session now batch ordered before entries entries' indexes fresh)
    {id : String} {i : Nat} (known : indexes.lookup id = some i) : i < entries.length := by
  obtain ⟨e, position, _⟩ := (merges.indexed id i).mp known
  rw [← length_adopted session batch]
  exact (List.getElem?_eq_some_iff.mp position).1

theorem anchor_le (merges : Merges session now batch ordered before entries entries' indexes fresh) :
    ∀ anchor ∈ batchAnchors indexes entries.length ordered before batch,
      anchor ≤ entries.length := by
  have next : (before.bind fun id => indexes.lookup id).getD entries.length ≤ entries.length := by
    cases found : before.bind fun id => indexes.lookup id with
    | none => exact Nat.le_refl _
    | some i =>
      obtain ⟨id, _, known⟩ := bind_eq_some_iff.mp found
      exact Nat.le_of_lt (merges.position_lt known)
  intro anchor mem
  unfold batchAnchors at mem
  split at mem
  · obtain rfl | ⟨m, _, known⟩ := anchors_mem anchor (mem_cons_of_mem _ mem)
    · exact next
    · exact Nat.le_of_lt (merges.position_lt known)
  · obtain ⟨_, _, rfl⟩ := mem_map.mp mem
    exact Nat.le_refl _

theorem map_fresh (merges : Merges session now batch ordered before entries entries' indexes fresh) :
    fresh.map fst = added session batch entries := by
  have zipped : (batch.zip (batchAnchors indexes entries.length ordered before batch)).map
      fst = batch :=
    map_fst_zip (Nat.le_of_eq (length_batchAnchors _).symm)
  rw [merges.unknown, added]
  refine Eq.trans ?_ (congrArg (filter _) zipped)
  rw [List.filter_map]
  rfl

theorem kept (merges : Merges session now batch ordered before entries entries' indexes fresh) :
    (keptEntries session batch entries).Sublist entries' := by
  rw [merges.result]
  exact sublist_placed

theorem perm (merges : Merges session now batch ordered before entries entries' indexes fresh) :
    entries'.Perm (keptEntries session batch entries ++
      (added session batch entries).map (Incoming.entry session now)) := by
  have within : ∀ item ∈ fresh.map fun x => (x.1.entry session now, x.2),
      item.2 ≤ (keptEntries session batch entries).length := by
    intro item mem
    obtain ⟨x, here, rfl⟩ := mem_map.mp mem
    rw [keptEntries, length_map, length_adopted]
    rw [merges.unknown] at here
    exact merges.anchor_le _ (of_mem_zip (mem_of_mem_filter here)).2
  have placed := placed_perm within
  rw [List.map_map] at placed
  rw [merges.result, ← merges.map_fresh, List.map_map]
  exact placed

theorem identities_entry (session : String) (now : Int) (batch : List Incoming) :
    identities session (batch.map (Incoming.entry session now)) = batch.map Incoming.id := by
  have all : (batch.map (Incoming.entry session now)).filter (fun e => e.sessionId = session) =
      batch.map (Incoming.entry session now) := by
    rw [filter_eq_self]
    intro e mem
    obtain ⟨m, _, rfl⟩ := mem_map.mp mem
    exact decide_eq_true rfl
  rw [identities, all, List.map_map]
  rfl

theorem identities_perm
    (merges : Merges session now batch ordered before entries entries' indexes fresh) :
    (identities session entries').Perm (identities session (adopted session batch entries) ++
      (added session batch entries).map Incoming.id) := by
  have perm := ((merges.perm.filter fun e => e.sessionId = session).map JobMessage.id)
  have split : identities session (keptEntries session batch entries ++
      (added session batch entries).map (Incoming.entry session now)) =
        identities session (adopted session batch entries) ++
          (added session batch entries).map Incoming.id := by
    rw [identities_append, keptEntries, identities_revise, identities_entry]
  rw [← split]
  exact perm

theorem nodup_adopted (indexed : Indexed session entries indexes) :
    (identities session entries).Nodup := by
  rw [identities, List.Nodup, pairwise_map, pairwise_filter, pairwise_iff_getElem]
  intro i j hi hj less here there same
  have first := (indexed entries[i].id i).mpr
    ⟨_, getElem?_eq_getElem hi, of_decide_eq_true here, rfl⟩
  have second := (indexed entries[i].id j).mpr
    ⟨_, getElem?_eq_getElem hj, of_decide_eq_true there, same.symm⟩
  rw [first, some_inj] at second
  omega

theorem nodup (merges : Merges session now batch ordered before entries entries' indexes fresh)
    (distinct : (batch.map Incoming.id).Nodup) : (identities session entries').Nodup := by
  rw [merges.identities_perm.nodup_iff, nodup_append]
  refine ⟨nodup_adopted merges.indexed, distinct.sublist (filter_sublist.map _), ?_⟩
  rintro id known _ new rfl
  obtain ⟨m, mem, rfl⟩ := mem_map.mp new
  have fresh := (mem_filter.mp mem).2
  simp only [Bool.and_eq_true, decide_eq_true_eq] at fresh
  exact fresh.1 known

end Merges

/-! ## The order of the batch -/

def InBatchOrder (session : String) (batch : List Incoming) (entries : List JobMessage) : Prop :=
  (identities session entries).filter (· ∈ batch.map Incoming.id) =
    (batch.map Incoming.id).filter (· ∈ identities session entries)

/-- Two entries are in the order of the batch, if both are of it. -/
def Precedes (session : String) (batch : List Incoming) (a b : JobMessage) : Prop :=
  a.sessionId = session → b.sessionId = session → a.id ∈ batch.map Incoming.id →
    b.id ∈ batch.map Incoming.id →
      (batch.map Incoming.id).idxOf a.id < (batch.map Incoming.id).idxOf b.id

theorem inBatchOrder_iff (distinct : (batch.map Incoming.id).Nodup)
    (unique : (identities session entries).Nodup) :
    InBatchOrder session batch entries ↔ entries.Pairwise (Precedes session batch) := by
  rw [InBatchOrder, filter_eq_filter_iff distinct unique, identities, pairwise_map,
    pairwise_filter]
  simp only [decide_eq_true_eq]
  rfl

theorem ascending_of_order (distinct : (batch.map Incoming.id).Nodup)
    (indexed : Indexed session entries indexes)
    (sorted : entries.Pairwise (Precedes session batch)) :
    Ascending (positionIn indexes) batch := by
  have ranks := pairwise_map.mp (pairwise_idxOf distinct)
  refine ranks.imp_of_mem fun {m m'} mem mem' less p q known known' => ?_
  obtain ⟨e, position, here, named⟩ := (indexed m.id p).mp known
  obtain ⟨e', position', here', named'⟩ := (indexed m'.id q).mp known'
  by_contra other
  obtain rfl | greater : p = q ∨ q < p := by omega
  · rw [position, some_inj] at position'
    rw [← named, ← named', position'] at less
    exact Nat.lt_irrefl _ less
  · obtain ⟨hp, rfl⟩ := List.getElem?_eq_some_iff.mp position
    obtain ⟨hq, rfl⟩ := List.getElem?_eq_some_iff.mp position'
    have before := pairwise_iff_getElem.mp sorted q p hq hp greater here' here
    rw [named, named'] at before
    exact Nat.lt_asymm less (before (mem_map_of_mem mem') (mem_map_of_mem mem))

theorem eq_or_of_pairwise {α : Type} {r : α → α → Prop} {l : List α} (pairwise : l.Pairwise r)
    {x y : α} (here : x ∈ l) (there : y ∈ l) : x = y ∨ r x y ∨ r y x := by
  obtain ⟨i, hi, rfl⟩ := mem_iff_getElem.mp here
  obtain ⟨j, hj, rfl⟩ := mem_iff_getElem.mp there
  obtain less | rfl | greater := Nat.lt_trichotomy i j
  · exact .inr (.inl (pairwise_iff_getElem.mp pairwise i j hi hj less))
  · exact .inl rfl
  · exact .inr (.inr (pairwise_iff_getElem.mp pairwise j i hj hi greater))

/-- A message of the batch with its anchor comes before another. -/
structure Earlier (indexes : List (String × Nat)) (ids : List String) (x y : Incoming × Nat) :
    Prop where
  anchored : AnchoredBefore (positionIn indexes) x y
  rank : ids.idxOf x.1.id < ids.idxOf y.1.id

theorem pairwise_rank (distinct : (batch.map Incoming.id).Nodup) : batch.Pairwise fun m m' =>
    (batch.map Incoming.id).idxOf m.id < (batch.map Incoming.id).idxOf m'.id := by
  have ranks := pairwise_map.mp (pairwise_idxOf distinct)
  exact ranks

theorem pairwise_earlier {length : Nat} (distinct : (batch.map Incoming.id).Nodup)
    (ascending : Ascending (positionIn indexes) batch)
    (inside : ∀ m ∈ batch, ∀ p, positionIn indexes m = some p → p < length) :
    (batch.zip (anchors (positionIn indexes) length batch).1).Pairwise
      (Earlier indexes (batch.map Incoming.id)) := by
  have zipped : (batch.zip (anchors (positionIn indexes) length batch).1).map fst = batch :=
    map_fst_zip (Nat.le_of_eq length_anchors.symm)
  have ranks : ((batch.zip (anchors (positionIn indexes) length batch).1).map
      fst).Pairwise fun m m' =>
        (batch.map Incoming.id).idxOf m.id < (batch.map Incoming.id).idxOf m'.id := by
    rw [zipped]
    exact pairwise_rank distinct
  rw [pairwise_map] at ranks
  exact (pairwise_anchors inside ascending).imp₂ (fun _ _ => .mk) ranks

/-- An ordered batch whose known messages are in order is in order once it is merged. -/
theorem Merges.order {entries' : List JobMessage} {fresh : List (Incoming × Nat)}
    (merges : Merges session now batch true none entries entries' indexes fresh)
    (distinct : (batch.map Incoming.id).Nodup)
    (known : InBatchOrder session batch (adopted session batch entries)) :
    InBatchOrder session batch entries' := by
  have sorted := (inBatchOrder_iff distinct (nodup_adopted merges.indexed)).mp known
  have earlier := pairwise_earlier distinct (ascending_of_order distinct merges.indexed sorted)
    fun m _ p position => merges.position_lt position
  have anchored : ∀ x ∈ fresh, x ∈ batch.zip
      (anchors (positionIn indexes) entries.length batch).1 := by
    intro x mem
    rw [merges.unknown] at mem
    exact mem_of_mem_filter mem
  -- a message is at an anchor at or before a known entry exactly if it comes before it
  have against : ∀ x ∈ fresh, ∀ i e, (keptEntries session batch entries)[i]? = some e →
      e.sessionId = session → e.id ∈ batch.map Incoming.id →
        ∃ y, y.1.id = e.id ∧ positionIn indexes y.1 = some i ∧
          (Earlier indexes (batch.map Incoming.id) x y ∨
            Earlier indexes (batch.map Incoming.id) y x) := by
    intro x mem i e position here named
    obtain ⟨e, there, rfl⟩ := map_eq_some_iff.mp (getElem?_map ▸ position)
    obtain ⟨k, inside, id⟩ := mem_map.mp named
    have lengths : batch.length ≤ (anchors (positionIn indexes) entries.length batch).1.length :=
      Nat.le_of_eq length_anchors.symm
    obtain ⟨y, there', rfl⟩ : ∃ y ∈ batch.zip
        (anchors (positionIn indexes) entries.length batch).1, y.1 = k := by
      rwa [← List.mem_map, map_fst_zip lengths]
    refine ⟨y, id, (merges.indexed y.1.id i).mpr ⟨e, there, here, id.symm⟩, ?_⟩
    refine (eq_or_of_pairwise earlier (anchored x mem) there').resolve_left ?_
    rintro rfl
    rw [merges.unknown] at mem
    have fresh := (mem_filter.mp mem).2
    simp only [Bool.and_eq_true, decide_eq_true_eq] at fresh
    exact fresh.1 (mem_identities.mpr ⟨e, mem_of_getElem? there, here, id.symm⟩)
  rw [inBatchOrder_iff distinct (merges.nodup distinct), merges.result]
  refine pairwise_placed ?_ ?_ ?_ ?_ ?_
  · exact pairwise_map.mpr sorted
  · rw [pairwise_map, merges.unknown]
    refine (earlier.filter _).imp fun {x y} before _ _ _ _ _ => before.rank
  · intro x mem y mem' less here there named named'
    obtain ⟨x, first, rfl⟩ := mem_map.mp mem
    obtain ⟨y, second, rfl⟩ := mem_map.mp mem'
    obtain same | before | after :=
      eq_or_of_pairwise earlier (anchored x first) (anchored y second)
    · rw [same] at less
      exact absurd less (Nat.lt_irrefl _)
    · exact before.rank
    · exact absurd after.anchored.anchors (Nat.not_le_of_lt less)
  · intro x mem i e position le here there named named'
    obtain ⟨x, first, rfl⟩ := mem_map.mp mem
    obtain ⟨y, id, placed, before | after⟩ := against x first i e position there named'
    · rw [← id]
      exact before.rank
    · exact absurd (after.anchored.known i placed) (Nat.not_lt_of_le le)
  · intro x mem i e position less here there named named'
    obtain ⟨x, first, rfl⟩ := mem_map.mp mem
    obtain ⟨y, id, placed, before | after⟩ := against x first i e position here named
    · exact absurd (before.anchored.next i placed) (Nat.not_le_of_lt less)
    · rw [← id]
      exact after.rank

end Agentix.TaskStore
