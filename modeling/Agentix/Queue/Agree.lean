import Agentix.Queue.Durable
import Mathlib.Logic.Function.Basic

/-! # What the journal knows

The queue that the journal replays to keeps the receipts that the live queue has archived.  The two
agree where they answer alike for every id, with the archive.
-/

namespace Agentix.Queue

open Lib List Option Function Prod

variable {R : Type}

namespace DurableQueue

variable {size : Option (Size R)} {q r : DurableQueue R} {id : Id} {archive : Archive R}

variable {archive' : Archive R}

@[simp] theorem measure_toSaved : (q.measure size id).toSaved = q.toSaved := by
  unfold measure
  cases size <;> rfl

theorem foldl_measure_toSaved {entries : Entries Id (Receipt R)} :
    (entries.foldl (fun q entry => q.measure size entry.1) q).toSaved = q.toSaved := by
  induction entries generalizing q with
  | nil => rfl
  | cons entry rest ih =>
    rw [foldl_cons, ih, measure_toSaved]

theorem ofSaved_toSaved {saved : Saved R} : (ofSaved size saved).toSaved =
    { saved with
      uncertain := saved.uncertain.or saved.inflight
      paused := saved.paused || (saved.uncertain.or saved.inflight).isSome } := by
  unfold ofSaved
  exact foldl_measure_toSaved

/-- The maps have a key once. -/
structure Keys (q : DurableQueue R) : Prop where
  receipts : (q.receipts.map fst).Nodup
  requests : (q.requests.map fst).Nodup
  failures : (q.failures.map fst).Nodup

theorem Keys.of_toSaved (keys : q.Keys) (same : r.toSaved = q.toSaved) : r.Keys := by
  constructor <;> rw [same]
  · exact keys.receipts
  · exact keys.requests
  · exact keys.failures

/-- An unfinished delivery. -/
def unfinished (q : DurableQueue R) : Option Item := q.uncertain.or q.inflight

/-- The flags are the ones that a constructor makes of the others. -/
structure SameFlags (r q : DurableQueue R) : Prop where
  inflight : r.inflight = q.inflight
  unfinished : r.unfinished = q.unfinished
  paused : (r.paused || r.unfinished.isSome) = (q.paused || q.unfinished.isSome)

/-- What is known of an id that is not resident: nothing more, or what was archived. -/
inductive Elsewhere (r q : DurableQueue R) (archive : Archive R) (id : Id) : Prop
  | nowhere (receipt : r.receipts.get id = none) (request : r.requests.get id = none)
      (failure : r.failures.get id = q.failures.get id)
  | archived (value : Archived R) (stored : archive id = some value)
      (receipt : r.receipts.get id = some value.receipt)
      (request : r.requests.get id = value.request)
      (failure : r.failures.get id = (q.failures.get id).or value.failure)

/-- `r` is the replay, and `q` the live queue. -/
structure Agree (r q : DurableQueue R) (archive : Archive R) : Prop where
  queue : r.queue = q.queue
  flags : r.SameFlags q
  resident : ∀ {id receipt}, q.receipts.get id = some receipt →
    r.receipts.get id = some receipt ∧ r.requests.get id = q.requests.get id ∧
      r.failures.get id = q.failures.get id
  requested : ∀ {id}, q.receipts.get id = none → q.requests.get id = none
  elsewhere : ∀ {id}, q.receipts.get id = none → Elsewhere r q archive id

theorem SameFlags.refl : q.SameFlags q := ⟨rfl, rfl, rfl⟩

theorem Agree.of_toSaved {r' q' : DurableQueue R} (agree : r.Agree q archive)
    (left : r'.toSaved = r.toSaved) (right : q'.toSaved = q.toSaved) : r'.Agree q' archive := by
  have flags : r'.SameFlags q' := by
    constructor
    · rw [left, right, agree.flags.inflight]
    · unfold unfinished
      rw [left, right]
      exact agree.flags.unfinished
    · unfold unfinished
      rw [left, right]
      exact agree.flags.paused
  constructor
  · rw [left, right, agree.queue]
  · exact flags
  · rw [left, right]
    exact agree.resident
  · rw [right]
    exact agree.requested
  · intro id absent
    rw [right] at absent
    cases agree.elsewhere absent with
    | nowhere receipt request failure =>
      exact .nowhere (by rwa [left]) (by rwa [left]) (by rwa [left, right])
    | archived value stored receipt request failure =>
      exact .archived value stored (by rwa [left]) (by rwa [left]) (by rwa [left, right])

/-! ## Answers -/

/-- What answers for an id: the resident maps, and the archive where the receipt is not there. -/
def known (q : DurableQueue R) (archive : Archive R) (id : Id) :
    Option (Receipt R) × Option Intent × Option Failure :=
  let archived := if (q.receipts.get id).isSome then none else archive id
  ((q.receipts.get id).or (archived.map Archived.receipt),
    (q.requests.get id).or (archived.bind Archived.request),
    (q.failures.get id).or (archived.bind Archived.failure))

theorem receipt_of_known (same : q.known archive id = r.known archive' id)
    (intent : Option Intent) : q.receipt archive id intent = r.receipt archive' id intent := by
  simp only [known, Prod.mk.injEq] at same
  obtain ⟨receipt, request, failure⟩ := same
  unfold DurableQueue.receipt
  simp only [receipt, request, failure]

/-- The replay and the live queue answer alike. -/
theorem Agree.known (agree : r.Agree q archive) : q.known archive id = r.known archive id := by
  unfold DurableQueue.known
  cases held : q.receipts.get id with
  | some receipt =>
    obtain ⟨known, request, failure⟩ := agree.resident held
    simp [known, request, failure]
  | none =>
    have unrequested := agree.requested held
    cases agree.elsewhere held with
    | nowhere receipt request failure => simp [receipt, request, failure, unrequested]
    | archived value stored receipt request failure =>
      simp [stored, receipt, request, failure, unrequested]

/-- The archive may only change where the receipt is resident. -/
def Extends (q : DurableQueue R) (archive archive' : Archive R) : Prop :=
  ∀ id, q.receipts.get id = none → archive' id = archive id

theorem Extends.refl : q.Extends archive archive := fun _ _ => rfl

theorem known_of_extends (more : q.Extends archive archive') :
    q.known archive' id = q.known archive id := by
  unfold DurableQueue.known
  cases held : q.receipts.get id with
  | some receipt => rfl
  | none => rw [more id held]

theorem Agree.extends_replay (agree : r.Agree q archive) (more : q.Extends archive archive') :
    r.Extends archive archive' := by
  intro id absent
  cases held : q.receipts.get id with
  | none => exact more id held
  | some receipt =>
    have present := (agree.resident held).1
    rw [absent] at present
    cases present

/-! ## Trimming -/

/-- Receipts move to the archive one after the other. -/
inductive Trims : DurableQueue R → Archive R → DurableQueue R → Archive R → Prop
  | done {q : DurableQueue R} {archive : Archive R} : Trims q archive q archive
  | drop {q q' : DurableQueue R} {archive archive' : Archive R} {id : Id} {receipt : Receipt R}
      (held : q.receipts.get id = some receipt)
      (rest : Trims (q.drop id) (update archive id (some (q.archived id receipt))) q' archive') :
      Trims q archive q' archive'

theorem Keys.drop (keys : q.Keys) : (q.drop id).Keys where
  receipts := Entries.nodup_delete keys.receipts
  requests := Entries.nodup_delete keys.requests
  failures := Entries.nodup_delete keys.failures

theorem Agree.drop {receipt : Receipt R} (agree : r.Agree q archive) (keys : q.Keys)
    (held : q.receipts.get id = some receipt) :
    r.Agree (q.drop id) (update archive id (some (q.archived id receipt))) where
  queue := agree.queue
  flags := ⟨agree.flags.inflight, agree.flags.unfinished, agree.flags.paused⟩
  resident := by
    intro other known there
    have there : (q.receipts.delete id).get other = some known := there
    have ne : other ≠ id := by
      rintro rfl
      rw [Entries.get_delete_self keys.receipts] at there
      cases there
    rw [Entries.get_delete_of_ne ne] at there
    obtain ⟨receipt, request, failure⟩ := agree.resident there
    refine ⟨receipt, request.trans ?_, failure.trans ?_⟩
    · exact (Entries.get_delete_of_ne ne).symm
    · exact (Entries.get_delete_of_ne ne).symm
  requested := by
    intro other absent
    show (q.requests.delete id).get other = none
    by_cases same : other = id
    · subst same
      exact Entries.get_delete_self keys.requests
    · rw [Entries.get_delete_of_ne same]
      exact agree.requested ((Entries.get_delete_of_ne same).symm.trans absent)
  elsewhere := by
    intro other absent
    by_cases same : other = id
    · subst same
      obtain ⟨receipt', request, failure⟩ := agree.resident held
      refine .archived (q.archived other receipt) (update_self ..) receipt' request ?_
      have dropped : (q.drop other).failures.get other = none :=
        Entries.get_delete_self keys.failures
      rw [dropped, failure]
      rfl
    · have absent : q.receipts.get other = none :=
        (Entries.get_delete_of_ne same).symm.trans absent
      have failures : (q.drop id).failures.get other = q.failures.get other :=
        Entries.get_delete_of_ne same
      cases agree.elsewhere absent with
      | nowhere receipt' request failure =>
        exact .nowhere receipt' request (by rw [failures, failure])
      | archived value stored receipt' request failure =>
        exact .archived value (by rwa [update_of_ne same]) receipt' request
          (by rw [failures, failure])

section Trims

variable {q' : DurableQueue R} {archive' : Archive R}

theorem Trims.agree (trims : Trims q archive q' archive') (keys : q.Keys)
    (agree : r.Agree q archive) : q'.Keys ∧ r.Agree q' archive' := by
  induction trims with
  | done => exact ⟨keys, agree⟩
  | drop held _ ih => exact ih keys.drop (agree.drop keys held)

theorem Trims.flags (trims : Trims q archive q' archive') : q'.queue = q.queue ∧
    q'.paused = q.paused ∧ q'.inflight = q.inflight ∧ q'.uncertain = q.uncertain := by
  induction trims with
  | done => exact ⟨rfl, rfl, rfl, rfl⟩
  | drop _ _ ih => exact ih

theorem Trims.extends (trims : Trims q archive q' archive') (keys : q.Keys) :
    q.Extends archive archive' ∧ ∀ id, q.receipts.get id = none → q'.receipts.get id = none := by
  induction trims with
  | done => exact ⟨.refl, fun _ absent => absent⟩
  | @drop q q' archive archive' id receipt held _ ih =>
    obtain ⟨more, fewer⟩ := ih keys.drop
    have absent_drop : ∀ other, q.receipts.get other = none →
        other ≠ id ∧ (q.drop id).receipts.get other = none := by
      intro other absent
      have ne : other ≠ id := by
        rintro rfl
        rw [held] at absent
        cases absent
      exact ⟨ne, (Entries.get_delete_of_ne ne).trans absent⟩
    constructor
    · intro other absent
      obtain ⟨ne, dropped⟩ := absent_drop other absent
      rw [more other dropped, update_of_ne ne]
    · intro other absent
      exact fewer other (absent_drop other absent).2

theorem Trims.trans {q'' : DurableQueue R} {archive'' : Archive R}
    (first : Trims q archive q' archive') (second : Trims q' archive' q'' archive'') :
    Trims q archive q'' archive'' := by
  induction first with
  | done => exact second
  | drop held _ ih => exact .drop held (ih second)

end Trims

/-- The archive with the entries written to it. -/
def stored (archive : Archive R) (entries : List (Id × Archived R)) : Archive R :=
  entries.foldl (fun archive entry => update archive entry.1 (some entry.2)) archive

theorem extends_stored {entries : List (Id × Archived R)}
    (known : ∀ entry ∈ entries, (q.receipts.get entry.1).isSome = true) :
    q.Extends archive (stored archive entries) := by
  induction entries generalizing archive with
  | nil => exact .refl
  | cons entry rest ih =>
    intro id absent
    have ne : id ≠ entry.1 := by
      rintro rfl
      have present := known entry (by simp)
      rw [absent] at present
      cases present
    have later : stored (update archive entry.1 (some entry.2)) rest id =
        update archive entry.1 (some entry.2) id :=
      ih (fun other mem => known other (by simp [mem])) id absent
    exact later.trans (update_of_ne ne ..)

theorem trimEntries_trims {limit : Nat} {byteLimit : Int} {pinned : List Id}
    {entries : Entries Id (Receipt R)} (distinct : (entries.map fst).Nodup)
    (held : ∀ entry ∈ entries, q.receipts.get entry.1 = some entry.2) :
    let trimmed := trimEntries limit byteLimit pinned q entries
    Trims q archive trimmed.1 (stored archive trimmed.2) ∧
      ∀ entry ∈ trimmed.2, (q.receipts.get entry.1).isSome = true := by
  induction entries generalizing q archive with
  | nil => exact ⟨.done, by simp [trimEntries]⟩
  | cons entry rest ih =>
    obtain ⟨id, receipt⟩ := entry
    obtain ⟨fresh, distinct⟩ := nodup_cons.mp distinct
    have head : q.receipts.get id = some receipt := held (id, receipt) (by simp)
    unfold trimEntries
    split
    · exact ⟨.done, by simp⟩
    · split
      · exact ih distinct fun entry mem => held entry (by simp [mem])
      · have others : ∀ entry ∈ rest, (q.drop id).receipts.get entry.1 = some entry.2 := by
          intro entry mem
          have ne : entry.1 ≠ id := fun same =>
            fresh (mem_map.mpr ⟨entry, mem, same⟩)
          exact (Entries.get_delete_of_ne ne).trans (held entry (by simp [mem]))
        refine ⟨.drop head (ih distinct others).1, ?_⟩
        intro entry mem
        obtain rfl | mem := mem_cons.mp mem
        · simp [head]
        · have present := (@ih (q.drop id) archive distinct others).2 entry mem
          by_cases same : entry.1 = id
          · rw [same, head]
            rfl
          · have still : (q.drop id).receipts.get entry.1 = q.receipts.get entry.1 :=
              Entries.get_delete_of_ne same
            rwa [still] at present

theorem trimReceipts_trims {limit : Nat} {byteLimit : Int} (keys : q.Keys) :
    let trimmed := q.trimReceipts limit byteLimit
    Trims q archive trimmed.1 (stored archive trimmed.2) ∧
      ∀ entry ∈ trimmed.2, (q.receipts.get entry.1).isSome = true := by
  unfold trimReceipts
  split
  · exact ⟨.done, by simp⟩
  · exact trimEntries_trims keys.receipts fun entry mem =>
      (Entries.mem_iff_get keys.receipts).mp mem

/-! ## Records -/

/-- The maps answer alike for an id. -/
structure SameAt (q q' : DurableQueue R) (id : Id) : Prop where
  receipts : q'.receipts.get id = q.receipts.get id
  requests : q'.requests.get id = q.requests.get id
  failures : q'.failures.get id = q.failures.get id

section Records

variable {r' q' : DurableQueue R}

/-- One id has a new receipt, in both. -/
theorem Agree.sets {receipt : Receipt R} (agree : r.Agree q archive) (queue : r'.queue = q'.queue)
    (flags : r'.SameFlags q') (live : q'.receipts.get id = some receipt)
    (same : SameAt q' r' id) (left : ∀ other ≠ id, SameAt r r' other)
    (right : ∀ other ≠ id, SameAt q q' other) : r'.Agree q' archive where
  queue := queue
  flags := flags
  resident := by
    intro other known there
    by_cases here : other = id
    · subst here
      rw [live, some.injEq] at there
      subst there
      exact ⟨same.receipts.trans live, same.requests, same.failures⟩
    · obtain ⟨receipts, requests, failures⟩ := left other here
      obtain ⟨receipts', requests', failures'⟩ := right other here
      rw [receipts, requests, failures, requests', failures']
      exact agree.resident (receipts' ▸ there)
  requested := by
    intro other absent
    have here : other ≠ id := by
      rintro rfl
      rw [live] at absent
      cases absent
    obtain ⟨receipts, requests, -⟩ := right other here
    rw [requests]
    exact agree.requested (receipts ▸ absent)
  elsewhere := by
    intro other absent
    have here : other ≠ id := by
      rintro rfl
      rw [live] at absent
      cases absent
    obtain ⟨receipts, requests, failures⟩ := left other here
    obtain ⟨receipts', -, failures'⟩ := right other here
    cases agree.elsewhere (receipts' ▸ absent) with
    | nowhere receipt request failure =>
      exact .nowhere (receipts ▸ receipt) (requests ▸ request)
        (by rw [failures, failures', failure])
    | archived value stored receipt request failure =>
      exact .archived value stored (receipts ▸ receipt) (requests ▸ request)
        (by rw [failures, failures', failure])

theorem Agree.same {r' q' : DurableQueue R} (agree : r.Agree q archive)
    (queue : r'.queue = q'.queue) (flags : r'.SameFlags q') (left : ∀ id, SameAt r r' id)
    (right : ∀ id, SameAt q q' id) : r'.Agree q' archive where
  queue := queue
  flags := flags
  resident := by
    intro id receipt there
    rw [(left id).receipts, (left id).requests, (left id).failures, (right id).requests,
      (right id).failures]
    exact agree.resident ((right id).receipts ▸ there)
  requested := by
    intro id absent
    rw [(right id).requests]
    exact agree.requested ((right id).receipts ▸ absent)
  elsewhere := by
    intro id absent
    cases agree.elsewhere ((right id).receipts ▸ absent) with
    | nowhere receipt request failure =>
      exact .nowhere ((left id).receipts ▸ receipt) ((left id).requests ▸ request)
        (by rw [(left id).failures, (right id).failures, failure])
    | archived value stored receipt request failure =>
      exact .archived value stored ((left id).receipts ▸ receipt) ((left id).requests ▸ request)
        (by rw [(left id).failures, (right id).failures, failure])

/-- Both have what a record needs: a new id, or what a result does not replace. -/
def Fits (r q : DurableQueue R) : Delta R → Prop
  | .enqueue item => q.receipts.get item.id = none ∧ r.receipts.get item.id = none
  | .remember id _ intent => q.receipts.get id = none →
      (intent = none → r.requests.get id = none) ∧ r.failures.get id = q.failures.get id
  | _ => True

/-- A failure is known of the same id in both. -/
theorem Agree.fails {error : Failure} (agree : r.Agree q archive) :
    Agree { r with failures := r.failures.set id error }
      { q with failures := q.failures.set id error } archive where
  queue := agree.queue
  flags := ⟨agree.flags.inflight, agree.flags.unfinished, agree.flags.paused⟩
  resident := by
    intro other receipt there
    obtain ⟨known, request, failure⟩ := agree.resident there
    refine ⟨known, request, ?_⟩
    show (r.failures.set id error).get other = (q.failures.set id error).get other
    by_cases same : other = id
    · rw [same, Entries.get_set_self, Entries.get_set_self]
    · rw [Entries.get_set_of_ne same, Entries.get_set_of_ne same, failure]
  requested := agree.requested
  elsewhere := by
    intro other absent
    cases agree.elsewhere absent with
    | nowhere receipt request failure =>
      refine .nowhere receipt request ?_
      show (r.failures.set id error).get other = (q.failures.set id error).get other
      by_cases same : other = id
      · rw [same, Entries.get_set_self, Entries.get_set_self]
      · rw [Entries.get_set_of_ne same, Entries.get_set_of_ne same, failure]
    | archived value stored receipt request failure =>
      refine .archived value stored receipt request ?_
      show (r.failures.set id error).get other =
        ((q.failures.set id error).get other).or value.failure
      by_cases same : other = id
      · rw [same, Entries.get_set_self, Entries.get_set_self]
        rfl
      · rw [Entries.get_set_of_ne same, Entries.get_set_of_ne same, failure]

theorem sameAt_set {receipts : Entries Id (Receipt R)} {requests : Entries Id Intent} {other : Id}
    (receipts_eq : receipts.get other = q.receipts.get other)
    (requests_eq : requests.get other = q.requests.get other) {queue : List Item} :
    SameAt q { q with queue, receipts, requests } other := ⟨receipts_eq, requests_eq, rfl⟩

/-- The maps and the items after a record; the flags are those of the record. -/
theorem Agree.applyDelta {delta : Delta R} (agree : r.Agree q archive) (fits : Fits r q delta) :
    (r.applyDelta none delta).Agree (q.applyDelta size delta) archive := by
  cases delta with
  | enqueue item =>
    obtain ⟨new, new'⟩ := fits
    simp only [DurableQueue.applyDelta, new, new', isSome_none, Bool.false_eq_true,
      if_false]
    have agreed : Agree
        { r with
          queue := r.queue ++ [item]
          receipts := r.receipts.set item.id (.item item)
          requests := r.requests.set item.id ⟨queueMethod, some item.text⟩ }
        { q with
          queue := q.queue ++ [item]
          receipts := q.receipts.set item.id (.item item)
          requests := q.requests.set item.id ⟨queueMethod, some item.text⟩ } archive := by
      refine agree.sets (congrArg (· ++ [item]) agree.queue)
        ⟨agree.flags.inflight, agree.flags.unfinished, agree.flags.paused⟩ Entries.get_set_self ?_
        (fun other ne => ?_) fun other ne => ?_
      · constructor
        · exact Entries.get_set_self.trans Entries.get_set_self.symm
        · exact Entries.get_set_self.trans Entries.get_set_self.symm
        · cases agree.elsewhere new with
          | nowhere _ _ failure => exact failure
          | archived value _ receipt _ _ =>
            rw [new'] at receipt
            cases receipt
      · exact sameAt_set (Entries.get_set_of_ne ne) (Entries.get_set_of_ne ne)
      · exact sameAt_set (Entries.get_set_of_ne ne) (Entries.get_set_of_ne ne)
    exact agreed.of_toSaved measure_toSaved measure_toSaved
  | claim id =>
    simp only [DurableQueue.applyDelta, agree.queue]
    cases q.queue with
    | nil => exact agree
    | cons head rest =>
      dsimp only
      split
      · exact agree.same rfl ⟨agree.flags.inflight, agree.flags.unfinished, agree.flags.paused⟩
          (fun _ => ⟨rfl, rfl, rfl⟩) fun _ => ⟨rfl, rfl, rfl⟩
      · exact agree
  | remember id result intent =>
    let remembered (q : DurableQueue R) : DurableQueue R := { q with
      receipts := q.receipts.set id (.result result)
      requests := noteIntent q.requests id intent }
    have others : ∀ q : DurableQueue R, ∀ other ≠ id, SameAt q (remembered q) other := by
      intro q other ne
      refine sameAt_set (Entries.get_set_of_ne ne) ?_
      cases intent with
      | none => rfl
      | some intent => exact Entries.get_set_of_ne ne
    -- what the live queue has of the id, the replay has too
    have known : (intent = none → r.requests.get id = q.requests.get id) ∧
        r.failures.get id = q.failures.get id := by
      cases held : q.receipts.get id with
      | some receipt =>
        obtain ⟨-, request, failure⟩ := agree.resident held
        exact ⟨fun _ => request, failure⟩
      | none =>
        obtain ⟨request, failure⟩ := fits held
        exact ⟨fun missing => by rw [request missing, agree.requested held], failure⟩
    have agreed : (remembered r).Agree (remembered q) archive := by
      refine agree.sets agree.queue
        ⟨agree.flags.inflight, agree.flags.unfinished, agree.flags.paused⟩ Entries.get_set_self ?_
        (others r) (others q)
      constructor
      · exact Entries.get_set_self.trans Entries.get_set_self.symm
      · cases intent with
        | none => exact known.1 rfl
        | some intent => exact Entries.get_set_self.trans Entries.get_set_self.symm
      · exact known.2
    exact agreed.of_toSaved measure_toSaved measure_toSaved
  | fail id error => exact agree.fails
  | clear =>
    exact agree.same rfl ⟨agree.flags.inflight, agree.flags.unfinished, agree.flags.paused⟩
      (fun _ => ⟨rfl, rfl, rfl⟩) fun _ => ⟨rfl, rfl, rfl⟩
  | state => exact agree

theorem Agree.apply {change : Change R} (agree : r.Agree q archive)
    (fits : Fits r q change.delta) : (r.apply none change).Agree (q.apply size change) archive := by
  have applied : (r.applyDelta none change.delta).Agree (q.applyDelta size change.delta) archive :=
    agree.applyDelta fits
  exact applied.same applied.queue ⟨rfl, rfl, rfl⟩ (fun _ => ⟨rfl, rfl, rfl⟩)
    fun _ => ⟨rfl, rfl, rfl⟩

theorem Keys.applyDelta {delta : Delta R} (keys : q.Keys) : (q.applyDelta size delta).Keys := by
  cases delta with
  | enqueue item =>
    simp only [DurableQueue.applyDelta]
    split
    · exact keys
    · have set : Keys { q with
          queue := q.queue ++ [item]
          receipts := q.receipts.set item.id (.item item)
          requests := q.requests.set item.id ⟨queueMethod, some item.text⟩ } :=
        ⟨Entries.nodup_set keys.receipts, Entries.nodup_set keys.requests, keys.failures⟩
      exact set.of_toSaved measure_toSaved
  | claim id =>
    simp only [DurableQueue.applyDelta]
    split
    · exact keys
    · split
      · exact ⟨keys.receipts, keys.requests, keys.failures⟩
      · exact keys
  | remember id result intent =>
    have set : Keys { q with
        receipts := q.receipts.set id (.result result)
        requests := noteIntent q.requests id intent } := by
      refine ⟨Entries.nodup_set keys.receipts, ?_, keys.failures⟩
      cases intent with
      | none => exact keys.requests
      | some intent => exact Entries.nodup_set keys.requests
    exact set.of_toSaved measure_toSaved
  | fail id error => exact ⟨keys.receipts, keys.requests, Entries.nodup_set keys.failures⟩
  | clear => exact ⟨keys.receipts, keys.requests, keys.failures⟩
  | state => exact keys

theorem Keys.apply {change : Change R} (keys : q.Keys) : (q.apply size change).Keys := by
  have applied : (q.applyDelta size change.delta).Keys := keys.applyDelta
  exact ⟨applied.receipts, applied.requests, applied.failures⟩

end Records

/-! ## Checkpoints and new processes -/

theorem replayed_checkpoint : (replayed [.checkpoint q.toSaved]).toSaved = q.toSaved := by
  simp only [replayed, foldl_cons, foldl_nil, replay, ofSaved_toSaved]

theorem agree_of_toSaved (same : r.toSaved = q.toSaved)
    (requested : ∀ {id}, q.receipts.get id = none → q.requests.get id = none) :
    r.Agree q archive := by
  have self : q.Agree q archive :=
    { queue := rfl
      flags := .refl
      resident := fun held => ⟨held, rfl, rfl⟩
      requested
      elsewhere := fun absent => .nowhere absent (requested absent) rfl }
  exact self.of_toSaved same rfl

theorem Agree.requested_replay (agree : r.Agree q archive) (absent : r.receipts.get id = none) :
    r.requests.get id = none := by
  cases held : q.receipts.get id with
  | some receipt =>
    have present := (agree.resident held).1
    rw [absent] at present
    cases present
  | none =>
    cases agree.elsewhere held with
    | nowhere _ request _ => exact request
    | archived value _ receipt _ _ =>
      rw [absent] at receipt
      cases receipt

theorem Keys.ofSaved (keys : r.Keys) : (ofSaved size r.toSaved).Keys := by
  constructor <;> rw [ofSaved_toSaved]
  · exact keys.receipts
  · exact keys.requests
  · exact keys.failures

theorem agree_ofSaved (requested : ∀ {id}, r.receipts.get id = none → r.requests.get id = none) :
    r.Agree (ofSaved size r.toSaved) archive := by
  let marked : DurableQueue R := { r with
    uncertain := r.unfinished
    paused := r.paused || r.unfinished.isSome }
  have flags : r.SameFlags marked := by
    have same : r.unfinished = marked.unfinished := by
      show r.uncertain.or r.inflight = (r.uncertain.or r.inflight).or r.inflight
      cases r.uncertain with
      | some item => rfl
      | none => cases r.inflight <;> rfl
    refine ⟨rfl, same, ?_⟩
    rw [← same]
    show _ = (r.paused || r.unfinished.isSome || r.unfinished.isSome)
    rw [Bool.or_assoc, Bool.or_self]
  have agree : r.Agree marked archive :=
    { queue := rfl
      flags
      resident := fun held => ⟨held, rfl, rfl⟩
      requested
      elsewhere := fun absent => .nowhere absent (requested absent) rfl }
  exact agree.of_toSaved rfl ofSaved_toSaved

theorem new_of_receipt {intent : Option Intent} (new : q.receipt archive id intent = .ok none) :
    q.receipts.get id = none ∧ archive id = none := by
  unfold DurableQueue.receipt at new
  cases held : q.receipts.get id with
  | some receipt =>
    simp only [held, isSome_some, if_true] at new
    split at new
    · cases new
    · split at new
      · cases new
      · simp at new
  | none =>
    simp only [held, isSome_none, Bool.false_eq_true, if_false] at new
    split at new
    · cases new
    · split at new
      · cases new
      · exact ⟨rfl, by simpa using new⟩

end DurableQueue

end Agentix.Queue
