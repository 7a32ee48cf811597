import Agentix.Queue.Agree
import Agentix.Queue.Durable

/-! # A delivery queue that is opened again

The journal is readable, and what it replays to agrees with the live queue, as long as no record
follows a fragment on its line and no result is remembered for an id that only the journal and the
archive know.
-/

namespace Agentix.Queue

open Lib List
open DurableQueue

variable {R : Type} {env : Settings R}

namespace State

def journaled (env : Settings R) (s : State R) : DurableQueue R :=
  replayed ((env.codec.read s.disk.file).getD [])

/-- There is no fragment before the record, and what it does not replace is the same in the journal
and in the live queue. -/
def Ready (env : Settings R) (s : State R) (change : Change R) (live : DurableQueue R) : Prop :=
  endOfLines s.disk.file = s.disk.file.length ∧
    ∀ id result intent, change.delta = .remember id result intent → live.receipts.get id = none →
      (intent = none → (s.journaled env).requests.get id = none) ∧
        (s.journaled env).failures.get id = live.failures.get id

/-- The record of an operation can be completed: it is refused, or a checkpoint comes first, or the
journal is ready for it. -/
def Completes (env : Settings R) (s : State R) (op : Op R) : Prop :=
  ∀ change, s.commit op = some change →
    (s.live.trimmed env).queue.admits change.delta = true → (s.live.trimmed env).due env = false →
    s.Ready env change (s.live.trimmed env).queue

/-- The condition on a step whose record is completed. -/
def Keeps (env : Settings R) (s : State R) : Step R → Prop
  | .run op fault => fault = none → s.Completes env op
  | .kill none => True
  | .kill (some (op, progress)) => ∀ change, s.commit op = some change →
      (line env change).length ≤ progress.written → s.Completes env op

structure Intact (env : Settings R) (s : State R) : Prop where
  keys : s.live.queue.Keys
  journal : ∃ records fragment, s.disk.file = env.codec.journal records ++ fragment ∧
    newline ∉ fragment ∧ (replayed records).Keys ∧
      (replayed records).Agree s.live.queue s.disk.archive

/-- The queue is opened with the items, the answers and the unfinished delivery of another. -/
structure Recovers (s s' : State R) : Prop where
  items : s'.live.queue.queue = s.live.queue.queue
  uncertain : s'.live.queue.uncertain = s.live.queue.unfinished
  paused : s'.live.queue.paused = (s.live.queue.paused || s.live.queue.unfinished.isSome)
  answers : ∀ id intent, s'.live.queue.receipt s'.disk.archive id intent =
    s.live.queue.receipt s.disk.archive id intent

end State

open State Option

variable {s s' : State R} {op : Op R} {change : Change R} {disk : Disk R}
  {records : List (Record R)} {fragment : Bytes} {archive : Archive R} {q : DurableQueue R}

/-! ## Writing files -/

variable {entries : List (Id × Archived R)}

theorem foldl_archives :
    (Live.archives entries).foldl (Disk.write env) disk =
      { disk with archive := stored disk.archive entries } := by
  induction entries generalizing disk with
  | nil => rfl
  | cons entry rest ih =>
    have step : (Live.archives (entry :: rest)).foldl (Disk.write env) disk =
        (Live.archives rest).foldl (Disk.write env)
          (disk.write env (.archive entry.1 entry.2)) := rfl
    rw [step, ih]
    rfl

theorem take_archives {count : Nat} :
    (Live.archives entries).take count = Live.archives (entries.take count) :=
  (map_take ..).symm

theorem trim_trims (keys : q.Keys) : Trims q archive (q.trim env).1 (stored archive (q.trim env).2) ∧
    ∀ entry ∈ (q.trim env).2, (q.receipts.get entry.1).isSome = true :=
  trimReceipts_trims keys

theorem extends_take {count : Nat}
    (known : ∀ entry ∈ entries, (q.receipts.get entry.1).isSome = true) :
    q.Extends archive (stored archive (entries.take count)) :=
  extends_stored fun entry mem => known entry (mem_of_mem_take mem)

/-! ## Opening -/

/-- A process that was killed has left the journal, with a fragment, and more receipts archived. -/
theorem openQueue_recovers (file : disk.file = env.codec.journal records ++ fragment)
    (clean : newline ∉ fragment) (keys : (replayed records).Keys)
    (agree : (replayed records).Agree s.live.queue s.disk.archive)
    (more : s.live.queue.Extends s.disk.archive disk.archive) :
    ∃ s', openQueue env disk = some s' ∧ s'.Intact env ∧ s.Recovers s' := by
  let r := replayed records
  let opened := ofSaved (some env.size) r.toSaved
  have requested : ∀ {id}, r.receipts.get id = none → r.requests.get id = none :=
    fun absent => agree.requested_replay absent
  have opened_keys : opened.Keys := keys.ofSaved
  have opened_agree : r.Agree opened disk.archive := agree_ofSaved requested
  obtain ⟨trims, -⟩ := @trim_trims R env disk.archive opened opened_keys
  obtain ⟨trimmed_keys, trimmed_agree⟩ := trims.agree opened_keys opened_agree
  obtain ⟨items, paused, inflight, uncertain⟩ := trims.flags
  have opened_flags : opened.uncertain = r.unfinished ∧
      opened.paused = (r.paused || r.unfinished.isSome) := by
    have saved : opened.toSaved = _ := ofSaved_toSaved
    rw [saved]
    exact ⟨rfl, rfl⟩
  let reopened : State R :=
    { live := ⟨(opened.trim env).1, disk.file.length, 0⟩
      disk := ⟨env.codec.journal records, stored disk.archive (opened.trim env).2⟩ }
  refine ⟨reopened, ?_,
    ⟨trimmed_keys, records, [], (append_nil _).symm, by simp, keys, trimmed_agree⟩, ?_⟩
  · unfold openQueue
    rw [file, env.codec.read_journal clean, map_some, env.codec.endOfLines_journal clean,
      take_left]
    dsimp only
    rw [foldl_archives, ← file]
    rfl
  · refine ⟨?_, ?_, ?_, fun id intent => receipt_of_known ?_ intent⟩
    · exact items.trans (opened_agree.queue.symm.trans agree.queue)
    · exact uncertain.trans (opened_flags.1.trans agree.flags.unfinished)
    · exact paused.trans (opened_flags.2.trans agree.flags.paused)
    · have trimmed_more := opened_agree.extends_replay (trims.extends opened_keys).1
      rw [trimmed_agree.known, known_of_extends trimmed_more,
        known_of_extends (agree.extends_replay more), ← agree.known]

/-- A process that is killed between two operations. -/
theorem State.Intact.opens (intact : s.Intact env) :
    ∃ s', openQueue env s.disk = some s' ∧ s'.Intact env ∧ s.Recovers s' := by
  obtain ⟨records, fragment, file, clean, keys, agree⟩ := intact.journal
  exact openQueue_recovers file clean keys agree Extends.refl

/-! ## One operation -/

theorem commit_new {item : Item} (committed : s.commit op = some change)
    (enqueues : change.delta = .enqueue item) :
    s.live.queue.receipts.get item.id = none ∧ s.disk.archive item.id = none := by
  unfold State.commit DurableQueue.commit at committed
  cases op with
  | enqueue id text =>
    dsimp only at committed
    split at committed
    · cases committed
    · split at committed
      · rename_i new
        cases committed
        cases enqueues
        exact new_of_receipt new
      · cases committed
  | claim =>
    obtain ⟨item, -, rfl⟩ := map_eq_some_iff.mp committed
    cases enqueues
  | fail id bridgeCode message uncertain =>
    dsimp only at committed
    split at committed <;> cases committed <;> cases enqueues
  | resume =>
    dsimp only at committed
    split at committed <;> cases committed
    cases enqueues
  | remember id result delivery intent => cases committed; cases enqueues
  | finish interrupted => cases committed; cases enqueues
  | markUncertain => cases committed; cases enqueues
  | pause => cases committed; cases enqueues
  | clear idle => cases committed; cases enqueues

/-- The trimmed queue with the files before the record of an operation. -/
structure Prepared (env : Settings R) (s : State R) (live : DurableQueue R) (disk : Disk R)
    (due : Bool) : Prop where
  trims : Trims s.live.queue s.disk.archive live disk.archive
  journal : ∃ records fragment, disk.file = env.codec.journal records ++ fragment ∧
    newline ∉ fragment ∧ (replayed records).Keys ∧ (replayed records).Agree live disk.archive ∧
      if due then fragment = [] ∧ (replayed records).toSaved = live.toSaved
      else disk.file = s.disk.file

theorem trimmed_prepared (intact : s.Intact env) :
    Prepared env s (s.live.trimmed env).queue
      { s.disk with archive := stored s.disk.archive (s.live.queue.trim env).2 } false := by
  obtain ⟨records, fragment, file, clean, keys, agree⟩ := intact.journal
  obtain ⟨trims, -⟩ := @trim_trims R env s.disk.archive s.live.queue intact.keys
  exact ⟨trims, records, fragment, file, clean, keys, (trims.agree intact.keys agree).2, rfl⟩

theorem checkpointed_prepared (intact : s.Intact env)
    (admitted : (s.live.trimmed env).queue.admits change.delta = true) :
    Prepared env s (s.live.checkpointed env).queue
      ((s.live.writes env change).foldl (Disk.write env) s.disk) ((s.live.trimmed env).due env) := by
  have trimmed := trimmed_prepared intact
  unfold Live.writes Live.checkpointed
  rw [admitted, Bool.true_and]
  cases due : (s.live.trimmed env).due env with
  | false =>
    rw [if_neg (by simp), if_neg (by simp), foldl_archives]
    exact trimmed
  | true =>
    obtain ⟨trims, records, fragment, -, -, -, agree, -⟩ := trimmed
    obtain ⟨keys, -⟩ := trims.agree intact.keys (intact.journal.choose_spec.choose_spec.2.2.2)
    let archive := stored s.disk.archive (s.live.queue.trim env).2
    let q := (s.live.trimmed env).queue
    obtain ⟨trims', -⟩ := @trim_trims R env archive q keys
    obtain ⟨keys', agree'⟩ := trims'.agree keys agree
    rw [if_pos rfl, if_pos rfl, foldl_append, foldl_append, foldl_archives,
      foldl_archives]
    have same : (replayed [.checkpoint (q.trim env).1.toSaved]).toSaved = (q.trim env).1.toSaved :=
      replayed_checkpoint
    refine ⟨trims.trans trims', [.checkpoint (q.trim env).1.toSaved], [], ?_, by simp, ?_, ?_, ?_⟩
    · simp [Codec.journal, Disk.write, q]
    · exact keys'.of_toSaved same
    · exact agree_of_toSaved same agree'.requested
    · exact ⟨rfl, same⟩

section Prepared

variable {live : DurableQueue R} {due : Bool}

variable {count journalBytes : Nat}

theorem Prepared.keys (prepared : Prepared env s live disk due) (intact : s.Intact env) :
    live.Keys := by
  obtain ⟨_, _, _, _, _, agree⟩ := intact.journal
  exact (prepared.trims.agree intact.keys agree).1

theorem Prepared.fails (prepared : Prepared env s live disk due) (intact : s.Intact env)
    {part : Bytes} (clean : newline ∉ part) :
    State.Intact env ⟨⟨live, journalBytes, count⟩, { disk with file := disk.file ++ part }⟩ := by
  obtain ⟨records, fragment, file, unbroken, keys, agree, -⟩ := prepared.journal
  refine ⟨prepared.keys intact, records, fragment ++ part, ?_, ?_, keys, agree⟩
  · rw [file, append_assoc]
  · simp [unbroken, clean]

theorem Prepared.fits (prepared : Prepared env s live disk due) (intact : s.Intact env)
    (committed : s.commit op = some change)
    (complete : due = false → s.Ready env change live) :
    ∃ records, disk.file = env.codec.journal records ∧ (replayed records).Keys ∧
      (replayed records).Agree live disk.archive ∧ Fits (replayed records) live change.delta := by
  obtain ⟨records, fragment, file, clean, keys, agree, rest⟩ := prepared.journal
  obtain ⟨more, fewer⟩ := prepared.trims.extends intact.keys
  have empty : fragment = [] := by
    cases due with
    | true => exact rest.1
    | false =>
      obtain ⟨whole, -⟩ := complete rfl
      have file' : s.disk.file = _ := rest.symm.trans file
      rw [file', env.codec.endOfLines_journal clean, length_append] at whole
      exact length_eq_zero_iff.mp (by omega)
  subst empty
  rw [append_nil] at file
  refine ⟨records, file, keys, agree, ?_⟩
  cases delta : change.delta with
  | enqueue item =>
    obtain ⟨absent, unarchived⟩ := commit_new committed delta
    have absent' := fewer item.id absent
    refine ⟨absent', ?_⟩
    cases agree.elsewhere absent' with
    | nowhere receipt _ _ => exact receipt
    | archived value stored _ _ _ =>
      rw [more item.id absent, unarchived] at stored
      cases stored
  | remember id result intent =>
    intro absent
    cases due with
    | true =>
      have same : (replayed records).toSaved = live.toSaved := rest.2
      rw [same]
      exact ⟨fun _ => agree.requested absent, rfl⟩
    | false =>
      have file' : s.disk.file = env.codec.journal records := rest.symm.trans file
      have journaled : s.journaled env = replayed records := by
        have read : env.codec.read (env.codec.journal records ++ []) = some records :=
          env.codec.read_journal (by simp)
        rw [append_nil] at read
        rw [State.journaled, file', read]
        rfl
      rw [← journaled]
      exact (complete rfl).2 id result intent delta absent
  | claim id => trivial
  | fail id error => trivial
  | clear => trivial
  | state => trivial

theorem replayed_snoc {records : List (Record R)} : replayed (records ++ [.change change]) =
    (replayed records).apply none change := by
  simp [replayed, replay]

theorem Prepared.completes (prepared : Prepared env s live disk due) (intact : s.Intact env)
    (committed : s.commit op = some change) (complete : due = false → s.Ready env change live) :
    State.Intact env ⟨⟨live.apply (some env.size) change, journalBytes, count⟩,
      { disk with file := disk.file ++ State.line env change }⟩ := by
  obtain ⟨records, file, keys, agree, fits⟩ := prepared.fits intact committed complete
  refine ⟨(prepared.keys intact).apply, records ++ [.change change], [], ?_, by simp, ?_, ?_⟩
  · rw [file, env.codec.journal_snoc, append_nil]
    rfl
  · rw [replayed_snoc]
    exact keys.apply
  · rw [replayed_snoc]
    exact agree.apply fits

theorem Prepared.recovers (prepared : Prepared env s live disk due) (intact : s.Intact env)
    {file : Bytes}
    (recovers : State.Recovers ⟨⟨live, journalBytes, count⟩, { disk with file }⟩ s') :
    s.Recovers s' := by
  obtain ⟨items, paused, inflight, uncertain⟩ := prepared.trims.flags
  have unfinished : live.unfinished = s.live.queue.unfinished := by
    unfold DurableQueue.unfinished
    rw [uncertain, inflight]
  obtain ⟨records, fragment, -, -, -, agree⟩ := intact.journal
  have agree' := (prepared.trims.agree intact.keys agree).2
  have more := agree.extends_replay (prepared.trims.extends intact.keys).1
  constructor
  · exact recovers.items.trans items
  · exact recovers.uncertain.trans unfinished
  · rw [recovers.paused]
    show (live.paused || live.unfinished.isSome) = _
    rw [paused, unfinished]
  · intro id intent
    refine (recovers.answers id intent).trans (receipt_of_known ?_ intent)
    rw [agree'.known, known_of_extends more, ← agree.known]

end Prepared

/-! ## Steps -/

theorem dropLast_line : (State.line env change).dropLast = env.codec.encode (.change change) := by
  simp [State.line, Codec.line]

theorem newline_notMem_part {part : Nat} :
    newline ∉ (State.line env change).dropLast.take part := by
  rw [dropLast_line]
  exact fun mem => env.codec.newline_notMem _ (mem_of_mem_take mem)

theorem State.Intact.persist (intact : s.Intact env) (committed : s.commit op = some change)
    {fault : Option Nat} (complete : fault = none → s.Completes env op) :
    (s.persist env change fault).Intact env := by
  unfold State.persist
  dsimp only
  split
  · rename_i admitted
    have prepared := checkpointed_prepared intact admitted
    cases fault with
    | none =>
      refine prepared.completes intact committed fun soon => ?_
      have same : s.live.checkpointed env = s.live.trimmed env := by
        rw [Live.checkpointed, if_neg (by simp [soon])]
      rw [same]
      exact complete rfl change committed admitted soon
    | some written => exact prepared.fails intact newline_notMem_part
  · rename_i refused
    have written : s.live.writes env change = Live.archives (s.live.queue.trim env).2 := by
      unfold Live.writes
      rw [if_neg (by simp [refused])]
    have trimmed := trimmed_prepared intact
    obtain ⟨records, fragment, file, clean, keys, agree, -⟩ := trimmed.journal
    rw [written, foldl_archives]
    exact ⟨trimmed.keys intact, records, fragment, file, clean, keys, agree⟩

theorem State.Intact.operate (intact : s.Intact env) {fault : Option Nat}
    (complete : fault = none → s.Completes env op) : (s.operate env op fault).Intact env := by
  unfold State.operate
  cases committed : s.commit op with
  | none => exact intact
  | some change => exact intact.persist committed complete

theorem writes_archives (intact : s.Intact env) : ∃ entries rest,
    s.live.writes env change = Live.archives entries ++ rest ∧ rest.length ≤ 1 ∧
      (∀ entry ∈ entries, (s.live.queue.receipts.get entry.1).isSome = true) ∧
      ((s.live.trimmed env).queue.admits change.delta = false → rest = []) := by
  obtain ⟨trims, resident⟩ := @trim_trims R env s.disk.archive s.live.queue intact.keys
  obtain ⟨-, fewer⟩ := trims.extends intact.keys
  have keys := (trims.agree intact.keys intact.journal.choose_spec.choose_spec.2.2.2).1
  obtain ⟨-, resident'⟩ := @trim_trims R env s.disk.archive (s.live.trimmed env).queue keys
  unfold Live.writes
  dsimp only
  split
  · rename_i admitted
    refine ⟨(s.live.queue.trim env).2 ++ ((s.live.trimmed env).queue.trim env).2,
      [.checkpoint (s.live.checkpointed env).queue.toSaved], ?_, Nat.le_refl _, ?_, ?_⟩
    · rw [Live.archives, Live.archives, Live.archives, map_append]
    · intro entry mem
      obtain first | second := mem_append.mp mem
      · exact resident entry first
      · cases held : s.live.queue.receipts.get entry.1 with
        | some receipt => rfl
        | none =>
          have present := resident' entry second
          rw [show (s.live.trimmed env).queue.receipts.get entry.1 = none from fewer _ held]
            at present
          cases present
    · intro refused
      rw [refused] at admitted
      cases admitted
  · exact ⟨(s.live.queue.trim env).2, [], (append_nil _).symm, Nat.zero_le _, resident,
      fun _ => rfl⟩

theorem State.Intact.torn {progress : State.Progress} (intact : s.Intact env)
    (keeps : s.Keeps env (.kill (some (op, progress)))) :
    ∃ s', openQueue env (s.torn env op progress) = some s' ∧ s'.Intact env ∧
      (s.Recovers s' ∨ (s.operate env op none).Recovers s') := by
  obtain ⟨records, fragment, file, clean, keys, agree⟩ := intact.journal
  unfold State.torn
  cases committed : s.commit op with
  | none =>
    obtain ⟨s', opened, intact', recovers⟩ := intact.opens
    exact ⟨s', opened, intact', .inl recovers⟩
  | some change =>
    dsimp only
    obtain ⟨entries, rest, writes, short, resident, refusal⟩ := @writes_archives R env s change intact
    -- files of the archive only
    have partly : ∀ count, ∃ s',
        openQueue env ((Live.archives (entries.take count)).foldl (Disk.write env) s.disk) =
          some s' ∧ s'.Intact env ∧ (s.Recovers s' ∨ (s.operate env op none).Recovers s') := by
      intro count
      rw [foldl_archives]
      let more : Disk R := { s.disk with archive := stored s.disk.archive (entries.take count) }
      have file' : more.file = env.codec.journal records ++ fragment := file
      obtain ⟨s', opened, intact', recovers⟩ :=
        openQueue_recovers file' clean keys agree (extends_take resident)
      exact ⟨s', opened, intact', .inl recovers⟩
    split
    · rename_i reached
      simp only [Bool.and_eq_true, decide_eq_true_eq] at reached
      obtain ⟨admitted, all⟩ := reached
      rw [take_of_length_le all]
      have prepared := checkpointed_prepared intact admitted
      by_cases cut : progress.written < (State.line env change).length
      · have part_clean : newline ∉ (State.line env change).take progress.written :=
          env.codec.newline_notMem_take cut
        have failed : State.Intact env ⟨⟨(s.live.checkpointed env).queue, 0, 0⟩, { (s.live.writes env
            change).foldl (Disk.write env) s.disk with
          file := ((s.live.writes env change).foldl (Disk.write env) s.disk).file ++
            (State.line env change).take progress.written }⟩ :=
          prepared.fails intact part_clean
        obtain ⟨s', opened, intact', recovers⟩ := failed.opens
        exact ⟨s', opened, intact', .inl (prepared.recovers intact recovers)⟩
      · -- the whole record
        have whole := Nat.le_of_not_lt cut
        have done : (s.operate env op none).Intact env :=
          intact.operate fun _ => keeps change committed whole
        obtain ⟨s', opened, intact', recovers⟩ := done.opens
        refine ⟨s', ?_, intact', .inr recovers⟩
        rw [take_of_length_le whole, ← opened]
        unfold State.operate State.persist
        rw [committed]
        dsimp only
        rw [if_pos admitted]
    · rename_i early
      have taken : ∃ count, (s.live.writes env change).take progress.files =
          Live.archives (entries.take count) := by
        cases admitted : (s.live.trimmed env).queue.admits change.delta with
        | false =>
          rw [writes, refusal admitted, append_nil, take_archives]
          exact ⟨progress.files, rfl⟩
        | true =>
          have before : progress.files < (s.live.writes env change).length := by
            simpa [admitted] using early
          have within : progress.files ≤ (Live.archives entries).length := by
            rw [writes, length_append] at before
            omega
          rw [writes, take_append_of_le_length within, take_archives]
          exact ⟨progress.files, rfl⟩
      obtain ⟨count, taken⟩ := taken
      rw [taken]
      exact partly count

end Agentix.Queue
