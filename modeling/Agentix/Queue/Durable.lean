import Agentix.Lib.Entries
import Agentix.Lib.Journal
import Agentix.Lib.Json
import Agentix.Lib.Run
import Mathlib.Algebra.GroupWithZero.Nat
import Mathlib.Data.List.Basic
import Mathlib.Logic.Function.Basic

/-! # Durable delivery state

The host owns execution; the queue never sends a prompt.  An operation makes a record, which is
persisted before it is applied, and a replay applies the records again.
-/

namespace Agentix.Queue

open Lib

abbrev Id := JsString

structure Item where
  id : Id
  text : JsString
  deriving DecidableEq

structure Intent where
  method : JsString
  text : Option JsString
  deriving DecidableEq

/-- The `code` and the `message` of an error. -/
structure Failure where
  code : JsString
  message : JsString
  deriving DecidableEq

/-- What has been answered: the queued item, or a result of the host. -/
inductive Receipt (R : Type) where
  | item (item : Item)
  | result (result : R)
  deriving DecidableEq

/-- A receipt that has left the working set. -/
structure Archived (R : Type) where
  receipt : Receipt R
  request : Option Intent
  failure : Option Failure

/-- The files of the archive, by the ids of their receipts. -/
abbrev Archive (R : Type) := Id → Option (Archived R)

/-- `state()`. -/
structure Saved (R : Type) where
  queue : List Item
  paused : Bool
  inflight : Option Item
  uncertain : Option Item
  receipts : Entries Id (Receipt R)
  requests : Entries Id Intent
  failures : Entries Id Failure
  deriving DecidableEq

def Saved.empty {R : Type} : Saved R := ⟨[], false, none, none, [], [], []⟩

/-- The bytes of the text of a receipt with its id and its request. -/
abbrev Size (R : Type) := Id → Option (Receipt R) → Option Intent → Nat

inductive Delta (R : Type) where
  | enqueue (item : Item)
  | claim (id : Id)
  | remember (id : Id) (result : R) (intent : Option Intent)
  | fail (id : Id) (error : Failure)
  | clear
  | state
  deriving DecidableEq

/-- An incremental record. -/
structure Change (R : Type) where
  delta : Delta R
  paused : Bool
  inflight : Option Item
  uncertain : Option Item
  deriving DecidableEq

inductive Record (R : Type) where
  | checkpoint (saved : Saved R)
  | change (change : Change R)
  deriving DecidableEq

/-- The items that are left, with the receipts that are resident. -/
structure DurableQueue (R : Type) extends Saved R where
  receiptBytes : Int
  receiptSizes : Entries Id Nat

namespace DurableQueue

variable {R : Type} (size : Option (Size R)) (q : DurableQueue R)

/-- Receipts are measured where there is an archive. -/
def measure (id : Id) : DurableQueue R :=
  match size with
  | none => q
  | some size =>
    let bytes := size id (q.receipts.get id) (q.requests.get id)
    { q with
      receiptBytes := q.receiptBytes - ((q.receiptSizes.get id).getD 0 : Nat) + bytes
      receiptSizes := q.receiptSizes.set id bytes }

/-- The constructor: what is in flight is uncertain. -/
def ofSaved (saved : Saved R) : DurableQueue R :=
  let uncertain := saved.uncertain.or saved.inflight
  let q : DurableQueue R := { saved with
    uncertain
    paused := saved.paused || uncertain.isSome
    receiptBytes := 0
    receiptSizes := [] }
  saved.receipts.foldl (fun q entry => q.measure size entry.1) q

/-- The ids that are still needed. -/
def pinned : List Id :=
  q.queue.map Item.id ++ (q.inflight.toList ++ q.uncertain.toList).map Item.id

def drop (id : Id) : DurableQueue R :=
  { q with
    receipts := q.receipts.delete id
    requests := q.requests.delete id
    failures := q.failures.delete id
    receiptBytes := q.receiptBytes - ((q.receiptSizes.get id).getD 0 : Nat)
    receiptSizes := q.receiptSizes.delete id }

def fits (limit : Nat) (byteLimit : Int) : Bool :=
  q.receipts.length ≤ limit && q.receiptBytes ≤ byteLimit

def archived (id : Id) (receipt : Receipt R) : Archived R :=
  ⟨receipt, q.requests.get id, q.failures.get id⟩

def trimEntries (limit : Nat) (byteLimit : Int) (pinned : List Id) :
    DurableQueue R → Entries Id (Receipt R) → DurableQueue R × List (Id × Archived R)
  | q, [] => (q, [])
  | q, (id, receipt) :: rest =>
    if q.fits limit byteLimit then (q, [])
    else if pinned.contains id then trimEntries limit byteLimit pinned q rest
    else
      let (trimmed, archived) := trimEntries limit byteLimit pinned (q.drop id) rest
      (trimmed, (id, q.archived id receipt) :: archived)

def trimReceipts (limit : Nat) (byteLimit : Int) : DurableQueue R × List (Id × Archived R) :=
  if q.fits limit byteLimit then (q, [])
  else trimEntries limit byteLimit q.pinned q q.receipts

def invalidRequest : Failure :=
  ⟨"invalid_request".toList.map fun c => .ofNat c.toNat,
    "request_id already belongs to a different request".toList.map fun c => .ofNat c.toNat⟩

/-- Whether a request that is known differs from the intent. -/
def differs (original intent : Option Intent) : Bool :=
  match original, intent with
  | some original, some intent => original ≠ intent
  | _, _ => false

/-- `receipt(id, intent)`; an error is thrown. -/
def receipt (archive : Archive R) (id : Id) (intent : Option Intent) :
    Except Failure (Option (Receipt R)) :=
  let archived := if (q.receipts.get id).isSome then none else archive id
  if differs ((q.requests.get id).or (archived.bind Archived.request)) intent then
    .error invalidRequest
  else
    match (q.failures.get id).or (archived.bind Archived.failure) with
    | some rejected => .error rejected
    | none => .ok ((q.receipts.get id).or (archived.map Archived.receipt))

def queueMethod : JsString := "queue".toList.map fun c => .ofNat c.toNat

def noteIntent (requests : Entries Id Intent) (id : Id) : Option Intent → Entries Id Intent
  | none => requests
  | some intent => requests.set id intent

def applyDelta : Delta R → DurableQueue R
  | .enqueue item =>
    if (q.receipts.get item.id).isSome then q
    else
      measure size { q with
        queue := q.queue ++ [item]
        receipts := q.receipts.set item.id (.item item)
        requests := q.requests.set item.id ⟨queueMethod, some item.text⟩ } item.id
  | .claim id =>
    match q.queue with
    | [] => q
    | head :: rest => if head.id = id then { q with queue := rest } else q
  | .remember id result intent =>
    measure size { q with
      receipts := q.receipts.set id (.result result)
      requests := noteIntent q.requests id intent } id
  | .fail id error => { q with failures := q.failures.set id error }
  | .clear => { q with queue := [] }
  | .state => q

def apply (change : Change R) : DurableQueue R :=
  { q.applyDelta size change.delta with
    paused := change.paused
    inflight := change.inflight
    uncertain := change.uncertain }

def replay (q : DurableQueue R) : Record R → DurableQueue R
  | .checkpoint saved =>
    { ofSaved none saved with
      inflight := saved.inflight
      uncertain := saved.uncertain
      paused := saved.paused }
  | .change change => q.apply none change

def replayed (records : List (Record R)) : DurableQueue R :=
  records.foldl replay (ofSaved none .empty)

/-- `restore(records)`. -/
def restore (records : List (Record R)) : Saved R := (replayed records).toSaved

/-! ## Operations -/

def peek : Option Item := if q.paused || q.inflight.isSome then none else q.queue.head?

end DurableQueue

inductive Op (R : Type) where
  | enqueue (id : Id) (text : JsString)
  | claim
  | remember (id : Id) (result : R) (delivery : Option Item) (intent : Option Intent)
  /-- The `bridgeCode` and the `message` of the error. -/
  | fail (id : Id) (bridgeCode : Option JsString) (message : JsString) (uncertain : Bool)
  | finish (interrupted : Bool)
  | markUncertain
  | pause
  | resume
  | clear (idle : Bool)
  deriving DecidableEq

def hostError : JsString := "host_error".toList.map fun c => .ofNat c.toNat

namespace DurableQueue

variable {R : Type} (q : DurableQueue R)

/-- The record that an operation commits, unless it throws or returns before that. -/
def commit (archive : Archive R) : Op R → Option (Change R)
  | .enqueue id text =>
    if isBlank text ∨ id = [] then none
    else
      match q.receipt archive id (some ⟨queueMethod, some text⟩) with
      | .ok none => some ⟨.enqueue ⟨id, text⟩, q.paused, q.inflight, q.uncertain⟩
      | _ => none
  | .claim => q.peek.map fun item => ⟨.claim item.id, q.paused, some item, q.uncertain⟩
  | .remember id result delivery intent =>
    some ⟨.remember id result intent, q.paused, delivery.or q.inflight, q.uncertain⟩
  | .fail id bridgeCode message uncertain =>
    let error : Failure := ⟨bridgeCode.getD hostError, message⟩
    if uncertain then some ⟨.fail id error, true, q.inflight, q.inflight⟩
    else some ⟨.fail id error, q.paused, q.inflight, q.uncertain⟩
  | .finish interrupted => some ⟨.state, q.paused || interrupted, none, q.uncertain⟩
  | .markUncertain => some ⟨.state, true, q.inflight, q.inflight⟩
  | .pause => some ⟨.state, true, q.inflight, q.uncertain⟩
  | .resume =>
    if q.uncertain.isSome then none else some ⟨.state, false, q.inflight, q.uncertain⟩
  | .clear idle => some ⟨.clear, false, if idle then none else q.inflight, none⟩

end DurableQueue

end Agentix.Queue

/-! # The files of a delivery queue

A journal that is replaced by a checkpoint from time to time, and an archive with a file for each
receipt that left the working set.  An operation writes these files one after the other, and its own
record last.
-/

namespace Agentix.Queue

open Lib
open Function (update)

variable {R : Type}

structure Settings (R : Type) where
  maxReceipts : Nat
  checkpointRecords : Nat
  size : Size R
  codec : Codec (Record R)

structure Disk (R : Type) where
  file : Bytes
  archive : Archive R

/-- A file is replaced as a whole. -/
inductive Write (R : Type) where
  | archive (id : Id) (value : Archived R)
  | checkpoint (saved : Saved R)

structure Live (R : Type) where
  queue : DurableQueue R
  journalBytes : Nat
  recordsSinceCheckpoint : Nat

structure State (R : Type) where
  live : Live R
  disk : Disk R

section Files

variable (env : Settings R)

def Disk.write (disk : Disk R) : Write R → Disk R
  | .archive id value => { disk with archive := update disk.archive id (some value) }
  | .checkpoint saved => { disk with file := env.codec.line (.checkpoint saved) }

def byteLimit : Nat := 1024 * 1024

def DurableQueue.trim (q : DurableQueue R) : DurableQueue R × List (Id × Archived R) :=
  q.trimReceipts env.maxReceipts byteLimit

/-- The capacity of the host. -/
def DurableQueue.admits (q : DurableQueue R) (delta : Delta R) : Bool :=
  match delta with
  | .enqueue item =>
    byteLength item.text ≤ 256 * 1024 && q.queue.length < 128 &&
      (q.queue.map fun queued => byteLength queued.text).sum + byteLength item.text ≤
        8 * 1024 * 1024
  | .remember _ _ intent => byteLength ((intent.bind Intent.text).getD []) ≤ 256 * 1024
  | _ => true

namespace Live

variable (live : Live R)

def due : Bool :=
  env.checkpointRecords ≤ live.recordsSinceCheckpoint || byteLimit ≤ live.journalBytes

def archives (archived : List (Id × Archived R)) : List (Write R) :=
  archived.map fun entry => .archive entry.1 entry.2

/-- The working set is trimmed, and a checkpoint is made where one is due. -/
def trimmed : Live R := { live with queue := (live.queue.trim env).1 }

def checkpointed : Live R :=
  if (live.trimmed env).due env then ⟨((live.trimmed env).queue.trim env).1, 0, 0⟩
  else live.trimmed env

/-- What is written before the record. -/
def writes (change : Change R) : List (Write R) :=
  let first := archives (live.queue.trim env).2
  if (live.trimmed env).queue.admits change.delta && (live.trimmed env).due env then
    first ++ archives ((live.trimmed env).queue.trim env).2 ++
      [.checkpoint (live.checkpointed env).queue.toSaved]
  else first

def appended (change : Change R) : Live R :=
  let ready := live.checkpointed env
  { queue := ready.queue.apply (some env.size) change
    journalBytes := ready.journalBytes + (env.codec.line (.change change)).length
    recordsSinceCheckpoint := ready.recordsSinceCheckpoint + 1 }

end Live

namespace State

variable (s : State R)

def commit (op : Op R) : Option (Change R) := s.live.queue.commit s.disk.archive op

def line (change : Change R) : Bytes := env.codec.line (.change change)

/-- The operation persists its record and applies it.  Where the append fails, a proper part of the
line is left in the file. -/
def persist (change : Change R) (fault : Option Nat) : State R :=
  let disk := (s.live.writes env change).foldl (Disk.write env) s.disk
  if (s.live.trimmed env).queue.admits change.delta then
    match fault with
    | none => ⟨s.live.appended env change, { disk with file := disk.file ++ line env change }⟩
    | some written =>
      ⟨s.live.checkpointed env, { disk with file := disk.file ++ (line env change).dropLast.take written }⟩
  else ⟨s.live.trimmed env, disk⟩

def operate (op : Op R) (fault : Option Nat) : State R :=
  match s.commit op with
  | none => s
  | some change => s.persist env change fault

/-- How far an operation came: the files that it has written, and the bytes of its record. -/
structure Progress where
  files : Nat
  written : Nat

/-- What a process leaves that is killed in an operation. -/
def torn (op : Op R) (progress : Progress) : Disk R :=
  match s.commit op with
  | none => s.disk
  | some change =>
    let writes := s.live.writes env change
    let disk := (writes.take progress.files).foldl (Disk.write env) s.disk
    if (s.live.trimmed env).queue.admits change.delta && writes.length ≤ progress.files then
      { disk with file := disk.file ++ (line env change).take progress.written }
    else disk

end State

/-- `openQueue` on a file that exists; `none` where a line cannot be read. -/
def openQueue (disk : Disk R) : Option (State R) :=
  (env.codec.read disk.file).map fun records =>
    let opened := (DurableQueue.ofSaved (some env.size) (DurableQueue.restore records)).trim env
    { live := ⟨opened.1, disk.file.length, 0⟩
      disk := (Live.archives opened.2).foldl (Disk.write env)
        { disk with file := disk.file.take (endOfLines disk.file) } }

/-- `openQueue` where there is no file: the first record has no items. -/
def openNew (archive : Archive R) : State R :=
  let line := env.codec.line (.checkpoint .empty)
  { live := ⟨DurableQueue.ofSaved (some env.size) .empty, line.length, 1⟩
    disk := ⟨line, archive⟩ }

inductive Step (R : Type) where
  | run (op : Op R) (fault : Option Nat)
  /-- Killed between two operations, or in one, and opened again. -/
  | kill (during : Option (Op R × State.Progress))

def State.step (s : State R) : Step R → Option (State R)
  | .run op fault => some (s.operate env op fault)
  | .kill none => openQueue env s.disk
  | .kill (some (op, progress)) => openQueue env (s.torn env op progress)

def system : System (State R) (Step R) := .ofStep (openNew env fun _ => none) (State.step env)

end Files

end Agentix.Queue
