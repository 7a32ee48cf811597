import Agentix.Lib.Entries
import Agentix.Lib.Json
import Agentix.Lib.Rows
import Agentix.Lib.Run
import Mathlib.Logic.Function.Basic

/-! # A Claude session

Converts lifecycle hooks and delivery receipts to the bridge contract.  A step is a task of the
event loop: a request, a hook, a timer or the end of a delivery.  The delivery of a prompt starts in
the microtask that the request leaves behind, before any other task.
-/

namespace Agentix.Claude

open Lib Prod
open Function (update)

/-- A UUID of the transcript, or a random one, numbered as it is made. -/
inductive TurnId where
  | native (uuid : JsString)
  | random (number : Nat)
  deriving DecidableEq

abbrev RequestId := JsString

inductive TurnStatus where
  | inProgress
  | completed
  | interrupted
  | failed
  | unknown
  deriving DecidableEq

/-- `V` is a tool, an item or a usage. -/
structure Turn (V : Type) where
  id : TurnId
  status : TurnStatus
  userText : JsString
  agentText : JsString
  tools : List V
  items : List V
  /-- `token_usage` of a turn that a transcript has given. -/
  tokenUsage : Option (List V)
  deriving DecidableEq

inductive ReceiptState where
  | pending
  | uncertain
  | accepted
  | cleared
  deriving DecidableEq

def ReceiptState.isUnresolved : ReceiptState → Bool
  | .pending | .uncertain => true
  | .accepted | .cleared => false

structure Receipt where
  text : JsString
  turnId : TurnId
  state : ReceiptState
  deriving DecidableEq

/-! ## What is saved -/

/-- A line of the journal; a receipt that is gone is `null`. -/
structure Record (V : Type) where
  turn : Option (Turn V)
  receipts : List (RequestId × Option Receipt)
  deriving DecidableEq

structure Saved (V : Type) where
  turns : List (Turn V)
  receipts : Entries RequestId Receipt
  deriving DecidableEq

/-- The maps of `load`. -/
structure Maps (V : Type) where
  turns : Entries TurnId (Turn V)
  receipts : Entries RequestId Receipt

section Maps

variable {V : Type}

def Maps.apply (maps : Maps V) (record : Record V) : Maps V where
  turns := match record.turn with
    | none => maps.turns
    | some turn => maps.turns.set turn.id turn
  receipts := record.receipts.foldl Entries.put maps.receipts

def Saved.maps (saved : Saved V) : Maps V where
  turns := saved.turns.foldl (fun turns turn => turns.set turn.id turn) []
  receipts := saved.receipts.foldl (fun receipts entry => receipts.set entry.1 entry.2) []

def Maps.saved (maps : Maps V) : Saved V := ⟨maps.turns.map snd, maps.receipts⟩

end Maps

/-- A checkpoint and the records appended since. -/
structure Disk (V : Type) where
  checkpoint : Saved V
  records : List (Record V)

/-- `ClaudeStateStore.load`. -/
def Disk.load {V : Type} (disk : Disk V) : Saved V :=
  (disk.records.foldl Maps.apply disk.checkpoint.maps).saved

/-! ## The session -/

/-- The closure of a prompt, with its receipt. -/
structure Send where
  id : RequestId
  text : JsString
  turnId : TurnId
  deriving DecidableEq

inductive Event where
  /-- `delivery.send` is called, with the other unresolved receipts and the active turn there. -/
  | started (number : Nat) (send : Send) (others : List RequestId) (active : Option TurnId)
  | failed (number : Nat) (notSent : Bool)
  /-- A turn begins, for a request or for a prompt of the terminal. -/
  | began (id : Option RequestId) (turnId : TurnId)
  /-- A request or an acknowledgement is answered with a turn. -/
  | answered (id : RequestId) (turnId : TurnId)
  | cleared (id : RequestId)
  deriving DecidableEq

inductive HookName where
  | sessionStart
  | userPromptSubmit
  | stop
  | stopFailure
  | sessionEnd
  | other
  deriving DecidableEq

structure HookEvent where
  name : HookName
  sessionId : JsString
  prompt : Option JsString
  lastAssistantMessage : Option JsString

/-- The last turn of the transcript. -/
structure Transcript (V : Type) where
  userText : JsString
  items : List V
  tools : List V

structure State (V : Type) where
  /-- The `session_id` of the identity. -/
  identity : Option JsString
  turns : List (Turn V)
  active : Option TurnId
  receipts : Entries RequestId Receipt
  /-- The receipt that each waiter is for, by its turn. -/
  waiters : Entries RequestId TurnId
  microtask : Option Send
  /-- The deliveries that run. -/
  sends : Nat → Option Send
  started : Nat
  /-- The random UUIDs made so far. -/
  randoms : Nat
  disk : Disk V
  log : List Event

/-- Where a step saves, `saved` says whether the append succeeds. -/
inductive Step (V : Type) where
  | prompt (id text : JsString) (saved : Bool)
  | microtask
  | sendEnds (number : Nat)
  | sendFails (number : Nat) (notSent saved : Bool)
  | timeout (id : RequestId) (saved : Bool)
  | acknowledge (id : RequestId) (saved : Bool)
  | reply (id : RequestId) (text : JsString) (saved : Bool)
  /-- The transcript that the reader has, unless it throws. -/
  | hook (event : HookEvent) (transcript : Except Unit (Option (Transcript V))) (saved : Bool)
  | queueClear (saved : Bool)
  | close (saved : Bool)
  /-- The process is killed, and another one loads what is saved. -/
  | restart

/-- `pending` is read as `uncertain`. -/
def Receipt.settle (receipt : Receipt) : Receipt :=
  if receipt.state = .pending then { receipt with state := .uncertain } else receipt

/-- `inProgress` is read as `unknown`. -/
def Turn.settle {V : Type} (turn : Turn V) : Turn V :=
  if turn.status = .inProgress then { turn with status := .unknown } else turn

def Saved.settle {V : Type} (saved : Saved V) : Saved V :=
  ⟨saved.turns.map Turn.settle, saved.receipts.mapValues Receipt.settle⟩

namespace State

variable {V : Type}

/-- The constructor of a session whose process is new. -/
def fromDisk (disk : Disk V) (started randoms : Nat) (log : List Event) : State V :=
  let saved := disk.load.settle
  { identity := none
    turns := saved.turns
    active := none
    receipts := saved.receipts
    waiters := []
    microtask := none
    sends := fun _ => none
    started
    randoms
    disk
    log }

/-- A store without a checkpoint saves the turns of the transcript first. -/
def start (initial : List (Turn V)) : State V := fromDisk ⟨⟨initial, []⟩, []⟩ 0 0 []

variable (s : State V)

def note (event : Event) : State V := { s with log := s.log ++ [event] }

/-- `this.active`, the object among the turns. -/
def activeTurn : Option (Turn V) :=
  s.active.bind fun id => s.turns.find? fun turn => turn.id = id

def record (ids : List RequestId) : Record V where
  turn := s.activeTurn.or s.turns.getLast?
  receipts := ids.map fun id => (id, s.receipts.get id)

def save (ids : List RequestId) : State V :=
  { s with disk := { s.disk with records := s.disk.records ++ [s.record ids] } }

def unresolved : List RequestId :=
  (s.receipts.filter fun entry => entry.2.state.isUnresolved).map fst

/-- A turn begins, unless the save throws; then it is taken back. -/
def begin (id : Option RequestId) (text : JsString) (turnId : TurnId) (ids : List RequestId)
    (saved : Bool) : Option (State V) :=
  let turn : Turn V := ⟨turnId, .inProgress, text, [], [], [], none⟩
  let s := { s with turns := s.turns ++ [turn], active := some turnId }
  if saved then some ((s.save ids).note (.began id turnId)) else none

def prompt (id text : JsString) (saved : Bool) : State V :=
  if s.identity = none then s
  else if id = [] ∨ isBlank text = true then s
  else
    match s.receipts.get id with
    | some old =>
      if old.text ≠ text then s
      else if old.state = .accepted then s.note (.answered id old.turnId)
      else s
    | none =>
      if s.active.isSome ∨ s.unresolved ≠ [] then s
      else
        let receipt : Receipt := ⟨text, .random s.randoms, .pending⟩
        let s := { s with
          randoms := s.randoms + 1
          receipts := s.receipts.set id receipt }
        if saved then
          { s.save [id] with
            waiters := s.waiters.set id receipt.turnId
            microtask := some ⟨id, text, receipt.turnId⟩ }
        else { s with receipts := s.receipts.delete id }

def runMicrotask : Option (State V) :=
  s.microtask.map fun send =>
    { s with
      microtask := none
      sends := update s.sends s.started (some send)
      started := s.started + 1
      log := s.log ++
        [.started s.started send (s.unresolved.filter fun other => other ≠ send.id) s.active] }

def setReceipt (id : RequestId) (receipt : Receipt) : State V :=
  { s with receipts := s.receipts.set id receipt }

/-- The receipt object of a closure, if it is the one in the map. -/
def mark (id : RequestId) (turnId : TurnId) (state : ReceiptState) : State V :=
  match s.receipts.get id with
  | none => s
  | some receipt =>
    if receipt.turnId = turnId then s.setReceipt id { receipt with state } else s

def sendEnds (number : Nat) : Option (State V) :=
  (s.sends number).map fun _ => { s with sends := update s.sends number none }

def sendFails (number : Nat) (notSent saved : Bool) : Option (State V) :=
  (s.sends number).map fun send =>
    let s := { s with
      sends := update s.sends number none
      log := s.log ++ [Event.failed number notSent] }
    match s.waiters.get send.id with
    | none => s
    | some _ =>
      let s := { s with waiters := s.waiters.delete send.id }
      let s := if notSent then { s with receipts := s.receipts.delete send.id }
        else s.mark send.id send.turnId .uncertain
      if saved then s.save [send.id]
      else s.setReceipt send.id ⟨send.text, send.turnId, .uncertain⟩

def timeout (id : RequestId) (saved : Bool) : Option (State V) :=
  (s.waiters.get id).map fun turnId =>
    let s := State.mark { s with waiters := s.waiters.delete id } id turnId .uncertain
    if saved then s.save [id] else s

def acknowledge (id : RequestId) (saved : Bool) : State V :=
  match s.receipts.get id with
  | none => s
  | some receipt =>
    match receipt.state with
    | .cleared => s
    | .accepted => s.note (.answered id receipt.turnId)
    | .pending | .uncertain =>
      if s.active.isSome then s
      else
        let accepted := s.setReceipt id { receipt with state := .accepted }
        match accepted.begin (some id) receipt.text receipt.turnId [id] saved with
        | none => s
        | some s =>
          State.note { s with waiters := s.waiters.delete id } (.answered id receipt.turnId)

/-- The active turn is changed in place. -/
def alterTurn (id : TurnId) (f : Turn V → Turn V) : State V :=
  { s with turns := alter Turn.id id f s.turns }

def reply (id : RequestId) (text : JsString) (saved : Bool) : State V :=
  match s.receipts.get id with
  | none => s
  | some receipt =>
    if receipt.state ≠ .accepted ∨ s.active ≠ some receipt.turnId then s
    else if isBlank text then s
    else
      let s := s.alterTurn receipt.turnId fun turn => { turn with agentText := lastPart text }
      if saved then s.save [] else s

def withTranscript (transcript : Option (Transcript V)) (turn : Turn V) : Turn V :=
  match transcript with
  | none => turn
  | some transcript =>
    if transcript.userText = turn.userText then
      { turn with items := transcript.items, tools := transcript.tools }
    else turn

def closedStatus : HookName → TurnStatus
  | .stop => .completed
  | .sessionEnd => .interrupted
  | _ => .failed

def closeTurn (event : HookEvent) (transcript : Option (Transcript V)) (turn : Turn V) : Turn V :=
  let turn := withTranscript transcript turn
  let turn := match event.lastAssistantMessage with
    | some message =>
      if turn.agentText = [] then { turn with agentText := lastPart message } else turn
    | none => turn
  { turn with status := closedStatus event.name }

/-- The status and the text are put back where the save throws. -/
def closing (event : HookEvent) (transcript : Except Unit (Option (Transcript V))) (saved : Bool) :
    State V :=
  match s.activeTurn, transcript with
  | some previous, .ok transcript =>
    let s := s.alterTurn previous.id (closeTurn event transcript)
    if saved then State.save { s with active := none } []
    else s.alterTurn previous.id fun turn =>
      { turn with status := previous.status, agentText := previous.agentText }
  | _, _ => s

def submitted (usesPromptHook : Bool) (prompt : Option JsString) (saved : Bool) : State V :=
  let found := if usesPromptHook then
      s.receipts.find? fun entry => entry.2.state.isUnresolved && some entry.2.text == prompt
    else none
  match found with
  | some (id, _) => s.acknowledge id saved
  | none =>
    match State.begin { s with randoms := s.randoms + 1 } none (prompt.getD []) (.random s.randoms)
        [] saved with
    | none => { s with randoms := s.randoms + 1 }
    | some s => s

def hook (usesPromptHook : Bool) (event : HookEvent)
    (transcript : Except Unit (Option (Transcript V))) (saved : Bool) : State V :=
  match s.identity with
  | none => if event.name = .sessionStart then { s with identity := some event.sessionId } else s
  | some sessionId =>
    if event.sessionId ≠ sessionId then s
    else
      match event.name with
      | .userPromptSubmit =>
        if s.active.isSome then s else s.submitted usesPromptHook event.prompt saved
      | .stop | .stopFailure | .sessionEnd => s.closing event transcript saved
      | _ => s

def uncertainIds : List RequestId :=
  (s.receipts.filter fun entry => entry.2.state = .uncertain).map fst

def clearUncertain (receipt : Receipt) : Receipt :=
  if receipt.state = .uncertain then { receipt with state := .cleared } else receipt

/-- The states are put back where the save throws. -/
def queueClear (saved : Bool) : State V :=
  if s.identity = none then s
  else if s.active.isSome ∨ s.waiters ≠ [] then s
  else if saved then
    let ids := s.uncertainIds
    let s := State.save { s with receipts := s.receipts.mapValues clearUncertain } ids
    { s with log := s.log ++ ids.map Event.cleared }
  else s

def disconnected (receipts : Entries RequestId Receipt) (id : RequestId) :
    Entries RequestId Receipt :=
  match receipts.get id with
  | none => receipts
  | some receipt => receipts.set id { receipt with state := .uncertain }

def close (saved : Bool) : State V :=
  let ids := s.waiters.map fst
  let s := { s with
    receipts := ids.foldl disconnected s.receipts
    waiters := [] }
  if saved then s.save ids else s

def restart : State V := fromDisk s.disk s.started s.randoms s.log

def run (usesPromptHook : Bool) : Step V → Option (State V)
  | .prompt id text saved => some (s.prompt id text saved)
  | .microtask => none
  | .sendEnds number => s.sendEnds number
  | .sendFails number notSent saved => s.sendFails number notSent saved
  | .timeout id saved => s.timeout id saved
  | .acknowledge id saved => some (s.acknowledge id saved)
  | .reply id text saved => some (s.reply id text saved)
  | .hook event transcript saved => some (s.hook usesPromptHook event transcript saved)
  | .queueClear saved => some (s.queueClear saved)
  | .close saved => some (s.close saved)
  | .restart => some s.restart

/-- The microtask runs before the next task, unless the process is killed. -/
def step (usesPromptHook : Bool) (s : State V) (label : Step V) : Option (State V) :=
  match s.microtask, label with
  | some _, .microtask => s.runMicrotask
  | some _, .restart => some s.restart
  | some _, _ => none
  | none, label => s.run usesPromptHook label

def system (usesPromptHook : Bool) (initial : List (Turn V)) : System (State V) (Step V) :=
  .ofStep (start initial) (step usesPromptHook)

end State

end Agentix.Claude

/-! # Receipts of prompts

Where the receipt of a request stands, in memory and on the disk, and what has been done for it.
-/

namespace Agentix.Claude

open Lib List Function
open Function (update)

abbrev Receipts := Entries RequestId Receipt

/-- The receipts that a new process reads. -/
def settled (receipts : Receipts) : Receipts := receipts.mapValues Receipt.settle

section Settling

variable {receipts : Receipts} {receipt : Receipt} {id : RequestId}

@[simp] theorem settle_turnId : receipt.settle.turnId = receipt.turnId := by
  unfold Receipt.settle
  split <;> rfl

@[simp] theorem settle_text : receipt.settle.text = receipt.text := by
  unfold Receipt.settle
  split <;> rfl

@[simp] theorem settle_isUnresolved :
    receipt.settle.state.isUnresolved = receipt.state.isUnresolved := by
  unfold Receipt.settle
  split
  · rename_i pending
    rw [pending]
    rfl
  · rfl

@[simp] theorem settle_settle : receipt.settle.settle = receipt.settle := by
  unfold Receipt.settle
  split <;> simp_all

@[simp] theorem settle_state_eq_accepted :
    receipt.settle.state = .accepted ↔ receipt.state = .accepted := by
  unfold Receipt.settle
  split <;> simp_all

@[simp] theorem settle_state_eq_cleared :
    receipt.settle.state = .cleared ↔ receipt.state = .cleared := by
  unfold Receipt.settle
  split <;> simp_all

/-- A receipt that becomes uncertain reads as before. -/
theorem settle_uncertain (unresolved : receipt.state.isUnresolved = true) :
    Receipt.settle { receipt with state := .uncertain } = receipt.settle := by
  obtain ⟨text, turnId, state⟩ := receipt
  cases state <;> first | rfl | cases unresolved

@[simp] theorem get_settled : (settled receipts).get id = (receipts.get id).map Receipt.settle :=
  Entries.get_mapValues

@[simp] theorem settled_settled : settled (settled receipts) = settled receipts := by
  simp [settled, Entries.mapValues, comp_def]

@[simp] theorem map_fst_settled : (settled receipts).map Prod.fst = receipts.map Prod.fst := by
  simp [settled, Entries.mapValues, comp_def]

end Settling

/-! ## What is on the disk -/

section Disk

variable {V : Type} {s : State V} {ids : List RequestId}

theorem load_save : (s.save ids).disk.load.receipts =
    (ids.map fun id => (id, s.receipts.get id)).foldl Entries.put s.disk.load.receipts := by
  simp [State.save, Disk.load, foldl_append, Maps.apply, Maps.saved, State.record]

theorem load_save_nil : (s.save []).disk.load.receipts = s.disk.load.receipts := load_save

theorem settled_load_save : settled (s.save ids).disk.load.receipts =
    (ids.map fun id => (id, (settled s.receipts).get id)).foldl Entries.put
      (settled s.disk.load.receipts) := by
  rw [load_save, settled, Entries.mapValues_foldl_put, map_map]
  congr 1
  refine map_congr_left fun id _ => ?_
  simp [settled]

end Disk

/-! ## What has been done for a request -/

/-- The request that an event is about. -/
def Event.about : Event → Option RequestId
  | .started _ send _ _ => some send.id
  | .failed _ _ => none
  | .began id _ => id
  | .answered id _ => some id
  | .cleared id => some id

/-- The log agrees with the receipt of a request. -/
structure Tracks (id : RequestId) (receipt : Option Receipt) (log : List Event) : Prop where
  owned : ∀ {number send others active}, .started number send others active ∈ log → send.id = id →
    .failed number true ∈ log ∨ receipt.isSome = true
  began : ∀ {turnId}, .began (some id) turnId ∈ log ↔
    ∃ known, receipt = some known ∧ known.state = .accepted ∧ known.turnId = turnId
  answered : ∀ {turnId}, .answered id turnId ∈ log → .began (some id) turnId ∈ log
  cleared : .cleared id ∈ log ↔ ∃ known, receipt = some known ∧ known.state = .cleared

/-- Each start of a request comes after failures of all earlier ones, and there is nothing else
unresolved and no active turn. -/
def Started (log : List Event) : Prop :=
  ∀ before number send others active after,
    log = before ++ .started number send others active :: after →
    others = [] ∧ active = none ∧
      ∀ earlier send' others' active', .started earlier send' others' active' ∈ before →
        send'.id = send.id → .failed earlier true ∈ before

def BeganOnce (log : List Event) : Prop :=
  ∀ before id turnId after, log = before ++ .began (some id) turnId :: after →
    (∀ other, .began (some id) other ∉ before) ∧ .cleared id ∉ before

section Logs

variable {log notes : List Event} {id : RequestId} {receipt receipt' : Option Receipt}

theorem Started.append (started : Started log)
    (quiet : ∀ number send others active, .started number send others active ∉ notes) :
    Started (log ++ notes) := by
  induction notes using reverseRecOn with
  | nil => simpa using started
  | append_singleton notes event ih =>
    rw [← append_assoc]
    have shorter : Started (log ++ notes) := ih fun number send others active =>
      fun mem => quiet number send others active (mem_append_left _ mem)
    intro before number send others active after split
    obtain ⟨rfl, rfl, same⟩ | ⟨after', rfl, earlier⟩ := split_snoc split
    · exact absurd (by simp [same]) (quiet number send others active)
    · exact shorter before number send others active after' earlier

theorem BeganOnce.append (once : BeganOnce log)
    (quiet : ∀ id turnId, .began (some id) turnId ∉ notes) : BeganOnce (log ++ notes) := by
  induction notes using reverseRecOn with
  | nil => simpa using once
  | append_singleton notes event ih =>
    rw [← append_assoc]
    have shorter : BeganOnce (log ++ notes) := ih fun id turnId =>
      fun mem => quiet id turnId (mem_append_left _ mem)
    intro before id turnId after split
    obtain ⟨rfl, rfl, same⟩ | ⟨after', rfl, earlier⟩ := split_snoc split
    · exact absurd (by simp [same]) (quiet id turnId)
    · exact shorter before id turnId after' earlier

/-- Open receipts are neither accepted nor cleared. -/
def IsOpen (receipt : Option Receipt) : Prop :=
  ∀ known, receipt = some known → known.state.isUnresolved = true

theorem isOpen_none : IsOpen none := nofun

theorem isOpen_some {known : Receipt} (unresolved : known.state.isUnresolved = true) :
    IsOpen (some known) := by
  rintro _ ⟨⟩
  exact unresolved

theorem IsOpen.not_accepted (isOpen : IsOpen receipt) {turnId : TurnId} :
    ¬ ∃ known, receipt = some known ∧ known.state = .accepted ∧ known.turnId = turnId := by
  rintro ⟨known, held, accepted, -⟩
  have unresolved := isOpen known held
  rw [accepted] at unresolved
  cases unresolved

theorem IsOpen.not_cleared (isOpen : IsOpen receipt) :
    ¬ ∃ known, receipt = some known ∧ known.state = .cleared := by
  rintro ⟨known, held, cleared⟩
  have unresolved := isOpen known held
  rw [cleared] at unresolved
  cases unresolved

/-- Nothing is noted about the request, and its receipt is as before. -/
theorem Tracks.append (tracks : Tracks id receipt log)
    (quiet : ∀ note ∈ notes, note.about ≠ some id) : Tracks id receipt (log ++ notes) where
  owned := by
    intro number send others active mem same
    obtain before | new := mem_append.mp mem
    · exact (tracks.owned before same).imp_left (mem_append_left _)
    · exact absurd (congrArg some same) (quiet _ new)
  began := by
    intro turnId
    rw [← tracks.began, mem_append, or_iff_left]
    exact fun new => quiet _ new rfl
  answered := by
    intro turnId mem
    obtain before | new := mem_append.mp mem
    · exact mem_append_left _ (tracks.answered before)
    · exact absurd rfl (quiet _ new)
  cleared := by
    rw [← tracks.cleared, mem_append, or_iff_left]
    exact fun new => quiet _ new rfl

theorem Tracks.opens (tracks : Tracks id receipt log) (isOpen : IsOpen receipt)
    (isOpen' : IsOpen receipt')
    (owned : ∀ {number send others active}, .started number send others active ∈ log →
      send.id = id → .failed number true ∈ log ∨ receipt'.isSome = true) :
    Tracks id receipt' log where
  owned := owned
  began := by
    intro turnId
    rw [tracks.began]
    exact iff_of_false isOpen.not_accepted isOpen'.not_accepted
  answered := tracks.answered
  cleared := by
    rw [tracks.cleared]
    exact iff_of_false isOpen.not_cleared isOpen'.not_cleared

theorem Tracks.settle (tracks : Tracks id receipt log) :
    Tracks id (receipt.map Receipt.settle) log where
  owned := by
    intro number send others active mem same
    rw [Option.isSome_map]
    exact tracks.owned mem same
  began := by
    intro turnId
    rw [tracks.began]
    cases receipt <;> simp
  answered := tracks.answered
  cleared := by
    rw [tracks.cleared]
    cases receipt <;> simp

theorem Tracks.clears {known : Receipt} (tracks : Tracks id receipt log) (isOpen : IsOpen receipt)
    (state : known.state = .cleared) (noted : .cleared id ∈ notes)
    (cleared : ∀ note ∈ notes, note = .cleared id ∨ note.about ≠ some id) :
    Tracks id (some known) (log ++ notes) where
  owned := fun _ _ => .inr rfl
  began := by
    intro turnId
    refine iff_of_false (fun mem => ?_) ?_
    · obtain before | new := mem_append.mp mem
      · exact isOpen.not_accepted (tracks.began.mp before)
      · obtain same | other := cleared _ new
        · cases same
        · exact other rfl
    · rintro ⟨_, ⟨⟩, accepted, -⟩
      rw [state] at accepted
      cases accepted
  answered := by
    intro turnId mem
    obtain before | new := mem_append.mp mem
    · exact mem_append_left _ (tracks.answered before)
    · obtain same | other := cleared _ new
      · cases same
      · exact absurd rfl other
  cleared := iff_of_true (mem_append_right _ noted) ⟨known, rfl, state⟩

end Logs

end Agentix.Claude
