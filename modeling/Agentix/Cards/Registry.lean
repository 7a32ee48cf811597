import Agentix.Cards.Writes
import Mathlib.Data.List.AList

/-! # The registry of the cards

A map from messages to cards, and a queue of its keys that sweeps visit in batches.  A sparse map is
compacted: its generation is set aside, and the cards in use are moved to a new one.  The lock on the
registry is held over a whole batch, but the handles outside of it are cloned and dropped at any time.
-/

namespace Agentix.Cards.Registry

abbrev CardRef := Nat

structure RegistryEntries where
  cards : AList fun _ : MessageRef => CardRef := ∅
  sweep : List MessageRef := []

/-- What the holder of the lock has left to do. -/
inductive Work where
  | none
  | prune (candidates : Nat) (maintains : Bool)
  | migrate (candidates : Nat)
  deriving DecidableEq

/-- `Registry`, with its own generation as one field, and what is outside of it: the handles on each
card, and the flag of each card. -/
structure State where
  current : RegistryEntries := {}
  compacting : Option RegistryEntries := none
  work : Work := .none
  handles : CardRef → Nat := fun _ => 0
  retain : CardRef → Bool := fun _ => false

/-! ## References -/

/-- The references to a card from the entries of a generation. -/
def RegistryEntries.references (entries : RegistryEntries) (card : CardRef) : Nat :=
  entries.cards.entries.countP fun entry => entry.snd = card

/-- `Arc::strong_count`. -/
def State.strongCount (s : State) (card : CardRef) : Nat :=
  s.current.references card + (s.compacting.map (·.references card)).getD 0 + s.handles card

/-- Nothing but its entry needs the card.  Without a handle its flag does not change, so the two
reads are one. -/
def State.idle (s : State) (card : CardRef) : Bool :=
  s.strongCount card = 1 ∧ s.retain card = false

def State.get (s : State) (message : MessageRef) : Option CardRef :=
  (s.current.cards.lookup message).or (s.compacting.bind fun old => old.cards.lookup message)

/-! ## Operations -/

def State.setHandles (s : State) (card : CardRef) (count : Nat) : State :=
  { s with handles := fun other => if other = card then count else s.handles other }

def RegistryEntries.insert (entries : RegistryEntries) (message : MessageRef) (card : CardRef) :
    RegistryEntries :=
  { cards := entries.cards.insert message card,
    sweep := if message ∈ entries.cards then entries.sweep else entries.sweep ++ [message] }

def State.insert (s : State) (message : MessageRef) (card : CardRef) : State :=
  match s.compacting with
  | some old =>
    if message ∈ old.cards then
      { s with compacting := some { old with cards := old.cards.insert message card } }
    else { s with current := s.current.insert message card }
  | none => { s with current := s.current.insert message card }

/-- A candidate of `prune_batch`. -/
def State.visit (s : State) : State :=
  match s.current.sweep with
  | [] => s
  | message :: sweep =>
    match s.current.cards.lookup message with
    | none => { s with current := { s.current with sweep } }
    | some card =>
      if s.idle card then { s with current := { cards := s.current.cards.erase message, sweep } }
      else { s with current := { s.current with sweep := sweep ++ [message] } }

def State.migrate (s : State) (old : RegistryEntries) : State :=
  match old.sweep with
  | [] => s
  | message :: sweep =>
    let rest := { cards := old.cards.erase message, sweep }
    match old.cards.lookup message with
    | none => { s with compacting := some rest }
    | some card =>
      if s.idle card then { s with compacting := some rest }
      else
        { s with
          compacting := some rest
          current :=
            { cards := s.current.cards.insert message card, sweep := s.current.sweep ++ [message] } }

/-- The end of `prune_batch`. -/
def State.released (s : State) : State :=
  if s.current.cards.keys = [] then { s with current := {} } else s

/-- The end of `maintain`, with the capacity of the containers. -/
def State.compact (s : State) (capacity : Nat) : State :=
  if capacity ≥ 1024 ∧ s.current.cards.keys.length ≤ capacity / 4 then
    { s with compacting := some s.current, current := {} }
  else s

/-! ## Steps -/

inductive Action where
  | create (card : CardRef)
  | clone (card : CardRef)
  | drop (card : CardRef)
  | setRetain (card : CardRef) (flag : Bool)
  | get (message : MessageRef)
  | insert (message : MessageRef) (card : CardRef)
  | prune
  | maintain
  | visit
  | finish (capacity : Nat)

/-- Handles change at any time, the entries by the holder of the lock. -/
def step (s : State) : Action → Option State
  | .create card =>
    if s.strongCount card = 0 then
      some { s.setHandles card 1 with
        retain := fun other => if other = card then false else s.retain other }
    else none
  | .clone card => if 0 < s.handles card then some (s.setHandles card (s.handles card + 1)) else none
  | .drop card => if 0 < s.handles card then some (s.setHandles card (s.handles card - 1)) else none
  | .setRetain card flag =>
    if 0 < s.handles card then
      some { s with retain := fun other => if other = card then flag else s.retain other }
    else none
  | .get message =>
    if s.work = .none then
      match s.get message with
      | some card => some (s.setHandles card (s.handles card + 1))
      | none => some s
    else none
  | .insert message card =>
    if s.work = .none ∧ 0 < s.handles card then some (s.insert message card) else none
  | .prune =>
    if s.work = .none then
      if s.current.sweep.length < 256 then some s
      else some { s with work := .prune (min 8 s.current.sweep.length) false }
    else none
  | .maintain =>
    if s.work = .none then
      match s.compacting with
      | some _ => some { s with work := .migrate 256 }
      | none => some { s with work := .prune (min 256 s.current.sweep.length) true }
    else none
  | .visit =>
    match s.work, s.compacting with
    | .prune (candidates + 1) maintains, _ =>
      some { s.visit with work := .prune candidates maintains }
    | .migrate (candidates + 1), some old =>
      some { s.migrate old with work := .migrate (if old.sweep = [] then 0 else candidates) }
    | _, _ => none
  | .finish capacity =>
    match s.work, s.compacting with
    | .prune 0 maintains, _ =>
      let s := { s.released with work := .none }
      some (if maintains then s.compact capacity else s)
    | .migrate 0, some old =>
      some { s with work := .none, compacting := if old.sweep = [] then none else some old }
    | _, _ => none

end Agentix.Cards.Registry
