import Agentix.Lib.Run
import Mathlib.Logic.Function.Basic

/-! # Card groups

A logical Feishu message owns an ordered group of physical cards.  The operations on a message run
one at a time, and each is a sequence of calls to the provider.
-/

namespace Agentix.Feishu

open Lib

/-! ## Pages -/

inductive ViewStatus where
  | info
  | running
  | waiting
  | success
  | warning
  | error
  | muted
  | background
  deriving DecidableEq

inductive ActionStyle where
  | primary
  | default
  | danger
  deriving DecidableEq

structure ActionButton where
  disabled : Bool
  label : String
  token : String
  style : ActionStyle
  deriving DecidableEq

structure ViewSection where
  actionTokens : List String
  title : String
  body : String
  collapsible : Bool
  expanded : Option Bool
  deriving DecidableEq

structure OutboundView where
  sections : List ViewSection
  title : String
  subtitle : Option String
  body : String
  status : ViewStatus
  actions : List ActionButton
  deriving DecidableEq

structure Page where
  view : OutboundView
  json : String
  deriving DecidableEq

def Page.inert (page : Page) : Bool := page.view.actions.all ActionButton.disabled

/-- The pages of a view; the actions belong to the first of them. -/
structure Pages where
  first : Page
  rest : List Page
  plain : ∀ page ∈ rest, page.view.actions = []

def Pages.toList (pages : Pages) : List Page := pages.first :: pages.rest

/-- The text of a card, with its actions as they are or disabled. -/
structure Renderer where
  render : OutboundView → Option String
  renderDisabled : OutboundView → Option String

/-! ## Calls to the provider -/

/-- How a call ends: performed, rejected, or without an answer after it was performed or not.  An
operation is dropped while it waits for the answer. -/
inductive Reply where
  | done
  | rejected
  | lost (performed : Bool)
  | dropped (performed : Bool)
  deriving DecidableEq

/-- How an operation ends. -/
inductive Ending where
  | ok
  | failed
  | dropped
  deriving DecidableEq

namespace Reply

def performs : Reply → Bool
  | done => true
  | rejected => false
  | lost performed => performed
  | dropped performed => performed

def ending : Reply → Ending
  | done => .ok
  | rejected => .failed
  | lost _ => .failed
  | dropped _ => .dropped

/-- A card that does not exist is not patched. -/
def refused : Reply → Reply
  | done => rejected
  | rejected => rejected
  | lost _ => lost false
  | dropped _ => dropped false

end Reply

/-- The cards of the conversation, with the ones on which a call was performed without an answer
since their last confirmed page. -/
structure Chat where
  cards : Nat → Option Page := fun _ => none
  next : Nat := 0
  unsure : List Nat := []

namespace Chat

variable (chat : Chat)

/-- A call that gives the card another content. -/
def call (id : Nat) (content : Option Page) (reply : Reply) : Chat × Ending :=
  if reply.performs then
    ({ chat with
        cards := Function.update chat.cards id content
        unsure := if reply.ending = .ok then chat.unsure.filter (· ≠ id) else id :: chat.unsure },
      reply.ending)
  else (chat, reply.ending)

def patch (id : Nat) (page : Page) (reply : Reply) : Chat × Ending :=
  chat.call id (some page) (if (chat.cards id).isSome then reply else reply.refused)

def delete (id : Nat) (reply : Reply) : Chat × Ending := chat.call id none reply

/-- A new card has the next identifier. -/
def post (page : Page) (reply : Reply) : Chat × Ending :=
  call { chat with next := chat.next + 1 } chat.next (some page) reply

end Chat

/-! ## A group at work -/

structure SentCard where
  id : Nat
  page : Option Page
  deriving DecidableEq

def needsTracking (cards : List SentCard) : Bool :=
  1 < cards.length || cards.any fun card => card.page.any fun page => !page.inert

example : needsTracking [⟨1, none⟩, ⟨2, none⟩] = true := by decide +kernel

/-- The chat, the answers to the calls that follow, and the cards that were posted. -/
structure Work where
  chat : Chat
  replies : List Reply
  posted : List Nat
  confirmed : List Nat

namespace Work

variable (work : Work)

/-- The answer to the next call; an operation without one is dropped. -/
def reply : Reply := work.replies.headD (.dropped false)

def patch (id : Nat) (page : Page) : Work × Ending :=
  let (chat, ending) := work.chat.patch id page work.reply
  ({ work with chat, replies := work.replies.tail }, ending)

def delete (id : Nat) : Work × Ending :=
  let (chat, ending) := work.chat.delete id work.reply
  ({ work with chat, replies := work.replies.tail }, ending)

def post (page : Page) : Work × Ending :=
  let (chat, ending) := work.chat.post page work.reply
  let id := work.chat.next
  ({ chat
     replies := work.replies.tail
     posted := if work.reply.performs then work.posted ++ [id] else work.posted
     confirmed := if ending = .ok then work.confirmed ++ [id] else work.confirmed }, ending)

end Work

/-- Elapsed-time ticks only refresh the live tail. -/
def refreshed (count index : Nat) (previous : OutboundView) (page : Page) : OutboundView :=
  if index + 1 < count ∧ page.view.status = .running then
    { previous with subtitle := page.view.subtitle }
  else previous

/-- The page that was confirmed last is the one to show. -/
def SentCard.unchanged (card : SentCard) (count index : Nat) (page : Page) : Bool :=
  1 < count && card.page.any fun previous =>
    previous.json = page.json || refreshed count index previous.view page = page.view

def updatePages (count : Nat) : Nat → List Page → List SentCard → Work →
    List SentCard × Work × Ending
  | _, [], cards, work => (cards, work, .ok)
  | index, page :: pages, card :: cards, work =>
    if card.unchanged count index page then
      let (cards, work, ending) := updatePages count (index + 1) pages cards work
      (card :: cards, work, ending)
    else
      let (work, ending) := work.patch card.id page
      if ending = .ok then
        let (cards, work, ending) := updatePages count (index + 1) pages cards work
        ({ card with page := some page } :: cards, work, ending)
      else (card :: cards, work, ending)
  | index, page :: pages, [], work =>
    let id := work.chat.next
    let (work, ending) := work.post page
    -- confirmed progress is kept even if a later page is rejected
    if ending = .ok then
      let (cards, work, ending) := updatePages count (index + 1) pages [] work
      (⟨id, some page⟩ :: cards, work, ending)
    else ([], work, ending)

def deleteCards : List SentCard → Work → List SentCard × Work × Ending
  | [], work => ([], work, .ok)
  | card :: cards, work =>
    let (work, ending) := work.delete card.id
    if ending = .ok then deleteCards cards work else (card :: cards, work, ending)

def disablePage (renderer : Renderer) (page : Page) : Option Page := do
  let view := { page.view with
    actions := page.view.actions.map fun action => { action with disabled := true } }
  let _ ← renderer.render view
  -- the original callback payload is retained while the controls are disabled
  let json ← renderer.renderDisabled page.view
  return { view, json }

/-- A card that is passed over: its page is not known, or has no enabled action. -/
def SentCard.quiet (card : SentCard) : Bool := card.page.all Page.inert

def disableCards (renderer : Renderer) : List SentCard → Work → List SentCard × Work × Ending
  | [], work => ([], work, .ok)
  | card :: cards, work =>
    if card.quiet then
      let (cards, work, ending) := disableCards renderer cards work
      (card :: cards, work, ending)
    else
      match card.page.bind (disablePage renderer) with
      | none => (card :: cards, work, .failed)
      | some page =>
        let (work, ending) := work.patch card.id page
        if ending = .ok then
          let (cards, work, ending) := disableCards renderer cards work
          ({ card with page := some page } :: cards, work, ending)
        else (card :: cards, work, ending)

def postPages : List Page → List SentCard → Work → List SentCard × Work × Ending
  | [], cards, work => (cards, work, .ok)
  | page :: pages, cards, work =>
    let id := work.chat.next
    let (work, ending) := work.post page
    if ending = .ok then postPages pages (cards ++ [⟨id, some page⟩]) work
    else (cards, work, ending)

/-! ## Operations -/

inductive Call where
  | send (pages : Pages) (replies : List Reply) (unlocked : Bool)
  | update (pages : Pages) (replies : List Reply) (unlocked : Bool)
  | disable (replies : List Reply) (unlocked : Bool)
  /-- An update that is dropped before its first call to the provider. -/
  | waiting

/-- One logical message: its first card, once it was sent, and its tracked group. -/
structure State where
  chat : Chat := {}
  message : Option Nat := none
  tracked : Option (List SentCard) := none
  /-- The cards that were posted for the message. -/
  posted : List Nat := []
  /-- The cards whose posting was confirmed. -/
  confirmed : List Nat := []

namespace State

variable (s : State)

def work (replies : List Reply) : Work := ⟨s.chat, replies, s.posted, s.confirmed⟩

/-- The group of the message; without one, its first card with a page that is not known. -/
def group (message : Nat) : List SentCard := s.tracked.getD [⟨message, none⟩]

/-- What an operation leaves.  It takes the lock of the groups once more where the group need not
be tracked any longer, and may be dropped there. -/
def settle (cards : List SentCard) (work : Work) (ending : Ending) (unlocked : Bool) :
    State × Ending :=
  let s : State := { s with chat := work.chat, posted := work.posted, confirmed := work.confirmed }
  if ending = .ok ∧ needsTracking cards = false then
    if unlocked then ({ s with tracked := none }, .ok)
    else ({ s with tracked := some cards }, .dropped)
  else ({ s with tracked := some cards }, ending)

/-- A failed send has no message, so the cards that it posted are retracted. -/
def send (pages : Pages) (replies : List Reply) (unlocked : Bool) : State × Ending :=
  let (cards, work, ending) := postPages pages.toList [] ⟨s.chat, replies, [], []⟩
  match ending with
  | .ok =>
    if needsTracking cards && !unlocked then ({ s with chat := work.chat }, .dropped)
    else
      ({ chat := work.chat
         message := cards.head?.map SentCard.id
         tracked := if needsTracking cards then some cards else none
         posted := work.posted
         confirmed := work.confirmed }, .ok)
  | .failed =>
    let (_, work, ending) := deleteCards cards.reverse work
    ({ s with chat := work.chat }, if ending = .ok then .failed else ending)
  | .dropped => ({ s with chat := work.chat }, .dropped)

def update (message : Nat) (pages : Pages) (replies : List Reply) (unlocked : Bool) :
    State × Ending :=
  let count := pages.toList.length
  let (cards, work, ending) := updatePages count 0 pages.toList (s.group message) (s.work replies)
  if ending = .ok then
    let (extra, work, ending) := deleteCards (cards.drop count).reverse work
    s.settle (cards.take count ++ extra.reverse) work ending unlocked
  else s.settle cards work ending unlocked

def disable (renderer : Renderer) (replies : List Reply) (unlocked : Bool) : State × Ending :=
  match s.tracked with
  | none => (s, .ok)
  | some cards =>
    let (cards, work, ending) := disableCards renderer cards (s.work replies)
    s.settle cards work ending unlocked

/-- The message is sent once; the other operations are on it. -/
def perform (renderer : Renderer) (call : Call) : Option (State × Ending) :=
  match s.message, call with
  | none, .send pages replies unlocked => some (s.send pages replies unlocked)
  | some message, .update pages replies unlocked =>
    some (s.update message pages replies unlocked)
  | some _, .disable replies unlocked => some (s.disable renderer replies unlocked)
  | some message, .waiting => some ({ s with tracked := some (s.group message) }, .dropped)
  | _, _ => none

end State

def system (renderer : Renderer) : System State Call :=
  .ofStep {} fun s call => (s.perform renderer call).map Prod.fst

end Agentix.Feishu
