import Agentix.Lib.Run
import Mathlib.Logic.Function.Basic

/-! # Delivery attempts

Per-operation transport progress.  An operation says when it waits locally, and when its next
request can reach the provider; an attempt bounds both, checks its scope before each request, and
reports what was not sent.
-/

namespace Agentix.Delivery

open Lib

inductive ChannelError where
  | notSent (message : String)
  | transport (message : String)
  | rejected (message : String)
  | invalidPayload (message : String)
  deriving DecidableEq

def ChannelError.display : ChannelError → String
  | .notSent message => "channel operation was not sent: " ++ message
  | .transport message => "channel transport failed: " ++ message
  | .rejected message => "channel rejected the message: " ++ message
  | .invalidPayload message => "channel payload is invalid: " ++ message

/-- In milliseconds. -/
abbrev Instant := Nat

def operationBudget : Nat := 60000

def wireBudget : Nat := 5000

inductive Phase where
  | waiting
  | invalidated
  | inFlight (start : Instant)
  deriving DecidableEq

def Phase.notDispatched : Phase → Bool
  | .waiting | .invalidated => true
  | .inFlight _ => false

/-- What a future does next.  Futures share `ε`, send requests `ρ` and read answers `ω`. -/
inductive Action (ε σ ρ ω α : Type) where
  /-- `DeliveryAttempt::waiting()`. -/
  | waiting (next : σ)
  /-- `DeliveryAttempt::dispatched().await`. -/
  | dispatched (next : σ)
  | sleep (deadline : Instant) (next : σ)
  /-- What is done under a lock. -/
  | locked (shared : ε) (next : σ)
  /-- A call that is answered at an instant; it reaches the provider if it has a request. -/
  | call (request : Option ρ) (next : Instant → ω → σ)
  | returns (result : Except ChannelError α)

/-- A future, by the places it can be in. -/
structure Operation (ε σ ρ ω α : Type) where
  start : σ
  act : σ → ε → Instant → Action ε σ ρ ω α

inductive Ending (α : Type) where
  | returned (result : Except ChannelError α)
  | dropped

/-- An operation under `run` or `run_if`, with the answers of the provider so far. -/
structure Attempt (ε σ ρ ω α : Type) where
  phase : Phase
  overall : Instant
  now : Instant
  shared : ε
  place : σ
  /-- `dispatched` waits for the answer of `valid`. -/
  checking : Bool
  answered : List (ρ × ω)
  ended : Option (Ending α)

inductive Label (ε ω : Type) where
  | poll
  | answer (outcome : ω)
  | valid (answer : Bool)
  | expire
  | drop
  | tick (time : Nat)
  | others (shared : ε)

namespace Attempt

variable {ε σ ρ ω α : Type}

/-- The attempt was made, and some time later it runs an operation. -/
def start (operation : Operation ε σ ρ ω α) (shared : ε) (elapsed : Nat) : Attempt ε σ ρ ω α where
  phase := .inFlight 0
  overall := elapsed + operationBudget
  now := elapsed
  shared
  place := operation.start
  checking := false
  answered := []
  ended := none

variable (operation : Operation ε σ ρ ω α) (checks : Bool) (s : Attempt ε σ ρ ω α)

def action : Action ε σ ρ ω α := operation.act s.place s.shared s.now

def deadline : Instant :=
  match s.phase with
  | .waiting | .invalidated => s.overall
  | .inFlight start => min s.overall (start + wireBudget)

def report (result : Except ChannelError α) : Except ChannelError α :=
  match result with
  | .error (.transport message) =>
    if s.phase.notDispatched then .error (.notSent message) else result
  | _ => result

def returns (result : Except ChannelError α) : Attempt ε σ ρ ω α :=
  { s with ended := some (.returned result) }

/-- The request is polled next. -/
def departs (next : σ) : Attempt ε σ ρ ω α :=
  { s with phase := .inFlight s.now, place := next, checking := false }

def poll : Option (Attempt ε σ ρ ω α) :=
  match s.action operation with
  | .waiting next => some { s with phase := .waiting, place := next }
  | .dispatched next =>
    if checks then
      if s.checking then none else some { s with phase := .waiting, checking := true }
    else some (s.departs next)
  | .sleep deadline next => if deadline ≤ s.now then some { s with place := next } else none
  | .locked shared next => some { s with shared, place := next }
  | .call _ _ => none
  | .returns result => some (s.returns (s.report result))

def answer (outcome : ω) : Option (Attempt ε σ ρ ω α) :=
  match s.action operation with
  | .call request next => some { s with
      place := next s.now outcome
      answered := s.answered ++ (request.map fun request => (request, outcome)).toList }
  | _ => none

def validated (valid : Bool) : Option (Attempt ε σ ρ ω α) :=
  match s.checking, s.action operation with
  | true, .dispatched next =>
    if valid then some (s.departs next)
    else some ({ s with phase := .invalidated }.returns
      (.error (.notSent "delivery scope expired before dispatch")))
  | _, _ => none

def expire : Option (Attempt ε σ ρ ω α) :=
  if s.deadline ≤ s.now then
    some (s.returns (.error
      (if s.phase.notDispatched then .notSent "local delivery wait exceeded its budget"
      else .transport "remote delivery response timed out")))
  else none

def step (label : Label ε ω) : Option (Attempt ε σ ρ ω α) :=
  match s.ended, label with
  | some _, _ => none
  | none, .poll => s.poll operation checks
  | none, .answer outcome => s.answer operation outcome
  | none, .valid answer => s.validated operation answer
  | none, .expire => s.expire
  | none, .drop => some { s with ended := some .dropped }
  | none, .tick time => some { s with now := s.now + time }
  | none, .others shared => some { s with shared }

def system (shared : ε) (elapsed : Nat) : System (Attempt ε σ ρ ω α) (Label ε ω) :=
  .ofStep (start operation shared elapsed) (step operation checks)

end Attempt

/-- What the answers of a provider mean: whether it has not accepted a request and will not, and
whether what it accepted has been taken back. -/
structure Provider (ρ ω : Type) where
  refuses : ω → Bool
  retracted : List (ρ × ω) → ρ × ω → Prop

namespace Attempt

variable {ε σ ρ ω α : Type}

/-- Whether a label is the end of the attempt. -/
def Ends (operation : Operation ε σ ρ ω α) (s : Attempt ε σ ρ ω α) : Label ε ω → Prop
  | .expire | .drop | .valid false => True
  | .poll => ∃ result, s.action operation = .returns result
  | _ => False

/-- Nothing has been accepted that was not taken back, and nothing can be accepted. -/
structure Unsent (operation : Operation ε σ ρ ω α) (provider : Provider ρ ω)
    (s : Attempt ε σ ρ ω α) : Prop where
  quiet : ∀ request next, s.action operation ≠ .call (some request) next
  refused : ∀ entry ∈ s.answered,
    provider.refuses entry.2 = true ∨ provider.retracted s.answered entry

/-- The result is `NotSent`, or the attempt was dropped while `not_dispatched()`. -/
def ReportsUnsent (s : Attempt ε σ ρ ω α) : Prop :=
  (∃ message, s.ended = some (.returned (.error (.notSent message)))) ∨
    s.ended = some .dropped ∧ s.phase.notDispatched = true

def Honest (operation : Operation ε σ ρ ω α) (provider : Provider ρ ω)
    (s : Attempt ε σ ρ ω α) : Prop :=
  s.ReportsUnsent → s.Unsent operation provider

end Attempt

end Agentix.Delivery

/-! # Telegram requests

The requests of a bot are paced and retried by one rate limiter.
-/

namespace Agentix.Delivery.Telegram

open Delivery
open Function (update)

/-- Errors with their texts. -/
inductive RequestError where
  | api (text : String)
  | migrateToChatId (text : String)
  /-- In milliseconds. -/
  | retryAfter (delay : Nat) (text : String)
  | other (text : String)

def RequestError.text : RequestError → String
  | .api text | .migrateToChatId text | .retryAfter _ text | .other text => text

def deliveryError : RequestError → ChannelError
  | .api text | .migrateToChatId text => .rejected text
  | .retryAfter _ text => .notSent text
  | .other text => .transport text

/-- Menus and queries report each error as one of the transport. -/
def describe (delivers : Bool) (error : RequestError) : ChannelError :=
  if delivers then deliveryError error else .transport error.text

abbrev ChatId := Int

structure Limits where
  nextRequest : Option Instant
  blockedUntil : Option Instant
  nextChat : ChatId → Option Instant

def chatInterval (chat : ChatId) : Nat := if chat < 0 then 3100 else 1100

def retained (now : Instant) (next : Option Instant) : Option Instant :=
  next.filter (now < ·)

def Limits.deadline (limits : Limits) (chat : Option ChatId) (now : Instant) : Instant :=
  let deadline := max (limits.nextRequest.getD now) (limits.blockedUntil.getD now)
  (chat.bind limits.nextChat).elim deadline (max deadline ·)

def Limits.reserved (limits : Limits) (chat : Option ChatId) (now : Instant) : Limits :=
  let nextChat := fun other => retained now (limits.nextChat other)
  { limits with
    nextRequest := some (now + 50)
    nextChat := chat.elim nextChat fun chat => update nextChat chat (some (now + chatInterval chat)) }

def Limits.blocked (limits : Limits) (now : Instant) (delay : Nat) : Limits :=
  let deadline := now + delay + 100
  { limits with blockedUntil := some (limits.blockedUntil.elim deadline (max · deadline)) }

structure Request where
  method : String
  chat : Option ChatId

inductive Place (τ : Type) where
  | outbound
  | queued
  | head
  | again
  | reserving
  | dispatching
  | sending
  | limited (now : Instant) (delay : Nat)
  | blocking (now : Instant) (delay : Nat)
  | done (result : Except RequestError τ)

section Act

variable {τ : Type}

def afterOutcome (now : Instant) : Except RequestError τ → Place τ
  | .error (.retryAfter delay _) => .limited now delay
  | result => .done result

/-- `RateLimiter::send` at the head of the queue of its conversation. -/
def act (delivers : Bool) (request : Request) :
    Place τ → Limits → Instant → Action Limits (Place τ) Request (Except RequestError τ) τ
  | .outbound, _, _ => .waiting .queued
  | .queued, limits, _ => .locked limits .head
  | .head, _, _ => .dispatched .again
  | .again, _, _ => .waiting .reserving
  | .reserving, limits, now =>
    let deadline := limits.deadline request.chat now
    if deadline ≤ now then .locked (limits.reserved request.chat now) .dispatching
    else .sleep deadline .reserving
  | .dispatching, _, _ => .dispatched .sending
  | .sending, _, _ => .call (some request) afterOutcome
  | .limited now delay, _, _ => .waiting (.blocking now delay)
  | .blocking now delay, limits, _ => .locked (limits.blocked now delay) .again
  | .done result, _, _ => .returns (result.mapError (describe delivers))

def operation (delivers : Bool) (request : Request) :
    Operation Limits (Place τ) Request (Except RequestError τ) τ where
  start := .outbound
  act := act delivers request

def refuses : Except RequestError τ → Bool
  | .error (.other _) | .ok _ => false
  | .error _ => true

/-- Nothing is taken back. -/
def provider : Provider Request (Except RequestError τ) := ⟨refuses, fun _ _ => False⟩

end Act

end Agentix.Delivery.Telegram

/-! # Feishu deliveries

A logical message owns an ordered group of physical cards, and each of them is sent with a request
that is retried.  An operation is a tree of requests; each request is made by `retryTenantToken`.
-/

namespace Agentix.Delivery.Feishu

open Delivery
open Function (update)

/-! ## Data -/

inductive ChannelKind where
  | telegram
  | feishu
  | slack
  deriving DecidableEq

structure ConversationRef where
  channel : ChannelKind
  conversationId : String
  deriving DecidableEq

structure MessageRef where
  conversation : ConversationRef
  messageId : String
  deriving DecidableEq

inductive ViewStatus where
  | info
  | running
  | waiting
  | success
  | warning
  | error
  | muted
  | background
  deriving DecidableEq

inductive ActionStyle where
  | primary
  | default
  | danger
  deriving DecidableEq

structure ActionButton where
  disabled : Bool
  label : String
  token : String
  style : ActionStyle
  deriving DecidableEq

structure ViewSection where
  actionTokens : List String
  title : String
  body : String
  collapsible : Bool
  expanded : Option Bool
  deriving DecidableEq

structure OutboundView where
  sections : List ViewSection
  title : String
  subtitle : Option String
  body : String
  status : ViewStatus
  actions : List ActionButton
  deriving DecidableEq

structure Page where
  view : OutboundView
  json : String
  deriving DecidableEq

structure SentCard where
  id : String
  page : Option Page

abbrev CardGroup := List SentCard

def CardGroup.needsTracking (cards : CardGroup) : Bool :=
  1 < cards.length || cards.any fun card =>
    card.page.any fun page => page.view.actions.any fun action => !action.disabled

/-- What the operations of an adapter share. -/
structure Adapter where
  cooldown : Option Instant
  tokenGeneration : Nat
  views : MessageRef → Option CardGroup

/-- Errors with their texts. -/
inductive LarkError where
  | api (code : Int) (text : String)
  | illegalParam (text : String)
  | rateLimited (text : String)
  | other (text : String)

def deliveryError : LarkError → ChannelError
  | .api _ text => .rejected text
  | .illegalParam text => .invalidPayload text
  | .rateLimited text => .notSent text
  | .other text => .transport text

def invalidTenantAccessToken : Int := 99991663

def isInvalidTenantAccessToken : LarkError → Bool
  | .api code _ => code = invalidTenantAccessToken
  | _ => false

inductive Request where
  | post (conversation : String) (card : String)
  | patch (id : String) (content : String)
  | delete (id : String)
  deriving DecidableEq

/-- An answer; the one to a post has the id of its message. -/
abbrev Outcome := Except LarkError String

/-! ## One request -/

structure Retry where
  /-- In seconds. -/
  delay : Nat
  refreshed : Bool

def Retry.new : Retry := ⟨1, false⟩

inductive RetryPlace where
  | again (retry : Retry)
  | cooling (retry : Retry)
  | dispatching (retry : Retry) (generation : Nat)
  | sending (retry : Retry) (generation : Nat)
  | limited (retry : Retry)
  | blocking (retry : Retry)
  | stale (retry : Retry) (generation : Nat)
  | comparing (retry : Retry) (generation : Nat)
  | invalidating (retry : Retry)
  | counting (retry : Retry)

def blocked (adapter : Adapter) (now : Instant) (retry : Retry) : Adapter :=
  let deadline := now + retry.delay * 1000
  { adapter with cooldown := some (adapter.cooldown.elim deadline (max · deadline)) }

section Retry

variable {σ α : Type} (place : RetryPlace → σ) (result : Outcome → σ)

def cooled (adapter : Adapter) (now : Instant) (retry : Retry) :
    Action Adapter σ Request Outcome α :=
  let noted := .locked adapter (place (.dispatching retry adapter.tokenGeneration))
  match adapter.cooldown with
  | some deadline => if now < deadline then .sleep deadline (place (.cooling retry)) else noted
  | none => noted

def afterOutcome (retry : Retry) (generation : Nat) : Outcome → σ
  | .error (.rateLimited _) => place (.limited retry)
  | .error error =>
    if !retry.refreshed && isInvalidTenantAccessToken error then place (.stale retry generation)
    else result (.error error)
  | .ok id => result (.ok id)

/-- `invalidate_tenant_access_token`; the cache of tokens is not the provider. -/
def afterInvalidation (retry : Retry) : Outcome → σ
  | .error error => result (.error error)
  | .ok _ => place (.counting retry)

def retryTenantToken (request : Request) (adapter : Adapter) (now : Instant) :
    RetryPlace → Action Adapter σ Request Outcome α
  | .again retry => .waiting (place (.cooling retry))
  | .cooling retry => cooled place adapter now retry
  | .dispatching retry generation => .dispatched (place (.sending retry generation))
  | .sending retry generation =>
    .call (some request) fun _ outcome => afterOutcome place result retry generation outcome
  | .limited retry => .waiting (place (.blocking retry))
  | .blocking retry => .locked (blocked adapter now retry)
      (place (.again { retry with delay := min (retry.delay * 2) 60 }))
  | .stale retry generation =>
    .waiting (place (.comparing { retry with refreshed := true } generation))
  | .comparing retry generation => .locked adapter
      (place (if adapter.tokenGeneration = generation then .invalidating retry else .again retry))
  | .invalidating retry => .call none fun _ outcome => afterInvalidation place result retry outcome
  | .counting retry => .locked
      { adapter with tokenGeneration := min (adapter.tokenGeneration + 1) 18446744073709551615 }
      (place (.again retry))

end Retry

/-! ## Groups of cards -/

/-- The requests of an operation, in order. -/
inductive Work (α : Type) where
  | returns (result : Except ChannelError α)
  | request (request : Request) (next : Except ChannelError String → Work α)
  /-- Under the lock of the groups. -/
  | locked (change : Adapter → Adapter) (next : Adapter → Work α)

def postCard (conversation : ConversationRef) (page : Page) : Request :=
  .post conversation.conversationId page.json

def patchCard (id : String) (page : Page) : Request := .patch id page.json

def deleteCard (id : String) : Request := .delete id

/-- Confirmed pages are retracted before an error is reported. -/
def retract {α : Type} (error : ChannelError) : List SentCard → Work α
  | [] => .returns (.error error)
  | card :: rest => .request (deleteCard card.id) fun reply =>
    match reply with
    | .error cleanup => .returns (.error (.transport ("partial Feishu card delivery: " ++
        error.display ++ "; cleanup failed: " ++ cleanup.display)))
    | .ok _ => retract error rest

def tracked (message : MessageRef) (cards : CardGroup) (adapter : Adapter) : Adapter :=
  if cards.needsTracking then { adapter with views := update adapter.views message (some cards) }
  else adapter

/-- A view has at least one page. -/
def firstId (cards : CardGroup) : String := (cards.head?.map SentCard.id).getD ""

def sendPages (conversation : ConversationRef) : List Page → CardGroup → Work MessageRef
  | [], cards =>
    let message : MessageRef := ⟨conversation, firstId cards⟩
    .locked (tracked message cards) fun _ => .returns (.ok message)
  | page :: pages, cards => .request (postCard conversation page) fun reply =>
    match reply with
    | .ok id => sendPages conversation pages (cards ++ [⟨id, some page⟩])
    | .error error => retract error cards.reverse

/-- Whether a card shows a page already; ticks only refresh the last page. -/
def unchanged (count index : Nat) (page previous : Page) : Bool :=
  if previous.json = page.json then true
  else
    let previousView : OutboundView :=
      if index + 1 < count && page.view.status = .running then
        { previous.view with subtitle := page.view.subtitle }
      else previous.view
    previousView = page.view

def kept (message : MessageRef) (cards : CardGroup) (adapter : Adapter) : Adapter :=
  { adapter with views := update adapter.views message (some cards) }

def untracked (message : MessageRef) (cards : CardGroup) (adapter : Adapter) : Adapter :=
  if cards.needsTracking then adapter
  else { adapter with views := update adapter.views message none }

def deletePages (message : MessageRef) (cards : CardGroup) : List SentCard → Work Unit
  | [] => .locked (untracked message cards) fun _ => .returns (.ok ())
  | card :: rest => .request (deleteCard card.id) fun reply =>
    match reply with
    | .error error => .returns (.error error)
    | .ok _ => .locked (kept message (cards ++ rest.reverse)) fun _ => deletePages message cards rest

def updatePages (message : MessageRef) (count : Nat) : Nat → List Page → CardGroup → Work Unit
  | _, [], cards => deletePages message (cards.take count) (cards.drop count).reverse
  | index, page :: pages, cards =>
    match cards[index]? with
    | some card =>
      if 1 < count && card.page.any (unchanged count index page) then
        updatePages message count (index + 1) pages cards
      else
        .request (patchCard card.id page) fun reply =>
          match reply with
          | .error error => .returns (.error error)
          | .ok _ =>
            let patched := cards.set index ⟨card.id, some page⟩
            .locked (kept message patched) fun _ =>
              updatePages message count (index + 1) pages patched
    | none => .request (postCard message.conversation page) fun reply =>
        match reply with
        | .error error => .returns (.error error)
        | .ok id =>
          let posted := cards ++ [⟨id, some page⟩]
          .locked (kept message posted) fun _ =>
            updatePages message count (index + 1) pages posted

def group (message : MessageRef) (adapter : Adapter) : CardGroup :=
  (adapter.views message).getD [⟨message.messageId, none⟩]

/-! ## Operations -/

inductive Place (α : Type) where
  | outbound (work : Work α)
  | queued (work : Work α)
  | head (work : Work α)
  | working (work : Work α)
  | retrying (place : RetryPlace) (request : Request) (next : Except ChannelError String → Work α)

/-- A place, with the number of requests that have been begun. -/
structure Position (α : Type) where
  requests : Nat
  place : Place α

def ensureFeishu {α : Type} (conversation : ConversationRef) (place : Place α) : Place α :=
  if conversation.channel = .feishu then place
  else .working (.returns (.error
    (.invalidPayload "Feishu adapter received a non-Feishu conversation")))

/-- `paginate(view)?`, and the queue of the conversation. -/
def outbound {α : Type} (pages : Except ChannelError (List Page)) (work : List Page → Work α) :
    Place α :=
  match pages with
  | .error error => .working (.returns (.error error))
  | .ok pages => .outbound (work pages)

def sendCards (conversation : ConversationRef) (pages : Except ChannelError (List Page)) :
    Place MessageRef :=
  ensureFeishu conversation (outbound pages fun pages => sendPages conversation pages [])

def updateCards (conversation : ConversationRef) (message : MessageRef)
    (pages : Except ChannelError (List Page)) : Place Unit :=
  ensureFeishu conversation
    (if conversation ≠ message.conversation then .working (.returns (.error
      (.invalidPayload "Feishu update conversation does not match the message")))
    else outbound pages fun pages =>
      .locked (fun adapter => kept message (group message adapter) adapter) fun adapter =>
        updatePages message pages.length 0 pages (group message adapter))

section Act

variable {α : Type}

def act : Position α → Adapter → Instant → Action Adapter (Position α) Request Outcome α
  | ⟨requests, .outbound work⟩, _, _ => .waiting ⟨requests, .queued work⟩
  | ⟨requests, .queued work⟩, adapter, _ => .locked adapter ⟨requests, .head work⟩
  | ⟨requests, .head work⟩, _, _ => .dispatched ⟨requests, .working work⟩
  | ⟨_, .working (.returns result)⟩, _, _ => .returns result
  | ⟨requests, .working (.locked change next)⟩, adapter, _ =>
    .locked (change adapter) ⟨requests, .working (next adapter)⟩
  | ⟨requests, .working (.request request next)⟩, _, _ =>
    .waiting ⟨requests + 1, .retrying (.cooling .new) request next⟩
  | ⟨requests, .retrying place request next⟩, adapter, now =>
    retryTenantToken (fun place => ⟨requests, .retrying place request next⟩)
      (fun result => ⟨requests, .working (next (result.mapError deliveryError))⟩)
      request adapter now place

def operation (place : Place α) : Operation Adapter (Position α) Request Outcome α where
  start := ⟨0, place⟩
  act

end Act

/-- An error of the interface, and a request that was not made, are definite. -/
def refuses : Outcome → Bool
  | .error (.other _) | .ok _ => false
  | .error _ => true

def Retracted (answers : List (Request × Outcome)) : Request × Outcome → Prop
  | (.post _ _, .ok id) => ∃ reply, (Request.delete id, Except.ok reply) ∈ answers
  | (.delete id, .ok _) => ∃ conversation card, (Request.post conversation card, .ok id) ∈ answers
  | _ => False

def provider : Provider Request Outcome := ⟨refuses, Retracted⟩

end Agentix.Delivery.Feishu
