import Agentix.Feishu.Groups
import Mathlib.Data.List.Nodup

/-! # What a tracked group knows of the chat -/

namespace Agentix.Feishu

open Lib List Function

variable {chat chat' chat'' : Chat} {work : Work} {id other count index : Nat} {page : Page}
  {pages : List Page} {content : Option Page} {reply : Reply} {ending : Ending}
  {posted confirmed : List Nat} {card card' : SentCard} {cards done rest keep : List SentCard}

/-! ## One call -/

/-- The card is as it was. -/
structure Chat.Same (chat chat' : Chat) (id : Nat) : Prop where
  screen : chat'.cards id = chat.cards id
  unsure : id ∈ chat'.unsure ↔ id ∈ chat.unsure

theorem Chat.Same.refl : chat.Same chat id := ⟨rfl, Iff.rfl⟩

theorem Chat.Same.trans (first : chat.Same chat' id) (second : chat'.Same chat'' id) :
    chat.Same chat'' id :=
  ⟨second.screen.trans first.screen, second.unsure.trans first.unsure⟩

/-- How a call leaves the chat. -/
inductive Chat.Called (chat : Chat) (id : Nat) (content : Option Page) : Chat → Ending → Prop
  | unperformed {ending : Ending} (failed : ending ≠ .ok) : chat.Called id content chat ending
  | confirmed : chat.Called id content
      { chat with
        cards := Function.update chat.cards id content, unsure := chat.unsure.filter (· ≠ id) } .ok
  | unanswered {ending : Ending} (failed : ending ≠ .ok) : chat.Called id content
      { chat with
        cards := Function.update chat.cards id content, unsure := id :: chat.unsure } ending

theorem Chat.called : chat.Called id content (chat.call id content reply).1
    (chat.call id content reply).2 := by
  have failed : Ending.failed ≠ .ok := by decide
  have dropped : Ending.dropped ≠ .ok := by decide
  cases reply with
  | done => exact .confirmed
  | rejected => exact .unperformed failed
  | lost performed =>
    cases performed with
    | true => exact .unanswered failed
    | false => exact .unperformed failed
  | dropped performed =>
    cases performed with
    | true => exact .unanswered dropped
    | false => exact .unperformed dropped

theorem Chat.call_ending : (chat.call id content reply).2 = reply.ending := by
  unfold Chat.call
  split <;> rfl

theorem Chat.call_screen (performs : reply.performs = true) :
    (chat.call id content reply).1.cards id = content := by
  unfold Chat.call
  rw [if_pos performs]
  exact update_self _ _ _

theorem Reply.performs_of_ok (ok : reply.ending = .ok) : reply.performs = true := by
  cases reply with
  | done => rfl
  | rejected | lost | dropped => cases ok

namespace Chat.Called

variable (called : chat.Called id content chat' ending)

include called

theorem next : chat'.next = chat.next := by
  cases called <;> rfl

theorem others (ne : other ≠ id) : chat.Same chat' other := by
  cases called with
  | unperformed => exact .refl
  | confirmed => exact ⟨update_of_ne ne _ _, by simp [ne]⟩
  | unanswered => exact ⟨update_of_ne ne _ _, by simp [ne]⟩

theorem screen (ok : ending = .ok) : chat'.cards id = content := by
  cases called with
  | confirmed => exact update_self _ _ _
  | unperformed failed | unanswered failed => exact absurd ok failed

theorem sure (ok : ending = .ok) : id ∉ chat'.unsure := by
  cases called with
  | confirmed => simp
  | unperformed failed | unanswered failed => exact absurd ok failed

theorem unsure (failed : ending ≠ .ok) (sure : id ∉ chat'.unsure) : chat' = chat := by
  cases called with
  | unperformed => rfl
  | confirmed => exact absurd rfl failed
  | unanswered => simp at sure

end Chat.Called

/-! ## Tracking -/

/-- The card, where there is one, shows no enabled action. -/
def Chat.Inert (chat : Chat) (id : Nat) : Prop :=
  ∀ page, chat.cards id = some page → page.inert = true

/-- What the group knows of the card is on the screen. -/
def SentCard.Faithful (card : SentCard) (chat : Chat) : Prop :=
  match card.page with
  | some page => chat.cards card.id = some page
  | none => chat.Inert card.id

theorem Chat.Same.inert (same : chat.Same chat' id) : chat'.Inert id ↔ chat.Inert id := by
  unfold Chat.Inert
  rw [same.screen]

theorem Chat.Same.faithful (same : chat.Same chat' card.id) (faithful : card.Faithful chat) :
    card.Faithful chat' := by
  unfold SentCard.Faithful at faithful ⊢
  cases known : card.page with
  | some page =>
    rw [known] at faithful
    exact same.screen.trans faithful
  | none =>
    rw [known] at faithful
    exact same.inert.mpr faithful

structure Tracks (chat : Chat) (posted confirmed : List Nat) (cards : List SentCard) : Prop where
  fresh : ∀ id ∈ posted, id < chat.next
  known : ∀ id ∈ confirmed, id ∈ posted
  once : confirmed.Nodup
  order : (cards.map SentCard.id).Sublist confirmed
  gone : ∀ id ∈ confirmed, id ∉ cards.map SentCard.id → chat.cards id = none
  faithful : ∀ card ∈ cards, card.id ∉ chat.unsure → card.Faithful chat
  plain : ∀ id ∈ posted, id ∉ confirmed → chat.Inert id

namespace Tracks

theorem confirmed_of_mem (tracks : Tracks chat posted confirmed cards) (mem : card ∈ cards) :
    card.id ∈ confirmed :=
  tracks.order.subset (mem_map_of_mem mem)

theorem lt_next (tracks : Tracks chat posted confirmed cards) (mem : card ∈ cards) :
    card.id < chat.next :=
  tracks.fresh _ (tracks.known _ (tracks.confirmed_of_mem mem))

/-- The other cards of the group are other cards of the chat. -/
theorem differs (tracks : Tracks chat posted confirmed (done ++ card :: rest))
    (mem : card' ∈ done ∨ card' ∈ rest) : card'.id ≠ card.id := by
  have nodup := tracks.order.nodup tracks.once
  rw [map_append, map_cons, nodup_append, nodup_cons] at nodup
  obtain ⟨-, ⟨absent, -⟩, disjoint⟩ := nodup
  intro same
  obtain before | after := mem
  · exact disjoint _ (mem_map_of_mem before) card.id mem_cons_self same
  · exact absent (same ▸ mem_map_of_mem after)

/-- One card of the group changes, on the screen and in what is known of it. -/
theorem replace (tracks : Tracks chat posted confirmed (done ++ card :: rest))
    (others : ∀ other, other ≠ card.id → chat.Same chat' other) (next : chat'.next = chat.next)
    (same : card'.id = card.id) (faithful : card'.id ∉ chat'.unsure → card'.Faithful chat') :
    Tracks chat' posted confirmed (done ++ card' :: rest) := by
  have ids : (done ++ card' :: rest).map SentCard.id = (done ++ card :: rest).map SentCard.id := by
    simp [same]
  constructor
  · rw [next]
    exact tracks.fresh
  · exact tracks.known
  · exact tracks.once
  · rw [ids]
    exact tracks.order
  · intro id mem absent
    rw [ids] at absent
    have ne : id ≠ card.id := by
      rintro rfl
      simp at absent
    rw [(others id ne).screen]
    exact tracks.gone id mem absent
  · intro sent mem sure
    have known : ∀ sent, sent ∈ done ∨ sent ∈ rest → sent.id ∉ chat'.unsure →
        sent.Faithful chat' := by
      intro sent mem sure
      have unaffected := others _ (tracks.differs mem)
      refine unaffected.faithful (tracks.faithful sent ?_ (mt unaffected.unsure.mpr sure))
      obtain before | after := mem
      · exact mem_append_left _ before
      · exact mem_append_right _ (mem_cons_of_mem _ after)
    obtain before | here := mem_append.mp mem
    · exact known sent (.inl before) sure
    · obtain rfl | after := mem_cons.mp here
      · exact faithful sure
      · exact known sent (.inr after) sure
  · intro id mem unconfirmed
    have ne : id ≠ card.id := by
      rintro rfl
      exact unconfirmed (tracks.confirmed_of_mem (by simp))
    rw [(others id ne).inert]
    exact tracks.plain id mem unconfirmed

theorem failed (tracks : Tracks chat posted confirmed (done ++ card :: rest))
    (called : chat.Called card.id content chat' ending) (failed : ending ≠ .ok) :
    Tracks chat' posted confirmed (done ++ card :: rest) := by
  refine tracks.replace (fun _ ne => called.others ne) called.next rfl fun sure => ?_
  have same := called.unsure failed sure
  subst same
  exact tracks.faithful card (by simp) sure

theorem patched (tracks : Tracks chat posted confirmed (done ++ card :: rest))
    (called : chat.Called card.id (some page) chat' .ok) :
    Tracks chat' posted confirmed (done ++ { card with page := some page } :: rest) :=
  tracks.replace (fun _ ne => called.others ne) called.next rfl
    fun _ => called.screen rfl

theorem deleted (tracks : Tracks chat posted confirmed (keep ++ [card]))
    (called : chat.Called card.id none chat' .ok) : Tracks chat' posted confirmed keep := by
  have blank := called.screen rfl
  have replaced : Tracks chat' posted confirmed (keep ++ [{ card with page := none }]) := by
    refine tracks.replace (fun _ ne => called.others ne) called.next rfl fun _ => ?_
    intro page shown
    rw [blank] at shown
    cases shown
  refine { replaced with order := ?_, gone := ?_, faithful := ?_ }
  · refine List.Sublist.trans ?_ tracks.order
    rw [map_append]
    exact sublist_append_left _ _
  · intro id mem absent
    by_cases here : id = card.id
    · rw [here]
      exact blank
    · exact replaced.gone id mem (by simpa [here] using absent)
  · intro sent mem
    exact replaced.faithful sent (mem_append_left _ mem)

theorem posted_card (page : Page) (tracks : Tracks work.chat work.posted work.confirmed cards)
    (plain : (work.post page).2 ≠ .ok → page.inert = true) :
    Tracks (work.post page).1.chat (work.post page).1.posted (work.post page).1.confirmed
      (if (work.post page).2 = .ok then cards ++ [⟨work.chat.next, some page⟩] else cards) := by
  have called : Chat.Called { work.chat with next := work.chat.next + 1 } work.chat.next
      (some page) (work.post page).1.chat (work.post page).2 := Chat.called
  -- Tracked cards are older than the next id, so the new card disturbs none of them.
  have unknown : work.chat.next ∉ work.posted := fun mem =>
    Nat.lt_irrefl _ (tracks.fresh _ mem)
  have same : ∀ id ∈ work.posted, work.chat.Same (work.post page).1.chat id := by
    intro id mem
    have unaffected := called.others fun here => unknown (here ▸ mem)
    exact ⟨unaffected.screen, unaffected.unsure⟩
  have next : (work.post page).1.chat.next = work.chat.next + 1 := called.next
  have posted : ∀ id ∈ (work.post page).1.posted,
      id ∈ work.posted ∨ id = work.chat.next ∧ work.reply.performs = true := by
    intro id mem
    unfold Work.post at mem
    dsimp only at mem
    split at mem
    · rename_i performs
      obtain old | here := mem_append.mp mem
      · exact .inl old
      · exact .inr ⟨mem_singleton.mp here, performs⟩
    · exact .inl mem
  have kept : ∀ id ∈ work.posted, id ∈ (work.post page).1.posted := by
    intro id mem
    unfold Work.post
    dsimp only
    split
    · exact mem_append_left _ mem
    · exact mem
  have faithful : ∀ card ∈ cards, card.id ∉ (work.post page).1.chat.unsure →
      card.Faithful (work.post page).1.chat := by
    intro card mem sure
    have unaffected := same card.id (tracks.known _ (tracks.confirmed_of_mem mem))
    exact unaffected.faithful (tracks.faithful card mem (mt unaffected.unsure.mpr sure))
  have fresh : ∀ id ∈ (work.post page).1.posted, id < (work.post page).1.chat.next := by
    intro id mem
    rw [next]
    obtain old | ⟨rfl, -⟩ := posted id mem
    · exact Nat.lt_succ_of_lt (tracks.fresh id old)
    · exact Nat.lt_succ_self _
  -- A call that did not succeed may have posted all the same; then the page is inert.
  by_cases ok : (work.post page).2 = .ok
  · have performs : work.reply.performs = true :=
      Reply.performs_of_ok (Chat.call_ending.symm.trans ok)
    have here : work.chat.next ∈ (work.post page).1.posted := by
      unfold Work.post
      dsimp only
      rw [if_pos performs]
      simp
    have confirmed : (work.post page).1.confirmed = work.confirmed ++ [work.chat.next] := if_pos ok
    rw [if_pos ok, confirmed]
    constructor
    · exact fresh
    · intro id mem
      obtain old | new := mem_append.mp mem
      · exact kept id (tracks.known id old)
      · rwa [mem_singleton.mp new]
    · rw [nodup_append]
      refine ⟨tracks.once, nodup_singleton _, ?_⟩
      intro id old new mem same
      rw [mem_singleton.mp mem] at same
      exact unknown (same ▸ tracks.known id old)
    · rw [map_append]
      exact tracks.order.append (List.Sublist.refl _)
    · intro id mem absent
      rw [map_append, mem_append, not_or] at absent
      obtain old | new := mem_append.mp mem
      · rw [(same id (tracks.known id old)).screen]
        exact tracks.gone id old absent.1
      · exact absurd new absent.2
    · intro card mem sure
      obtain old | new := mem_append.mp mem
      · exact faithful card old sure
      · rw [mem_singleton.mp new]
        exact called.screen ok
    · intro id mem unconfirmed
      rw [mem_append, not_or] at unconfirmed
      obtain old | ⟨rfl, -⟩ := posted id mem
      · exact (same id old).inert.mpr (tracks.plain id old unconfirmed.1)
      · simp at unconfirmed
  · have confirmed : (work.post page).1.confirmed = work.confirmed := if_neg ok
    rw [if_neg ok, confirmed]
    refine ⟨fresh, fun id mem => kept id (tracks.known id mem), tracks.once, tracks.order,
      ?_, faithful, ?_⟩
    · intro id mem absent
      rw [(same id (tracks.known id mem)).screen]
      exact tracks.gone id mem absent
    · intro id mem unconfirmed
      obtain old | ⟨rfl, performs⟩ := posted id mem
      · exact (same id old).inert.mpr (tracks.plain id old unconfirmed)
      · intro shown screen
        have content : (work.post page).1.chat.cards work.chat.next = some page :=
          Chat.call_screen performs
        rw [content, Option.some.injEq] at screen
        exact screen ▸ plain ok

end Tracks

end Agentix.Feishu
