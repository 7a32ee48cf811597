import Agentix.Feishu.Updating

/-! # Card groups mirror their views -/

namespace Agentix.Feishu

open Lib List Option

variable {s s' : State} {chat : Chat} {work : Work} {message id count index : Nat} {page : Page}
  {pages : Pages} {replies : List Reply} {unlocked : Bool} {ending : Ending} {card : SentCard}
  {cards : List SentCard} {renderer : Renderer} {call : Call}

/-! ## What is claimed -/

/-- The card shows the page, on all pages but the last of a running view perhaps with an older
subtitle. -/
def Shows (count index : Nat) (page : Page) (chat : Chat) (id : Nat) : Prop :=
  ∃ shown, chat.cards id = some shown ∧
    (shown.json = page.json ∨ refreshed count index shown.view page = page.view)

def State.ids (s : State) (message : Nat) : List Nat := (s.group message).map SentCard.id

structure State.Mirrors (s : State) (message : Nat) (pages : List Page) : Prop where
  length : (s.ids message).length = pages.length
  order : (s.ids message).Sublist s.confirmed
  shown : ∀ i id page, (s.ids message)[i]? = some id → pages[i]? = some page →
    Shows pages.length i page s.chat id
  deleted : ∀ id ∈ s.confirmed, id ∉ s.ids message → s.chat.cards id = none

def State.Achieves (s : State) : Call → Prop
  | .update pages _ _ => ∀ message, s.message = some message → s.Mirrors message pages.toList
  | .disable _ _ => ∀ id ∈ s.posted, s.chat.Inert id
  | .send _ _ _ => True
  | .waiting => True

/-- A card that the call passes over, but on which an earlier call was performed without an
answer, shows what it is taken to show. -/
def State.Careful (s : State) : Call → Prop
  | .update pages _ _ => ∀ message, s.message = some message → ∀ i card page,
    (s.group message)[i]? = some card → pages.toList[i]? = some page →
      card.unchanged pages.toList.length i page = true → card.id ∈ s.chat.unsure →
        Shows pages.toList.length i page s.chat card.id
  | .disable _ _ => ∀ card ∈ s.tracked.getD [], card.quiet = true → card.id ∈ s.chat.unsure →
    s.chat.Inert card.id
  | .send _ _ _ => True
  | .waiting => True

/-! ## What a group keeps -/

structure State.Sound (s : State) (message : Nat) : Prop where
  tracks : Tracks s.chat s.posted s.confirmed (s.group message)
  first : (s.ids message).head? = some message
  loose : s.tracked = none → s.chat.Inert message

/-- What an operation leaves. -/
structure Settled (s : State) (message : Nat) (cards : List SentCard) (work : Work)
    (ending : Ending) (s' : State) (ending' : Ending) : Prop where
  message_eq : s'.message = s.message
  chat : s'.chat = work.chat
  posted : s'.posted = work.posted
  confirmed : s'.confirmed = work.confirmed
  ids : s'.ids message = cards.map SentCard.id
  ok : ending' = .ok → ending = .ok
  sound : (ending = .ok → needsTracking cards = false → work.chat.Inert message) → s'.Sound message

theorem single_of_untracked (first : (cards.map SentCard.id).head? = some message)
    (untracked : needsTracking cards = false) : ∃ page, cards = [⟨message, page⟩] ∧
      ∀ known, page = some known → known.inert = true := by
  simp only [needsTracking, Bool.or_eq_false_iff, decide_eq_false_iff_not, not_lt,
    List.any_eq_false] at untracked
  cases cards with
  | nil => cases first
  | cons card rest =>
    have alone : rest = [] := by
      have few := untracked.1
      rw [length_cons] at few
      exact length_eq_zero_iff.mp (by omega)
    obtain ⟨id, page⟩ := card
    simp only [map_cons, head?_cons, some.injEq] at first
    subst alone first
    refine ⟨page, rfl, fun known same => ?_⟩
    subst same
    simpa using untracked.2 ⟨id, some known⟩ (by simp)

theorem settled {ending' : Ending} (tracks : work.Tracks cards)
    (first : (cards.map SentCard.id).head? = some message)
    (settle : s.settle cards work ending unlocked = (s', ending')) :
    Settled s message cards work ending s' ending' := by
  unfold State.settle at settle
  dsimp only at settle
  by_cases untracked : ending = .ok ∧ needsTracking cards = false
  · rw [if_pos untracked] at settle
    cases unlocked with
    | true =>
      cases settle
      obtain ⟨page, rfl, -⟩ := single_of_untracked first untracked.2
      refine ⟨rfl, rfl, rfl, rfl, rfl, fun _ => untracked.1, fun inert => ?_⟩
      have blank := inert untracked.1 untracked.2
      refine ⟨{ tracks with faithful := ?_ }, rfl, fun _ => blank⟩
      intro card mem _
      rw [mem_singleton.mp mem]
      exact blank
    | false =>
      cases settle
      exact ⟨rfl, rfl, rfl, rfl, rfl, fun _ => untracked.1, fun _ => ⟨tracks, first, by simp⟩⟩
  · rw [if_neg untracked] at settle
    cases settle
    exact ⟨rfl, rfl, rfl, rfl, rfl, id, fun _ => ⟨tracks, first, by simp⟩⟩

/-! ## Updates -/

section Updates

variable {shown : List Page} {result : List SentCard × Work × Ending}

/-- Every card of the result was passed over or confirmed. -/
def AllShown (s : State) (message : Nat) (pages : List Page) (cards : List SentCard)
    (chat : Chat) : Prop :=
  ∀ i page, pages[i]? = some page → ∃ card, cards[i]? = some card ∧
    (PassedOver pages.length i page s.chat chat (s.group message) i card ∨
      Confirmed pages.length i page chat (s.group message) i card)

theorem not_unchanged_of_single (single : count ≤ 1) : card.unchanged count index page = false := by
  simp [SentCard.unchanged, Nat.not_lt.mpr single]

/-- What a card that is passed over is known to show, it shows. -/
theorem shows_of_unchanged (faithful : card.Faithful chat)
    (unchanged : card.unchanged count index page = true) : Shows count index page chat card.id := by
  simp only [SentCard.unchanged, Bool.and_eq_true, Option.any_eq_true, Bool.or_eq_true,
    decide_eq_true_eq] at unchanged
  obtain ⟨-, previous, known, same⟩ := unchanged
  unfold SentCard.Faithful at faithful
  rw [known] at faithful
  exact ⟨previous, faithful, same⟩

theorem mirrors_iff_careful (sound : s.Sound message)
    (tracks : Tracks s'.chat s'.posted s'.confirmed cards)
    (ids : s'.ids message = cards.map SentCard.id) (length : cards.length = shown.length)
    (all : AllShown s message shown cards s'.chat) :
    s'.Mirrors message shown ↔ ∀ i card page, (s.group message)[i]? = some card →
      shown[i]? = some page → card.unchanged shown.length i page = true →
        card.id ∈ s.chat.unsure → Shows shown.length i page s.chat card.id := by
  constructor
  · intro mirrors i card page old found unchanged _
    obtain ⟨sent, here, passed | confirmed⟩ := all i page found
    · obtain rfl := some.inj (passed.old.symm.trans old)
      have at_i : (s'.ids message)[i]? = some sent.id := by
        rw [ids, getElem?_map, here, map_some]
      obtain ⟨page', screen, same⟩ := mirrors.shown i sent.id page at_i found
      exact ⟨page', passed.same.screen.symm.trans screen, same⟩
    · have changed := confirmed.changed card old
      rw [unchanged] at changed
      cases changed
  · intro careful
    refine ⟨?_, ids ▸ tracks.order, ?_, fun id mem absent => tracks.gone id mem (ids ▸ absent)⟩
    · rw [ids, length_map, length]
    · intro i id page at_i found
      obtain ⟨sent, here, shows⟩ := all i page found
      rw [ids, getElem?_map, here, map_some, some.injEq] at at_i
      subst at_i
      obtain passed | confirmed := shows
      · have before : Shows shown.length i page s.chat sent.id := by
          by_cases unsure : sent.id ∈ s.chat.unsure
          · exact careful i sent page passed.old found passed.unchanged unsure
          · have mem := mem_of_getElem? passed.old
            exact shows_of_unchanged (sound.tracks.faithful sent mem unsure) passed.unchanged
        obtain ⟨page', screen, same⟩ := before
        exact ⟨page', passed.same.screen.trans screen, same⟩
      · have faithful := tracks.faithful sent (mem_of_getElem? here) confirmed.sure
        unfold SentCard.Faithful at faithful
        rw [confirmed.noted] at faithful
        exact ⟨page, faithful, .inl rfl⟩

theorem update_of_failed
    (done : updatePages pages.toList.length 0 pages.toList (s.group message) (s.work replies) = result)
    (failed : result.2.2 ≠ .ok) :
    s.update message pages replies unlocked =
      s.settle result.1 result.2.1 result.2.2 unlocked := by
  unfold State.update
  dsimp only
  rw [done, if_neg failed]

theorem update_of_ok {extra : List SentCard × Work × Ending}
    (done : updatePages pages.toList.length 0 pages.toList (s.group message) (s.work replies) = result)
    (ok : result.2.2 = .ok)
    (deletes : deleteCards (result.1.drop pages.toList.length).reverse result.2.1 = extra) :
    s.update message pages replies unlocked =
      s.settle (result.1.take pages.toList.length ++ extra.1.reverse) extra.2.1 extra.2.2
        unlocked := by
  unfold State.update
  dsimp only
  rw [done, if_pos ok, deletes]

theorem pages_plain (rest : 0 < count) : ∀ page ∈ pages.toList.drop count, page.inert = true := by
  intro page mem
  obtain ⟨n, rfl⟩ := Nat.exists_eq_succ_of_ne_zero (Nat.pos_iff_ne_zero.mp rest)
  have later : page ∈ pages.rest := mem_of_mem_drop mem
  simp [Page.inert, pages.plain page later]

theorem head_of_kept {ids : List Nat} (first : ids.head? = some message)
    (kept : ids <+: cards.map SentCard.id) : (cards.map SentCard.id).head? = some message := by
  obtain ⟨more, same⟩ := kept
  rw [← same]
  cases ids with
  | nil => cases first
  | cons => exact first

theorem allShown_of_deleted {extra : List SentCard × Work × Ending}
    (updates : Updated shown.length 0 shown [] (s.group message) (s.work replies) result.1 result.2.1 result.2.2)
    (ok : result.2.2 = .ok)
    (deletes : Deleted (result.1.take shown.length) (result.1.drop shown.length).reverse result.2.1 extra.1 extra.2.1 extra.2.2) :
    AllShown s message shown (result.1.take shown.length) extra.2.1.chat ∧
      (result.1.take shown.length).length = shown.length := by
  have shows := updates.shown ok
  have same : ∀ card ∈ result.1.take shown.length,
      result.2.1.chat.Same extra.2.1.chat card.id := by
    intro card kept
    refine deletes.others _ fun mem => ?_
    obtain ⟨other, dropped, equal⟩ := mem_map.mp mem
    have tracks : result.2.1.Tracks result.1 := updates.tracks
    have nodup := tracks.order.nodup tracks.once
    rw [← take_append_drop shown.length result.1, map_append, nodup_append] at nodup
    exact nodup.2.2 card.id (mem_map_of_mem kept) other.id
      (mem_map_of_mem (mem_reverse.mp dropped)) equal.symm
  have long : shown.length ≤ result.1.length := by
    by_contra short
    obtain ⟨card, here, -⟩ := shows result.1.length _ (getElem?_eq_getElem (by omega))
    simp at here
  constructor
  · intro i page found
    obtain ⟨card, here, spec⟩ := shows i page found
    have inside : i < shown.length := (List.getElem?_eq_some_iff.mp found).1
    have kept : (result.1.take shown.length)[i]? = some card := by
      rw [getElem?_take_of_lt inside, here]
    have unaffected := same card (mem_of_getElem? kept)
    rw [Nat.zero_add] at spec
    refine ⟨card, kept, ?_⟩
    obtain ⟨old, unchanged, passed⟩ | ⟨noted, sure, changed⟩ := spec
    · exact .inl ⟨old, unchanged, passed.trans unaffected⟩
    · exact .inr ⟨noted, mt unaffected.unsure.mp sure, changed⟩
  · rw [length_take]
    omega

theorem inert_of_allShown {posted confirmed : List Nat}
    (tracks : Tracks chat posted confirmed cards) (length : cards.length = shown.length)
    (all : AllShown s message shown cards chat)
    (first : (cards.map SentCard.id).head? = some message)
    (untracked : needsTracking cards = false) : chat.Inert message := by
  obtain ⟨page, rfl, inert⟩ := single_of_untracked first untracked
  cases shown with
  | nil => cases length
  | cons shown rest =>
    have single : (shown :: rest).length ≤ 1 := Nat.le_of_eq length.symm
    obtain ⟨card, here, passed | confirmed⟩ := all 0 shown rfl
    · have changed : card.unchanged _ 0 shown = false := not_unchanged_of_single single
      rw [passed.unchanged] at changed
      cases changed
    · obtain rfl := some.inj here
      have noted : page = some shown := confirmed.noted
      have faithful := tracks.faithful _ (by simp) confirmed.sure
      unfold SentCard.Faithful at faithful
      rw [confirmed.noted] at faithful
      intro screen at_message
      rw [faithful, some.injEq] at at_message
      exact at_message ▸ inert shown noted

end Updates

theorem update_spec (sound : s.Sound message)
    (update : s.update message pages replies unlocked = (s', ending)) :
    s'.message = s.message ∧ s'.Sound message ∧
      (ending = .ok → (s'.Mirrors message pages.toList ↔
        ∀ i card page, (s.group message)[i]? = some card → pages.toList[i]? = some page →
          card.unchanged pages.toList.length i page = true → card.id ∈ s.chat.unsure →
            Shows pages.toList.length i page s.chat card.id)) := by
  -- A sound group has its first card, so only pages without controls are posted.
  have some_card : 0 < (s.group message).length := by
    refine length_pos_of_ne_nil fun none_sent => ?_
    have first := sound.first
    rw [State.ids, none_sent] at first
    cases first
  obtain ⟨result, updated_pages⟩ : ∃ result, updatePages pages.toList.length 0 pages.toList
    (s.group message) (s.work replies) = result := ⟨_, rfl⟩
  have updates : Updated pages.toList.length 0 pages.toList [] (s.group message) (s.work replies)
      result.1 result.2.1 result.2.2 := updated sound.tracks (pages_plain some_card) updated_pages
  have first := head_of_kept sound.first updates.kept
  have tracks : result.2.1.Tracks result.1 := updates.tracks
  -- The cards beyond the last page are deleted only after every page was shown.
  by_cases ok : result.2.2 = .ok
  · obtain ⟨extra, deleted_cards⟩ : ∃ extra, deleteCards
      (result.1.drop pages.toList.length).reverse result.2.1 = extra := ⟨_, rfl⟩
    rw [update_of_ok updated_pages ok deleted_cards] at update
    have deletes : Deleted (result.1.take pages.toList.length) _ _ extra.1 extra.2.1 extra.2.2 :=
      deleted (by simpa using tracks) deleted_cards
    obtain ⟨all, length⟩ := allShown_of_deleted updates ok deletes
    have kept_first : ((result.1.take pages.toList.length ++ extra.1.reverse).map
        SentCard.id).head? = some message := by
      have some_page : 0 < pages.toList.length := Nat.succ_pos _
      cases cards : result.1 with
      | nil =>
        rw [cards] at first
        cases first
      | cons card rest =>
        rw [cards] at first
        rw [map_append, head?_append, map_take]
        simpa [head?_take, some_page.ne'] using first
    have left := settled deletes.tracks kept_first update
    have whole : extra.2.2 = .ok → result.1.take pages.toList.length ++ extra.1.reverse =
        result.1.take pages.toList.length := by
      intro ended
      rw [deletes.done ended, reverse_nil, append_nil]
    have kept : extra.2.2 = .ok → extra.2.1.Tracks (result.1.take pages.toList.length) := by
      intro ended
      rw [← whole ended]
      exact deletes.tracks
    refine ⟨left.message_eq, left.sound ?_, fun finished => ?_⟩
    · intro ended untracked
      rw [whole ended] at kept_first untracked
      exact inert_of_allShown (kept ended) length all kept_first untracked
    · have ended := left.ok finished
      refine mirrors_iff_careful sound ?_ ?_ length ?_
      · rw [left.chat, left.posted, left.confirmed]
        exact kept ended
      · rw [left.ids, whole ended]
      · rw [left.chat]
        exact all
  · rw [update_of_failed updated_pages ok] at update
    have left := settled tracks first update
    exact ⟨left.message_eq, left.sound fun finished => absurd finished ok,
      fun finished => absurd (left.ok finished) ok⟩

/-! ## Disabling -/

/-- A message whose tracked cards show no enabled action shows none. -/
theorem inert_of_cards {posted confirmed : List Nat} (tracks : Tracks chat posted confirmed cards)
    (inert : ∀ id ∈ cards.map SentCard.id, chat.Inert id) : ∀ id ∈ posted, chat.Inert id := by
  intro id mem
  by_cases known : id ∈ confirmed
  · by_cases listed : id ∈ cards.map SentCard.id
    · exact inert id listed
    · intro page shown
      rw [tracks.gone id known listed] at shown
      cases shown
  · exact tracks.plain id mem known

/-- What a card that is passed over is known to show has no enabled action. -/
theorem inert_of_quiet (faithful : card.Faithful chat) (quiet : card.quiet = true) :
    chat.Inert card.id := by
  unfold SentCard.Faithful at faithful
  unfold SentCard.quiet at quiet
  cases known : card.page with
  | none =>
    rw [known] at faithful
    exact faithful
  | some page =>
    rw [known] at faithful quiet
    intro shown screen
    rw [faithful, some.injEq] at screen
    exact screen ▸ quiet

theorem disable_spec (sound : s.Sound message)
    (disable : s.disable renderer replies unlocked = (s', ending)) :
    s'.message = s.message ∧ (s.Careful (.disable replies unlocked) → s'.Sound message) ∧
      (ending = .ok → ((∀ id ∈ s'.posted, s'.chat.Inert id) ↔
        s.Careful (.disable replies unlocked))) := by
  unfold State.disable at disable
  cases tracked : s.tracked with
  | none =>
    rw [tracked] at disable
    cases disable
    refine ⟨rfl, fun _ => sound, fun _ => ⟨fun _ => ?_, fun _ => ?_⟩⟩
    · intro card mem
      simp [tracked] at mem
    · refine inert_of_cards sound.tracks fun id mem => ?_
      have here : id = message := by simpa [State.group, tracked] using mem
      rw [here]
      exact sound.loose tracked
  | some cards =>
    rw [tracked] at disable
    dsimp only at disable
    have group : s.group message = cards := by simp [State.group, tracked]
    have before : (s.work replies).Tracks cards := group ▸ sound.tracks
    obtain ⟨result, disabled_cards⟩ : ∃ result, disableCards renderer cards (s.work replies) =
      result := ⟨_, rfl⟩
    rw [disabled_cards] at disable
    have disables : Disabled [] cards (s.work replies) result.1 result.2.1 result.2.2 :=
      disabled before disabled_cards
    have tracks : result.2.1.Tracks result.1 := disables.tracks
    have first : (result.1.map SentCard.id).head? = some message := by
      rw [disables.ids, ← group]
      exact sound.first
    have left := settled tracks first disable
    have all : result.2.2 = .ok → s.Careful (.disable replies unlocked) →
        ∀ id ∈ result.2.1.posted, result.2.1.chat.Inert id := by
      intro ended careful
      refine inert_of_cards tracks fun id mem => ?_
      rw [disables.ids] at mem
      obtain ⟨card, here, rfl⟩ := mem_map.mp mem
      cases quiet : card.quiet with
      | false => exact disables.inert ended card here quiet
      | true =>
        refine (disables.quiet card here quiet).inert.mpr ?_
        by_cases unsure : card.id ∈ s.chat.unsure
        · exact careful card (by simpa [tracked] using here) quiet unsure
        · exact inert_of_quiet (before.faithful card here unsure) quiet
    refine ⟨left.message_eq, fun careful => left.sound fun ended _ => ?_, fun finished => ?_⟩
    · refine all ended careful message (tracks.known _ (tracks.order.subset ?_))
      exact mem_of_mem_head? first
    · rw [left.posted, left.chat]
      refine ⟨fun inert card mem quiet _ => ?_, all (left.ok finished)⟩
      have here : card ∈ cards := by simpa [tracked] using mem
      have listed : card.id ∈ result.1.map SentCard.id := by
        rw [disables.ids]
        exact mem_map_of_mem here
      exact (disables.quiet card here quiet).inert.mp
        (inert card.id (tracks.known _ (tracks.order.subset listed)))

/-! ## Sending -/

theorem send_spec (send : s.send pages replies unlocked = (s', ending)) (unsent : s.message = none) :
    ∀ message, s'.message = some message → s'.Sound message := by
  unfold State.send at send
  obtain ⟨result, posted⟩ : ∃ result, postPages pages.toList [] ⟨s.chat, replies, [], []⟩ =
    result := ⟨_, rfl⟩
  rw [posted] at send
  dsimp only at send
  intro message sent
  cases ended : result.2.2 with
  | ok =>
    have empty : Work.Tracks ⟨s.chat, replies, [], []⟩ [] :=
      ⟨by simp, by simp, .nil, .refl _, by simp, by simp, by simp⟩
    obtain ⟨tracks, sure⟩ := posted_pages empty (by simp [AllSure]) posted ended
    rw [ended] at send
    dsimp only at send
    split at send
    · cases send
      rw [unsent] at sent
      cases sent
    · cases send
      have first : (result.1.map SentCard.id).head? = some message := by
        rw [head?_map]
        exact sent
      cases tracking : needsTracking result.1 with
      | true =>
        simp only [if_true]
        exact ⟨tracks, first, by simp⟩
      | false =>
        obtain ⟨page, alone, inert⟩ := single_of_untracked first tracking
        rw [alone] at tracks sure
        obtain ⟨noted, sure⟩ := sure _ mem_cons_self
        obtain ⟨known, rfl⟩ := isSome_iff_exists.mp noted
        have screen : result.2.1.chat.cards message = some known :=
          tracks.faithful _ mem_cons_self sure
        have blank : result.2.1.chat.Inert message := by
          intro shown at_message
          rw [screen, some.injEq] at at_message
          exact at_message ▸ inert known rfl
        simp only [Bool.false_eq_true, if_false]
        refine ⟨{ tracks with faithful := ?_ }, rfl, fun _ => blank⟩
        intro card mem _
        rw [mem_singleton.mp mem]
        exact blank
  | failed =>
    rw [ended] at send
    cases send
    rw [unsent] at sent
    cases sent
  | dropped =>
    rw [ended] at send
    cases send
    rw [unsent] at sent
    cases sent

/-! ## Runs -/

/-- What is known of the message, once it was sent. -/
def State.Known (s : State) : Prop := ∀ message, s.message = some message → s.Sound message

theorem State.Known.perform (known : s.Known) (careful : s.Careful call)
    (performed : s.perform renderer call = some (s', ending)) : s'.Known := by
  unfold State.perform at performed
  cases sent : s.message with
  | none =>
    cases call with
    | send pages replies unlocked =>
      simp only [sent, some.injEq] at performed
      exact send_spec performed sent
    | update | disable | waiting => simp [sent] at performed
  | some message =>
    have sound := known message sent
    cases call with
    | send => simp [sent] at performed
    | update pages replies unlocked =>
      simp only [sent, some.injEq] at performed
      obtain ⟨same, kept, -⟩ := update_spec sound performed
      intro message' sent'
      rw [same, sent, some.injEq] at sent'
      exact sent' ▸ kept
    | disable replies unlocked =>
      simp only [sent, some.injEq] at performed
      obtain ⟨same, kept, -⟩ := disable_spec sound performed
      intro message' sent'
      rw [same, sent, some.injEq] at sent'
      exact sent' ▸ kept careful
    | waiting =>
      simp only [sent, some.injEq] at performed
      cases performed
      intro message' sent'
      obtain rfl : message = message' := some.inj sent'
      exact ⟨sound.tracks, sound.first, by simp⟩

theorem known_of_reachable (run : (system renderer).Reachable State.Careful s) : s.Known := by
  refine run.invariant State.Known ?_ ?_
  · intro message sent
    cases sent
  · intro s s' call _ careful known step
    obtain ⟨⟨after, ending⟩, performed, rfl⟩ := map_eq_some_iff.mp step
    exact known.perform careful performed

theorem groups_mirror_views (renderer : Renderer) (s s' : State) (call : Call)
    (run : (system renderer).Reachable State.Careful s)
    (performed : s.perform renderer call = some (s', .ok)) : s'.Achieves call ↔ s.Careful call := by
  have known := known_of_reachable run
  unfold State.perform at performed
  cases sent : s.message with
  | none =>
    cases call with
    | send => exact Iff.rfl
    | update | disable | waiting => simp [sent] at performed
  | some message =>
    have sound := known message sent
    cases call with
    | send | waiting => exact Iff.rfl
    | update pages replies unlocked =>
      simp only [sent, some.injEq] at performed
      obtain ⟨same, -, spec⟩ := update_spec sound performed
      have iff := spec rfl
      unfold State.Achieves State.Careful
      simp only [same, sent, some.injEq, forall_eq']
      exact iff
    | disable replies unlocked =>
      simp only [sent, some.injEq] at performed
      exact (disable_spec sound performed).2.2 rfl

/-! ## A message of two pages -/

def plainText : Renderer where
  render view := some view.title
  renderDisabled view := some view.title

def note (text : String) (actions : List ActionButton) : Page where
  view := ⟨[], text, none, "", .info, actions⟩
  json := text

def stop : ActionButton := ⟨false, "Stop", "t", .danger⟩

def twoPages (text : String) : Pages where
  first := note text []
  rest := [note "rest" []]
  plain := by simp [note]

def onePage (actions : List ActionButton) : Pages := ⟨note "note" actions, [], by simp⟩

/-- The message after it was sent. -/
def sentPages : State := (State.send {} (twoPages "a") [.done, .done] true).1

theorem sentPages_updated :
    (sentPages.update 0 (twoPages "b") [.done] true).1.Achieves
      (.update (twoPages "b") [.done] true) :=
  have careful : State.Careful {} (.send (twoPages "a") [.done, .done] true) := trivial
  have run : (system plainText).Reachable State.Careful sentPages := .step .start careful rfl
  (groups_mirror_views plainText sentPages _ _ run rfl).mpr fun _ _ _ _ _ _ _ _ unsure =>
    absurd unsure not_mem_nil

/-- A patch that was performed without an answer is not noticed by an update to the page from
before, nor is one that put an action on a card by the call that disables the actions. -/
theorem unanswered_patch_stays :
    (∃ s s', (system plainText).Reachable System.always s ∧
      s.perform plainText (.update (twoPages "a") [] true) = some (s', .ok) ∧
      s'.chat.cards 0 = some (note "b" []) ∧
      ¬s'.Achieves (.update (twoPages "a") [] true)) ∧
    ∃ s s', (system plainText).Reachable System.always s ∧
      s.perform plainText (.disable [] true) = some (s', .ok) ∧
      s'.chat.cards 0 = some (note "note" [stop]) ∧ ¬s'.Achieves (.disable [] true) := by
  constructor
  · refine ⟨_, _, System.reachable_of_foldlM [.send (twoPages "a") [.done, .done] true,
      .update (twoPages "b") [.lost true] true] rfl, rfl, rfl, fun achieves => ?_⟩
    obtain ⟨page, screen, same⟩ := (achieves 0 rfl).shown 0 0 (note "a" []) rfl rfl
    obtain rfl : note "b" [] = page := some.inj screen
    revert same
    decide
  · refine ⟨_, _, System.reachable_of_foldlM [.send (onePage []) [.done] true,
      .update (onePage [stop]) [.lost true] true] rfl, rfl, rfl, fun achieves => ?_⟩
    have inert := achieves 0 (by decide) (note "note" [stop]) rfl
    revert inert
    decide

end Agentix.Feishu
