import Agentix.Feishu.Tracking
import Mathlib.Data.List.Infix

/-! # What the operations on a group do -/

namespace Agentix.Feishu

open Lib List Option

variable {chat chat' : Chat} {work work' : Work} {id count index : Nat} {page : Page}
  {pages : List Page} {ending : Ending} {card : SentCard} {cards cards' done keep : List SentCard}
  {renderer : Renderer}

abbrev Work.Tracks (work : Work) (cards : List SentCard) : Prop :=
  Feishu.Tracks work.chat work.posted work.confirmed cards

/-- What is known after a patch, which is noted where it was confirmed. -/
theorem Tracks.patch {rest : List SentCard} (page : Page)
    (tracks : work.Tracks (done ++ card :: rest)) :
    (work.patch card.id page).1.Tracks (done ++
      (if (work.patch card.id page).2 = .ok then { card with page := some page } else card) ::
        rest) := by
  have called : work.chat.Called card.id (some page) (work.patch card.id page).1.chat
      (work.patch card.id page).2 := Chat.called
  split
  · rename_i ok
    rw [ok] at called
    exact Tracks.patched tracks called
  · rename_i failed
    exact Tracks.failed tracks called failed

/-! ## Pages -/

/-- The card was passed over: the page it is known to show is the one to show. -/
structure PassedOver (count index : Nat) (page : Page) (chat chat' : Chat) (cards : List SentCard)
    (i : Nat) (card : SentCard) : Prop where
  old : cards[i]? = some card
  unchanged : card.unchanged count index page = true
  same : chat.Same chat' card.id

/-- The page of the card was confirmed. -/
structure Confirmed (count index : Nat) (page : Page) (chat' : Chat) (cards : List SentCard)
    (i : Nat) (card : SentCard) : Prop where
  noted : card.page = some page
  sure : card.id ∉ chat'.unsure
  changed : ∀ old, cards[i]? = some old → old.unchanged count index page = false

structure Updated (count index : Nat) (pages : List Page) (done cards : List SentCard)
    (work : Work) (cards' : List SentCard) (work' : Work) (ending : Ending) : Prop where
  tracks : work'.Tracks (done ++ cards')
  kept : cards.map SentCard.id <+: cards'.map SentCard.id
  others : ∀ id < work.chat.next, id ∉ cards.map SentCard.id → work.chat.Same work'.chat id
  shown : ending = .ok → ∀ i page, pages[i]? = some page → ∃ card, cards'[i]? = some card ∧
    (PassedOver count (index + i) page work.chat work'.chat cards i card ∨
      Confirmed count (index + i) page work'.chat cards i card)

section Equations

variable {rest : List SentCard × Work × Ending}

theorem updatePages_posted (ok : (work.post page).2 = .ok)
    (later : updatePages count (index + 1) pages [] (work.post page).1 = rest) :
    updatePages count index (page :: pages) [] work =
      (⟨work.chat.next, some page⟩ :: rest.1, rest.2.1, rest.2.2) := by
  simp [updatePages, ok, later]

theorem updatePages_unposted (failed : (work.post page).2 ≠ .ok) :
    updatePages count index (page :: pages) [] work =
      ([], (work.post page).1, (work.post page).2) := by
  simp [updatePages, failed]

theorem updatePages_unchanged (same : card.unchanged count index page = true)
    (later : updatePages count (index + 1) pages cards work = rest) :
    updatePages count index (page :: pages) (card :: cards) work =
      (card :: rest.1, rest.2.1, rest.2.2) := by
  simp [updatePages, same, later]

theorem updatePages_patched (changed : card.unchanged count index page = false)
    (ok : (work.patch card.id page).2 = .ok)
    (later : updatePages count (index + 1) pages cards (work.patch card.id page).1 = rest) :
    updatePages count index (page :: pages) (card :: cards) work =
      ({ card with page := some page } :: rest.1, rest.2.1, rest.2.2) := by
  simp [updatePages, changed, ok, later]

theorem updatePages_unpatched (changed : card.unchanged count index page = false)
    (failed : (work.patch card.id page).2 ≠ .ok) :
    updatePages count index (page :: pages) (card :: cards) work =
      (card :: cards, (work.patch card.id page).1, (work.patch card.id page).2) := by
  simp [updatePages, changed, failed]

end Equations

/-- The first card is passed over or confirmed, and then the rest is updated. -/
theorem Updated.cons {middle : Work} {card' : SentCard}
    (others : ∀ id, id ≠ card.id → work.chat.Same middle.chat id)
    (next : middle.chat.next = work.chat.next) (fresh : card.id < work.chat.next)
    (absent : card.id ∉ cards.map SentCard.id) (same : card'.id = card.id)
    (head : card' = card ∧ card.unchanged count index page = true ∧ middle = work ∨
      card'.page = some page ∧ card.id ∉ middle.chat.unsure ∧
        card.unchanged count index page = false)
    (rest : Updated count (index + 1) pages (done ++ [card']) cards middle cards' work' ending) :
    Updated count index (page :: pages) done (card :: cards) work (card' :: cards') work'
      ending := by
  have later := rest.others card.id (by omega) absent
  refine ⟨by simpa using rest.tracks, ?_, ?_, ?_⟩
  · rw [map_cons, map_cons, same]
    exact cons_prefix_cons.mpr ⟨rfl, rest.kept⟩
  · intro id older unlisted
    rw [map_cons, mem_cons, not_or] at unlisted
    exact (others id unlisted.1).trans (rest.others id (by omega) unlisted.2)
  · intro finished i page' found
    cases i with
    | zero =>
      obtain rfl := some.inj found
      refine ⟨card', rfl, ?_⟩
      obtain ⟨rfl, unchanged, rfl⟩ | ⟨noted, sure, changed⟩ := head
      · exact .inl ⟨rfl, unchanged, later⟩
      · refine .inr ⟨noted, ?_, ?_⟩
        · rw [same]
          exact mt later.unsure.mp sure
        · rintro old here
          obtain rfl := some.inj here
          exact changed
    | succ i =>
      obtain ⟨sent, here, shown⟩ := rest.shown finished i page' found
      refine ⟨sent, here, ?_⟩
      rw [show index + (i + 1) = index + 1 + i by omega]
      obtain ⟨old, unchanged, unaffected⟩ | ⟨noted, sure, changed⟩ := shown
      · refine .inl ⟨old, unchanged, (others _ ?_).trans unaffected⟩
        intro equal
        exact absent (equal ▸ mem_map_of_mem (mem_of_getElem? old))
      · exact .inr ⟨noted, sure, changed⟩

theorem updated {result : List SentCard × Work × Ending} (tracks : work.Tracks (done ++ cards))
    (plain : ∀ page ∈ pages.drop cards.length, page.inert = true)
    (update : updatePages count index pages cards work = result) :
    Updated count index pages done cards work result.1 result.2.1 result.2.2 := by
  induction pages generalizing index done cards work result with
  | nil =>
    rw [updatePages] at update
    subst update
    refine ⟨tracks, prefix_refl _, fun _ _ _ => .refl, ?_⟩
    intro _ i page found
    simp at found
  | cons page pages ih =>
    cases cards with
    -- The remaining pages have no card yet and are posted.
    | nil =>
      have called : Chat.Called { work.chat with next := work.chat.next + 1 } work.chat.next
          (some page) (work.post page).1.chat (work.post page).2 := Chat.called
      have next : (work.post page).1.chat.next = work.chat.next + 1 := called.next
      have posted := Tracks.posted_card page tracks fun _ => plain page (by simp)
      have frame : ∀ id < work.chat.next, work.chat.Same (work.post page).1.chat id := by
        intro id older
        have same := called.others (Nat.ne_of_lt older)
        exact ⟨same.screen, same.unsure⟩
      by_cases ok : (work.post page).2 = .ok
      · rw [if_pos ok, append_nil] at posted
        rw [updatePages_posted ok rfl] at update
        subst update
        rw [← append_nil (done ++ _)] at posted
        have rest : Updated count (index + 1) pages (done ++ [⟨work.chat.next, some page⟩]) []
            (work.post page).1 _ _ _ := ih posted
          (fun later mem => plain later (by simpa using Or.inr mem)) rfl
        refine ⟨by simpa using rest.tracks, by simp, ?_, ?_⟩
        · intro id older _
          refine (frame id older).trans (rest.others id ?_ (by simp))
          omega
        · intro finished i page' found
          cases i with
          | zero =>
            obtain rfl := some.inj found
            have same := rest.others work.chat.next (by omega) (by simp)
            refine ⟨_, rfl, .inr ⟨rfl, ?_, by simp⟩⟩
            exact mt same.unsure.mp (called.sure ok)
          | succ i =>
            obtain ⟨card, here, shown⟩ := rest.shown finished i page' found
            refine ⟨card, here, .inr ?_⟩
            obtain passed | confirmed := shown
            · cases passed.old
            · exact ⟨confirmed.noted, confirmed.sure, by simp⟩
      · rw [if_neg ok] at posted
        rw [updatePages_unposted ok] at update
        subst update
        exact ⟨posted, by simp, fun id older _ => frame id older, fun finished => absurd finished ok⟩
    -- The page takes over the next card: nothing is sent if the card shows it already.
    | cons card cards =>
      have fresh : card.id < work.chat.next := tracks.lt_next (by simp)
      have absent : card.id ∉ cards.map SentCard.id := by
        intro mem
        obtain ⟨other, here, equal⟩ := mem_map.mp mem
        exact tracks.differs (.inr here) equal
      have plain' : ∀ page ∈ pages.drop cards.length, page.inert = true := by
        intro later mem
        exact plain later (by simpa using mem)
      cases changed : card.unchanged count index page with
      | true =>
        rw [updatePages_unchanged changed rfl] at update
        subst update
        have rest : Updated count (index + 1) pages (done ++ [card]) cards work _ _ _ :=
          ih (by simpa using tracks) plain' rfl
        exact rest.cons (fun _ _ => .refl) rfl fresh absent rfl (.inl ⟨rfl, changed, rfl⟩)
      | false =>
        have called : work.chat.Called card.id (some page) (work.patch card.id page).1.chat
            (work.patch card.id page).2 := Chat.called
        have patched := Tracks.patch page tracks
        by_cases ok : (work.patch card.id page).2 = .ok
        · rw [if_pos ok] at patched
          rw [updatePages_patched changed ok rfl] at update
          subst update
          have rest : Updated count (index + 1) pages (done ++ [{ card with page := some page }])
              cards (work.patch card.id page).1 _ _ _ :=
            ih (by simpa using patched) plain' rfl
          exact rest.cons (fun _ ne => called.others ne) called.next fresh absent rfl
            (.inr ⟨rfl, called.sure ok, changed⟩)
        · rw [if_neg ok] at patched
          rw [updatePages_unpatched changed ok] at update
          subst update
          refine ⟨patched, prefix_refl _, ?_, fun finished => absurd finished ok⟩
          intro id _ unlisted
          exact called.others fun equal => unlisted (by simp [equal])

/-! ## Cards that are deleted -/

structure Deleted (keep cards : List SentCard) (work : Work) (cards' : List SentCard)
    (work' : Work) (ending : Ending) : Prop where
  tracks : work'.Tracks (keep ++ cards'.reverse)
  others : ∀ id, id ∉ cards.map SentCard.id → work.chat.Same work'.chat id
  done : ending = .ok → cards' = []

theorem deleted {result : List SentCard × Work × Ending}
    (tracks : work.Tracks (keep ++ cards.reverse)) (delete : deleteCards cards work = result) :
    Deleted keep cards work result.1 result.2.1 result.2.2 := by
  induction cards generalizing work with
  | nil =>
    rw [deleteCards] at delete
    subst delete
    exact ⟨tracks, fun _ _ => .refl, fun _ => rfl⟩
  | cons card cards ih =>
    have called : work.chat.Called card.id none (work.delete card.id).1.chat
        (work.delete card.id).2 := Chat.called
    have others : ∀ id, id ∉ (card :: cards).map SentCard.id →
        work.chat.Same (work.delete card.id).1.chat id := by
      intro id unlisted
      exact called.others fun equal => unlisted (by simp [equal])
    rw [reverse_cons, ← append_assoc] at tracks
    by_cases ok : (work.delete card.id).2 = .ok
    · rw [ok] at called
      have rest : Deleted keep cards (work.delete card.id).1 _ _ _ :=
        ih (tracks.deleted called) (by simpa [deleteCards, ok] using delete)
      refine ⟨rest.tracks, fun id unlisted => ?_, rest.done⟩
      exact (others id unlisted).trans (rest.others id fun mem => unlisted (by simp [mem]))
    · have stopped : result = (card :: cards, (work.delete card.id).1, (work.delete card.id).2) := by
        simpa [deleteCards, ok, eq_comm] using delete
      subst stopped
      have kept := tracks.failed called ok
      refine ⟨?_, others, fun finished => absurd finished ok⟩
      rw [reverse_cons, ← append_assoc]
      exact kept

/-! ## Cards that are disabled -/

theorem disablePage_inert {disabled : Page} (known : disablePage renderer page = some disabled) :
    disabled.inert = true := by
  simp only [disablePage, bind_eq_bind, Option.pure_def, bind_eq_some_iff,
    some.injEq] at known
  obtain ⟨_, -, _, -, rfl⟩ := known
  simp [Page.inert]

structure Disabled (done cards : List SentCard) (work : Work) (cards' : List SentCard)
    (work' : Work) (ending : Ending) : Prop where
  tracks : work'.Tracks (done ++ cards')
  ids : cards'.map SentCard.id = cards.map SentCard.id
  others : ∀ id, id ∉ cards.map SentCard.id → work.chat.Same work'.chat id
  quiet : ∀ card ∈ cards, card.quiet = true → work.chat.Same work'.chat card.id
  inert : ending = .ok → ∀ card ∈ cards, card.quiet = false → work'.chat.Inert card.id

theorem Disabled.cons {middle : Work} {card' : SentCard}
    (others : ∀ id, id ≠ card.id → work.chat.Same middle.chat id)
    (absent : card.id ∉ cards.map SentCard.id) (same : card'.id = card.id)
    (head : card.quiet = true ∧ middle = work ∨
      card.quiet = false ∧ middle.chat.Inert card.id)
    (rest : Disabled (done ++ [card']) cards middle cards' work' ending) :
    Disabled done (card :: cards) work (card' :: cards') work' ending := by
  have later := rest.others card.id absent
  refine ⟨by simpa using rest.tracks, by simp [same, rest.ids], ?_, ?_, ?_⟩
  · intro id unlisted
    rw [map_cons, mem_cons, not_or] at unlisted
    exact (others id unlisted.1).trans (rest.others id unlisted.2)
  · intro sent mem quiet
    obtain rfl | here := mem_cons.mp mem
    · obtain ⟨-, rfl⟩ | ⟨loud, -⟩ := head
      · exact later
      · rw [quiet] at loud
        cases loud
    · refine (others _ ?_).trans (rest.quiet sent here quiet)
      exact fun equal => absent (equal ▸ mem_map_of_mem here)
  · intro finished sent mem loud
    obtain rfl | here := mem_cons.mp mem
    · obtain ⟨quiet, -⟩ | ⟨-, inert⟩ := head
      · rw [loud] at quiet
        cases quiet
      · exact later.inert.mpr inert
    · exact rest.inert finished sent here loud

section Equations

variable {rest : List SentCard × Work × Ending}

theorem disableCards_quiet (quiet : card.quiet = true)
    (later : disableCards renderer cards work = rest) :
    disableCards renderer (card :: cards) work = (card :: rest.1, rest.2.1, rest.2.2) := by
  simp [disableCards, quiet, later]

theorem disableCards_unrendered (loud : card.quiet = false)
    (unknown : card.page.bind (disablePage renderer) = none) :
    disableCards renderer (card :: cards) work = (card :: cards, work, .failed) := by
  simp [disableCards, loud, unknown]

theorem disableCards_patched (loud : card.quiet = false)
    (known : card.page.bind (disablePage renderer) = some page)
    (ok : (work.patch card.id page).2 = .ok)
    (later : disableCards renderer cards (work.patch card.id page).1 = rest) :
    disableCards renderer (card :: cards) work =
      ({ card with page := some page } :: rest.1, rest.2.1, rest.2.2) := by
  simp [disableCards, loud, known, ok, later]

theorem disableCards_unpatched (loud : card.quiet = false)
    (known : card.page.bind (disablePage renderer) = some page)
    (failed : (work.patch card.id page).2 ≠ .ok) :
    disableCards renderer (card :: cards) work =
      (card :: cards, (work.patch card.id page).1, (work.patch card.id page).2) := by
  simp [disableCards, loud, known, failed]

end Equations

theorem disabled {result : List SentCard × Work × Ending} (tracks : work.Tracks (done ++ cards))
    (disable : disableCards renderer cards work = result) :
    Disabled done cards work result.1 result.2.1 result.2.2 := by
  induction cards generalizing done work result with
  | nil =>
    rw [disableCards] at disable
    subst disable
    exact ⟨tracks, rfl, fun _ _ => .refl, by simp, by simp⟩
  | cons card cards ih =>
    have absent : card.id ∉ cards.map SentCard.id := by
      intro mem
      obtain ⟨other, here, equal⟩ := mem_map.mp mem
      exact tracks.differs (.inr here) equal
    have passed : ∀ sent ∈ card :: cards, card.quiet = false → sent.quiet = true →
        sent.id ≠ card.id := by
      intro sent mem loud quiet equal
      obtain rfl | here := mem_cons.mp mem
      · rw [quiet] at loud
        cases loud
      · exact absent (equal ▸ mem_map_of_mem here)
    cases quiet : card.quiet with
    | true =>
      rw [disableCards_quiet quiet rfl] at disable
      subst disable
      have rest : Disabled (done ++ [card]) cards work _ _ _ :=
        ih (by simpa using tracks) rfl
      exact rest.cons (fun _ _ => .refl) absent rfl (.inl ⟨quiet, rfl⟩)
    | false =>
      cases known : card.page.bind (disablePage renderer) with
      | none =>
        rw [disableCards_unrendered quiet known] at disable
        subst disable
        refine ⟨tracks, rfl, fun _ _ => .refl, fun _ _ _ => .refl, ?_⟩
        intro finished
        cases finished
      | some page =>
        have called : work.chat.Called card.id (some page) (work.patch card.id page).1.chat
            (work.patch card.id page).2 := Chat.called
        have patched := Tracks.patch page tracks
        by_cases ok : (work.patch card.id page).2 = .ok
        · rw [if_pos ok] at patched
          rw [disableCards_patched quiet known ok rfl] at disable
          subst disable
          have rest : Disabled (done ++ [{ card with page := some page }]) cards
              (work.patch card.id page).1 _ _ _ := ih (by simpa using patched) rfl
          refine rest.cons (fun _ ne => called.others ne) absent rfl (.inr ⟨quiet, ?_⟩)
          intro shown screen
          rw [called.screen ok, some.injEq] at screen
          obtain ⟨before, -, disabled⟩ := bind_eq_some_iff.mp known
          exact screen ▸ disablePage_inert disabled
        · rw [if_neg ok] at patched
          rw [disableCards_unpatched quiet known ok] at disable
          subst disable
          refine ⟨patched, rfl, ?_, ?_, fun finished => absurd finished ok⟩
          · intro id unlisted
            exact called.others fun equal => unlisted (by simp [equal])
          · intro sent mem silent
            exact called.others (passed sent mem quiet silent)

/-! ## A new message -/

/-- What is known of every card is what the provider confirmed. -/
def AllSure (cards : List SentCard) (chat : Chat) : Prop :=
  ∀ card ∈ cards, card.page.isSome = true ∧ card.id ∉ chat.unsure

theorem posted_pages {result : List SentCard × Work × Ending} (tracks : work.Tracks cards)
    (sure : AllSure cards work.chat) (post : postPages pages cards work = result)
    (ok : result.2.2 = .ok) : result.2.1.Tracks result.1 ∧ AllSure result.1 result.2.1.chat := by
  induction pages generalizing cards work with
  | nil =>
    rw [postPages] at post
    subst post
    exact ⟨tracks, sure⟩
  | cons page pages ih =>
    have called : Chat.Called { work.chat with next := work.chat.next + 1 } work.chat.next
        (some page) (work.post page).1.chat (work.post page).2 := Chat.called
    by_cases confirmed : (work.post page).2 = .ok
    · have posted := Tracks.posted_card page tracks fun failed => absurd confirmed failed
      rw [if_pos confirmed] at posted
      refine ih posted ?_ (by simpa [postPages, confirmed] using post)
      intro card mem
      obtain old | new := mem_append.mp mem
      · have same := called.others (Nat.ne_of_lt (tracks.lt_next old))
        exact ⟨(sure card old).1, mt same.unsure.mp (sure card old).2⟩
      · rw [mem_singleton.mp new]
        exact ⟨rfl, called.sure confirmed⟩
    · have stopped : result = (cards, (work.post page).1, (work.post page).2) := by
        simpa [postPages, confirmed, eq_comm] using post
      subst stopped
      exact absurd ok confirmed

end Agentix.Feishu
