import Agentix.Delivery.Unsent

/-! # A delivery that is reported as not sent was not sent -/

namespace Agentix.Delivery

open Lib
open Attempt (Waits)

namespace Feishu

variable {conversation : ConversationRef} {pages : Except ChannelError (List Page)} {α : Type}

/-- A request other than the first of the operation has been begun. -/
def Later {α : Type} (position : Position α) : Prop := 1 < position.requests

theorem telling_error {error : ChannelError} (phase : Phase) :
    Telling phase (⟨0, .working (.returns (.error error))⟩ : Position α) [] :=
  ⟨fun _ _ => .inr refused_nil.clean, fun _ => rfl, fun _ _ => refused_nil⟩

theorem telling_outbound {work : List Page → Work α}
    (tells : ∀ pages, (work pages).Tells 0 [] false) (phase : Phase) :
    Telling phase ⟨0, outbound pages work⟩ [] := by
  cases pages with
  | error error => exact telling_error phase
  | ok pages => exact ⟨rfl, rfl, tells pages⟩

theorem telling_ensureFeishu {place : Place α} (telling : ∀ phase, Telling phase ⟨0, place⟩ [])
    (phase : Phase) :
    Telling phase ⟨0, ensureFeishu conversation place⟩ [] := by
  unfold ensureFeishu
  split
  · exact telling phase
  · exact telling_error phase

theorem telling_sendCards (phase : Phase) :
    Telling phase ⟨0, sendCards conversation pages⟩ [] :=
  telling_ensureFeishu (telling_outbound fun _ => tells_sendPages covered_nil) phase

theorem telling_updateCards {message : MessageRef} (phase : Phase) :
    Telling phase ⟨0, updateCards conversation message pages⟩ [] := by
  refine telling_ensureFeishu (fun phase => ?_) phase
  split
  · exact telling_error phase
  · refine telling_outbound (fun pages => ?_) phase
    intro adapter
    exact tells_updatePages fun _ => refused_nil

end Feishu

/-- A Feishu delivery that is reported as not sent was not sent, where its attempt does not end
while a request other than its first waits; and so is every Telegram request. -/
theorem reported_unsent_was_not_sent (checks : Bool) (elapsed : Nat) :
    (∀ adapter conversation pages s,
      (Attempt.system (Feishu.operation (Feishu.sendCards conversation pages)) checks adapter
        elapsed).Reachable (Waits (Feishu.operation (Feishu.sendCards conversation pages))
          Feishu.Later) s →
      s.Honest (Feishu.operation (Feishu.sendCards conversation pages)) Feishu.provider) ∧
    (∀ adapter conversation message pages s,
      (Attempt.system (Feishu.operation (Feishu.updateCards conversation message pages)) checks
        adapter elapsed).Reachable
          (Waits (Feishu.operation (Feishu.updateCards conversation message pages))
            Feishu.Later) s →
      s.Honest (Feishu.operation (Feishu.updateCards conversation message pages))
        Feishu.provider) ∧
    ∀ (τ : Type) delivers request limits (s : Attempt _ (Telegram.Place τ) _ _ τ),
      (Attempt.system (Telegram.operation delivers request) checks limits elapsed).Reachable
        System.always s →
      s.Honest (Telegram.operation delivers request) Telegram.provider := by
  refine ⟨?_, ?_, ?_⟩
  · intro adapter conversation pages s run
    exact Attempt.honest_of_reachable (Feishu.keeps_telling Feishu.telling_sendCards)
      Feishu.reports_telling run
  · intro adapter conversation message pages s run
    exact Attempt.honest_of_reachable (Feishu.keeps_telling Feishu.telling_updateCards)
      Feishu.reports_telling run
  · intro τ delivers request limits s run
    exact Attempt.honest_of_reachable Telegram.keeps_limited Telegram.reports_limited
      (run.mono fun _ _ _ _ later => later.2)

/-! ## Two pages -/

namespace Feishu

def conversation : ConversationRef := ⟨.feishu, "chat"⟩

def page (json : String) : Page := ⟨⟨[], "title", none, json, .success, []⟩, json⟩

def adapter : Adapter := ⟨none, 0, fun _ => none⟩

def twoPages : Operation Adapter (Position MessageRef) Request Outcome MessageRef :=
  operation (sendCards conversation (.ok [page "first", page "second"]))

def new : Attempt Adapter (Position MessageRef) Request Outcome MessageRef :=
  .start twoPages adapter 0

/-- In the queue of its conversation. -/
def queued : Attempt Adapter (Position MessageRef) Request Outcome MessageRef :=
  { new with
    phase := .waiting
    place := ⟨0, .queued (sendPages conversation [page "first", page "second"] [])⟩ }

def dropped : Attempt Adapter (Position MessageRef) Request Outcome MessageRef :=
  { queued with ended := some .dropped }

theorem dropped_in_queue : dropped.ReportsUnsent ∧ dropped.Unsent twoPages provider := by
  have early : ∀ label, Waits twoPages Later new label ∧ Waits twoPages Later queued label := by
    intro label
    constructor <;>
    · rintro - ⟨-, later⟩
      cases later
  have queues : (Attempt.system twoPages false adapter 0).step new .poll queued := rfl
  have drops : (Attempt.system twoPages false adapter 0).step queued .drop dropped := rfl
  have run : (Attempt.system twoPages false adapter 0).Reachable (Waits twoPages Later) dropped :=
    (System.Reachable.start.step (early .poll).1 queues).step (early .drop).2 drops
  have reported : dropped.ReportsUnsent := .inr ⟨rfl, rfl⟩
  have honest := (reported_unsent_was_not_sent false 0).1 adapter conversation
    (.ok [page "first", page "second"]) dropped run
  exact ⟨reported, honest reported⟩

/-- The first page is accepted. -/
def first : List (Label Adapter Outcome) :=
  [.poll, .poll, .poll, .poll, .poll, .poll, .answer (.ok "m1")]

/-- A request meets a limit, and waits before it is made again. -/
def limit (delay : Nat) : List (Label Adapter Outcome) :=
  [.answer (.error (.rateLimited "429")), .poll, .poll, .poll, .tick delay, .poll, .poll]

/-- The second page meets limits until the time of the operation is over. -/
def unlucky : List (Label Adapter Outcome) :=
  first ++ [.poll, .poll, .poll] ++ [1000, 2000, 4000, 8000, 16000].flatMap limit ++
    [.answer (.error (.rateLimited "429")), .poll, .poll, .poll, .tick 29000, .expire]

def postedFirst : Request × Outcome := (.post "chat" "first", .ok "m1")

def limitedSecond : Request × Outcome := (.post "chat" "second", .error (.rateLimited "429"))

theorem unlucky_ends : (unlucky.foldlM (Attempt.step twoPages false) new).map
    (fun s => (s.ended, s.answered)) =
      some (some (.returned (.error (.notSent "local delivery wait exceeded its budget"))),
        postedFirst :: List.replicate 6 limitedSecond) := by rfl

/-- The first page is there, and the view is reported as not sent. -/
theorem later_page_spoils_report : ¬ ∀ adapter conversation pages s,
    (Attempt.system (operation (sendCards conversation pages)) false adapter 0).Reachable
      System.always s →
    s.Honest (operation (sendCards conversation pages)) provider := by
  intro claimed
  obtain ⟨s, ran, same⟩ := Option.map_eq_some_iff.mp unlucky_ends
  obtain ⟨ended, answered⟩ := Prod.mk.inj same
  have run : (Attempt.system twoPages false adapter 0).Reachable System.always s :=
    System.reachable_of_foldlM unlucky ran
  have unsent := claimed adapter conversation _ s run (.inl ⟨_, ended⟩)
  have posted : postedFirst ∈ s.answered := by
    rw [answered]
    exact List.mem_cons_self
  obtain refused | ⟨reply, deleted⟩ := unsent.refused postedFirst posted
  · cases refused
  · rw [answered] at deleted
    simp [postedFirst, limitedSecond] at deleted

end Feishu

end Agentix.Delivery
