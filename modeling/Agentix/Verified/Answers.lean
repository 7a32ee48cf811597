import Agentix.Flows.Open

/-! # Answers

An open question stays answerable, as long as no handler that has its entry ends early.
-/

namespace Agentix.Flows

open Lib
open Lib.System
open Bindings

/-- In every run whose handlers all meet the condition, a rendered request that was neither handed to
the agent nor resolved outside nor invalidated has its entry, with the answers given so far. -/
theorem open_requests_stay_answerable {attachment : Attachment} {questions : List QueuedQuestion}
    {s : Interactions}
    (run : (conversation attachment questions).Reachable (Spared attachment) s)
    (id : RequestId) (input : Option InputProgress) (opened : openRequests s.log id = some input) :
    ∃ pending, s.pending id.key = some pending ∧ pending.rpcId = id.2 ∧ pending.input = input := by
  have answerable : Answerable s := by
    refine run.invariant Answerable (fun id input opened => ?_) fun _ spared before next => ?_
    · cases opened
    · subst next
      exact handle_answerable before spared
  exact answerable id input opened

/-! ## A card that cannot be written -/

def chat : Attachment where
  conversation := ⟨.telegram, "chat"⟩
  session := some "session"
  owner := some "owner"
  generation := 0
  bindingEpoch := 0

def twoQuestions : InteractionRequest where
  rpcId := .string "request"
  method := "item/tool/requestUserInput"
  sessionId := "session"
  kind := .userInput
  questions := [{ id := "port", options := ["8080"] }, { id := "host" }]

def allSucceed : Calls := ⟨fun _ => none, "card"⟩

def updatesFail : Calls where
  error
    | .update _ => some "channel transport failed: timeout"
    | _ => none
  messageId := "card"

/-- The card with the questions is sent. -/
def asked : Interactions :=
  (Served.run (handle chat allSucceed (.render twoQuestions .live)) (.empty [])).2

/-- The button of the first option is pressed. -/
def pressed (calls : Calls) : Interactions :=
  (Served.run (handle chat calls (.action "owner" "1")) asked).2

theorem asked_spared : Spared chat (.empty []) (.render twoQuestions .live, allSucceed) :=
  fun _ _ _ absent => by cases absent

theorem first_answer_is_kept :
    (openRequests (pressed allSucceed).log ("session", .string "request")).isSome = true ∧
    ∃ pending, (pressed allSucceed).pending ⟨"session", "request"⟩ = some pending ∧
      pending.input.map InputProgress.answers = some [some ["8080"], none] := by
  have rendered : (conversation chat []).Reachable (Spared chat) asked :=
    .step .start asked_spared rfl
  have spared : Spared chat asked (.action "owner" "1", allSucceed) := by
    intro _ pending found
    cases found
    exact ⟨_, _, _, rfl, rfl, fun _ => rfl⟩
  have run : (conversation chat []).Reachable (Spared chat) (pressed allSucceed) :=
    .step rendered spared rfl
  cases opened : openRequests (pressed allSucceed).log ("session", .string "request") with
  | none => cases opened
  | some input =>
    obtain ⟨pending, found, -, same⟩ := open_requests_stay_answerable run _ _ opened
    refine ⟨rfl, pending, found, ?_⟩
    cases opened
    rw [same]
    rfl

/-- The card of a choice cannot be written once: the request waits, without an entry. -/
theorem failed_update_loses_request :
    ∃ s, (conversation chat []).Reachable always s ∧
      (openRequests s.log ("session", .string "request")).isSome = true ∧
      s.pending (RequestId.key ("session", .string "request")) = none := by
  refine ⟨pressed updatesFail, ?_, rfl, rfl⟩
  have sent : (conversation chat []).step (.empty []) (.render twoQuestions .live, allSucceed) asked :=
    rfl
  have failed : (conversation chat []).step asked (.action "owner" "1", updatesFail)
      (pressed updatesFail) := rfl
  exact .step (.step .start trivial sent) trivial failed

end Agentix.Flows
