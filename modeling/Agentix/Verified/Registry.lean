import Agentix.Registry.Answering
import Agentix.Registry.Closing
import Agentix.Registry.Origins

/-! # Session replacement

Every replacement the registry announces was observed: a session was started, and another one was
left on the same connection, or the start was asked for in its place.
-/

namespace Agentix.Registry

open Lib

variable [Text]

/-- In every run of the registry, each replacement comes from the response to a start that was not
ephemeral, on the connection that emits it, and either from a response on that connection that the
old session was left, not two minutes apart, or from a switch intent for the old session under
which the start was sent and which is still current and not expired.  No start and no unsubscribe
takes part in two replacements, and no call emits two. -/
theorem replacements_are_observed (calls : List Call) :
    ∃ (start : Nat → Nat) (unsubscribe : Nat → Option Nat),
      (∀ i old new client, Replaces calls i old new client →
        Explained calls i (start i) (unsubscribe i) old new client) ∧
      (∀ i j old new client old' new' client', Replaces calls i old new client →
        Replaces calls j old' new' client' →
          start i = start j ∨ (∃ u, unsubscribe i = some u ∧ unsubscribe j = some u) →
            i = j ∧ old = old' ∧ new = new' ∧ client = client') := by
  obtain ⟨pairing, sound⟩ := sound_after calls
  refine ⟨pairing.start, pairing.unsubscribe, sound.explained, ?_⟩
  intro i j old new client old' new' client' first second shared
  have same : i = j := by
    obtain starts | ⟨u, one, two⟩ := shared
    · exact sound.starts i j ⟨_, _, _, first⟩ ⟨_, _, _, second⟩ starts
    · exact sound.unsubscribes i j u ⟨_, _, _, first⟩ ⟨_, _, _, second⟩ one two
  subst same
  exact ⟨rfl, first.unique second⟩

end Agentix.Registry

/-! # Terminal questions are answered at most once -/

namespace Agentix.Registry.Terminal

open Lib Option
open Function (update)

namespace State

/-- After each section of the lock, and between any two parts of a reply. -/
structure AnsweredOnce (s : State) : Prop where
  /-- The tokens that wait are the tokens of the prompts that are seen. -/
  tokens : ∀ token, (s.pending token).isSome = true ↔
    ∃ session seen, s.seen session = some seen ∧ seen.token = some token
  /-- A session has at most one of them. -/
  single : ∀ first second one two, s.pending first = some one → s.pending second = some two →
    one.session = two.session → first = second
  /-- Each token is requested once. -/
  requested : s.log.filterMap Note.requested = List.range s.minted
  /-- It is resolved at most once, and not before it was requested. -/
  resolved : (s.log.filterMap Note.resolved).Nodup
  ordered : Ordered s.log
  /-- The port is asked at most once to answer it. -/
  submitted : (s.log.filterMap Note.submission).Nodup
  asked : ∀ token ∈ s.log.filterMap Note.submission, token ∈ s.log.filterMap Note.requested
  /-- What is announced was recorded twice in a row. -/
  announced : Announced s.log

/-- Whatever sessions are observed, whatever inspections show, whatever backends report, whoever
replies, and however the parts of replies interleave. -/
theorem questions_are_answered_once (s : State) (run : system.Reachable System.always s) :
    s.AnsweredOnce := by
  have sound := sound_of_reachable run
  constructor
  case tokens =>
    intro token
    constructor
    · intro waits
      obtain ⟨pending, waits⟩ := isSome_iff_exists.mp waits
      obtain ⟨seen, held, its⟩ := (sound.tokens token pending.session).mp ⟨pending, waits, rfl⟩
      exact ⟨pending.session, seen, held, its⟩
    · rintro ⟨session, seen, held, its⟩
      obtain ⟨pending, waits, -⟩ := (sound.tokens token session).mpr ⟨seen, held, its⟩
      rw [waits, isSome_some]
  case single =>
    intro first second one two isOne isTwo same
    obtain ⟨seen, held, its⟩ := (sound.tokens first one.session).mp ⟨one, isOne, rfl⟩
    obtain ⟨seen', held', its'⟩ := (sound.tokens second two.session).mp ⟨two, isTwo, rfl⟩
    rw [← same, held, some.injEq] at held'
    rw [← held', its, some.injEq] at its'
    exact its'
  case requested => exact sound.requested
  case resolved => exact sound.resolvedOnce
  case ordered => exact sound.ordered
  case submitted => exact sound.submittedOnce
  case asked =>
    intro token member
    rw [sound.requested, List.mem_range]
    by_contra unused
    exact (sound.below token (Nat.le_of_not_lt unused)).2 member
  case announced => exact sound.announced

/-! ## A run -/

def claude : SessionRef := ⟨.claude, "s1"⟩

def dialog : Inspection :=
  ⟨⟨7, "c1"⟩, ⟨.choice, "Allow?", "Run it", ["Yes", "No"], some 0, "f1", "%1"⟩⟩

/-- The prompt is seen twice and announced, one of two replies is submitted, and an inspection that
ends late sees the prompt once more. -/
def reply : List Step :=
  [.observe claude, .record claude (some dialog), .record claude (some dialog),
    .respond 0 0 (some "No"), .check 0, .target 0 (some dialog.target), .respond 1 0 (some "Yes"),
    .access 0 false, .record claude (some dialog), .answered 0 (.ok ()), .unobserve claude]

theorem reply_is_submitted : ∃ s, system.Reachable System.always s ∧ s.AnsweredOnce ∧
    s.log.filterMap Note.submission = [0] ∧ s.log.filterMap Note.resolved = [0] := by
  have ends : (reply.foldlM step start).map
      (fun s => (s.log.filterMap Note.submission, s.log.filterMap Note.resolved)) =
        some ([0], [0]) := by decide
  obtain ⟨s, ran, ends⟩ := map_eq_some_iff.mp ends
  have reachable := System.reachable_of_foldlM _ ran
  exact ⟨s, reachable, questions_are_answered_once s reachable, congrArg Prod.fst ends,
    congrArg Prod.snd ends⟩

end State

end Agentix.Registry.Terminal

/-! # Questions of the command line are asked once and closed once -/

namespace Agentix.Registry.Questions

open Lib

/-- The events of a question since the last reset; it is pending between the two. -/
inductive State.Once [Text] (s : State) (id : Json) : Prop where
  | unasked (events : eventsOf (toText id) s.log = []) (idle : s.questionIsPending id = false)
  | pending (request : InteractionRequest)
      (events : eventsOf (toText id) s.log = [.requested (toText id) request])
      (waits : s.questionIsPending id = true)
  | closed (request : InteractionRequest) (accepted : Bool)
      (events : eventsOf (toText id) s.log =
        [.requested (toText id) request, .resolved (toText id) request accepted])
      (idle : s.questionIsPending id = false)

theorem once_of_askedOnce [Text] {s : State} {id : Json}
    (once : AskedOnce s.questions s.resolvedQuestions s.log (toText id)) : s.Once id := by
  cases once with
  | unasked events absent => exact .unasked events (by rw [State.questionIsPending, absent]; rfl)
  | pending question events held =>
    exact .pending question.request events (by rw [State.questionIsPending, held]; rfl)
  | closed request accepted events absent _ =>
    exact .closed request accepted events (by rw [State.questionIsPending, absent]; rfl)

/-- In every run in which the ids of requests in flight are unique, and as long as not more than
1024 questions have been resolved since the last reset. -/
theorem questions_are_asked_and_closed_once [Text] [Values] (s : State)
    (run : system.Reachable State.Fresh s) (few : s.resolutions ≤ 1024) :
    (∀ id, s.Once id) ∧ s.lifecycle.map Prod.snd <:+ s.log.filterMap Entry.event ∧
      Justified s.log := by
  have sound := State.sound_of_reachable run few
  exact ⟨fun id => once_of_askedOnce (sound.asked.once (toText id)), sound.published,
    sound.justified⟩

/-! ## A frame that comes again -/

/-- Of the ids that are numbers or strings. -/
def idText : Json → String
  | .number literal => String.ofList (literal.map fun digit => Char.ofNat digit.toNat)
  | .string text => "\"" ++ text ++ "\""
  | _ => ""

local instance : Text := ⟨idText⟩

local instance : Values := ⟨fun _ => none, fun _ _ => false⟩

def ninetyOne : Json := .number [57, 49]

def frame : Json :=
  .object [("id", ninetyOne), ("method", .string "item/tool/requestUserInput"),
    ("params", .object [("threadId", .string "t"), ("turnId", .string "turn"),
      ("itemId", .string "item"), ("questions", .array [])])]

def asked : InteractionRequest :=
  ⟨ninetyOne, "item/tool/requestUserInput", "t", "turn", some "item", .userInput⟩

def repeated : List Label :=
  [.connect, .frame 1 "item/tool/requestUserInput" frame, .complete ninetyOne,
    .frame 1 "item/tool/requestUserInput" frame]

theorem repeated_ends : (repeated.foldlM State.step State.start).map
    (fun s => (eventsOf "91" s.log, s.resolutions)) =
      some ([.requested "91" asked, .resolved "91" asked false], 1) := by rfl

theorem repeated_frame_asks_once : ∃ s : State,
    eventsOf "91" s.log = [.requested "91" asked, .resolved "91" asked false] ∧
      s.Once ninetyOne := by
  obtain ⟨s, ran, same⟩ := Option.map_eq_some_iff.mp repeated_ends
  obtain ⟨events, resolutions⟩ := Prod.mk.inj same
  have fresh : ∀ label ∈ repeated, ∀ s : State, s.Fresh label := by
    intro label member s
    simp only [repeated, List.mem_cons, List.not_mem_nil, or_false] at member
    obtain rfl | rfl | rfl | rfl := member <;> trivial
  have run : system.Reachable State.Fresh s :=
    System.Reachable.start.path (System.path_of_labels repeated fresh ran)
  have few : s.resolutions ≤ 1024 := by omega
  exact ⟨s, events, (questions_are_asked_and_closed_once s run few).1 ninetyOne⟩

end Agentix.Registry.Questions
