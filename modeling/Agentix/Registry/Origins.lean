import Agentix.Registry.State
import Agentix.Lib.Run

/-! # Where replacements come from

A replacement names a session that was left and one that was started.  Both are traced back to the
calls that observed them, and each of these calls takes part in one replacement at most.
-/

namespace Agentix.Registry

open Lib List Option Function

section

variable [Text]

/-! ## Observations -/

variable {clock' : Clock} {c' : Connection} {other : Nat} {request' : PendingRequest}
  {client key' new old : String}

/-- A call of a run, the state it finds and its position. -/
structure At (calls : List Call) (i : Nat) (s : State) (call : Call) : Prop where
  call : calls[i]? = some call
  state : s = State.after (calls.take i)

/-- A client sent the request `request` under the key. -/
def IssuedAt (calls : List Call) (i connection : Nat) (key : String) (request : PendingRequest) :
    Prop :=
  ∃ s message c method id, At calls i s (.clientMessage connection message) ∧
    s.connections.lookup connection = some c ∧
    (message.index "method").asStr = some method ∧ requestId message = some id ∧
    key = toText id ∧ ephemeral method message = false ∧ request = c.request method message

def AnsweredAt (calls : List Call) (i connection : Nat) (c : Connection)
    (key : String) (request : PendingRequest) (result : Json) (clock : Clock) : Prop :=
  ∃ s message, At calls i s (.serverMessage connection message clock) ∧
    s.connections.lookup connection = some c ∧ c.awaited message = some (key, request) ∧
    message.get? "result" = some result

def StartedAt (calls : List Call) (i connection : Nat) (c : Connection) (key : String)
    (request : PendingRequest) (session : String) (clock : Clock) : Prop :=
  ∃ result, AnsweredAt calls i connection c key request result clock ∧
    request.method = "thread/start" ∧ keptThread result = some session ∧ subAgent result = false

/-- A connection received the response that it left a session it had. -/
def UnsubscribedAt (calls : List Call) (i connection : Nat) (session : String) (clock : Clock) :
    Prop :=
  ∃ c key request result, AnsweredAt calls i connection c key request result clock ∧
    request.method = "thread/unsubscribe" ∧ request.thread = some session ∧
    unsubscribed result = true ∧ session ∈ c.sessions

def Replaces (calls : List Call) (i : Nat) (old new client : String) : Prop :=
  ∃ s call, At calls i s call ∧ .sessionReplaced old new client ∈ (s.call call).2

/-! ## Longer runs -/

variable {calls : List Call} {call : Call} {i connection : Nat} {s : State} {c : Connection}
  {key session : String} {request : PendingRequest} {result : Json} {clock : Clock}

theorem At.lt (at_ : At calls i s call) : i < calls.length :=
  (List.getElem?_eq_some_iff.mp at_.call).1

theorem At.snoc (at_ : At calls i s call) (last : Call) : At (calls ++ [last]) i s call where
  call := by rw [getElem?_append_left at_.lt]; exact at_.call
  state := by rw [take_append_of_le_length (Nat.le_of_lt at_.lt)]; exact at_.state

theorem At.last (calls : List Call) (call : Call) :
    At (calls ++ [call]) calls.length (State.after calls) call where
  call := by simp
  state := by simp

/-- A call of a longer run is the last one, or it is one of the shorter run. -/
theorem At.snoc_cases {last : Call} (at_ : At (calls ++ [last]) i s call) :
    At calls i s call ∨ i = calls.length ∧ s = State.after calls ∧ call = last := by
  have bound := at_.lt
  rw [length_append, length_singleton] at bound
  by_cases before : i < calls.length
  · refine .inl ⟨?_, ?_⟩
    · have same := at_.call
      rwa [getElem?_append_left before] at same
    · have same := at_.state
      rwa [take_append_of_le_length (Nat.le_of_lt before)] at same
  · obtain rfl : i = calls.length := by omega
    refine .inr ⟨rfl, ?_, ?_⟩
    · have same := at_.state
      simpa using same
    · have same := at_.call
      simpa using same.symm

theorem AnsweredAt.snoc (answered : AnsweredAt calls i connection c key request result clock)
    (last : Call) : AnsweredAt (calls ++ [last]) i connection c key request result clock := by
  obtain ⟨s, message, at_, found⟩ := answered
  exact ⟨s, message, at_.snoc last, found⟩

theorem StartedAt.snoc (started : StartedAt calls i connection c key request session clock)
    (last : Call) : StartedAt (calls ++ [last]) i connection c key request session clock := by
  obtain ⟨result, answered, kept⟩ := started
  exact ⟨result, answered.snoc last, kept⟩

theorem UnsubscribedAt.snoc
    (left : UnsubscribedAt calls i connection session clock) (last : Call) :
    UnsubscribedAt (calls ++ [last]) i connection session clock := by
  obtain ⟨c, key, request, result, answered, gone⟩ := left
  exact ⟨c, key, request, result, answered.snoc last, gone⟩

theorem IssuedAt.snoc (issued : IssuedAt calls i connection key request) (last : Call) :
    IssuedAt (calls ++ [last]) i connection key request := by
  obtain ⟨s, message, c, method, id, at_, found⟩ := issued
  exact ⟨s, message, c, method, id, at_.snoc last, found⟩

theorem AnsweredAt.same {result' : Json}
    (answered : AnsweredAt calls i connection c key request result clock)
    (again : AnsweredAt calls i other c' key' request' result' clock') : connection = other := by
  obtain ⟨s, message, at_, -⟩ := answered
  obtain ⟨s', message', again, -⟩ := again
  have same := at_.call.symm.trans again.call
  simp only [some.injEq, Call.serverMessage.injEq] at same
  exact same.1

theorem AnsweredAt.lt (answered : AnsweredAt calls i connection c key request result clock) :
    i < calls.length := by
  obtain ⟨_, _, at_, -⟩ := answered
  exact at_.lt

theorem StartedAt.lt (started : StartedAt calls i connection c key request session clock) :
    i < calls.length := by
  obtain ⟨_, answered, -⟩ := started
  exact answered.lt

theorem UnsubscribedAt.lt (left : UnsubscribedAt calls i connection session clock) :
    i < calls.length := by
  obtain ⟨_, _, _, _, answered, -⟩ := left
  exact answered.lt

theorem IssuedAt.lt (issued : IssuedAt calls i connection key request) : i < calls.length := by
  obtain ⟨_, _, _, _, _, at_, -⟩ := issued
  exact at_.lt

theorem StartedAt.same {session' : String}
    (started : StartedAt calls i connection c key request session clock)
    (again : StartedAt calls i other c' key' request' session' clock') : connection = other := by
  obtain ⟨_, answered, -⟩ := started
  obtain ⟨_, again, -⟩ := again
  exact answered.same again

theorem UnsubscribedAt.same {session' : String}
    (left : UnsubscribedAt calls i connection session clock)
    (again : UnsubscribedAt calls i other session' clock') : connection = other := by
  obtain ⟨_, _, _, _, answered, -⟩ := left
  obtain ⟨_, _, _, _, again, -⟩ := again
  exact answered.same again

/-! ## Pairings -/

/-- The start was issued under an intent that names the old session, and that is still the
connection's and young when the response arrives. -/
def Intended (c : Connection) (request : PendingRequest) (old : String) (clock : Clock) : Prop :=
  ∃ intent, request.switch = some intent ∧ intent.session = old ∧
    c.requestedSwitch = some intent ∧ elapsed clock.intent intent.requestedAt < thirtySeconds

/-- The old session was left, and the two responses came within two minutes, in either order. -/
def Left (calls : List Call) (start connection : Nat) (started : Clock) (unsubscribe : Option Nat)
    (old : String) : Prop :=
  ∃ u clock, unsubscribe = some u ∧ UnsubscribedAt calls u connection old clock ∧
    (u < start ∧ elapsed started.other clock.filled < twoMinutes ∨
      start < u ∧ elapsed clock.other started.filled < twoMinutes)

/-- What a replacement comes from: the response to a start of the new session, which was not
ephemeral, on the connection that emits it, and either the intent of that start or a response on
the same connection that the old session was left. -/
structure Explained (calls : List Call) (i start : Nat) (unsubscribe : Option Nat)
    (old new client : String) : Prop where
  differ : old ≠ new
  begun : start ≤ i
  ended : ∀ u, unsubscribe = some u → u ≤ i
  origin : ∃ connection,
    (∃ c key request result clock, c.clientId = client ∧
      AnsweredAt calls i connection c key request result clock) ∧
    ∃ c key request clock issued, StartedAt calls start connection c key request new clock ∧
      issued < start ∧ IssuedAt calls issued connection key request ∧
      (Intended c request old clock ∨ Left calls start connection clock unsubscribe old)

theorem Left.snoc {start : Nat} {unsubscribe : Option Nat}
    (left : Left calls start connection clock unsubscribe old) (last : Call) :
    Left (calls ++ [last]) start connection clock unsubscribe old := by
  obtain ⟨u, clock', same, gone, within⟩ := left
  exact ⟨u, clock', same, gone.snoc last, within⟩

theorem Explained.snoc {start : Nat} {unsubscribe : Option Nat}
    (explained : Explained calls i start unsubscribe old new client) (last : Call) :
    Explained (calls ++ [last]) i start unsubscribe old new client := by
  refine ⟨explained.differ, explained.begun, explained.ended, ?_⟩
  obtain ⟨connection, ⟨c, key, request, result, clock, client, answered⟩, c', key', request',
    clock', issued, started, before, sent, reason⟩ := explained.origin
  exact ⟨connection, ⟨c, key, request, result, clock, client, answered.snoc last⟩, c', key',
    request', clock', issued, started.snoc last, before, sent.snoc last,
    reason.imp_right fun left => left.snoc last⟩

/-- Each replacement with the start and the response it comes from. -/
structure Pairing where
  start : Nat → Nat
  unsubscribe : Nat → Option Nat

def Pairing.extend (pairing : Pairing) (n start : Nat) (unsubscribe : Option Nat) : Pairing where
  start := Function.update pairing.start n start
  unsubscribe := Function.update pairing.unsubscribe n unsubscribe

def Replacing (calls : List Call) (i : Nat) : Prop :=
  ∃ old new client, Replaces calls i old new client

/-- No replacement comes from the start. -/
def Unstarted (calls : List Call) (pairing : Pairing) (start : Nat) : Prop :=
  ∀ i, Replacing calls i → pairing.start i ≠ start

def Unpaired (calls : List Call) (pairing : Pairing) (unsubscribe : Nat) : Prop :=
  ∀ i, Replacing calls i → pairing.unsubscribe i ≠ some unsubscribe

/-- The slots of a connection hold what was observed on it and is not used yet. -/
structure SlotsOf (calls : List Call) (pairing : Pairing) (connection : Nat) (c : Connection) :
    Prop where
  previous : ∀ old at_, c.previous = some (old, at_) → ∃ u clock,
    UnsubscribedAt calls u connection old clock ∧ clock.filled = at_ ∧ Unpaired calls pairing u
  fresh : ∀ new at_, c.fresh = some (new, at_) → ∃ start c key request clock issued,
    StartedAt calls start connection c key request new clock ∧ clock.filled = at_ ∧
      issued < start ∧ IssuedAt calls issued connection key request ∧
      Unstarted calls pairing start
  pending : ∀ key request, c.pending.lookup key = some request →
    ∃ issued, IssuedAt calls issued connection key request

structure Sound (calls : List Call) (pairing : Pairing) : Prop where
  explained : ∀ i old new client, Replaces calls i old new client →
    Explained calls i (pairing.start i) (pairing.unsubscribe i) old new client
  starts : ∀ i j, Replacing calls i → Replacing calls j → pairing.start i = pairing.start j → i = j
  unsubscribes : ∀ i j u, Replacing calls i → Replacing calls j →
    pairing.unsubscribe i = some u → pairing.unsubscribe j = some u → i = j
  slots : ∀ connection c, (State.after calls).connections.lookup connection = some c →
    SlotsOf calls pairing connection c

/-! ## One more call -/

variable {pairing : Pairing} {start : Nat} {unsubscribe : Option Nat}

theorem Replaces.snoc_cases (replaces : Replaces (calls ++ [call]) i old new client) :
    Replaces calls i old new client ∧ i < calls.length ∨
      i = calls.length ∧ .sessionReplaced old new client ∈ ((State.after calls).call call).2 := by
  obtain ⟨s, call', at_, emitted⟩ := replaces
  obtain before | ⟨rfl, rfl, rfl⟩ := at_.snoc_cases
  · exact .inl ⟨⟨s, call', before, emitted⟩, before.lt⟩
  · exact .inr ⟨rfl, emitted⟩

theorem Replacing.snoc_cases (replacing : Replacing (calls ++ [call]) i) :
    Replacing calls i ∧ i < calls.length ∨ i = calls.length := by
  obtain ⟨old, new, client, replaces⟩ := replacing
  obtain ⟨before, bound⟩ | ⟨here, -⟩ := replaces.snoc_cases
  · exact .inl ⟨⟨old, new, client, before⟩, bound⟩
  · exact .inr here

theorem Unstarted.snoc {at_ : Nat} (unstarted : Unstarted calls pairing at_)
    (other : start ≠ at_) :
    Unstarted (calls ++ [call]) (pairing.extend calls.length start unsubscribe) at_ := by
  intro i replacing
  obtain ⟨before, bound⟩ | rfl := replacing.snoc_cases
  · simp only [Pairing.extend, update_of_ne (Nat.ne_of_lt bound)]
    exact unstarted i before
  · simpa [Pairing.extend] using other

theorem Unpaired.snoc {u : Nat} (unpaired : Unpaired calls pairing u)
    (other : unsubscribe ≠ some u) :
    Unpaired (calls ++ [call]) (pairing.extend calls.length start unsubscribe) u := by
  intro i replacing
  obtain ⟨before, bound⟩ | rfl := replacing.snoc_cases
  · simp only [Pairing.extend, update_of_ne (Nat.ne_of_lt bound)]
    exact unpaired i before
  · simpa [Pairing.extend] using other

/-- A call that is not made yet explains nothing. -/
theorem Sound.unstarted (sound : Sound calls pairing) {later : Nat} (beyond : calls.length ≤ later) :
    Unstarted calls pairing later := by
  rintro i ⟨old, new, client, replaces⟩ same
  have begun := (sound.explained i old new client replaces).begun
  obtain ⟨_, _, at_, -⟩ := replaces
  have bound := at_.lt
  omega

theorem Sound.unpaired (sound : Sound calls pairing) : Unpaired calls pairing calls.length := by
  rintro i ⟨old, new, client, replaces⟩ same
  have ended := (sound.explained i old new client replaces).ended _ same
  obtain ⟨_, _, at_, -⟩ := replaces
  have bound := at_.lt
  omega

theorem SlotsOf.snoc (slots : SlotsOf calls pairing connection c)
    (starts : ∀ at_ c key request session clock,
      StartedAt calls at_ connection c key request session clock → start ≠ at_)
    (unsubscribes : ∀ u session clock, UnsubscribedAt calls u connection session clock →
      unsubscribe ≠ some u) :
    SlotsOf (calls ++ [call]) (pairing.extend calls.length start unsubscribe) connection c where
  previous old at_ same := by
    obtain ⟨u, clock, left, filled, unused⟩ := slots.previous old at_ same
    exact ⟨u, clock, left.snoc call, filled, unused.snoc (unsubscribes u old clock left)⟩
  fresh new at_ same := by
    obtain ⟨a, c, key, request, clock, issued, started, filled, before, sent, unused⟩ :=
      slots.fresh new at_ same
    exact ⟨a, c, key, request, clock, issued, started.snoc call, filled, before, sent.snoc call,
      unused.snoc (starts a c key request new clock started)⟩
  pending key request found := by
    obtain ⟨issued, sent⟩ := slots.pending key request found
    exact ⟨issued, sent.snoc call⟩

theorem SlotsOf.quiet (slots : SlotsOf calls pairing connection c) :
    SlotsOf (calls ++ [call]) (pairing.extend calls.length (calls.length + 1) none) connection c := by
  refine slots.snoc ?_ ?_
  · intro at_ c key request session clock started same
    have bound := started.lt
    omega
  · exact fun _ _ _ _ wrong => by cases wrong

theorem SlotsOf.fewer (slots : SlotsOf calls pairing connection c)
    (previous : c'.previous = c.previous ∨ c'.previous = none)
    (fresh : c'.fresh = c.fresh ∨ c'.fresh = none)
    (pending : ∀ key request, c'.pending.lookup key = some request → c.pending.lookup key = some request) :
    SlotsOf calls pairing connection c' where
  previous old at_ same := by
    obtain kept | emptied := previous
    · exact slots.previous old at_ (kept ▸ same)
    · rw [emptied] at same; cases same
  fresh new at_ same := by
    obtain kept | emptied := fresh
    · exact slots.fresh new at_ (kept ▸ same)
    · rw [emptied] at same; cases same
  pending key request found := slots.pending key request (pending key request found)

theorem Sound.snoc (sound : Sound calls pairing)
    (explained : ∀ old new client,
      .sessionReplaced old new client ∈ ((State.after calls).call call).2 →
        Explained (calls ++ [call]) calls.length start unsubscribe old new client)
    (unstarted : Unstarted calls pairing start)
    (unpaired : ∀ u, unsubscribe = some u → Unpaired calls pairing u)
    (slots : ∀ connection c,
      ((State.after calls).call call).1.connections.lookup connection = some c →
        SlotsOf (calls ++ [call]) (pairing.extend calls.length start unsubscribe) connection c) :
    Sound (calls ++ [call]) (pairing.extend calls.length start unsubscribe) where
  explained i old new client replaces := by
    obtain ⟨before, bound⟩ | ⟨rfl, emitted⟩ := replaces.snoc_cases
    · simp only [Pairing.extend, update_of_ne (Nat.ne_of_lt bound)]
      exact (sound.explained i old new client before).snoc call
    · simpa [Pairing.extend] using explained old new client emitted
  starts i j first second same := by
    obtain ⟨first, lower⟩ | rfl := first.snoc_cases <;>
      obtain ⟨second, lower'⟩ | rfl := second.snoc_cases
    · simp only [Pairing.extend, update_of_ne (Nat.ne_of_lt lower),
        update_of_ne (Nat.ne_of_lt lower')] at same
      exact sound.starts i j first second same
    · simp only [Pairing.extend, update_of_ne (Nat.ne_of_lt lower),
        update_self] at same
      exact absurd same (unstarted i first)
    · simp only [Pairing.extend, update_of_ne (Nat.ne_of_lt lower'),
        update_self] at same
      exact absurd same.symm (unstarted j second)
    · rfl
  unsubscribes i j u first second one two := by
    obtain ⟨first, lower⟩ | rfl := first.snoc_cases <;>
      obtain ⟨second, lower'⟩ | rfl := second.snoc_cases
    · simp only [Pairing.extend, update_of_ne (Nat.ne_of_lt lower)] at one
      simp only [Pairing.extend, update_of_ne (Nat.ne_of_lt lower')] at two
      exact sound.unsubscribes i j u first second one two
    · simp only [Pairing.extend, update_of_ne (Nat.ne_of_lt lower)] at one
      simp only [Pairing.extend, update_self] at two
      exact absurd one (unpaired u two i first)
    · simp only [Pairing.extend, update_self] at one
      simp only [Pairing.extend, update_of_ne (Nat.ne_of_lt lower')] at two
      exact absurd two (unpaired u one j second)
    · rfl
  slots := by rw [State.after_snoc]; exact slots

theorem Sound.quiet (sound : Sound calls pairing) (silent : ((State.after calls).call call).2 = [])
    (slots : ∀ connection c,
      ((State.after calls).call call).1.connections.lookup connection = some c →
        SlotsOf (calls ++ [call]) (pairing.extend calls.length (calls.length + 1) none) connection c) :
    Sound (calls ++ [call]) (pairing.extend calls.length (calls.length + 1) none) := by
  refine sound.snoc ?_ (sound.unstarted (Nat.le_succ _)) ?_ slots
  · intro old new client emitted
    rw [silent] at emitted
    cases emitted
  · exact fun _ wrong => by cases wrong

omit [Text] in
theorem put_cases {s : State} {id : Nat} {c : Connection}
    (found : (s.put id c).connections.lookup other = some c') :
    other = id ∧ c' = c ∨ other ≠ id ∧ s.connections.lookup other = some c' := by
  by_cases same : other = id
  · subst same
    rw [State.put, AList.lookup_insert] at found
    exact .inl ⟨rfl, (some.inj found).symm⟩
  · rw [State.put, AList.lookup_insert_ne same] at found
    exact .inr ⟨same, found⟩

theorem SlotsOf.empty (calls : List Call) (pairing : Pairing) (connection : Nat)
    (clientId : String) (pid : Option Nat) :
    SlotsOf calls pairing connection { clientId, pid } where
  previous _ _ wrong := by cases wrong
  fresh _ _ wrong := by cases wrong
  pending _ _ wrong := by cases wrong

theorem Sound.connect (sound : Sound calls pairing) (pid : Option Nat) (identity : Option String)
    (process : Nat) :
    Sound (calls ++ [.connect pid identity process])
      (pairing.extend calls.length (calls.length + 1) none) := by
  refine sound.quiet rfl fun connection c found => ?_
  obtain ⟨rfl, rfl⟩ | ⟨-, old⟩ := put_cases found
  · exact SlotsOf.empty _ _ _ _ _
  · exact (sound.slots connection c old).quiet

theorem Sound.disconnect (sound : Sound calls pairing) (id : Nat) :
    Sound (calls ++ [.disconnect id]) (pairing.extend calls.length (calls.length + 1) none) := by
  refine sound.quiet rfl fun connection c found => ?_
  have old : (State.after calls).connections.lookup connection = some c := by
    simp only [State.call, State.disconnect] at found
    by_cases same : connection = id
    · subst same
      rw [AList.lookup_erase] at found
      cases found
    · rwa [AList.lookup_erase_ne same] at found
  exact (sound.slots connection c old).quiet

theorem Sound.setRequestedSwitch (sound : Sound calls pairing) (session clientId : String)
    (pending : Bool) (now : Instant) :
    Sound (calls ++ [.setRequestedSwitch session clientId pending now])
      (pairing.extend calls.length (calls.length + 1) none) := by
  refine sound.quiet rfl fun connection c found => ?_
  simp only [State.call, State.setRequestedSwitch] at found
  split at found
  · exact (sound.slots connection c found).quiet
  · split at found
    · exact (sound.slots connection c found).quiet
    · rename_i id owner first
      obtain ⟨rfl, rfl⟩ | ⟨-, old⟩ := put_cases found
      · have here : (State.after calls).connections.lookup connection = some owner :=
          AList.mem_lookup_iff.mpr (mem_of_find?_eq_some first)
        refine SlotsOf.quiet ?_
        exact (sound.slots connection owner here).fewer (.inl rfl) (.inl rfl)
          fun _ _ found => found
      · exact (sound.slots connection c old).quiet

/-- A request fills no slot; it may wait for its response. -/
theorem clientMessage_cases (c : Connection) (method : String) (message : Json) :
    (c.clientMessage method message).previous = c.previous ∧
    (c.clientMessage method message).fresh = c.fresh ∧
    ((c.clientMessage method message).pending = c.pending ∨
      ∃ id, requestId message = some id ∧ ephemeral method message = false ∧
        (c.clientMessage method message).pending =
          c.pending.insert (toText id) (c.request method message)) := by
  simp only [Connection.clientMessage]
  by_cases first : method = "initialize"
  · subst first
    exact ⟨rfl, rfl, .inl rfl⟩
  · simp only [if_neg first]
    split
    · split
      · rename_i id waits
        split
        · exact ⟨rfl, rfl, .inl rfl⟩
        · rename_i kept
          exact ⟨rfl, rfl, .inr ⟨id, waits, by simpa using kept, rfl⟩⟩
      · exact ⟨rfl, rfl, .inl rfl⟩
    · exact ⟨rfl, rfl, .inl rfl⟩

theorem Sound.clientMessage (sound : Sound calls pairing) (connection : Nat) (message : Json) :
    Sound (calls ++ [.clientMessage connection message])
      (pairing.extend calls.length (calls.length + 1) none) := by
  refine sound.quiet rfl fun other c' found => ?_
  simp only [State.call, State.clientMessage] at found
  split at found
  · exact (sound.slots other c' found).quiet
  rename_i c here
  split at found
  · exact (sound.slots other c' found).quiet
  rename_i method named
  obtain ⟨rfl, rfl⟩ | ⟨-, old⟩ := put_cases found
  case inr => exact (sound.slots other c' old).quiet
  have slots : SlotsOf (calls ++ [.clientMessage other message])
      (pairing.extend calls.length (calls.length + 1) none) other c :=
    (sound.slots other c here).quiet
  obtain ⟨previous, fresh, pending⟩ := clientMessage_cases c method message
  refine ⟨by rw [previous]; exact slots.previous, by rw [fresh]; exact slots.fresh,
    fun key request found => ?_⟩
  obtain same | ⟨id, waits, kept, same⟩ := pending
  · rw [same] at found
    exact slots.pending key request found
  · rw [same] at found
    by_cases mine : key = toText id
    · subst mine
      rw [AList.lookup_insert] at found
      cases found
      exact ⟨calls.length, State.after calls, message, c, method, id, At.last calls _, here,
        named, waits, rfl, kept, rfl⟩
    · rw [AList.lookup_insert_ne mine] at found
      exact slots.pending key request found

/-! ## Responses -/

/-- What the result of a request can do to the slots and which replacement it emits. -/
inductive Responds (c : Connection) (request : PendingRequest) (result : Json) (clock : Clock) :
    Connection → List AgentEvent → Prop
  | quiet {c' : Connection} (previous : c'.previous = c.previous ∨ c'.previous = none)
      (fresh : c'.fresh = c.fresh ∨ c'.fresh = none) (pending : c'.pending = c.pending) :
      Responds c request result clock c' []
  | left {c' : Connection} {thread : String} (method : request.method = "thread/unsubscribe")
      (named : request.thread = some thread) (gone : unsubscribed result = true)
      (owned : thread ∈ c.sessions) (previous : c'.previous = some (thread, clock.filled))
      (fresh : c'.fresh = none) (pending : c'.pending = c.pending) :
      Responds c request result clock c' []
  | leftFor {c' : Connection} {thread new : String} {at_ : Instant}
      (method : request.method = "thread/unsubscribe")
      (named : request.thread = some thread) (gone : unsubscribed result = true)
      (owned : thread ∈ c.sessions) (filled : c.fresh = some (new, at_)) (differ : new ≠ thread)
      (within : elapsed clock.other at_ < twoMinutes) (previous : c'.previous = none)
      (fresh : c'.fresh = none) (pending : c'.pending = c.pending) :
      Responds c request result clock c' (replacementEvents c.clientId thread new)
  | started {c' : Connection} {thread : String} (method : request.method = "thread/start")
      (kept : keptThread result = some thread) (own : subAgent result = false)
      (previous : c'.previous = none) (fresh : c'.fresh = some (thread, clock.filled))
      (pending : c'.pending = c.pending) :
      Responds c request result clock c' []
  | intended {c' : Connection} {thread : String} {intent : SwitchIntent}
      (method : request.method = "thread/start") (kept : keptThread result = some thread)
      (own : subAgent result = false) (switch : request.switch = some intent)
      (current : c.requestedSwitch = some intent)
      (young : elapsed clock.intent intent.requestedAt < thirtySeconds)
      (differ : intent.session ≠ thread) (previous : c'.previous = none) (fresh : c'.fresh = none)
      (pending : c'.pending = c.pending) :
      Responds c request result clock c' (replacementEvents c.clientId intent.session thread)
  | follows {c' : Connection} {thread old : String} {at_ : Instant}
      (method : request.method = "thread/start") (kept : keptThread result = some thread)
      (own : subAgent result = false) (filled : c.previous = some (old, at_))
      (differ : old ≠ thread) (within : elapsed clock.other at_ < twoMinutes)
      (previous : c'.previous = none) (fresh : c'.fresh = c.fresh)
      (pending : c'.pending = c.pending) :
      Responds c request result clock c' (replacementEvents c.clientId old thread)

omit [Text] in
theorem responds_leave {thread : String} (method : request.method = "thread/unsubscribe")
    (named : request.thread = some thread) (gone : unsubscribed result = true)
    (owned : thread ∈ c.sessions) :
    Responds c request result clock (c.leave thread clock).1 (c.leave thread clock).2 := by
  simp only [Connection.leave]
  split
  · rename_i new at_ filled
    split
    · rename_i paired
      exact .leftFor method named gone owned filled paired.1 paired.2 rfl rfl rfl
    · exact .left method named gone owned rfl rfl rfl
  · exact .left method named gone owned rfl rfl rfl

omit [Text] in
theorem responds_start {thread : String} (method : request.method = "thread/start")
    (kept : keptThread result = some thread) (own : subAgent result = false)
    (slots : c'.clientId = c.clientId ∧ c'.previous = c.previous ∧ c'.fresh = c.fresh ∧
      c'.pending = c.pending ∧ c'.requestedSwitch = c.requestedSwitch) :
    Responds c request result clock (c'.start request.switch thread clock).1
      (c'.start request.switch thread clock).2 := by
  obtain ⟨client, previous, fresh, pending, requested⟩ := slots
  simp only [Connection.start]
  split
  · rename_i intent switched
    simp only [filter_eq_some_iff, Bool.and_eq_true, beq_iff_eq, decide_eq_true_eq,
      bne_iff_ne] at switched
    obtain ⟨⟨switch, current, young⟩, differ⟩ := switched
    rw [client]
    exact .intended method kept own switch (requested ▸ current) young differ rfl rfl pending
  · split
    · rename_i old at_ filled
      split
      · rename_i paired
        rw [client]
        exact .follows method kept own (previous ▸ filled) paired.2 paired.1 rfl fresh pending
      · exact .started method kept own rfl rfl pending
    · exact .started method kept own rfl rfl pending

omit [Text] in
theorem responds (c : Connection) (request : PendingRequest) (result : Json) (clock : Clock) :
    Responds c request result clock (c.respond request result clock).1
      (c.respond request result clock).2 := by
  simp only [Connection.respond]
  split
  · rename_i method
    split
    · rename_i thread named
      split
      · rename_i gone
        exact responds_leave method named gone.1 gone.2
      · exact .quiet (.inl rfl) (.inl rfl) rfl
    · exact .quiet (.inl rfl) (.inl rfl) rfl
  · split
    · exact .quiet (.inl rfl) (.inl rfl) rfl
    · rename_i thread kept
      split
      · rename_i start
        exact responds_start start.1 kept (by simpa using start.2) ⟨rfl, rfl, rfl, rfl, rfl⟩
      · split
        · exact .quiet (.inr rfl) (.inr rfl) rfl
        · exact .quiet (.inl rfl) (.inl rfl) rfl

omit [Text] in
theorem push_connections (events : List AgentEvent) (s : State) :
    (events.foldl State.push s).connections = s.connections := by
  induction events generalizing s with
  | nil => rfl
  | cons event rest ih => exact ih _

theorem awaited_lookup {message : Json} (awaited : c.awaited message = some (key, request)) :
    c.pending.lookup key = some request := by
  simp only [Connection.awaited] at awaited
  split at awaited
  · cases awaited
  · split at awaited
    · cases awaited
    · rename_i id _
      cases found : c.pending.lookup (toText id) with
      | none => simp [found] at awaited
      | some request' =>
        rw [found] at awaited
        cases awaited
        exact found

/-- The other connections keep their slots when one answers. -/
theorem SlotsOf.others (slots : SlotsOf calls pairing other c') (ne : other ≠ connection)
    (starts : start = calls.length ∨ ∃ c key request session clock,
      StartedAt calls start connection c key request session clock)
    (unsubscribes : unsubscribe = none ∨ unsubscribe = some calls.length ∨ ∃ u session clock,
      unsubscribe = some u ∧ UnsubscribedAt calls u connection session clock) :
    SlotsOf (calls ++ [call]) (pairing.extend calls.length start unsubscribe) other c' := by
  refine slots.snoc ?_ ?_
  · rintro at_ c'' key' request' session' clock' started rfl
    obtain rfl | ⟨c, key, request, session, clock, mine⟩ := starts
    · exact Nat.lt_irrefl _ started.lt
    · exact ne (started.same mine)
  · rintro u session' clock' left rfl
    obtain wrong | last | ⟨u', session, clock, same, mine⟩ := unsubscribes
    · cases wrong
    · cases last
      exact Nat.lt_irrefl _ left.lt
    · cases same
      exact ne (left.same mine)

omit [Text] in
theorem replacementEvents_once {clientId old' new' : String}
    (one : .sessionReplaced old' new' client ∈ replacementEvents clientId old new) :
    old' = old ∧ new' = new ∧ client = clientId := by
  simpa [replacementEvents] using one

omit [Text] in
theorem Responds.events {events : List AgentEvent}
    (responds : Responds c request result clock c' events) :
    events = [] ∨ ∃ old new, events = replacementEvents c.clientId old new := by
  cases responds with
  | quiet | left | started => exact .inl rfl
  | leftFor | intended | follows => exact .inr ⟨_, _, rfl⟩

/-- The connection after it took a request off. -/
def Connection.answer (c : Connection) (key : String) : Connection :=
  { c with pending := c.pending.erase key }

omit [Text] in
theorem answer_fewer (found : (c.answer key).pending.lookup key' = some request') :
    c.pending.lookup key' = some request' := by
  simp only [Connection.answer] at found
  by_cases same : key' = key
  · subst same
    rw [AList.lookup_erase] at found
    cases found
  · rwa [AList.lookup_erase_ne same] at found

theorem Sound.responded (sound : Sound calls pairing) {message : Json} {events : List AgentEvent}
    (here : (State.after calls).connections.lookup connection = some c)
    (awaited : c.awaited message = some (key, request))
    (resulted : message.get? "result" = some result)
    (put : ((State.after calls).call (.serverMessage connection message clock)).1.connections =
      ((State.after calls).put connection c').connections)
    (emitted : ((State.after calls).call (.serverMessage connection message clock)).2 = events)
    (responds : Responds (c.answer key) request result clock c' events) :
    ∃ pairing', Sound (calls ++ [.serverMessage connection message clock]) pairing' := by
  have slots := sound.slots connection c here
  have now : AnsweredAt (calls ++ [.serverMessage connection message clock]) calls.length
      connection c key request result clock :=
    ⟨State.after calls, message, At.last calls _, here, awaited, resulted⟩
  obtain ⟨issued, sent⟩ := slots.pending key request (awaited_lookup awaited)
  have pending : c'.pending = (c.answer key).pending → ∀ key' request',
      c'.pending.lookup key' = some request' → c.pending.lookup key' = some request' := by
    intro same key' request' found
    rw [same] at found
    exact answer_fewer found
  have client : ∃ c' key' request' result' clock', c'.clientId = c.clientId ∧
      AnsweredAt (calls ++ [.serverMessage connection message clock]) calls.length connection c'
        key' request' result' clock' := ⟨c, key, request, result, clock, rfl, now⟩
  -- Which slots of the connection are filled afterwards decides what the pairing must say.
  cases responds with
  -- Nothing is told and the slots keep their threads, so the pairing stays.
  | quiet previous fresh same =>
    refine ⟨_, sound.quiet emitted fun other c'' found => ?_⟩
    rw [put] at found
    obtain ⟨rfl, rfl⟩ | ⟨-, old⟩ := put_cases found
    · exact SlotsOf.quiet (slots.fewer previous fresh (pending same))
    · exact (sound.slots other c'' old).quiet
  -- A thread is gone before its replacement started; its unsubscription waits unpaired.
  | @left thread method named gone owned previous fresh same =>
    refine ⟨_, sound.quiet emitted fun other c'' found => ?_⟩
    rw [put] at found
    obtain ⟨rfl, rfl⟩ | ⟨-, old⟩ := put_cases found
    · refine ⟨fun old at_ here => ?_, fun new at_ wrong => ?_, fun key' request' found => ?_⟩
      · rw [previous] at here
        cases here
        exact ⟨calls.length, clock, ⟨c, key, request, result, now, method, named, gone, owned⟩,
          rfl, sound.unpaired.snoc (by simp)⟩
      · rw [fresh] at wrong; cases wrong
      · exact slots.quiet.pending key' request' (pending same key' request' found)
    · exact (sound.slots other c'' old).quiet
  -- The replacement started earlier and is waiting: it is paired with this unsubscription.
  | @leftFor thread new at_ method named gone owned filled differ within previous fresh same =>
    obtain ⟨start, c₀, key₀, request₀, clock₀, issued₀, started, filled₀, before, sent₀, unused⟩ :=
      slots.fresh new at_ filled
    have left : UnsubscribedAt (calls ++ [.serverMessage connection message clock]) calls.length
        connection thread clock := ⟨c, key, request, result, now, method, named, gone, owned⟩
    refine ⟨pairing.extend calls.length start (some calls.length), sound.snoc ?_ unused ?_
      fun other c'' found => ?_⟩
    · intro old new' client' mem
      rw [emitted] at mem
      obtain ⟨rfl, rfl, rfl⟩ := replacementEvents_once mem
      refine ⟨fun same => differ same.symm, Nat.le_of_lt started.lt, fun u same => ?_, connection,
        client, c₀, key₀, request₀, clock₀, issued₀, started.snoc _, before, sent₀.snoc _, .inr ?_⟩
      · cases same; exact Nat.le_refl _
      · exact ⟨calls.length, clock, rfl, left, .inr ⟨started.lt, filled₀ ▸ within⟩⟩
    · intro u same
      cases same
      exact sound.unpaired
    · rw [put] at found
      obtain ⟨rfl, rfl⟩ | ⟨ne, old⟩ := put_cases found
      · refine ⟨fun old at_ wrong => ?_, fun new at_ wrong => ?_, fun key' request' found => ?_⟩
        · rw [previous] at wrong; cases wrong
        · rw [fresh] at wrong; cases wrong
        · exact slots.quiet.pending key' request' (pending same key' request' found)
      · exact (sound.slots other c'' old).others ne
          (.inr ⟨c₀, key₀, request₀, new, clock₀, started⟩) (.inr (.inl rfl))
  -- The thread started with nothing to replace; the start waits unpaired.
  | @started thread method kept own previous fresh same =>
    refine ⟨_, sound.quiet emitted fun other c'' found => ?_⟩
    rw [put] at found
    obtain ⟨rfl, rfl⟩ | ⟨-, old⟩ := put_cases found
    · refine ⟨fun old at_ wrong => ?_, fun new at_ here => ?_, fun key' request' found => ?_⟩
      · rw [previous] at wrong; cases wrong
      · rw [fresh] at here
        cases here
        exact ⟨calls.length, c, key, request, clock, issued, ⟨result, now, method, kept, own⟩, rfl,
          sent.lt, sent.snoc _, (sound.unstarted (Nat.le_refl _)).snoc (by simp)⟩
      · exact slots.quiet.pending key' request' (pending same key' request' found)
    · exact (sound.slots other c'' old).quiet
  -- The client itself asked for the switch, so the start is paired with no unsubscription.
  | @intended thread intent method kept own switch current young differ previous fresh same =>
    refine ⟨pairing.extend calls.length calls.length none, sound.snoc ?_
      (sound.unstarted (Nat.le_refl _)) ?_ fun other c'' found => ?_⟩
    · intro old new' client' mem
      rw [emitted] at mem
      obtain ⟨rfl, rfl, rfl⟩ := replacementEvents_once mem
      refine ⟨differ, Nat.le_refl _, fun u wrong => (by cases wrong), connection, client, c, key,
        request, clock, issued, ⟨result, now, method, kept, own⟩, sent.lt, sent.snoc _, .inl ?_⟩
      exact ⟨intent, switch, rfl, current, young⟩
    · exact fun u wrong => by cases wrong
    · rw [put] at found
      obtain ⟨rfl, rfl⟩ | ⟨ne, old⟩ := put_cases found
      · refine ⟨fun old at_ wrong => ?_, fun new at_ wrong => ?_, fun key' request' found => ?_⟩
        · rw [previous] at wrong; cases wrong
        · rw [fresh] at wrong; cases wrong
        · exact slots.quiet.pending key' request' (pending same key' request' found)
      · exact (sound.slots other c'' old).others ne (.inl rfl) (.inl rfl)
  -- The unsubscription that waited becomes the pair of this start.
  | @follows thread old at_ method kept own filled differ within previous fresh same =>
    obtain ⟨u, clock₀, left, filled₀, unused⟩ := slots.previous old at_ filled
    refine ⟨pairing.extend calls.length calls.length (some u), sound.snoc ?_
      (sound.unstarted (Nat.le_refl _)) ?_ fun other c'' found => ?_⟩
    · intro old' new' client' mem
      rw [emitted] at mem
      obtain ⟨rfl, rfl, rfl⟩ := replacementEvents_once mem
      refine ⟨differ, Nat.le_refl _, fun u' same => ?_, connection, client, c, key, request, clock,
        issued, ⟨result, now, method, kept, own⟩, sent.lt, sent.snoc _, .inr ?_⟩
      · cases same; exact Nat.le_of_lt left.lt
      · exact ⟨u, clock₀, rfl, left.snoc _, .inl ⟨left.lt, filled₀ ▸ within⟩⟩
    · intro u' same
      cases same
      exact unused
    · rw [put] at found
      obtain ⟨rfl, rfl⟩ | ⟨ne, old⟩ := put_cases found
      · refine ⟨fun old at_ wrong => ?_, fun new at_ here => ?_, fun key' request' found => ?_⟩
        · rw [previous] at wrong; cases wrong
        · rw [fresh] at here
          obtain ⟨start, c₁, key₁, request₁, clock₁, issued₁, started, filled₁, before, sent₁, free⟩ :=
            slots.fresh new at_ here
          exact ⟨start, c₁, key₁, request₁, clock₁, issued₁, started.snoc _, filled₁, before,
            sent₁.snoc _, free.snoc (Nat.ne_of_gt started.lt)⟩
        · exact slots.quiet.pending key' request' (pending same key' request' found)
      · exact (sound.slots other c'' old).others ne (.inl rfl)
          (.inr (.inr ⟨u, _, clock₀, rfl, left⟩))

theorem Sound.serverMessage (sound : Sound calls pairing) (connection : Nat) (message : Json)
    (clock : Clock) :
    ∃ pairing', Sound (calls ++ [.serverMessage connection message clock]) pairing' := by
  -- what the call does, and with which slots
  cases here : (State.after calls).connections.lookup connection with
  | none =>
    have same : (State.after calls).call (.serverMessage connection message clock) =
        (State.after calls, []) := by simp [State.call, State.serverMessage, here]
    refine ⟨_, sound.quiet (by rw [same]) fun other c found => ?_⟩
    rw [same] at found
    exact (sound.slots other c found).quiet
  | some c =>
  have slots := sound.slots connection c here
  cases awaited : c.awaited message with
  | none =>
    have same : (State.after calls).call (.serverMessage connection message clock) =
        (State.after calls, []) := by simp [State.call, State.serverMessage, here, awaited]
    refine ⟨_, sound.quiet (by rw [same]) fun other c found => ?_⟩
    rw [same] at found
    exact (sound.slots other c found).quiet
  | some entry =>
  obtain ⟨key, request⟩ := entry
  cases resulted : message.get? "result" with
  | none =>
    have same : (State.after calls).call (.serverMessage connection message clock) =
        ((State.after calls).put connection (c.answer key), []) := by
      simp [State.call, State.serverMessage, here, awaited, resulted, Connection.answer]
    refine ⟨_, sound.quiet (by rw [same]) fun other c' found => ?_⟩
    rw [same] at found
    obtain ⟨rfl, rfl⟩ | ⟨-, old⟩ := put_cases found
    · exact SlotsOf.quiet (slots.fewer (.inl rfl) (.inl rfl) fun _ _ => answer_fewer)
    · exact (sound.slots other c' old).quiet
  | some result =>
    have same : (State.after calls).call (.serverMessage connection message clock) =
        (((c.answer key).respond request result clock).2.foldl State.push
          ((State.after calls).put connection ((c.answer key).respond request result clock).1),
          ((c.answer key).respond request result clock).2) := by
      simp [State.call, State.serverMessage, here, awaited, resulted, Connection.answer]
    refine sound.responded here awaited resulted ?_ ?_ (responds _ request result clock)
    · rw [same, push_connections]
    · rw [same]

/-- One call emits one replacement at most. -/
theorem Replaces.unique {old' new' client' : String} (one : Replaces calls i old new client)
    (two : Replaces calls i old' new' client') :
    old = old' ∧ new = new' ∧ client = client' := by
  obtain ⟨s, call, first, emitted⟩ := one
  obtain ⟨s', call', second, emitted'⟩ := two
  obtain rfl : s = s' := first.state.trans second.state.symm
  obtain rfl : call = call' := some.inj (first.call.symm.trans second.call)
  cases call with
  | serverMessage connection message clock =>
    simp only [State.call, State.serverMessage] at emitted emitted'
    split at emitted
    · cases emitted
    · rename_i c here
      simp only [here] at emitted'
      split at emitted
      · cases emitted
      · rename_i key request awaited
        simp only [awaited] at emitted'
        split at emitted
        · cases emitted
        · rename_i result resulted
          simp only [resulted] at emitted'
          obtain silent | ⟨old, new, same⟩ := (responds (c.answer key) request result clock).events
          · simp only [Connection.answer] at silent
            rw [silent] at emitted
            cases emitted
          · simp only [Connection.answer] at same
            rw [same] at emitted emitted'
            obtain ⟨rfl, rfl, rfl⟩ := replacementEvents_once emitted
            obtain ⟨rfl, rfl, rfl⟩ := replacementEvents_once emitted'
            exact ⟨rfl, rfl, rfl⟩
  | _ => cases emitted

/-- Whatever the registry observed, its replacements come from what was observed. -/
theorem sound_after (calls : List Call) : ∃ pairing, Sound calls pairing := by
  induction calls using reverseRecOn with
  | nil =>
    refine ⟨⟨id, fun _ => none⟩, ?_, ?_, ?_, ?_⟩
    · rintro i old new client ⟨_, _, at_, -⟩
      exact absurd at_.lt (Nat.not_lt_zero _)
    · rintro i j ⟨_, _, _, _, _, at_, -⟩
      exact absurd at_.lt (Nat.not_lt_zero _)
    · rintro i j u ⟨_, _, _, _, _, at_, -⟩
      exact absurd at_.lt (Nat.not_lt_zero _)
    · intro connection c found
      cases found
  | append_singleton calls call ih =>
    obtain ⟨pairing, sound⟩ := ih
    cases call with
    | connect pid identity process => exact ⟨_, sound.connect pid identity process⟩
    | disconnect id => exact ⟨_, sound.disconnect id⟩
    | setRequestedSwitch session clientId pending now =>
      exact ⟨_, sound.setRequestedSwitch session clientId pending now⟩
    | clientMessage connection message => exact ⟨_, sound.clientMessage connection message⟩
    | serverMessage connection message clock =>
      exact sound.serverMessage connection message clock

end

end Agentix.Registry
