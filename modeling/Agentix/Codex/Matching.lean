import Agentix.Codex.Process
import Agentix.Lib.Rows

/-! # Matches

The clients of a directory get its first sessions, whatever the platform's order.
-/

namespace Agentix.Codex

open Lib List Option Function

variable {P T : Type}

theorem eq_of_priority {loaded : List (SessionSummary P)}
    (distinct : (loaded.map SessionSummary.id).Nodup) {left right : SessionSummary P}
    (here : left ∈ loaded) (there : right ∈ loaded) (before : priority left right)
    (after : priority right left) : left = right := by
  have same : left.rank = right.rank := le_antisymm after before
  have id : left.id = right.id := congrArg (fun rank => (ofLex (ofLex (ofLex rank).2).2).2) same
  exact Distinct.eq_of_key distinct here there id

instance : Std.Total (priority (P := P)) :=
  ⟨fun left right => le_total right.rank left.rank⟩

instance : IsTrans (SessionSummary P) priority :=
  ⟨fun _ _ _ first second => le_trans second first⟩

section

variable [DecidableEq P] {iteration other : Iteration P} {loaded : List (SessionSummary P)}
  {snapshot : RunningProcessSnapshot P T} {session : SessionSummary P} {client : DaemonClient P T}
  {cwd : P}

namespace RunningProcessSnapshot

variable {session' : SessionSummary P}

theorem mem_clientsIn : client ∈ snapshot.clientsIn cwd ↔
    client ∈ snapshot.daemonClients ∧ client.cwd = cwd := by
  rw [clientsIn, mem_insertionSort, mem_filter, decide_eq_true_eq]

theorem mem_candidatesIn : session ∈ snapshot.candidatesIn loaded cwd ↔
    session ∈ loaded ∧ session.id ∉ snapshot.directSessionIds ∧ session.cwd = some cwd := by
  rw [candidatesIn, mem_filter, decide_eq_true_eq]

theorem clientsIn_nodup (pids : (snapshot.daemonClients.map DaemonClient.pid).Nodup) :
    (snapshot.clientsIn cwd).Nodup := by
  refine (perm_insertionSort _ _).nodup_iff.mpr ?_
  exact (List.Nodup.of_map _ pids).filter _

/-- The sessions that the clients of a directory get, first ones first. -/
def chosen (snapshot : RunningProcessSnapshot P T) (loaded : List (SessionSummary P)) (cwd : P) :
    List (SessionSummary P) :=
  ((snapshot.candidatesIn loaded cwd).insertionSort priority).take (snapshot.clientsIn cwd).length

theorem chosen_nodup (distinct : (loaded.map SessionSummary.id).Nodup) :
    (snapshot.chosen loaded cwd).Nodup := by
  have sorted : ((snapshot.candidatesIn loaded cwd).insertionSort priority).Nodup :=
    (perm_insertionSort _ _).nodup_iff.mpr ((List.Nodup.of_map _ distinct).filter _)
  exact sorted.sublist (take_sublist _ _)

theorem mem_of_mem_chosen (here : session ∈ snapshot.chosen loaded cwd) :
    session ∈ snapshot.candidatesIn loaded cwd :=
  (mem_insertionSort _).mp (mem_of_mem_take here)

/-- The platform's arrangement of the candidates does not matter. -/
theorem matched_eq (distinct : (loaded.map SessionSummary.id).Nodup) :
    snapshot.matched iteration loaded cwd =
      (snapshot.chosen loaded cwd).zip (snapshot.clientsIn cwd) := by
  have ordered : ∀ a ∈ snapshot.candidatesIn loaded cwd,
      ∀ b ∈ snapshot.candidatesIn loaded cwd, priority a b → priority b a → a = b :=
    fun a here b there => eq_of_priority distinct (mem_candidatesIn.mp here).1
      (mem_candidatesIn.mp there).1
  simp only [matched, chosen]
  split
  · rw [Selector.sort_take iteration.selector _ ordered]
  · rename_i few
    rw [take_of_length_le]
    rw [length_insertionSort]
    omega

/-- All clients with their sessions, directory by directory. -/
def pairs (snapshot : RunningProcessSnapshot P T) (iteration : Iteration P)
    (loaded : List (SessionSummary P)) : List (SessionSummary P × DaemonClient P T) :=
  (iteration.cwds (snapshot.daemonClients.map DaemonClient.cwd).dedup).flatMap
    (snapshot.matched iteration loaded)

theorem resolveRunningSessions_eq :
    resolveRunningSessions iteration loaded snapshot =
      (snapshot.pairs iteration loaded).foldl RunningSessionSelection.bind
        { ids := snapshot.directSessionIds, terminals := snapshot.directTerminalLocations
          clients := fun _ => none } := by
  simp only [resolveRunningSessions, pairs]
  by_cases idle : snapshot.daemonClients.isEmpty = true
  · have none := isEmpty_iff.mp idle
    have order : iteration.cwds [] = [] := (iteration.perm []).eq_nil
    simp [none, order]
  · rw [if_neg idle, foldl_flatMap]

theorem pairs_perm (distinct : (loaded.map SessionSummary.id).Nodup) :
    (snapshot.pairs iteration loaded).Perm (snapshot.pairs other loaded) := by
  have same : snapshot.matched iteration loaded = snapshot.matched other loaded :=
    funext fun cwd => (matched_eq distinct).trans (matched_eq distinct).symm
  rw [pairs, pairs, same]
  exact ((iteration.perm _).trans (other.perm _).symm).flatMap_right _

theorem mem_pairs (distinct : (loaded.map SessionSummary.id).Nodup) :
    (session, client) ∈ snapshot.pairs iteration loaded ↔
      (session, client) ∈ (snapshot.chosen loaded client.cwd).zip (snapshot.clientsIn client.cwd) := by
  rw [pairs, mem_flatMap]
  constructor
  · rintro ⟨cwd, -, here⟩
    rw [matched_eq distinct] at here
    have known := (mem_clientsIn.mp (of_mem_zip here).2).2
    rwa [known]
  · intro here
    have known := (mem_clientsIn.mp (of_mem_zip here).2).1
    refine ⟨client.cwd, ?_, (matched_eq distinct).symm ▸ here⟩
    rw [(iteration.perm _).mem_iff, mem_dedup]
    exact mem_map_of_mem known

theorem of_mem_pairs (distinct : (loaded.map SessionSummary.id).Nodup)
    (here : (session, client) ∈ snapshot.pairs iteration loaded) :
    client ∈ snapshot.daemonClients ∧ session ∈ loaded ∧
      session.id ∉ snapshot.directSessionIds ∧ session.cwd = some client.cwd := by
  have zipped := of_mem_zip ((mem_pairs distinct).mp here)
  obtain ⟨known, free, place⟩ := mem_candidatesIn.mp (mem_of_mem_chosen zipped.1)
  exact ⟨(mem_clientsIn.mp zipped.2).1, known, free, place⟩

theorem pairs_session_unique (distinct : (loaded.map SessionSummary.id).Nodup)
    (pids : (snapshot.daemonClients.map DaemonClient.pid).Nodup) {client' : DaemonClient P T}
    (here : (session, client) ∈ snapshot.pairs iteration loaded)
    (there : (session', client') ∈ snapshot.pairs iteration loaded)
    (same : client.pid = client'.pid) : session = session' ∧ client = client' := by
  obtain rfl : client = client' := Distinct.eq_of_key pids (of_mem_pairs distinct here).1
    (of_mem_pairs distinct there).1 same
  exact ⟨zip_left_unique (clientsIn_nodup pids) ((mem_pairs distinct).mp here)
    ((mem_pairs distinct).mp there), rfl⟩

theorem pairs_client_unique (distinct : (loaded.map SessionSummary.id).Nodup)
    {client' : DaemonClient P T} (here : (session, client) ∈ snapshot.pairs iteration loaded)
    (there : (session', client') ∈ snapshot.pairs iteration loaded)
    (same : session.id = session'.id) : session = session' ∧ client = client' := by
  obtain ⟨-, known, -, place⟩ := of_mem_pairs distinct here
  obtain ⟨-, known', -, place'⟩ := of_mem_pairs distinct there
  obtain rfl : session = session' := Distinct.eq_of_key distinct known known' same
  have cwd : client.cwd = client'.cwd := some.inj (place.symm.trans place')
  have zipped := (mem_pairs distinct).mp there
  rw [← cwd] at zipped
  exact ⟨rfl, zip_right_unique (chosen_nodup distinct) ((mem_pairs distinct).mp here) zipped⟩

theorem candidates_taken (distinct : (loaded.map SessionSummary.id).Nodup)
    (known : client ∈ snapshot.daemonClients)
    (alone : ∀ session, (session, client) ∉ snapshot.pairs iteration loaded)
    (candidate : session ∈ snapshot.candidatesIn loaded client.cwd) :
    ∃ client', (session, client') ∈ snapshot.pairs iteration loaded := by
  have here : client ∈ snapshot.clientsIn client.cwd := mem_clientsIn.mpr ⟨known, rfl⟩
  have few : (snapshot.chosen loaded client.cwd).length <
      (snapshot.clientsIn client.cwd).length := by
    by_contra enough
    obtain ⟨session, zipped⟩ := exists_zip_right (Nat.le_of_not_lt enough) here
    exact alone session ((mem_pairs distinct).mpr zipped)
  have all : snapshot.chosen loaded client.cwd =
      (snapshot.candidatesIn loaded client.cwd).insertionSort priority := by
    refine take_of_length_le ?_
    rw [chosen, length_take] at few
    omega
  have chosen : session ∈ snapshot.chosen loaded client.cwd := by
    rw [all]
    exact (mem_insertionSort _).mpr candidate
  obtain ⟨client', zipped⟩ := exists_zip_left (Nat.le_of_lt few) chosen
  have cwd := (mem_clientsIn.mp (of_mem_zip zipped).2).2
  rw [← cwd] at zipped
  exact ⟨client', (mem_pairs distinct).mpr zipped⟩

theorem priority_of_untaken (distinct : (loaded.map SessionSummary.id).Nodup)
    (here : (session, client) ∈ snapshot.pairs iteration loaded)
    (candidate : session' ∈ snapshot.candidatesIn loaded client.cwd)
    (untaken : ∀ client', (session', client') ∉ snapshot.pairs iteration loaded) :
    priority session session' := by
  have zipped := (mem_pairs distinct).mp here
  refine le_of_mem_take_sort (of_mem_zip zipped).1 candidate fun chosen => ?_
  have few : (snapshot.chosen loaded client.cwd).length ≤
      (snapshot.clientsIn client.cwd).length := by
    rw [RunningProcessSnapshot.chosen, length_take]
    exact Nat.min_le_left _ _
  obtain ⟨client', zipped'⟩ := exists_zip_left few chosen
  have cwd := (mem_clientsIn.mp (of_mem_zip zipped').2).2
  rw [← cwd] at zipped'
  exact untaken client' ((mem_pairs distinct).mpr zipped')

end RunningProcessSnapshot

end

/-! ## Selections -/

namespace RunningSessionSelection

variable {result : RunningSessionSelection T} {pairs : List (SessionSummary P × DaemonClient P T)}
  {pid : Nat} {session : SessionId}

/-- Who has a session after a match had one before, or was matched. -/
theorem foldl_bind_cases (found : (pairs.foldl bind result).clients pid = some session) :
    result.clients pid = some session ∨
      ∃ pair ∈ pairs, pair.2.pid = pid ∧ pair.1.id = session := by
  induction pairs generalizing result with
  | nil => exact .inl found
  | cons pair pairs ih =>
    obtain before | ⟨later, mem, same⟩ := ih found
    · simp only [bind, update_apply] at before
      split at before
      · rename_i here
        exact .inr ⟨pair, mem_cons_self, here.symm, some.inj before⟩
      · exact .inl before
    · exact .inr ⟨later, mem_cons_of_mem _ mem, same⟩

theorem foldl_bind_kept
    (unique : ∀ other ∈ pairs, other.2.pid = pid → other.1.id = session)
    (here : result.clients pid = some session) :
    (pairs.foldl RunningSessionSelection.bind result).clients pid = some session := by
  induction pairs generalizing result with
  | nil => exact here
  | cons head rest ih =>
    apply ih fun other mem => unique other (mem_cons_of_mem _ mem)
    show (update result.clients head.2.pid (some head.1.id)) pid = some session
    by_cases same : pid = head.2.pid
    · rw [same, update_self, unique head mem_cons_self same.symm]
    · rw [update_of_ne same]
      exact here

theorem foldl_bind_of_mem {pair : SessionSummary P × DaemonClient P T} (mem : pair ∈ pairs)
    (unique : ∀ other ∈ pairs, other.2.pid = pair.2.pid → other.1.id = pair.1.id) :
    (pairs.foldl RunningSessionSelection.bind result).clients pair.2.pid = some pair.1.id := by
  induction pairs generalizing result with
  | nil => cases mem
  | cons head rest ih =>
    have later : ∀ other ∈ rest, other.2.pid = pair.2.pid → other.1.id = pair.1.id :=
      fun other mem => unique other (mem_cons_of_mem _ mem)
    obtain same | mem := mem_cons.mp mem
    · subst same
      apply foldl_bind_kept later
      show (update result.clients pair.2.pid (some pair.1.id)) pair.2.pid = some pair.1.id
      exact update_self _ _ _
    · exact ih mem later

theorem bind_comm {one two : SessionSummary P × DaemonClient P T}
    (pids : one.2.pid ≠ two.2.pid) (sessions : one.1.id ≠ two.1.id) :
    (result.bind one).bind two = (result.bind two).bind one := by
  simp only [bind, mk.injEq]
  refine ⟨Finset.insert_comm _ _ _, ?_, update_comm pids _ _ _⟩
  cases one.2.terminal <;> cases two.2.terminal
  · rfl
  · rfl
  · rfl
  · exact update_comm sessions _ _ _

end RunningSessionSelection

theorem resolveRunningSessions_unique [DecidableEq P] {loaded : List (SessionSummary P)}
    {snapshot : RunningProcessSnapshot P T} (distinct : (loaded.map SessionSummary.id).Nodup)
    (pids : (snapshot.daemonClients.map DaemonClient.pid).Nodup) (iteration other : Iteration P) :
    resolveRunningSessions iteration loaded snapshot =
      resolveRunningSessions other loaded snapshot := by
  rw [RunningProcessSnapshot.resolveRunningSessions_eq,
    RunningProcessSnapshot.resolveRunningSessions_eq]
  refine (RunningProcessSnapshot.pairs_perm distinct).foldl_eq' ?_ _
  intro one here two there result
  by_cases same : one = two
  · rw [same]
  · refine RunningSessionSelection.bind_comm (fun pid => same ?_) fun id => same ?_
    · obtain ⟨session, client⟩ := RunningProcessSnapshot.pairs_session_unique distinct pids here
        there pid
      exact Prod.ext session client
    · obtain ⟨session, client⟩ := RunningProcessSnapshot.pairs_client_unique distinct here there id
      exact Prod.ext session client

/-! ## Bindings -/

namespace Bindings

variable {bindings : Bindings} {loaded : List (SessionSummary P)}
  {snapshot : RunningProcessSnapshot P T} {pid : Nat} {session : SessionId}

theorem retain_eq_some : bindings.retain loaded snapshot pid = some session ↔
    bindings pid = some session ∧ pid ∈ snapshot.daemonClients.map DaemonClient.pid ∧
      session ∈ loaded.map SessionSummary.id ∧ session ∉ snapshot.directSessionIds := by
  rw [retain, filter_eq_some_iff, decide_eq_true_eq]

theorem foldl_settle (clients : List (DaemonClient P T)) (start : RunningProcessSnapshot P T) :
    (clients.foldl bindings.settle start).daemonClients =
        start.daemonClients ++ clients.filter (fun client => bindings client.pid = none) ∧
      ∀ session, session ∈ (clients.foldl bindings.settle start).directSessionIds ↔
        session ∈ start.directSessionIds ∨
          ∃ client ∈ clients, bindings client.pid = some session := by
  induction clients generalizing start with
  | nil => simp
  | cons client clients ih =>
    obtain ⟨left, direct⟩ := ih (bindings.settle start client)
    rw [foldl_cons, left]
    simp only [direct]
    cases bound : bindings client.pid with
    | none => simp [settle, bound]
    | some session =>
      refine ⟨by simp [settle, bound], fun other => ?_⟩
      simp only [settle, bound, Finset.mem_insert, exists_mem_cons_iff, some.injEq]
      constructor
      · rintro ((same | owned) | later)
        · exact .inr (.inl same.symm)
        · exact .inl owned
        · exact .inr (.inr later)
      · rintro (owned | same | later)
        · exact .inl (.inr owned)
        · exact .inl (.inl same.symm)
        · exact .inr later

theorem unresolved_daemonClients : (bindings.unresolved snapshot).daemonClients =
    snapshot.daemonClients.filter (fun client => bindings client.pid = none) :=
  (foldl_settle snapshot.daemonClients _).1

theorem mem_unresolved_directSessionIds :
    session ∈ (bindings.unresolved snapshot).directSessionIds ↔
      session ∈ snapshot.directSessionIds ∨
        ∃ client ∈ snapshot.daemonClients, bindings client.pid = some session :=
  (foldl_settle snapshot.daemonClients _).2 session

theorem unresolved_pids (pids : (snapshot.daemonClients.map DaemonClient.pid).Nodup) :
    ((bindings.unresolved snapshot).daemonClients.map DaemonClient.pid).Nodup := by
  rw [unresolved_daemonClients]
  exact pids.sublist (filter_sublist.map _)

end Bindings

end Agentix.Codex

/-! # Bindings that hold on

What a call keeps of the bindings, and what it adds.
-/

namespace Agentix.Codex

open Lib Option List

variable {P T : Type} [DecidableEq P]

/-- A session is held by its process or by a client of the snapshot. -/
def Bindings.Held (bindings : Bindings) (snapshot : RunningProcessSnapshot P T)
    (session : SessionId) : Prop :=
  session ∈ snapshot.directSessionIds ∨
    ∃ client ∈ snapshot.daemonClients, bindings client.pid = some session

/-- The bindings before and after a call. -/
structure Settled (before after : Bindings) (poll : Poll P T) : Prop where
  /-- Nobody shares a session. -/
  injective : ∀ {pid pid' session}, after pid = some session → after pid' = some session → pid = pid'
  /-- Only clients are bound, to loaded sessions that no process owns. -/
  live : ∀ {pid session}, after pid = some session →
    pid ∈ poll.snapshot.daemonClients.map DaemonClient.pid ∧
      session ∈ poll.loaded.map SessionSummary.id ∧ session ∉ poll.snapshot.directSessionIds
  /-- A client keeps its session. -/
  kept : ∀ {client session}, client ∈ poll.snapshot.daemonClients →
    before client.pid = some session → session ∈ poll.loaded.map SessionSummary.id →
      session ∉ poll.snapshot.directSessionIds → after client.pid = some session
  /-- A new binding is to a session of the client's directory that nobody held. -/
  fresh : ∀ {pid session}, after pid = some session → before pid ≠ some session →
    ¬ before.Held poll.snapshot session ∧ ∃ client ∈ poll.snapshot.daemonClients, client.pid = pid ∧
      ∃ summary ∈ poll.loaded, summary.id = session ∧ summary.cwd = some client.cwd
  /-- A client stays unbound when no session of its directory is left. -/
  filled : ∀ {client summary}, client ∈ poll.snapshot.daemonClients → after client.pid = none →
    summary ∈ poll.loaded → summary.cwd = some client.cwd → after.Held poll.snapshot summary.id
  /-- The sessions taken come before the sessions left. -/
  ordered : ∀ {taken left cwd}, taken ∈ poll.loaded → left ∈ poll.loaded → taken.cwd = some cwd →
    left.cwd = some cwd → ¬ before.Held poll.snapshot taken.id → after.Held poll.snapshot taken.id →
      ¬ after.Held poll.snapshot left.id → left.rank < taken.rank

namespace Bindings

variable {bindings : Bindings} {poll : Poll P T} {iteration : Iteration P} {pid : Nat}
  {session : SessionId}

omit [DecidableEq P] in
theorem mem_unresolved_iff (loaded : session ∈ poll.loaded.map SessionSummary.id) :
    session ∈ ((bindings.retain poll.loaded poll.snapshot).unresolved poll.snapshot).directSessionIds ↔
      bindings.Held poll.snapshot session := by
  rw [mem_unresolved_directSessionIds, Held]
  constructor
  · rintro (owned | ⟨client, here, bound⟩)
    · exact .inl owned
    · exact .inr ⟨client, here, (retain_eq_some.mp bound).1⟩
  · rintro (owned | ⟨client, here, bound⟩)
    · exact .inl owned
    · by_cases direct : session ∈ poll.snapshot.directSessionIds
      · exact .inl direct
      · exact .inr ⟨client, here, retain_eq_some.mpr ⟨bound, mem_map_of_mem here, loaded, direct⟩⟩

/-- The clients that are matched with sessions by a call, and the sessions that they get. -/
def fresh (bindings : Bindings) (iteration : Iteration P) (poll : Poll P T) :
    List (SessionSummary P × DaemonClient P T) :=
  ((bindings.retain poll.loaded poll.snapshot).unresolved poll.snapshot).pairs iteration poll.loaded

variable {summary : SessionSummary P} {client : DaemonClient P T}

theorem of_mem_fresh (mem : (summary, client) ∈ bindings.fresh iteration poll) :
    client ∈ poll.snapshot.daemonClients ∧
      bindings.retain poll.loaded poll.snapshot client.pid = none ∧ summary ∈ poll.loaded ∧
      ¬ bindings.Held poll.snapshot summary.id ∧ summary.cwd = some client.cwd := by
  obtain ⟨known, loaded, free, cwd⟩ :=
    RunningProcessSnapshot.of_mem_pairs poll.distinct mem
  rw [unresolved_daemonClients, mem_filter, decide_eq_true_eq] at known
  have candidate := (mem_unresolved_iff (mem_map_of_mem loaded)).not.mp free
  exact ⟨known.1, known.2, loaded, candidate, cwd⟩

theorem fresh_session_unique (here : (summary, client) ∈ bindings.fresh iteration poll)
    {summary' : SessionSummary P} {client' : DaemonClient P T}
    (there : (summary', client') ∈ bindings.fresh iteration poll) (same : client.pid = client'.pid) :
    summary = summary' ∧ client = client' :=
  RunningProcessSnapshot.pairs_session_unique poll.distinct (unresolved_pids poll.pids) here there
    same

theorem fresh_client_unique (here : (summary, client) ∈ bindings.fresh iteration poll)
    {summary' : SessionSummary P} {client' : DaemonClient P T}
    (there : (summary', client') ∈ bindings.fresh iteration poll) (same : summary.id = summary'.id) :
    summary = summary' ∧ client = client' :=
  RunningProcessSnapshot.pairs_client_unique poll.distinct here there same

theorem clients_resolve : (bindings.resolve iteration poll.loaded poll.snapshot).1.clients pid =
      some session ↔
    ∃ summary client, (summary, client) ∈ bindings.fresh iteration poll ∧ client.pid = pid ∧
      summary.id = session := by
  show (resolveRunningSessions iteration poll.loaded _).clients pid = some session ↔ _
  rw [RunningProcessSnapshot.resolveRunningSessions_eq]
  constructor
  · intro found
    obtain before | ⟨⟨summary, client⟩, mem, here, same⟩ :=
      RunningSessionSelection.foldl_bind_cases found
    · cases before
    · exact ⟨summary, client, mem, here, same⟩
  · rintro ⟨summary, client, mem, rfl, rfl⟩
    have unique : ∀ other ∈ bindings.fresh iteration poll, other.2.pid = client.pid →
        other.1.id = summary.id := by
      intro other there same
      rw [(fresh_session_unique mem there same.symm).1]
    apply RunningSessionSelection.foldl_bind_of_mem mem unique

theorem resolve_eq_some : (bindings.resolve iteration poll.loaded poll.snapshot).2 pid =
      some session ↔
    bindings.retain poll.loaded poll.snapshot pid = some session ∨
      ∃ summary client, (summary, client) ∈ bindings.fresh iteration poll ∧ client.pid = pid ∧
        summary.id = session := by
  show ((bindings.resolve iteration poll.loaded poll.snapshot).1.clients pid).or
    (bindings.retain poll.loaded poll.snapshot pid) = some session ↔ _
  rw [or_eq_some_iff, clients_resolve]
  constructor
  · rintro (matched | ⟨-, kept⟩)
    · exact .inr matched
    · exact .inl kept
  · rintro (kept | matched)
    · refine .inr ⟨?_, kept⟩
      by_contra found
      obtain ⟨other, here⟩ := ne_none_iff_exists'.mp found
      obtain ⟨summary, client, mem, rfl, -⟩ := clients_resolve.mp here
      rw [(of_mem_fresh mem).2.1] at kept
      cases kept
    · exact .inl matched

theorem held_of_fresh (mem : (summary, client) ∈ bindings.fresh iteration poll) :
    (bindings.resolve iteration poll.loaded poll.snapshot).2.Held poll.snapshot summary.id :=
  .inr ⟨client, (of_mem_fresh mem).1, resolve_eq_some.mpr (.inr ⟨_, _, mem, rfl, rfl⟩)⟩

theorem held_resolve (loaded : session ∈ poll.loaded.map SessionSummary.id)
    (held : bindings.Held poll.snapshot session) :
    (bindings.resolve iteration poll.loaded poll.snapshot).2.Held poll.snapshot session := by
  obtain owned | ⟨client, known, bound⟩ := held
  · exact .inl owned
  · by_cases direct : session ∈ poll.snapshot.directSessionIds
    · exact .inl direct
    · have kept := retain_eq_some.mpr ⟨bound, mem_map_of_mem known, loaded, direct⟩
      exact .inr ⟨client, known, resolve_eq_some.mpr (.inl kept)⟩

/-- A loaded session of a directory that nobody holds after a call. -/
theorem candidate_of_unheld {cwd : P} (loaded : summary ∈ poll.loaded)
    (place : summary.cwd = some cwd) (free : ¬ bindings.Held poll.snapshot summary.id) :
    summary ∈ ((bindings.retain poll.loaded poll.snapshot).unresolved poll.snapshot).candidatesIn
      poll.loaded cwd := by
  refine RunningProcessSnapshot.mem_candidatesIn.mpr ⟨loaded, fun direct => free ?_, place⟩
  exact (mem_unresolved_iff (mem_map_of_mem loaded)).mp direct

variable (bindings) (poll) (iteration)

/-- What a call makes of bindings that nobody shares. -/
theorem settled_resolve
    (injective : ∀ {pid pid' session}, bindings pid = some session →
      bindings pid' = some session → pid = pid') :
    Settled bindings (bindings.resolve iteration poll.loaded poll.snapshot).2 poll where
  -- A binding of the result was retained or is fresh, and a fresh one never takes a session
  -- that a live client holds.
  injective := by
    intro pid pid' session here there
    obtain kept | ⟨summary, client, mem, rfl, same⟩ := resolve_eq_some.mp here
    · obtain kept' | ⟨summary, client, mem, rfl, same⟩ := resolve_eq_some.mp there
      · exact injective (retain_eq_some.mp kept).1 (retain_eq_some.mp kept').1
      · obtain ⟨before, known, -⟩ := retain_eq_some.mp kept
        obtain ⟨holder, present, rfl⟩ := mem_map.mp known
        refine absurd (.inr ⟨holder, present, ?_⟩) (of_mem_fresh mem).2.2.2.1
        rw [same]
        exact before
    · obtain kept' | ⟨summary', client', mem', rfl, same'⟩ := resolve_eq_some.mp there
      · obtain ⟨before, known, -⟩ := retain_eq_some.mp kept'
        obtain ⟨holder, present, rfl⟩ := mem_map.mp known
        refine absurd (.inr ⟨holder, present, ?_⟩) (of_mem_fresh mem).2.2.2.1
        rw [same]
        exact before
      · rw [(fresh_client_unique mem mem' (same.trans same'.symm)).2]
  live := by
    intro pid session here
    obtain kept | ⟨summary, client, mem, rfl, rfl⟩ := resolve_eq_some.mp here
    · exact (retain_eq_some.mp kept).2
    · obtain ⟨known, -, loaded, free, -⟩ := of_mem_fresh mem
      exact ⟨mem_map_of_mem known, mem_map_of_mem loaded, fun direct => free (.inl direct)⟩
  kept := by
    intro client session known before loaded free
    exact resolve_eq_some.mpr (.inl (retain_eq_some.mpr
      ⟨before, mem_map_of_mem known, loaded, free⟩))
  fresh := by
    intro pid session here new
    obtain kept | ⟨summary, client, mem, rfl, rfl⟩ := resolve_eq_some.mp here
    · exact absurd (retain_eq_some.mp kept).1 new
    · obtain ⟨known, -, loaded, free, cwd⟩ := of_mem_fresh mem
      exact ⟨free, client, known, rfl, summary, loaded, rfl, cwd⟩
  -- A client left over means that no session of its directory is, as the rounds go by rank.
  filled := by
    intro client summary known alone loaded cwd
    by_cases free : bindings.Held poll.snapshot summary.id
    · exact held_resolve (mem_map_of_mem loaded) free
    · have unbound : ∀ session, (bindings.resolve iteration poll.loaded poll.snapshot).2 client.pid
          ≠ some session := eq_none_iff_forall_ne_some.mp alone
      have waiting : bindings.retain poll.loaded poll.snapshot client.pid = none := by
        apply eq_none_iff_forall_ne_some.mpr
        exact fun session kept => unbound session (resolve_eq_some.mpr (.inl kept))
      have left : client ∈ ((bindings.retain poll.loaded poll.snapshot).unresolved
          poll.snapshot).daemonClients := by
        rw [unresolved_daemonClients, mem_filter, decide_eq_true_eq]
        exact ⟨known, waiting⟩
      have unmatched : ∀ session, (session, client) ∉ bindings.fresh iteration poll :=
        fun session mem =>
          unbound session.id (resolve_eq_some.mpr (.inr ⟨_, _, mem, rfl, rfl⟩))
      obtain ⟨client', mem⟩ := RunningProcessSnapshot.candidates_taken poll.distinct left
        unmatched (candidate_of_unheld loaded cwd free)
      exact held_of_fresh mem
  -- The sessions of one directory are handed out in the order of their priority.
  ordered := by
    intro taken left cwd loaded loaded' place place' free held unheld
    obtain owned | ⟨client, known, bound⟩ := held
    · exact absurd (.inl owned) free
    · obtain kept | ⟨summary, client', mem, same, identified⟩ := resolve_eq_some.mp bound
      · exact absurd (.inr ⟨client, known, (retain_eq_some.mp kept).1⟩) free
      · obtain ⟨-, -, here, -, directory⟩ := of_mem_fresh mem
        obtain rfl : summary = taken := Distinct.eq_of_key poll.distinct here loaded identified
        have shared : client'.cwd = cwd := some.inj (directory.symm.trans place)
        have candidate := candidate_of_unheld loaded' (shared ▸ place')
          fun before => unheld (held_resolve (mem_map_of_mem loaded') before)
        have first : left.rank ≤ summary.rank :=
          RunningProcessSnapshot.priority_of_untaken poll.distinct mem candidate
            fun other mem' => unheld (held_of_fresh mem')
        refine lt_of_le_of_ne first fun tie => unheld ?_
        rw [eq_of_priority poll.distinct loaded' loaded tie.ge tie.le]
        exact .inr ⟨client, known, bound⟩

end Bindings

end Agentix.Codex
