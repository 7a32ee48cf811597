import Agentix.Codex.Background

/-! # Sessions with polls

What every step keeps, of the session and of what its polls have announced.
-/

namespace Agentix.Codex

open Lib List Option Function

namespace Thread

variable {thread : Thread} {s s' : BackgroundState}

/-- What the server keeps of a session. -/
structure Served (thread : Thread) (s : BackgroundState) : Prop where
  sorted : s.listed.Pairwise (· < ·)
  known : ∀ n ∈ s.listed, n < s.begun
  future : ∀ n, s.begun ≤ n → s.endedAt n = none
  terminal : ∀ n, (s.status n).terminal = (s.endedAt n).isSome
  reported : ∀ n time, s.completedAt n = some time → s.endedAt n = some time
  started : thread.startedAt ≤ s.now

/-- What the polls keep. -/
structure Kept (thread : Thread) (s : BackgroundState) : Prop where
  /-- The listed turns that come after the remembered one have ended since. -/
  cursor : ∀ cursor, s.latest = some cursor → ∀ n ∈ s.listed,
    (∀ anchor, cursor = some anchor → thread.Before anchor (thread.name n)) →
      ∀ time, s.endedAt n = some time → thread.startedAt ≤ time
  answered : ∀ turns, s.polling = .answered turns → thread.Answer s turns
  ready : ∀ turns events, s.polling = .ready turns events → thread.Ready s turns events
  /-- Whatever is announced comes after all that was announced or delivered before. -/
  newer : s.log.Pairwise fun earlier later =>
    later.isAnnounced = true → thread.Before earlier.turn later.turn
  last : ∀ notice ∈ s.log, ∃ turn, s.completed = some turn ∧
    (notice.turn = turn ∨ thread.Before notice.turn turn)
  recent : ∀ notice ∈ s.log, notice.isAnnounced = true → thread.Recent s notice.turn

theorem Kept.announced (kept : thread.Kept s) : thread.Announced s where
  once := kept.newer.imp fun before announced => (before announced).ne
  ordered := by
    apply pairwise_filter.mpr
    exact kept.newer.imp fun before _ announced => before announced
  recent := kept.recent

theorem served_start : thread.Served thread.start :=
  ⟨thread.sorted, thread.known, thread.future, thread.terminal, thread.reported, le_refl _⟩

theorem kept_start : thread.Kept thread.start where
  cursor := nofun
  answered := nofun
  ready := nofun
  newer := .nil
  last := nofun
  recent := nofun

/-! ## The session goes on -/

/-- A step of the session: turns end after the client has started, and stay ended. -/
structure Passes (thread : Thread) (s s' : BackgroundState) : Prop where
  latest : s'.latest = s.latest
  completed : s'.completed = s.completed
  polling : s'.polling = s.polling
  log : s'.log = s.log
  grows : ∀ n time, s.endedAt n = some time → s'.endedAt n = some time
  fresh : ∀ n ∈ s'.listed, ∀ time, s'.endedAt n = some time →
    thread.startedAt ≤ time ∨ n ∈ s.listed ∧ s.endedAt n = some time

theorem Recent.mono {turn : String} (recent : thread.Recent s turn)
    (grows : ∀ n time, s.endedAt n = some time → s'.endedAt n = some time) :
    thread.Recent s' turn := by
  obtain ⟨n, time, same, ended, bound⟩ := recent
  exact ⟨n, time, same, grows n time ended, bound⟩

theorem Answer.mono {turns : List ListedTurn} (answer : thread.Answer s turns)
    (latest : s'.latest = s.latest)
    (grows : ∀ n time, s.endedAt n = some time → s'.endedAt n = some time)
    (fresh : ∀ n ∈ s'.listed, ∀ time, s'.endedAt n = some time →
      thread.startedAt ≤ time ∨ n ∈ s.listed ∧ s.endedAt n = some time) :
    thread.Answer s' turns where
  sorted := answer.sorted
  reported := fun turn mem ended time known bound =>
    (answer.reported turn mem ended time known bound).mono grows
  since := by
    intro turn mem ended cursor remembered after
    rw [latest] at remembered
    exact (answer.since turn mem ended cursor remembered after).mono grows
  later := by
    intro n mem time ended
    obtain since | ⟨old, before⟩ := fresh n mem time ended
    · exact .inl since
    · exact answer.later n old time before

theorem Ready.mono {turns events : List ListedTurn} (ready : thread.Ready s turns events)
    (grows : ∀ n time, s.endedAt n = some time → s'.endedAt n = some time) :
    thread.Ready s' turns events :=
  ⟨ready.sorted, fun turn mem => (ready.recent turn mem).mono grows, ready.listed,
    ready.segment⟩

theorem Kept.passes (kept : thread.Kept s) (passes : thread.Passes s s') : thread.Kept s' where
  cursor := by
    intro cursor latest n mem after time ended
    rw [passes.latest] at latest
    obtain since | ⟨old, before⟩ := passes.fresh n mem time ended
    · exact since
    · exact kept.cursor cursor latest n old after time before
  answered := by
    intro turns polling
    rw [passes.polling] at polling
    exact (kept.answered turns polling).mono passes.latest passes.grows passes.fresh
  ready := by
    intro turns events polling
    rw [passes.polling] at polling
    exact (kept.ready turns events polling).mono passes.grows
  newer := by
    rw [passes.log]
    exact kept.newer
  last := by
    rw [passes.log, passes.completed]
    exact kept.last
  recent := by
    rw [passes.log]
    exact fun notice mem announced => (kept.recent notice mem announced).mono passes.grows

theorem passes_begins (served : thread.Served s) :
    thread.Passes s { s with begun := s.begun + 1, listed := s.listed ++ [s.begun] } where
  latest := rfl
  completed := rfl
  polling := rfl
  log := rfl
  grows := fun _ _ ended => ended
  fresh := by
    intro n mem time ended
    obtain old | new := mem_append.mp mem
    · exact .inr ⟨old, ended⟩
    · rw [mem_singleton.mp new] at ended
      have none := served.future s.begun (le_refl _)
      rw [none] at ended
      cases ended

theorem served_begins (served : thread.Served s) :
    thread.Served { s with begun := s.begun + 1, listed := s.listed ++ [s.begun] } where
  sorted := by
    apply pairwise_append.mpr
    refine ⟨served.sorted, pairwise_singleton _ _, fun n mem m last => ?_⟩
    rw [mem_singleton.mp last]
    exact served.known n mem
  known := by
    intro n mem
    show n < s.begun + 1
    obtain old | new := mem_append.mp mem
    · have := served.known n old
      omega
    · have := mem_singleton.mp new
      omega
  future := fun n bound => served.future n (Nat.le_of_succ_le bound)
  terminal := served.terminal
  reported := served.reported
  started := served.started

section

variable {turn : Nat} {status : TurnStatus} {reported : Bool} {error : Option String}

theorem served_ends (served : thread.Served s)
    (next : ends s turn status reported error = some s') : thread.Served s' := by
  simp only [ends] at next
  split at next
  · rename_i guard
    cases next
    refine ⟨served.sorted, served.known, ?_, ?_, ?_, served.started⟩
    · intro n bound
      show update s.endedAt turn (some s.now) n = none
      have other : n ≠ turn := by
        have : s.begun ≤ n := bound
        omega
      rw [update_of_ne other]
      exact served.future n bound
    · intro n
      show (update s.status turn status n).terminal = (update s.endedAt turn (some s.now) n).isSome
      by_cases same : n = turn
      · subst same
        simp [guard.2.2]
      · simp [same, served.terminal]
    · intro n time
      show update s.completedAt turn (if reported then some s.now else none) n = some time →
        update s.endedAt turn (some s.now) n = some time
      by_cases same : n = turn
      · subst same
        cases reported <;> simp
      · simpa [same] using served.reported n time
  · cases next

theorem passes_ends (served : thread.Served s)
    (next : ends s turn status reported error = some s') : thread.Passes s s' := by
  simp only [ends] at next
  split at next
  · rename_i guard
    cases next
    refine ⟨rfl, rfl, rfl, rfl, ?_, ?_⟩
    · intro n time ended
      show update s.endedAt turn (some s.now) n = some time
      have other : n ≠ turn := by
        rintro rfl
        rw [guard.2.1] at ended
        cases ended
      rw [update_of_ne other]
      exact ended
    · intro n mem time ended
      have now : update s.endedAt turn (some s.now) n = some time := ended
      by_cases same : n = turn
      · subst same
        rw [update_self, some.injEq] at now
        exact .inl (now ▸ served.started)
      · rw [update_of_ne same] at now
        exact .inr ⟨mem, now⟩
  · cases next

end

/-! ## The client -/

theorem kept_select (kept : thread.Kept s) (next : select s = some s') : thread.Kept s' := by
  simp only [select] at next
  split at next
  · rename_i idle
    cases next
    split
    · exact ⟨nofun, fun _ polling => by simp [idle] at polling,
        fun _ _ polling => by simp [idle] at polling, kept.newer, kept.last, kept.recent⟩
    · exact ⟨kept.cursor, nofun, nofun, kept.newer, kept.last, kept.recent⟩
  · cases next

theorem kept_fail (kept : thread.Kept s) (next : fail s = some s') : thread.Kept s' := by
  simp only [fail] at next
  split at next
  · cases next
    exact ⟨kept.cursor, nofun, nofun, kept.newer, kept.last, kept.recent⟩
  · cases next

theorem kept_answer (served : thread.Served s) (kept : thread.Kept s)
    (next : thread.answer s = some s') : thread.Kept s' := by
  simp only [answer] at next
  split at next
  · cases next
    refine ⟨kept.cursor, ?_, nofun, kept.newer, kept.last, kept.recent⟩
    rintro turns polling
    obtain rfl : (s.listed.map (thread.list s)).reverse = turns := by
      injection polling
    have listed : ∀ {turn}, turn ∈ (s.listed.map (thread.list s)).reverse → turn.ended = true →
        ∃ n time, n ∈ s.listed ∧ turn = thread.list s n ∧ s.endedAt n = some time := by
      intro turn mem ended
      rw [mem_reverse, List.mem_map] at mem
      obtain ⟨n, here, rfl⟩ := mem
      have known : (s.endedAt n).isSome = true := (served.terminal n).symm.trans ended
      obtain ⟨time, same⟩ := isSome_iff_exists.mp known
      exact ⟨n, time, here, rfl, same⟩
    refine ⟨?_, ?_, ?_, ?_⟩
    · rw [pairwise_reverse, pairwise_map]
      exact served.sorted.imp fun less => ⟨_, _, rfl, rfl, less⟩
    · intro turn mem ended time known bound
      obtain ⟨n, end_, here, rfl, -⟩ := listed mem ended
      exact ⟨n, time, rfl, served.reported n time known, bound⟩
    · intro turn mem ended cursor latest after
      obtain ⟨n, time, here, rfl, known⟩ := listed mem ended
      exact ⟨n, time, rfl, known, kept.cursor cursor latest n here after time known⟩
    · intro n here time known
      right
      refine ⟨thread.list s n, mem_reverse.mpr (mem_map_of_mem here), ?_, rfl⟩
      have ended := served.terminal n
      have some_ : (s.endedAt n).isSome = true := by rw [known]; rfl
      exact ended.trans some_
  · cases next

/-- The turn that is remembered now is the newest one that has ended. -/
theorem cursor_settle {turns : List ListedTurn} (answer : thread.Answer s turns) {n time : Nat}
    (here : n ∈ s.listed) (known : s.endedAt n = some time)
    (after : ∀ anchor, (readCompletions thread.startedAt s.latest turns).1 = some anchor →
      thread.Before anchor (thread.name n)) : thread.startedAt ≤ time := by
  obtain since | ⟨turn, mem, ended, same⟩ := answer.later n here time known
  · exact since
  · have inside : turn ∈ turns.filter ListedTurn.ended := mem_filter.mpr ⟨mem, ended⟩
    have sorted := answer.sorted.filter ListedTurn.ended
    cases listed : turns.filter ListedTurn.ended with
    | nil =>
      rw [listed] at inside
      cases inside
    | cons newest rest =>
      rw [listed] at inside sorted
      have before := after newest.id (by simp [readCompletions, listed])
      rw [← same] at before
      obtain rfl | old := mem_cons.mp inside
      · exact absurd rfl before.ne
      · exact absurd rfl (before.trans ((pairwise_cons.mp sorted).1 turn old)).ne

theorem kept_settle {running : Bool} (kept : thread.Kept s)
    (lasting : thread.Lasting s (.settle running)) (next : thread.settle s running = some s') :
    thread.Kept s' := by
  simp only [settle] at next
  split at next
  · rename_i turns polling
    have answer := kept.answered turns polling
    cases next
    refine ⟨?_, ?_, ?_, kept.newer, kept.last, kept.recent⟩
    · intro cursor latest n here after time known
      cases running with
      | false => cases latest
      | true =>
        cases latest
        exact cursor_settle answer here known after
    · intro turns polling
      simp only at polling
      split at polling <;> cases polling
    · intro turns' events polling'
      simp only at polling'
      split at polling'
      · cases polling'
      · cases polling'
        have ready := answer.ready fun anchor latest => lasting turns anchor polling latest
        exact ready.mono fun _ _ ended => ended
  · cases next

theorem kept_publish (kept : thread.Kept s) (lasting : thread.Lasting s .publish)
    (next : thread.publish s = some s') : thread.Kept s' := by
  simp only [publish] at next
  split at next
  · rename_i turns events polling
    have ready := kept.ready turns events polling
    cases next
    have sublist := undelivered_sublist s.completed events
    have sorted := ready.sorted.sublist sublist
    -- what was announced or delivered before comes before what is announced now
    have later : ∀ notice ∈ s.log, ∀ turn ∈ undelivered s.completed events,
        thread.Before notice.turn turn.id := by
      intro notice mem turn here
      obtain ⟨anchor, completed, same⟩ := kept.last notice mem
      rw [completed] at here
      have before := ready.undelivered (lasting turns events anchor polling completed) here
      obtain same | earlier := same
      · rw [same]
        exact before
      · exact earlier.trans before
    refine ⟨kept.cursor, nofun, nofun, ?_, ?_, ?_⟩
    · apply pairwise_append.mpr
      refine ⟨kept.newer, ?_, ?_⟩
      · apply pairwise_map.mpr
        apply sorted.imp
        intro older newer before _
        exact before
      · intro notice mem announced here _
        obtain ⟨turn, mem', rfl⟩ := mem_map.mp here
        exact later notice mem turn mem'
    · intro notice mem
      obtain none | ⟨rest, newest, split⟩ := eq_nil_or_concat' (undelivered s.completed events)
      · rw [none] at mem ⊢
        simp only [map_nil, append_nil, getLast?_nil, map_none,
          none_or] at mem ⊢
        exact kept.last notice mem
      · refine ⟨newest.id, by simp [split], ?_⟩
        obtain old | new := mem_append.mp mem
        · right
          exact later notice old newest (by rw [split]; simp)
        · obtain ⟨turn, here, rfl⟩ := mem_map.mp new
          rw [split] at here sorted
          obtain inside | here := mem_append.mp here
          · right
            exact (pairwise_append.mp sorted).2.2 turn inside newest mem_cons_self
          · left
            rw [mem_singleton.mp here]
            rfl
    · intro notice mem announced
      obtain old | new := mem_append.mp mem
      · exact kept.recent notice old announced
      · obtain ⟨turn, here, rfl⟩ := mem_map.mp new
        exact ready.recent turn (sublist.subset here)
  · cases next

theorem kept_delivers {turn : Nat} (kept : thread.Kept s)
    (lasting : thread.Lasting s (.delivers turn)) (next : thread.delivers s turn = some s') :
    thread.Kept s' := by
  simp only [delivers] at next
  split at next
  · cases next
    refine ⟨kept.cursor, ?_, ?_, ?_, ?_, ?_⟩
    · intro turns polling
      exact (kept.answered turns polling).mono rfl (fun _ _ ended => ended)
        fun n mem time ended => .inr ⟨mem, ended⟩
    · intro turns events polling
      exact (kept.ready turns events polling).mono fun _ _ ended => ended
    · apply pairwise_append.mpr
      refine ⟨kept.newer, pairwise_singleton _ _, ?_⟩
      intro notice _ delivered here announced
      rw [mem_singleton.mp here] at announced
      cases announced
    · intro notice mem
      refine ⟨thread.name turn, rfl, ?_⟩
      obtain old | new := mem_append.mp mem
      · obtain ⟨anchor, completed, same⟩ := kept.last notice old
        have order := lasting anchor completed
        obtain rfl | before := same
        · exact order
        · obtain rfl | between := order
          · exact .inr before
          · exact .inr (before.trans between)
      · left
        rw [mem_singleton.mp new]
        rfl
    · intro notice mem announced
      obtain old | new := mem_append.mp mem
      · exact kept.recent notice old announced
      · rw [mem_singleton.mp new] at announced
        cases announced
  · cases next

/-! ## Runs -/

variable {step : BackgroundStep}

theorem served_step (served : thread.Served s) (next : thread.step s step = some s') :
    thread.Served s' := by
  have same : ∀ {t}, t.now = s.now → t.begun = s.begun → t.listed = s.listed →
      t.status = s.status → t.endedAt = s.endedAt → t.completedAt = s.completedAt →
        thread.Served t := by
    intro t now begun listed status endedAt completedAt
    constructor
    · rw [listed]
      exact served.sorted
    · rw [listed, begun]
      exact served.known
    · rw [begun, endedAt]
      exact served.future
    · rw [status, endedAt]
      exact served.terminal
    · rw [completedAt, endedAt]
      exact served.reported
    · rw [now]
      exact served.started
  cases step with
  | begins =>
    cases next
    exact served_begins served
  | ends turn status reported error => exact served_ends served next
  | rollback gone =>
    cases next
    exact ⟨served.sorted.filter _, fun n mem => served.known n (mem_of_mem_filter mem),
      served.future, served.terminal, served.reported, served.started⟩
  | tick =>
    cases next
    exact ⟨served.sorted, served.known, served.future, served.terminal, served.reported,
      Nat.le_succ_of_le served.started⟩
  | attach | detach =>
    cases next
    exact same rfl rfl rfl rfl rfl rfl
  | delivers turn =>
    simp only [Thread.step, Thread.delivers] at next
    split at next <;> cases next
    exact same rfl rfl rfl rfl rfl rfl
  | select =>
    simp only [Thread.step, Thread.select] at next
    split at next <;> cases next
    split <;> exact same rfl rfl rfl rfl rfl rfl
  | answer =>
    simp only [Thread.step, Thread.answer] at next
    split at next <;> cases next
    exact same rfl rfl rfl rfl rfl rfl
  | fail =>
    simp only [Thread.step, Thread.fail] at next
    split at next <;> cases next
    exact same rfl rfl rfl rfl rfl rfl
  | settle running =>
    simp only [Thread.step, Thread.settle] at next
    split at next <;> cases next
    exact same rfl rfl rfl rfl rfl rfl
  | publish =>
    simp only [Thread.step, Thread.publish] at next
    split at next <;> cases next
    exact same rfl rfl rfl rfl rfl rfl

theorem kept_step (served : thread.Served s) (kept : thread.Kept s)
    (lasting : thread.Lasting s step) (next : thread.step s step = some s') : thread.Kept s' := by
  cases step with
  | begins =>
    cases next
    exact kept.passes (passes_begins served)
  | ends turn status reported error => exact kept.passes (passes_ends served next)
  | rollback gone =>
    cases next
    exact kept.passes ⟨rfl, rfl, rfl, rfl, fun _ _ ended => ended,
      fun n mem time ended => .inr ⟨mem_of_mem_filter mem, ended⟩⟩
  | tick | attach | detach =>
    cases next
    exact kept.passes ⟨rfl, rfl, rfl, rfl, fun _ _ ended => ended,
      fun n mem time ended => .inr ⟨mem, ended⟩⟩
  | delivers turn => exact kept_delivers kept lasting next
  | select => exact kept_select kept next
  | answer => exact kept_answer served kept next
  | fail => exact kept_fail kept next
  | settle running => exact kept_settle kept lasting next
  | publish => exact kept_publish kept lasting next

theorem kept_of_reachable (run : thread.system.Reachable thread.Lasting s) : thread.Kept s := by
  have both : thread.Served s ∧ thread.Kept s := by
    apply run.invariant fun s => thread.Served s ∧ thread.Kept s
    · exact ⟨served_start, kept_start⟩
    · intro s s' step _ lasting kept next
      exact ⟨served_step kept.1 next, kept_step kept.1 kept.2 lasting next⟩
  exact both.2

end Thread

end Agentix.Codex
