import Agentix.Ledger.Model
import Agentix.Lib.Run
import Mathlib.Data.List.Pairwise

/-! # Issues and their Jobs

Once an Issue is completed or cancelled, its Jobs have ended.  Issue identifiers may
repeat, since a request can bring its own: only the first row with an identifier is ever
worked on, the others stay as they were created.
-/

namespace Agentix.Ledger

open Lib TaskStore Relation List

variable {issue : Issue}

structure Answered (L : State) : Prop where
  shadowed : L.issues.Pairwise fun a b => a.id = b.id → b.status = .todo
  ended : ∀ issue ∈ L.issues, issue.status.terminal = true →
    ∀ job ∈ L.jobs, job.issue = some issue.id → job.status.terminal = true

/-- Jobs come back only while their Issue is open. -/
def Authority.Respectful (may : Authority) : Prop :=
  ∀ L, ∀ job ∈ L.jobs, may.reopen L job → ∀ issue ∈ L.issues, job.issue = some issue.id →
    issue.status.terminal = false

theorem answered_empty : Answered {} := ⟨.nil, by simp⟩

variable {may : Authority} {L L' : State}

/-- Whatever ended under an identifier is the first row that has it. -/
theorem Answered.rowOf_eq (answered : Answered L) (mem : issue ∈ L.issues)
    (finished : issue.status.terminal = true) : rowOf L.issues Issue.id issue.id = some issue := by
  have shadowed := answered.shadowed
  generalize L.issues = rows at mem shadowed
  induction rows with
  | nil => cases mem
  | cons head tail ih =>
    rw [pairwise_cons] at shadowed
    unfold rowOf
    rw [find?_cons]
    by_cases same : head.id = issue.id
    · rcases mem_cons.mp mem with rfl | later
      · simp
      · have todo := shadowed.1 issue later same
        rw [todo] at finished
        cases finished
    · simp only [same, decide_false]
      rcases mem_cons.mp mem with rfl | later
      · exact absurd rfl same
      · exact ih later shadowed.2

theorem JobMove.answered {job job' : Job} (move : JobMove may L job job') (answered : Answered L)
    (respectful : may.Respectful) (mem : job ∈ L.jobs) (issue_mem : issue ∈ L.issues)
    (finished : issue.status.terminal = true) (linked : job'.issue = some issue.id) :
    job'.status.terminal = true := by
  cases move with
  | stay => exact answered.ended issue issue_mem finished job mem linked
  | archive => exact answered.ended issue issue_mem finished job mem linked
  | link accepting =>
    refine accepting.resolve_right fun accepting => ?_
    obtain ⟨row, found, unfinished⟩ := accepting issue.id linked
    rw [answered.rowOf_eq issue_mem finished] at found
    cases found
    rw [finished] at unfinished
    cases unfinished
  | activate pending =>
    have ended := answered.ended issue issue_mem finished job mem linked
    rw [pending] at ended
    cases ended
  | submit active =>
    have ended := answered.ended issue issue_mem finished job mem linked
    rw [active] at ended
    cases ended
  | complete => rfl
  | cancel => rfl
  | reopen _ _ allowed =>
    have unfinished := respectful L job mem allowed issue issue_mem linked
    rw [finished] at unfinished
    cases unfinished

theorem shadowed_set {issues : List Issue} {i : Nat} {status : IssueStatus}
    (shadowed : issues.Pairwise fun a b => a.id = b.id → b.status = .todo)
    (found : issues[i]? = some issue)
    (first : ∀ j < i, ∀ other, issues[j]? = some other → other.id ≠ issue.id) :
    (issues.set i { issue with status }).Pairwise fun a b => a.id = b.id → b.status = .todo := by
  obtain ⟨bound, rfl⟩ := List.getElem?_eq_some_iff.mp found
  rw [pairwise_iff_getElem] at shadowed ⊢
  intro j k hj hk before same
  simp only [length_set] at hj hk
  simp only [getElem_set] at same ⊢
  by_cases second : i = k
  · subst second
    rw [if_neg (by omega)] at same
    exact absurd (by simpa using same) (first j before _ (getElem?_eq_getElem hj))
  · rw [if_neg second] at same ⊢
    by_cases here : i = j
    · subst here
      rw [if_pos rfl] at same
      exact shadowed i k hj hk before same
    · rw [if_neg here] at same
      exact shadowed j k hj hk before same

theorem answered_effect (effect : Effect may L L') (respectful : may.Respectful)
    (answered : Answered L) : Answered L' := by
  cases effect with
  | @addIssue issue todo =>
    constructor
    · refine pairwise_append.mpr ⟨answered.shadowed, pairwise_singleton _ _, ?_⟩
      intro a _ b new _
      rw [mem_singleton.mp new, todo]
    · intro row mem finished
      rcases mem_append.mp mem with old | new
      · exact answered.ended row old finished
      · rw [mem_singleton.mp new, todo] at finished
        cases finished
  | @changeIssue i issue status found first settled =>
    refine ⟨shadowed_set answered.shadowed found first, ?_⟩
    intro row mem finished job job_mem linked
    have issue_mem : issue ∈ L.issues := mem_of_getElem? found
    rcases mem_or_eq_of_mem_set mem with old | rfl
    · exact answered.ended row old finished job job_mem linked
    · rcases settled finished with same | ended
      · exact answered.ended issue issue_mem (same ▸ finished) job job_mem linked
      · exact ended job job_mem linked
  | @addJob job _ active unlinked =>
    refine ⟨answered.shadowed, ?_⟩
    intro issue issue_mem finished row mem linked
    rcases mem_append.mp mem with old | new
    · exact answered.ended issue issue_mem finished row old linked
    · rw [mem_singleton.mp new, unlinked] at linked
      cases linked
  | moveJobs each =>
    refine ⟨answered.shadowed, ?_⟩
    intro issue issue_mem finished job' mem' linked
    obtain ⟨job, mem, rfl⟩ := mem_map.mp mem'
    exact (each job mem).answered answered respectful mem issue_mem finished linked
  | addTask => exact ⟨answered.shadowed, answered.ended⟩
  | changeTask => exact ⟨answered.shadowed, answered.ended⟩
  | claim => exact ⟨answered.shadowed, answered.ended⟩
  | stop => exact ⟨answered.shadowed, answered.ended⟩
  | delete =>
    refine ⟨answered.shadowed.sublist filter_sublist, ?_⟩
    intro issue issue_mem finished job mem
    exact answered.ended issue (mem_filter.mp issue_mem).1 finished job
      (mem_filter.mp mem).1

theorem answered_effects (effects : Effects may L L') (respectful : may.Respectful)
    (answered : Answered L) : Answered L' :=
  invariant_of_steps Answered (fun _ _ effect => answered_effect effect respectful) effects answered

end Agentix.Ledger
