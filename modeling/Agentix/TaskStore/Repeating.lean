import Agentix.TaskStore.Batches
import Agentix.TaskStore.Conversation

/-! # The Job of a session is selected by what recording leaves

What is recorded in a Job changes neither its identity nor its activity, so that the session has the
same Job afterwards.
-/

namespace Agentix.TaskStore

open Lib List Option

variable {s : Snapshot} {session query : String} {row : Job}

/-- Jobs that are selected alike. -/
structure SelectedAlike (a b : Job) : Prop where
  id : a.id = b.id
  session : a.sessionId = b.sessionId
  followupSession : a.followupSessionId = b.followupSessionId
  followupAt : a.followupAt = b.followupAt
  followupId : a.followupId = b.followupId
  createdAt : a.createdAt = b.createdAt
  archivedAt : a.archivedAt = b.archivedAt

theorem SelectedAlike.refl (a : Job) : SelectedAlike a a := ⟨rfl, rfl, rfl, rfl, rfl, rfl, rfl⟩

theorem finRange_cast {n k : Nat} (same : n = k) :
    finRange k = (finRange n).map (Fin.cast same) := by
  subst same
  exact (map_id _).symm

theorem latestBy_map {α β : Type} (f : α → β) (key : β → Int × String) (rows : List α) :
    latestBy key (rows.map f) = (latestBy (fun x => key (f x)) rows).map f := by
  cases rows with
  | nil => rfl
  | cons first rest =>
    simp only [latestBy, map_cons, map_some, some_inj]
    induction rest generalizing first with
    | nil => rfl
    | cons next rest ih =>
      rw [map_cons, foldl_cons, foldl_cons]
      split
      · exact ih next
      · exact ih first

section Modified

variable (i : Fin s.jobs.length)

theorem length_modifyJob (f : Job → Job) : (s.modifyJob i f).jobs.length = s.jobs.length :=
  length_modify ..

/-- A position, in the snapshot in which a Job was assigned. -/
def moved (f : Job → Job) (j : Fin s.jobs.length) : Fin (s.modifyJob i f).jobs.length :=
  Fin.cast (length_modifyJob i f).symm j

theorem get_moved (same : SelectedAlike row (s.jobs.get i)) (j : Fin s.jobs.length) :
    SelectedAlike ((s.modifyJob i fun _ => row).jobs.get (moved i (fun _ => row) j))
      (s.jobs.get j) := by
  have position : (s.modifyJob i fun _ => row).jobs.get (moved i (fun _ => row) j) =
      if i.val = j.val then row else s.jobs.get j := by
    simp only [Snapshot.modifyJob, moved, get_eq_getElem, getElem_modify]
    rfl
  rw [position]
  split
  · rename_i here
    rw [← Fin.ext here]
    exact same
  · exact .refl _

theorem associated_moved (same : SelectedAlike row (s.jobs.get i)) (j : Fin s.jobs.length) :
    associated (s.modifyJob i fun _ => row) session
      ((s.modifyJob i fun _ => row).jobs.get (moved i (fun _ => row) j)) =
        associated s session (s.jobs.get j) := by
  have alike := get_moved i same j
  simp only [associated, alike.session, alike.followupSession, alike.id]
  rfl

theorem activity_moved (same : SelectedAlike row (s.jobs.get i)) (j : Fin s.jobs.length) :
    activity (s.modifyJob i fun _ => row) session
      ((s.modifyJob i fun _ => row).jobs.get (moved i (fun _ => row) j)) =
        activity s session (s.jobs.get j) := by
  have alike := get_moved i same j
  simp only [activity, alike.createdAt, alike.id, alike.followupSession, alike.followupAt,
    alike.followupId]
  rfl

theorem exists_moved (f : Job → Job) (j : Fin (s.modifyJob i f).jobs.length) :
    ∃ k, moved i f k = j :=
  ⟨Fin.cast (length_modifyJob i f) j, rfl⟩

theorem id_moved (same : SelectedAlike row (s.jobs.get i)) (j : Fin s.jobs.length) :
    ((s.modifyJob i fun _ => row).jobs[moved i (fun _ => row) j]).id = (s.jobs[j]).id :=
  (get_moved i same j).id

theorem findFinIdx?_moved (same : SelectedAlike row (s.jobs.get i)) :
    (s.modifyJob i fun _ => row).jobs.findFinIdx? (fun job => job.id == query) =
      (s.jobs.findFinIdx? fun job => job.id == query).map (moved i fun _ => row) := by
  cases found : s.jobs.findFinIdx? fun job => job.id == query with
  | some k =>
    obtain ⟨here, earlier⟩ := findFinIdx?_eq_some_iff.mp found
    refine findFinIdx?_eq_some_iff.mpr ⟨?_, fun j before => ?_⟩
    · rw [id_moved i same k]
      exact here
    · obtain ⟨j, rfl⟩ := exists_moved i (fun _ => row) j
      rw [id_moved i same j]
      exact earlier j before
  | none =>
    refine findFinIdx?_eq_none_iff.mpr fun job mem => ?_
    obtain ⟨j, rfl⟩ := mem_iff_get.mp mem
    obtain ⟨j, rfl⟩ := exists_moved i (fun _ => row) j
    rw [(get_moved i same j).id]
    exact findFinIdx?_eq_none_iff.mp found _ (get_mem _ _)

theorem jobIndex_moved (same : SelectedAlike row (s.jobs.get i)) {j : Fin s.jobs.length}
    (found : s.jobIndex query = .ok j) :
    (s.modifyJob i fun _ => row).jobIndex query = .ok (moved i (fun _ => row) j) := by
  simp only [Snapshot.jobIndex, resolve] at found ⊢
  split at found
  · cases found
  · rename_i named
    rw [if_neg named, findFinIdx?_moved i same]
    cases exact : s.jobs.findFinIdx? fun job => job.id == query with
    | some k =>
      rw [exact] at found
      cases found
      rfl
    | none =>
      rw [exact] at found
      have alike : ∀ j, (startsWith ((s.modifyJob i fun _ => row).jobs.get
          (moved i (fun _ => row) j)).id query ||
            ((s.modifyJob i fun _ => row).jobs.get (moved i (fun _ => row) j)).id == query) =
              (startsWith (s.jobs.get j).id query || (s.jobs.get j).id == query) := by
        intro j
        rw [(get_moved i same j).id]
      simp only [map_none] at found ⊢
      rw [finRange_cast (length_modifyJob i fun _ => row).symm, List.filter_map]
      split at found
      · rename_i only
        cases found
        have same_matches : (finRange s.jobs.length).filter
            ((fun j => startsWith ((s.modifyJob i fun _ => row).jobs.get j).id query ||
              ((s.modifyJob i fun _ => row).jobs.get j).id == query) ∘
                Fin.cast (length_modifyJob i fun _ => row).symm) = [j] := by
          rw [← only]
          exact filter_congr fun j _ => alike j
        rw [same_matches]
        rfl
      · cases found
      · cases found

theorem sessionJobIndex_moved (same : SelectedAlike row (s.jobs.get i)) {job : Option String}
    (found : sessionJobIndex s job session = .ok (some i)) :
    sessionJobIndex (s.modifyJob i fun _ => row) job session =
      .ok (some (moved i (fun _ => row) i)) := by
  cases job with
  | some id =>
    simp only [sessionJobIndex, bind_ok, pure_ok, ensure_ok, some_inj] at found ⊢
    obtain ⟨j, index, ⟨⟩, here, rfl⟩ := found
    refine ⟨_, jobIndex_moved _ same index, (), ?_, rfl⟩
    rw [associated_moved _ same]
    exact here
  | none =>
    simp only [sessionJobIndex, Except.ok.injEq] at found ⊢
    rw [finRange_cast (length_modifyJob i fun _ => row).symm, List.filter_map, latestBy_map]
    have alike : ∀ j, (associated (s.modifyJob i fun _ => row) session
        ((s.modifyJob i fun _ => row).jobs.get (moved i (fun _ => row) j)) &&
          ((s.modifyJob i fun _ => row).jobs.get (moved i (fun _ => row) j)).archivedAt.isNone) =
        (associated s session (s.jobs.get j) && (s.jobs.get j).archivedAt.isNone) := by
      intro j
      rw [associated_moved i same, (get_moved i same j).archivedAt]
    have same_open : (finRange s.jobs.length).filter
        ((fun j => associated (s.modifyJob i fun _ => row) session
          ((s.modifyJob i fun _ => row).jobs.get j) &&
            ((s.modifyJob i fun _ => row).jobs.get j).archivedAt.isNone) ∘
              Fin.cast (length_modifyJob i fun _ => row).symm) =
        (finRange s.jobs.length).filter fun j =>
          associated s session (s.jobs.get j) && (s.jobs.get j).archivedAt.isNone :=
      filter_congr fun j _ => alike j
    have same_activity : (fun j => activity (s.modifyJob i fun _ => row) session
        ((s.modifyJob i fun _ => row).jobs.get
          (Fin.cast (length_modifyJob i fun _ => row).symm j))) =
        fun j => activity s session (s.jobs.get j) :=
      funext fun j => activity_moved i same j
    rw [same_open, same_activity, found]
    rfl

end Modified

end Agentix.TaskStore

/-! # Recording a batch again

Once a batch is merged there is nothing of it left to record, so the same request changes nothing.
-/

namespace Agentix.TaskStore

open Lib List Option

variable {session : String} {now : Int} {job : Job} {entries entries' : List JobMessage}
  {indexes : List (String × Nat)} {messages : List Value} {batch : List Incoming} {ordered : Bool}
  {before : Option String} {merge : Merge} {m : Incoming} {anchor : Nat}
  {fresh anchored : List (Incoming × Nat)}

/-! ## The merged conversation -/

variable {message : Value}

/-- Every entry has a text. -/
def Spoken (entries : List JobMessage) : Prop := ∀ e ∈ entries, blank e.text = false

theorem Spoken.adopted (spoken : Spoken entries) : Spoken (adopted session batch entries) := by
  unfold TaskStore.adopted
  split
  · exact spoken
  · rename_i pending last
    split
    · split
      · exact spoken
      · intro e mem
        obtain older | rfl := (mem_append.mp mem).imp_right mem_singleton.mp
        · exact spoken e (dropLast_subset _ older)
        · exact spoken pending (mem_of_getLast? last)
    · exact spoken

theorem revise_text (session : String) (batch : List Incoming) (e : JobMessage) : (revise session batch e).text = e.text ∨
    blank (revise session batch e).text = false := by
  unfold revise
  cases found : batch.find? fun m => decide (e.sessionId = session ∧ m.id = e.id ∧
      blank m.text = false) with
  | none => exact .inl rfl
  | some m =>
    have full := find?_some found
    rw [decide_eq_true_eq] at full
    exact .inr full.2.2

theorem Merges.spoken
    (merges : Merges session now batch ordered before entries entries' indexes fresh)
    (spoken : Spoken entries) : Spoken entries' := by
  intro e mem
  obtain kept | new := mem_append.mp (merges.perm.subset mem)
  · obtain ⟨old, older, rfl⟩ := mem_map.mp kept
    obtain same | full := revise_text session batch old
    · rw [same]
      exact spoken.adopted old older
    · exact full
  · obtain ⟨m, here, rfl⟩ := mem_map.mp new
    have full := (mem_filter.mp here).2
    simp only [Bool.and_eq_true, Bool.not_eq_true'] at full
    exact full.2

/-- The conversation has the message as it is recorded. -/
def Settled (session : String) (entries : List JobMessage) (m : Incoming) : Prop :=
  blank m.text = true ∨
    ∃ e ∈ entries, e.sessionId = session ∧ e.id = m.id ∧ e.role = m.role ∧ e.text = m.text

theorem Merges.settled
    (merges : Merges session now batch ordered before entries entries' indexes fresh)
    (distinct : (batch.map Incoming.id).Nodup) (roles : RolesKept session batch entries) :
    ∀ m ∈ batch, Settled session entries' m := by
  intro m mem
  cases full : blank m.text with
  | true => exact .inl full
  | false =>
    by_cases known : m.id ∈ identities session (adopted session batch entries)
    · obtain ⟨e, there, here, named⟩ := mem_identities.mp known
      refine .inr ⟨revise session batch e, merges.kept.subset (mem_map_of_mem there), here,
        named, (roles.adopted distinct) m mem full e there here named, ?_⟩
      have found : (batch.find? fun m => decide (e.sessionId = session ∧ m.id = e.id ∧
          blank m.text = false)) = some m := by
        have present : (batch.find? fun m => decide (e.sessionId = session ∧ m.id = e.id ∧
            blank m.text = false)).isSome = true := find?_isSome.mpr
          ⟨m, mem, decide_eq_true ⟨here, named.symm, full⟩⟩
        obtain ⟨other, found⟩ := isSome_iff_exists.mp present
        have same := find?_some found
        rw [decide_eq_true_eq] at same
        rw [found, inj_on_of_nodup_map distinct (mem_of_find?_eq_some found) mem
          (same.2.1.trans named)]
      rw [revise, found]
      rfl
    · have new : m ∈ added session batch entries := by
        refine mem_filter.mpr ⟨mem, ?_⟩
        simp [known, full]
      exact .inr ⟨m.entry session now, merges.perm.symm.subset
        (mem_append_right _ (mem_map_of_mem new)), rfl, rfl, rfl, rfl⟩

/-! ## Merging again -/

theorem Reads.mem (reads : Reads messages batch) (mem : message ∈ messages) :
    ∃ m ∈ batch, readMessage message = .ok m := by
  induction reads with
  | nil => cases mem
  | @cons first m rest batch read reads ih =>
    obtain rfl | later := mem_cons.mp mem
    · exact ⟨m, mem_cons_self, read⟩
    · obtain ⟨m', here, read'⟩ := ih later
      exact ⟨m', mem_cons_of_mem _ here, read'⟩

theorem recordedText_of_read (ok : readMessage message = .ok m) :
    recordedText message = some m.text := by
  obtain ⟨_, hasRole, _, raw, hasText, text⟩ := fields_of_read ok
  simp [recordedText, isUser, required_index hasText, required_index hasRole, text]

theorem nothingNew_of_settled (reads : Reads messages batch)
    (unique : (identities session entries).Nodup) (spoken : Spoken entries)
    (settled : ∀ m ∈ batch, Settled session entries m) : NothingNew entries messages session := by
  have indexed := indexed_sessionIndexes unique
  constructor
  · intro message mem text recorded
    obtain ⟨m, here, read⟩ := reads.mem mem
    rw [recordedText_of_read read, some_inj] at recorded
    subst recorded
    obtain empty | ⟨e, there, session', named, _, same⟩ := settled m here
    · exact .inl empty
    · obtain ⟨i, position⟩ := mem_iff_getElem?.mp there
      refine .inr ⟨m.id, i, index_id_of_read read,
        (indexed m.id i).mpr ⟨e, position, session', named⟩, fun entry found => ?_⟩
      rw [position, some_inj] at found
      rw [← found, same]
  · rintro ⟨pending, last, _, _, _, message, mem, adopts⟩
    obtain ⟨m, here, read⟩ := reads.mem mem
    obtain ⟨_, text, absent⟩ := (adopts_of_read read).mp adopts
    obtain empty | ⟨e, there, session', named, _⟩ := settled m here
    · -- no entry is without a text, so the placeholder is not one
      rw [text, spoken pending (mem_of_getLast? last)] at empty
      cases empty
    · exact indexed.none_iff.mp absent (mem_identities.mpr ⟨e, there, session', named⟩)

theorem rolesKept_of_settled (unique : (identities session entries).Nodup)
    (settled : ∀ m ∈ batch, Settled session entries m) : RolesKept session batch entries := by
  intro m mem full e there here named
  obtain empty | ⟨e', there', here', named', role, _⟩ := settled m mem
  · rw [full] at empty
    cases empty
  · have same : e = e' := by
      refine inj_on_of_nodup_map unique ?_ ?_ (named.trans named'.symm)
      · exact mem_filter.mpr ⟨there, decide_eq_true here⟩
      · exact mem_filter.mpr ⟨there', decide_eq_true here'⟩
    rw [same, role]

/-- A conversation that a batch was merged into stays as it is when that is done again. -/
theorem mergeMessages_again (later : Int) (reads : Reads messages batch)
    (distinct : (batch.map Incoming.id).Nodup) (roles : RolesKept session batch entries)
    (merges : Merges session now batch ordered before entries job.conversation indexes fresh)
    (spoken : Spoken entries) (ordered' : Bool) (before' : Option String) :
    mergeMessages job messages session later ordered' before' = .ok (job, 0) := by
  have unique := merges.nodup distinct
  have settled := merges.settled distinct roles
  obtain ⟨job', count, _, _, ok, _⟩ : ∃ job' count indexes fresh, mergeMessages job messages session
      later ordered' before' = .ok (job', count) ∧ Merges session later batch ordered' before'
        job.conversation job'.conversation indexes fresh :=
    mergeMessages_spec reads unique distinct (rolesKept_of_settled unique settled)
  have nothing := nothingNew_of_settled reads unique (merges.spoken spoken) settled
  obtain ⟨_, ⟨_, rfl, rfl⟩ | ⟨something, _⟩⟩ := mergeMessages_counts ok
  · exact ok
  · exact absurd nothing something

/-! ## Recording again -/

theorem mergeMessage_prompt {merge' : Merge}
    (ok : mergeMessage session now merge message anchor = .ok merge')
    (prompted : merge.prompt ≠ "") :
    merge'.prompt = merge.prompt := by
  simp only [mergeMessage, bind_ok, ensure_ok, prompted, false_and, if_false] at ok
  obtain ⟨id, _, role, _, _, _, raw, _, ok⟩ := ok
  generalize (if role = "user" then userText raw else raw) = text at ok
  split at ok
  · cases ok
    rfl
  · split at ok
    · split at ok
      · cases ok
        rfl
      · simp only [bind_ok] at ok
        obtain ⟨_, _, ok⟩ := ok
        split at ok
        · cases ok
          rfl
        · cases ok
          rfl
    · cases ok
      rfl

theorem mergeAll_prompt {merge' : Merge} {batch : List (Value × Nat)}
    (ok : mergeAll session now merge batch = .ok merge') (prompted : merge.prompt ≠ "") :
    merge'.prompt = merge.prompt := by
  induction batch generalizing merge with
  | nil =>
    cases ok
    rfl
  | cons entry rest ih =>
    simp only [mergeAll, bind_ok] at ok
    obtain ⟨middle, first, ok⟩ := ok
    have same := mergeMessage_prompt first prompted
    rw [ih ok (by rwa [same]), same]

theorem mergeMessages_prompt {job' : Job} {count : Nat}
    (ok : mergeMessages job messages session now ordered before = .ok (job', count))
    (prompted : job.prompt ≠ "") : job'.prompt = job.prompt := by
  simp only [mergeMessages, bind_ok, pure_ok, Prod.mk.injEq] at ok
  obtain ⟨_, _, merge, merges, rfl, _⟩ := ok
  exact mergeAll_prompt merges prompted

theorem planningPrompt_ne {request : Value} {prompt : String}
    (ok : planningPrompt request messages = .ok (some prompt)) : prompt ≠ "" := by
  unfold planningPrompt at ok
  split at ok
  · cases ok
  · simp only [bind_ok, ensure_ok, pure_ok, some_inj] at ok
    obtain ⟨_, _, _, _, _, ⟨spoken, _⟩, same⟩ := ok
    rintro rfl
    rw [same] at spoken
    simp [blank] at spoken

theorem promptedJob_again (job : Job) {planning : Option String} {row : Job}
    (named : ∀ prompt, planning = some prompt → prompt ≠ "")
    (kept : (promptedJob job planning).prompt ≠ "" →
      row.prompt = (promptedJob job planning).prompt) : promptedJob row planning = row := by
  cases planning with
  | none => rfl
  | some prompt =>
    have full := named prompt rfl
    simp only [promptedJob] at kept ⊢
    rw [if_neg]
    rintro ⟨open_prompt, other⟩
    split at kept
    · exact other (kept full)
    · rename_i settled
      by_cases same : job.prompt = prompt
      · exact other ((kept (by rwa [same])).trans same)
      · refine settled ⟨?_, same⟩
        by_cases empty : job.prompt = ""
        · exact .inl empty
        · rwa [kept empty] at open_prompt

end Agentix.TaskStore
