import Agentix.Lib.Anchored
import Agentix.Revisions.Conversation

/-! # What merging a batch makes of a conversation

A batch that is read well changes the texts of the entries it knows, and places the others at their
anchors.  The placeholder of a follow-up may take the identifier of a message before that.
-/

namespace Agentix.TaskStore

open Lib List Option Prod

variable {session : String} {now : Int} {merge merge' : Merge} {entries : List JobMessage}
  {indexes : List (String × Nat)} {e : JobMessage} {i : Nat}

/-! ## Reading -/

variable {m : Incoming} {messages : List Value} {message : Value}

/-- A message as it is read; its text is the one that is recorded. -/
structure Incoming where
  id : String
  role : String
  text : String
  deriving DecidableEq, Repr

def readMessage (message : Value) : Fallible Incoming := do
  let id ← required message "id"
  let role ← required message "role"
  ensure (role = "user" ∨ role = "assistant")
    "invalid: only user and assistant text may be recorded"
  let raw ← required message "text"
  pure { id, role, text := if role = "user" then userText raw else raw }

/-- A batch of valid messages. -/
def Reads (messages : List Value) (batch : List Incoming) : Prop :=
  List.Forall₂ (fun message m => readMessage message = .ok m) messages batch

theorem fields_of_read (ok : readMessage message = .ok m) :
    required message "id" = .ok m.id ∧ required message "role" = .ok m.role ∧
      (m.role = "user" ∨ m.role = "assistant") ∧ ∃ raw, required message "text" = .ok raw ∧
        m.text = if m.role = "user" then userText raw else raw := by
  simp only [readMessage, bind_ok, ensure_ok, pure_ok] at ok
  obtain ⟨id, hasId, role, hasRole, _, known, raw, hasText, rfl⟩ := ok
  exact ⟨hasId, hasRole, known, raw, hasText, rfl⟩

theorem index_id_of_read (ok : readMessage message = .ok m) :
    (message.index "id").asStr = some m.id :=
  required_index (fields_of_read ok).1

theorem adopts_of_read {pending : JobMessage} (ok : readMessage message = .ok m) :
    adopts indexes pending message = true ↔
      m.role = "user" ∧ m.text = pending.text ∧ indexes.lookup m.id = none := by
  obtain ⟨hasId, hasRole, known, raw, hasText, text⟩ := fields_of_read ok
  simp only [adopts, isUser, required_index hasId, required_index hasRole, required_index hasText,
    Bool.and_eq_true, decide_eq_true_eq, some_inj, map_some, beq_iff_eq,
    any_some, isNone_iff_eq_none, and_assoc]
  refine and_congr_right fun user => ?_
  rw [text, if_pos user]

/-- One round of the loop over the messages, once the message is read. -/
def mergeIncoming (session : String) (now : Int) (merge : Merge) (m : Incoming) (anchor : Nat) :
    Fallible Merge :=
  if blank m.text then .ok merge
  else
    let prompt := if merge.prompt = "" ∧ m.role = "user" then m.text else merge.prompt
    match merge.indexes.lookup m.id with
    | some i =>
      match merge.entries[i]? with
      | none => .ok merge
      | some existing => do
        ensure (existing.role = m.role) "conflict: message role changed"
        if existing.text = m.text then pure merge
        else pure { merge with
          entries := merge.entries.modify i fun entry => { entry with text := m.text }
          prompt
          recorded := merge.recorded + 1 }
    | none => .ok { merge with
        entries := merge.entries ++ [⟨m.id, session, m.role, m.text, now⟩]
        indexes := (m.id, merge.entries.length) :: merge.indexes
        prompt
        recorded := merge.recorded + 1
        inserted := merge.inserted ++ [anchor] }

theorem mergeMessage_of_read {anchor : Nat} (ok : readMessage message = .ok m) :
    mergeMessage session now merge message anchor = mergeIncoming session now merge m anchor := by
  obtain ⟨hasId, hasRole, known, raw, hasText, text⟩ := fields_of_read ok
  simp only [mergeMessage, hasId, hasRole, hasText, bind, Except.bind, ensure, if_pos known, ← text]
  rfl

/-! ## The positions of a session -/

def identities (session : String) (entries : List JobMessage) : List String :=
  (entries.filter fun e => e.sessionId = session).map JobMessage.id

theorem mem_identities {id : String} :
    id ∈ identities session entries ↔ ∃ e ∈ entries, e.sessionId = session ∧ e.id = id := by
  simp [identities, and_assoc]

def Indexed (session : String) (entries : List JobMessage) (indexes : List (String × Nat)) : Prop :=
  ∀ id i, indexes.lookup id = some i ↔
    ∃ e, entries[i]? = some e ∧ e.sessionId = session ∧ e.id = id

theorem Indexed.none_iff (indexed : Indexed session entries indexes) {id : String} :
    indexes.lookup id = none ↔ id ∉ identities session entries := by
  rw [eq_none_iff_forall_ne_some, mem_identities]
  constructor
  · rintro absent ⟨e, mem, here, same⟩
    obtain ⟨i, position⟩ := mem_iff_getElem?.mp mem
    exact absent i ((indexed id i).mpr ⟨e, position, here, same⟩)
  · intro absent i found
    obtain ⟨e, position, here, same⟩ := (indexed id i).mp found
    exact absent ⟨e, mem_of_getElem? position, here, same⟩

theorem lookup_eq_some_iff {k : String} {v : Nat} (distinct : (indexes.map fst).Nodup) :
    indexes.lookup k = some v ↔ (k, v) ∈ indexes := by
  induction indexes with
  | nil => simp
  | cons entry rest ih =>
    obtain ⟨key, value⟩ := entry
    obtain ⟨fresh, distinct⟩ := nodup_cons.mp distinct
    rw [lookup_cons, mem_cons, Prod.mk.injEq]
    by_cases same : k = key
    · subst same
      have absent : (k, v) ∉ rest := fun mem => fresh (mem_map.mpr ⟨(k, v), mem, rfl⟩)
      simp [absent, eq_comm]
    · have other : (k == key) = false := by simpa using same
      simp [other, same, ih distinct]

theorem identities_zipIdx (session : String) (entries : List JobMessage) (k : Nat) :
    ((entries.zipIdx k).filter fun entry => entry.1.sessionId = session).map
      (fun entry => entry.1.id) = identities session entries := by
  induction entries generalizing k with
  | nil => rfl
  | cons e rest ih =>
    simp only [identities, zipIdx_cons, filter_cons] at ih ⊢
    split
    · simp only [map_cons, ih]
    · exact ih (k + 1)

theorem indexed_sessionIndexes (unique : (identities session entries).Nodup) :
    Indexed session entries (sessionIndexes entries session) := by
  have keys : (sessionIndexes entries session).map fst =
      (identities session entries).reverse := by
    rw [sessionIndexes, map_reverse, List.map_map]
    exact congrArg reverse (identities_zipIdx session entries 0)
  intro id i
  rw [lookup_eq_some_iff (by rw [keys]; exact nodup_reverse.mpr unique)]
  simp only [sessionIndexes, mem_reverse, List.mem_map, mem_filter, decide_eq_true_eq,
    Prod.mk.injEq, Prod.exists, mem_zipIdx_iff_getElem?]
  constructor
  · rintro ⟨e, k, ⟨position, here⟩, same, rfl⟩
    exact ⟨e, position, here, same⟩
  · rintro ⟨e, position, here, same⟩
    exact ⟨e, i, ⟨position, here⟩, same, rfl⟩

/-! ## Merging a batch -/

variable {m : Incoming} {batch : List Incoming} {anchor : Nat} {anchored : List (Incoming × Nat)}

def RolesKept (session : String) (batch : List Incoming) (entries : List JobMessage) : Prop :=
  ∀ m ∈ batch, blank m.text = false →
    ∀ e ∈ entries, e.sessionId = session → e.id = m.id → e.role = m.role

def revise (session : String) (batch : List Incoming) (e : JobMessage) : JobMessage :=
  let found := batch.find? fun m => e.sessionId = session ∧ m.id = e.id ∧ blank m.text = false
  { e with text := (found.map Incoming.text).getD e.text }

def unknown (known : List String) (anchored : List (Incoming × Nat)) : List (Incoming × Nat) :=
  anchored.filter fun x => decide (x.1.id ∉ known) && !blank x.1.text

def Incoming.entry (session : String) (now : Int) (m : Incoming) : JobMessage :=
  ⟨m.id, session, m.role, m.text, now⟩

theorem revise_nil : revise session [] e = e := rfl

theorem revise_of_not_mem (other : e.sessionId = session → e.id ∉ batch.map Incoming.id) :
    revise session batch e = e := by
  have absent : (batch.find? fun m => decide (e.sessionId = session ∧ m.id = e.id ∧
      blank m.text = false)) = none := by
    rw [find?_eq_none]
    intro m mem
    rw [decide_eq_true_eq]
    rintro ⟨here, same, _⟩
    exact other here (mem_map.mpr ⟨m, mem, same⟩)
  rw [revise, absent]
  rfl

theorem revise_revise (fresh : m.id ∉ batch.map Incoming.id) :
    revise session batch (revise session [m] e) = revise session (m :: batch) e := by
  by_cases here : e.sessionId = session ∧ m.id = e.id ∧ blank m.text = false
  · have first : revise session (m :: batch) e = { e with text := m.text } := by
      simp [revise, here]
    have only : revise session [m] e = { e with text := m.text } := by
      simp [revise, here]
    rw [first, only]
    refine revise_of_not_mem fun _ => ?_
    rw [← here.2.1]
    exact fresh
  · have only : revise session [m] e = e := by
      simp only [revise, find?_cons, decide_eq_false here]
      rfl
    rw [only]
    simp only [revise, find?_cons, decide_eq_false here]

theorem identities_append (session : String) (entries entries' : List JobMessage) :
    identities session (entries ++ entries') =
      identities session entries ++ identities session entries' := by
  simp [identities]

theorem identities_revise (session : String) (batch : List Incoming) (entries : List JobMessage) :
    identities session (entries.map (revise session batch)) = identities session entries := by
  simp only [identities, List.filter_map, List.map_map]
  rfl

theorem Indexed.revise (indexed : Indexed session entries indexes) :
    Indexed session (entries.map (revise session batch)) indexes := by
  intro id i
  rw [indexed id i, getElem?_map]
  constructor
  · rintro ⟨e, position, here, same⟩
    exact ⟨TaskStore.revise session batch e, by rw [position]; rfl, here, same⟩
  · rintro ⟨_, revised, here, same⟩
    obtain ⟨e, position, rfl⟩ := map_eq_some_iff.mp revised
    exact ⟨e, position, here, same⟩

theorem Indexed.push (indexed : Indexed session entries indexes) (fresh : indexes.lookup e.id = none)
    (here : e.sessionId = session) :
    Indexed session (entries ++ [e]) ((e.id, entries.length) :: indexes) := by
  intro id i
  rw [lookup_cons]
  by_cases same : id = e.id
  · subst same
    simp only [beq_self_eq_true, some_inj]
    constructor
    · rintro rfl
      exact ⟨e, by simp, here, rfl⟩
    · rintro ⟨e', position, here', same⟩
      by_contra other
      have inside : i < entries.length := by
        have bound := (List.getElem?_eq_some_iff.mp position).1
        simp only [length_append, length_singleton] at bound
        omega
      rw [getElem?_append_left inside] at position
      have known := (indexed e.id i).mpr ⟨e', position, here', same⟩
      rw [fresh] at known
      cases known
  · have other : (id == e.id) = false := by simpa using same
    simp only [other, indexed id i]
    refine exists_congr fun e' => and_congr_left ?_
    rintro ⟨_, named⟩
    by_cases inside : i < entries.length
    · rw [getElem?_append_left inside]
    · rw [getElem?_append_right (Nat.le_of_not_lt inside),
        getElem?_eq_none (Nat.le_of_not_lt inside), getElem?_singleton]
      split
      · simp only [some_inj, reduceCtorEq, false_iff]
        rintro rfl
        exact same named.symm
      · rfl

theorem revise_singleton (full : blank m.text = false) : revise session [m] e =
    if e.sessionId = session ∧ m.id = e.id then { e with text := m.text } else e := by
  simp only [revise, find?_cons, full, and_true]
  split <;> rename_i here
  · rw [if_pos (of_decide_eq_true here)]
    rfl
  · rw [if_neg (of_decide_eq_false here)]
    rfl

theorem map_revise_of_same (same : ∀ e ∈ entries, e.sessionId = session → e.id = m.id →
    e.text = m.text) (full : blank m.text = false) : entries.map (revise session [m]) = entries := by
  have unchanged : ∀ e ∈ entries, revise session [m] e = e := by
    intro e mem
    rw [revise_singleton full]
    split
    · rename_i here
      rw [← same e mem here.1 here.2.symm]
    · rfl
  exact (map_congr_left unchanged).trans (map_id' entries)

/-- The entry at the position of a message is the one that is revised. -/
theorem Indexed.modify_eq (indexed : Indexed session entries indexes)
    (known : indexes.lookup m.id = some i) (full : blank m.text = false) :
    (entries.modify i fun entry => { entry with text := m.text }) =
      entries.map (TaskStore.revise session [m]) := by
  refine ext_getElem? fun j => ?_
  rw [getElem?_modify, getElem?_map]
  cases position : entries[j]? with
  | none => rfl
  | some e =>
    simp only [Option.map_eq_map, map_some, revise_singleton full]
    refine congrArg some ?_
    by_cases here : e.sessionId = session ∧ m.id = e.id
    · have found := (indexed m.id j).mpr ⟨e, position, here.1, here.2.symm⟩
      rw [known, some_inj] at found
      rw [if_pos found, if_pos here]
    · rw [if_neg here, if_neg]
      rintro rfl
      obtain ⟨e', position', session', named⟩ := (indexed m.id i).mp known
      rw [position, some_inj] at position'
      subst position'
      exact here ⟨session', named.symm⟩

theorem mergeIncoming_spec (now : Int) (anchor : Nat)
    (indexed : Indexed session merge.entries merge.indexes)
    (roles : RolesKept session [m] merge.entries) :
    ∃ merge', mergeIncoming session now merge m anchor = .ok merge' ∧
      Indexed session merge'.entries merge'.indexes ∧
      merge'.entries = merge.entries.map (revise session [m]) ++
        (unknown (identities session merge.entries) [(m, anchor)]).map
          (fun x => x.1.entry session now) ∧
      merge'.inserted = merge.inserted ++
        (unknown (identities session merge.entries) [(m, anchor)]).map snd := by
  cases full : blank m.text with
  -- A message without text is passed over.
  | true =>
    have same : merge.entries.map (revise session [m]) = merge.entries := by
      refine map_id'' (fun e => ?_) _
      simp [revise, full]
    have none_unknown : unknown (identities session merge.entries) [(m, anchor)] = [] := by
      simp [unknown, full]
    refine ⟨merge, by simp [mergeIncoming, full], indexed, ?_, ?_⟩
    · simp [same, none_unknown]
    · simp [none_unknown]
  | false =>
    cases known : merge.indexes.lookup m.id with
    -- The message is known: its entry takes the text, which may be the same.
    | some i =>
      obtain ⟨e, position, here, named⟩ := (indexed m.id i).mp known
      have role : e.role = m.role :=
        roles m mem_cons_self full e (mem_of_getElem? position) here named
      have revised := indexed.modify_eq known full
      have none_unknown : unknown (identities session merge.entries) [(m, anchor)] = [] := by
        have mem : m.id ∈ identities session merge.entries :=
          mem_identities.mpr ⟨e, mem_of_getElem? position, here, named⟩
        simp [unknown, mem]
      by_cases settled : e.text = m.text
      · have same : merge.entries.map (revise session [m]) = merge.entries := by
          refine map_revise_of_same (fun e' mem here' named' => ?_) full
          obtain ⟨j, position'⟩ := mem_iff_getElem?.mp mem
          have found := (indexed m.id j).mpr ⟨e', position', here', named'⟩
          rw [known, some_inj] at found
          rw [← found, position, some_inj] at position'
          rw [← position', settled]
        refine ⟨merge, ?_, indexed, ?_, ?_⟩
        · simp [mergeIncoming, full, known, position, role, settled, ensure]
        · simp [same, none_unknown]
        · simp [none_unknown]
      · refine ⟨{ merge with
          entries := merge.entries.modify i fun entry => { entry with text := m.text }
          prompt := if merge.prompt = "" ∧ m.role = "user" then m.text else merge.prompt
          recorded := merge.recorded + 1 }, ?_, ?_, ?_, ?_⟩
        · simp [mergeIncoming, full, known, position, role, settled, ensure]
        · rw [revised]
          exact indexed.revise
        · simp [revised, none_unknown]
        · simp [none_unknown]
    -- The message is unknown and becomes the last entry.
    | none =>
      have absent := indexed.none_iff.mp known
      have same : merge.entries.map (revise session [m]) = merge.entries := by
        refine map_revise_of_same (fun e mem here named => ?_) full
        exact absurd (mem_identities.mpr ⟨e, mem, here, named⟩) absent
      have one_unknown : unknown (identities session merge.entries) [(m, anchor)] =
          [(m, anchor)] := by
        simp [unknown, full, absent]
      refine ⟨_, by simp only [mergeIncoming, full, known]; rfl, ?_, ?_, ?_⟩
      · exact indexed.push known rfl
      · simp [same, one_unknown, Incoming.entry]
      · simp [one_unknown]

def mergeBatch (session : String) (now : Int) : Merge → List (Incoming × Nat) → Fallible Merge
  | merge, [] => .ok merge
  | merge, (m, anchor) :: rest => do
    let merge ← mergeIncoming session now merge m anchor
    mergeBatch session now merge rest

theorem mergeAll_of_reads {anchors : List Nat} (reads : Reads messages batch) :
    mergeAll session now merge (messages.zip anchors) =
      mergeBatch session now merge (batch.zip anchors) := by
  induction reads generalizing merge anchors with
  | nil => rfl
  | cons read reads ih =>
    cases anchors with
    | nil => rfl
    | cons anchor rest =>
      simp only [zip_cons_cons, mergeAll, mergeBatch, mergeMessage_of_read read]
      exact bind_congr fun merge' => ih

theorem unknown_cons (known : List String) (x : Incoming × Nat)
    (anchored : List (Incoming × Nat)) :
    unknown known (x :: anchored) = unknown known [x] ++ unknown known anchored := by
  rw [unknown, ← singleton_append, filter_append]
  rfl

theorem unknown_congr {known known' : List String}
    (same : ∀ x ∈ anchored, x.1.id ∈ known ↔ x.1.id ∈ known') :
    unknown known anchored = unknown known' anchored := by
  refine filter_congr fun x mem => ?_
  simp only [same x mem]

theorem mergeBatch_spec (indexed : Indexed session merge.entries merge.indexes)
    (distinct : (anchored.map fun x => x.1.id).Nodup)
    (roles : RolesKept session (anchored.map fst) merge.entries) :
    ∃ merge', mergeBatch session now merge anchored = .ok merge' ∧
      merge'.entries = merge.entries.map (revise session (anchored.map fst)) ++
        (unknown (identities session merge.entries) anchored).map
          (fun x => x.1.entry session now) ∧
      merge'.inserted = merge.inserted ++
        (unknown (identities session merge.entries) anchored).map snd := by
  induction anchored generalizing merge with
  | nil =>
    have same : merge.entries.map (revise session []) = merge.entries :=
      map_id'' (fun _ => revise_nil) _
    exact ⟨merge, rfl, by simp [same, unknown], by simp [unknown]⟩
  | cons x rest ih =>
    obtain ⟨m, anchor⟩ := x
    obtain ⟨fresh, distinct⟩ := nodup_cons.mp distinct
    have new : m.id ∉ (rest.map fst).map Incoming.id := by
      rwa [List.map_map]
    obtain ⟨middle, first, indexed', entries, inserted⟩ :=
      mergeIncoming_spec now anchor indexed
        fun m' mem => roles m' (by simpa using .inl (mem_singleton.mp mem))
    -- what the first message appends or revises is none of what the others are about
    have known : identities session middle.entries = identities session merge.entries ++
        identities session ((unknown (identities session merge.entries) [(m, anchor)]).map
          fun x => x.1.entry session now) := by
      rw [entries, identities_append, identities_revise]
    have appended : ∀ e ∈ (unknown (identities session merge.entries) [(m, anchor)]).map
        (fun x => x.1.entry session now), e.id = m.id := by
      intro e mem
      obtain ⟨x, here, rfl⟩ := mem_map.mp mem
      rw [mem_singleton.mp (mem_of_mem_filter here)]
      rfl
    have others : unknown (identities session middle.entries) rest =
        unknown (identities session merge.entries) rest := by
      refine unknown_congr fun x mem => ?_
      rw [known, mem_append, or_iff_left]
      intro here
      obtain ⟨e, there, _, named⟩ := mem_identities.mp here
      have same := appended e there
      exact fresh (mem_map.mpr ⟨x, mem, (named.symm.trans same)⟩)
    obtain ⟨merge', run, entries', inserted'⟩ := ih indexed' distinct (by
      intro m' mem full e there here named
      rw [entries] at there
      obtain revised | added := mem_append.mp there
      · obtain ⟨old, older, rfl⟩ := mem_map.mp revised
        exact roles m' (mem_cons_of_mem _ mem) full old older here named
      · refine absurd ?_ new
        rw [← appended e added, named]
        exact mem_map_of_mem mem)
    refine ⟨merge', ?_, ?_, ?_⟩
    · rw [mergeBatch, first]
      exact run
    · have both : (merge.entries.map (revise session [m])).map
          (revise session (rest.map fst)) =
            merge.entries.map (revise session (((m, anchor) :: rest).map fst)) := by
        rw [List.map_map]
        exact map_congr_left fun e _ => revise_revise new
      have kept : ((unknown (identities session merge.entries) [(m, anchor)]).map
          fun x => x.1.entry session now).map (revise session (rest.map fst)) =
            (unknown (identities session merge.entries) [(m, anchor)]).map
              fun x => x.1.entry session now := by
        refine (map_congr_left fun e mem => ?_).trans (map_id' _)
        refine revise_of_not_mem fun _ => ?_
        rw [appended e mem]
        exact new
      rw [entries', others, entries, map_append, both, kept, unknown_cons _ (m, anchor) rest,
        map_append, append_assoc]
    · rw [inserted', others, inserted, unknown_cons _ (m, anchor) rest, map_append,
        append_assoc]

/-! ## The placeholder of a follow-up -/

/-- The conversation in which the placeholder at its end has the identifier of the first message of
the batch that records it. -/
def adopted (session : String) (batch : List Incoming) (entries : List JobMessage) :
    List JobMessage :=
  match entries.getLast? with
  | none => entries
  | some pending =>
    if pending.role = "user" ∧ pending.sessionId = session ∧ startsWith pending.id "followup:" then
      match batch.find? fun m => m.role = "user" ∧ m.text = pending.text ∧
          m.id ∉ identities session entries with
      | none => entries
      | some m => entries.dropLast ++ [{ pending with id := m.id }]
    else entries

theorem lookup_filter_ne (id k : String) :
    (indexes.filter fun entry => entry.1 ≠ id).lookup k =
      if k = id then none else indexes.lookup k := by
  induction indexes with
  | nil => simp
  | cons entry rest ih =>
    by_cases gone : entry.1 = id
    · rw [filter_cons_of_neg (by simpa using gone), ih, lookup_cons]
      by_cases same : k = id
      · simp [same]
      · have other : (k == entry.1) = false := by simpa [gone] using same
        simp [same, other]
    · rw [filter_cons_of_pos (by simpa using gone), lookup_cons, lookup_cons,
        ih]
      by_cases same : k = entry.1
      · subst same
        simp [gone]
      · have other : (k == entry.1) = false := by simpa using same
        simp [other]

theorem Indexed.pop (indexed : Indexed session (entries ++ [e]) indexes)
    (here : e.sessionId = session) :
    Indexed session entries (indexes.filter fun entry => entry.1 ≠ e.id) := by
  have last : indexes.lookup e.id = some entries.length :=
    (indexed e.id entries.length).mpr ⟨e, by simp, here, rfl⟩
  intro id i
  rw [lookup_filter_ne]
  constructor
  · intro found
    split at found
    · cases found
    · rename_i other
      obtain ⟨e', position, here', named⟩ := (indexed id i).mp found
      refine ⟨e', ?_, here', named⟩
      by_cases inside : i < entries.length
      · rwa [getElem?_append_left inside] at position
      · rw [getElem?_append_right (Nat.le_of_not_lt inside), getElem?_singleton] at position
        split at position
        · rw [some_inj] at position
          exact absurd (by rw [← named, position]) other
        · cases position
  · rintro ⟨e', position, here', named⟩
    have inside : i < entries.length := (List.getElem?_eq_some_iff.mp position).1
    have found : indexes.lookup id = some i :=
      (indexed id i).mpr ⟨e', by rwa [getElem?_append_left inside], here', named⟩
    rw [if_neg, found]
    rintro rfl
    rw [last, some_inj] at found
    omega

theorem find?_of_reads {p : Value → Bool} {q : Incoming → Bool} (reads : Reads messages batch)
    (same : ∀ message m, readMessage message = .ok m → p message = q m) :
    (messages.find? p = none ∧ batch.find? q = none) ∨
        ∃ message m, messages.find? p = some message ∧ batch.find? q = some m ∧
          readMessage message = .ok m := by
  induction reads with
  | nil => exact .inl ⟨rfl, rfl⟩
  | @cons message m rest batch read reads ih =>
    rw [find?_cons, find?_cons, same message m read]
    cases q m with
    | true => exact .inr ⟨message, m, rfl, rfl, read⟩
    | false => exact ih

/-- What the adoption of the placeholder makes of the conversation. -/
theorem adoptPlaceholder_spec (reads : Reads messages batch)
    (unique : (identities session entries).Nodup) :
    ∃ indexes' count, adoptPlaceholder entries (sessionIndexes entries session) messages session =
        .ok (adopted session batch entries, indexes', count) ∧
      Indexed session (adopted session batch entries) indexes' := by
  have indexed := indexed_sessionIndexes unique
  unfold adoptPlaceholder adopted
  cases last : entries.getLast? with
  | none => exact ⟨_, _, rfl, indexed⟩
  | some pending =>
    simp only
    split
    · rename_i placeholder
      have same : ∀ message m, readMessage message = .ok m →
          adopts (sessionIndexes entries session) pending message =
            decide (m.role = "user" ∧ m.text = pending.text ∧
              m.id ∉ identities session entries) := by
        intro message m read
        rw [Bool.eq_iff_iff, adopts_of_read read, decide_eq_true_iff, indexed.none_iff]
      obtain ⟨none_found, none_read⟩ | ⟨message, m, found, found', read⟩ :=
        find?_of_reads reads same
      · simp only [none_found, none_read]
        exact ⟨_, _, rfl, indexed⟩
      · obtain ⟨init, rfl⟩ := getLast?_eq_some_iff.mp last
        have fresh : m.role = "user" ∧ m.text = pending.text ∧
            m.id ∉ identities session (init ++ [pending]) := by
          simpa only [decide_eq_true_eq] using find?_some found'
        have popped := indexed.pop placeholder.2.1
        have absent : ((sessionIndexes (init ++ [pending]) session).filter
            fun entry => entry.1 ≠ pending.id).lookup m.id = none := by
          rw [lookup_filter_ne]
          split
          · rfl
          · exact indexed.none_iff.mpr fresh.2.2
        simp only [found, found', (fields_of_read read).1]
        refine ⟨_, _, congrArg Except.ok (Prod.ext ?_ rfl), ?_⟩
        · simp [modify_last]
        · have pushed : Indexed session (init ++ [{ pending with id := m.id }]) _ :=
            popped.push absent placeholder.2.1
          simpa using pushed
    · exact ⟨_, _, rfl, indexed⟩

end Agentix.TaskStore
