import Agentix.Codex.Rollout

/-! # Reading a rollout file again and again

However the reads of a growing file are spread, the cache is what one reading of all its complete
lines leaves.
-/

namespace Agentix.Codex.Rollout

open Lib Lines List Option

/-! ## One full scan -/

variable {lines whole : Bytes}

abbrev Entry := String × ItemSummary

def size (items : List Entry) : Nat :=
  (items.map fun entry => itemBytes entry.1 entry.2).sum

def SameItem (a b : Entry) : Prop := a.1 = b.1 ∧ a.2.id = b.2.id

instance decidableSameItem (a b : Entry) : Decidable (SameItem a b) :=
  inferInstanceAs (Decidable (_ ∧ _))

/-- An item takes the place of the one with its turn and id, or comes after all. -/
def upsert (entry : Entry) : List Entry → List Entry
  | [] => [entry]
  | old :: rest => if SameItem old entry then entry :: rest else old :: upsert entry rest

def Fits (items : List Entry) : Prop := items.length ≤ maxItems ∧ size items ≤ maxCacheBytes

instance decidableFits (items : List Entry) : Decidable (Fits items) :=
  inferInstanceAs (Decidable (_ ∧ _))

def dropOldest : List Entry → List Entry
  | [] => []
  | entry :: rest => if Fits (entry :: rest) then entry :: rest else dropOldest rest

/-- What the lines that are not too long make of the items, once and in order. -/
def processed (readers : Readers) (session : String) (items : List Entry) (lines : List Bytes) :
    List Entry :=
  ((lines.filter fun line => decide (line.length ≤ maxLine)).filterMap
    (event readers session)).foldl (fun items entry => dropOldest (upsert entry items)) items

/-- What all complete lines leave. -/
def fullScan (readers : Readers) (session : String) (content : Bytes) : List Entry :=
  processed readers session [] (complete newline content)

/-! ## The counter -/

variable {scan : Scan} {items : List Entry} {turn : String} {item : ItemSummary}

@[simp] theorem size_cons (entry : Entry) (items : List Entry) :
    size (entry :: items) = itemBytes entry.1 entry.2 + size items := by
  simp [size]

theorem replaceFirst_none (absent : replaceFirst turn item items = none) :
    items ++ [(turn, item)] = upsert (turn, item) items := by
  induction items with
  | nil => rfl
  | cons old rest ih =>
    obtain ⟨id, old⟩ := old
    rw [replaceFirst] at absent
    split at absent
    · cases absent
    · rename_i other
      have other : ¬ SameItem (id, old) (turn, item) := other
      rw [map_eq_none_iff] at absent
      rw [cons_append, ih absent, upsert, if_neg other]

theorem replaceFirst_some {replaced : List Entry} {old : ItemSummary}
    (found : replaceFirst turn item items = some (replaced, old)) :
    replaced = upsert (turn, item) items ∧
      ∃ others, size items = itemBytes turn old + others ∧
        size replaced = itemBytes turn item + others := by
  induction items generalizing replaced with
  | nil => cases found
  | cons first rest ih =>
    obtain ⟨id, first⟩ := first
    rw [replaceFirst] at found
    split at found
    · rename_i same
      cases found
      have same' : SameItem (id, old) (turn, item) := same
      obtain ⟨rfl, _⟩ := same
      rw [upsert, if_pos same']
      exact ⟨rfl, size rest, size_cons _ _, size_cons _ _⟩
    · rename_i other
      have other : ¬ SameItem (id, first) (turn, item) := other
      rw [map_eq_some_iff] at found
      obtain ⟨⟨more, found'⟩, found, same⟩ := found
      cases same
      obtain ⟨rfl, others, before, after⟩ := ih found
      rw [upsert, if_neg other]
      refine ⟨rfl, itemBytes id first + others, ?_, ?_⟩
      · rw [size_cons, before]
        exact Nat.add_left_comm ..
      · rw [size_cons, after]
        exact Nat.add_left_comm ..

theorem evict_size (items : List Entry) :
    evict items (size items) = (dropOldest items, size (dropOldest items)) := by
  induction items with
  | nil => rfl
  | cons entry rest ih =>
    obtain ⟨turn, item⟩ := entry
    have less : size ((turn, item) :: rest) - itemBytes turn item = size rest := by
      rw [size_cons]
      exact Nat.add_sub_cancel_left ..
    rw [evict, dropOldest]
    by_cases fits : Fits ((turn, item) :: rest)
    · have stays :
          ¬ (maxItems < rest.length + 1 ∨ maxCacheBytes < size ((turn, item) :: rest)) := by
        have := fits.1
        have := fits.2
        rw [length_cons] at *
        omega
      rw [if_neg stays, if_pos fits]
    · have exceeds : maxItems < rest.length + 1 ∨ maxCacheBytes < size ((turn, item) :: rest) := by
        by_contra within
        rw [not_or, not_lt, not_lt] at within
        exact fits within
      rw [if_pos exceeds, if_neg fits, less, ih]

/-- The scan with these items, and the counter at the sum of their sizes. -/
def Scan.keeping (scan : Scan) (items : List Entry) : Scan :=
  { scan with items, bytes := size items }

theorem put_keeping (scan : Scan) (items : List Entry) (turn : String) (item : ItemSummary) :
    (scan.keeping items).put turn item =
      scan.keeping (dropOldest (upsert (turn, item) items)) := by
  rw [Scan.put]
  cases found : replaceFirst turn item (scan.keeping items).items with
  | none =>
    have all : items ++ [(turn, item)] = upsert (turn, item) items := replaceFirst_none found
    have sum : (scan.keeping items).bytes + itemBytes turn item =
        size (upsert (turn, item) items) := by
      rw [← all]
      simp [size, Scan.keeping]
    replace all : (scan.keeping items).items ++ [(turn, item)] = upsert (turn, item) items := all
    simp only [sum, all, evict_size]
    rfl
  | some found' =>
    obtain ⟨replaced, old⟩ := found'
    obtain ⟨rfl, others, before, after⟩ := replaceFirst_some found
    have sum : (scan.keeping items).bytes - itemBytes turn old + itemBytes turn item =
        size (upsert (turn, item) (scan.keeping items).items) := by
      have counted : (scan.keeping items).bytes = size (scan.keeping items).items := rfl
      omega
    simp only [sum, evict_size]
    rfl

/-! ## The lines of one reading -/

variable {readers : Readers} {session : String} {content line : Bytes}

theorem processed_append (items : List Entry) (lines more : List Bytes) :
    processed readers session items (lines ++ more) =
      processed readers session (processed readers session items lines) more := by
  simp [processed]

theorem fullScan_append (closed : Closed newline lines) (more : Bytes) :
    fullScan readers session (lines ++ more) =
      processed readers session (fullScan readers session lines) (complete newline more) := by
  rw [fullScan, complete_append closed, processed_append]
  rfl

theorem processed_long (long : maxLine < line.length) (items : List Entry) :
    processed readers session items [line] = items := by
  have out : ¬ line.length ≤ maxLine := by omega
  simp [processed, out]

theorem entry_keeping (short : line.length ≤ maxLine) (scan : Scan) (items : List Entry) :
    (scan.keeping items).entry readers session line =
      scan.keeping (processed readers session items [line]) := by
  rw [Scan.entry]
  cases found : event readers session line with
  | none => simp [processed, short, found]
  | some entry => simp [processed, short, found, put_keeping]

theorem lines_complete {before : List Bytes}
    (ended : ∀ line ∈ before, line.getLast? = some newline) (fresh : scan.skipFragment = false)
    (items : List Entry) (consumed : Nat) (after : List Bytes) :
    Scan.lines readers session false (scan.keeping items) consumed (before ++ after) =
      Scan.lines readers session false (scan.keeping (processed readers session items before))
        (consumed + before.flatten.length) after := by
  induction before generalizing items consumed with
  | nil => simp [processed]
  | cons line rest ih =>
    rw [forall_mem_cons] at ended
    have same : { scan.keeping items with skipFragment := false } = scan.keeping items := by
      rw [← fresh]
      rfl
    have first : processed readers session items (line :: rest) =
        processed readers session (processed readers session items [line]) rest :=
      processed_append items [line] rest
    rw [cons_append, Scan.lines, if_neg (not_not_intro ended.1), same, first,
      flatten_cons, length_append, ← Nat.add_assoc]
    by_cases long : maxLine < line.length
    · simp only [long, decide_true, Bool.or_true, if_true, processed_long]
      exact ih ended.2 items _
    · have short : line.length ≤ maxLine := by omega
      simp only [long, decide_false, Bool.or_false, Bool.false_eq_true, if_false,
        entry_keeping short]
      exact ih ended.2 _ _

/-! ## Where a scan is -/

/-- The scan consumed these lines, and then a part of an unfinished line that is too long. -/
structure Progress (readers : Readers) (session : String) (lines fragment : Bytes) (scan : Scan) :
    Prop where
  closed : Closed newline lines
  inner : newline ∉ fragment
  long : fragment ≠ [] → maxLine < fragment.length
  offset : scan.offset = (lines ++ fragment).length
  skip : scan.skipFragment = decide (fragment ≠ [])
  items : scan.items = fullScan readers session lines
  bytes : scan.bytes = size scan.items

theorem progress_default : Progress readers session [] [] Scan.default where
  closed := closed_nil
  inner := not_mem_nil
  long := fun more => absurd rfl more
  offset := rfl
  skip := rfl
  items := rfl
  bytes := rfl

/-- A part without a line end, after what was consumed. -/
theorem lines_unfinished {rest : Bytes} (inner : newline ∉ rest) (nonempty : rest ≠ [])
    (skipFirst : Bool) (scan : Scan) (consumed : Nat) :
    Scan.lines readers session skipFirst scan consumed (splitInclusive newline rest) =
      ({ scan with skipFragment := decide (maxLine < rest.length) || skipFirst },
        if decide (maxLine < rest.length) || skipFirst then consumed + rest.length
        else consumed) := by
  have unfinished : rest.getLast? ≠ some newline := fun last => inner (mem_of_getLast? last)
  rw [splitInclusive_inner inner nonempty, Scan.lines, if_pos unfinished]

/-- How a loop ends that has `content` before and after what it consumes. -/
def Consumes (readers : Readers) (session : String) (content : Bytes) (start : Nat) (scan : Scan)
    (result : Scan × Nat) : Prop :=
  ∃ lines fragment rest, content = lines ++ fragment ++ rest ∧ newline ∉ fragment ++ rest ∧
    Closed newline lines ∧ (fragment ≠ [] → maxLine < fragment.length) ∧
    result.1 = { scan.keeping (fullScan readers session lines) with
      skipFragment := decide (fragment ≠ []) } ∧
    start + result.2 = (lines ++ fragment).length

variable (readers session) in
/-- The loop where no fragment was skipped before. -/
theorem lines_fresh (closed : Closed newline lines) (fresh : scan.skipFragment = false)
    (data : Bytes) {start consumed : Nat} (read : start + consumed = lines.length) :
    Consumes readers session (lines ++ data) start scan
      (Scan.lines readers session false (scan.keeping (fullScan readers session lines)) consumed
        (splitInclusive newline data)) := by
  obtain ⟨more, rest, rfl, moreClosed, inner⟩ := exists_last_line newline data
  have all : processed readers session (fullScan readers session lines)
      (splitInclusive newline more) = fullScan readers session (lines ++ more) := by
    rw [← complete_closed moreClosed, fullScan_append closed]
  have whole : (splitInclusive newline more).flatten = more := flatten_splitInclusive more
  have length := congrArg length whole
  rw [splitInclusive_append moreClosed,
    lines_complete (fun _ => getLast?_of_mem_splitInclusive moreClosed) fresh, all, length]
  by_cases empty : rest = []
  · refine ⟨lines ++ more, [], [], ?_, not_mem_nil, closed.append moreClosed,
      fun more => absurd rfl more, ?_, ?_⟩
    · simp [empty]
    · simp [empty, splitInclusive, Scan.lines, Scan.keeping, fresh]
    · simp [empty, splitInclusive, Scan.lines, ← read, Nat.add_assoc]
  · rw [lines_unfinished inner empty]
    by_cases long : maxLine < rest.length
    · refine ⟨lines ++ more, rest, [], ?_, ?_, closed.append moreClosed, fun _ => long, ?_, ?_⟩
      · simp
      · simpa using inner
      · simp [long, empty]
      · simp [long, ← read, Nat.add_assoc]
    · refine ⟨lines ++ more, [], rest, ?_, inner, closed.append moreClosed,
        fun more => absurd rfl more, ?_, ?_⟩
      · simp
      · simp [long]
      · simp [long, ← read, Nat.add_assoc]

theorem lines_consumes {fragment : Bytes} (progress : Progress readers session lines fragment scan)
    (data : Bytes) :
    Consumes readers session (lines ++ fragment ++ data) scan.offset scan
      (Scan.lines readers session scan.skipFragment scan 0 (splitInclusive newline data)) := by
  have kept : scan = scan.keeping (fullScan readers session lines) := by
    rw [← progress.items, Scan.keeping, ← progress.bytes]
  by_cases fresh : fragment = []
  · have skip : scan.skipFragment = false := by
      rw [progress.skip, fresh]
      rfl
    have read : scan.offset + 0 = lines.length := by
      rw [progress.offset, fresh, append_nil]
      rfl
    have loop := lines_fresh readers session progress.closed skip data read
    rw [← kept] at loop
    rw [skip, fresh, append_nil]
    exact loop
  · have skip : scan.skipFragment = true := by
      rw [progress.skip]
      exact decide_eq_true fresh
    rw [skip]
    by_cases later : newline ∈ data
    · -- The line of the fragment ends here, and is too long.
      obtain ⟨line, rest, rfl, inner⟩ := eq_append_cons_of_mem later
      have ended : (line ++ [newline]).getLast? = some newline := getLast?_concat
      have whole : newline ∉ fragment ++ line := by
        rw [mem_append, not_or]
        exact ⟨progress.inner, inner⟩
      have long : maxLine < (fragment ++ line ++ [newline]).length := by
        have := progress.long fresh
        rw [length_append, length_append]
        omega
      have closed : Closed newline (lines ++ (fragment ++ line ++ [newline])) :=
        progress.closed.append closed_concat
      have same : fullScan readers session (lines ++ (fragment ++ line ++ [newline])) =
          fullScan readers session lines := by
        rw [fullScan_append progress.closed, complete_closed closed_concat,
          splitInclusive_line whole, processed_long long]
      have read : scan.offset + (0 + (line ++ [newline]).length) =
          (lines ++ (fragment ++ line ++ [newline])).length := by
        rw [progress.offset]
        simp [Nat.add_assoc]
      have restarted : { scan with skipFragment := false }.skipFragment = false := rfl
      have loop := lines_fresh readers session closed restarted rest read
      rw [splitInclusive_line_append inner, Scan.lines, if_neg (not_not_intro ended)]
      simp only [Bool.true_or, if_true]
      rw [same] at loop
      have parts : lines ++ fragment ++ (line ++ newline :: rest) =
          lines ++ (fragment ++ line ++ [newline]) ++ rest := by simp
      have base : { scan with skipFragment := false } =
          Scan.keeping { scan with skipFragment := false } (fullScan readers session lines) := by
        rw [kept]
        rfl
      rw [parts, base]
      exact loop
    · by_cases empty : data = []
      · refine ⟨lines, fragment, [], ?_, ?_, progress.closed, progress.long, ?_, ?_⟩
        · simp [empty]
        · simpa using progress.inner
        · simp only [empty, splitInclusive, Scan.lines]
          rw [← progress.skip]
          exact kept
        · simp [empty, splitInclusive, Scan.lines, progress.offset]
      · rw [lines_unfinished later empty]
        have long := progress.long fresh
        refine ⟨lines, fragment ++ data, [], ?_, ?_, progress.closed, ?_, ?_, ?_⟩
        · simp
        · simpa using ⟨progress.inner, later⟩
        · intro _
          rw [length_append]
          omega
        · simp only [Bool.or_true]
          rw [← kept]
          simp [fresh]
        · simp [progress.offset, Nat.add_assoc]

variable {file : File}

theorem advance_progress {fragment : Bytes}
    (progress : Progress readers session lines fragment scan)
    (part : lines ++ fragment <+: file.content)
    (near : file.content.length ≤ scan.offset + maxScan) :
    ∃ lines' fragment', Progress readers session lines' fragment'
        (scan.advance readers session file) ∧
      lines' ++ fragment' <+: file.content ∧
      (scan.advance readers session file).items = fullScan readers session file.content ∧
      (scan.advance readers session file).verified = true ∧
      (scan.advance readers session file).identity = some file.identity ∧
      (scan.advance readers session file).modified = file.modified ∧
      (scan.advance readers session file).length = file.content.length := by
  obtain ⟨data, content⟩ := part
  have start : max scan.offset (file.content.length - maxScan) = scan.offset := by omega
  have rest : file.content.drop scan.offset = data := by
    rw [progress.offset, ← content, drop_left]
  have now : Progress readers session lines fragment { scan with
      verified := true, identity := some file.identity, modified := file.modified,
      length := file.content.length } :=
    ⟨progress.closed, progress.inner, progress.long, progress.offset, progress.skip,
      progress.items, progress.bytes⟩
  obtain ⟨lines', fragment', rest', parts, inner, closed, long, state, consumed⟩ :=
    lines_consumes now data
  have advanced : scan.advance readers session file = { scan with
      verified := true, identity := some file.identity, modified := file.modified,
      length := file.content.length
      items := fullScan readers session lines'
      bytes := size (fullScan readers session lines')
      skipFragment := decide (fragment' ≠ [])
      offset := (lines' ++ fragment').length } := by
    simp only [Scan.advance, start, bne_self_eq_false, Bool.or_false, rest]
    simp only [state, consumed]
    rfl
  have all : fullScan readers session lines' = fullScan readers session file.content := by
    rw [← content, parts, append_assoc, fullScan_append closed, complete_inner inner]
    rfl
  rw [advanced]
  have apart : newline ∉ fragment' := fun found => inner (mem_append_left _ found)
  refine ⟨lines', fragment', ?_, ?_, all, rfl, rfl, rfl, rfl⟩
  · exact ⟨closed, apart, long, rfl, rfl, rfl, rfl⟩
  · rw [← content, parts]
    exact prefix_append _ _

/-! ## Runs -/

/-- The readings of a file that only grows, up to `whole`: the scan after them, and the file as it
was last read. -/
inductive Reads (readers : Readers) (session : String) (whole : Bytes) :
    Scan → Option File → Prop
  | start : Reads readers session whole Scan.default none
  | read {scan : Scan} {last : Option File} {file : File} (wanted : List String)
      (before : Reads readers session whole scan last) (regular : file.isFile = true)
      (part : file.content <+: whole)
      (grown : ∀ old ∈ last, old.identity = file.identity ∧ old.content <+: file.content ∧
        (old.content = file.content → old.modified = file.modified))
      (near : file.content.length ≤ scan.offset + maxScan) :
      Reads readers session whole (scan.read readers session file wanted).1 (some file)

/-- The scan of a file: nothing is read before its first line is known, and then all that can be. -/
inductive Scanned (readers : Readers) (session : String) (scan : Scan) : Option File → Prop
  | fresh {last : Option File} (state : scan = Scan.default)
      (unread : ∀ file ∈ last, newline ∉ file.content) : Scanned readers session scan last
  | verified {file : File} {lines fragment : Bytes}
      (progress : Progress readers session lines fragment scan)
      (part : lines ++ fragment <+: file.content)
      (items : scan.items = fullScan readers session file.content)
      (verified : scan.verified = true)
      (identity : scan.identity = some file.identity) (modified : scan.modified = file.modified)
      (length : scan.length = file.content.length) : Scanned readers session scan (some file)

theorem firstLine_of_prefix {part : Bytes} (prefix' : part <+: whole) (ended : newline ∈ part) :
    firstLine part = firstLine whole := by
  obtain ⟨line, rest, rfl, inner⟩ := eq_append_cons_of_mem ended
  obtain ⟨more, rfl⟩ := prefix'
  rw [append_assoc, cons_append, firstLine, firstLine, splitInclusive_line_append inner,
    splitInclusive_line_append inner]
  rfl

theorem firstLine_take (part : content <+: whole) (small : (firstLine whole).length ≤ maxLine)
    (ended : newline ∈ content) :
    firstLine (content.take maxLine) = firstLine whole := by
  have first := firstLine_of_prefix part ended
  obtain ⟨line, rest, rfl, inner⟩ := eq_append_cons_of_mem ended
  rw [← first, firstLine, splitInclusive_line_append inner] at small
  have whole' : line ++ [newline] <+: (line ++ newline :: rest).take maxLine := by
    rw [prefix_take_iff]
    exact ⟨⟨rest, by simp⟩, small⟩
  apply firstLine_of_prefix (( take_prefix _ _).trans part)
  exact whole'.subset (by simp)

theorem current_default (file : File) : Scan.default.current file = Scan.default := by
  rw [Scan.current]
  split <;> rfl

theorem read_scanned {last : Option File} (small : (firstLine whole).length ≤ maxLine)
    (isMeta : IsMeta session ((readers.parse (firstLine whole)).getD .null))
    (before : Scanned readers session scan last) (regular : file.isFile = true)
    (part : file.content <+: whole)
    (grown : ∀ old ∈ last, old.identity = file.identity ∧ old.content <+: file.content ∧
      (old.content = file.content → old.modified = file.modified))
    (near : file.content.length ≤ scan.offset + maxScan) (wanted : List String) :
    Scanned readers session (scan.read readers session file wanted).1 (some file) := by
  have advances : ∀ {lines fragment}, Progress readers session lines fragment scan →
      lines ++ fragment <+: file.content →
      Scanned readers session (scan.advance readers session file) (some file) := by
    intro lines fragment progress consumed
    obtain ⟨lines', fragment', progress', part', items, verified, identity, modified, length⟩ :=
      advance_progress progress consumed near
    exact .verified progress' part' items verified identity modified length
  rw [Scan.read, if_pos regular]
  cases before with
  | fresh state unread =>
    subst state
    rw [current_default]
    dsimp only
    split
    · exact advances progress_default nil_prefix
    · rename_i unknown
      apply Scanned.fresh rfl
      intro file' found ended
      cases found
      apply unknown
      right
      rw [firstLine_take part small ended]
      exact isMeta
  | verified progress consumed items verified identity modified length =>
    obtain ⟨sameFile, longer, sameTime⟩ := grown _ rfl
    have same : scan.current file = scan := by
      rw [Scan.current, if_neg]
      rw [identity, sameFile, modified, length]
      rintro (other | shorter | ⟨sameLength, otherTime⟩)
      · exact other rfl
      · have := longer.length_le
        omega
      · exact otherTime (sameTime (longer.eq_of_length sameLength.symm)).symm
    rw [same]
    dsimp only
    rw [if_pos (.inl verified)]
    exact advances progress (consumed.trans longer)

theorem reads_scanned {last : Option File} (small : (firstLine whole).length ≤ maxLine)
    (isMeta : IsMeta session ((readers.parse (firstLine whole)).getD .null))
    (run : Reads readers session whole scan last) : Scanned readers session scan last := by
  induction run with
  | start =>
    apply Scanned.fresh rfl
    intro file found
    cases found
  | read wanted before regular part grown near ih =>
    exact read_scanned small isMeta ih regular part grown near wanted

/-- After every reading the cache has what one scan of the file keeps. -/
theorem reads_full_scan (readers : Readers) (session : String) (whole : Bytes) {scan : Scan}
    {last : Option File} (small : (firstLine whole).length ≤ maxLine)
    (isMeta : IsMeta session ((readers.parse (firstLine whole)).getD .null))
    (run : Reads readers session whole scan last) :
    (∀ file ∈ last, scan.items = fullScan readers session file.content) ∧
      scan.bytes = size scan.items := by
  cases reads_scanned small isMeta run with
  | fresh state unread =>
    subst state
    refine ⟨?_, rfl⟩
    intro file found
    rw [fullScan, complete_inner (unread file found)]
    rfl
  | verified progress _ items =>
    refine ⟨?_, progress.bytes⟩
    intro file found
    cases found
    exact items

/-- The first line of the file of the session `s`, and an item of its turn `t`. -/
def sampleLines : Bytes × Bytes :=
  ("\x7b\"type\":\"session_meta\",\"payload\":\x7b\"id\":\"s\"\x7d\x7d\n".toUTF8.toList,
    ("\x7b\"type\":\"event_msg\",\"payload\":\x7b\"type\":\"item_completed\"," ++
      "\"thread_id\":\"s\",\"turn_id\":\"t\",\"item\":\x7b\"type\":\"Plan\",\"id\":\"r\"," ++
      "\"text\":\"first\"\x7d\x7d\x7d\n").toUTF8.toList)

def sampleReaders : Readers where
  parse line :=
    if line = sampleLines.1 then
      some (.object [("type", .string "session_meta"), ("payload", .object [("id", .string "s")])])
    else if line = sampleLines.2 then
      some (.object [("type", .string "event_msg"), ("payload", .object [
        ("type", .string "item_completed"), ("thread_id", .string "s"), ("turn_id", .string "t"),
        ("item", .object [("type", .string "Plan"), ("id", .string "r"),
          ("text", .string "first")])])])
    else none
  print _ := ""
  lowercase c := [c.toLower]

/-- The file after some of its bytes. -/
def sampleFile (length : Nat) : File :=
  ⟨true, (1, 2), some length, (sampleLines.1 ++ sampleLines.2).take length⟩

example : (sampleFile 70).content.length = 70 := by decide +kernel

theorem unfinished_event_read :
    let first := (Scan.default.read sampleReaders "s" (sampleFile 70) ["t"]).1
    (first.read sampleReaders "s" (sampleFile 200) ["t"]).1.items =
      [("t", ⟨"r", "plan", some "first", none⟩)] := by
  intro first
  have run : Reads sampleReaders "s" (sampleLines.1 ++ sampleLines.2) first
      (some (sampleFile 70)) := by
    apply Reads.read ["t"] .start rfl ( take_prefix _ _)
    · intro old found
      cases found
    · decide +kernel
  have again : Reads sampleReaders "s" (sampleLines.1 ++ sampleLines.2)
      (first.read sampleReaders "s" (sampleFile 200) ["t"]).1 (some (sampleFile 200)) := by
    apply Reads.read ["t"] run rfl ( take_prefix _ _)
    · intro old found
      cases found
      exact ⟨rfl, by decide +kernel, by decide +kernel⟩
    · have short : (sampleFile 200).content.length ≤ maxScan := by decide +kernel
      omega
  have whole := reads_full_scan sampleReaders "s" (sampleLines.1 ++ sampleLines.2)
    (by decide +kernel) (by decide +kernel) again
  rw [whole.1 _ rfl]
  decide +kernel

/-! ## Bounds -/

/-- The counter is exact, there is room for all items, and none is there twice. -/
structure Scan.Bounded (scan : Scan) : Prop where
  bytes : scan.bytes = size scan.items
  fits : Fits scan.items
  distinct : scan.items.Pairwise fun a b => ¬ SameItem a b

theorem dropOldest_spec (items : List Entry) :
    dropOldest items <:+ items ∧ Fits (dropOldest items) := by
  induction items with
  | nil => exact ⟨suffix_rfl, by decide⟩
  | cons entry rest ih =>
    rw [dropOldest]
    split
    · rename_i fits
      exact ⟨suffix_rfl, fits⟩
    · exact ⟨ih.1.trans (suffix_cons _ _), ih.2⟩

theorem mem_upsert {entry other : Entry} (mem : other ∈ upsert entry items) :
    other = entry ∨ other ∈ items := by
  induction items with
  | nil => exact .inl (mem_singleton.mp mem)
  | cons old rest ih =>
    rw [upsert] at mem
    split at mem
    · exact (mem_cons.mp mem).imp_right (mem_cons_of_mem _)
    · obtain rfl | later := mem_cons.mp mem
      · exact .inr mem_cons_self
      · exact (ih later).imp_right (mem_cons_of_mem _)

theorem distinct_upsert (distinct : items.Pairwise fun a b => ¬ SameItem a b) (entry : Entry) :
    (upsert entry items).Pairwise fun a b => ¬ SameItem a b := by
  induction items with
  | nil => exact pairwise_singleton _ _
  | cons old rest ih =>
    obtain ⟨apart, others⟩ := pairwise_cons.mp distinct
    rw [upsert]
    split
    · rename_i same
      refine pairwise_cons.mpr ⟨fun other mem again => apart other mem ?_, others⟩
      exact ⟨same.1.trans again.1, same.2.trans again.2⟩
    · rename_i ne
      refine pairwise_cons.mpr ⟨fun other mem same => ?_, ih others⟩
      obtain rfl | mem := mem_upsert mem
      · exact ne same
      · exact apart other mem same

theorem Scan.Bounded.put (bounded : scan.Bounded) : (scan.put turn item).Bounded := by
  have kept : scan.keeping scan.items = scan := by
    rw [Scan.keeping, ← bounded.bytes]
  rw [← kept, put_keeping]
  obtain ⟨suffix, fits⟩ := dropOldest_spec (upsert (turn, item) scan.items)
  exact ⟨rfl, fits, (distinct_upsert bounded.distinct _).sublist suffix.sublist⟩

theorem Scan.Bounded.entry (bounded : scan.Bounded) :
    (scan.entry readers session line).Bounded := by
  rw [Scan.entry]
  split
  · exact bounded.put
  · exact bounded

theorem Scan.Bounded.of_lines (readers : Readers) (session : String) (bounded : scan.Bounded)
    (skipFirst : Bool) (consumed : Nat) (lines : List Bytes) :
    (Scan.lines readers session skipFirst scan consumed lines).1.Bounded := by
  induction lines generalizing scan skipFirst consumed with
  | nil => exact bounded
  | cons line rest ih =>
    rw [Scan.lines]
    split
    · exact { bounded with }
    · have fresh : ({ scan with skipFragment := false } : Scan).Bounded := { bounded with }
      refine ih ?_ _ _
      split
      · exact fresh
      · exact fresh.entry

theorem Scan.Bounded.read (bounded : scan.Bounded) (file : File) (wanted : List String) :
    (scan.read readers session file wanted).1.Bounded := by
  have current : (scan.current file).Bounded := by
    rw [Scan.current]
    split
    · exact ⟨rfl, by decide, .nil⟩
    · exact bounded
  rw [Scan.read]
  split
  · dsimp only
    split
    · have started : Scan.Bounded { scan.current file with
          verified := true, identity := some file.identity, modified := file.modified,
          length := file.content.length } := { current with }
      exact { Scan.Bounded.of_lines readers session started _ _ _ with }
    · exact current
  · exact bounded

/-- Whatever files a scan reads, also where they are replaced or cut off: its cache has 512 items and
1 MiB at most, the counter is the sum of their bytes, and no item of a turn is there twice. -/
theorem cache_stays_bounded (readers : Readers) (session : String)
    (reads : List (File × List String)) :
    (reads.foldl (fun scan read => (scan.read readers session read.1 read.2).1)
      Scan.default).Bounded := by
  suffices ∀ scan : Scan, scan.Bounded →
      (reads.foldl (fun scan read => (scan.read readers session read.1 read.2).1) scan).Bounded from
    this _ ⟨rfl, by decide, .nil⟩
  induction reads with
  | nil => exact fun _ bounded => bounded
  | cons read reads ih => exact fun _ bounded => ih _ (bounded.read read.1 read.2)

end Agentix.Codex.Rollout
