import Agentix.TaskStore.Model
import Mathlib.Data.List.Chain
import Mathlib.Data.List.TakeWhile

/-! # Portable names

The stems that titles are shortened to: which of them every file system takes, and which of them are
shortened to themselves.  A Project is renamed to a folder only if its name is.
-/

namespace Agentix.TaskStore

open List Option

/-- What no file name contains. -/
def forbidden : List Char := "/\\:*?\"<>|[]#^".toList

/-- The part of a name before its first dot, in upper case. -/
def device (name : List Char) : String :=
  String.ofList ((name.takeWhile (· != '.')).map toAsciiUppercase)

/-- A name that every file system takes. -/
structure Portable (name : List Char) : Prop where
  nonempty : name ≠ []
  allowed : ∀ c ∈ name, isControl c = false ∧ c ∉ forbidden
  first : ∀ c ∈ name.head?, c ≠ ' ' ∧ c ≠ '.'
  last : ∀ c ∈ name.getLast?, c ≠ ' ' ∧ c ≠ '.'
  unreserved : device name ∉ reservedNames

/-- The words of a title with one space between them; what no name contains is a space. -/
def spaced (title : List Char) : List Char :=
  [' '].intercalate (words (title.map fun c =>
    if isControl c || forbidden.contains c then ' ' else c))

/-- Spaces and dots, which no name starts or ends with. -/
def edge (c : Char) : Bool := c == ' ' || c == '.'

/-- A title that starts with a device and its extension: after dots and spaces a reserved name, in
any case, then a dot, and within the first 48 characters something that is no dot or space. -/
def DeviceFile (title : List Char) : Prop :=
  ∃ lead stem extension last, lead ++ stem ++ '.' :: extension ++ [last] <+: (spaced title).take 48 ∧
    (∀ c ∈ lead, edge c = true) ∧ String.ofList (stem.map toAsciiUppercase) ∈ reservedNames ∧
    edge last = false

/-! ## Trimming -/

section Trim

variable {drop : Char → Bool} {cs : List Char}

theorem dropWhile_eq_self (first : ∀ c ∈ cs.head?, drop c = false) : cs.dropWhile drop = cs := by
  cases cs with
  | nil => rfl
  | cons c rest => simp [first c (by simp)]

theorem dropWhile_append_cons {c : Char} (kept : drop c = false) (rest : List Char) :
    (cs ++ c :: rest).dropWhile drop = cs.dropWhile drop ++ c :: rest := by
  induction cs with
  | nil => simp [kept]
  | cons d ds ih =>
    by_cases dropped : drop d
    · simp [dropped, ih]
    · simp [dropped]

theorem trimMatches_eq_self (first : ∀ c ∈ cs.head?, drop c = false)
    (last : ∀ c ∈ cs.getLast?, drop c = false) : trimMatches drop cs = cs := by
  unfold trimMatches
  rw [dropWhile_eq_self first, dropWhile_eq_self (by simpa using last), reverse_reverse]

/-- What is left of a list, and what is dropped before and after it. -/
theorem trimMatches_spec (drop : Char → Bool) (cs : List Char) : ∃ lead trail,
    cs = lead ++ trimMatches drop cs ++ trail ∧ (∀ c ∈ lead, drop c = true) ∧
      ∀ c ∈ trail, drop c = true := by
  refine ⟨cs.takeWhile drop, ((cs.dropWhile drop).reverse.takeWhile drop).reverse, ?_, ?_, ?_⟩
  · have inner : (cs.dropWhile drop).reverse =
        (cs.dropWhile drop).reverse.takeWhile drop ++ (cs.dropWhile drop).reverse.dropWhile drop :=
      takeWhile_append_dropWhile.symm
    have outer := congrArg reverse inner
    rw [reverse_reverse, reverse_append] at outer
    rw [trimMatches, append_assoc, ← outer, takeWhile_append_dropWhile]
  · exact fun c mem => mem_takeWhile_imp mem
  · exact fun c mem => mem_takeWhile_imp (mem_reverse.mp mem)

theorem head_trimMatches {c : Char} (head : c ∈ (trimMatches drop cs).head?) : drop c = false := by
  have leading : trimMatches drop cs <+: cs.dropWhile drop := by
    rw [← reverse_suffix, trimMatches, reverse_reverse]
    exact dropWhile_suffix drop
  obtain ⟨rest, split⟩ := leading
  have start : (cs.dropWhile drop).head? = some c := by
    rw [← split, head?_append, mem_def.mp head]
    rfl
  simpa [start] using head?_dropWhile_not drop cs

theorem last_trimMatches {c : Char} (last : c ∈ (trimMatches drop cs).getLast?) :
    drop c = false := by
  rw [trimMatches, getLast?_reverse] at last
  have := head?_dropWhile_not drop (cs.dropWhile drop).reverse
  rw [mem_def.mp last] at this
  simpa using this

/-- What is not dropped on either side stays with everything between. -/
theorem trimMatches_between {lead : List Char} {first last : Char} (middle trail : List Char)
    (before : ∀ c ∈ lead, drop c = true) (keeps : drop first = false) (ends : drop last = false) :
    ∃ rest, trimMatches drop (lead ++ first :: middle ++ last :: trail) =
      first :: middle ++ last :: rest := by
  have leading : (lead ++ first :: middle ++ last :: trail).dropWhile drop =
      first :: middle ++ last :: trail := by
    rw [append_assoc, cons_append, dropWhile_append_cons keeps,
      dropWhile_eq_nil_iff.mpr before, nil_append]
  refine ⟨(trail.reverse.dropWhile drop).reverse, ?_⟩
  rw [trimMatches, leading, cons_append, ← cons_append, reverse_append,
    reverse_cons, append_assoc, singleton_append, dropWhile_append_cons ends]
  simp

end Trim

/-! ## Words -/

variable {c : Char} {cs : List Char}

/-- The white space of the text is spaces, no two of them in a row. -/
structure Tidy (cs : List Char) : Prop where
  spaces : ∀ c ∈ cs, isWhitespace c = true → c = ' '
  single : cs.IsChain fun a b => a = ' ' → b ≠ ' '

theorem Tidy.part {part : List Char} (tidy : Tidy cs) (within : part <:+: cs) : Tidy part where
  spaces := fun c mem => tidy.spaces c (within.subset mem)
  single := tidy.single.infix within

theorem whitespace_space : isWhitespace ' ' = true := by decide

theorem words_nil : words [] = [] := rfl

theorem words_cons_white (white : isWhitespace c = true) :
    words (c :: cs) = words cs := by
  conv_lhs => unfold words
  rw [if_pos white]

theorem words_cons_black (black : isWhitespace c = false) (cs : List Char) :
    ∃ word rest, words (c :: cs) = (c :: word) :: rest ∧
      (cs.head?.all isWhitespace = true ∧ word = [] ∧ rest = words cs ∨
        cs.head?.all isWhitespace = false ∧ words cs = word :: rest) := by
  induction cs generalizing c with
  | nil =>
    have alone : words [c] = [[c]] := by
      unfold words
      rw [if_neg (by simp [black])]
    exact ⟨[], [], alone, .inl ⟨rfl, rfl, rfl⟩⟩
  | cons d ds ih =>
    cases white : isWhitespace d with
    | true =>
      have cut : words (c :: d :: ds) = [c] :: words (d :: ds) := by
        conv_lhs => unfold words
        rw [if_neg (by simp [black])]
        exact if_pos white
      exact ⟨[], words (d :: ds), cut, .inl (by simp [white])⟩
    | false =>
      obtain ⟨word, rest, first, -⟩ := ih white
      refine ⟨d :: word, rest, ?_, .inr ⟨by simp [white], first⟩⟩
      conv_lhs => unfold words
      rw [if_neg (by simp [black])]
      dsimp only
      rw [if_neg (by simp [white]), first]

theorem words_spec {word : List Char} (mem : word ∈ words cs) :
    word ≠ [] ∧ ∀ c ∈ word, c ∈ cs ∧ isWhitespace c = false := by
  induction cs generalizing word with
  | nil => simp [words_nil] at mem
  | cons c cs ih =>
    have older : ∀ {other}, other ∈ words cs →
        other ≠ [] ∧ ∀ d ∈ other, d ∈ c :: cs ∧ isWhitespace d = false := by
      intro other there
      obtain ⟨nonempty, all⟩ := ih there
      exact ⟨nonempty, fun d inside => ⟨mem_cons_of_mem c (all d inside).1, (all d inside).2⟩⟩
    cases white : isWhitespace c with
    | true =>
      rw [words_cons_white white] at mem
      exact older mem
    | false =>
      obtain ⟨first, rest, same, how⟩ := words_cons_black white cs
      rw [same] at mem
      obtain rfl | later := mem_cons.mp mem
      · refine ⟨cons_ne_nil c first, ?_⟩
        intro d inside
        obtain rfl | inside := mem_cons.mp inside
        · exact ⟨mem_cons_self, white⟩
        · obtain ⟨-, rfl, -⟩ | ⟨-, same⟩ := how
          · simp at inside
          · exact (older (by simp [same])).2 d inside
      · obtain ⟨-, -, rfl⟩ | ⟨-, same⟩ := how
        · exact older later
        · exact older (by simp [same, later])

theorem tidy_intercalate {ws : List (List Char)}
    (black : ∀ word ∈ ws, word ≠ [] ∧ ∀ c ∈ word, isWhitespace c = false) :
    Tidy ([' '].intercalate ws) ∧ ∀ c ∈ ([' '].intercalate ws).head?, c ≠ ' ' := by
  induction ws with
  | nil => exact ⟨⟨by simp, by simp⟩, by simp⟩
  | cons word ws ih =>
    obtain ⟨⟨nonempty, letters⟩, later⟩ := forall_mem_cons.mp black
    obtain ⟨tidy, head⟩ := ih later
    have plain : ∀ c ∈ word, c ≠ ' ' := by
      intro c inside same
      rw [same] at inside
      exact absurd (letters ' ' inside) (by decide)
    have chain : word.IsChain fun a b => a = ' ' → b ≠ ' ' :=
      (pairwise_of_forall_mem_list fun a first b _ same => absurd same (plain a first)).isChain
    have start : ∀ c ∈ word.head?, c ≠ ' ' := fun c first => plain c (mem_of_mem_head? first)
    cases ws with
    | nil =>
      rw [intercalate_singleton]
      refine ⟨⟨fun c inside white => ?_, chain⟩, start⟩
      rw [letters c inside] at white
      cases white
    | cons next ws =>
      rw [intercalate_cons_cons]
      constructor
      · constructor
        · intro c inside white
          simp only [mem_append, mem_singleton] at inside
          obtain (inside | rfl) | inside := inside
          · rw [letters c inside] at white
            cases white
          · rfl
          · exact tidy.spaces c inside white
        · rw [append_assoc]
          refine chain.append ?_ fun a ends _ _ same =>
            absurd same (plain a (mem_of_getLast? ends))
          exact tidy.single.cons fun b first _ => head b first
      · cases word with
        | nil => exact absurd rfl nonempty
        | cons first rest => exact start

/-- A tidy text is its words with one space between them, if it does not end with a space. -/
theorem intercalate_words (tidy : Tidy cs) (last : ∀ c ∈ cs.getLast?, c ≠ ' ') :
    [' '].intercalate (words cs) = cs.dropWhile (· == ' ') := by
  induction cs with
  | nil => rfl
  | cons c cs ih =>
    have within : cs <:+: c :: cs := (suffix_cons c cs).isInfix
    have later : ∀ d ∈ cs.getLast?, d ≠ ' ' := by
      intro d ends
      apply last
      rw [getLast?_cons, mem_def.mp ends]
      rfl
    have rest := ih (tidy.part within) later
    cases white : isWhitespace c with
    | true =>
      have space := tidy.spaces c mem_cons_self white
      rw [words_cons_white white, rest, space]
      rfl
    | false =>
      have black : (c == ' ') = false := by
        apply beq_false_of_ne
        rintro rfl
        exact absurd white (by decide)
      obtain ⟨word, others, same, how⟩ := words_cons_black white cs
      rw [same, dropWhile_cons, black]
      obtain ⟨ended, rfl, rfl⟩ | ⟨goes, same⟩ := how
      · -- the word ends here: what follows it is nothing, or a space and the next word
        cases cs with
        | nil => simp [words_nil]
        | cons d ds =>
          have space : d = ' ' := tidy.spaces d (by simp) (by simpa using ended)
          subst space
          have next : ∀ e ∈ ds.head?, (e == ' ') = false := fun e first =>
            beq_false_of_ne ((tidy.part within).single.rel_head? first rfl)
          have kept : (' ' :: ds).dropWhile (· == ' ') = ds := dropWhile_eq_self next
          rw [kept] at rest
          cases left : words (' ' :: ds) with
          | nil =>
            rw [left] at rest
            exact absurd rfl (later ' ' (by rw [← show [] = ds from rest]; rfl))
          | cons _ _ =>
            rw [intercalate_cons_cons, ← left, rest]
            rfl
      · -- the word goes on
        rw [intercalate_cons_cons_left, ← same, rest]
        cases cs with
        | nil => simp at goes
        | cons d ds =>
          have first : (d == ' ') = false := by
            apply beq_false_of_ne
            rintro rfl
            simp [whitespace_space] at goes
          rw [dropWhile_cons, first]
          rfl

/-! ## Cleaned titles -/

/-- A title without what no name contains, of at most 48 characters. -/
def cleaned (title : List Char) : List Char :=
  trimMatches edge ((spaced title).take 48)

/-- What a title is cleaned to; it may be empty. -/
structure Clean (name : List Char) : Prop extends Tidy name where
  allowed : ∀ c ∈ name, isControl c = false ∧ c ∉ forbidden
  first : ∀ c ∈ name.head?, edge c = false
  last : ∀ c ∈ name.getLast?, edge c = false

theorem edge_eq_false : edge c = false ↔ c ≠ ' ' ∧ c ≠ '.' := by
  simp [edge]

theorem mem_intercalate {ws : List (List Char)} (mem : c ∈ [' '].intercalate ws) :
    c = ' ' ∨ ∃ word ∈ ws, c ∈ word := by
  induction ws with
  | nil => simp at mem
  | cons word ws ih =>
    cases ws with
    | nil =>
      rw [intercalate_singleton] at mem
      exact .inr ⟨word, by simp, mem⟩
    | cons next ws =>
      rw [intercalate_cons_cons, mem_append, mem_append,
        mem_singleton] at mem
      obtain (inside | rfl) | inside := mem
      · exact .inr ⟨word, by simp, inside⟩
      · exact .inl rfl
      · obtain rfl | ⟨other, there, within⟩ := ih inside
        · exact .inl rfl
        · exact .inr ⟨other, mem_cons_of_mem _ there, within⟩

theorem spaced_allowed {title : List Char} (mem : c ∈ spaced title) :
    isControl c = false ∧ c ∉ forbidden := by
  have space : isControl ' ' = false ∧ ' ' ∉ forbidden := by decide
  obtain rfl | ⟨word, there, inside⟩ := mem_intercalate mem
  · exact space
  · obtain ⟨origin, -⟩ := (words_spec there).2 c inside
    obtain ⟨original, -, rfl⟩ := mem_map.mp origin
    split
    · exact space
    · rename_i kept
      simpa using kept

theorem cleaned_clean (title : List Char) : Clean (cleaned title) := by
  obtain ⟨lead, trail, split, -, -⟩ := trimMatches_spec edge ((spaced title).take 48)
  have within : cleaned title <:+: spaced title :=
    List.IsInfix.trans ⟨lead, trail, split.symm⟩ ( take_prefix 48 _).isInfix
  have tidy : Tidy (spaced title) :=
    (tidy_intercalate fun word mem =>
      ⟨(words_spec mem).1, fun c inside => ((words_spec mem).2 c inside).2⟩).1
  exact
    { tidy.part within with
      allowed := fun c mem => spaced_allowed (within.subset mem)
      first := fun c head => head_trimMatches head
      last := fun c ends => last_trimMatches ends }

theorem Clean.cleaned_eq {name : List Char} (clean : Clean name) (short : name.length ≤ 48) :
    cleaned name = name := by
  have same : name.map (fun c => if isControl c || forbidden.contains c then ' ' else c) = name := by
    conv_rhs => rw [← map_id name]
    apply map_congr_left
    intro c mem
    obtain ⟨plain, free⟩ := clean.allowed c mem
    simp [plain, free]
  have joined : spaced name = name := by
    rw [spaced, same, intercalate_words clean.toTidy fun c ends =>
      (edge_eq_false.mp (clean.last c ends)).1]
    exact dropWhile_eq_self fun c head => by
      simpa using (edge_eq_false.mp (clean.first c head)).1
  rw [cleaned, joined, take_of_length_le short]
  exact trimMatches_eq_self clean.first clean.last

/-! ## Devices -/

theorem splitOn_head (c : Char) (cs : List Char) :
    ∃ pieces, splitOn c cs = cs.takeWhile (· != c) :: pieces := by
  induction cs with
  | nil => exact ⟨[], rfl⟩
  | cons d ds ih =>
    obtain ⟨pieces, split⟩ := ih
    by_cases same : d = c
    · exact ⟨splitOn c ds, by simp [splitOn, same]⟩
    · exact ⟨pieces, by simp [splitOn, same, split]⟩

theorem reserved_letters : ∀ name ∈ reservedNames,
    name ≠ "" ∧ name.toList.length ≤ 4 ∧ ' ' ∉ name.toList ∧ '.' ∉ name.toList ∧
      '-' ∉ name.toList := by
  decide

theorem shortName_eq (title : String) : shortName title =
    if cleaned title.toList = [] then "Untitled"
    else if device (cleaned title.toList) ∈ reservedNames then
      String.ofList (cleaned title.toList) ++ "-1"
    else String.ofList (cleaned title.toList) := by
  obtain ⟨pieces, split⟩ := splitOn_head '.' (cleaned title.toList)
  have name : trimMatches (fun c => c == ' ' || c == '.')
      (([' '].intercalate (words (title.toList.map fun c =>
        if isControl c || "/\\:*?\"<>|[]#^".toList.contains c then ' ' else c))).take 48) =
      cleaned title.toList := rfl
  simp only [shortName, name, split]
  rfl

section Device

variable {name extension : List Char}

theorem device_of_no_dot (plain : '.' ∉ name) :
    device name = String.ofList (name.map toAsciiUppercase) := by
  have all : name.takeWhile (· != '.') = name := by
    apply takeWhile_eq_self_iff.mpr
    intro c mem
    simpa using fun same : c = '.' => plain (same ▸ mem)
  rw [device, all]

theorem device_extension (plain : '.' ∉ name) :
    device (name ++ '.' :: extension) = String.ofList (name.map toAsciiUppercase) := by
  have all : ∀ c ∈ name, (c != '.') = true := fun c mem => by
    simpa using fun same : c = '.' => plain (same ▸ mem)
  rw [device, takeWhile_append_of_pos all]
  simp

theorem device_append (dot : '.' ∈ name) : device (name ++ extension) = device name := by
  obtain ⟨stem, rest, rfl, plain⟩ := eq_append_cons_of_mem dot
  rw [append_assoc, cons_append, device_extension plain, device_extension plain]

theorem not_mem_of_reserved {c : Char} (same : toAsciiUppercase c = c)
    (reserved : String.ofList (name.map toAsciiUppercase) ∈ reservedNames)
    (none : ∀ word ∈ reservedNames, c ∉ word.toList) : c ∉ name := by
  intro mem
  apply none _ reserved
  rw [String.toList_ofList, ← same]
  exact mem_map_of_mem mem

end Device

theorem deviceFile_iff {title : List Char} :
    DeviceFile title ↔ device (cleaned title) ∈ reservedNames ∧ '.' ∈ cleaned title := by
  constructor
  · rintro ⟨lead, stem, extension, last, ⟨trail, whole⟩, before, reserved, ends⟩
    have dotless : '.' ∉ stem := not_mem_of_reserved (by decide) reserved fun word mem =>
      (reserved_letters word mem).2.2.2.1
    have spaceless : ' ' ∉ stem := not_mem_of_reserved (by decide) reserved fun word mem =>
      (reserved_letters word mem).2.2.1
    cases stem with
    | nil => exact absurd rfl (reserved_letters _ reserved).1
    | cons first rest =>
      have keeps : edge first = false := by
        apply edge_eq_false.mpr
        constructor
        · rintro rfl
          exact spaceless mem_cons_self
        · rintro rfl
          exact dotless mem_cons_self
      obtain ⟨left, same⟩ := trimMatches_between (rest ++ '.' :: extension) trail before keeps
        ends
      have name : cleaned title = (first :: rest) ++ '.' :: (extension ++ last :: left) := by
        rw [cleaned, ← whole]
        simpa using same
      rw [name, device_extension dotless]
      exact ⟨reserved, by simp⟩
  · rintro ⟨reserved, dot⟩
    obtain ⟨lead, trail, split, before, -⟩ := trimMatches_spec edge ((spaced title).take 48)
    obtain ⟨stem, rest, name, dotless⟩ := eq_append_cons_of_mem dot
    rw [name, device_extension dotless] at reserved
    -- the name does not end with the dot
    have ends := (cleaned_clean title).last
    rw [name, getLast?_append_cons, getLast?_cons] at ends
    cases eq_nil_or_concat rest with
    | inl none =>
      subst none
      exact absurd (ends '.' rfl) (by decide)
    | inr some =>
      obtain ⟨extension, last, rfl⟩ := some
      refine ⟨lead, stem, extension, last, ⟨trail, ?_⟩, before, reserved, ends last (by simp)⟩
      rw [split, ← cleaned, name]
      simp

/-! ## The shortened name -/

theorem cleaned_short (title : List Char) : (cleaned title).length ≤ 48 := by
  obtain ⟨lead, trail, split, -, -⟩ := trimMatches_spec edge ((spaced title).take 48)
  have sizes := congrArg length split
  have bound := length_take_le 48 (spaced title)
  rw [length_append, length_append] at sizes
  rw [cleaned]
  omega

theorem Clean.portable {name : List Char} (clean : Clean name) (nonempty : name ≠ [])
    (short : name.length ≤ 48) (unreserved : device name ∉ reservedNames) :
    Portable name ∧ shortName (String.ofList name) = String.ofList name := by
  constructor
  · exact
      { nonempty := nonempty
        allowed := clean.allowed
        first := fun c head => edge_eq_false.mp (clean.first c head)
        last := fun c ends => edge_eq_false.mp (clean.last c ends)
        unreserved := unreserved }
  · rw [shortName_eq, String.toList_ofList, clean.cleaned_eq short, if_neg nonempty,
      if_neg unreserved]

theorem clean_untitled : Clean "Untitled".toList := by
  have fixed : cleaned "Untitled".toList = "Untitled".toList := by decide
  rw [← fixed]
  exact cleaned_clean _

theorem Clean.escaped {name : List Char} (clean : Clean name) (nonempty : name ≠ []) :
    Clean (name ++ ['-', '1']) where
  spaces := by
    intro c mem white
    obtain old | new := mem_append.mp mem
    · exact clean.spaces c old white
    · simp only [mem_cons, not_mem_nil, or_false] at new
      obtain rfl | rfl := new <;> exact absurd white (by decide)
  single := by
    apply clean.single.append (by simp)
    intro _ _ c head _
    simp only [head?_cons, mem_def, some.injEq] at head
    rw [← head]
    decide
  allowed := by
    intro c mem
    obtain old | new := mem_append.mp mem
    · exact clean.allowed c old
    · simp only [mem_cons, not_mem_nil, or_false] at new
      obtain rfl | rfl := new <;> decide
  first := by
    cases name with
    | nil => exact absurd rfl nonempty
    | cons c rest => exact clean.first
  last := by
    intro c ends
    rw [getLast?_append] at ends
    simp only [getLast?_cons_cons, getLast?_singleton, some_or, mem_def,
      some.injEq] at ends
    rw [← ends]
    decide

/-- Every title is shortened to a portable name that is shortened to itself, unless it starts with
a device and its extension. -/
theorem shortName_portable_iff (title : String) :
    Portable (shortName title).toList ∧ shortName (shortName title) = shortName title ↔
      ¬ DeviceFile title.toList := by
  have clean := cleaned_clean title.toList
  have short := cleaned_short title.toList
  rw [deviceFile_iff, shortName_eq]
  by_cases empty : cleaned title.toList = []
  · rw [if_pos empty, empty]
    have untitled := clean_untitled.portable (by decide) (by decide) (by decide)
    simpa using untitled
  rw [if_neg empty]
  by_cases reserved : device (cleaned title.toList) ∈ reservedNames
  · rw [if_pos reserved, String.toList_append, String.toList_ofList]
    by_cases dot : '.' ∈ cleaned title.toList
    · -- the suffix comes after the extension
      refine iff_of_false (fun holds => ?_) fun free => free ⟨reserved, dot⟩
      apply holds.1.unreserved
      rwa [device_append dot]
    · refine iff_of_true ?_ fun file => dot file.2
      have stem := reserved
      rw [device_of_no_dot dot] at stem
      have bound := (reserved_letters _ stem).2.1
      rw [String.toList_ofList, length_map] at bound
      have dotless : '.' ∉ cleaned title.toList ++ ['-', '1'] := by simp [dot]
      have free : device (cleaned title.toList ++ ['-', '1']) ∉ reservedNames := by
        rw [device_of_no_dot dotless]
        intro member
        apply (reserved_letters _ member).2.2.2.2
        simp [toAsciiUppercase]
      have portable := (clean.escaped empty).portable (by simp)
        (by simp only [length_append, length_cons, length_nil]; omega) free
      rw [String.ofList_append] at portable
      exact portable
  · rw [if_neg reserved, String.toList_ofList]
    exact iff_of_true (clean.portable empty short reserved) fun file => reserved file.1

/-- A device with an extension gets its suffix after the extension, and gets another each time. -/
theorem device_file_stays_reserved :
    ¬ Portable (shortName "CON.txt").toList ∧
      shortName (shortName "CON.txt") ≠ shortName "CON.txt" := by
  constructor
  · intro portable
    exact absurd portable.unreserved (by decide)
  · decide

end Agentix.TaskStore
