import Agentix.Slack.Manifest

/-! # Slack commands round-trip through the manifest

A merge edits fields of the manifest, and each edit leaves what a second one would make of it.  The
names of the catalogue and the entry point are encoded into commands that are decoded again, except
for names with the legacy prefix where there are no affixes.
-/

namespace Agentix.Slack

open Lib List Option

/-! ## Edits -/

/-- A second edit changes nothing. -/
def Stable (edit : Json → Fallible Json) : Prop :=
  ∀ value edited, edit value = .ok edited → edit edited = .ok edited

section Edits

variable {key other : String} {default value edited found : Json} {edit : Json → Fallible Json}
  {fields : Entries String Json}

theorem entry_eq_ok : entry key default edit value = .ok edited ↔ ∃ fields found,
    value = .object fields ∧ edit ((Entries.get fields key).getD default) = .ok found ∧
      edited = .object (Entries.set fields key found) := by
  cases value with
  | object fields =>
    simp only [entry, bind_ok, pure_ok, Json.object.injEq, exists_and_left]
    constructor
    · rintro ⟨found, edits, rfl⟩
      exact ⟨fields, rfl, found, edits, rfl⟩
    · rintro ⟨_, rfl, found, edits, rfl⟩
      exact ⟨found, edits, rfl⟩
  | _ => simp [entry]

theorem entry_of_fixed (present : Entries.get fields key = some found) (fixed : edit found = .ok found) :
    entry key default edit (.object fields) = .ok (.object fields) := by
  rw [entry_eq_ok]
  exact ⟨fields, found, rfl, by rw [present]; exact fixed, by rw [Entries.set_of_get present]⟩

theorem stable_entry (stable : Stable edit) : Stable (entry key default edit) := by
  intro value edited edits
  obtain ⟨fields, found, rfl, inner, rfl⟩ := entry_eq_ok.mp edits
  exact entry_of_fixed Entries.get_set_self (stable _ _ inner)

theorem entry_set_of_ne (ne : key ≠ other)
    (fixed : entry key default edit (.object fields) = .ok (.object fields)) :
    entry key default edit (.object (Entries.set fields other value)) =
      .ok (.object (Entries.set fields other value)) := by
  obtain ⟨_, found, same, edits, result⟩ := entry_eq_ok.mp fixed
  cases same
  rw [Json.object.injEq] at result
  have present : Entries.get fields key = some found := by
    rw [result, Entries.get_set_self]
  rw [present] at edits
  exact entry_of_fixed ((Entries.get_set_of_ne ne).trans present) edits

/-- The fields of an object, and of null, which becomes one. -/
def fieldsOf : Json → Option (Entries String Json)
  | .null => some []
  | .object fields => some fields
  | _ => none

theorem indexMut_eq_ok : indexMut key edit value = .ok edited ↔ ∃ fields found,
    fieldsOf value = some fields ∧ edit ((Entries.get fields key).getD .null) = .ok found ∧
      edited = .object (Entries.set fields key found) := by
  cases value with
  | null =>
    simp only [indexMut, bind_ok, pure_ok, fieldsOf, some.injEq]
    constructor
    · rintro ⟨found, edits, rfl⟩
      exact ⟨[], found, rfl, edits, rfl⟩
    · rintro ⟨_, found, rfl, edits, rfl⟩
      exact ⟨found, edits, rfl⟩
  | object fields =>
    simp only [indexMut, bind_ok, pure_ok, fieldsOf, some.injEq]
    constructor
    · rintro ⟨found, edits, rfl⟩
      exact ⟨fields, found, rfl, edits, rfl⟩
    · rintro ⟨_, found, rfl, edits, rfl⟩
      exact ⟨found, edits, rfl⟩
  | _ => simp [indexMut, fieldsOf]

theorem object_of_fieldsOf (ofValue : fieldsOf value = some fields)
    (present : Entries.get fields key = some found) : value = .object fields := by
  cases value with
  | null =>
    cases ofValue
    cases present
  | object own =>
    cases ofValue
    rfl
  | _ => cases ofValue

end Edits

/-! ## The commands of a manifest -/

/-- `manifest["features"]["slash_commands"]`, where it is an array. -/
def slashCommands (manifest : Json) : List Json :=
  ((manifest.index "features").index "slash_commands").asArray.getD []

def Has (manifest : Json) (slash : List Json) : Prop :=
  ∃ fields features, manifest = .object fields ∧
    Entries.get fields "features" = some (.object features) ∧
      Entries.get features "slash_commands" = some (.array slash)

def withSlash (slash : List Json) : Json → Json
  | .object fields =>
    match Entries.get fields "features" with
    | some (.object features) =>
      .object (Entries.set fields "features" (.object (Entries.set features "slash_commands" (.array slash))))
    | _ => .object fields
  | manifest => manifest

section Commands

variable {manifest : Json} {slash slash' : List Json} {fields : Entries String Json} {key : String}

theorem get_eq_lookup (fields : Entries String Json) (key : String) :
    Entries.get fields key = fields.lookup key := by
  induction fields with
  | nil => rfl
  | cons field fields ih =>
    by_cases same : field.1 = key
    · subst same
      exact (if_pos rfl).trans lookup_cons_self.symm
    · have ne : (key == field.1) = false := by simpa using Ne.symm same
      calc Entries.get (field :: fields) key = Entries.get fields key := if_neg same
        _ = fields.lookup key := ih
        _ = (field :: fields).lookup key := by rw [lookup_cons, ne]

theorem index_object (fields : Entries String Json) (key : String) :
    (Json.object fields).index key = (Entries.get fields key).getD .null := by
  rw [get_eq_lookup]
  rfl

theorem Has.slashCommands (has : Has manifest slash) : slashCommands manifest = slash := by
  obtain ⟨fields, features, rfl, present, commands⟩ := has
  simp only [Slack.slashCommands, index_object, present, commands, getD_some]
  rfl

theorem Has.withSlash (has : Has manifest slash) (slash' : List Json) :
    Has (withSlash slash' manifest) slash' := by
  obtain ⟨fields, features, rfl, present, commands⟩ := has
  simp only [Slack.withSlash, present]
  exact ⟨_, _, rfl, Entries.get_set_self, Entries.get_set_self⟩

theorem Has.withSlash_self (has : Has manifest slash) : Slack.withSlash slash manifest = manifest := by
  obtain ⟨fields, features, rfl, present, commands⟩ := has
  simp only [Slack.withSlash, present]
  rw [Entries.set_of_get commands, Entries.set_of_get present]

theorem Has.withSlash_withSlash (has : Has manifest slash) (a b : List Json) :
    Slack.withSlash a (Slack.withSlash b manifest) = Slack.withSlash a manifest := by
  obtain ⟨fields, features, rfl, present, commands⟩ := has
  simp only [Slack.withSlash, present, Entries.get_set_self, Entries.set_set]

theorem Has.set (has : Has (.object fields) slash) (ne : "features" ≠ key) (value : Json) :
    Has (.object (Entries.set fields key value)) slash := by
  obtain ⟨own, features, same, present, commands⟩ := has
  cases same
  exact ⟨_, features, rfl, (Entries.get_set_of_ne ne).trans present, commands⟩

theorem indexMut_of_has (has : Has manifest slash) {edit : Json → Fallible Json}
    (edits : edit (.array slash) = .ok (.array slash')) :
    indexMut "features" (indexMut "slash_commands" edit) manifest = .ok (withSlash slash' manifest) := by
  obtain ⟨fields, features, rfl, present, commands⟩ := has
  simp only [withSlash, present]
  refine indexMut_eq_ok.mpr ⟨fields, _, rfl, ?_, rfl⟩
  rw [present, getD_some]
  refine indexMut_eq_ok.mpr ⟨features, _, rfl, ?_, rfl⟩
  rw [commands, getD_some]
  exact edits

theorem edit_of_has (has : Has manifest slash) {edit : Json → Fallible Json} {edited : Json}
    (edits : indexMut "features" (indexMut "slash_commands" edit) manifest = .ok edited) :
    ∃ value, edit (.array slash) = .ok value := by
  obtain ⟨fields, features, rfl, present, commands⟩ := has
  obtain ⟨_, found, same, inner, -⟩ := indexMut_eq_ok.mp edits
  cases same
  rw [present, getD_some] at inner
  obtain ⟨_, value, same, edits, -⟩ := indexMut_eq_ok.mp inner
  cases same
  rw [commands, getD_some] at edits
  exact ⟨value, edits⟩

end Commands

/-! ## Names -/

section Names

variable {affixes : CommandAffixes} {name command : String} {text start ending : List Char}

theorem stripPrefix_eq_some {rest : List Char} :
    stripPrefix text start = some rest ↔ text = start ++ rest := by
  rw [stripPrefix, ite_none_right_eq_some, isPrefixOf_iff_prefix, some.injEq]
  constructor
  · rintro ⟨⟨tail, rfl⟩, rfl⟩
    rw [drop_left]
  · rintro rfl
    exact ⟨prefix_append _ _, drop_left⟩

theorem stripSuffix_append : stripSuffix (text ++ ending) ending = some text := by
  simp [stripSuffix]

def CommandAffixes.slash (affixes : CommandAffixes) (name : String) : String :=
  if affixes.isDefault && (name == "rename" || name == "status") then "/agentix-" ++ name
  else "/" ++ String.ofList affixes.before ++ name ++ String.ofList affixes.after

theorem encode_eq_ok : affixes.encode name = .ok command ↔
    command = affixes.slash name ∧ (affixes.slash name).toList.length ≤ 32 ∧ validName name = true := by
  simp only [CommandAffixes.encode, CommandAffixes.slash, bind_ok, ensure_ok, pure_ok]
  constructor
  · rintro ⟨⟨⟩, ⟨short, valid⟩, rfl⟩
    exact ⟨rfl, short, valid⟩
  · rintro ⟨rfl, short, valid⟩
    exact ⟨⟨⟩, ⟨short, valid⟩, rfl⟩

theorem isDefault_iff : affixes.isDefault = true ↔ affixes.before = [] ∧ affixes.after = [] := by
  simp [CommandAffixes.isDefault]

theorem slash_default (default : affixes.isDefault = true) : affixes.slash name = canonical name := by
  obtain ⟨before, after⟩ := isDefault_iff.mp default
  simp [CommandAffixes.slash, canonical, default, before, after]

theorem slash_toList (named : affixes.isDefault = false) : (affixes.slash name).toList =
    '/' :: (affixes.before ++ (name.toList ++ affixes.after)) := by
  simp [CommandAffixes.slash, named]

/-- The name has the prefix of the former commands. -/
def Legacy (name : String) : Prop := "agentix-".toList <+: name.toList

theorem canonical_toList (plain : name ≠ "rename" ∧ name ≠ "status") :
    (canonical name).toList = '/' :: name.toList := by
  simp [canonical, plain.1, plain.2]

theorem not_legacy_rename : ¬ Legacy "rename" ∧ ¬ Legacy "status" := by
  constructor <;> (unfold Legacy; decide)

theorem stripPrefix_slash (plain : ¬ Legacy name) :
    stripPrefix ('/' :: name.toList) "/agentix-".toList = none := by
  cases stripped : stripPrefix ('/' :: name.toList) "/agentix-".toList with
  | none => rfl
  | some rest =>
    have parts : '/' :: name.toList = '/' :: ("agentix-".toList ++ rest) :=
      stripPrefix_eq_some.mp stripped
    exact absurd ⟨rest, (cons.inj parts).2.symm⟩ plain

theorem decode_slash (valid : validName name = true)
    (readable : affixes.isDefault = false ∨ ¬ Legacy name) :
    affixes.decode (affixes.slash name) = some name := by
  cases default : affixes.isDefault with
  | false =>
    have first : stripPrefix (affixes.slash name).toList ['/'] =
        some (affixes.before ++ (name.toList ++ affixes.after)) :=
      stripPrefix_eq_some.mpr (slash_toList default)
    have second : stripPrefix (affixes.before ++ (name.toList ++ affixes.after)) affixes.before =
        some (name.toList ++ affixes.after) := stripPrefix_eq_some.mpr rfl
    simp [CommandAffixes.decode, default, first, second, stripSuffix_append, valid]
  | true =>
    have plain : ¬ Legacy name := readable.resolve_left (by simp [default])
    rw [slash_default default]
    by_cases special : name = "rename" ∨ name = "status"
    · have former : stripPrefix (canonical name).toList "/agentix-".toList = some name.toList := by
        rw [stripPrefix_eq_some]
        obtain rfl | rfl := special <;> simp [canonical]
      simp only [CommandAffixes.decode, default, if_true, former]
      simp [valid]
    · rw [not_or] at special
      have slash : stripPrefix (canonical name).toList ['/'] = some name.toList :=
        stripPrefix_eq_some.mpr (canonical_toList special)
      have former : stripPrefix (canonical name).toList "/agentix-".toList = none := by
        rw [canonical_toList special]
        exact stripPrefix_slash plain
      simp only [CommandAffixes.decode, default, if_true, former, slash]
      simp [valid]

theorem decode_legacy (default : affixes.isDefault = true) (legacy : Legacy name) :
    affixes.decode (affixes.slash name) ≠ some name := by
  have plain : name ≠ "rename" ∧ name ≠ "status" :=
    ⟨fun same => not_legacy_rename.1 (same ▸ legacy), fun same => not_legacy_rename.2 (same ▸ legacy)⟩
  obtain ⟨rest, parts⟩ := legacy
  have former : stripPrefix (canonical name).toList "/agentix-".toList = some rest := by
    rw [stripPrefix_eq_some, canonical_toList plain, ← parts]
    rfl
  rw [slash_default default]
  simp only [CommandAffixes.decode, default, if_true, former]
  intro same
  have both : validName (String.ofList rest) = true ∧ String.ofList rest = name := by
    simpa using same
  have lengths : ("agentix-".toList ++ rest).length = rest.length := by
    rw [parts, ← both.2]
    exact congrArg length String.toList_ofList
  rw [length_append] at lengths
  have eight : "agentix-".toList.length = 8 := rfl
  omega

end Names

/-! ## The canonical merge -/

/-- The entries that a merge adds. -/
def generated (affixes : CommandAffixes) (commands : List ChannelCommand) : List Json :=
  entrypoint (affixes.slash "agentix") ::
    commands.map fun command => generatedEntry command (affixes.slash command.name)

def canonicalEntries (commands : List ChannelCommand) : List Json :=
  entrypoint "/agentix" :: commands.map fun command => generatedEntry command (canonical command.name)

def keepsCanonical (commands : List ChannelCommand) (value : Json) : Bool :=
  (commandOf value).any fun name => !legacy commands name

section Canonical

variable {commands : List ChannelCommand} {value merged : Json} {slash kept : List Json}

theorem mergeSlash_eq_ok : mergeSlash commands value = .ok merged ↔ ∃ slash, value = .array slash ∧
    (∀ own ∈ slash, (commandOf own).isSome) ∧ catalogValid commands = true ∧
      (slash.filter (keepsCanonical commands)).length + (commands.length + 1) ≤ 100 ∧
      merged = .array (slash.filter (keepsCanonical commands) ++ canonicalEntries commands) := by
  cases value with
  | array slash =>
    simp only [mergeSlash, bind_ok, ensure_ok, pure_ok, Json.array.injEq, List.all_eq_true,
      length_append, length_cons, length_map, exists_eq_left', canonicalEntries]
    constructor
    · rintro ⟨⟨⟩, named, ⟨⟩, valid, ⟨⟩, short, rfl⟩
      exact ⟨named, valid, short, rfl⟩
    · rintro ⟨named, valid, short, rfl⟩
      exact ⟨⟨⟩, named, ⟨⟩, valid, ⟨⟩, short, rfl⟩
  | _ => simp [mergeSlash]

theorem commandOf_entrypoint (slash : String) : commandOf (entrypoint slash) = some slash := rfl

theorem commandOf_generatedEntry (command : ChannelCommand) (slash : String) :
    commandOf (generatedEntry command slash) = some slash := rfl

theorem legacy_canonical {command : ChannelCommand} (mem : command ∈ commands) :
    legacy commands (canonical command.name) = true := by
  by_cases special : command.name = "rename" ∨ command.name = "status"
  · have former : "/agentix-".toList.isPrefixOf (canonical command.name).toList = true := by
      obtain same | same := special <;> rw [same] <;> decide
    simp only [legacy, former, Bool.or_true, Bool.true_or]
  · rw [not_or] at special
    have named : stripPrefix (canonical command.name).toList ['/'] = some command.name.toList :=
      stripPrefix_eq_some.mpr (canonical_toList special)
    simp only [legacy, Bool.or_eq_true, List.any_eq_true]
    exact .inr ⟨command, mem, by rw [named]; exact beq_self_eq_true _⟩

theorem filter_canonicalEntries (commands : List ChannelCommand) :
    (canonicalEntries commands).filter (keepsCanonical commands) = [] := by
  rw [filter_eq_nil_iff]
  intro own mem
  simp only [canonicalEntries, mem_cons, List.mem_map] at mem
  obtain rfl | ⟨command, mem, rfl⟩ := mem
  · have own : legacy commands "/agentix" = true := by simp [legacy]
    simp [keepsCanonical, commandOf_entrypoint, own]
  · simp [keepsCanonical, commandOf_generatedEntry, legacy_canonical mem]

theorem isSome_of_keeps {own : Json} (keeps : keepsCanonical commands own = true) :
    (commandOf own).isSome := by
  rw [keepsCanonical] at keeps
  cases found : commandOf own with
  | none => simp [found] at keeps
  | some name => rfl

theorem isSome_canonicalEntries {own : Json} (mem : own ∈ canonicalEntries commands) :
    (commandOf own).isSome := by
  simp only [canonicalEntries, mem_cons, List.mem_map] at mem
  obtain rfl | ⟨command, -, rfl⟩ := mem <;> rfl

theorem mergeSlash_again (merges : mergeSlash commands (.array slash) = .ok merged)
    (own : List Json) (entries : own = [] ∨ own = canonicalEntries commands) :
    mergeSlash commands (.array (slash.filter (keepsCanonical commands) ++ own)) = .ok merged := by
  obtain ⟨_, same, -, valid, short, rfl⟩ := mergeSlash_eq_ok.mp merges
  cases same
  have again : (slash.filter (keepsCanonical commands) ++ own).filter (keepsCanonical commands) =
      slash.filter (keepsCanonical commands) := by
    rw [filter_append, List.filter_filter]
    simp only [Bool.and_self]
    obtain rfl | rfl := entries
    · rw [filter_nil, append_nil]
    · rw [filter_canonicalEntries, append_nil]
  refine mergeSlash_eq_ok.mpr ⟨_, rfl, fun value mem => ?_, valid, by rwa [again], by rw [again]⟩
  obtain mem | mem := mem_append.mp mem
  · exact isSome_of_keeps (mem_filter.mp mem).2
  · obtain rfl | rfl := entries
    · cases mem
    · exact isSome_canonicalEntries mem

theorem stable_mergeBot : Stable mergeBot := by
  intro value edited edits
  cases value with
  | array bot =>
    cases edits
    by_cases present : bot.any isCommandsScope = true
    · simp [mergeBot, present]
    · simp [mergeBot, present, isCommandsScope]
  | _ => cases edits

/-- The edit of the scopes. -/
def mergeScopes : Json → Fallible Json :=
  entry "oauth_config" (.object []) (entry "scopes" (.object []) (entry "bot" (.array []) mergeBot))

theorem stable_mergeScopes : Stable mergeScopes :=
  stable_entry (stable_entry (stable_entry stable_mergeBot))

theorem mergeCommandManifest_eq_ok {remote : Json} :
    mergeCommandManifest remote commands = .ok merged ↔ socketMode remote = true ∧ ∃ edited,
      entry "features" (.object []) (entry "slash_commands" (.array []) (mergeSlash commands)) remote =
        .ok edited ∧ mergeScopes edited = .ok merged := by
  simp only [mergeCommandManifest, mergeScopes, bind_ok, ensure_ok]
  constructor
  · rintro ⟨⟨⟩, socket, edited, first, second⟩
    exact ⟨socket, edited, first, second⟩
  · rintro ⟨socket, edited, first, second⟩
    exact ⟨⟨⟩, socket, edited, first, second⟩

end Canonical

section Merges

variable {commands : List ChannelCommand} {remote merged : Json} {slash slash' : List Json}

theorem socketMode_set {fields : Entries String Json} {key : String} (ne : "settings" ≠ key)
    (value : Json) : socketMode (.object (Entries.set fields key value)) = socketMode (.object fields) := by
  simp only [socketMode, isObject, index_object, Entries.get_set_of_ne ne]

theorem Has.socketMode (has : Has remote slash) (slash' : List Json) :
    Slack.socketMode (Slack.withSlash slash' remote) = Slack.socketMode remote := by
  obtain ⟨fields, features, rfl, present, commands⟩ := has
  simp only [Slack.withSlash, present]
  exact socketMode_set (by decide) _

theorem Has.mergeScopes (has : Has remote slash) (fixed : Slack.mergeScopes remote = .ok remote)
    (slash' : List Json) :
    Slack.mergeScopes (Slack.withSlash slash' remote) = .ok (Slack.withSlash slash' remote) := by
  obtain ⟨fields, features, rfl, present, commands⟩ := has
  simp only [Slack.withSlash, present]
  exact entry_set_of_ne (by decide) fixed

/-- The edited field of the commands, which may have been absent. -/
theorem slashCommands_of_edit {fields features : Entries String Json}
    (first : (Entries.get fields "features").getD (.object []) = .object features)
    (second : (Entries.get features "slash_commands").getD (.array []) = .array slash) :
    slashCommands (.object fields) = slash := by
  have inner : ((Json.object features).index "slash_commands").asArray.getD [] = slash := by
    rw [index_object]
    cases present : Entries.get features "slash_commands" with
    | none =>
      rw [present] at second
      cases second
      rfl
    | some found =>
      rw [present] at second
      rw [getD_some, show found = .array slash from second]
      rfl
  rw [slashCommands, index_object]
  cases present : Entries.get fields "features" with
  | none =>
    rw [present] at first
    cases first
    exact inner
  | some found =>
    rw [present] at first
    rw [getD_some, show found = .object features from first]
    exact inner

theorem canonical_spec (merges : mergeCommandManifest remote commands = .ok merged) :
    mergeSlash commands (.array (slashCommands remote)) =
        .ok (.array ((slashCommands remote).filter (keepsCanonical commands) ++
          canonicalEntries commands)) ∧
      Has merged ((slashCommands remote).filter (keepsCanonical commands) ++
        canonicalEntries commands) ∧
      socketMode merged = true ∧ mergeScopes merged = .ok merged := by
  obtain ⟨socket, edited, first, second⟩ := mergeCommandManifest_eq_ok.mp merges
  obtain ⟨fields, found, rfl, inner, rfl⟩ := entry_eq_ok.mp first
  obtain ⟨features, value, present, edits, rfl⟩ := entry_eq_ok.mp inner
  obtain ⟨slash, array, named, valid, short, rfl⟩ := mergeSlash_eq_ok.mp edits
  have commands' := slashCommands_of_edit present array
  have has : Has (.object (Entries.set fields "features" (.object (Entries.set features
      "slash_commands" (.array (slash.filter (keepsCanonical commands) ++
        canonicalEntries commands))))))
      (slash.filter (keepsCanonical commands) ++ canonicalEntries commands) :=
    ⟨_, _, rfl, Entries.get_set_self, Entries.get_set_self⟩
  obtain ⟨edited, scopes, same, -, rfl⟩ := entry_eq_ok.mp second
  cases same
  rw [commands']
  refine ⟨by rw [← array]; exact edits, has.set (by decide) _, ?_, stable_mergeScopes _ _ second⟩
  rw [socketMode_set (by decide), socketMode_set (by decide)]
  exact socket

theorem canonical_of_has (has : Has remote slash) (socket : socketMode remote = true)
    (merges : mergeSlash commands (.array slash) = .ok (.array slash'))
    (fixed : mergeScopes remote = .ok remote) :
    mergeCommandManifest remote commands = .ok (withSlash slash' remote) := by
  refine mergeCommandManifest_eq_ok.mpr ⟨socket, _, ?_, has.mergeScopes fixed slash'⟩
  obtain ⟨fields, features, rfl, present, commands'⟩ := has
  simp only [withSlash, present]
  refine entry_eq_ok.mpr ⟨fields, _, rfl, ?_, rfl⟩
  rw [present, getD_some]
  refine entry_eq_ok.mpr ⟨features, _, rfl, ?_, rfl⟩
  rw [commands', getD_some]
  exact merges

theorem canonical_again (merges : mergeCommandManifest remote commands = .ok merged) :
    mergeCommandManifest merged commands = .ok merged := by
  obtain ⟨slash, has, socket, fixed⟩ := canonical_spec merges
  have again := canonical_of_has has socket (mergeSlash_again slash _ (.inr rfl)) fixed
  rwa [has.withSlash_self] at again

/-! ## The merge with affixes -/

variable {affixes : CommandAffixes}

/-- What the merge keeps: what is not managed with the affixes or by the canonical merge. -/
def keeps (affixes : CommandAffixes) (commands : List ChannelCommand) (value : Json) : Bool :=
  keepsCanonical commands value && (affixes.isDefault || !managed affixes commands value)

theorem retainSlash_eq_array {value : Json} (retains : retainSlash affixes commands value = .ok (.array slash')) :
    ∃ slash, value = .array slash ∧ slash' = slash.filter fun own => !managed affixes commands own := by
  cases value with
  | array slash =>
    cases retains
    exact ⟨slash, rfl, rfl⟩
  | _ => cases retains

theorem get_of_getD {fields : Entries String Json} {key : String} {value : Json}
    (found : (Entries.get fields key).getD .null = value) (ne : value ≠ .null) :
    Entries.get fields key = some value := by
  cases present : Entries.get fields key with
  | none =>
    rw [present] at found
    exact absurd found.symm ne
  | some own =>
    rw [present] at found
    exact congrArg some found

/-- A manifest whose commands are filtered and merged has some. -/
theorem retained_spec {source : Json}
    (retains : indexMut "features" (indexMut "slash_commands" (retainSlash affixes commands)) remote =
      .ok source) (merges : mergeCommandManifest source commands = .ok merged) :
    ∃ slash, Has remote slash ∧
      source = withSlash (slash.filter fun value => !managed affixes commands value) remote := by
  obtain ⟨fields, found, ofRemote, inner, rfl⟩ := indexMut_eq_ok.mp retains
  obtain ⟨features, value, ofFeatures, edits, rfl⟩ := indexMut_eq_ok.mp inner
  obtain ⟨-, edited, first, -⟩ := mergeCommandManifest_eq_ok.mp merges
  obtain ⟨_, found, same, inner', -⟩ := entry_eq_ok.mp first
  cases same
  rw [Entries.get_set_self, getD_some] at inner'
  obtain ⟨_, value', same, merged', -⟩ := entry_eq_ok.mp inner'
  cases same
  rw [Entries.get_set_self, getD_some] at merged'
  obtain ⟨_, rfl, -⟩ := mergeSlash_eq_ok.mp merged'
  obtain ⟨slash, array, rfl⟩ := retainSlash_eq_array edits
  have commands' := get_of_getD array (by simp)
  have present := get_of_getD (object_of_fieldsOf ofFeatures commands') (by simp)
  have object := object_of_fieldsOf ofRemote present
  subst object
  refine ⟨slash, ⟨fields, features, rfl, present, commands'⟩, ?_⟩
  simp only [withSlash, present]

theorem rename_generatedEntry (command : ChannelCommand) (slash slash' : String) :
    rename slash' (generatedEntry command slash) = .ok (generatedEntry command slash') := by
  simp [rename, generatedEntry, indexMut, Entries.set, bind, Except.bind, pure, Except.pure]

theorem rename_entrypoint (slash slash' : String) :
    rename slash' (entrypoint slash) = .ok (entrypoint slash') := by
  simp [rename, entrypoint, indexMut, Entries.set, bind, Except.bind, pure, Except.pure]

theorem mapM_rename {entries : List Json} :
    ((commands.map fun command => generatedEntry command (canonical command.name)).zip commands).mapM
      (fun (value, command) => do rename (← affixes.encode command.name) value) = .ok entries ↔
    entries = (commands.map fun command => generatedEntry command (affixes.slash command.name)) ∧
      ∀ command ∈ commands, affixes.encode command.name = .ok (affixes.slash command.name) := by
  induction commands generalizing entries with
  | nil =>
    simp only [map_nil, zip_nil_left, mapM_nil, pure_ok]
    exact ⟨fun same => ⟨same.symm, fun _ mem => by cases mem⟩, fun both => both.1.symm⟩
  | cons command commands ih =>
    simp only [map_cons, zip_cons_cons, mapM_cons, bind_ok, pure_ok,
      ih, forall_mem_cons]
    constructor
    · rintro ⟨first, ⟨slash, encodes, renamed⟩, rest, ⟨rfl, each⟩, rfl⟩
      have same := (encode_eq_ok.mp encodes).1
      subst same
      rw [rename_generatedEntry, Except.ok.injEq] at renamed
      subst renamed
      exact ⟨rfl, encodes, each⟩
    · rintro ⟨rfl, encodes, each⟩
      exact ⟨_, ⟨_, encodes, rename_generatedEntry ..⟩, _, ⟨rfl, each⟩, rfl⟩

theorem renameSlash_eq_ok {kept : List Json} : renameSlash affixes commands
      (.array (kept ++ canonicalEntries commands)) = .ok merged ↔
    merged = .array (kept ++ generated affixes commands) ∧
      ∀ name ∈ "agentix" :: commands.map ChannelCommand.name,
        affixes.encode name = .ok (affixes.slash name) := by
  have count : (kept ++ canonicalEntries commands).length - commands.length - 1 = kept.length := by
    simp only [length_append, canonicalEntries, length_cons, length_map]
    omega
  have entries : (kept ++ canonicalEntries commands).drop kept.length = canonicalEntries commands :=
    drop_left
  have rest : (kept ++ canonicalEntries commands).drop (kept.length + 1) =
      commands.map fun command => generatedEntry command (canonical command.name) := by
    rw [← drop_drop, entries]
    rfl
  have first : ∀ slash, ((canonicalEntries commands).take 1).mapM (rename slash) =
      .ok [entrypoint slash] := by
    intro slash
    simp [canonicalEntries, rename_entrypoint, bind, Except.bind, pure, Except.pure]
  simp only [renameSlash, count, entries, rest, take_left, bind_ok, pure_ok, first,
    mapM_rename, Except.ok.injEq, forall_mem_cons, List.forall_mem_map]
  constructor
  · rintro ⟨slash, encodes, _, rfl, _, ⟨rfl, each⟩, rfl⟩
    have same := (encode_eq_ok.mp encodes).1
    subst same
    exact ⟨by rw [append_assoc]; rfl, encodes, each⟩
  · rintro ⟨rfl, encodes, each⟩
    exact ⟨_, encodes, _, rfl, _, ⟨rfl, each⟩, by rw [append_assoc]; rfl⟩

theorem catalogValid_iff : catalogValid commands = true ↔
    (∀ command ∈ commands, validName command.name = true ∧ command.description ≠ "" ∧
      command.description.toList.length ≤ 100) ∧ (commands.map ChannelCommand.name).Nodup := by
  simp [catalogValid, and_assoc]

theorem generated_default (default : affixes.isDefault = true) :
    generated affixes commands = canonicalEntries commands := by
  have entrypoint : affixes.slash "agentix" = "/agentix" := by
    rw [slash_default default]
    rfl
  simp only [generated, canonicalEntries, entrypoint, slash_default default]

theorem encode_default (default : affixes.isDefault = true) {name : String}
    (valid : validName name = true) : affixes.encode name = .ok (affixes.slash name) := by
  refine encode_eq_ok.mpr ⟨rfl, ?_, valid⟩
  rw [slash_default default]
  simp only [validName, Bool.and_eq_true, decide_eq_true_eq] at valid
  by_cases special : name = "rename" ∨ name = "status"
  · obtain rfl | rfl := special <;> decide
  · rw [canonical_toList (not_or.mp special), length_cons]
    omega

theorem managed_generated (named : affixes.isDefault = false)
    (encodes : ∀ name ∈ "agentix" :: commands.map ChannelCommand.name,
      affixes.encode name = .ok (affixes.slash name)) {value : Json}
    (mem : value ∈ generated affixes commands) : managed affixes commands value = true := by
  have decoded : ∀ name ∈ "agentix" :: commands.map ChannelCommand.name,
      affixes.decode (affixes.slash name) = some name := fun name mem =>
    decode_slash (encode_eq_ok.mp (encodes name mem)).2.2 (.inl named)
  simp only [generated, mem_cons, List.mem_map] at mem
  obtain rfl | ⟨command, mem, rfl⟩ := mem
  · simp [managed, commandOf_entrypoint, decoded "agentix" mem_cons_self]
  · have own := decoded command.name (mem_cons_of_mem _ (mem_map_of_mem mem))
    simp only [managed, commandOf_generatedEntry, bind_some, own, any_some,
      Bool.or_eq_true, List.any_eq_true]
    exact .inr ⟨command, mem, beq_self_eq_true _⟩

theorem mergeManifest_spec (merges : affixes.mergeManifest remote commands = .ok merged) :
    Has merged ((slashCommands remote).filter (keeps affixes commands) ++
        generated affixes commands) ∧ catalogValid commands = true ∧
      (∀ name ∈ "agentix" :: commands.map ChannelCommand.name,
        affixes.encode name = .ok (affixes.slash name)) ∧
      affixes.mergeManifest merged commands = .ok merged := by
  cases default : affixes.isDefault with
  | true =>
    have only : affixes.mergeManifest = mergeCommandManifest := by
      funext remote commands
      simp only [CommandAffixes.mergeManifest, default, if_true]
    have kept : keeps affixes commands = keepsCanonical commands := by
      funext value
      simp [keeps, default]
    rw [only] at merges ⊢
    rw [kept, generated_default default]
    obtain ⟨slash, has, -, -⟩ := canonical_spec merges
    obtain ⟨_, -, -, valid, -⟩ := mergeSlash_eq_ok.mp slash
    refine ⟨has, valid, fun name mem => encode_default default ?_, canonical_again merges⟩
    obtain rfl | listed := mem_cons.mp mem
    · decide
    · obtain ⟨command, own, rfl⟩ := mem_map.mp listed
      exact ((catalogValid_iff.mp valid).1 command own).1
  | false =>
    simp only [CommandAffixes.mergeManifest, default, Bool.false_eq_true, if_false, bind_ok] at merges ⊢
    obtain ⟨source, retains, middle, merges, renames⟩ := merges
    obtain ⟨slash, has, rfl⟩ := retained_spec retains merges
    obtain ⟨slashes, has', socket, fixed⟩ := canonical_spec merges
    rw [(has.withSlash _).slashCommands] at slashes has'
    have kept : (slash.filter fun value => !managed affixes commands value).filter
        (keepsCanonical commands) = slash.filter (keeps affixes commands) := by
      rw [List.filter_filter]
      congr 1
      funext value
      simp [keeps, default]
    rw [kept] at slashes has'
    obtain ⟨_, -, -, valid, -⟩ := mergeSlash_eq_ok.mp slashes
    obtain ⟨value, edits⟩ := edit_of_has has' renames
    have encodes := (renameSlash_eq_ok.mp edits).2
    have renamed : renameSlash affixes commands (.array (slash.filter (keeps affixes commands) ++
        canonicalEntries commands)) = .ok _ := renameSlash_eq_ok.mpr ⟨rfl, encodes⟩
    have same : merged = withSlash (slash.filter (keeps affixes commands) ++
        generated affixes commands) middle := by
      have again := indexMut_of_has has' renamed
      rw [renames, Except.ok.injEq] at again
      exact again
    have final : Has merged (slash.filter (keeps affixes commands) ++ generated affixes commands) := by
      rw [same]
      exact has'.withSlash _
    rw [has.slashCommands]
    refine ⟨final, valid, encodes, ?_⟩
    -- a second merge takes its own entries out, and adds them again
    have retained : retainSlash affixes commands (.array (slash.filter (keeps affixes commands) ++
        generated affixes commands)) = .ok (.array (slash.filter (keeps affixes commands))) := by
      have stay : (slash.filter (keeps affixes commands)).filter
          (fun value => !managed affixes commands value) = slash.filter (keeps affixes commands) := by
        refine filter_eq_self.mpr fun value mem => ?_
        have keeps := (mem_filter.mp mem).2
        simp only [Slack.keeps, default, Bool.false_or, Bool.and_eq_true] at keeps
        exact keeps.2
      have leave : (generated affixes commands).filter
          (fun value => !managed affixes commands value) = [] := by
        refine filter_eq_nil_iff.mpr fun value mem => ?_
        rw [managed_generated default encodes mem]
        decide
      rw [retainSlash, filter_append, stay, leave, append_nil]
    have slashes' : mergeSlash commands (.array (slash.filter (keeps affixes commands))) =
        .ok (.array (slash.filter (keeps affixes commands) ++ canonicalEntries commands)) := by
      have again := mergeSlash_again slashes [] (.inl rfl)
      rwa [kept, append_nil] at again
    have socket' : socketMode merged = true := by
      rw [same, has'.socketMode]
      exact socket
    have fixed' : mergeScopes merged = .ok merged := by
      rw [same]
      exact has'.mergeScopes fixed _
    refine ⟨_, indexMut_of_has final retained, _, canonical_of_has (final.withSlash _) ?_ slashes' ?_, ?_⟩
    · rw [final.socketMode]
      exact socket'
    · exact final.mergeScopes fixed' _
    · rw [final.withSlash_withSlash]
      refine (indexMut_of_has (final.withSlash _) renamed).trans ?_
      rw [final.withSlash_withSlash, final.withSlash_self]

/-! ## Routes -/

/-- The commands of a catalogue are in the manifest, and each of them leads back to its name. -/
structure Routes (affixes : CommandAffixes) (commands : List ChannelCommand)
    (remote merged : Json) : Prop where
  once : ∀ name ∈ "agentix" :: commands.map ChannelCommand.name, ∃ slash,
    affixes.encode name = .ok slash ∧
      (slashCommands merged).countP (fun value => commandOf value == some slash) = 1
  decoded : ∀ name ∈ "agentix" :: commands.map ChannelCommand.name, ∀ slash,
    affixes.encode name = .ok slash → affixes.decode slash = some name
  distinct : ∀ name ∈ commands.map ChannelCommand.name, ∀ other ∈ commands.map ChannelCommand.name,
    affixes.encode name = affixes.encode other → name = other
  kept : ∃ added, slashCommands merged =
      (slashCommands remote).filter (keeps affixes commands) ++ added ∧
    added.map commandOf = ("agentix" :: commands.map ChannelCommand.name).map
      fun name => (affixes.encode name).toOption
  again : affixes.mergeManifest merged commands = .ok merged

/-- The entries that are kept have other commands than those that are added. -/
theorem commandOf_ne_of_keeps {name : String} {value : Json} (keeps : keeps affixes commands value = true)
    (mem : name ∈ "agentix" :: commands.map ChannelCommand.name)
    (decoded : affixes.decode (affixes.slash name) = some name) :
    commandOf value ≠ some (affixes.slash name) := by
  intro same
  simp only [Slack.keeps, keepsCanonical, same, any_some, Bool.and_eq_true, Bool.not_eq_true',
    Bool.or_eq_true] at keeps
  obtain ⟨canonical, managed⟩ := keeps
  obtain default | named := managed
  · have legacy : legacy commands (affixes.slash name) = true := by
      rw [slash_default default]
      obtain rfl | listed := mem_cons.mp mem
      · simp [Slack.legacy, Slack.canonical]
      · obtain ⟨command, own, rfl⟩ := mem_map.mp listed
        exact legacy_canonical own
    rw [canonical] at legacy
    cases legacy
  · have found : Slack.managed affixes commands value = true := by
      simp only [Slack.managed, same, bind_some, decoded, any_some, Bool.or_eq_true,
        List.any_eq_true, beq_iff_eq]
      obtain rfl | listed := mem_cons.mp mem
      · exact .inl (.inl rfl)
      · obtain ⟨command, own, rfl⟩ := mem_map.mp listed
        exact .inr ⟨command, own, rfl⟩
    rw [named] at found
    cases found

theorem generated_commandOf : (generated affixes commands).map commandOf =
    ("agentix" :: commands.map ChannelCommand.name).map fun name => some (affixes.slash name) := by
  simp only [generated, map_cons, List.map_map, commandOf_entrypoint]
  rfl

/-- A merge routes its commands exactly when there are affixes, or no name of the catalogue has the
prefix of the former commands. -/
theorem routes_iff (merges : affixes.mergeManifest remote commands = .ok merged)
    (plain : ∀ command ∈ commands, command.name ≠ "agentix") :
    Routes affixes commands remote merged ↔
      affixes.isDefault = false ∨ ∀ command ∈ commands, ¬ Legacy command.name := by
  obtain ⟨has, valid, encodes, again⟩ := mergeManifest_spec merges
  constructor
  · intro routes
    cases default : affixes.isDefault with
    | false => exact .inl rfl
    | true =>
      refine .inr fun command member legacy => ?_
      have listed := mem_cons_of_mem "agentix" (List.mem_map_of_mem (f := ChannelCommand.name) member)
      exact decode_legacy default legacy (routes.decoded _ listed _ (encodes _ listed))
  · intro readable
    have decoded : ∀ name ∈ "agentix" :: commands.map ChannelCommand.name,
        affixes.decode (affixes.slash name) = some name := by
      intro name member
      refine decode_slash (encode_eq_ok.mp (encodes name member)).2.2 (readable.imp_right fun each => ?_)
      obtain rfl | listed := mem_cons.mp member
      · unfold Legacy
        decide
      · obtain ⟨command, own, rfl⟩ := List.mem_map.mp listed
        exact each command own
    have injective : ∀ name ∈ "agentix" :: commands.map ChannelCommand.name,
        ∀ other ∈ "agentix" :: commands.map ChannelCommand.name,
        affixes.slash name = affixes.slash other → name = other := by
      intro name member other member' same
      have read := decoded name member
      rw [same, decoded other member', some.injEq] at read
      exact read.symm
    refine ⟨fun name member => ⟨_, encodes name member, ?_⟩, fun name member slash encoded => ?_,
      fun name member other member' same => ?_, ⟨_, has.slashCommands, ?_⟩, again⟩
    · have others : ((slashCommands remote).filter (keeps affixes commands)).countP
          (fun value => commandOf value == some (affixes.slash name)) = 0 := by
        refine countP_eq_zero.mpr fun value own => ?_
        rw [beq_iff_eq]
        exact commandOf_ne_of_keeps (mem_filter.mp own).2 member (decoded name member)
      have names : ("agentix" :: commands.map ChannelCommand.name).Nodup := by
        refine nodup_cons.mpr ⟨fun listed => ?_, (catalogValid_iff.mp valid).2⟩
        obtain ⟨command, own, same⟩ := List.mem_map.mp listed
        exact plain command own same
      have added : (generated affixes commands).countP
          (fun value => commandOf value == some (affixes.slash name)) =
            ((generated affixes commands).map commandOf).count (some (affixes.slash name)) := by
        rw [List.count, countP_map]
        rfl
      rw [has.slashCommands, countP_append, others, Nat.zero_add, added, generated_commandOf]
      refine count_eq_one_of_mem (names.map_on fun name member other member' same => ?_)
        (List.mem_map.mpr ⟨name, member, rfl⟩)
      exact injective name member other member' (some.inj same)
    · rw [encodes name member, Except.ok.injEq] at encoded
      exact encoded ▸ decoded name member
    · rw [encodes name (mem_cons_of_mem _ member), encodes other (mem_cons_of_mem _ member'),
        Except.ok.injEq] at same
      exact injective name (mem_cons_of_mem _ member) other (mem_cons_of_mem _ member') same
    · rw [generated_commandOf]
      refine map_congr_left fun name member => ?_
      rw [encodes name member]
      rfl

end Merges

/-- No affixes. -/
def noAffixes : CommandAffixes := ⟨[], [], rfl⟩

def bareManifest : Json :=
  .object [("settings", .object [("socket_mode_enabled", .bool true)])]

theorem plain_names_routed : ∃ merged,
    noAffixes.mergeManifest bareManifest [⟨"sessions", "Browse"⟩, ⟨"rename", "Rename"⟩] = .ok merged ∧
      Routes noAffixes [⟨"sessions", "Browse"⟩, ⟨"rename", "Rename"⟩] bareManifest merged :=
  ⟨_, rfl, (routes_iff rfl (by decide)).mpr (.inr (by unfold Legacy; decide))⟩

theorem legacy_name_not_routed : ¬ ∀ (affixes : CommandAffixes) (commands : List ChannelCommand)
    (remote merged : Json), (∀ command ∈ commands, command.name ≠ "agentix" ∧ command.name ≠ "claim") →
      affixes.mergeManifest remote commands = .ok merged → Routes affixes commands remote merged := by
  intro all
  have routes := all noAffixes [⟨"rename", "Rename"⟩, ⟨"agentix-rename", "Old"⟩] bareManifest _ (by decide) rfl
  have other : noAffixes.decode (noAffixes.slash "agentix-rename") ≠ some "agentix-rename" :=
    decode_legacy rfl (by unfold Legacy; decide)
  exact other (routes.decoded "agentix-rename" (by decide) _ rfl)

end Agentix.Slack
