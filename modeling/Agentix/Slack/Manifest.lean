import Agentix.Lib.Entries
import Agentix.Lib.Fallible
import Agentix.Lib.Json

/-! # The slash commands of a Slack manifest

The commands of a catalogue and the entry point are merged into the manifest of a server.  They may
have a prefix and a suffix, which are removed again from the commands of events.
-/

namespace Agentix.Slack

open Lib

structure ChannelCommand where
  name : String
  description : String
  deriving DecidableEq

def invalid : String :=
  "invalid Slack manifest or command catalog; Socket Mode must be enabled"

/-! ## Names -/

def allowed (c : Char) : Bool :=
  ('a' ≤ c && c ≤ 'z') || c.isDigit || c == '_' || c == '-'

def validName (name : String) : Bool :=
  name ≠ "" && name.toList.length ≤ 23 && name.toList.all allowed

def stripPrefix (text start : List Char) : Option (List Char) :=
  if start.isPrefixOf text then some (text.drop start.length) else none

def stripSuffix (text ending : List Char) : Option (List Char) :=
  if ending.isSuffixOf text then some (text.take (text.length - ending.length)) else none

/-- `CommandAffixes`, whose characters `new` has checked. -/
structure CommandAffixes where
  before : List Char
  after : List Char
  plain : (before ++ after).all allowed = true

namespace CommandAffixes

def new (before after : String) : Fallible CommandAffixes :=
  if plain : (before.toList ++ after.toList).all allowed = true then
    .ok ⟨before.toList, after.toList, plain⟩
  else .error "Slack command affixes allow only lowercase letters, digits, hyphens and underscores"

def isDefault (affixes : CommandAffixes) : Bool :=
  affixes.before.isEmpty && affixes.after.isEmpty

def encode (affixes : CommandAffixes) (name : String) : Fallible String := do
  let command :=
    if affixes.isDefault && (name == "rename" || name == "status") then "/agentix-" ++ name
    else "/" ++ String.ofList affixes.before ++ name ++ String.ofList affixes.after
  ensure (command.toList.length ≤ 32 ∧ validName name)
    "Slack command including affixes exceeds 32 characters or is invalid"
  pure command

def decode (affixes : CommandAffixes) (command : String) : Option String := do
  let name ←
    if affixes.isDefault then
      (stripPrefix command.toList "/agentix-".toList).or (stripPrefix command.toList ['/'])
    else do
      let rest ← stripPrefix command.toList ['/']
      let rest ← stripPrefix rest affixes.before
      stripSuffix rest affixes.after
  if validName (String.ofList name) then some (String.ofList name) else none

end CommandAffixes

/-! ## Values -/

/-- `value.as_object_mut()` and an edit of `entry(key).or_insert_with(..)`. -/
def entry (key : String) (default : Json) (edit : Json → Fallible Json) : Json → Fallible Json
  | .object fields => do
    let value ← edit ((Entries.get fields key).getD default)
    pure (.object (Entries.set fields key value))
  | _ => .error invalid

/-- An edit of `value[key]`: it makes an object of null, and panics at anything else. -/
def indexMut (key : String) (edit : Json → Fallible Json) : Json → Fallible Json
  | .null => do
    let value ← edit .null
    pure (.object [(key, value)])
  | .object fields => do
    let value ← edit ((Entries.get fields key).getD .null)
    pure (.object (Entries.set fields key value))
  | _ => .error "cannot access key in JSON value"

/-- `value["command"].as_str()`. -/
def commandOf (value : Json) : Option String :=
  (value.index "command").asStr

def generatedEntry (command : ChannelCommand) (slash : String) : Json :=
  .object [("command", .string slash), ("description", .string command.description),
    ("should_escape", .bool false)]

def entrypoint (slash : String) : Json :=
  .object [("command", .string slash),
    ("description", .string "Send a command or prompt to Agentix"),
    ("usage_hint", .string "/sessions or your prompt"), ("should_escape", .bool false)]

/-! ## Merging -/

/-- A command that the canonical merge replaces. -/
def legacy (commands : List ChannelCommand) (name : String) : Bool :=
  name == "/claim" || name == "/agentix" || "/agentix-".toList.isPrefixOf name.toList ||
    commands.any fun command => stripPrefix name.toList ['/'] == some command.name.toList

/-- The name of a catalogue command where there are no affixes. -/
def canonical (name : String) : String :=
  if name == "rename" || name == "status" then "/agentix-" ++ name else "/" ++ name

def catalogValid (commands : List ChannelCommand) : Bool :=
  commands.all (fun command => validName command.name && command.description ≠ "" &&
    command.description.toList.length ≤ 100) && (commands.map ChannelCommand.name).Nodup

def mergeSlash (commands : List ChannelCommand) : Json → Fallible Json
  | .array slash => do
    ensure (slash.all fun value => (commandOf value).isSome) invalid
    let kept := slash.filter fun value => (commandOf value).any fun name => !legacy commands name
    ensure (catalogValid commands) invalid
    let slash := kept ++ entrypoint "/agentix" ::
      commands.map fun command => generatedEntry command (canonical command.name)
    ensure (slash.length ≤ 100) invalid
    pure (.array slash)
  | _ => .error invalid

def isCommandsScope : Json → Bool
  | .string scope => scope == "commands"
  | _ => false

def mergeBot : Json → Fallible Json
  | .array bot =>
    .ok (.array (if bot.any isCommandsScope then bot else bot ++ [.string "commands"]))
  | _ => .error invalid

def isObject : Json → Bool
  | .object _ => true
  | _ => false

def socketMode (value : Json) : Bool :=
  isObject value && ((value.index "settings").index "socket_mode_enabled").isTrue

def mergeCommandManifest (remote : Json) (commands : List ChannelCommand) : Fallible Json := do
  ensure (socketMode remote) invalid
  let merged ← entry "features" (.object [])
    (entry "slash_commands" (.array []) (mergeSlash commands)) remote
  entry "oauth_config" (.object []) (entry "scopes" (.object [])
    (entry "bot" (.array []) mergeBot)) merged

def managed (affixes : CommandAffixes) (commands : List ChannelCommand) (value : Json) : Bool :=
  ((commandOf value).bind affixes.decode).any fun name =>
    name == "agentix" || name == "claim" || commands.any fun command => command.name == name

def retainSlash (affixes : CommandAffixes) (commands : List ChannelCommand) : Json → Fallible Json
  | .array slash => .ok (.array (slash.filter fun value => !managed affixes commands value))
  | value => .ok value

/-- `entry["command"] = ..` for an entry of the canonical merge. -/
def rename (slash : String) (value : Json) : Fallible Json :=
  indexMut "command" (fun _ => .ok (.string slash)) value

def renameSlash (affixes : CommandAffixes) (commands : List ChannelCommand) :
    Json → Fallible Json
  | .array slash => do
    let generated := slash.length - commands.length - 1
    let agentix ← affixes.encode "agentix"
    let entrypoints ← ((slash.drop generated).take 1).mapM (rename agentix)
    let entries ← ((slash.drop (generated + 1)).zip commands).mapM fun (value, command) => do
      rename (← affixes.encode command.name) value
    pure (.array (slash.take generated ++ entrypoints ++ entries))
  | _ => .error "validated manifest"

def CommandAffixes.mergeManifest (affixes : CommandAffixes) (remote : Json)
    (commands : List ChannelCommand) : Fallible Json :=
  if affixes.isDefault then mergeCommandManifest remote commands
  else do
    let source ← indexMut "features"
      (indexMut "slash_commands" (retainSlash affixes commands)) remote
    let merged ← mergeCommandManifest source commands
    indexMut "features" (indexMut "slash_commands" (renameSlash affixes commands)) merged

end Agentix.Slack
