import Agentix.TaskStore.Model

/-! # The dependency diagram of a Job

The page of a Job shows its Tasks and what they depend on.  A dependency is not drawn where the
arrows of the diagram already lead from the one Task to the other.
-/

namespace Agentix.TaskStore

open Lib

/-! ## The index

`ProjectionIndex` has the entities of the snapshot by id; of several with one id it has the last.
-/

namespace Snapshot

variable (s : Snapshot)

def indexedTask (id : String) : Fallible Task :=
  match s.tasks.reverse.find? fun t => t.id = id with
  | some t => .ok t
  | none => .error s!"not_found: {id}"

def indexedJob (id : String) : Fallible Job :=
  match s.jobs.reverse.find? fun j => j.id = id with
  | some j => .ok j
  | none => .error s!"not_found: {id}"

def indexedProject (id : String) : Fallible Project :=
  match s.projects.reverse.find? fun p => p.id = id with
  | some p => .ok p
  | none => .error s!"not_found: {id}"

def tasksByJob (job : String) : List Task := s.tasks.filter fun t => t.jobId = job

def taskPath (env : Env) (task : Task) : Fallible String := do
  let project ← s.indexedProject task.projectId
  let filename ← numberedName env task.name task.createdAt task.sequence
  pure s!"{project.directory}/Tasks/{filename}.md"

/-! ## Edges -/

/-- The search for what the prerequisites of a Task depend on, through Tasks of the Job.  The next
id to visit comes first, as it is the last of the vector. -/
def indirectPrerequisites (job : String) :
    Nat → List String → List String → List String → Fallible (List String)
  | 0, _, _, _ => .error "not ended"
  | _ + 1, [], _, indirect => .ok indirect
  | fuel + 1, id :: pending, visited, indirect =>
    if id ∈ visited then indirectPrerequisites job fuel pending visited indirect
    else do
      let ancestor ← s.indexedTask id
      -- the incoming edges of another Job are not drawn
      if ancestor.jobId = job then
        indirectPrerequisites job fuel (ancestor.dependencies.reverse ++ pending) (id :: visited)
          (ancestor.dependencies ++ indirect)
      else indirectPrerequisites job fuel pending (id :: visited) indirect

/-- As many steps as the search can take: each step visits an id that is pending, and the
prerequisites of a Task become pending once. -/
def searchSteps (task : Task) : Nat :=
  task.dependencies.length + (s.tasks.flatMap Task.dependencies).length + 1

def indirectInto (job : String) (task : Task) : Fallible (List String) :=
  if 1 < task.dependencies.length then
    s.indirectPrerequisites job (s.searchSteps task) task.dependencies.reverse [] []
  else .ok []

def edgesInto (job : String) (task : Task) : Fallible (List (String × String)) := do
  let indirect ← s.indirectInto job task
  let shown := task.dependencies.filter fun prerequisite => prerequisite ∉ indirect
  pure (shown.map fun prerequisite => (prerequisite, task.id))

/-- The edges of the diagram, from a prerequisite to the Task that depends on it. -/
def drawnEdges (job : String) : Fallible (List (String × String)) := do
  let edges ← (s.tasksByJob job).mapM (s.edgesInto job)
  pure edges.flatten

/-! ## Nodes -/

/-- Adds an id to ids in order. -/
def insertNode (id : String) : List String → List String
  | [] => [id]
  | first :: rest =>
    if id < first then id :: first :: rest
    else if id = first then first :: rest
    else first :: insertNode id rest

def drawnNodes (job : String) : List String :=
  ((s.tasksByJob job).flatMap fun task => task.id :: task.dependencies).foldl
    (fun nodes id => insertNode id nodes) []

end Snapshot

/-! ## Text -/

def mermaidLabel (text : String) : String :=
  String.ofList (text.toList.flatMap fun c =>
    if "\"&<>#`[]\\".toList.contains c then s!"#{c.toNat};".toList
    else if isControl c then [' '] else [c])

/-- `escape`: none of what replaces a character contains one that is replaced after it. -/
def escapeHtml (text : String) : String :=
  String.ofList (text.toList.flatMap fun c =>
    if c = '&' then "&amp;".toList
    else if c = '<' then "&lt;".toList
    else if c = '>' then "&gt;".toList
    else if c = '|' then "&#124;".toList
    else if c = '[' then "&#91;".toList
    else if c = ']' then "&#93;".toList
    else if c = '\r' || c = '\n' then [' '] else [c])

def TaskStatus.color : TaskStatus → String
  | todo => "#cbd5e1"
  | inProgress => "#bfdbfe"
  | blocked => "#fed7aa"
  | waitingUser => "#ddd6fe"
  | done => "#bbf7d0"
  | failed => "#fecaca"
  | cancelled => "#e2d7e7"

def TaskStatus.all : List TaskStatus :=
  [.todo, .inProgress, .blocked, .waitingUser, .done, .failed, .cancelled]

/-- `s.trim_start_matches("./")`. -/
def trimCurrent : List Char → List Char
  | '.' :: '/' :: rest => trimCurrent rest
  | text => text

def arrowLine (edge : String × String) : String := s!"    {edge.1} --> {edge.2}\n"

namespace Snapshot

variable (s : Snapshot)

/-- The line of a node.  `vaultRelativePath` is where the configuration puts a page. -/
def nodeLine (env : Env) (vaultRelativePath : String → String) (job id : String) :
    Fallible String := do
  let task ← s.indexedTask id
  let label ←
    if task.jobId = job then pure task.name
    else do
      let other ← s.indexedJob task.jobId
      pure s!"{task.name} (Job: {other.name})"
  let path ← s.taskPath env task
  let file := (vaultRelativePath path).toList.map fun c => if c = '\\' then '/' else c
  let target := (escapeHtml (String.ofList (trimCurrent file))).toList.flatMap fun c =>
    if c = '\'' then "&#39;".toList else if c = '"' then "&quot;".toList else [c]
  let link := String.ofList target
  let shown := mermaidLabel label ++ " · " ++ task.status.text
  pure ("    " ++ id ++ "[\"<a class='internal-link' data-href='" ++ link ++ "' href='" ++ link ++
    "' style='color:#1f2937'>" ++ shown ++ "</a>\"]:::status_" ++ task.status.text ++ "\n")

def jobDependencyGraph (env : Env) (vaultRelativePath : String → String) (job : String) :
    Fallible String := do
  if s.tasksByJob job = [] then pure ""
  else
    let nodes ← (s.drawnNodes job).mapM (s.nodeLine env vaultRelativePath job)
    let edges ← s.drawnEdges job
    let colors := TaskStatus.all.map fun status =>
      "    classDef status_" ++ status.text ++ " fill:" ++ status.color ++ ",stroke:" ++
        status.color ++ ",color:#1f2937\n"
    pure (String.join (["\nArrows point from prerequisites to dependent tasks.\n\n```mermaid\n",
      "flowchart TD\n"] ++ nodes ++ edges.map arrowLine ++ colors ++ ["```\n"]))

end Snapshot

end Agentix.TaskStore
