import Agentix.TaskStore.Checks

/-! # Deleting Projects and Jobs, renaming Project folders -/

namespace Agentix.TaskStore

open Lib

/-! ## Deletion -/

/-- What a deletion removes: the deleted identity and its Jobs. -/
def deletionTarget (state : Snapshot) (request : Value) (options : WriteOptions)
    (projectDelete : Bool) : Fallible (String × List String) :=
  if projectDelete then do
    let p ← state.projectIndex (← required request "project")
    let project := state.projects.get p
    checkRevision project.revision options
    pure (project.id, (state.jobs.filter fun j => j.projectId = project.id).map Job.id)
  else do
    let j ← state.jobIndex (← required request "job")
    let job := state.jobs.get j
    checkRevision job.revision options
    pure (job.id, [job.id])

/-- The high-water marks with every removed Job and Task counted. -/
def retainSequences (state : Snapshot) (jobs tasks : List String) : List (String × Nat) :=
  let afterJobs := (state.jobs.filter fun j => j.id ∈ jobs).foldl
    (fun marks j => raiseSequence marks (sequenceKey j.projectId "job" j.createdAt) j.sequence)
    state.documentSequences
  (state.tasks.filter fun t => t.id ∈ tasks).foldl
    (fun marks t => raiseSequence marks (sequenceKey t.projectId "task" t.createdAt) t.sequence)
    afterJobs

def applyDeletion (state : Snapshot) (request : Value) (options : WriteOptions)
    (projectDelete : Bool) : Fallible (Snapshot × Reply) := do
  let (id, jobs) ← deletionTarget state request options projectDelete
  let tasks := (state.tasks.filter fun t => t.jobId ∈ jobs).map Task.id
  ensure (∀ l ∈ state.leases, l.taskId ∉ tasks)
    "conflict: release active Task leases before deleting"
  ensure (∀ t ∈ state.tasks, t.id ∉ tasks → ∀ d ∈ t.dependencies, d ∉ tasks)
    "conflict: other Jobs depend on these Tasks; remove dependencies before deleting"
  let marks := retainSequences state jobs tasks
  let plans := (state.plans.filter fun p => p.taskId ∈ tasks).length
  let kept : Snapshot := { state with
    documentSequences := marks
    plans := state.plans.filter fun p => p.taskId ∉ tasks
    tasks := state.tasks.filter fun t => t.id ∉ tasks
    jobs := state.jobs.filter fun j => j.id ∉ jobs }
  let after : Snapshot := if projectDelete then
      { kept with
        issues := kept.issues.filter fun issue => issue.projectId ≠ id
        milestones := kept.milestones.filter fun milestone => milestone.projectId ≠ id
        projects := kept.projects.filter fun p => p.id ≠ id
        documentSequences := kept.documentSequences.filter fun mark => !startsWith mark.1 s!"{id}:" }
    else kept
  pure (after, .value [("id", .string id), ("deleted", .bool true), ("jobs", .integer jobs.length),
    ("tasks", .integer tasks.length), ("plans", .integer plans)])

/-! ## Renaming -/

def segments (path : String) : List String :=
  (splitOn '/' path.toList).map String.ofList

def joinSegments (parts : List String) : String :=
  String.ofList (['/'].intercalate (parts.map String.toList))

/-- `Path::new(directory).with_file_name(name)`, for a path of normal components. -/
def withFileName (directory name : String) : String :=
  let trailing := fun part : String => part = "" || part = "."
  let parts := (segments directory).reverse.dropWhile trailing
  joinSegments ((((parts.drop 1).dropWhile trailing).reverse) ++ [name])

/-- `s.replace('\\', "/")`. -/
def forwardSlashes (s : String) : String :=
  String.ofList (s.toList.map fun c => if c = '\\' then '/' else c)

/-- All components of the path are normal and it names a folder below another. -/
def validDirectory (directory : String) : Bool :=
  let parts := segments directory
  !startsWith directory "/" && parts.head? != some "." && parts.all (· != "..") &&
    parts.length ≥ 2

/-- A document below `old` moves below `new`. -/
def movedPath (old new failure path : String) : Fallible String := do
  let rest ← orElseError (stripPrefix path old) failure
  pure (new ++ rest)

/-- Project folder moves: every document path below the folder moves with it. -/
def renameProject (state : Snapshot) (request : Value) (options : WriteOptions) :
    Fallible (Snapshot × Reply) := do
  let index ← state.projectIndex (← required request "project")
  let project := state.projects.get index
  checkRevision project.revision options
  let name ← required request "name"
  ensure (shortName name = name)
    "invalid: Project folder name must be a portable name of at most 48 characters"
  let old := s!"{project.directory}/"
  let directory := (request.index "directory").asStr.getD
    (forwardSlashes (withFileName project.directory name))
  ensure (validDirectory directory) "invalid: project document directory"
  let new := s!"{directory}/"
  let row : Project := { project with
    documentDirectory := if directory ≠ s!"Projects/{name}" then some directory else none
    name
    key := name
    revision := project.revision + 1 }
  let issues ← state.issues.mapM fun issue =>
    if issue.projectId = project.id then do
      let path ← movedPath old new "invalid Issue or Milestone document path" issue.documentPath
      pure { issue with documentPath := path, revision := issue.revision + 1 }
    else pure issue
  let milestones ← state.milestones.mapM fun milestone =>
    if milestone.projectId = project.id then do
      let path ← movedPath old new "invalid Issue or Milestone document path" milestone.documentPath
      pure { milestone with documentPath := path, revision := milestone.revision + 1 }
    else pure milestone
  let jobs ← state.jobs.mapM fun job =>
    if job.projectId = project.id then do
      let path ← movedPath old new "invalid Job document path" job.documentPath
      pure { job with documentPath := path, revision := job.revision + 1 }
    else pure job
  let tasks := (state.tasks.filter fun task => task.projectId = project.id).map Task.id
  let plans ← state.plans.mapM fun plan =>
    if plan.taskId ∈ tasks then do
      let path ← movedPath old new "invalid Plan document path" plan.path
      pure { plan with path }
    else pure plan
  let projects := state.projects.modify index fun _ => row
  pure ({ state with projects, issues, milestones, jobs, plans }, .project row)

end Agentix.TaskStore
