import Agentix.MemoryStore.Run

/-! # The search index

The full-text rows and the vectors of memories: what a save does to them, how embeddings come in,
and what a vector search reads.
-/

namespace Agentix.MemoryStore

open Lib

/-- What the index takes from elsewhere: the tokenizer, the hash, and floating-point numbers by
their bits. -/
class Indexing where
  /-- `TOKENIZER.cut_for_search(text, false)` -/
  cutForSearch : String → List String
  /-- `char::is_alphanumeric` -/
  isAlphanumeric : Char → Bool
  /-- `retrieval::digest` -/
  digest : String → String
  finite : UInt32 → Bool
  /-- The norm is positive and finite. -/
  normed : List UInt32 → Bool
  /-- A value divided by the norm. -/
  scaled : List UInt32 → UInt32 → UInt64
  /-- The score of a stored vector, by its place in the order of `f64`; `0.0` is at 0. -/
  similarity : List UInt64 → List UInt64 → Int

/-! ## Texts -/

/-- The parts of an identifier in snake case or camel case, and the part that is read. -/
def components : List Char → String → List String
  | [], component => if component = "" then [] else [component]
  | c :: rest, component =>
    let ends := (c = '_' || (c.isUpper && component ≠ "")) && component ≠ ""
    let next := if ends then "" else component
    let later := components rest (if c = '_' then next else next.push c.toLower)
    if ends then component :: later else later

/-- `text.split(..)` at every character that is no part of an identifier. -/
def identifiers (text : String) : List String :=
  (text.toList.splitOnP fun c => !(c.isAlphanum || c = '_')).filterMap fun part =>
    if part = [] then none else some (String.ofList part)

variable [Environment] [Indexing]

/-- `retrieval::tokens`, as an ordered set. -/
def tokens (text : String) : List String :=
  let words := ((Indexing.cutForSearch text).map Environment.toLowercase).filter fun word =>
    word.toList.any Indexing.isAlphanumeric
  let parts := (identifiers text).flatMap fun identifier =>
    Environment.toLowercase identifier :: components identifier.toList ""
  (words ++ parts).dedup.mergeSort fun a b => decide (a ≤ b)

def indexText (text : String) : String :=
  " ".intercalate (tokens text)

omit [Environment] in
/-- `retrieval::project_token` -/
def projectToken (project : String) : String :=
  "p" ++ Indexing.digest project

/-! ## Tables -/

structure FtsRow where
  memoryId : String
  projectToken : String
  title : String
  body : String
  tags : String
  scope : String
  deriving DecidableEq

structure VectorRow where
  memoryId : String
  projectId : String
  generation : Nat
  revision : Nat
  vector : List UInt64
  deriving DecidableEq

structure EmbeddingProfile where
  projectId : String
  generation : Nat
  fingerprint : String
  /-- 0 until the first answer of the provider. -/
  dimensions : Nat
  deriving DecidableEq

structure SearchIndex where
  memoryFts : List FtsRow := []
  memoryVectors : List VectorRow := []
  embeddingProfiles : List EmbeddingProfile := []
  deriving DecidableEq

def Memory.ftsRow (memory : Memory) : FtsRow where
  memoryId := memory.id
  projectToken := projectToken memory.projectId
  title := indexText memory.content.title
  body := indexText (memory.content.conclusion ++ " " ++ memory.content.rationale ++ " " ++
    " ".intercalate memory.content.conditions)
  tags := indexText (" ".intercalate memory.content.tags)
  scope := indexText memory.content.scope

/-- `status='active'`, and the time of validity is not over. -/
def Memory.embeddable (memory : Memory) (now : Int) : Bool :=
  memory.status = .active && memory.content.validUntil.all fun expiry => now < expiry

namespace SearchIndex

/-! ## Saves -/

def indexMemory (index : SearchIndex) (memory : Memory) : SearchIndex :=
  let others := index.memoryFts.filter fun row => row.memoryId ≠ memory.id
  { index with
    memoryFts := if memory.status.searchable then others ++ [memory.ftsRow] else others }

/-- What `store::save` does after it wrote the version. -/
def saved (index : SearchIndex) (memory : Memory) : SearchIndex :=
  let memoryVectors := index.memoryVectors.filter fun row => row.memoryId ≠ memory.id
  indexMemory { index with memoryVectors } memory

def follow (index : SearchIndex) (before after : Database) : SearchIndex :=
  (after.memoryVersions.drop before.memoryVersions.length).foldl saved index

/-- `MemoryStore::reindex_fts`, a page of it. -/
def reindexFts (index : SearchIndex) (db : Database) (projectId after : String) (limit : Nat) :
    Fallible SearchIndex := do
  ensure (1 ≤ limit ∧ limit ≤ 100) "invalid: reindex page size"
  let rows := (db.memories.filter fun m => m.projectId = projectId && decide (after < m.id)).mergeSort
    fun a b => decide (a.id ≤ b.id)
  return (rows.take limit).foldl indexMemory index

/-! ## Embeddings -/

omit [Environment] [Indexing] in
def profile (index : SearchIndex) (projectId : String) : Option EmbeddingProfile :=
  rowOf index.embeddingProfiles EmbeddingProfile.projectId projectId

omit [Environment] [Indexing] in
/-- A configuration change starts a new generation, even when returning to an old profile. -/
def reserveEmbedding (index : SearchIndex) (projectId fingerprint : String)
    (dimensions : Option Nat) : Fallible (Nat × SearchIndex) := do
  ensure (projectId ≠ "" ∧ fingerprint ≠ "" ∧ fits fingerprint 4096 ∧
      dimensions.all fun d => 1 ≤ d && d ≤ 16384)
    "invalid: embedding profile"
  let prior := index.profile projectId
  match prior.filter fun p => p.fingerprint = fingerprint && dimensions.all fun d => p.dimensions = d with
  | some same => return (same.generation, index)
  | none =>
    let generation := (prior.map fun p => p.generation + 1).getD 1
    let row : EmbeddingProfile :=
      { projectId, generation, fingerprint, dimensions := dimensions.getD 0 }
    return (generation, { index with
      embeddingProfiles := upsert EmbeddingProfile.projectId row (fun _ => row)
        index.embeddingProfiles })

omit [Environment] [Indexing] in
/-- The dimension of the first answer. -/
def resolveDimensions (index : SearchIndex) (projectId : String) (generation dimensions : Nat) :
    Fallible (Bool × SearchIndex) := do
  ensure (1 ≤ dimensions ∧ dimensions ≤ 16384) "invalid embedding dimensions"
  let selected (p : EmbeddingProfile) : Bool :=
    p.projectId = projectId && p.generation = generation &&
      (p.dimensions = 0 || p.dimensions = dimensions)
  return (index.embeddingProfiles.any selected, { index with
    embeddingProfiles := index.embeddingProfiles.map fun p =>
      if selected p then { p with dimensions } else p })

omit [Environment] [Indexing] in
def expected (index : SearchIndex) (db : Database) (now : Int) (projectId id : String)
    (revision generation : Nat) : Option EmbeddingProfile :=
  index.embeddingProfiles.find? fun p =>
    p.projectId = projectId && p.generation = generation && db.memories.any fun m =>
      m.projectId = p.projectId && m.id = id && m.revision = revision && m.embeddable now

omit [Environment] in
def normalize (vector : List UInt32) : Fallible (List UInt64) := do
  ensure (vector ≠ [] ∧ vector.length ≤ 16384 ∧ vector.all Indexing.finite)
    "invalid: embedding values"
  ensure (Indexing.normed vector) "invalid: zero embedding"
  return vector.map (Indexing.scaled vector)

omit [Environment] in
def putEmbedding (index : SearchIndex) (db : Database) (now : Int) (projectId id : String)
    (revision generation : Nat) (vector : List UInt32) : Fallible (Bool × SearchIndex) :=
  match index.expected db now projectId id revision generation with
  | none => .ok (false, index)
  | some p => do
    ensure (vector.length = p.dimensions) "invalid: embedding dimension changed"
    let normalized ← normalize vector
    let row : VectorRow :=
      { memoryId := id, projectId, generation, revision, vector := normalized }
    return (true, { index with
      memoryVectors := upsert (fun v => (v.memoryId, v.generation)) row
        (fun v => { v with revision, vector := normalized }) index.memoryVectors })

omit [Environment] [Indexing] in
def current (index : SearchIndex) (db : Database) (now : Int) (v : VectorRow) : Bool :=
  (index.embeddingProfiles.any fun p => p.projectId = v.projectId && p.generation = v.generation) &&
    db.memories.any fun m =>
      m.id = v.memoryId && m.revision = v.revision && m.embeddable now

omit [Environment] [Indexing] in
/-- `MemoryStore::cleanup_derived`, for the vectors of a page. -/
def cleanupDerived (index : SearchIndex) (db : Database) (now : Int)
    (page : List (String × Nat)) : SearchIndex :=
  let kept (v : VectorRow) : Bool := index.embeddingProfiles.any fun p =>
    p.projectId = v.projectId && p.generation = v.generation && db.memories.any fun m =>
      m.projectId = p.projectId && m.id = v.memoryId && m.revision = v.revision &&
        m.embeddable now
  let memoryVectors := index.memoryVectors.filter fun v =>
    !((v.memoryId, v.generation) ∈ page) || kept v
  { index with memoryVectors }

/-! ## Vector search -/

omit [Environment] in
def vectorCandidates (index : SearchIndex) (db : Database) (now : Int) (projectId : String)
    (generation : Nat) (vector : List UInt32) (limit : Nat) : Fallible (List String) :=
  match index.embeddingProfiles.find? fun p =>
      p.projectId = projectId && p.generation = generation with
  | none => .ok []
  | some p => do
    ensure (vector.length = p.dimensions) "invalid: query embedding dimension"
    let query ← normalize vector
    let rows := index.memoryVectors.filter fun v =>
      v.projectId = projectId && v.generation = generation && index.current db now v
    ensure (rows.all fun v => v.vector.length = query.length) "invalid: stored embedding dimension"
    let scored := rows.filterMap fun v =>
      let score := Indexing.similarity query v.vector
      if score ≤ 0 then none else some (v.memoryId, score)
    let best := scored.mergeSort fun a b => decide (b.2 < a.2 ∨ (a.2 = b.2 ∧ a.1 ≤ b.1))
    return (best.take limit).map Prod.fst

end SearchIndex

/-! ## Runs -/

inductive IndexOperation where
  | call (operation : Operation)
  | reserveEmbedding (projectId fingerprint : String) (dimensions : Option Nat)
  | resolveDimensions (projectId : String) (generation dimensions : Nat)
  | putEmbedding (projectId id : String) (revision generation : Nat) (vector : List UInt32)
  | reindexFts (projectId after : String) (limit : Nat)
  | cleanupDerived (page : List (String × Nat))

structure IndexedState where
  state : State
  index : SearchIndex := {}

omit [Environment] [Indexing] in
/-- The index after a call that may fail. -/
def SearchIndex.orKeep {α : Type} (index : SearchIndex) : Fallible (α × SearchIndex) → SearchIndex
  | .ok (_, changed) => changed
  | .error _ => index

namespace IndexedState

variable (s : IndexedState) (config : AgentConfig) (now : Int)

def after : IndexOperation → IndexedState
  | .call operation =>
    let state := s.state.after config now operation
    { state, index := s.index.follow s.state.db state.db }
  | .reserveEmbedding projectId fingerprint dimensions =>
    { s with index := s.index.orKeep (s.index.reserveEmbedding projectId fingerprint dimensions) }
  | .resolveDimensions projectId generation dimensions =>
    { s with index := s.index.orKeep (s.index.resolveDimensions projectId generation dimensions) }
  | .putEmbedding projectId id revision generation vector =>
    let put := s.index.putEmbedding s.state.db now projectId id revision generation vector
    { s with index := s.index.orKeep put }
  | .reindexFts projectId after limit =>
    match s.index.reindexFts s.state.db projectId after limit with
    | .ok index => { s with index }
    | .error _ => s
  | .cleanupDerived page => { s with index := s.index.cleanupDerived s.state.db now page }

end IndexedState

def indexedStore (config : AgentConfig) (opened : Int) :
    System IndexedState (Int × IndexOperation) where
  start := { state := .empty opened }
  step s label s' := s' = s.after config label.1 label.2

end Agentix.MemoryStore
