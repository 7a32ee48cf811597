import Mathlib.Control.Monad.Basic
import Mathlib.Logic.Basic

/-! # Fallible computations

`Fallible α` is a computation that returns a value or an error text.  The
lemmas turn "this block returned a value" into the chain of facts its steps
established, so that a proof about a block never unfolds `Except.bind`.
-/

namespace Agentix.Lib

open List

abbrev Fallible (α : Type) := Except String α

/-- Succeeds exactly when the condition holds. -/
def ensure (condition : Prop) [Decidable condition] (message : String) : Fallible Unit :=
  if condition then .ok () else .error message

def onlyIf (condition : Prop) [Decidable condition] (check : Fallible Unit) : Fallible Unit :=
  if condition then check else .ok ()

def orElseError {α : Type} (value : Option α) (message : String) : Fallible α :=
  match value with
  | some found => .ok found
  | none => .error message

section Inversion

variable {α β : Type}

variable {rows : List α} {rows' : List β} {message : String} {result : α}

@[simp] theorem bind_ok {value : Fallible α} {next : α → Fallible β} {result : β} :
    (value >>= next) = .ok result ↔ ∃ found, value = .ok found ∧ next found = .ok result := by
  cases value <;> simp [bind, Except.bind]

@[simp] theorem pure_ok {value : α} :
    (pure value : Fallible α) = .ok result ↔ value = result := by
  simp [pure, Except.pure]

@[simp] theorem map_eq_ok {value : Fallible α} {f : α → β} {result : β} :
    (f <$> value) = .ok result ↔ ∃ found, value = .ok found ∧ f found = result := by
  cases value <;> simp [Functor.map, Except.map]

@[simp] theorem throw_ne_ok :
    (throw message : Fallible α) = .ok result ↔ False := by
  simp [throw, throwThe, MonadExceptOf.throw]

@[simp] theorem ensure_ok {condition : Prop} [Decidable condition] {result : Unit} :
    ensure condition message = .ok result ↔ condition := by
  unfold ensure
  split <;> simp_all

@[simp] theorem onlyIf_eq_ok {condition : Prop} [Decidable condition] {check : Fallible Unit}
    {result : Unit} : onlyIf condition check = .ok result ↔ (condition → check = .ok ()) := by
  unfold onlyIf
  split <;> simp_all

@[simp] theorem orElseError_eq_ok {value : Option α} :
    orElseError value message = .ok result ↔ value = some result := by
  cases value <;> simp [orElseError]

/-- A fallible edit of every row keeps what each edit keeps. -/
theorem map_of_mapM_eq_ok {γ : Type} {edit : α → Fallible β} {before : α → γ} {after : β → γ}
    (keeps : ∀ row row', edit row = .ok row' → after row' = before row)
    (ok : rows.mapM edit = .ok rows') : rows'.map after = rows.map before := by
  induction rows generalizing rows' with
  | nil =>
    simp only [mapM_nil, pure_ok] at ok
    subst ok
    rfl
  | cons head tail ih =>
    simp only [mapM_cons, bind_ok, pure_ok] at ok
    obtain ⟨head', edited, tail', rest, rfl⟩ := ok
    rw [map_cons, map_cons, keeps head head' edited, ih rest]

theorem mem_of_mapM_eq_ok {f : α → Fallible β} (ok : rows.mapM f = .ok rows') {row : α}
    (mem : row ∈ rows) :
    ∃ row' ∈ rows', f row = .ok row' := by
  induction rows generalizing rows' with
  | nil => cases mem
  | cons head tail ih =>
    simp only [mapM_cons, bind_ok, pure_ok] at ok
    obtain ⟨head', edited, tail', rest, rfl⟩ := ok
    obtain rfl | later := mem_cons.mp mem
    · exact ⟨head', mem_cons_self, edited⟩
    · obtain ⟨row', here, same⟩ := ih rest later
      exact ⟨row', mem_cons_of_mem _ here, same⟩

theorem forM_eq_ok {f : α → Fallible PUnit} (ok : rows.forM f = .ok ()) {row : α}
    (mem : row ∈ rows) : f row = .ok () := by
  induction rows with
  | nil => cases mem
  | cons head tail ih =>
    simp only [List.forM, bind_ok] at ok
    obtain ⟨⟨⟩, first, rest⟩ := ok
    obtain rfl | later := mem_cons.mp mem
    · exact first
    · exact ih rest later

/-- What every round of a fallible loop keeps, the loop keeps. -/
theorem foldlM_induction {motive : β → Prop} {f : β → α → Fallible β}
    (kept : ∀ row ∈ rows, ∀ before after, f before row = .ok after → motive before → motive after)
    {before after : β} (ok : rows.foldlM f before = .ok after) (holds : motive before) :
    motive after := by
  induction rows generalizing before with
  | nil =>
    simp only [foldlM_nil, pure_ok] at ok
    exact ok ▸ holds
  | cons head tail ih =>
    simp only [foldlM_cons, bind_ok] at ok
    obtain ⟨middle, first, rest⟩ := ok
    exact ih (fun row mem => kept row (mem_cons_of_mem _ mem)) rest
      (kept head mem_cons_self before middle first holds)

end Inversion

end Agentix.Lib

/-! # Computations that do not fail in one way -/

namespace Agentix.Lib

open List

variable {α β : Type} {message other : String}

/-- The computation does not fail with the message. -/
def Avoids (message : String) (value : Fallible α) : Prop := value ≠ .error message

/-- The message of a computation that fails. -/
def failure : Fallible α → Option String
  | .ok _ => none
  | .error message => some message

theorem failure_eq_some {value : Fallible α} :
    failure value = some message ↔ value = .error message := by
  cases value <;> simp [failure]

theorem failure_eq_none {value : Fallible α} : failure value = none ↔ ∃ found, value = .ok found := by
  cases value <;> simp [failure]

namespace Avoids

variable {list : List α}

theorem ok {found : α} : Avoids message (.ok found) := fun same => by cases same

theorem error (ne : other ≠ message) : Avoids (α := α) message (.error other) :=
  fun same => ne (Except.error.inj same)

theorem bind {value : Fallible α} {next : α → Fallible β} (first : Avoids message value)
    (rest : ∀ found, value = .ok found → Avoids message (next found)) :
    Avoids message (value >>= next) := by
  cases value with
  | error other =>
    intro same
    exact first (congrArg Except.error (Except.error.inj same))
  | ok found => exact rest found rfl

theorem ensure {condition : Prop} [Decidable condition] (ne : other ≠ message) :
    Avoids message (Lib.ensure condition other) := by
  unfold Lib.ensure
  split
  · exact ok
  · exact error ne

theorem onlyIf {condition : Prop} [Decidable condition] {check : Fallible Unit}
    (checks : Avoids message check) : Avoids message (Lib.onlyIf condition check) := by
  unfold Lib.onlyIf
  split
  · exact checks
  · exact ok

theorem orElseError {value : Option α} (ne : other ≠ message) :
    Avoids message (Lib.orElseError value other) := by
  cases value with
  | none => exact error ne
  | some found => exact ok

theorem foldlM {step : β → α → Fallible β} {start : β} (motive : β → Prop) (begins : motive start)
    (steps : ∀ a ∈ list, ∀ b, motive b → Avoids message (step b a) ∧ ∀ b', step b a = .ok b' → motive b') :
    Avoids message (list.foldlM step start) := by
  induction list generalizing start with
  | nil => exact ok
  | cons a rest ih =>
    rw [foldlM_cons]
    obtain ⟨first, kept⟩ := steps a mem_cons_self start begins
    refine bind first fun b found => ?_
    exact ih (kept b found)
      fun a' mem => steps a' (mem_cons_of_mem _ mem)

theorem mapM {f : α → Fallible β} (each : ∀ a, Avoids message (f a)) :
    Avoids message (list.mapM f) := by
  induction list with
  | nil => exact ok
  | cons a rest ih =>
    rw [mapM_cons]
    exact bind (each a) fun _ _ => bind ih fun _ _ => ok

theorem forM {f : α → Fallible Unit} (each : ∀ a, Avoids message (f a)) :
    Avoids message (list.forM f) := by
  induction list with
  | nil => exact ok
  | cons a rest ih =>
    have unfolded : (a :: rest).forM f = (f a >>= fun _ => rest.forM f) := rfl
    rw [unfolded]
    exact bind (each a) fun _ _ => ih

end Avoids

end Agentix.Lib

/-! # Transactions in a row

A service runs transactions one after another.  What one of them committed stays when a later
one fails, so a failed service call still has a state.  A reflexive and transitive relation that
every transaction respects holds between the states before and after the whole call, whatever
the call answers.
-/

namespace Agentix.Lib

/-- A service call: an answer or an error text, and in both cases the state it leaves. -/
abbrev Served (σ α : Type) := ExceptT String (StateM σ) α

namespace Served

variable {σ α β : Type}

def run (action : Served σ α) (s : σ) : Fallible α × σ :=
  action s

/-- A transaction, rolled back where it fails. -/
def transaction (body : σ → Fallible (σ × α)) : Served σ α := fun s =>
  match body s with
  | .ok (after, value) => (.ok value, after)
  | .error message => (.error message, s)

def query (read : σ → Fallible α) : Served σ α := fun s => (read s, s)

/-- Where the call fails, the handler goes on from what it left. -/
def recover (action : Served σ α) (handler : String → Served σ α) : Served σ α := fun s =>
  match run action s with
  | (.ok value, after) => (.ok value, after)
  | (.error message, after) => run (handler message) after

/-! ## Answers -/

theorem run_bind (action : Served σ α) (next : α → Served σ β) (s : σ) :
    run (action >>= next) s = match run action s with
      | (.ok value, after) => run (next value) after
      | (.error message, after) => (.error message, after) := by
  change (ExceptT.bind action next) s = _
  simp only [ExceptT.bind, ExceptT.mk, run]
  change (ExceptT.bindCont next (action s).1) (action s).2 = _
  cases action s with
  | mk answer after => cases answer <;> rfl

theorem run_recover (action : Served σ α) (handler : String → Served σ α) (s : σ) :
    run (recover action handler) s = match run action s with
      | (.ok value, after) => (.ok value, after)
      | (.error message, after) => run (handler message) after := rfl

@[simp] theorem run_pure (value : α) (s : σ) : run (pure value) s = (.ok value, s) := rfl

@[simp] theorem run_query (read : σ → Fallible α) (s : σ) : run (query read) s = (read s, s) := rfl

/-- A call that answers went through both parts. -/
@[simp] theorem run_bind_ok {action : Served σ α} {next : α → Served σ β} {s s' : σ} {value : β} :
    run (action >>= next) s = (.ok value, s') ↔
      ∃ found mid, run action s = (.ok found, mid) ∧ run (next found) mid = (.ok value, s') := by
  rw [run_bind]
  cases run action s with
  | mk answer mid =>
    cases answer with
    | error message => simp
    | ok found =>
      constructor
      · exact fun rest => ⟨found, mid, rfl, rest⟩
      · rintro ⟨_, _, same, rest⟩
        cases same
        exact rest

@[simp] theorem run_transaction_ok {body : σ → Fallible (σ × α)} {s s' : σ} {value : α} :
    run (transaction body) s = (.ok value, s') ↔ body s = .ok (s', value) := by
  simp only [run, transaction]
  cases body s with
  | error message => simp
  | ok result =>
    simp only [Except.ok.injEq, Prod.ext_iff]
    exact and_comm

theorem run_query_ok {read : σ → Fallible α} {s s' : σ} {value : α} :
    run (query read) s = (.ok value, s') ↔ read s = .ok value ∧ s' = s := by
  simp [eq_comm]

/-! ## What a call leaves -/

/-- The call only changes the state along the relation. -/
def Respects (related : σ → σ → Prop) (action : Served σ α) : Prop :=
  ∀ s, related s (run action s).2

section Respects

variable {related : σ → σ → Prop} (refl : ∀ s, related s s)
  (trans : ∀ {a b c}, related a b → related b c → related a c)

include refl in
theorem respects_pure (value : α) : Respects related (pure value : Served σ α) :=
  fun s => refl s

include refl in
theorem respects_query (read : σ → Fallible α) : Respects related (query read) :=
  fun s => refl s

include refl in
theorem respects_transaction {body : σ → Fallible (σ × α)}
    (commits : ∀ s s' value, body s = .ok (s', value) → related s s') :
    Respects related (transaction body) := by
  intro s
  simp only [run, transaction]
  cases done : body s with
  | error message => exact refl s
  | ok result => exact commits s result.1 result.2 done

include trans in
theorem respects_bind {action : Served σ α} {next : α → Served σ β}
    (first : Respects related action) (second : ∀ value, Respects related (next value)) :
    Respects related (action >>= next) := by
  intro s
  have before := first s
  rw [run_bind]
  cases step : run action s with
  | mk answer mid =>
    rw [step] at before
    cases answer with
    | error message => exact before
    | ok value => exact trans before (second value mid)

include trans in
theorem respects_recover {action : Served σ α} {handler : String → Served σ α}
    (first : Respects related action) (second : ∀ message, Respects related (handler message)) :
    Respects related (recover action handler) := by
  intro s
  have before := first s
  rw [run_recover]
  cases step : run action s with
  | mk answer mid =>
    rw [step] at before
    cases answer with
    | error message => exact trans before (second message mid)
    | ok value => exact before

end Respects

/-! ## Where a call ends -/

/-- What holds of the state that the call leaves, whatever it answers. -/
def Ends (action : Served σ α) (s : σ) (post : σ → Prop) : Prop :=
  post (run action s).2

section Ends

variable {action : Served σ α} {next : α → Served σ β} {s : σ} {post : σ → Prop}

theorem ends_bind (fails : ∀ message s', run action s = (.error message, s') → post s')
    (rest : ∀ value s', run action s = (.ok value, s') → Ends (next value) s' post) :
    Ends (action >>= next) s post := by
  rw [Ends, run_bind]
  cases step : run action s with
  | mk answer mid =>
    cases answer with
    | error message => exact fails message mid step
    | ok value => exact rest value mid step

@[simp] theorem ends_pure {value : α} : Ends (pure value : Served σ α) s post ↔ post s := Iff.rfl

@[simp] theorem ends_throw {message : String} :
    Ends (throw message : Served σ α) s post ↔ post s := Iff.rfl

@[simp] theorem ends_modify {f : σ → σ} : Ends (modify f : Served σ PUnit) s post ↔ post (f s) :=
  Iff.rfl

@[simp] theorem ends_get_bind {next : σ → Served σ β} :
    Ends (get >>= next) s post ↔ Ends (next s) s post := Iff.rfl

@[simp] theorem ends_modify_bind {f : σ → σ} {next : PUnit → Served σ β} :
    Ends (modify f >>= next) s post ↔ Ends (next ⟨⟩) (f s) post := Iff.rfl

@[simp] theorem ends_throw_bind {message : String} :
    Ends (throw message >>= next) s post ↔ post s := Iff.rfl

@[simp] theorem ends_pure_bind {value : α} :
    Ends (pure value >>= next) s post ↔ Ends (next value) s post := by
  rw [pure_bind]

/-- A part that respects a relation leads to a related state, where the call goes on or ends. -/
theorem Respects.ends_bind {related : σ → σ → Prop} (first : Respects related action)
    (fails : ∀ s', related s s' → post s')
    (rest : ∀ value s', related s s' → Ends (next value) s' post) :
    Ends (action >>= next) s post := by
  have before := first s
  refine Served.ends_bind (fun message s' step => ?_) fun value s' step => ?_
  · rw [step] at before
    exact fails s' before
  · rw [step] at before
    exact rest value s' before

theorem Respects.ends {related : σ → σ → Prop} (whole : Respects related action)
    (implies : ∀ s', related s s' → post s') : Ends action s post :=
  implies _ (whole s)

end Ends

end Served

end Agentix.Lib
