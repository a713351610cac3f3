import TypedTables.Proofs.Building
import TypedTables.Proofs.Params
import TypedTables.Table.Select

/-!
# What an engine was asked

An engine with a record of its requests does what the engine does, and writes down beside the state
which statements it was asked to prepare and to run.
-/
namespace TypedTables

inductive Engine.Request where
  | prepare (text : String)
  | run (text : String) (params : Params)

def Engine.Request.text : Request → String
  | .prepare text | .run text _ => text

def Engine.Request.names : Request → List String
  | .prepare _ => []
  | .run _ params => params.names

/-- An engine that writes down what it is asked. -/
def Engine.Interface.recorded {σ : Type} (E : Interface σ) : Interface (σ × List Request) where
  prepare text s := ((E.prepare text s.1).1, (E.prepare text s.1).2, s.2 ++ [.prepare text])
  run text params s :=
    ((E.run text params s.1).1, (E.run text params s.1).2, s.2 ++ [.run text params])
  inTransaction s := E.inTransaction s.1

namespace Job

open Engine

variable {σ α β ι : Type} {E : Interface σ}

/-- A job on a recorded engine answers and leaves what the job does on the engine. -/
def Tracks (recorded : Job (σ × List Request) α) (job : Job σ α) : Prop :=
  ∀ s log, job s = ((recorded (s, log)).1, (recorded (s, log)).2.1)

theorem tracks_pure (a : α) : Tracks (σ := σ) (pure a) (pure a) := fun _ _ => rfl

theorem tracks_throw (e : Error) : Tracks (σ := σ) (α := α) (throw e) (throw e) := fun _ _ => rfl

theorem tracks_bind {x' : Job (σ × List Request) α} {x : Job σ α}
    {f' : α → Job (σ × List Request) β} {f : α → Job σ β} (hx : Tracks x' x)
    (hf : ∀ a, Tracks (f' a) (f a)) :
    Tracks (x' >>= f') (x >>= f) := by
  intro s log
  rw [stateful_bind, stateful_bind, hx s log]
  rcases x' (s, log) with ⟨r, s', log'⟩
  cases r with
  | error e => rfl
  | ok a => exact hf a s' log'

theorem tracks_preparing (text : String) : Tracks (E.recorded.preparing text) (E.preparing text) :=
  fun _ _ => rfl

theorem tracks_running (text : String) (params : Params) :
    Tracks (E.recorded.running text params) (E.running text params) := fun _ _ => rfl

theorem tracks_control (text : String) : Tracks (E.recorded.control text) (E.control text) :=
  fun _ _ => rfl

theorem undone_recorded (s : σ) (log : List Request) :
    E.recorded.undone (s, log) =
      (E.undone s, if E.inTransaction s then log ++ [.run "ROLLBACK" .empty] else log) := by
  simp only [Interface.undone]
  change (if E.inTransaction s then _ else _) = _
  split <;> rfl

theorem tracks_transaction {x' : Job (σ × List Request) α} {x : Job σ α} (hx : Tracks x' x) :
    Tracks (E.recorded.transaction x') (E.transaction x) := by
  intro s log
  rw [Interface.transaction, Interface.transaction, tracks_control "BEGIN DEFERRED" s log]
  rcases E.recorded.control "BEGIN DEFERRED" (s, log) with ⟨begun, s₀, log₀⟩
  cases begun with
  | error e => rfl
  | ok _ =>
    dsimp only
    rw [hx s₀ log₀]
    rcases x' (s₀, log₀) with ⟨r, s₁, log₁⟩
    cases r with
    | error e =>
      dsimp only
      rw [undone_recorded]
    | ok a =>
      dsimp only
      rw [tracks_control "COMMIT" s₁ log₁]
      rcases E.recorded.control "COMMIT" (s₁, log₁) with ⟨committed, s₂, log₂⟩
      cases committed with
      | error e =>
        dsimp only
        rw [undone_recorded]
      | ok _ => rfl

theorem tracks_forItems (text : String) (encode : ι → Except Error Params) (changed : Nat)
    (items : List ι) :
    Tracks (E.recorded.forItems text encode changed items)
      (E.forItems text encode changed items) := by
  induction items generalizing changed with
  | nil => exact tracks_pure changed
  | cons i is ih =>
    refine tracks_bind (fun s log => rfl) fun params => ?_
    exact tracks_bind (tracks_running text params) fun answer => ih (changed + answer.changes)

theorem tracks_batch (text : String) (encode : ι → Except Error Params) (items : List ι) :
    Tracks (E.recorded.batch text encode items) (E.batch text encode items) :=
  tracks_transaction (tracks_bind (tracks_preparing text) fun _ =>
    tracks_forItems text encode 0 items)

theorem tracks_change (text : String) (params : Params) :
    Tracks (E.recorded.change text params) (E.change text params) :=
  tracks_bind (tracks_preparing text) fun _ =>
    tracks_bind (tracks_running text params) fun answer => tracks_pure answer.changes

theorem tracks_integer (text : String) (params : Params) :
    Tracks (E.recorded.integer text params) (E.integer text params) := by
  refine tracks_bind (tracks_preparing text) fun names => ?_
  refine tracks_bind (tracks_running text params) fun answer => ?_
  dsimp only
  split
  · exact tracks_throw _
  · exact tracks_pure _
  · exact tracks_throw _

theorem tracks_define (texts : List String) :
    Tracks (Table.define E.recorded texts) (Table.define E texts) := by
  induction texts with
  | nil => exact tracks_pure ()
  | cons text texts ih =>
    refine tracks_bind ?_ fun _ => ih
    exact tracks_bind (tracks_change text .empty) fun _ => tracks_pure ()

end Job

namespace RowJob

open Engine

variable {σ ρ : Type} {E : Interface σ}

/-- A job that hands out rows, as a job with no result that fails if the handing out does. -/
def consumed (job : RowJob σ ρ) (wants : Demand ρ) : Job σ Unit := fun s =>
  let (emitted, s) := job wants s
  (emitted.ending.toExcept, s)

def Tracks (recorded : RowJob (σ × List Request) ρ) (job : RowJob σ ρ) : Prop :=
  ∀ wants s log, job wants s = ((recorded wants (s, log)).1, (recorded wants (s, log)).2.1)

theorem tracks_rows (text : String) (params : Params)
    (decode : List String → List Stored → Except Error ρ) :
    Tracks (E.recorded.rows text params decode) (E.rows text params decode) := by
  intro wants s log
  simp only [Interface.rows]
  rw [Job.tracks_preparing text s log]
  rcases E.recorded.preparing text (s, log) with ⟨prepared, s₁, log₁⟩
  cases prepared with
  | error e => rfl
  | ok names =>
    dsimp only
    rw [Job.tracks_running text params s₁ log₁]
    rcases E.recorded.running text params (s₁, log₁) with ⟨ran, s₂, log₂⟩
    cases ran <;> rfl

theorem tracks_pages (t : Table ρ) (text : String) (names : List String) (params : Params)
    (wants : Demand ρ) (n : Nat) (notBefore : Int64) (rows : List ρ) (s : σ) (log : List Request) :
    t.pages E text names params wants n notBefore rows s =
      ((t.pages E.recorded text names params wants n notBefore rows (s, log)).1,
        (t.pages E.recorded text names params wants n notBefore rows (s, log)).2.1) := by
  induction n generalizing params notBefore rows s log with
  | zero => rfl
  | succ n ih =>
    simp only [Table.pages]
    rw [Job.tracks_running text (params.push Table.pageStart (.integer notBefore)) s log]
    rcases E.recorded.running text (params.push Table.pageStart (.integer notBefore)) (s, log) with
      ⟨ran, s₁, log₁⟩
    cases ran with
    | error e => rfl
    | ok answer =>
      dsimp only
      split
      · exact ih _ _ _ s₁ log₁
      · rfl

def paginated (t : Table ρ) (E : Interface σ) (text : String) (params : Params) : RowJob σ ρ :=
  fun wants s => match E.preparing text s with
    | (.error e, s) => (.failure e, s)
    | (.ok names, s) => t.pages E text names params wants Table.pageBound 0 [] s

theorem selectPaginated_eq (t : Table ρ) (E : Interface σ) (size : UInt64) :
    t.selectPaginated E size =
      if size = 0 then throw (.statement .zeroBatchSize)
      else do
        let built ← Table.selection .rowidAndAll (.raw "rowid > :not_before" [Table.pageStart])
          ⟨[("rowid", .ascending)], some size, false⟩ .empty
        return paginated t E built.1 built.2 := rfl

theorem tracks_paginated (t : Table ρ) (text : String) (params : Params) :
    Tracks (paginated t E.recorded text params) (paginated t E text params) := by
  intro wants s log
  simp only [paginated]
  rw [Job.tracks_preparing text s log]
  rcases E.recorded.preparing text (s, log) with ⟨prepared, s₁, log₁⟩
  cases prepared with
  | error e => rfl
  | ok names => exact tracks_pages t text names params wants _ _ _ s₁ log₁

theorem Tracks.consumed {recorded : RowJob (σ × List Request) ρ} {job : RowJob σ ρ}
    (h : Tracks recorded job) (wants : Demand ρ) :
    Job.Tracks (RowJob.consumed recorded wants) (RowJob.consumed job wants) := by
  intro s log
  rw [RowJob.consumed, h wants s log]
  rfl

theorem Tracks.firstOf {recorded : RowJob (σ × List Request) ρ} {job : RowJob σ ρ}
    (h : Tracks recorded job) : Job.Tracks (Table.firstOf recorded) (Table.firstOf job) := by
  intro s log
  rw [Table.firstOf, h (fun _ => false) s log]
  rfl

end RowJob

/-! ### The one statement of a job -/

namespace Job

open Engine

variable {σ α β : Type} {E : Interface σ} {text : String} {Q : Params → Prop}

/-- A job runs one statement, once or more often, with parameters that have a property. -/
def Runs (text : String) (Q : Params → Prop) (job : Job (σ × List Request) α) : Prop :=
  ∀ s log, ∃ runs, (job (s, log)).2.2 = log ++ runs.map (.run text) ∧ (∀ p ∈ runs, Q p) ∧ runs ≠ []

/-- A job asks an engine to prepare one statement, and then to run it with parameters that have a
property; it runs unless the engine refused to prepare it. -/
def Hands (E : Interface σ) (text : String) (Q : Params → Prop)
    (job : Job (σ × List Request) α) : Prop :=
  ∀ s log, ∃ runs, (job (s, log)).2.2 = log ++ .prepare text :: runs.map (.run text) ∧
    (∀ p ∈ runs, Q p) ∧
    (runs = [] → ∃ fault, (E.prepare text s).1 = .error fault)

theorem Hands.congr {job : Job (σ × List Request) α} {job' : Job (σ × List Request) β}
    (h : Hands E text Q job) (hstate : ∀ s, (job' s).2 = (job s).2) : Hands E text Q job' := by
  intro s log
  rw [hstate]
  exact h s log

/-- What does nothing behind a job changes nothing of what it asks for. -/
theorem state_bind_pure {τ : Type} (job : Job τ α) (f : α → β) (s : τ) :
    ((job >>= fun a => (pure (f a) : Job τ β)) s).2 = (job s).2 := by
  rw [stateful_bind]
  rcases job s with ⟨r, s'⟩
  cases r <;> rfl

theorem hands_preparing {f : List String → Job (σ × List Request) α}
    (hf : ∀ names, Runs text Q (f names)) :
    Hands E text Q (E.recorded.preparing text >>= f) := by
  intro s log
  rw [stateful_bind]
  have hasked : E.recorded.preparing text (s, log) =
      ((E.prepare text s).1.mapError (.refused text), (E.prepare text s).2,
        log ++ [.prepare text]) := rfl
  rw [hasked]
  cases hprepared : (E.prepare text s).1 with
  | error fault => exact ⟨[], rfl, nofun, fun _ => ⟨fault, rfl⟩⟩
  | ok names =>
    obtain ⟨runs, hlog, hQ, hne⟩ := hf names (E.prepare text s).2 (log ++ [.prepare text])
    refine ⟨runs, ?_, hQ, fun hnone => absurd hnone hne⟩
    rw [List.append_assoc] at hlog
    exact hlog

/-- A job that runs a statement once. -/
theorem runs_running {params : Params} (hQ : Q params) {f : Answer → Job (σ × List Request) α}
    (hf : ∀ answer s, (f answer s).2 = s) : Runs text Q (E.recorded.running text params >>= f) := by
  intro s log
  rw [stateful_bind]
  have hasked : E.recorded.running text params (s, log) =
      ((E.run text params s).1.mapError (.refused text), (E.run text params s).2,
        log ++ [.run text params]) := rfl
  rw [hasked]
  refine ⟨[params], ?_, List.forall_mem_singleton.mpr hQ, List.cons_ne_nil _ _⟩
  cases (E.run text params s).1 with
  | error fault => rfl
  | ok answer =>
    show ((f answer _).2).2 = _
    rw [hf]
    rfl

theorem hands_change {params : Params} (hQ : Q params) :
    Hands E text Q (E.recorded.change text params) :=
  hands_preparing fun _ => runs_running hQ fun _ _ => rfl

theorem hands_integer {params : Params} (hQ : Q params) :
    Hands E text Q (E.recorded.integer text params) := by
  refine hands_preparing fun names => runs_running hQ ?_
  rintro ⟨_ | ⟨_ | ⟨v, row⟩, rows⟩, changes⟩ s
  · rfl
  · rfl
  · cases v <;> rfl

end Job

namespace RowJob

open Engine

variable {σ ρ : Type} {E : Interface σ} {text : String} {Q : Params → Prop} {params : Params}

/-- The consumption of a job with rows asks for one statement, whatever the consumer wants. -/
def Hands (E : Interface σ) (text : String) (Q : Params → Prop)
    (job : RowJob (σ × List Request) ρ) : Prop :=
  ∀ wants, Job.Hands E text Q (consumed job wants)

theorem Hands.firstOf {job : RowJob (σ × List Request) ρ} (h : Hands E text Q job) :
    Job.Hands E text Q (Table.firstOf job) := (h fun _ => false).congr fun _ => rfl

theorem hands_rows (hQ : Q params) (decode : List String → List Stored → Except Error ρ) :
    Hands E text Q (E.recorded.rows text params decode) := by
  intro wants
  have hjob : Job.Hands E text Q (E.recorded.preparing text >>= fun names =>
      E.recorded.running text params >>= fun answer =>
        (pure (handOut (decode names) wants [] answer.rows) : Job
          (σ × List Request) (Emitted ρ))) :=
    Job.hands_preparing fun names => Job.runs_running hQ fun _ _ => rfl
  refine hjob.congr fun s => ?_
  rw [stateful_bind, consumed, Interface.rows]
  rcases E.recorded.preparing text s with ⟨prepared, s₁⟩
  cases prepared with
  | error e => rfl
  | ok names =>
    dsimp only
    rw [stateful_bind]
    rcases E.recorded.running text params s₁ with ⟨ran, s₂⟩
    cases ran <;> rfl

/-- Every page is asked for with parameters that differ from those of the first one in its start
only. -/
theorem asked_pages (t : Table ρ) (names : List String)
    (hQ : ∀ rowid, Q (params.push Table.pageStart (.integer rowid))) (wants : Demand ρ)
    (n : Nat) (rowid : Int64) (rows : List ρ) (s : σ) (log : List Request) :
    ∃ runs, (t.pages E.recorded text names params wants n rowid rows (s, log)).2.2 = log ++
      runs.map (.run text) ∧
      (∀ p ∈ runs, Q p) ∧ (n ≠ 0 → runs ≠ []) := by
  induction n generalizing params rowid rows s log with
  | zero => exact ⟨[], (List.append_nil log).symm, nofun, fun h => absurd rfl h⟩
  | succ n ih =>
    have hagain : ∀ next,
        Q ((params.push Table.pageStart (.integer rowid)).push Table.pageStart
          (.integer next)) := by
      intro next
      rw [Params.push_push]
      exact hQ next
    have hasked : E.recorded.running text (params.push Table.pageStart (.integer rowid)) (s, log) =
        ((E.run text (params.push Table.pageStart (.integer rowid)) s).1.mapError (.refused text),
          (E.run text (params.push Table.pageStart (.integer rowid)) s).2,
          log ++ [.run text (params.push Table.pageStart (.integer rowid))]) := rfl
    simp only [Table.pages]
    rw [hasked]
    cases (E.run text (params.push Table.pageStart (.integer rowid)) s).1 with
    | error fault =>
      exact ⟨[_], rfl, List.forall_mem_singleton.mpr (hQ rowid), fun _ => List.cons_ne_nil _ _⟩
    | ok answer =>
      rw [except_mapError_ok]
      dsimp only
      split
      · obtain ⟨runs, hlog, hruns, -⟩ := ih hagain _ _ _ _
        refine ⟨_ :: runs, ?_, List.forall_mem_cons.mpr ⟨hQ rowid, hruns⟩,
          fun _ => List.cons_ne_nil _ _⟩
        rw [hlog, List.append_assoc]
        rfl
      · exact ⟨[_], rfl, List.forall_mem_singleton.mpr (hQ rowid), fun _ => List.cons_ne_nil _ _⟩

theorem hands_paginated (t : Table ρ)
    (hQ : ∀ rowid, Q (params.push Table.pageStart (.integer rowid))) :
    Hands E text Q (paginated t E.recorded text params) := by
  intro wants
  have hjob : Job.Hands E text Q (E.recorded.preparing text >>= fun names =>
      consumed (fun wants => t.pages E.recorded text names params wants Table.pageBound 0 [])
        wants) := by
    refine Job.hands_preparing fun names s log => ?_
    obtain ⟨runs, hlog, hruns, hne⟩ := asked_pages t names hQ wants Table.pageBound 0 [] s log
    exact ⟨runs, hlog, hruns, hne (by decide)⟩
  refine hjob.congr fun s => ?_
  rw [stateful_bind, consumed, paginated]
  rcases E.recorded.preparing text s with ⟨prepared, s₁⟩
  cases prepared <;> rfl

end RowJob

namespace Building

variable {α β γ : Type}

/-- Two operations are built alike: they fail alike, or leave related work and the same
statements. -/
def Alike (r : α → β → Prop) (x : Building α) (y : Building β) : Prop :=
  ∀ c, (∃ a b c', x c = (.ok a, c') ∧ y c = (.ok b, c') ∧ r a b) ∨
    ∃ e c', x c = (.error e, c') ∧ y c = (.error e, c')

variable {r : α → β → Prop}

theorem alike_pure {a : α} {b : β} (h : r a b) : Alike r (pure a) (pure b) :=
  fun c => .inl ⟨a, b, c, rfl, rfl, h⟩

/-- What is built first does not depend on the engine. -/
theorem alike_bind (x : Building γ) {f : γ → Building α} {g : γ → Building β}
    (h : ∀ a, Alike r (f a) (g a)) : Alike r (x >>= f) (x >>= g) := by
  intro c
  rw [stateful_bind, stateful_bind]
  rcases x c with ⟨built, c'⟩
  cases built with
  | error e => exact .inr ⟨e, c', rfl, rfl⟩
  | ok a => exact h a c'

/-- What is made of built work alike stays alike. -/
theorem Alike.map {δ : Type} {q : γ → δ → Prop} {x : Building γ} {y : Building δ}
    {f : γ → α} {g : δ → β} (hxy : Alike q x y) (h : ∀ a b, q a b → r (f a) (g b)) :
    Alike r (x >>= fun a => pure (f a)) (y >>= fun b => pure (g b)) := by
  intro c
  rw [stateful_bind, stateful_bind]
  rcases hxy c with ⟨a, b, c', hx, hy, hab⟩ | ⟨e, c', hx, hy⟩
  · rw [hx, hy]
    exact .inl ⟨f a, g b, c', rfl, rfl, h a b hab⟩
  · rw [hx, hy]
    exact .inr ⟨e, c', rfl, rfl⟩

theorem alike_throw (e : Error) : Alike r (throw e) (throw e) := fun c => .inr ⟨e, c, rfl, rfl⟩

end Building

end TypedTables
