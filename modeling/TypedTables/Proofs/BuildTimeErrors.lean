import Mathlib.Data.List.Forall2
import TypedTables.Proofs.BatchRequests
import TypedTables.Proofs.RecordedRequests

/-!
# Errors of build time

A build-time error is found before the engine is asked for anything, in every operation of a table
but those for several items: these encode one item after the other inside their transaction, so an
item that has no parameters stops them after the items before it ran.
-/
namespace TypedTables

/-- The operations of a table, without the statements of the caller and the work on a pinned
connection. Where rows are handed out, a consumer says for how long it wants more. -/
inductive Operation (ρ : Type) : Type 1 where
  | create (options : TableOptions)
  | createIndex (index : IndexShape)
  | bootstrapAll
  | insert (record : ρ) (conflict : Option Conflict)
  | insertRow (row : Row)
  | batch {ι : Type} (request : BatchRequest ρ ι) (items : List ι)
  | select (f : Filter) (o : SelectOptions) (wants : Demand ρ)
  | selectOne (f : Filter) (o : SelectOptions)
  | selectRows (columns : List String) (f : Filter) (o : SelectOptions) (wants : Demand Row)
  | selectPaginated (size : UInt64) (wants : Demand ρ)
  | count (f : Filter)
  | «exists» (f : Filter)
  | update (set : Row) (f : Filter) (conflict : Option Conflict)
  | delete (f : Filter)
  | deleteReturning (f : Filter) (wants : Demand ρ)

namespace Operation

variable {σ ρ α : Type}

/-- An operation whose result is of no interest. -/
def forgetting (b : Building (Job σ α)) : Building (Job σ Unit) := do
  let job ← b
  return (do
    let _ ← job
    return () : Job σ Unit)

def consuming (b : Building (RowJob σ α)) (wants : Demand α) : Building (Job σ Unit) := do
  let job ← b
  return RowJob.consumed job wants

def job (t : Table ρ) (E : Engine.Interface σ) : Operation ρ → Building (Job σ Unit)
  | .create options => Table.create E options
  | .createIndex index => Table.createIndex E index
  | .bootstrapAll => t.bootstrapAll E
  | .insert record conflict => forgetting (t.insert E record conflict)
  | .insertRow row => forgetting (t.insertRow E row)
  | .batch request items => forgetting (request.operation t E items)
  | .select f o wants => consuming (t.select E f o) wants
  | .selectOne f o => forgetting (t.selectOne E f o)
  | .selectRows columns f o wants => consuming (t.selectRows E columns f o) wants
  | .selectPaginated size wants => consuming (t.selectPaginated E size) wants
  | .count f => forgetting (t.count E f)
  | .exists f => forgetting (t.exists E f)
  | .update set f conflict => forgetting (t.update E set f conflict)
  | .delete f => forgetting (t.delete E f)
  | .deleteReturning f wants => consuming (t.deleteReturning E f) wants

def run (t : Table ρ) (E : Engine.Interface σ) (earlier : List Shape) (o : Operation ρ) (s : σ) :
    Except Error Unit × Session σ :=
  (o.job t E).runDirect ⟨t.newCache.requested earlier, s⟩

end Operation

/-- A batch that was stopped by an item without parameters, and what the engine was asked by then:
the transaction had begun, the statement was prepared, and it ran for each of the items before. -/
inductive StoppedByItem {ρ : Type} (t : Table ρ) (e : Error) :
    Operation ρ → List Engine.Request → Prop where
  | stopped {ι : Type} {request : BatchRequest ρ ι} {before after : List ι}
      {item : ι} {shape : Shape}
    {encode : ι → Except Error Params} {text : String} {params : List Params}
      {undo : List Engine.Request}
    (planned : request.plan t (request.peeked (before ++ item :: after)) =
      .ok (some (shape, encode)))
    (stated : t.schema.statementText t.name shape = .ok text)
    (encoded : List.Forall₂ (fun i p => encode i = .ok p) before params)
    (refused : encode item = .error e)
    (undone : undo = [] ∨ undo = [.run "ROLLBACK" .empty]) :
    StoppedByItem t e (.batch request (before ++ item :: after))
      (.run "BEGIN DEFERRED" .empty :: .prepare text :: params.map (.run text) ++ undo)

namespace Error

theorem isBuildTime_whileDecoding (e : Error) : e.whileDecoding.isBuildTime = false := by
  cases e <;> rfl

end Error

namespace Job

open Engine

variable {σ α β ρ ι : Type} {E : Interface σ}

/-- No error of a job is a build-time error. -/
def Late (job : Job σ α) : Prop := ∀ s e s', job s = (.error e, s') → e.isBuildTime = false

theorem late_pure (a : α) : Late (σ := σ) (pure a) := nofun

theorem late_throw {e : Error} (h : e.isBuildTime = false) : Late (σ := σ) (α := α) (throw e) := by
  intro s e' s' hs
  cases hs
  exact h

theorem late_bind {x : Job σ α} {f : α → Job σ β} (hx : Late x) (hf : ∀ a, Late (f a)) :
    Late (x >>= f) := by
  intro s e s' h
  rw [stateful_bind] at h
  rcases hxs : x s with ⟨r, s₁⟩
  rw [hxs] at h
  cases r with
  | error e' =>
    cases h
    exact hx s e _ hxs
  | ok a => exact hf a s₁ e s' h

theorem late_preparing (text : String) : Late (E.preparing text) := by
  intro s e s' h
  obtain ⟨fault, -, rfl⟩ := except_mapError_eq_error.mp (congrArg Prod.fst h)
  rfl

theorem late_running (text : String) (params : Params) : Late (E.running text params) := by
  intro s e s' h
  obtain ⟨fault, -, rfl⟩ := except_mapError_eq_error.mp (congrArg Prod.fst h)
  rfl

theorem late_control (text : String) : Late (E.control text) := by
  intro s e s' h
  obtain ⟨fault, -, rfl⟩ := except_mapError_eq_error.mp (congrArg Prod.fst h)
  rfl

theorem late_change (text : String) (params : Params) : Late (E.change text params) :=
  late_bind (late_preparing text) fun _ => late_bind (late_running text params) fun _ => late_pure _

theorem late_integer (text : String) (params : Params) : Late (E.integer text params) := by
  refine late_bind (late_preparing text) fun names => ?_
  refine late_bind (late_running text params) fun answer => ?_
  dsimp only
  split
  · exact late_throw rfl
  · exact late_pure _
  · exact late_throw rfl

theorem late_define (texts : List String) : Late (Table.define E texts) := by
  induction texts with
  | nil => exact late_pure ()
  | cons text texts ih =>
    refine late_bind ?_ fun _ => ih
    exact late_bind (late_change text .empty) fun _ => late_pure ()

end Job

def LateReading {α β : Type} (decode : α → Except Error β) : Prop :=
  ∀ a e, decode a = .error e → e.isBuildTime = false

namespace RowLayout

variable {ρ : Type}

theorem late_decodeSlot (values : List Stored) : LateReading (decodeSlot values) := by
  rintro ⟨c, position⟩ e h
  cases position with
  | some i =>
    obtain ⟨cause, -, rfl⟩ := except_mapError_eq_error.mp h
    exact cause.isBuildTime_whileDecoding
  | none =>
    simp only [decodeSlot] at h
    split at h
    · cases h
    · cases h
      rfl

theorem late_decodeInto (values : List Stored) (layout : RowLayout) :
    LateReading (decodeInto values layout) := by
  induction layout with
  | nil => nofun
  | cons slot slots ih =>
    intro row e h
    rcases except_bind_eq_error.mp h with hslot | ⟨v, -, h⟩
    · exact late_decodeSlot values slot e hslot
    · exact ih _ e h

theorem late_decodeRecord (T : RecordType ρ) (layout : RowLayout) :
    LateReading (decodeRecord T layout) := by
  intro values e h
  rcases except_bind_eq_error.mp h with hrow | ⟨row, -, h⟩
  · exact late_decodeInto values layout .empty e hrow
  rcases except_bind_eq_error.mp h with hrecord | ⟨record, -, h⟩
  · obtain ⟨cause, -, rfl⟩ := except_mapError_eq_error.mp hrecord
    exact cause.isBuildTime_whileDecoding
  rcases except_bind_eq_error.mp h with hvalid | ⟨_, -, h⟩
  · obtain ⟨cause, -, rfl⟩ := except_mapError_eq_error.mp hvalid
    exact cause.isBuildTime_whileDecoding
  · cases h

end RowLayout

namespace RowJob

open Engine

variable {σ α ρ : Type} {E : Interface σ}

def Late (job : RowJob σ ρ) : Prop := ∀ wants, Job.Late (consumed job wants)

/-- Rows whose handing out failed were not readable from some row on. -/
theorem exists_of_handOut_failed {decode : α → Except Error ρ} {wants : Demand ρ} {rows : List ρ}
    {as : List α} {e : Error} (h : (handOut decode wants rows as).ending = .failed e) :
    ∃ a, decode a = .error e := by
  induction as generalizing rows with
  | nil => cases h
  | cons a as ih =>
    rw [handOut] at h
    cases hdecode : decode a with
    | error e' =>
      rw [hdecode] at h
      cases h
      exact ⟨a, hdecode⟩
    | ok r =>
      rw [hdecode] at h
      dsimp only at h
      split at h
      · exact ih h
      · cases h

theorem toExcept_eq_error {ending : Ending} {e : Error} (h : ending.toExcept = .error e) :
    ending = .failed e := by
  cases ending <;> cases h
  rfl

theorem late_rows (text : String) (params : Params)
    {decode : List String → List Stored → Except Error ρ}
    (h : ∀ names, LateReading (decode names)) : Late (E.rows text params decode) := by
  intro wants s e s' hs
  simp only [consumed, Interface.rows] at hs
  rcases hprepared : E.preparing text s with ⟨prepared, s₁⟩
  rw [hprepared] at hs
  cases prepared with
  | error e' =>
    cases hs
    exact Job.late_preparing text s e _ hprepared
  | ok names =>
    dsimp only at hs
    rcases hran : E.running text params s₁ with ⟨ran, s₂⟩
    rw [hran] at hs
    cases ran with
    | error e' =>
      cases hs
      exact Job.late_running text params s₁ e _ hran
    | ok answer =>
      obtain ⟨values, hvalues⟩ :=
        exists_of_handOut_failed (toExcept_eq_error (congrArg Prod.fst hs))
      exact h names values e hvalues

theorem late_decodePaged (t : Table ρ) (names : List String) :
    LateReading (t.decodePaged names) := by
  intro values e h
  rw [Table.decodePaged] at h
  split at h
  · exact RowLayout.late_decodeRecord _ _ values e h
  · cases h
    rfl

theorem late_pages (t : Table ρ) (text : String) (names : List String) (params : Params)
    (wants : Demand ρ) (n : Nat) (notBefore : Int64) (rows : List ρ) (s : σ) {e : Error}
    (h : (t.pages E text names params wants n notBefore rows s).1.ending = .failed e) :
    e.isBuildTime = false := by
  induction n generalizing params notBefore rows s with
  | zero => cases h
  | succ n ih =>
    simp only [Table.pages] at h
    rcases hran : E.running text (params.push Table.pageStart (.integer notBefore)) s with ⟨ran, s₁⟩
    rw [hran] at h
    cases ran with
    | error e' =>
      cases h
      exact Job.late_running _ _ s e s₁ hran
    | ok answer =>
      dsimp only at h
      split at h
      · exact ih _ _ _ _ h
      · obtain ⟨values, hvalues⟩ := exists_of_handOut_failed h
        exact late_decodePaged t names values e hvalues

theorem late_paginated (t : Table ρ) (text : String) (params : Params) :
    Late (paginated t E text params) := by
  intro wants s e s' hs
  simp only [consumed, paginated] at hs
  rcases hprepared : E.preparing text s with ⟨prepared, s₁⟩
  rw [hprepared] at hs
  cases prepared with
  | error e' =>
    cases hs
    exact Job.late_preparing text s e _ hprepared
  | ok names =>
    exact late_pages t text names params wants _ _ _ s₁ (toExcept_eq_error (congrArg Prod.fst hs))

theorem Late.firstOf {job : RowJob σ ρ} (h : Late job) : Job.Late (Table.firstOf job) := by
  intro s e s' hs
  rw [Table.firstOf] at hs
  have hfailed := except_map_eq_error.mp (congrArg Prod.fst hs)
  exact h (fun _ => false) s e (job (fun _ => false) s).2 (Prod.ext hfailed rfl)

end RowJob

namespace Engine.Interface

variable {σ ι : Type} {E : Interface σ} {text : String} {encode : ι →
    Except Error Params} {e : Error}

/-- Items of a statement that are stopped by a build-time error: it ran for the items before. -/
theorem forItems_recorded (hb : e.isBuildTime = true) {changed : Nat} {items : List ι} {s s' : σ}
    {log log' : List Request}
    (h : E.recorded.forItems text encode changed items (s, log) = (.error e, s', log')) :
    ∃ before item after params, items = before ++ item :: after ∧
      List.Forall₂ (fun i p => encode i = .ok p) before params ∧ encode item = .error e ∧
      log' = log ++ params.map (.run text) := by
  induction items generalizing changed s log with
  | nil => cases h
  | cons i is ih =>
    rw [forItems_cons] at h
    cases hencode : encode i with
    | error e' =>
      rw [hencode] at h
      cases h
      exact ⟨[], i, is, [], rfl, .nil, hencode, (List.append_nil _).symm⟩
    | ok params =>
      rw [hencode] at h
      dsimp only at h
      rcases hran : E.recorded.running text params (s, log) with ⟨ran, s₁, log₁⟩
      have hlog : log₁ = log ++ [.run text params] := (congrArg (·.2.2) hran).symm
      rw [hran] at h
      cases ran with
      | error e' =>
        cases h
        rw [Job.late_running text params (s, log) e _ hran] at hb
        cases hb
      | ok answer =>
        obtain ⟨before, item, after, ps, rfl, hbefore, hitem, rfl⟩ := ih h
        refine ⟨i :: before, item, after, params :: ps, rfl, .cons hencode hbefore, hitem, ?_⟩
        rw [hlog, List.append_assoc]
        rfl

/-- A batch that is stopped by a build-time error: an item has no parameters. -/
theorem batch_recorded (hb : e.isBuildTime = true) {items : List ι} {s s' : σ}
    {log log' : List Request}
    (h : E.recorded.batch text encode items (s, log) = (.error e, s', log')) :
    ∃ before item after params undo, items = before ++ item :: after ∧
      List.Forall₂ (fun i p => encode i = .ok p) before params ∧ encode item = .error e ∧
      (undo = [] ∨ undo = [.run "ROLLBACK" .empty]) ∧
      log' = log ++
        (.run "BEGIN DEFERRED" .empty :: .prepare text :: params.map (.run text) ++ undo) := by
  rw [batch_eq] at h
  -- the engine's own refusals are no build-time errors, so only an item can have stopped the batch
  have hlate : ∀ {α : Type} {job : Job (σ × List Request) α}, job.Late → ∀ {s e' s₁},
      job s = (.error e', s₁) → e' = e → False := by
    rintro α job hjob s e' s₁ hs rfl
    rw [hjob s e' s₁ hs] at hb
    cases hb
  rcases hbegin : E.recorded.control "BEGIN DEFERRED" (s, log) with ⟨begun, s₀, log₀⟩
  have hlog₀ : log₀ = log ++ [.run "BEGIN DEFERRED" .empty] := (congrArg (·.2.2) hbegin).symm
  rw [hbegin] at h
  cases begun with
  | error e' =>
    exact (hlate (Job.late_control _) hbegin (Except.error.inj (congrArg Prod.fst h))).elim
  | ok _ =>
    dsimp only at h
    rcases hprepared : E.recorded.preparing text (s₀, log₀) with ⟨prepared, s₁, log₁⟩
    have hlog₁ : log₁ = log₀ ++ [.prepare text] := (congrArg (·.2.2) hprepared).symm
    rw [hprepared] at h
    cases prepared with
    | error e' =>
      exact (hlate (Job.late_preparing _) hprepared (Except.error.inj (congrArg Prod.fst h))).elim
    | ok names =>
      dsimp only at h
      rcases hitems : E.recorded.forItems text encode 0 items (s₁, log₁) with ⟨ran, s₂, log₂⟩
      rw [hitems] at h
      cases ran with
      | ok n =>
        dsimp only at h
        rcases hcommit : E.recorded.control "COMMIT" (s₂, log₂) with ⟨committed, s₃⟩
        rw [hcommit] at h
        cases committed with
        | ok _ => cases h
        | error e' =>
          exact (hlate (Job.late_control _) hcommit (Except.error.inj (congrArg Prod.fst h))).elim
      | error e' =>
        dsimp only at h
        rw [Job.undone_recorded] at h
        obtain ⟨he, hs⟩ := Prod.mk.inj h
        obtain ⟨-, rfl⟩ := Prod.mk.inj hs
        cases he
        obtain ⟨before, item, after, params, hsplit, hbefore, hitem, hlog₂⟩ :=
          forItems_recorded hb hitems
        refine ⟨before, item, after, params,
          if E.inTransaction s₂ then [.run "ROLLBACK" .empty] else [], hsplit,
            hbefore, hitem, ?_, ?_⟩
        · split
          · exact .inr rfl
          · exact .inl rfl
        · rw [hlog₂, hlog₁, hlog₀]
          split <;> simp

end Engine.Interface

namespace Building

variable {α β : Type}

/-- What holds of all work that a table may have built. -/
def Leaves (p : α → Prop) (b : Building α) : Prop := ∀ c a c', b c = (.ok a, c') → p a

variable {p : β → Prop}

theorem leaves_pure {b : β} (h : p b) : Leaves p (pure b) := by
  intro c a c' ha
  cases ha
  exact h

theorem leaves_throw (e : Error) : Leaves p (throw e) := nofun

theorem leaves_bind (x : Building α) {f : α → Building β} (h : ∀ a, Leaves p (f a)) :
    Leaves p (x >>= f) := by
  intro c b c' hb
  rw [stateful_bind] at hb
  rcases hxc : x c with ⟨r, c₁⟩
  rw [hxc] at hb
  cases r with
  | error e => cases hb
  | ok a => exact h a c₁ b c' hb

/-- What is made of built work has what the work has. -/
theorem Leaves.map {q : α → Prop} {x : Building α} {f : α → β} (hx : Leaves q x)
    (h : ∀ a, q a → p (f a)) :
    Leaves p (x >>= fun a => pure (f a)) := by
  intro c b c' hb
  rw [stateful_bind] at hb
  rcases hxc : x c with ⟨r, c₁⟩
  rw [hxc] at hb
  cases r with
  | error e => cases hb
  | ok a =>
    cases hb
    exact h a (hx c a _ hxc)

end Building

namespace Operation

open Building

variable {σ ρ α : Type} {t : Table ρ} {E : Engine.Interface σ}

def isBatch : Operation ρ → Bool
  | .batch .. => true
  | _ => false

theorem leaves_forgetting {b : Building (Job σ α)} (h : Leaves Job.Late b) :
    Leaves Job.Late (forgetting b) :=
  h.map fun _ hjob => Job.late_bind hjob fun _ => Job.late_pure ()

theorem leaves_consuming {b : Building (RowJob σ α)} (h : Leaves RowJob.Late b) (wants : Demand α) :
    Leaves Job.Late (consuming b wants) :=
  h.map fun _ hjob => hjob wants

theorem late_records (t : Table ρ) (text : String) (params : Params) :
    RowJob.Late (E.rows text params (t.decodeRecords 0)) :=
  RowJob.late_rows text params fun _ => RowLayout.late_decodeRecord _ _

/-- Once an operation for no items is built, it has no build-time error any more. -/
theorem leaves_job (o : Operation ρ) (h : o.isBatch = false) : Leaves Job.Late (o.job t E) := by
  cases o with
  | batch => cases h
  | create options => exact leaves_bind _ fun text => leaves_pure (Job.late_define [text])
  | createIndex index => exact leaves_bind _ fun text => leaves_pure (Job.late_define [text])
  | bootstrapAll => exact leaves_bind _ fun texts => leaves_pure (Job.late_define texts)
  | insert record conflict =>
    refine leaves_forgetting (leaves_bind _ fun text => leaves_bind _ fun params => ?_)
    exact leaves_pure (Job.late_change text params)
  | insertRow row =>
    refine leaves_forgetting (leaves_bind _ fun columns => leaves_bind _ fun text => ?_)
    exact leaves_bind _ fun params => leaves_pure (Job.late_change text params)
  | select f o wants =>
    refine leaves_consuming (leaves_bind _ fun built => ?_) wants
    exact leaves_pure (late_records t built.1 built.2)
  | selectOne f o =>
    refine leaves_forgetting (leaves_bind _ fun built => ?_)
    exact leaves_pure (late_records t built.1 built.2).firstOf
  | selectRows columns f o wants =>
    refine leaves_consuming (leaves_bind _ fun columns => leaves_bind _ fun built => ?_) wants
    exact leaves_pure (RowJob.late_rows _ _ fun _ values => RowLayout.late_decodeInto values _ _)
  | selectPaginated size wants =>
    refine leaves_consuming ?_ wants
    rw [RowJob.selectPaginated_eq]
    split
    · exact leaves_throw _
    · exact leaves_bind _ fun built => leaves_pure (RowJob.late_paginated t built.1 built.2)
  | count f =>
    refine leaves_forgetting (leaves_bind _ fun built => leaves_pure ?_)
    exact Job.late_bind (Job.late_integer built.1 built.2) fun n => Job.late_pure _
  | «exists» f =>
    refine leaves_forgetting (leaves_bind _ fun built => leaves_pure ?_)
    exact Job.late_bind (Job.late_integer built.1 built.2) fun n => Job.late_pure _
  | update set f conflict =>
    refine leaves_forgetting (leaves_bind _ fun columns => leaves_bind _ fun compiled => ?_)
    refine leaves_bind _ fun text => leaves_bind _ fun params => ?_
    exact leaves_pure (Job.late_change _ _)
  | delete f =>
    refine leaves_forgetting (leaves_bind _ fun compiled => leaves_bind _ fun text => ?_)
    exact leaves_pure (Job.late_change _ _)
  | deleteReturning f wants =>
    refine leaves_consuming (leaves_bind _ fun compiled => leaves_bind _ fun text => ?_) wants
    exact leaves_pure (late_records t text compiled.2)

theorem alike_forgetting {b' : Building (Job (σ × List Engine.Request) α)} {b : Building (Job σ α)}
    (h : Alike Job.Tracks b' b) : Alike Job.Tracks (forgetting b') (forgetting b) :=
  h.map fun _ _ hjob => Job.tracks_bind hjob fun _ => Job.tracks_pure ()

theorem alike_consuming {b' : Building (RowJob (σ × List Engine.Request) α)}
    {b : Building (RowJob σ α)} (h : Alike RowJob.Tracks b' b) (wants : Demand α) :
    Alike Job.Tracks (consuming b' wants) (consuming b wants) :=
  h.map fun _ _ hjob => hjob.consumed wants

/-- An operation on a recorded engine is built like the operation on the engine, and does the
same. -/
theorem alike_job (t : Table ρ) (E : Engine.Interface σ) (o : Operation ρ) :
    Alike Job.Tracks (o.job t E.recorded) (o.job t E) := by
  cases o with
  | batch request items =>
    refine alike_forgetting ?_
    rw [BatchRequest.operation_eq, BatchRequest.operation_eq]
    refine alike_bind _ fun planned => ?_
    cases planned with
    | none => exact alike_pure (Job.tracks_pure 0)
    | some planned =>
      exact alike_bind _ fun text => alike_pure (Job.tracks_batch text planned.2 items)
  | create options => exact alike_bind _ fun text => alike_pure (Job.tracks_define [text])
  | createIndex index => exact alike_bind _ fun text => alike_pure (Job.tracks_define [text])
  | bootstrapAll => exact alike_bind _ fun texts => alike_pure (Job.tracks_define texts)
  | insert record conflict =>
    refine alike_forgetting (alike_bind _ fun text => alike_bind _ fun params => ?_)
    exact alike_pure (Job.tracks_change text params)
  | insertRow row =>
    refine alike_forgetting (alike_bind _ fun columns => alike_bind _ fun text => ?_)
    exact alike_bind _ fun params => alike_pure (Job.tracks_change text params)
  | select f o wants =>
    exact alike_consuming (alike_bind _ fun built => alike_pure (RowJob.tracks_rows _ _ _)) wants
  | selectOne f o =>
    exact alike_forgetting (alike_bind _ fun built => alike_pure (RowJob.tracks_rows _ _ _).firstOf)
  | selectRows columns f o wants =>
    refine alike_consuming (alike_bind _ fun columns => alike_bind _ fun built => ?_) wants
    exact alike_pure (RowJob.tracks_rows _ _ _)
  | selectPaginated size wants =>
    refine alike_consuming ?_ wants
    rw [RowJob.selectPaginated_eq, RowJob.selectPaginated_eq]
    split
    · exact alike_throw _
    · exact alike_bind _ fun built => alike_pure (RowJob.tracks_paginated t built.1 built.2)
  | count f =>
    refine alike_forgetting (alike_bind _ fun built => alike_pure ?_)
    exact Job.tracks_bind (Job.tracks_integer built.1 built.2) fun n => Job.tracks_pure _
  | «exists» f =>
    refine alike_forgetting (alike_bind _ fun built => alike_pure ?_)
    exact Job.tracks_bind (Job.tracks_integer built.1 built.2) fun n => Job.tracks_pure _
  | update set f conflict =>
    refine alike_forgetting (alike_bind _ fun columns => alike_bind _ fun compiled => ?_)
    refine alike_bind _ fun text => alike_bind _ fun params => ?_
    exact alike_pure (Job.tracks_change _ _)
  | delete f =>
    refine alike_forgetting (alike_bind _ fun compiled => alike_bind _ fun text => ?_)
    exact alike_pure (Job.tracks_change _ _)
  | deleteReturning f wants =>
    refine alike_consuming (alike_bind _ fun compiled => alike_bind _ fun text => ?_) wants
    exact alike_pure (RowJob.tracks_rows _ _ _)

/-- An operation for several items that was built and fails with a build-time error. -/
theorem stoppedByItem_of_batch {ι : Type} {request : BatchRequest ρ ι} {items : List ι}
    {earlier : List Shape} {job : Job (σ × List Engine.Request) Unit}
    (hjob : ((Operation.batch request items).job t E.recorded (t.newCache.requested earlier)).1 =
      .ok job)
    {s s' : σ} {log : List Engine.Request} {e : Error} (h : job (s, []) = (.error e, s', log))
    (hb : e.isBuildTime = true) : StoppedByItem t e (.batch request items) log := by
  obtain ⟨counting, hcounting, hpure⟩ := Table.building_bind_eq_ok.mp hjob
  cases hpure
  cases hplan : request.plan t (request.peeked items) with
  | error e' =>
    rw [BatchRequest.operation_eq, hplan] at hcounting
    cases hcounting
  | ok planned =>
    cases planned with
    | none =>
      rw [BatchRequest.operation_eq, hplan] at hcounting
      cases hcounting
      cases h
    | some planned =>
      obtain ⟨shape, encode⟩ := planned
      rw [BatchRequest.operation_of_plan hplan] at hcounting
      obtain ⟨text, htext, rfl⟩ := except_map_eq_ok.mp hcounting
      rw [Table.newCache, Table.statement_requested] at htext
      -- the job drops the count of the batch, but not its error
      have hbatch : E.recorded.batch text encode items (s, []) = (.error e, s', log) := by
        rw [stateful_bind] at h
        rcases hran : E.recorded.batch text encode items (s, []) with ⟨r, s₁⟩
        rw [hran] at h
        cases r with
        | error e' =>
          cases h
          rfl
        | ok n => cases h
      obtain ⟨before, item, after, params, undo, rfl, hbefore, hitem, hundo, rfl⟩ :=
        Engine.Interface.batch_recorded hb hbatch
      exact .stopped hplan htext hbefore hitem hundo

end Operation

/-- An operation that answers a build-time error has asked the engine for nothing, unless it is one
for several items that was stopped by an item without parameters. -/
theorem build_time_error_requests {σ ρ : Type} (t : Table ρ) (E : Engine.Interface σ)
    (earlier : List Shape) (o : Operation ρ) (s : σ) {e : Error}
    (h : (o.run t E earlier s).1 = .error e) (hb : e.isBuildTime = true) :
    (o.run t E.recorded earlier (s, [])).1 = .error e ∧
      ((o.run t E.recorded earlier (s, [])).2.connection = (s, []) ∨
        StoppedByItem t e o (o.run t E.recorded earlier (s, [])).2.connection.2) := by
  rw [Operation.run] at h ⊢
  rcases Operation.alike_job t E o (t.newCache.requested earlier) with
    ⟨recorded, job, c, hrecorded, hjob, htracks⟩ | ⟨e', c, hrecorded, hjob⟩
  · have hbuilt := congrArg Prod.fst hrecorded
    rw [Building.runDirect_of_ok (congrArg Prod.fst hjob)] at h
    rw [Building.runDirect_of_ok hbuilt]
    dsimp only at h ⊢
    rw [htracks s []] at h
    rcases hran : recorded (s, []) with ⟨r, s', log⟩
    rw [hran] at h
    cases h
    refine ⟨rfl, .inr ?_⟩
    cases hbatch : o.isBatch with
    | false =>
      have hlate := Operation.leaves_job o hbatch _ recorded c hrecorded
      rw [hlate (s, []) e (s', log) hran] at hb
      cases hb
    | true =>
      cases o with
      | batch request items => exact Operation.stoppedByItem_of_batch hbuilt hran hb
      | _ => cases hbatch
  · rw [Building.runDirect_of_error (congrArg Prod.fst hjob)] at h
    rw [Building.runDirect_of_error (congrArg Prod.fst hrecorded)]
    cases h
    exact ⟨rfl, .inl rfl⟩

open Example

/-- A column that is not declared is refused before anything is asked; a text behind a number is
refused in the transaction. -/
theorem build_time_error_requests_of_numbers :
    (Operation.run numbers Engine.Connection.interface.recorded [] (.insertRow (oneInteger "x" 1))
        (numbersAt, [])).2.connection = (numbersAt, []) ∧
      StoppedByItem numbers (.validation (.column "id" (.cannotStore .text "Integer")))
        (.batch .insertRows numberThenText)
        (Operation.run numbers Engine.Connection.interface.recorded []
          (.batch .insertRows numberThenText)
          (numbersAt, [])).2.connection.2 := by
  constructor
  · have h := build_time_error_requests numbers Engine.Connection.interface []
      (.insertRow (oneInteger "x" 1))
      numbersAt (e := .schema (.unknownColumn "x")) (by decide +kernel) rfl
    rcases h.2 with hnothing | hstopped
    · exact hnothing
    · cases hstopped
  · have h := build_time_error_requests numbers Engine.Connection.interface []
      (.batch .insertRows numberThenText) numbersAt
      (e := .validation (.column "id" (.cannotStore .text "Integer"))) (by decide +kernel) rfl
    have hasked : ((Operation.run numbers Engine.Connection.interface.recorded []
        (.batch .insertRows numberThenText) (numbersAt, [])).2.connection.2).length =
          4 := by decide +kernel
    rcases h.2 with hnothing | hstopped
    · rw [hnothing] at hasked
      cases hasked
    · exact hstopped

/-- A transaction is begun and undone around a number that was stored, though the error is one of
build time. -/
theorem build_time_error_in_transaction :
    ∃ e, (Operation.run numbers Engine.Connection.interface [] (.batch .insertRows numberThenText)
        numbersAt).1 = .error e ∧
      e.isBuildTime = true ∧
      ((Operation.run numbers Engine.Connection.interface.recorded []
        (.batch .insertRows numberThenText)
        (numbersAt, [])).2.connection.2).map Engine.Request.text =
          ["BEGIN DEFERRED", "INSERT INTO numbers (id) VALUES (:id)",
            "INSERT INTO numbers (id) VALUES (:id)", "ROLLBACK"] := by
  refine ⟨.validation (.column "id" (.cannotStore .text "Integer")), ?_, rfl, ?_⟩
  · decide +kernel
  · decide +kernel

end TypedTables
