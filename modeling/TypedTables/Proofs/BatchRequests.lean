import TypedTables.Example.Tables
import TypedTables.Proofs.ConnectionTransactions
import TypedTables.Table.Update

/-!
# Requests for several items

Three requests run one statement for each of several items: records that are inserted, rows that are
inserted, and pairs of rows to set and to compare with. They differ in the statement and in how an
item is encoded, which depend on no item but the first one; everything else is the batch that they
leave over.
-/
namespace TypedTables

def Shape.changesRows : Shape → Bool
  | .insert _ | .update _ => true
  | _ => false

theorem startsChange_statementText {s : Schema} {table : TableName} {shape : Shape} {text : String}
    (hshape : shape.changesRows = true) (h : s.statementText table shape = .ok text) :
    Engine.StartsChange text := by
  rw [Schema.statementText, except_map_eq_ok] at h
  obtain ⟨statement, hstatement, rfl⟩ := h
  have hinsert : Engine.StartsChange "INSERT " := ⟨[], .inl rfl⟩
  have hupdate : Engine.StartsChange "UPDATE " := ⟨[], .inr rfl⟩
  cases shape with
  | insert shape =>
    obtain ⟨columns, -, h⟩ := except_bind_eq_ok.mp hstatement
    obtain ⟨returned, -, h⟩ := except_bind_eq_ok.mp h
    cases h
    exact ((((hinsert.append _).append _).append _).append _).append _
  | update shape =>
    obtain ⟨set, -, h⟩ := except_bind_eq_ok.mp hstatement
    split at h
    · cases h
    obtain ⟨condition, -, h⟩ := except_bind_eq_ok.mp h
    cases h
    exact ((((hupdate.append _).append _).append _).append _).append _
  | _ => cases hshape

inductive BatchRequest (ρ : Type) : Type → Type where
  | insertMany (conflict : Option Conflict) : BatchRequest ρ ρ
  | insertRows : BatchRequest ρ Row
  | updateMany (columns : List String) (predicate : Predicate) : BatchRequest ρ (Row × Row)

namespace BatchRequest

variable {σ ρ ι : Type}

def operation (t : Table ρ) (E : Engine.Interface σ) :
    BatchRequest ρ ι → List ι → Building (Job σ Nat)
  | .insertMany conflict, records => t.insertMany E records conflict
  | .insertRows, rows => t.insertRows E rows
  | .updateMany columns predicate, pairs => t.updateMany E columns predicate pairs

/-- The item that a request looks at before it runs. -/
def peeked : BatchRequest ρ ι → List ι → Option ι
  | .insertRows, rows => rows.head?
  | _, _ => none

/-- The statement of a request and how it encodes an item; there is none for no rows. -/
def plan (t : Table ρ) :
    BatchRequest ρ ι → Option ι → Except Error (Option (Shape × (ι → Except Error Params)))
  | .insertMany conflict, _ =>
    .ok (some (.insert ⟨.all, conflict, none⟩, t.schema.encodeRecord t.type))
  | .insertRows, none => .ok none
  | .insertRows, some first => do
    let columns ← t.schema.orderedNames first
    .ok (some (.insert ⟨.only columns, none, none⟩, t.encodeAlike columns))
  | .updateMany columns predicate, _ => do
    let columns ← t.schema.ordered columns
    let predicate ← t.orderedPredicate predicate
    .ok (some (.update ⟨columns, predicate, none⟩, t.encodeUpdate columns predicate))

/-- A request leaves over the batch of its plan. -/
theorem operation_eq (t : Table ρ) (E : Engine.Interface σ)
    (request : BatchRequest ρ ι) (items : List ι) :
    request.operation t E items = (do
      match ← Table.checked (request.plan t (request.peeked items)) with
      | none => return pure 0
      | some (shape, encode) => do
        let text ← Table.statement shape
        return E.batch text encode items) := by
  cases request with
  | insertMany conflict => rfl
  | insertRows =>
    cases items with
    | nil => rfl
    | cons first rows =>
      rw [operation, Table.insertRows]
      change _ = (Table.checked (t.schema.orderedNames first >>= _) >>= _)
      cases t.schema.orderedNames first <;> rfl
  | updateMany columns predicate =>
    rw [operation, Table.updateMany]
    change _ = (Table.checked (t.schema.ordered columns >>= _) >>= _)
    cases t.schema.ordered columns with
    | error e => rfl
    | ok columns =>
      change (Table.checked (t.orderedPredicate predicate) >>= _) =
        (Table.checked (t.orderedPredicate predicate >>= _) >>= _)
      cases t.orderedPredicate predicate <;> rfl

theorem plan_changesRows {t : Table ρ} {request : BatchRequest ρ ι}
    {first : Option ι} {shape : Shape} {encode : ι → Except Error Params}
    (h : request.plan t first = .ok (some (shape, encode))) :
    shape.changesRows = true := by
  cases request with
  | insertMany conflict =>
    cases h
    rfl
  | insertRows =>
    cases first with
    | none => cases h
    | some first =>
      obtain ⟨columns, -, h⟩ := except_bind_eq_ok.mp h
      cases h
      rfl
  | updateMany columns predicate =>
    obtain ⟨columns, -, h⟩ := except_bind_eq_ok.mp h
    obtain ⟨predicate, -, h⟩ := except_bind_eq_ok.mp h
    cases h
    rfl

theorem items_of_unplanned {t : Table ρ} {request : BatchRequest ρ ι} {items : List ι}
    (h : request.plan t (request.peeked items) = .ok none) : items = [] := by
  cases request with
  | insertMany conflict => cases h
  | insertRows =>
    cases items with
    | nil => rfl
    | cons first rows =>
      obtain ⟨columns, -, h⟩ := except_bind_eq_ok.mp h
      cases h
  | updateMany columns predicate =>
    obtain ⟨columns, -, h⟩ := except_bind_eq_ok.mp h
    obtain ⟨predicate, -, h⟩ := except_bind_eq_ok.mp h
    cases h

/-- Behind an item nothing else is looked at. -/
theorem peeked_append (request : BatchRequest ρ ι) {consumed : List ι} (h : consumed ≠ [])
    (later rest : List ι) :
    request.peeked (consumed ++ later) = request.peeked (consumed ++ rest) := by
  cases request with
  | insertRows =>
    cases consumed with
    | nil => exact absurd rfl h
    | cons first consumed => rfl
  | _ => rfl

/-- Runs a request for items on a connection, with a table that was asked for statements before. -/
def run (t : Table ρ) (E : Engine.Interface σ) (earlier : List Shape)
    (request : BatchRequest ρ ι) (s : σ) (items : List ι) : Except Error Nat × Session σ :=
  (request.operation t E items).runDirect ⟨t.newCache.requested earlier, s⟩

variable {t : Table ρ} {E : Engine.Interface σ} {request : BatchRequest ρ ι}

/-- A request whose plan fails does not reach the connection. -/
theorem run_of_unplannable {e : Error} {items : List ι} (earlier : List Shape)
    (h : request.plan t (request.peeked items) = .error e) (s : σ) :
    request.run t E earlier s items = (.error e, ⟨t.newCache.requested earlier, s⟩) := by
  rw [run, operation_eq, h]
  rfl

theorem run_of_unplanned {items : List ι} (earlier : List Shape)
    (h : request.plan t (request.peeked items) = .ok none) (s : σ) :
    request.run t E earlier s items = (.ok 0, ⟨t.newCache.requested earlier, s⟩) := by
  rw [run, operation_eq, h]
  rfl

/-- The session after the statement of a shape was requested. -/
def stated (t : Table ρ) (earlier : List Shape) (shape : Shape) (s : σ) : Session σ :=
  ⟨(Table.statement shape (t.newCache.requested earlier)).2, s⟩

variable {shape : Shape} {encode : ι → Except Error Params} {items : List ι} (earlier : List Shape)

theorem operation_of_plan (h : request.plan t (request.peeked items) = .ok (some (shape, encode)))
    (c : StatementCache) :
    request.operation t E items c =
      ((Table.statement shape c).1.map fun text => E.batch text encode items,
        (Table.statement shape c).2) := by
  rw [operation_eq, h, stateful_bind]
  change (Table.statement shape >>= fun text => Pure.pure (E.batch text encode items)) c = _
  rw [stateful_bind]
  rcases Table.statement shape c with ⟨r, c'⟩
  cases r <;> rfl

theorem run_of_unstated (h : request.plan t (request.peeked items) = .ok (some (shape, encode)))
    {e : Error} (htext : t.schema.statementText t.name shape = .error e) (s : σ) :
    request.run t E earlier s items = (.error e, stated t earlier shape s) := by
  have hoperation := operation_of_plan (E := E) h (t.newCache.requested earlier)
  have hstatement := Table.statement_requested t.schema t.name earlier shape
  rw [htext] at hstatement
  have hbuilt : (request.operation t E items (t.newCache.requested earlier)).1 = .error e := by
    rw [hoperation, Table.newCache, hstatement]
    rfl
  have hrun := Building.runDirect_of_error (s := ⟨t.newCache.requested earlier, s⟩) hbuilt
  rw [run, hrun, hoperation]
  rfl

/-- A request with a statement runs the batch. -/
theorem run_of_plan (h : request.plan t (request.peeked items) = .ok (some (shape, encode)))
    {text : String} (htext : t.schema.statementText t.name shape = .ok text) (s : σ) :
    request.run t E earlier s items =
      ((E.batch text encode items s).1,
        stated t earlier shape (E.batch text encode items s).2) := by
  have hoperation := operation_of_plan (E := E) h (t.newCache.requested earlier)
  have hstatement := Table.statement_requested t.schema t.name earlier shape
  rw [htext] at hstatement
  have hbuilt : (request.operation t E items (t.newCache.requested earlier)).1 =
      .ok (E.batch text encode items) := by
    rw [hoperation, Table.newCache, hstatement]
    rfl
  have hrun := Building.runDirect_of_ok (s := ⟨t.newCache.requested earlier, s⟩) hbuilt
  rw [run, hrun, hoperation]
  rfl

/-- What a request that succeeded did: its statement ran once for each item, in order, in a
transaction that was committed. For no rows there is no statement, and it did nothing. -/
inductive Done {D : Type} (t : Table ρ) (E : Engine.Interface σ) (db : σ → D)
    (request : BatchRequest ρ ι) (s : σ) (items : List ι) : Nat → σ → Prop where
  | nothing (planned : request.plan t (request.peeked items) = .ok none) (none : items = []) :
    Done t E db request s items 0 s
  | batch {shape : Shape} {encode : ι → Except Error Params} {text : String} {n : Nat} {s' : σ}
    (planned : request.plan t (request.peeked items) = .ok (some (shape, encode)))
    (stated : t.schema.statementText t.name shape = .ok text)
    (completed : E.Completed db text encode s items n s') : Done t E db request s items n s'

/-- Where a request stopped that failed. Either it consumed some items, of which the last one was
refused; then the answer is the same whatever items come later, and if none was consumed it depends
on later items only through the one that is looked at. Or all items ran, but the transaction could
not be committed. -/
inductive Halted (t : Table ρ) (E : Engine.Interface σ) (earlier : List Shape)
    (request : BatchRequest ρ ι) (s : σ) (items : List ι) (e : Error) : Prop where
  | stopped {consumed rest : List ι} (split : items = consumed ++ rest)
    (last : consumed = [] ∨ ∃ shape encode text s₁ s₂,
      request.plan t (request.peeked items) = .ok (some (shape, encode)) ∧
      t.schema.statementText t.name shape = .ok text ∧
      E.Started text s s₁ ∧ Engine.Interface.Stopped E text encode s₁ consumed e s₂)
    (same : ∀ later, (consumed = [] → request.peeked later = request.peeked items) →
      request.run t E earlier s (consumed ++ later) = request.run t E earlier s items)
  | uncommitted {shape : Shape} {encode : ι → Except Error Params} {text : String}
      {s₁ s₂ s₃ : σ} {n : Nat}
    (planned : request.plan t (request.peeked items) = .ok (some (shape, encode)))
    (stated : t.schema.statementText t.name shape = .ok text)
    (started : E.Started text s s₁) (ran : Engine.Interface.Ran E text encode s₁ items n s₂)
    (refused : E.control "COMMIT" s₂ = (.error e, s₃))

end BatchRequest

/-- A request for several items that starts outside a transaction happens as a whole or not at all.
If it answers a number, every item was encoded and executed once, in order, and the number counts
the rows that they changed. If it answers an error, the database is what it was before and no later
item was consumed. -/
theorem batch_all_or_nothing {σ ρ ι D : Type} {t : Table ρ} {E : Engine.Interface σ} {db : σ → D}
    {since : σ → D → Prop}
    (hE : ∀ shape text, shape.changesRows = true → t.schema.statementText t.name shape = .ok text →
      E.Transactional db since text)
    (request : BatchRequest ρ ι) (earlier : List Shape) {s : σ} (hs : E.inTransaction s = false)
    (items : List ι) :
    match request.run t E earlier s items with
    | (.ok n, session) => request.Done t E db s items n session.connection
    | (.error e, session) =>
      E.Undone db s session.connection ∧ request.Halted t E earlier s items e := by
  cases hplan : request.plan t (request.peeked items) with
  | error e =>
    have hrun := BatchRequest.run_of_unplannable (E := E) earlier hplan s
    rw [hrun]
    refine ⟨⟨rfl, hs⟩, .stopped rfl (.inl rfl) fun later hpeeked => ?_⟩
    rw [← hpeeked rfl] at hplan
    rw [hrun]
    exact BatchRequest.run_of_unplannable earlier hplan s
  | ok plan =>
    cases plan with
    | none =>
      rw [BatchRequest.run_of_unplanned earlier hplan s]
      exact .nothing hplan (BatchRequest.items_of_unplanned hplan)
    | some plan =>
      obtain ⟨shape, encode⟩ := plan
      cases htext : t.schema.statementText t.name shape with
      | error e =>
        have hrun := BatchRequest.run_of_unstated (E := E) earlier hplan htext s
        rw [hrun]
        refine ⟨⟨rfl, hs⟩, .stopped rfl (.inl rfl) fun later hpeeked => ?_⟩
        rw [← hpeeked rfl] at hplan
        rw [hrun]
        exact BatchRequest.run_of_unstated earlier hplan htext s
      | ok text =>
        have htransactional := hE shape text (BatchRequest.plan_changesRows hplan) htext
        have hends := htransactional.batch_ends hs encode items
        have hrun := BatchRequest.run_of_plan (E := E) earlier hplan htext s
        rw [hrun]
        generalize E.batch text encode items s = answer at hends hrun
        cases hends with
        | done completed => exact .batch hplan htext completed
        | @stopped consumed rest e s' split last same undone =>
          refine ⟨undone, .stopped split ?_ fun later hpeeked => ?_⟩
          · rcases last with hnone | ⟨s₁, s₂, hstarted, hstopped⟩
            · exact .inl hnone
            · exact .inr ⟨shape, encode, text, s₁, s₂, hplan, htext, hstarted, hstopped⟩
          · have hlooked : request.peeked (consumed ++ later) = request.peeked items := by
              by_cases hc : consumed = []
              · rw [hc]
                exact hpeeked hc
              · rw [split]
                exact request.peeked_append hc later rest
            rw [← hlooked] at hplan
            rw [hrun, BatchRequest.run_of_plan earlier hplan htext s, same later]
        | uncommitted started ran refused undone =>
          exact ⟨undone, .uncommitted hplan htext started ran refused⟩

open Example

/-- Of the numbers 7 and 5 the second one is stored already, so neither is inserted; 7 and 8 both
are. -/
theorem batch_all_or_nothing_of_numbers :
    (∃ e session,
        (BatchRequest.insertMany none).run numbers Engine.Connection.interface [] numbersAt [7, 5] =
        (.error e, session) ∧ session.connection.catalog = numbersAt.catalog) ∧
      ∃ session, (BatchRequest.insertMany none).run numbers Engine.Connection.interface
        [] numbersAt [7, 8] =
        (.ok 2, session) ∧
        (BatchRequest.insertMany none).Done numbers Engine.Connection.interface
          Engine.Connection.catalog
          numbersAt [7, 8] 2 session.connection := by
  have h := fun items => batch_all_or_nothing (t := numbers) (E := Engine.Connection.interface)
    (fun shape text hshape htext =>
      Engine.Connection.transactional (startsChange_statementText hshape htext))
    (.insertMany none) [] (s := numbersAt) rfl items
  constructor
  · have hrefused :
        ∃ e, ((BatchRequest.insertMany none).run numbers Engine.Connection.interface [] numbersAt
        [7, 5]).1 = .error e :=
          ⟨.refused "INSERT INTO numbers (id) VALUES (:id)"
            (.uniqueFailed ["numbers.id"]), by decide +kernel⟩
    obtain ⟨e, he⟩ := hrefused
    have hfive := h [7, 5]
    rcases hrun :
      (BatchRequest.insertMany none).run numbers Engine.Connection.interface []
        numbersAt [7, 5] with
      ⟨result, session⟩
    rw [hrun] at he hfive
    cases he
    exact ⟨e, session, rfl, hfive.1.db_eq⟩
  · have htwo :
      ((BatchRequest.insertMany none).run numbers Engine.Connection.interface []
        numbersAt [7, 8]).1 =
        .ok 2 := by decide +kernel
    have height := h [7, 8]
    rcases hrun :
      (BatchRequest.insertMany none).run numbers Engine.Connection.interface []
        numbersAt [7, 8] with
      ⟨result, session⟩
    rw [hrun] at htwo height
    cases htwo
    exact ⟨session, rfl, height⟩

end TypedTables
