import TypedTables.Executor
import TypedTables.Table.Insert

/-!
# What is built besides the statements that are cached

A cache that only requests have changed answers the text that would be built without it, or the same
error. So the statement of an operation does not depend on what the table was asked for earlier.
-/
namespace TypedTables

/-- What a chain of computations with errors has computed, if it succeeded. -/
theorem except_bind_eq_ok {ε α β : Type} {x : Except ε α} {f : α → Except ε β} {b : β} :
    x >>= f = .ok b ↔ ∃ a, x = .ok a ∧ f a = .ok b := by
  cases x with
  | error e => simp [bind, Except.bind]
  | ok a => simp [bind, Except.bind]

theorem except_ok_bind {ε α β : Type} (a : α) (f : α → Except ε β) : (Except.ok a >>= f) = f a :=
  rfl

theorem except_map_eq_ok {ε α β : Type} {x : Except ε α} {f : α → β} {b : β} :
    x.map f = .ok b ↔ ∃ a, x = .ok a ∧ f a = b := by
  cases x with
  | error e => simp [Except.map]
  | ok a => simp [Except.map]

theorem except_bind_eq_error {ε α β : Type} {x : Except ε α} {f : α → Except ε β} {e : ε} :
    (x >>= f) = .error e ↔ x = .error e ∨ ∃ a, x = .ok a ∧ f a = .error e := by
  cases x with
  | error e' => simp [bind, Except.bind]
  | ok a => simp [bind, Except.bind]

theorem except_map_eq_error {ε α β : Type} {x : Except ε α} {f : α → β} {e : ε} :
    x.map f = .error e ↔ x = .error e := by
  cases x with
  | error e => simp [Except.map]
  | ok a => simp [Except.map]

theorem except_mapError_ok {ε δ α : Type} (f : ε → δ) (a : α) :
    (Except.ok a : Except ε α).mapError f = .ok a := rfl

theorem except_mapError_error {ε δ α : Type} (f : ε → δ) (e : ε) :
    (Except.error e : Except ε α).mapError f = .error (f e) := rfl

theorem except_mapError_eq_ok {ε δ α : Type} {x : Except ε α} {f : ε → δ} {a : α} :
    x.mapError f = .ok a ↔ x = .ok a := by
  cases x with
  | error e => simp [except_mapError_error]
  | ok b => simp [except_mapError_ok]

theorem except_mapError_eq_error {ε δ α : Type} {x : Except ε α} {f : ε → δ} {e : δ} :
    x.mapError f = .error e ↔ ∃ fault, x = .error fault ∧ f fault = e := by
  cases x with
  | error fault => simp [except_mapError_error]
  | ok a => simp [except_mapError_ok]

/-- Two steps with a state and errors: the second one runs if the first one succeeded. -/
theorem stateful_bind {σ α β : Type} (x : ExceptT Error (StateM σ) α)
    (f : α → ExceptT Error (StateM σ) β) (s : σ) :
    (x >>= f) s = match x s with
      | (.error e, s) => (.error e, s)
      | (.ok a, s) => f a s := by
  simp only [bind, ExceptT.bind, ExceptT.mk, StateT.bind, ExceptT.bindCont]
  rcases x s with ⟨r, s⟩
  cases r <;> rfl

namespace StatementCache

def requested (c : StatementCache) (shapes : List Shape) : StatementCache :=
  shapes.foldl (fun c shape => (c.get shape).2) c

/-- Every kept statement is the one that would be built. -/
def Faithful (c : StatementCache) : Prop :=
  ∀ shape object, c.find? shape = some object → c.build shape = .ok object.content

structure Answers (c : StatementCache) (shape : Shape) : Prop where
  text : (c.get shape).1.map Shared.content = c.build shape
  faithful : (c.get shape).2.Faithful
  schema : (c.get shape).2.schema = c.schema
  table : (c.get shape).2.table = c.table

theorem faithful_new (s : Schema) (table : TableName) : (new s table).Faithful := by
  intro shape object h
  simp [find?, new, SharedMap.find?, SharedMap.empty] at h

/-- One more statement that would be built keeps the cache faithful. -/
theorem Faithful.added {c c' : StatementCache} (hc : c.Faithful) {shape : Shape}
    {object : Shared String}
    (hentries : c'.statements.entries = c.statements.entries ++ [(shape, object)])
    (hbuild : ∀ shape, c'.build shape = c.build shape) (h : c.build shape = .ok object.content) :
    c'.Faithful := by
  intro other kept hfind
  rw [hbuild]
  simp only [find?, SharedMap.find?, hentries, List.find?_append, Option.map_or] at hfind
  rcases Option.or_eq_some_iff.mp hfind with hold | ⟨-, hadded⟩
  · exact hc other kept hold
  · simp only [List.find?_singleton, decide_eq_true_eq] at hadded
    split at hadded
    next heq =>
      cases hadded
      rw [← heq]
      exact h
    · simp at hadded

/-- Storing the text that was built keeps the cache faithful. -/
theorem faithful_store {c : StatementCache} (hc : c.Faithful) {shape : Shape} {text : String}
    (h : c.build shape = .ok text) (hnew : c.find? shape = none) :
    (c.store shape text).1.content = text ∧ (c.store shape text).2.Faithful ∧
      (c.store shape text).2.schema = c.schema ∧ (c.store shape text).2.table = c.table := by
  have hissued : ∀ n, SharedMap.find? ⟨c.statements.entries, n⟩ shape = none := fun _ => hnew
  simp only [store, SharedMap.issue, find?, hissued]
  split
  · exact ⟨rfl, hc, rfl, rfl⟩
  · simp only [SharedMap.insertIfAbsent, hissued]
    exact ⟨trivial, hc.added rfl (fun _ => rfl) h, trivial, trivial⟩

theorem answers {c : StatementCache} (hc : c.Faithful) (shape : Shape) : c.Answers shape := by
  cases hf : c.find? shape with
  | some object =>
    have hget : c.get shape = (.ok object, c) := by simp [get, hf]
    constructor <;> rw [hget]
    · exact (hc shape object hf).symm
    · exact hc
  | none =>
    cases hb : c.build shape with
    | error e =>
      have hget : c.get shape = (.error e, c) := by simp [get, hf, hb]
      constructor <;> rw [hget]
      · exact hb.symm
      · exact hc
    | ok text =>
      have hget : c.get shape = (.ok (c.store shape text).1, (c.store shape text).2) := by
        simp [get, hf, hb]
      obtain ⟨htext, hfaithful, hschema, htable⟩ := faithful_store hc hb hf
      constructor <;> rw [hget]
      · rw [hb, Except.map, htext]
      · exact hfaithful
      · exact hschema
      · exact htable

/-- After any requests a new cache is faithful, for the same schema and table. -/
theorem requested_new (s : Schema) (table : TableName) (shapes : List Shape) :
    ((new s table).requested shapes).Faithful ∧ ((new s table).requested shapes).schema = s ∧
      ((new s table).requested shapes).table = table := by
  suffices h : ∀ c : StatementCache, c.Faithful → (c.requested shapes).Faithful ∧
      (c.requested shapes).schema = c.schema ∧ (c.requested shapes).table = c.table from
    h _ (faithful_new s table)
  induction shapes with
  | nil => exact fun c hc => ⟨hc, rfl, rfl⟩
  | cons shape shapes ih =>
    intro c hc
    have ha := answers hc shape
    obtain ⟨h₁, h₂, h₃⟩ := ih _ ha.faithful
    exact ⟨h₁, h₂.trans ha.schema, h₃.trans ha.table⟩

end StatementCache

namespace Table

variable {α β : Type}

/-- What two steps of building have built, if both succeeded. -/
theorem building_bind_eq_ok {x : Building α} {f : α → Building β} {c : StatementCache} {b : β} :
    ((x >>= f) c).1 = .ok b ↔ ∃ a, (x c).1 = .ok a ∧ (f a (x c).2).1 = .ok b := by
  rw [stateful_bind]
  rcases hx : x c with ⟨r, c'⟩
  cases r with
  | error e => simp
  | ok a => simp

@[simp] theorem building_pure (a : α) (c : StatementCache) : (pure a : Building α) c = (.ok a, c) :=
  rfl

@[simp] theorem checked_apply (r : Except Error α) (c : StatementCache) : checked r c = (r, c) :=
  rfl

/-- The text of a statement is what its shape says, whatever was asked for before. -/
theorem statement_requested (s : Schema) (table : TableName)
    (earlier : List Shape) (shape : Shape) :
    (statement shape ((StatementCache.new s table).requested earlier)).1 =
      s.statementText table shape := by
  obtain ⟨hc, hs, ht⟩ := StatementCache.requested_new s table earlier
  have h := (StatementCache.answers hc shape).text
  rw [StatementCache.build, hs, ht] at h
  exact h

end Table

namespace Building

variable {σ α ρ : Type}

/-- An operation that was built runs its job on the connection. -/
theorem runDirect_of_ok {b : Building (Job σ α)} {job : Job σ α} {s : Session σ}
    (h : (b s.statements).1 = .ok job) :
    b.runDirect s = ((job s.connection).1, ⟨(b s.statements).2, (job s.connection).2⟩) := by
  rcases hb : b s.statements with ⟨r, statements⟩
  rw [hb] at h
  cases h
  rw [runDirect, stateful_bind, build, hb]
  rfl

/-- An operation that was not built leaves the connection alone. -/
theorem runDirect_of_error {b : Building (Job σ α)} {e : Error} {s : Session σ}
    (h : (b s.statements).1 = .error e) :
    b.runDirect s = (.error e, ⟨(b s.statements).2, s.connection⟩) := by
  rcases hb : b s.statements with ⟨r, statements⟩
  rw [hb] at h
  cases h
  rw [runDirect, stateful_bind, build, hb]

/-- An operation that was built hands its rows to the consumer. -/
theorem handOutDirect_of_ok {b : Building (RowJob σ ρ)} {job : RowJob σ ρ} {s : Session σ}
    (h : (b s.statements).1 = .ok job) (wants : Demand ρ) :
    b.handOutDirect wants s =
      (.ok (job wants s.connection).1, ⟨(b s.statements).2, (job wants s.connection).2⟩) := by
  rcases hb : b s.statements with ⟨r, statements⟩
  rw [hb] at h
  cases h
  rw [handOutDirect, stateful_bind, build, hb]
  rfl

/-- All rows of an operation that was built are collected, or the error that ended them. -/
theorem collectDirect_of_ok {b : Building (RowJob σ ρ)} {job : RowJob σ ρ} {s : Session σ}
    (h : (b s.statements).1 = .ok job) :
    b.collectDirect s = ((job wantsAll s.connection).1.collect,
      ⟨(b s.statements).2, (job wantsAll s.connection).2⟩) := by
  rw [collectDirect, stateful_bind, handOutDirect_of_ok h]
  dsimp only
  cases (job wantsAll s.connection).1.collect <;> rfl

/-- An operation with rows that was not built leaves the connection alone. -/
theorem collectDirect_of_error {b : Building (RowJob σ ρ)} {e : Error} {s : Session σ}
    (h : (b s.statements).1 = .error e) :
    b.collectDirect s = (.error e, ⟨(b s.statements).2, s.connection⟩) := by
  rcases hb : b s.statements with ⟨r, statements⟩
  rw [hb] at h
  cases h
  rw [collectDirect, stateful_bind, handOutDirect, stateful_bind, build, hb]

end Building

end TypedTables
