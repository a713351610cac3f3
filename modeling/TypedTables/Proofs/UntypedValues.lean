import TypedTables.Proofs.FieldRoundTrips
import TypedTables.Proofs.TimestampColumns
import TypedTables.Table.Raw

/-!
# Values that are bound without a column

Values of eight kinds are stored as values of five, so that a truth value is bound as an integer,
and a timestamp and JSON are bound as texts. The type that a value is read as undoes this: what an
engine returns as it was bound is read as the value that it was, by itself or as one that may be
missing.
-/
namespace TypedTables

section Recovered

variable {α : Type} [ToValue α] [FromValue α]

/-- What is bound for a value without a column is read as the value. -/
def Recovered (a : α) : Prop := fromValue (Value.ofStored (toValue a).toStored) = .ok a

/-- A value under a name is bound in the same way by a clause and by a statement of the caller.
Where an engine returns it as it was bound, it is read as itself in the result of the statement, and
taken as itself out of a row. -/
structure ComesBack (a : α) (params : Row) (name : String) : Prop where
  bound : (Params.ofRow params).get? name = some (toValue a).toStored
  compared : ∀ (s : Schema) (mark clause : String),
    (Filter.raw clause params).compile s mark = .ok (.raw clause params.names, .ofRow params)
  executed : ∀ {σ : Type} (E : Engine.Interface σ) (text : String)
    (c : StatementCache) {s s₁ s₂ : σ}
    {columns : List String} {answer : Engine.Answer}, E.prepare text s = (.ok columns, s₁) →
    E.run text (.ofRow params) s₁ = (.ok answer, s₂) →
    ∃ result, (executeRaw E text params).runDirect ⟨c, s⟩ = (.ok result, ⟨c, s₂⟩) ∧
      ∀ row place : Nat, answer.rows[row]?.bind (·[place]?) = (Params.ofRow params).get? name →
        ∃ v, result.rows[row]?.bind (·[place]?) = some v ∧ fromValue v = .ok a
  taken : ∀ (row : Row) (column : String), row.get? column = some (.ofStored (toValue a).toStored) →
    Row.take α column row = (.ok a, row.erase column)

omit [ToValue α] in
theorem Row.take_of_get? {row : Row} {column : String} {v : Value} {a : α}
    (h : row.get? column = some v) (hread : fromValue v = .ok a) :
    Row.take α column row = (.ok a, row.erase column) := by
  have hvalue : fromValue ((row.get? column).getD .null) = .ok a := by
    rw [h, Option.getD_some, hread]
  have hget : (get : Row.Reader Row) row = (.ok row, row) := rfl
  have hset : (set (row.erase column) : Row.Reader PUnit) row = (.ok ⟨⟩, row.erase column) := rfl
  simp only [Row.take, stateful_bind, hget, hset, hvalue]
  rfl

/-- The result of a statement of the caller is what the engine answered, value by value. -/
theorem executeRaw_of_run {σ : Type} {E : Engine.Interface σ} {text : String} {params : Row}
    (c : StatementCache) {s s₁ s₂ : σ} {columns : List String} {answer : Engine.Answer}
    (hprepare : E.prepare text s = (.ok columns, s₁))
    (hrun : E.run text (.ofRow params) s₁ = (.ok answer, s₂)) :
      (executeRaw E text params).runDirect ⟨c, s⟩ =
      (.ok ⟨columns, answer.rows.map (·.map Value.ofStored), answer.changes⟩, ⟨c, s₂⟩) := by
  rw [Building.runDirect_of_ok rfl, stateful_bind, Engine.Interface.preparing, hprepare]
  dsimp only [except_mapError_ok]
  rw [stateful_bind, Engine.Interface.running, hrun]
  rfl

/-- What is recovered comes back under every name that it is bound to. -/
theorem Recovered.comesBack {a : α} (h : Recovered a) {params : Row} {name : String}
    (hname : params.get? name = some (toValue a)) : ComesBack a params name where
  bound := Params.get?_ofRow hname
  compared _ _ _ := rfl
  executed E text c _ _ _ _ answer hprepare hrun := by
    refine ⟨_, executeRaw_of_run c hprepare hrun, fun row place hcell => ?_⟩
    rw [Params.get?_ofRow hname, Option.bind_eq_some_iff] at hcell
    obtain ⟨values, hvalues, hstored⟩ := hcell
    refine ⟨.ofStored (toValue a).toStored, ?_, h⟩
    simp only [List.getElem?_map, hvalues, Option.map_some, Option.bind_some, hstored]
  taken _ _ hrow := Row.take_of_get? hrow h

/-- A value that is not stored as NULL is recovered as one that may be missing, too. -/
theorem recovered_some_iff {a : α} (h : (toValue a).toStored ≠ .null) :
    Recovered (some a) ↔ Recovered a := by
  have hnull : (Value.ofStored (toValue a).toStored).isNull = false := by
    cases hstored : (toValue a).toStored with
    | null => exact absurd hstored h
    | _ => rfl
  have hoption : fromValue (Value.ofStored (toValue (some a)).toStored) =
      (fromValue (Value.ofStored (toValue a).toStored) : Except KindFault α).map some := by
    change (if (Value.ofStored (toValue a).toStored).isNull then _ else _) = _
    rw [hnull]
    rfl
  rw [Recovered, hoption, except_map_eq_ok]
  simp [Recovered]

/-- A missing value is recovered as missing. -/
theorem recovered_none : Recovered (none : Option α) := rfl

end Recovered

theorem recovered_int32 (i : Int32) : Recovered i := by
  have hrange : -2 ^ 31 ≤ i.toInt64.toInt ∧ i.toInt64.toInt < 2 ^ 31 := by
    rw [Int32.toInt_toInt64]
    exact ⟨i.le_toInt, i.toInt_lt⟩
  have hread : fromValue (Value.ofStored (toValue i).toStored) = readBy "32-bit integer" (fun v =>
      v.asInt?.bind fun n => if -2 ^ 31 ≤ n.toInt ∧ n.toInt < 2 ^ 31 then some n.toInt32 else none)
        (.int i.toInt64) := rfl
  rw [Recovered, hread, readBy, Value.asInt?, Option.bind_some, if_pos hrange,
    Int32.toInt32_toInt64]

/-- A timestamp is recovered from its text exactly if its time is regular. -/
theorem recovered_timestamp_iff (t : DateTime) : Recovered t ↔ t.time.Regular := by
  have hread : fromValue (Value.ofStored (toValue t).toStored) =
      readBy "timestamp" Value.asTimestamp? (.text t.iso) := rfl
  rw [Recovered, hread, readBy, Value.asTimestamp?, DateTime.ofText?, ← DateTime.parse_iso_eq_iff]
  cases DateTime.parse t.iso <;> simp [Except.toOption]

/-- JSON without floating point numbers is recovered from its text exactly if it is not too deep. -/
theorem recovered_json_iff {j : Json} (h : j.tree.Exact) :
    Recovered j ↔ j.tree.depth ≤ Json.nestingLimit := by
  obtain ⟨read?, hread, hfrom⟩ : ∃ read? :
      Value → Option Json, (∀ s, read? (.text s) = (Json.parse s).toOption) ∧
      (fromValue : Value → Except KindFault Json) = readBy "json" read? := ⟨_, fun _ => rfl, rfl⟩
  have hparsed : Recovered j ↔ Json.parse j.text = .ok j := by
    have hstored : Value.ofStored (toValue j).toStored = .text j.text := rfl
    rw [Recovered, hstored, hfrom, readBy, hread]
    cases Json.parse j.text <;> simp [Except.toOption]
  rw [hparsed, ← Json.exists_parse_text_iff]
  exact ⟨fun hparse => ⟨j, hparse⟩,
    fun hsome => Json.parse_text h ((Json.exists_parse_text_iff j).mp hsome)⟩

/-- Integers of both widths, reals, truth values, texts and bytes are recovered from what is bound
for them without a column, timestamps exactly if they are regular, and JSON without floating point
numbers exactly if it is not too deep; each also as a value that may be missing. What is recovered
comes back from a clause and from a statement of the caller. -/
theorem untyped_value_recovered :
    (∀ i : Int64, Recovered i ∧ Recovered (some i)) ∧
    (∀ i : Int32, Recovered i ∧ Recovered (some i)) ∧
    (∀ x : Binary64, Recovered x ∧ Recovered (some x)) ∧
    (∀ b : Bool, Recovered b ∧ Recovered (some b)) ∧
    (∀ s : String, Recovered s ∧ Recovered (some s)) ∧
    (∀ bytes : List UInt8, Recovered bytes ∧ Recovered (some bytes)) ∧
    (∀ t : DateTime, (Recovered t ↔ t.time.Regular) ∧ (Recovered (some t) ↔ t.time.Regular)) ∧
      (∀ j : Json, j.tree.Exact → (Recovered j ↔ j.tree.depth ≤ Json.nestingLimit) ∧
      (Recovered (some j) ↔ j.tree.depth ≤ Json.nestingLimit)) ∧
    ∀ (α : Type) [ToValue α] [FromValue α], Recovered (none : Option α) ∧
      ∀ (a : α) (params : Row) (name : String), Recovered a → params.get? name = some (toValue a) →
        ComesBack a params name := by
  have hbool : ∀ b : Bool, Recovered b := by
    intro b
    cases b <;> rfl
  refine ⟨fun i => ⟨rfl, rfl⟩, fun i => ?_, fun x => ⟨rfl, rfl⟩, fun b => ?_, fun s => ⟨rfl, rfl⟩,
    fun bytes => ⟨rfl, rfl⟩, fun t => ?_, fun j hj => ?_, fun α _ _ => ⟨recovered_none, ?_⟩⟩
  · exact ⟨recovered_int32 i,
      (recovered_some_iff (by simp [toValue, Value.toStored])).mpr (recovered_int32 i)⟩
  · exact ⟨hbool b, (recovered_some_iff (by simp [toValue, Value.toStored])).mpr (hbool b)⟩
  · exact ⟨recovered_timestamp_iff t,
      (recovered_some_iff (by simp [toValue, Value.toStored])).trans (recovered_timestamp_iff t)⟩
  · exact ⟨recovered_json_iff hj,
      (recovered_some_iff (by simp [toValue, Value.toStored])).trans (recovered_json_iff hj)⟩
  · exact fun a params name ha hname => ha.comesBack hname

/-- Nested JSON that may be missing comes back under the name of a placeholder. -/
theorem untyped_value_recovered_of_json :
    nestedJson.tree.Exact ∧ nestedJson.tree.depth ≤ Json.nestingLimit ∧
    ComesBack (some nestedJson) (Keyed.empty.insert "p" (.json nestedJson)) "p" := by
  obtain ⟨-, -, -, -, -, -, -, hjson, hback⟩ := untyped_value_recovered
  obtain ⟨hexact, hdepth⟩ := nestedJson_readable
  have hrecovered : Recovered (some nestedJson) := (hjson nestedJson hexact).2.mpr hdepth
  exact ⟨hexact, hdepth, (hback _).2 _ _ "p" hrecovered (Keyed.get?_insert_self _ "p" _)⟩

end TypedTables
