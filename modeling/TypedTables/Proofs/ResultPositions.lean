import TypedTables.Proofs.DecodedRows

/-!
# Which position of a result a column is read from

The layout of records finds a column at the first position with its name. The layout of rows has a
slot for every position with the name of a column, and of several for one column the last one
counts. So the two give a column the same value where its name occurs once, and may differ where it
occurs again.
-/
namespace TypedTables

namespace RowLayout

variable {s : Schema} {names : List String} {values : List Stored} {layout before after : RowLayout}
  {c : Column} {name : String} {row decoded record : Row} {i : Nat}

def FirstAt (names : List String) (name : String) (i : Nat) : Prop :=
  names[i]? = some name ∧ name ∉ names.take i

def LastAt (names : List String) (name : String) (i : Nat) : Prop :=
  names[i]? = some name ∧ name ∉ names.drop (i + 1)

/-- What a column reads at a position of a result row. -/
def Reads (values : List Stored) (c : Column) (i : Nat) (v : Value) : Prop :=
  c.decode (values[i]?.getD .null) = .ok v

theorem reads_of_decodeSlot {v : Value} (h : decodeSlot values (c, some i) = .ok v) :
    Reads values c i v :=
  except_mapError_eq_ok.mp h

/-! ### Slots, of which a later one for the same column counts -/

/-- A column without a slot keeps what the row had. -/
theorem get?_of_no_slot (h : decodeInto values layout row = .ok decoded)
    (hnone : name ∉ layout.map (·.1.name)) : decoded.get? name = row.get? name := by
  induction layout generalizing row with
  | nil =>
    cases h
    rfl
  | cons slot slots ih =>
    obtain ⟨v, -, h⟩ := except_bind_eq_ok.mp h
    rw [List.map_cons, List.mem_cons, not_or] at hnone
    rw [ih h hnone.2, Keyed.get?_insert_of_ne _ hnone.1]

/-- The last slot for a column gives it its value. -/
theorem get?_of_last_slot (slot : Column × Option Nat)
    (h : decodeInto values (before ++ slot :: after) row = .ok decoded)
    (hlast : slot.1.name ∉ after.map (·.1.name)) :
    ∃ v, decodeSlot values slot = .ok v ∧ decoded.get? slot.1.name = some v := by
  induction before generalizing row with
  | nil =>
    obtain ⟨v, hv, h⟩ := except_bind_eq_ok.mp h
    exact ⟨v, hv, by rw [get?_of_no_slot h hlast, Keyed.get?_insert_self]⟩
  | cons _ before ih =>
    obtain ⟨_, -, h⟩ := except_bind_eq_ok.mp h
    exact ih h

/-! ### The slots of the two layouts -/

theorem column?_eq_some : s.column? name = some c ↔ c ∈ s.columns ∧ c.name = name := by
  rw [← Schema.column_eq_ok, Schema.column]
  cases s.column? name <;> simp

/-- The slots for positions from `start` on. -/
def slotsFrom (s : Schema) (start : Nat) (names : List String) : RowLayout :=
  (names.zipIdx start).filterMap fun (name, i) => (s.column? name).map fun c => (c, some i)

theorem forRow_eq (s : Schema) (names : List String) : forRow s names = slotsFrom s 0 names := rfl

theorem slotsFrom_append (s : Schema) (start : Nat) (names others : List String) :
    slotsFrom s start (names ++ others) = slotsFrom s start names ++
      slotsFrom s (start + names.length) others := by
  rw [slotsFrom, List.zipIdx_append, List.filterMap_append]
  rfl

theorem slotsFrom_cons (s : Schema) (start : Nat) (name : String) (names : List String) :
    slotsFrom s start (name :: names) = match s.column? name with
      | some c => (c, some start) :: slotsFrom s (start + 1) names
      | none => slotsFrom s (start + 1) names := by
  rw [slotsFrom, List.zipIdx_cons, List.filterMap_cons]
  dsimp only
  cases s.column? name <;> rfl

/-- There are slots for the columns whose names stand at the positions. -/
theorem names_slotsFrom (s : Schema) (start : Nat) (names : List String) :
    (slotsFrom s start names).map (·.1.name) = names.filter s.contains := by
  induction names generalizing start with
  | nil => rfl
  | cons name names ih =>
    rw [slotsFrom_cons, List.filter_cons, Schema.contains]
    cases hc : s.column? name with
    | none => exact ih (start + 1)
    | some c =>
      obtain ⟨-, rfl⟩ := column?_eq_some.mp hc
      exact congrArg (c.name :: ·) (ih (start + 1))

theorem mem_names_forRow : name ∈ (forRow s names).map (·.1.name) ↔ name ∈ names ∧
    name ∈ s.names := by
  rw [forRow_eq, names_slotsFrom, List.mem_filter, Schema.contains_iff_mem]

theorem exists_firstAt (h : name ∈ names) :
    ∃ before after, names = before ++ name :: after ∧ name ∉ before :=
  List.eq_append_cons_of_mem h

theorem exists_lastAt (h : name ∈ names) :
    ∃ before after, names = before ++ name :: after ∧ name ∉ after := by
  obtain ⟨as, bs, hnames, has⟩ := List.eq_append_cons_of_mem (List.mem_reverse.mpr h)
  refine ⟨bs.reverse, as.reverse, ?_, fun hmem => has (List.mem_reverse.mp hmem)⟩
  rw [← List.reverse_reverse names, hnames, List.reverse_append,
    List.reverse_cons, List.append_assoc, List.singleton_append]

/-- Read as a record, a column has what stands at the first position with its name. -/
theorem record_reads_first (h : (forRecord s names 0).decodeRow values = .ok record)
    (hc : c ∈ s.columns) (hmem : c.name ∈ names) :
    ∃ i v, FirstAt names c.name i ∧ Reads values c i v ∧ record.get? c.name = some v := by
  obtain ⟨before, after, rfl, hnot⟩ := exists_firstAt hmem
  have hslot : Schema.slot (before ++ c.name :: after) 0 c = (c, some before.length) := by
    have hnone : before.findIdx? (· == c.name) = none := by
      rw [List.findIdx?_eq_none_iff]
      exact fun name hname => beq_false_of_ne fun heq => hnot (heq ▸ hname)
    rw [Schema.slot, List.drop_zero, List.findIdx?_append, hnone,
      List.findIdx?_cons, beq_self_eq_true]
    simp
  have hlayout := Schema.forRecord_names s (before ++ c.name :: after) 0
  obtain ⟨v, hv, hget⟩ :=
    (get?_of_decodeInto (hlayout ▸ s.names_nodup) h).1 _ (List.mem_map_of_mem hc)
  rw [← Schema.slot, hslot] at hv
  exact ⟨before.length, v, ⟨by simp, by simpa using hnot⟩, reads_of_decodeSlot hv, hget⟩

/-- Read as a row, a column has what stands at the last position with its name. -/
theorem row_reads_last (h : (forRow s names).decodeRow values = .ok row) (hc : c ∈ s.columns)
    (hmem : c.name ∈ names) :
    ∃ i v, LastAt names c.name i ∧ Reads values c i v ∧ row.get? c.name = some v := by
  obtain ⟨before, after, rfl, hnot⟩ := exists_lastAt hmem
  rw [forRow_eq, slotsFrom_append, Nat.zero_add, slotsFrom_cons, column?_eq_some.mpr ⟨hc, rfl⟩] at h
  have hlast : c.name ∉ (slotsFrom s (before.length + 1) after).map (·.1.name) := by
    rw [names_slotsFrom]
    exact fun hin => hnot (List.mem_filter.mp hin).1
  obtain ⟨v, hv, hget⟩ := get?_of_last_slot (c, some before.length) h hlast
  exact ⟨before.length, v, ⟨by simp, by simpa using hnot⟩, reads_of_decodeSlot hv, hget⟩

/-- Read as a row, a result row has the declared columns among its names and no others. -/
theorem mem_names_of_decodeRow (h : (forRow s names).decodeRow values = .ok row) :
    name ∈ row.names ↔ name ∈ names ∧ name ∈ s.names := by
  constructor
  · intro hname
    by_contra hnot
    obtain ⟨v, hv⟩ := row.mem_names_iff.mp hname
    rw [get?_of_no_slot h (mem_names_forRow.not.mpr hnot)] at hv
    cases hv
  · rintro ⟨hmem, hdeclared⟩
    obtain ⟨c, hc, rfl⟩ := List.mem_map.mp hdeclared
    obtain ⟨_, v, -, -, hget⟩ := row_reads_last h hc hmem
    exact row.mem_names_iff.mpr ⟨v, hget⟩

/-- What a result row gives that is read both as a record and as a row: * as a row it has the
declared columns among its names and no others; * a declared column among the names has, as a
record, what it reads at the first position with its name, and as a row what it reads at the last
one; * the two are the same wherever all positions with the name hold the same, as they do if there
is only one. -/
theorem layouts_compared (hrecord : (forRecord s names 0).decodeRow values = .ok record)
    (hrow : (forRow s names).decodeRow values = .ok row) :
    (∀ name, name ∈ row.names ↔ name ∈ names ∧ name ∈ s.names) ∧
    ∀ c ∈ s.columns, c.name ∈ names →
      (∃ i j v w, FirstAt names c.name i ∧ Reads values c i v ∧ record.get? c.name = some v ∧
        LastAt names c.name j ∧ Reads values c j w ∧ row.get? c.name = some w) ∧
      ((∀ i j : Nat, names[i]? = some c.name → names[j]? = some c.name → values[i]? = values[j]?) →
        record.get? c.name = row.get? c.name) := by
  refine ⟨fun _ => mem_names_of_decodeRow hrow, fun c hc hmem => ?_⟩
  obtain ⟨i, v, hi, hv, hgetv⟩ := record_reads_first hrecord hc hmem
  obtain ⟨j, w, hj, hw, hgetw⟩ := row_reads_last hrow hc hmem
  refine ⟨⟨i, j, v, w, hi, hv, hgetv, hj, hw, hgetw⟩, fun hsame => ?_⟩
  rw [Reads, hsame i j hi.1 hj.1] at hv
  rw [Reads] at hw
  rw [hgetv, hgetw, Except.ok.inj (hv.symm.trans hw)]

open Example

/-- A result with the columns of an item in the other order and with a column that is not
declared. -/
theorem layouts_compared_of_item : ∃ record row,
    (forRecord items.schema ["label", "size", "id"] 0).decodeRow
      [.text "x", .integer 5, .integer 1] = .ok record ∧
    (forRow items.schema ["label", "size", "id"]).decodeRow
      [.text "x", .integer 5, .integer 1] = .ok row ∧
    (∀ name, name ∈ row.names ↔ name ∈ ["label", "size", "id"] ∧ name ∈ items.schema.names) ∧
    ∀ c ∈ items.schema.columns, c.name ∈ ["label", "size", "id"] → ∃ i j v w,
      FirstAt ["label", "size", "id"] c.name i ∧ Reads [.text "x", .integer 5, .integer 1] c i v ∧
      record.get? c.name = some v ∧ LastAt ["label", "size", "id"] c.name j ∧
      Reads [.text "x", .integer 5, .integer 1] c j w ∧ row.get? c.name = some w := by
  obtain ⟨record, hrecord⟩ : ∃ record, (forRecord items.schema ["label", "size", "id"] 0).decodeRow
      [.text "x", .integer 5, .integer 1] = .ok record := ⟨_, rfl⟩
  obtain ⟨row, hrow⟩ : ∃ row, (forRow items.schema ["label", "size", "id"]).decodeRow
      [.text "x", .integer 5, .integer 1] = .ok row := ⟨_, rfl⟩
  obtain ⟨hnames, hvalues⟩ := layouts_compared hrecord hrow
  exact ⟨record, row, hrecord, hrow, hnames, fun c hc hmem => (hvalues c hc hmem).1⟩

/-- A column that stands twice in a result has its first value in the record and its second one in
the row. -/
theorem repeated_column_read_apart : ∃ record row,
    (forRecord items.schema ["id", "id"] 0).decodeRow [.integer 1, .integer 2] = .ok record ∧
    (forRow items.schema ["id", "id"]).decodeRow [.integer 1, .integer 2] = .ok row ∧
    record.get? "id" = some (.int 1) ∧ row.get? "id" = some (.int 2) :=
  ⟨_, _, rfl, rfl, rfl, rfl⟩

end RowLayout

end TypedTables
