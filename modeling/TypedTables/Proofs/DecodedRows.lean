import TypedTables.Proofs.StoredRows

/-!
# Reading rows with other columns

A result may have the columns of a table in any order, others between them, and more in front. The
layout finds each column by its name behind the front, so every column reads what was stored for it,
and nothing else decides whether the row is read.
-/
namespace TypedTables

/-- What a column reads of what it stores of a value. -/
def Column.reread (c : Column) (v : Value) : Except Error Value := do
  let stored ← c.encode v
  c.decode stored

theorem Column.reread_of_encode {c : Column} {v : Value} {stored : Stored}
    (h : c.encode v = .ok stored) :
    c.reread v = c.decode stored := by
  rw [reread, h]
  rfl

def Row.valueOf (row : Row) (c : Column) : Value := (row.get? c.name).getD .null

namespace RowLayout

variable {values : List Stored} {layout : RowLayout} {row decoded : Row}

/-- What is read into a row: the value of every slot, and else what the row had. -/
theorem get?_of_decodeInto (hnodup : (layout.map (·.1.name)).Nodup)
    (h : decodeInto values layout row = .ok decoded) :
    (∀ slot ∈ layout, ∃ v, decodeSlot values slot = .ok v ∧ decoded.get? slot.1.name = some v) ∧
      ∀ name, name ∉ layout.map (·.1.name) → decoded.get? name = row.get? name := by
  induction layout generalizing row with
  | nil =>
    cases h
    exact ⟨nofun, fun _ _ => rfl⟩
  | cons slot slots ih =>
    obtain ⟨hslot, hslots⟩ := List.nodup_cons.mp hnodup
    obtain ⟨v, hv, h⟩ := except_bind_eq_ok.mp h
    obtain ⟨hread, hkept⟩ := ih hslots h
    refine ⟨fun slot' hslot' => ?_, fun name hname => ?_⟩
    · rcases List.mem_cons.mp hslot' with rfl | hslot'
      · exact ⟨v, hv, by rw [hkept _ hslot, Keyed.get?_insert_self]⟩
      · exact hread slot' hslot'
    · rw [List.map_cons, List.mem_cons, not_or] at hname
      rw [hkept name hname.2, Keyed.get?_insert_of_ne _ hname.1]

/-- The first slot that cannot be read decides about the error. -/
theorem first_of_error {e : Error} (h : decodeInto values layout row = .error e) :
    ∃ before slot after, layout = before ++ slot :: after ∧
      (∀ slot' ∈ before, ∃ v, decodeSlot values slot' = .ok v) ∧
      decodeSlot values slot = .error e := by
  induction layout generalizing row with
  | nil => cases h
  | cons slot slots ih =>
    rcases except_bind_eq_error.mp h with hslot | ⟨v, hv, h⟩
    · exact ⟨[], slot, slots, rfl, nofun, hslot⟩
    · obtain ⟨before, slot', after, rfl, hbefore, he⟩ := ih h
      refine ⟨slot :: before, slot', after, rfl, fun other hother => ?_, he⟩
      rcases List.mem_cons.mp hother with rfl | hother
      · exact ⟨v, hv⟩
      · exact hbefore other hother

end RowLayout

namespace Schema

variable {s : Schema} {value : Column → Value} {p : Params} {names : List String} {skip : Nat}
  {values : List Stored} {c : Column}

inductive Encodes (s : Schema) : (Column → Value) → Params → Prop where
  | record {ρ : Type} {T : RecordType ρ} {record : ρ} {p : Params}
      (h : s.encodeRecord T record = .ok p) :
    s.Encodes (T.valueOf record) p
  | row {row : Row} {p : Params} (h : s.encodeRow row "" = .ok p) :
    s.Encodes row.valueOf p

/-- What a column is bound to is the stored form of its value. -/
theorem Encodes.encode (h : s.Encodes value p) (hc : c ∈ s.columns) {stored : Stored}
    (hbound : p.get? c.name = some stored) : c.encode (value c) = .ok stored := by
  cases h with
  | record h =>
    obtain ⟨stored', hstored, hget⟩ := (encodeRecord_spec h).2.2 c hc
    cases hget.symm.trans hbound
    exact hstored
  | @row row p h =>
    obtain ⟨hnames, hvalues⟩ := encodeRow_spec h
    have hname : c.name ∈ row.names := by
      have hmem : c.name ∈ p.names :=
        List.mem_map.mpr ⟨_, (Params.get?_eq_some_iff _).mp hbound, rfl⟩
      simpa [hnames] using hmem
    obtain ⟨v, hv⟩ := row.mem_names_iff.mp hname
    obtain ⟨stored', hstored, hget⟩ := hvalues c.name v hv
    rw [String.empty_append] at hget
    cases hget.symm.trans hbound
    obtain ⟨d, hd, hencode⟩ := except_bind_eq_ok.mp hstored
    rw [column_eq_ok.mpr ⟨hc, rfl⟩] at hd
    cases hd
    rw [Row.valueOf, hv]
    exact hencode

/-- Behind the first `skip` positions a result row has every column by its name, and wherever it has
one, it has what the column is bound to. -/
def RowCarries (s : Schema) (p : Params) (names : List String) (skip : Nat)
    (values : List Stored) : Prop :=
  ∀ c ∈ s.columns, c.name ∈ names.drop skip ∧
    ∀ i, skip ≤ i → names[i]? = some c.name → ∃ stored, p.get? c.name = some stored ∧
    values[i]? = some stored

def slot (names : List String) (skip : Nat) (c : Column) : Column × Option Nat :=
  (c, ((names.drop skip).findIdx? (· == c.name)).map (· + skip))

theorem forRecord_names (s : Schema) (names : List String) (skip : Nat) :
    (RowLayout.forRecord s names skip).map (·.1.name) = s.names := by
  rw [RowLayout.forRecord, List.map_map]
  rfl

/-- The slot of a column reads what the column stores of its value. -/
theorem decodeSlot_of_carries (hencodes : s.Encodes value p) (h : s.RowCarries p names skip values)
    (hc : c ∈ s.columns) :
    ∃ stored, c.encode (value c) = .ok stored ∧
      RowLayout.decodeSlot values (slot names skip c) =
        (c.decode stored).mapError Error.whileDecoding := by
  obtain ⟨hmem, hvalue⟩ := h c hc
  obtain ⟨i, hi⟩ : ∃ i, (names.drop skip).findIdx? (· == c.name) = some i :=
    Option.isSome_iff_exists.mp
      (List.findIdx?_isSome.trans (List.any_eq_true.mpr ⟨_, hmem, beq_self_eq_true _⟩))
  obtain ⟨hlt, hname, -⟩ := List.findIdx?_eq_some_iff_getElem.mp hi
  have hat : names[i + skip]? = some c.name := by
    rw [Nat.add_comm, ← List.getElem?_drop, List.getElem?_eq_getElem hlt, beq_iff_eq.mp hname]
  obtain ⟨stored, hbound, hstored⟩ := hvalue (i + skip) (Nat.le_add_left ..) hat
  refine ⟨stored, hencodes.encode hc hbound, ?_⟩
  rw [slot, hi, Option.map_some, RowLayout.decodeSlot, hstored, Option.getD_some]

/-- A slot that can be read has what the column reads of what it stores. -/
theorem reread_of_decodeSlot (hencodes : s.Encodes value p) (h : s.RowCarries p names skip values)
    (hc : c ∈ s.columns) {w : Value}
    (hslot : RowLayout.decodeSlot values (slot names skip c) = .ok w) :
    c.reread (value c) = .ok w := by
  obtain ⟨stored, hencode, hdecode⟩ := decodeSlot_of_carries hencodes h hc
  rw [Column.reread_of_encode hencode]
  exact except_mapError_eq_ok.mp (hdecode.symm.trans hslot)

/-- What is read of a row that carries the columns. -/
theorem read_of_decodeRow (hencodes : s.Encodes value p)
    (h : s.RowCarries p names skip values) {row : Row}
    (hrow : (RowLayout.forRecord s names skip).decodeRow values = .ok row) :
      (∀ name, name ∈ row.names ↔ name ∈ s.names) ∧
      ∀ c ∈ s.columns, ∃ w, c.reread (value c) = .ok w ∧ row.get? c.name = some w := by
  have hlayout := forRecord_names s names skip
  obtain ⟨hread, hkept⟩ := RowLayout.get?_of_decodeInto (hlayout ▸ s.names_nodup) hrow
  have hcolumns : ∀ c ∈ s.columns, ∃ w, c.reread (value c) = .ok w ∧ row.get? c.name = some w := by
    intro c hc
    obtain ⟨w, hslot, hget⟩ := hread (slot names skip c) (List.mem_map_of_mem hc)
    exact ⟨w, reread_of_decodeSlot hencodes h hc hslot, hget⟩
  refine ⟨fun name => ?_, hcolumns⟩
  rw [row.mem_names_iff]
  constructor
  · rintro ⟨v, hv⟩
    by_contra hnot
    rw [hkept name (hlayout ▸ hnot)] at hv
    cases hv
  · intro hname
    obtain ⟨c, hc, rfl⟩ := List.mem_map.mp hname
    obtain ⟨w, -, hget⟩ := hcolumns c hc
    exact ⟨w, hget⟩

/-- Why a row that carries the columns is not read. -/
theorem unread_of_decodeRow (hencodes : s.Encodes value p)
    (h : s.RowCarries p names skip values) {e : Error}
    (hrow : (RowLayout.forRecord s names skip).decodeRow values = .error e) :
    ∃ before c after stored fault, s.columns = before ++ c :: after ∧
      (∀ d ∈ before, ∃ w, d.reread (value d) = .ok w) ∧
      c.encode (value c) = .ok stored ∧ c.decode stored = .error fault ∧
      e = fault.whileDecoding := by
  obtain ⟨before, _, after, hlayout, hbefore, he⟩ := RowLayout.first_of_error hrow
  obtain ⟨ds, rest, hcolumns, rfl, hrest⟩ := List.map_eq_append_iff.mp hlayout
  obtain ⟨c, cs, rfl, rfl, -⟩ := List.map_eq_cons_iff.mp hrest
  have hmem : ∀ d, d ∈ ds ∨ d = c → d ∈ s.columns := by
    intro d hd
    rw [hcolumns, List.mem_append, List.mem_cons]
    exact hd.imp_right .inl
  obtain ⟨stored, hencode, hdecode⟩ := decodeSlot_of_carries hencodes h (hmem c (.inr rfl))
  obtain ⟨fault, hfault, rfl⟩ := except_mapError_eq_error.mp (hdecode.symm.trans he)
  refine ⟨ds, c, cs, stored, fault, hcolumns, fun d hd => ?_, hencode, hfault, rfl⟩
  obtain ⟨w, hslot⟩ := hbefore _ (List.mem_map_of_mem hd)
  exact ⟨w, reread_of_decodeSlot hencodes h (hmem d (.inl hd)) hslot⟩

/-- A result row that has, in any order and among others, what the columns of a record or a row are
bound to: * it is read exactly if every column reads what it stores of its value; * then the row
that is read has the columns of the schema and no others, each with what the column reads of what it
stores of its value; * else the error is that of the first column that does not read what it
stores. -/
theorem carried_row_decoded (hencodes : s.Encodes value p) (h : s.RowCarries p names skip values) :
    ((∃ row, (RowLayout.forRecord s names skip).decodeRow values = .ok row) ↔
      ∀ c ∈ s.columns, ∃ w, c.reread (value c) = .ok w) ∧
    (∀ row, (RowLayout.forRecord s names skip).decodeRow values = .ok row →
      (∀ name, name ∈ row.names ↔ name ∈ s.names) ∧
      ∀ c ∈ s.columns, ∃ w, c.reread (value c) = .ok w ∧ row.get? c.name = some w) ∧
    (∀ e, (RowLayout.forRecord s names skip).decodeRow values = .error e →
      ∃ before c after stored fault, s.columns = before ++ c :: after ∧
        (∀ d ∈ before, ∃ w, d.reread (value d) = .ok w) ∧
        c.encode (value c) = .ok stored ∧ c.decode stored = .error fault ∧
        e = fault.whileDecoding) := by
  refine ⟨⟨?_, fun hall => ?_⟩, fun _ => read_of_decodeRow hencodes h,
    fun _ => unread_of_decodeRow hencodes h⟩
  · rintro ⟨row, hrow⟩ c hc
    obtain ⟨w, hw, -⟩ := (read_of_decodeRow hencodes h hrow).2 c hc
    exact ⟨w, hw⟩
  · cases hrow : (RowLayout.forRecord s names skip).decodeRow values with
    | ok row => exact ⟨row, rfl⟩
    | error e =>
      obtain ⟨before, c, after, stored, fault, hcolumns, -, hencode, hdecode, -⟩ :=
        unread_of_decodeRow hencodes h hrow
      obtain ⟨w, hw⟩ := hall c (by simp [hcolumns])
      rw [Column.reread_of_encode hencode, hdecode] at hw
      cases hw

open Example

/-- The columns of an item behind its rowid, in the other order and with a column between them. -/
theorem item_decoded_reordered : ∃ p row, items.schema.Encodes (item.valueOf ⟨1, some "x"⟩) p ∧
    items.schema.RowCarries p ["id", "label", "size", "id"] 1
      [.integer 9, .text "x", .integer 5, .integer 1] ∧
    (RowLayout.forRecord items.schema ["id", "label", "size", "id"] 1).decodeRow
      [.integer 9, .text "x", .integer 5, .integer 1] = .ok row := by
  obtain ⟨p, hp⟩ : ∃ p, items.schema.encodeRecord item ⟨1, some "x"⟩ = .ok p := ⟨_, rfl⟩
  have hcarries : items.schema.RowCarries p ["id", "label", "size", "id"] 1
      [.integer 9, .text "x", .integer 5, .integer 1] := by
    cases hp
    intro c hc
    simp only [items, List.mem_cons, List.not_mem_nil, or_false] at hc
    rcases hc with rfl | rfl
    · refine ⟨by decide, fun i hi hname => ?_⟩
      rcases i with _ | _ | _ | _ | i
      · omega
      · exact absurd hname (by decide)
      · exact absurd hname (by decide)
      · exact ⟨.integer 1, rfl, rfl⟩
      · simp at hname
    · refine ⟨by decide, fun i hi hname => ?_⟩
      rcases i with _ | _ | _ | _ | i
      · exact absurd hname (by decide)
      · exact ⟨.text "x", rfl, rfl⟩
      · exact absurd hname (by decide)
      · exact absurd hname (by decide)
      · simp at hname
  obtain ⟨row, hrow⟩ := (carried_row_decoded (.record hp) hcarries).1.mpr (by
    intro c hc
    simp only [items, List.mem_cons, List.not_mem_nil, or_false] at hc
    rcases hc with rfl | rfl
    · exact ⟨.int 1, rfl⟩
    · exact ⟨.text "x", rfl⟩)
  exact ⟨p, row, .record hp, hcarries, hrow⟩

end Schema

end TypedTables
