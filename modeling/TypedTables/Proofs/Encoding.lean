import Mathlib.Data.List.Forall2
import TypedTables.Proofs.Building
import TypedTables.Proofs.Params
import TypedTables.Proofs.SchemaOrder
import TypedTables.Record.Encode

/-!
# What the columns of a row are bound to

Encoding a row binds each of its columns, under a mark and the name of the column, to the stored
form of its value, and nothing else. Encoding a record binds every column of the table.
-/
namespace TypedTables

/-- The form in which an engine keeps a bound value: NaN is NULL, every other value stays as it
is. -/
def Stored.kept : Stored → Stored
  | .real x => if x.isNaN then .null else .real x
  | v => v

namespace Schema

variable {s : Schema}

def stored (s : Schema) (name : String) (v : Value) : Except Error Stored := do
  let c ← s.column name
  c.encode v

/-- Entries beside the parameters that they are bound as. -/
def Bound (s : Schema) (mark : String) (es : List (String × Value)) (bs : List (String × Stored)) :
    Prop := List.Forall₂ (fun e b => b.1 = mark ++ e.1 ∧ s.stored e.1 e.2 = .ok b.2) es bs

/-- Encoding succeeds exactly if every value has a stored form, and binds these in order. -/
theorem encodeEntries_eq_ok {mark : String} {es : List (String × Value)} {p q : Params} :
    s.encodeEntries mark es p = .ok q ↔ ∃ bs, s.Bound mark es bs ∧ q = p.pushAll bs := by
  induction es generalizing p with
  | nil => simp [encodeEntries, Bound, eq_comm]
  | cons e es ih =>
    obtain ⟨name, v⟩ := e
    simp only [encodeEntries, except_bind_eq_ok]
    constructor
    · rintro ⟨c, hc, stored, hv, hes⟩
      obtain ⟨bs, hbs, rfl⟩ := ih.mp hes
      have hstored : s.stored name v = .ok stored := except_bind_eq_ok.mpr ⟨c, hc, hv⟩
      exact ⟨(mark ++ name, stored) :: bs, .cons ⟨rfl, hstored⟩ hbs, rfl⟩
    · rintro ⟨bs, hbs, rfl⟩
      cases hbs with
      | @cons _ b _ bs hb hbs =>
        obtain ⟨c, hc, hv⟩ := except_bind_eq_ok.mp hb.2
        exact ⟨c, hc, b.2, hv, ih.mpr ⟨bs, hbs, by rw [Params.pushAll_cons, hb.1]⟩⟩

namespace Bound

variable {mark : String} {es : List (String × Value)} {bs : List (String × Stored)}

theorem names (h : s.Bound mark es bs) : bs.map (·.1) = es.map (mark ++ ·.1) := by
  induction h with
  | nil => rfl
  | cons hb _ ih => rw [List.map_cons, List.map_cons, hb.1, ih]

theorem exists_mem (h : s.Bound mark es bs) {name : String} {v : Value} (hm : (name, v) ∈ es) :
    ∃ stored, s.stored name v = .ok stored ∧ (mark ++ name, stored) ∈ bs := by
  induction h with
  | nil => simp at hm
  | @cons e b es bs hb _ ih =>
    rcases List.mem_cons.mp hm with rfl | hm
    · exact ⟨b.2, hb.2, by simp [← hb.1]⟩
    · obtain ⟨stored, hs, hmem⟩ := ih hm
      exact ⟨stored, hs, List.mem_cons_of_mem _ hmem⟩

end Bound

/-- A mark in front of names keeps them apart. -/
theorem nodup_marked (row : Row) (mark : String) : (row.entries.map (mark ++ ·.1)).Nodup := by
  have h := row.names_nodup
  rw [Keyed.names, List.Nodup, List.pairwise_map] at h
  rw [List.Nodup, List.pairwise_map]
  refine h.imp ?_
  intro a b hne heq
  exact hne (String.append_right_inj mark |>.mp heq)

/-- The parameters of an encoded row: the names are those of its columns with the mark in front, and
each is bound to the stored form of the value. -/
theorem encodeRow_spec {row : Row} {mark : String} {p : Params} (h : s.encodeRow row mark = .ok p) :
    p.names = row.names.map (mark ++ ·) ∧
      ∀ name v, row.get? name = some v →
        ∃ stored, s.stored name v = .ok stored ∧ p.get? (mark ++ name) = some stored := by
  obtain ⟨bs, hbs, rfl⟩ := encodeEntries_eq_ok.mp h
  have hentries : (Params.empty.pushAll bs).entries = bs := by
    refine Params.entries_pushAll .empty ?_
    rw [Params.empty, List.nil_append, hbs.names]
    exact nodup_marked row mark
  constructor
  · rw [Params.names, hentries, hbs.names, Keyed.names, List.map_map]
    rfl
  · intro name v hv
    obtain ⟨stored, hstored, hmem⟩ := hbs.exists_mem (row.get?_eq_some_iff.mp hv)
    exact ⟨stored, hstored, (Params.get?_eq_some_iff _).mpr (by rwa [hentries])⟩

/-- A row whose values all have stored forms is encoded. -/
theorem exists_encodeRow {row : Row} {mark : String}
    (h : ∀ name v, row.get? name = some v → ∃ stored, s.stored name v = .ok stored) :
    ∃ p, s.encodeRow row mark = .ok p := by
  suffices hbound : ∀ es : List (String × Value),
      (∀ e ∈ es, ∃ stored, s.stored e.1 e.2 = .ok stored) →
      ∃ bs, s.Bound mark es bs by
    obtain ⟨bs, hbs⟩ := hbound row.entries fun e he => h e.1 e.2 (row.get?_eq_some_iff.mpr he)
    exact ⟨_, encodeEntries_eq_ok.mpr ⟨bs, hbs, rfl⟩⟩
  intro es hes
  induction es with
  | nil => exact ⟨[], .nil⟩
  | cons e es ih =>
    obtain ⟨stored, hstored⟩ := hes e List.mem_cons_self
    obtain ⟨bs, hbs⟩ := ih fun e' he' => hes e' (List.mem_cons_of_mem e he')
    exact ⟨(mark ++ e.1, stored) :: bs, .cons ⟨rfl, hstored⟩ hbs⟩

/-- What is encoded column by column: each column is bound to the stored form of its value, or of
NULL, and what is left of the row has none of the columns. -/
theorem encodeColumns_spec {cs : List Column} (hcs : (cs.map Column.name).Nodup) {row rest : Row}
    {p q : Params} (h : encodeColumns cs row p = .ok (q, rest)) :
    (∀ c ∈ cs, ∃ stored, c.encode ((row.get? c.name).getD .null) = .ok stored ∧
      q.get? c.name = some stored) ∧
    (∀ name, name ∉ cs.map Column.name → q.get? name = p.get? name) ∧
    ∀ name ∈ row.names, name ∉ cs.map Column.name → name ∈ rest.names := by
  induction cs generalizing row p with
  | nil =>
    cases h
    exact ⟨nofun, fun _ _ => rfl, fun _ hn _ => hn⟩
  | cons c cs ih =>
    obtain ⟨hc, hcs⟩ := List.nodup_cons.mp hcs
    obtain ⟨stored, hstored, h⟩ := except_bind_eq_ok.mp h
    obtain ⟨hbound, hkept, hrest⟩ := ih hcs h
    have hother : ∀ d ∈ cs, d.name ≠ c.name := fun d hd heq => hc (heq ▸ List.mem_map_of_mem hd)
    refine ⟨?_, ?_, ?_⟩
    · intro d hd
      rcases List.mem_cons.mp hd with rfl | hd
      · exact ⟨stored, hstored, by rw [hkept _ hc, Params.get?_push_self]⟩
      · have hd' := hbound d hd
        rwa [Keyed.get?_erase, if_neg (hother d hd)] at hd'
    · intro name hn
      rw [List.map_cons, List.mem_cons, not_or] at hn
      rw [hkept name hn.2, Params.get?_push_of_ne p hn.1]
    · intro name hn hnot
      rw [List.map_cons, List.mem_cons, not_or] at hnot
      exact hrest name (row.mem_names_erase.mpr ⟨hnot.1, hn⟩) hnot.2

/-- What an accepted record is bound as: it is valid, it reports only declared columns, and each
column is bound to the stored form of its value, or of NULL. -/
theorem encodeRecord_spec {ρ : Type} {T : RecordType ρ} {record : ρ} {p : Params}
    (h : s.encodeRecord T record = .ok p) :
    T.validate record = .ok () ∧ (∀ name ∈ (T.toRow record).names, name ∈ s.names) ∧
      ∀ c ∈ s.columns, ∃ stored,
        c.encode (((T.toRow record).get? c.name).getD .null) = .ok stored ∧
        p.get? c.name = some stored := by
  obtain ⟨⟨⟩, hvalid, h⟩ := except_bind_eq_ok.mp h
  obtain ⟨⟨q, rest⟩, hcolumns, h⟩ := except_bind_eq_ok.mp h
  obtain ⟨hbound, -, hrest⟩ := encodeColumns_spec s.names_nodup hcolumns
  dsimp only at h
  split at h
  · cases h
  next hnone =>
    cases h
    refine ⟨hvalid, ?_, hbound⟩
    intro name hn
    by_contra hnot
    have hmem := hrest name hn hnot
    rw [hnone] at hmem
    cases hmem

/-- An accepted record binds the columns of the table and nothing else. -/
theorem mem_names_of_encodeRecord {ρ : Type} {T : RecordType ρ} {record : ρ} {p : Params}
    (h : s.encodeRecord T record = .ok p) {name : String} : name ∈ p.names ↔ name ∈ s.names := by
  obtain ⟨⟨⟩, -, h⟩ := except_bind_eq_ok.mp h
  obtain ⟨⟨q, rest⟩, hcolumns, h⟩ := except_bind_eq_ok.mp h
  dsimp only at h
  split at h
  · cases h
  cases h
  obtain ⟨hbound, hkept, -⟩ := encodeColumns_spec s.names_nodup hcolumns
  rw [Params.mem_names_iff]
  by_cases hname : name ∈ s.names
  · obtain ⟨c, hc, rfl⟩ := List.mem_map.mp hname
    obtain ⟨stored, -, hget⟩ := hbound c hc
    simp [hget, hname]
  · simp [hkept name hname, hname]

/-- What an accepted record reports for a column has a stored form, and that is what the column is
bound to. -/
theorem stored_of_encodeRecord {ρ : Type} {T : RecordType ρ} {record : ρ} {p : Params}
    (h : s.encodeRecord T record = .ok p) {name : String} {v : Value}
    (hv : (T.toRow record).get? name = some v) :
    ∃ stored, s.stored name v = .ok stored ∧ p.get? name = some stored := by
  obtain ⟨-, hdeclared, hbound⟩ := encodeRecord_spec h
  obtain ⟨c, hc⟩ := mem_names.mp (hdeclared name ((T.toRow record).mem_names_iff.mpr ⟨v, hv⟩))
  obtain ⟨hmem, rfl⟩ := column_eq_ok.mp hc
  obtain ⟨stored, hstored, hget⟩ := hbound c hmem
  rw [hv, Option.getD_some] at hstored
  exact ⟨stored, except_bind_eq_ok.mpr ⟨c, hc, hstored⟩, hget⟩

end Schema

end TypedTables
