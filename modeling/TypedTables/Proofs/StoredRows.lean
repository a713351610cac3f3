import TypedTables.Example.Tables
import TypedTables.Proofs.Encoding
import TypedTables.Proofs.JsonTexts
import TypedTables.Proofs.TimestampTexts
import TypedTables.Proofs.UnixSeconds
import TypedTables.Record.Decode

/-!
# Reading stored rows

Which records can be read again after they were stored. A column takes values that it refuses when
they come back: what is no number, which the engine keeps as NULL; the last timestamps of the
calendar as floating point numbers; and values with too many brackets open at once.
-/
namespace TypedTables

open Binary64

/-- Whether the value that a column of a type takes can be read again. -/
def ResolvedType.Recovers (r : ResolvedType) (v : Value) : Prop :=
  match v, r.type with
  | .real x, .real => r.optional = true ∨ x.isNaN = false
  | .timestamp t, .timestamp .unixReal =>
    t.unixSeconds * 1000000000 + t.time.nano ≤ DateTime.lastRealNano
  | .json j, .json => j.tree.depth ≤ Json.nestingLimit
  | _, _ => True

@[simp] theorem Stored.kept_integer (i : Int64) : (Stored.integer i).kept = .integer i := rfl

@[simp] theorem Stored.kept_text (s : String) : (Stored.text s).kept = .text s := rfl

theorem Stored.kept_real {x : Binary64} (h : x.isNaN = false) : (Stored.real x).kept = .real x :=
  if_neg (by rw [h]; exact Bool.false_ne_true)

theorem isNaN_of_isFinite {x : Binary64} (h : x.isFinite = true) : x.isNaN = false := by
  obtain ⟨neg, m, q, hview⟩ := exists_view h
  rw [isNaN, hview]
  rfl

theorem isNaN_ofInt (i : Int64) : (ofInt i.toInt).isNaN = false := by
  have hle : i.toInt.natAbs ≤ 2 ^ 63 := by
    have := i.toInt_lt
    have := i.le_toInt
    omega
  have hbound : |(i.toInt : ℚ)| ≤ 2 ^ 63 := by
    rw [← Int.cast_abs, Int.abs_eq_natAbs, Int.cast_natCast]
    exact_mod_cast hle
  exact isNaN_of_isFinite (rounds_ofInt (lt_overflow_of_le (by decide) hbound)).finite

theorem isNaN_toUnixReal (t : DateTime) : t.toUnixReal.isNaN = false :=
  isNaN_of_isFinite t.rounds_toUnixReal.finite

theorem toInt_unixSeconds (t : DateTime) : (Int64.ofInt t.unixSeconds).toInt = t.unixSeconds := by
  have hle := t.natAbs_unixSeconds_le
  exact Int64.toInt_ofInt_of_le (by omega) (by omega)

namespace FieldType

/-- A stored timestamp is read again, except for the last ones as floating point numbers. -/
theorem exists_decodeTimestamp_iff (layout : TimestampLayout) (t : DateTime) :
    (∃ u, decodeTimestamp (layout.encode t).kept = .ok u) ↔
      (layout = .unixReal → t.unixSeconds * 1000000000 + t.time.nano ≤ DateTime.lastRealNano) := by
  cases layout with
  | unixReal =>
    rw [TimestampLayout.encode, Stored.kept_real (isNaN_toUnixReal t), decodeTimestamp,
      ← t.exists_ofUnixReal?_iff_nano]
    cases DateTime.ofUnixReal? t.toUnixReal <;> simp
  | unixInt =>
    refine iff_of_true ?_ nofun
    have hread := @DateTime.ofUnix?_unixSeconds t 0 (by decide)
    rw [TimestampLayout.encode, Stored.kept_integer, decodeTimestamp, toInt_unixSeconds, hread]
    exact ⟨_, rfl⟩
  | iso8601 =>
    refine iff_of_true ?_ nofun
    rw [TimestampLayout.encode, Stored.kept_text, decodeTimestamp, t.parse_iso]
    exact ⟨_, rfl⟩

end FieldType

namespace ResolvedType

section

variable (affinity : Affinity) (optional : Bool)

/-- What is no number is read again, as NULL, only by a column that takes NULL. -/
theorem exists_decode_real_iff (x : Binary64) :
    (∃ w, (ResolvedType.mk affinity optional .real).decode (Stored.real x).kept = .ok w) ↔
      optional = true ∨ x.isNaN = false := by
  cases hx : x.isNaN with
  | false =>
    rw [Stored.kept_real hx]
    exact iff_of_true ⟨.real x, rfl⟩ (.inr rfl)
  | true =>
    have hkept : (Stored.real x).kept = .null := if_pos hx
    rw [hkept, decode]
    cases optional <;> simp

theorem exists_decode_timestamp_iff (layout : TimestampLayout) (t : DateTime) :
    (∃ w, (ResolvedType.mk affinity optional (.timestamp layout)).decode (layout.encode t).kept =
      .ok w) ↔
      (layout = .unixReal → t.unixSeconds * 1000000000 + t.time.nano ≤ DateTime.lastRealNano) := by
  have hdecode :
      (ResolvedType.mk affinity optional (.timestamp layout)).decode (layout.encode t).kept =
      (decodeTimestamp (layout.encode t).kept).map .timestamp := by
    cases layout with
    | unixReal =>
      rw [TimestampLayout.encode, Stored.kept_real (isNaN_toUnixReal t)]
      rfl
    | unixInt => rfl
    | iso8601 => rfl
  rw [hdecode, ← FieldType.exists_decodeTimestamp_iff]
  cases decodeTimestamp (layout.encode t).kept <;> simp [Except.map]

theorem exists_decode_json_iff (j : Json) :
    (∃ w, (ResolvedType.mk affinity optional .json).decode (Stored.text j.text).kept = .ok w) ↔
      j.tree.depth ≤ Json.nestingLimit := by
  change (∃ w, FieldType.decode .json (.text j.text) = .ok w) ↔ _
  rw [FieldType.decode, ← Json.exists_parse_text_iff]
  cases Json.parse j.text <;> simp

end

/-- A value that a column of a built-in type takes is read again if the type can recover it, and
else not. -/
theorem exists_decode_iff {r : ResolvedType} (hinferred : r.type.affinity? = some r.affinity)
    {v : Value} {stored : Stored} (h : r.encode v = .ok stored) :
    (∃ w, r.decode stored.kept = .ok w) ↔ r.Recovers v := by
  obtain ⟨affinity, optional, type⟩ := r
  rw [encode] at h
  split at h
  next hnull =>
    -- NULL is stored and read without the type
    obtain rfl : v = .null := by
      cases v with
      | null => rfl
      | _ => cases hnull
    split at h
    next hoptional =>
      cases h
      exact iff_of_true ⟨.null, if_pos hoptional⟩ trivial
    next => cases h
  next =>
    dsimp only at h
    fun_cases FieldType.encode type v with
    | case2 x =>
      cases h
      exact exists_decode_real_iff affinity optional x
    | case3 i =>
      cases h
      rw [Stored.kept_real (isNaN_ofInt i)]
      exact iff_of_true ⟨_, rfl⟩ trivial
    | case6 b =>
      cases h
      refine iff_of_true ⟨.bool b, ?_⟩ trivial
      cases b <;> rfl
    | case7 domain i hmem | case9 domain i hmem =>
      rw [FieldType.encode, if_pos hmem] at h
      cases h
      exact iff_of_true ⟨.int i, if_pos hmem⟩ trivial
    | case11 domain s hmem | case13 domain s hmem =>
      rw [FieldType.encode, if_pos hmem] at h
      cases h
      exact iff_of_true ⟨.text s, if_pos hmem⟩ trivial
    | case8 domain i hmem | case10 domain i hmem | case12 domain s hmem | case14 domain s hmem =>
      rw [FieldType.encode, if_neg hmem] at h
      cases h
    | case15 layout t =>
      cases h
      refine (exists_decode_timestamp_iff affinity optional layout t).trans ?_
      cases layout with
      | unixReal => exact ⟨fun h => h rfl, fun h _ => h⟩
      | _ => exact iff_of_true nofun trivial
    | case16 j =>
      cases h
      exact exists_decode_json_iff affinity optional j
    -- a custom type has no affinity of its own
    | case17 => cases hinferred
    | case18 =>
      rw [FieldType.encode] at h
      · cases h
      all_goals assumption
    | _ =>
      cases h
      exact iff_of_true ⟨_, rfl⟩ trivial

end ResolvedType

/-- Without an affinity that is asked for, a type is resolved to the affinity of its own. -/
theorem ResolvedType.affinity_of_unasked {type : FieldType} {r : ResolvedType}
    (h : of? type none = some r) :
    r.type.affinity? = some r.affinity := by
  rcases hrequired : type.required with ⟨inner, optional⟩
  rw [of?, hrequired] at h
  obtain ⟨affinity, haffinity, rfl⟩ := Option.map_eq_some_iff.mp h
  exact haffinity

theorem Declaration.type_of_resolve {d : Declaration} {c : Column} (h : d.resolve = .ok c) :
    ResolvedType.of? d.type d.affinity = some c.type := by
  rw [resolve] at h
  split at h
  · split at h
    · cases h
    next hresolved =>
      cases h
      exact hresolved
  · cases h

/-- What an engine keeps for a column of the value that is bound to it. -/
def Column.kept (c : Column) (p : Params) : Stored := ((p.get? c.name).getD .null).kept

namespace RowLayout

variable {values : List Stored} {layout : RowLayout} {row : Row}

theorem slots_of_decodeInto {decoded : Row} (h : decodeInto values layout row = .ok decoded) :
    ∀ slot ∈ layout, ∃ v, decodeSlot values slot = .ok v := by
  induction layout generalizing row with
  | nil => nofun
  | cons slot slots ih =>
    obtain ⟨v, hv, h⟩ := except_bind_eq_ok.mp h
    intro slot' hslot'
    rcases List.mem_cons.mp hslot' with rfl | hslot'
    · exact ⟨v, hv⟩
    · exact ih h slot' hslot'

theorem exists_slot_of_error {e : Error} (h : decodeInto values layout row = .error e) :
    ∃ slot ∈ layout, decodeSlot values slot = .error e := by
  induction layout generalizing row with
  | nil => cases h
  | cons slot slots ih =>
    rcases except_bind_eq_error.mp h with hslot | ⟨v, -, h⟩
    · exact ⟨slot, List.mem_cons_self, hslot⟩
    · obtain ⟨slot', hslot', he⟩ := ih h
      exact ⟨slot', List.mem_cons_of_mem _ hslot', he⟩

end RowLayout

namespace Schema

variable {s : Schema}

/-- Every column has a built-in type and the affinity that this asks for. -/
def Inferred (s : Schema) : Prop := ∀ c ∈ s.columns, c.type.type.affinity? = some c.type.affinity

theorem declaration_of_mem {taken : List String} {ds : List Declaration} {cs : List Column}
    (h : resolveAll taken ds = .ok cs) {c : Column} (hc : c ∈ cs) :
    ∃ d ∈ ds, d.resolve = .ok c := by
  induction ds generalizing taken cs with
  | nil =>
    cases h
    simp at hc
  | cons d ds ih =>
    obtain ⟨c', cs', rfl, hd, -, hcs⟩ := resolveAll_cons taken d ds cs h
    rcases List.mem_cons.mp hc with rfl | hc
    · exact ⟨d, List.mem_cons_self, hd⟩
    · obtain ⟨d', hd', hresolve⟩ := ih hcs hc
      exact ⟨d', List.mem_cons_of_mem _ hd', hresolve⟩

/-- Declarations that ask for no affinity leave it to the types. -/
theorem inferred_of_declarations {ds : List Declaration} (h : ofDeclarations ds = .ok s)
    (hasked : ∀ d ∈ ds, d.affinity = none) : s.Inferred := by
  intro c hc
  rw [ofDeclarations] at h
  split at h
  · cases h
  split at h
  · cases h
  next hresolved =>
    cases h
    obtain ⟨d, hd, hresolve⟩ := declaration_of_mem hresolved hc
    have htype := Declaration.type_of_resolve hresolve
    rw [hasked d hd] at htype
    exact ResolvedType.affinity_of_unasked htype

/-- A result row has for every column, behind the first `skip` positions, what is kept of the value
that is bound to it. -/
def KeptIn (s : Schema) (p : Params) (names : List String) (skip : Nat)
    (values : List Stored) : Prop :=
  ∀ c ∈ s.columns, ∃ i, (names.drop skip).findIdx? (· == c.name) = some i ∧
    values[i + skip]? = some (c.kept p)

/-- The rows of a selection of all columns. -/
theorem keptIn_columns (s : Schema) (p : Params) :
    s.KeptIn p s.names 0 (s.columns.map (Column.kept · p)) := by
  intro c hc
  obtain ⟨i, hi, rfl⟩ := List.mem_iff_getElem.mp hc
  refine ⟨i, ?_, ?_⟩
  · rw [List.drop_zero, names, List.findIdx?_eq_some_iff_getElem]
    refine ⟨by simpa using hi, by simp, fun j hj => ?_⟩
    have hne := List.pairwise_iff_getElem.mp (List.pairwise_map.mp s.names_nodup)
      j i (by omega) hi hj
    simpa using hne
  · simp [hi]

/-- The slots of the layout of a row that carries the columns. -/
theorem decodeSlot_of_keptIn {p : Params} {names : List String} {skip : Nat} {values : List Stored}
    (h : s.KeptIn p names skip values) {c : Column} (hc : c ∈ s.columns) :
    RowLayout.decodeSlot values (c, ((names.drop skip).findIdx? (· == c.name)).map (· + skip)) =
      (c.decode (c.kept p)).mapError Error.whileDecoding := by
  obtain ⟨i, hi, hvalue⟩ := h c hc
  rw [hi, Option.map_some, RowLayout.decodeSlot, hvalue, Option.getD_some]

/-- A row is decoded if every column reads what is kept for it. -/
theorem decodeRow_of_readable {p : Params} {names : List String} {skip : Nat} {values : List Stored}
    (h : s.KeptIn p names skip values) (hread : ∀ c ∈ s.columns, ∃ v, c.decode (c.kept p) = .ok v) :
    ∃ row, (RowLayout.forRecord s names skip).decodeRow values = .ok row := by
  cases hdecoded : (RowLayout.forRecord s names skip).decodeRow values with
  | ok row => exact ⟨row, rfl⟩
  | error e =>
    obtain ⟨slot, hslot, he⟩ := RowLayout.exists_slot_of_error hdecoded
    obtain ⟨c, hc, rfl⟩ := List.mem_map.mp hslot
    obtain ⟨v, hv⟩ := hread c hc
    rw [decodeSlot_of_keptIn h hc, hv] at he
    cases he

/-- A row is refused as undecodable if a column refuses what is kept for it. -/
theorem decodeRow_of_unreadable {p : Params} {names : List String} {skip : Nat}
    {values : List Stored} (h : s.KeptIn p names skip values) {c : Column} (hc : c ∈ s.columns)
    (hlost : ¬ ∃ v, c.decode (c.kept p) = .ok v) :
    ∃ e, (RowLayout.forRecord s names skip).decodeRow values = .error (.undecodable e) := by
  cases hdecoded : (RowLayout.forRecord s names skip).decodeRow values with
  | ok row =>
    obtain ⟨v, hv⟩ := RowLayout.slots_of_decodeInto hdecoded _ (List.mem_map_of_mem hc)
    rw [decodeSlot_of_keptIn h hc, except_mapError_eq_ok] at hv
    exact absurd ⟨v, hv⟩ hlost
  | error e =>
    obtain ⟨slot, hslot, he⟩ := RowLayout.exists_slot_of_error hdecoded
    obtain ⟨d, hd, rfl⟩ := List.mem_map.mp hslot
    rw [decodeSlot_of_keptIn h hd] at he
    obtain ⟨cause, hcause, rfl⟩ := except_mapError_eq_error.mp he
    obtain ⟨fault, -, rfl⟩ := except_mapError_eq_error.mp hcause
    exact ⟨_, rfl⟩

end Schema

def RecordType.valueOf {ρ : Type} (T : RecordType ρ) (record : ρ) (c : Column) : Value :=
  ((T.toRow record).get? c.name).getD .null

/-- Which accepted records can be read again: each column reads what is kept for it exactly if its
type recovers the value, and a row is decoded if they all do; else it is refused as undecodable. -/
theorem stored_row_recovered {s : Schema} (hinferred : s.Inferred) {ρ : Type}
    {T : RecordType ρ} {record : ρ} {p : Params} (h : s.encodeRecord T record = .ok p) :
    (∀ c ∈ s.columns, (∃ v, c.decode (c.kept p) = .ok v) ↔ c.type.Recovers (T.valueOf record c)) ∧
    ∀ names skip values, s.KeptIn p names skip values →
      ((∀ c ∈ s.columns, c.type.Recovers (T.valueOf record c)) →
        ∃ row, (RowLayout.forRecord s names skip).decodeRow values = .ok row) ∧
      ((∃ c ∈ s.columns, ¬ c.type.Recovers (T.valueOf record c)) →
        ∃ e, (RowLayout.forRecord s names skip).decodeRow values = .error (.undecodable e)) := by
  have hcolumns : ∀ c ∈ s.columns, (∃ v, c.decode (c.kept p) = .ok v) ↔
      c.type.Recovers (T.valueOf record c) := by
    intro c hc
    obtain ⟨stored, hstored, hbound⟩ := (Schema.encodeRecord_spec h).2.2 c hc
    have hencode : c.type.encode (T.valueOf record c) = .ok stored :=
      except_mapError_eq_ok.mp hstored
    simp only [Column.kept, hbound, Option.getD_some, Column.decode, except_mapError_eq_ok]
    exact ResolvedType.exists_decode_iff (hinferred c hc) hencode
  refine ⟨hcolumns, fun names skip values hrow => ⟨fun hall => ?_, ?_⟩⟩
  · exact Schema.decodeRow_of_readable hrow fun c hc => (hcolumns c hc).mpr (hall c hc)
  · rintro ⟨c, hc, hlost⟩
    exact Schema.decodeRow_of_unreadable hrow hc fun hread => hlost ((hcolumns c hc).mp hread)

open Example

theorem stampedColumns_inferred : stampedColumns.Inferred := by
  have hdeclared : Schema.ofDeclarations stamped.declarations = .ok stampedColumns := rfl
  exact Schema.inferred_of_declarations hdeclared (by decide)

/-- The last timestamp is read back as text. -/
theorem stored_row_recovered_text : stampedColumns.Inferred ∧
    ∃ p row, stampedColumns.encodeRecord stamped (lastStamp "t") = .ok p ∧
      (RowLayout.forRecord stampedColumns stampedColumns.names 0).decodeRow
        (stampedColumns.columns.map (Column.kept · p)) = .ok row := by
  obtain ⟨p, hp⟩ : ∃ p, stampedColumns.encodeRecord stamped (lastStamp "t") = .ok p := ⟨_, rfl⟩
  have hall : ∀ c ∈ stampedColumns.columns,
      c.type.Recovers (stamped.valueOf (lastStamp "t") c) := by
    intro c hc
    simp only [stampedColumns, List.mem_cons, List.not_mem_nil, or_false] at hc
    rcases hc with rfl | rfl | rfl | rfl <;> trivial
  obtain ⟨row, hrow⟩ :=
    ((stored_row_recovered stampedColumns_inferred hp).2 _ _ _ (stampedColumns.keptIn_columns p)).1
      hall
  exact ⟨stampedColumns_inferred, p, row, hp, hrow⟩

/-- The last timestamp is stored as a floating point number, but this is the end of the calendar and
is not read back. -/
theorem last_stamp_unreadable : stamped.schema = .ok stampedColumns ∧ stampedColumns.Inferred ∧
    ∃ p e, stampedColumns.encodeRecord stamped (lastStamp "r") = .ok p ∧
      (RowLayout.forRecord stampedColumns stampedColumns.names 0).decodeRow
        (stampedColumns.columns.map (Column.kept · p)) = .error (.undecodable e) := by
  obtain ⟨p, hp⟩ : ∃ p, stampedColumns.encodeRecord stamped (lastStamp "r") = .ok p := ⟨_, rfl⟩
  have hlost : ¬ ∃ v,
      (stampedColumns.columns[1]).decode ((stampedColumns.columns[1]).kept p) = .ok v := by
    cases hp
    simp only [Column.decode, except_mapError_eq_ok]
    intro hread
    have hearly :=
      (ResolvedType.exists_decode_timestamp_iff .real true .unixReal lastTimestamp).mp hread rfl
    exact absurd hearly (by decide)
  obtain ⟨e, he⟩ := Schema.decodeRow_of_unreadable (stampedColumns.keptIn_columns p) (by simp) hlost
  exact ⟨rfl, stampedColumns_inferred, p, e, hp, he⟩

end TypedTables
