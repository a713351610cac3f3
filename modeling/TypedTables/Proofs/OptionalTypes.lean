import TypedTables.Schema.FieldType

/-!
# Types that take NULL

A wrapped type takes NULL in both directions, has the affinity of the type in it and treats
everything else as that type does. Only one wrapper is looked through: a type that is wrapped twice
takes nothing but NULL.
-/
namespace TypedTables

namespace ResolvedType

structure TakesNull (r : ResolvedType) : Prop where
  encode_null : r.encode .null = .ok .null
  decode_null : r.decode .null = .ok .null

structure Alike (r r' : ResolvedType) : Prop where
  encode_eq : ∀ v : Value, v ≠ .null → r.encode v = r'.encode v
  decode_eq : ∀ stored : Stored, stored ≠ .null → r.decode stored = r'.decode stored

structure RefusesRest (r : ResolvedType) (type : FieldType) : Prop where
  encode_eq : ∀ v : Value, v ≠ .null → r.encode v = .error (.cannotStore v.kind type.name)
  decode_eq : ∀ stored : Stored, stored ≠ .null →
    r.decode stored = .error (.doesNotMatch stored.storageClass type.name)

variable {r r' : ResolvedType} {type : FieldType} {asked : Option Affinity}

theorem encode_of_ne_null {v : Value} (h : v ≠ .null) : r.encode v = r.type.encode v := by
  cases v with
  | null => exact absurd rfl h
  | _ => rfl

theorem decode_of_ne_null {stored : Stored} (h : stored ≠ .null) :
    r.decode stored = r.type.decode stored := by
  cases stored with
  | null => exact absurd rfl h
  | _ => rfl

theorem takesNull_of_optional (h : r.optional = true) : r.TakesNull := by
  constructor
  · rw [encode, h]
    rfl
  · rw [decode, h]
    rfl

/-- What is no NULL is treated as by the type inside. -/
theorem alike_of_type_eq (h : r.type = r'.type) : r.Alike r' := by
  refine ⟨fun v hv => ?_, fun stored hstored => ?_⟩
  · rw [encode_of_ne_null hv, encode_of_ne_null hv, h]
  · rw [decode_of_ne_null hstored, decode_of_ne_null hstored, h]

/-- A wrapper left inside refuses every value. -/
theorem refusesRest_of_optional {inner : FieldType} (h : r.type = .optional inner) :
    r.RefusesRest (.optional inner) := by
  refine ⟨fun v hv => ?_, fun stored hstored => ?_⟩
  · rw [encode_of_ne_null hv, h]
    rfl
  · rw [decode_of_ne_null hstored, h]
    rfl

/-- The affinity of a type does not depend on how often it is wrapped. -/
theorem affinity?_required (type : FieldType) : type.required.1.affinity? = type.affinity? := by
  cases type <;> rfl

theorem of?_eq (type : FieldType) (asked : Option Affinity) :
    of? type asked = (asked <|> type.affinity?).map fun a =>
      ⟨a, type.required.2, type.required.1⟩ := by
  rw [← affinity?_required]
  rfl

/-- What a type resolves to, its wrapped type resolves to as well, but for the wrapper. -/
theorem of?_optional (h : of? type asked = some r) :
    of? (.optional type) asked = some ⟨r.affinity, true, type⟩ := by
  rw [of?_eq] at h
  obtain ⟨a, ha, rfl⟩ := Option.map_eq_some_iff.mp h
  exact Option.map_eq_some_iff.mpr ⟨a, ha, rfl⟩

/-- A type with an affinity of its own resolves, wrapped or not, whichever affinity is asked for. -/
theorem of?_wrapped (haffinity : ∃ a, type.affinity? = some a)
    (hplain : type.required = (type, false)) (wrapped : Bool) (asked : Option Affinity) :
    ∃ a, of? (if wrapped then .optional type else type) asked = some ⟨a, wrapped, type⟩ := by
  obtain ⟨own, hown⟩ := haffinity
  obtain ⟨a, ha⟩ : ∃ a, (asked <|> type.affinity?) = some a := by
    cases asked with
    | none => exact ⟨own, hown⟩
    | some a => exact ⟨a, rfl⟩
  have hunwrapped : of? type asked = some ⟨a, false, type⟩ := by
    rw [of?_eq, ha, hplain]
    rfl
  cases wrapped with
  | false => exact ⟨a, hunwrapped⟩
  | true => exact ⟨a, of?_optional hunwrapped⟩

theorem of?_timestamp (layout : TimestampLayout) (wrapped : Bool) (asked : Option Affinity) :
    ∃ a, of? (if wrapped then .optional (.timestamp layout) else .timestamp layout) asked =
      some ⟨a, wrapped, .timestamp layout⟩ := by
  refine of?_wrapped ?_ rfl wrapped asked
  cases layout <;> exact ⟨_, rfl⟩

theorem of?_type (h : of? type asked = some r) :
    r.type = type.required.1 ∧ r.optional = type.required.2 := by
  rw [of?_eq] at h
  obtain ⟨a, -, rfl⟩ := Option.map_eq_some_iff.mp h
  exact ⟨rfl, rfl⟩

/-- The name of a wrapped type is longer than that of the type. -/
theorem name_optional_ne (type : FieldType) : (FieldType.optional type).name ≠ type.name := by
  intro h
  have hlength := congrArg String.length h
  simp only [FieldType.name, toString, String.length_append] at hlength
  have hword : "Optional(".length = 9 := rfl
  omega

/-- No type refuses an integer as its wrapped type would. -/
theorem encode_ne_optional (type : FieldType) (i : Int64) :
    type.encode (.int i) ≠ .error (.cannotStore .int (FieldType.optional type).name) := by
  intro h
  cases type with
  | integer | real => cases h
  | intEnum domain | intLiteral domain =>
    rw [FieldType.encode] at h
    split at h <;> cases h
  | custom codec =>
    rw [FieldType.encode] at h
    cases hcodec : codec.encode (.int i) <;> rw [hcodec] at h <;> cases h
  | _ =>
    -- the message names the type itself
    injection h with h
    injection h with _ hname
    exact name_optional_ne _ hname.symm

/-- A wrapped type takes NULL and has the affinity of the type in it. What is no NULL it treats
alike exactly if that type is not wrapped itself; else it refuses everything. Wrapped by `orNull`, a
type takes NULL and treats everything else alike, whether it was wrapped or not. -/
theorem resolved_optional (h : of? type asked = some r) :
    (∃ r', of? (.optional type) asked = some r' ∧ r'.affinity = r.affinity ∧ r'.TakesNull ∧
      (r'.Alike r ↔ ∀ inner, type ≠ .optional inner) ∧
      ∀ inner, type = .optional inner → r'.RefusesRest type) ∧
    ∃ r', of? type.orNull asked = some r' ∧ r'.affinity = r.affinity ∧
    r'.TakesNull ∧ r'.Alike r := by
  obtain ⟨htype, hoptional⟩ := of?_type h
  constructor
  · refine ⟨_, of?_optional h, rfl, takesNull_of_optional rfl, ⟨?_, ?_⟩, ?_⟩
    · rintro halike inner rfl
      have hzero : Value.int 0 ≠ .null := Value.noConfusion
      have hrefused :=
        (refusesRest_of_optional (r := ⟨r.affinity, true, .optional inner⟩) rfl).encode_eq _ hzero
      rw [halike.encode_eq _ hzero, encode_of_ne_null hzero, htype] at hrefused
      exact encode_ne_optional inner 0 hrefused
    · intro hplain
      refine alike_of_type_eq (htype.trans ?_).symm
      cases type with
      | optional inner => exact absurd rfl (hplain inner)
      | _ => rfl
    · rintro inner rfl
      exact refusesRest_of_optional rfl
  · cases type with
    | optional inner => exact ⟨r, h, rfl, takesNull_of_optional hoptional, alike_of_type_eq rfl⟩
    | _ => exact ⟨_, of?_optional h, rfl, takesNull_of_optional rfl, alike_of_type_eq htype.symm⟩

/-- An optional integer: it takes 5, and wrapped once more it takes no integer. -/
theorem resolved_optional_of_optional_integer :
    of? (.optional .integer) none = some ⟨.integer, true, .integer⟩ ∧
    ∃ r', of? (.optional (.optional .integer)) none = some r' ∧
      r'.affinity = .integer ∧ r'.TakesNull ∧
      r'.RefusesRest (.optional .integer) := by
  have h : of? (.optional .integer) none = some ⟨.integer, true, .integer⟩ := rfl
  obtain ⟨⟨r', hr', haffinity, hnull, -, hrefused⟩, -⟩ := resolved_optional h
  exact ⟨h, r', hr', haffinity, hnull, hrefused .integer rfl⟩

/-- An integer is stored in an optional column, and refused by that of the type wrapped once
more. -/
theorem optional_optional_refuses_integer :
    ∃ r r', of? (.optional .integer) none = some r ∧
      of? (.optional (.optional .integer)) none = some r' ∧
      r.encode (.int 5) = .ok (.integer 5) ∧
      r'.encode (.int 5) = .error (.cannotStore .int (FieldType.optional .integer).name) :=
  ⟨_, _, rfl, rfl, rfl, rfl⟩

end ResolvedType

end TypedTables
