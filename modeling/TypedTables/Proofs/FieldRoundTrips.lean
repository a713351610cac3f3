import TypedTables.Proofs.OptionalTypes
import TypedTables.Proofs.StoredRows

/-!
# Values that come back

What a built-in type takes is read back as the same value; only an integer in a real column comes
back as a real. JSON comes back if its text can be read, which needs that it is not too deep, and if
it has no floating point number in it.
-/
namespace TypedTables

/-- A value whose text, if it is JSON, is read back as the same value. -/
def Value.Readable : Value → Prop
  | .json j => j.tree.Exact ∧ j.tree.depth ≤ Json.nestingLimit
  | _ => True

theorem except_error_ne_ok {ε α : Type} (e : ε) : ¬ ∃ a, (Except.error e : Except ε α) = .ok a := by
  rintro ⟨a, h⟩
  cases h

namespace FieldType

/-- A built-in type that is neither that of timestamps nor wrapped. -/
def IsPlain : FieldType → Prop
  | .timestamp _ | .optional _ | .custom _ => False
  | _ => True

/-- The values of a plain type; those of enumerations and literals are the ones in the domain. -/
def Holds : FieldType → Value → Prop
  | .integer, .int _ => True
  | .real, .real _ => True
  | .real, .int _ => True
  | .text, .text _ => True
  | .blob, .blob _ => True
  | .bool, .bool _ => True
  | .intEnum domain, .int i | .intLiteral domain, .int i => i ∈ domain
  | .strEnum domain, .text s | .strLiteral domain, .text s => s ∈ domain
  | .json, .json _ => True
  | _, _ => False

def readBack : FieldType → Value → Value
  | .real, .int i => .real (Binary64.ofInt i.toInt)
  | _, v => v

variable {type : FieldType} {v : Value} {stored : Stored}

theorem exists_encode_iff (h : type.IsPlain) :
    (∃ stored, type.encode v = .ok stored) ↔ type.Holds v := by
  fun_cases FieldType.encode type v with
  | case7 domain i hmem | case9 domain i hmem =>
    exact iff_of_true ⟨_, rfl⟩ (List.contains_iff_mem.mp hmem)
  | case11 domain s hmem | case13 domain s hmem =>
    exact iff_of_true ⟨_, rfl⟩ (List.contains_iff_mem.mp hmem)
  | case8 domain i hmem | case10 domain i hmem =>
    exact iff_of_false (except_error_ne_ok _) fun hd => hmem (List.contains_iff_mem.mpr hd)
  | case12 domain s hmem | case14 domain s hmem =>
    exact iff_of_false (except_error_ne_ok _) fun hd => hmem (List.contains_iff_mem.mpr hd)
  | case15 => cases h
  | case17 => cases h
  | case18 =>
    refine iff_of_false (except_error_ne_ok _) ?_
    rw [Holds]
    · exact not_false
    all_goals assumption
  | _ => exact iff_of_true ⟨_, rfl⟩ trivial

/-- What a plain type stored it reads as the value. -/
theorem decode_of_encode (h : type.IsPlain) (hv : v.Readable)
    (hstored : type.encode v = .ok stored) :
    type.decode stored = .ok (type.readBack v) := by
  fun_cases FieldType.encode type v with
  | case6 b =>
    cases hstored
    cases b <;> rfl
  | case7 domain i hmem | case9 domain i hmem =>
    rw [FieldType.encode, if_pos hmem] at hstored
    cases hstored
    exact if_pos hmem
  | case11 domain s hmem | case13 domain s hmem =>
    rw [FieldType.encode, if_pos hmem] at hstored
    cases hstored
    exact if_pos hmem
  | case8 domain i hmem | case10 domain i hmem | case12 domain s hmem | case14 domain s hmem =>
    rw [FieldType.encode, if_neg hmem] at hstored
    cases hstored
  | case15 => cases h
  | case16 j =>
    cases hstored
    rw [decode, Json.parse_text hv.1 hv.2]
    rfl
  | case17 => cases h
  | case18 =>
    rw [FieldType.encode] at hstored
    · cases hstored
    all_goals assumption
  | _ =>
    cases hstored
    rfl

/-- A plain type does not read NULL. -/
theorem ne_null_of_decode (h : type.IsPlain) (hv : type.decode stored = .ok v) :
    stored ≠ .null := by
  rintro rfl
  cases type with
  | timestamp | optional | custom => cases h
  | _ => cases hv

theorem exists_affinity (h : type.IsPlain) : ∃ a, type.affinity? = some a := by
  cases type with
  | timestamp | optional | custom => cases h
  | _ => exact ⟨_, rfl⟩

theorem required_of_isPlain (h : type.IsPlain) : type.required = (type, false) := by
  cases type with
  | optional => cases h
  | _ => rfl

theorem readBack_null (type : FieldType) : type.readBack .null = .null := by
  cases type <;> rfl

theorem not_holds_null (type : FieldType) : ¬ type.Holds .null := by
  cases type <;> exact not_false

end FieldType

/-- The resolved form of a plain type, perhaps wrapped once. -/
theorem ResolvedType.of?_isPlain {type : FieldType} (h : type.IsPlain) (wrapped : Bool)
    (asked : Option Affinity) :
    ∃ a, of? (if wrapped then .optional type else type) asked = some ⟨a, wrapped, type⟩ :=
  of?_wrapped (FieldType.exists_affinity h) (FieldType.required_of_isPlain h) wrapped asked

/-- A built-in type other than those of timestamps, wrapped once or not, takes exactly its values,
and NULL if it is wrapped. What it takes it reads back: as the same value, but an integer in a real
column as a real. -/
theorem plain_type_round_trip {type : FieldType} (h : type.IsPlain) (wrapped : Bool)
    (asked : Option Affinity) :
    ∃ r, ResolvedType.of? (if wrapped then .optional type else type) asked = some r ∧
      (∀ v, (∃ stored, r.encode v = .ok stored) ↔ type.Holds v ∨ wrapped = true ∧ v = .null) ∧
      ∀ v stored, v.Readable → r.encode v = .ok stored →
      r.decode stored = .ok (type.readBack v) := by
  obtain ⟨a, hr⟩ := ResolvedType.of?_isPlain h wrapped asked
  refine ⟨_, hr, fun v => ?_, fun v stored hv hstored => ?_⟩
  · by_cases hnull : v = .null
    · subst hnull
      rw [ResolvedType.encode]
      cases wrapped <;> simp [Value.isNull, FieldType.not_holds_null]
    · rw [ResolvedType.encode_of_ne_null hnull, FieldType.exists_encode_iff h]
      exact (or_iff_left fun hwrapped => hnull hwrapped.2).symm
  · by_cases hnull : v = .null
    · subst hnull
      rw [FieldType.readBack_null]
      cases wrapped with
      | false => cases hstored
      | true =>
        cases hstored
        rfl
    · rw [ResolvedType.encode_of_ne_null hnull] at hstored
      have hdecode := FieldType.decode_of_encode h hv hstored
      rw [ResolvedType.decode_of_ne_null (FieldType.ne_null_of_decode h hdecode), hdecode]

/-- A list of the greatest unsigned integer and an object with a text in it. -/
def nestedJson : Json :=
  .ofTree (.array [.number (.whole ⟨2 ^ 64 - 1, by decide⟩), .object [("a", .string "\"\n")]])

theorem nestedJson_readable : (Value.json nestedJson).Readable := by
  simp [Value.Readable, nestedJson, Json.ofTree, Json.tree, Json.Tree.sorted, Json.Tree.sortedItems,
    Json.Tree.sortedMembers, sortEntries, putEntry, Json.Tree.Exact, Json.Tree.ItemsExact,
    Json.Tree.MembersExact, Json.Tree.depth, Json.Tree.itemsDepth,
    Json.Tree.membersDepth, Json.nestingLimit]

/-- Nested JSON is taken by an optional column and read back from its text. -/
theorem plain_type_round_trip_of_json :
    ∃ r, ResolvedType.of? (.optional .json) none = some r ∧
      r.encode (.json nestedJson) = .ok (.text nestedJson.text) ∧
      r.decode (.text nestedJson.text) = .ok (.json nestedJson) := by
  have hplain : FieldType.json.IsPlain := trivial
  obtain ⟨r, hr, -, hread⟩ := plain_type_round_trip hplain true none
  have hr' : some ⟨.text, true, .json⟩ = some r := hr
  cases hr'
  exact ⟨_, rfl, rfl, hread _ _ nestedJson_readable rfl⟩

end TypedTables
