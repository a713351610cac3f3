import TypedTables.Engine.Plan
import TypedTables.Proofs.MembershipLists
import TypedTables.Proofs.OptionalTypes
import TypedTables.Proofs.ShortestDecimals
import TypedTables.Proofs.StoredRows

/-!
# Closed domains, as a type and as a constraint

The constraint of a closed domain is read as a test for the members of the domain, in their order. A
column of the type's affinity satisfies it with the values that the type reads and writes, and with
two kinds of others: the real `-2 ^ 63`, which such a column keeps as a real although it equals an
integer, and texts that the collation of the column takes for a member.
-/
namespace TypedTables

/-! ### Integers among the reals -/

namespace Binary64

/-- The integer that a fraction is. -/
theorem ratio_of_toInt? {x : Binary64} {n : Int} (h : x.toInt? = some n) :
    ∃ a m q, x.view = .finite a m q ∧ (ratio a m q).1 = n * (ratio a m q).2 := by
  rw [toInt?] at h
  split at h
  next a m q hview =>
    dsimp only at h
    split at h
    next hzero =>
      refine ⟨a, m, q, hview, ?_⟩
      rw [← Option.some.inj h, Int.ediv_mul_cancel (Int.dvd_of_emod_eq_zero hzero)]
    next => cases h
  next => cases h

theorem compareInt_eq_iff {i : Int} {x : Binary64} : compareInt i x = .eq ↔ x.toInt? = some i := by
  constructor
  · intro h
    rw [compareInt] at h
    rw [toInt?]
    cases hview : x.view with
    | nan => rw [hview] at h; cases h
    | infinite a => rw [hview] at h; cases a <;> cases h
    | finite a m q =>
      have hpos : ((ratio a m q).2 : Int) ≠ 0 := by exact_mod_cast ratio_den_ne_zero a m q
      rw [hview] at h
      dsimp only at h ⊢
      rw [compareRatio, compare_eq_iff_eq, Nat.cast_one, mul_one] at h
      rw [if_pos (by rw [← h, Int.mul_emod_left]), ← h, Int.mul_ediv_cancel _ hpos]
  · intro h
    obtain ⟨a, m, q, hview, hratio⟩ := ratio_of_toInt? h
    rw [compareInt, hview]
    dsimp only
    rw [compareRatio, compare_eq_iff_eq, Nat.cast_one, mul_one, hratio]

/-- An integer among the reals is even unless it is small. -/
theorem toInt?_even {x : Binary64} {n : Int} (h : x.toInt? = some n) :
    n.natAbs < 2 ^ 53 ∨ 2 ∣ n := by
  obtain ⟨a, m, q, hview, hratio⟩ := ratio_of_toInt? h
  have hm := (view_bounds hview).1
  have hsigned (k : Nat) : (if a then -(k : Int) else k).natAbs = k := by split <;> simp
  have hmagnitude : n.natAbs * (scaled m 1 (-q)).2 = (scaled m 1 (-q)).1 := by
    have habs := congrArg Int.natAbs hratio
    rw [ratio] at habs
    dsimp only at habs
    rw [hsigned, Int.natAbs_mul, Int.natAbs_natCast] at habs
    exact habs.symm
  rw [scaled] at hmagnitude
  split at hmagnitude
  -- below the point the integer is not greater than the significand; before it, it is doubled at
  -- least once
  next =>
    left
    have hden : (0 : Nat) < 1 * 2 ^ (-q).toNat := by positivity
    exact ((Nat.le_mul_of_pos_right _ hden).trans_eq hmagnitude).trans_lt hm
  next hq =>
    right
    have hexp : (- -q).toNat = (q.toNat - 1) + 1 := by omega
    rw [mul_one, hexp, pow_succ, ← mul_assoc] at hmagnitude
    exact Int.natCast_dvd.mpr ⟨_, hmagnitude.trans (mul_comm _ _)⟩

end Binary64

/-- The least of the integers, as a real. -/
def Stored.IsLeastReal (v : Stored) : Prop := ∃ x, v = .real x ∧ x.toInt? = some (-2 ^ 63)

namespace Engine

/-- An integer column keeps no real that equals an integer, except the least one. -/
theorem toInt?_of_kept {x : Binary64} (hkept : whole (.real x) = .real x) {i : Int64}
    (hi : x.toInt? = some i.toInt) :
    i.toInt = -2 ^ 63 := by
  have hlo := i.le_toInt
  have hhi := i.toInt_lt
  have hout : ¬ (-2 ^ 63 < i.toInt ∧ i.toInt < 2 ^ 63 - 1) := by
    intro hin
    rw [whole, integerOfReal?, hi] at hkept
    simp only [if_pos hin] at hkept
    cases hkept
  rcases Binary64.toInt?_even hi with hsmall | heven <;> omega

variable {v : Stored}

/-- An integer column keeps no text that is a number. -/
theorem numeric_of_kept {s : String} (hv : convert .integer (.text s) = .text s) :
    numeric (.text s) = .text s := by
  have hwhole : whole (numeric (.text s)) = .text s := hv
  cases hn : numeric (.text s) with
  | real x =>
    rw [hn, whole] at hwhole
    split at hwhole <;> cases hwhole
  | text t =>
    rw [hn] at hwhole
    exact hwhole
  | _ => rw [hn] at hwhole; cases hwhole

theorem Collation.compare_integer (k : Collation) (v : Stored) (i : Int64) :
    k.compare v (.integer i) = compareStored v (.integer i) := by
  cases v <;> rfl

/-- An integer column keeps integers, texts that are no numbers, blobs, and reals that are no
integers but the least. -/
theorem comparison_eq_integer (k : Collation) (hv : convert .integer v = v) (hnull : v ≠ .null)
    (i : Int64) : Expr.comparison .eq .integer k v (.integer i) = some true ↔
      v = .integer i ∨ v.IsLeastReal ∧ i = Int64.minValue := by
  have hcompare : Expr.comparison .eq .integer k v (.integer i) =
      some (compareStored (numeric v) (.integer i) == .eq) := by
    rw [Expr.comparison, if_neg (by simp [hnull]), ← Collation.compare_integer k]
    rfl
  rw [hcompare, Option.some.injEq, beq_iff_eq]
  cases v with
  | null => exact absurd rfl hnull
  | integer j =>
    have hnever : ¬ (Stored.integer j).IsLeastReal := by rintro ⟨x, hx, -⟩; cases hx
    simp only [hnever, false_and, or_false, numeric, compareStored, compare_eq_iff_eq,
      Stored.integer.injEq]
    exact Int64.toInt_inj
  | real x =>
    have hswap : compareStored (.real x) (.integer i) = .eq ↔ x.toInt? = some i.toInt := by
      rw [compareStored, ← Binary64.compareInt_eq_iff]
      cases Binary64.compareInt i.toInt x <;> simp
    have hleast : (Stored.real x).IsLeastReal ↔ x.toInt? = some (-2 ^ 63) :=
      ⟨fun ⟨y, hy, h⟩ => by cases hy; exact h, fun h => ⟨x, rfl, h⟩⟩
    have hmin : i = Int64.minValue ↔ i.toInt = -2 ^ 63 := by
      rw [← Int64.toInt_inj]
      rfl
    change compareStored (.real x) (.integer i) = .eq ↔ _
    rw [hswap, hleast, hmin]
    constructor
    · intro h
      have hi := toInt?_of_kept hv h
      exact .inr ⟨hi ▸ h, hi⟩
    · rintro (h | ⟨hx, hi⟩)
      · cases h
      · rw [hx, hi]
  | text s =>
    rw [numeric_of_kept hv]
    exact ⟨nofun, by rintro (h | ⟨⟨x, hx, -⟩, -⟩) <;> contradiction⟩
  | blob bytes => exact ⟨nofun, by rintro (h | ⟨⟨x, hx, -⟩, -⟩) <;> contradiction⟩

/-- A text column keeps texts and blobs; its collation says which texts are alike. -/
theorem comparison_eq_text (k : Collation) (hv : convert .text v = v)
    (hnull : v ≠ .null) (s : String) :
    Expr.comparison .eq .text k v (.text s) = some true ↔
      ∃ t, v = .text t ∧ k.compareTexts t s = .eq := by
  have hcompare : Expr.comparison .eq .text k v (.text s) =
      some (k.compare (textual v) (.text s) == .eq) := by
    rw [Expr.comparison, if_neg (by simp [hnull]), converted, if_neg (by decide),
      if_pos (by simp [rank])]
    rfl
  rw [hcompare, Option.some.injEq, beq_iff_eq]
  cases v with
  | null => exact absurd rfl hnull
  | text t => exact ⟨fun h => ⟨t, rfl, h⟩, fun ⟨u, hu, h⟩ => by cases hu; exact h⟩
  | blob bytes => exact ⟨nofun, nofun⟩
  | _ => cases hv

end Engine

/-! ### The values that a type reads and writes -/

namespace FieldType

inductive Closed : FieldType → List Stored → Prop where
  | intEnum (domain : List Int64) : Closed (.intEnum domain) (domain.map .integer)
  | intLiteral (domain : List Int64) : Closed (.intLiteral domain) (domain.map .integer)
  | strEnum (domain : List String) : Closed (.strEnum domain) (domain.map .text)
  | strLiteral (domain : List String) : Closed (.strLiteral domain) (domain.map .text)

variable {type : FieldType} {members : List Stored} {v : Stored}

theorem exists_ok_iff {ε α : Type} {c : Prop} [Decidable c] {a : α} {e : ε} :
    (∃ x, (if c then .ok a else .error e : Except ε α) = .ok x) ↔ c := by
  split
  next h => exact ⟨fun _ => h, fun _ => ⟨a, rfl⟩⟩
  next h => exact ⟨nofun, fun hc => absurd hc h⟩

theorem decode_iff (h : Closed type members) : (∃ x, type.decode v = .ok x) ↔ v ∈ members := by
  cases h <;> cases v <;> simp [FieldType.decode, exists_ok_iff]

theorem encode_iff (h : Closed type members) :
    (∃ w, type.encode (.ofStored v) = .ok w) ↔ v ∈ members := by
  cases h <;> cases v <;> simp [FieldType.encode, Value.ofStored, exists_ok_iff]

theorem literals_of_closed (h : Closed type members) :
    ∃ ls, type.domainLiterals = .ok ls ∧ List.Forall₂ Engine.TokenReader.IsLiteral ls members := by
  have hints (domain : List Int64) : List.Forall₂ Engine.TokenReader.IsLiteral
      (domain.map fun i => toString i.toInt) (domain.map .integer) := by
    rw [List.forall₂_map_left_iff, List.forall₂_map_right_iff, List.forall₂_same]
    exact fun i _ => Engine.TokenReader.isLiteral_integer i
  have htexts (domain : List String) : List.Forall₂ Engine.TokenReader.IsLiteral
      (domain.map sqlLiteral) (domain.map .text) := by
    rw [List.forall₂_map_left_iff, List.forall₂_map_right_iff, List.forall₂_same]
    exact fun s _ => Engine.TokenReader.isLiteral_sqlLiteral s
  cases h with
  | intEnum domain => exact ⟨_, rfl, hints domain⟩
  | intLiteral domain => exact ⟨_, rfl, hints domain⟩
  | strEnum domain => exact ⟨_, rfl, htexts domain⟩
  | strLiteral domain => exact ⟨_, rfl, htexts domain⟩

/-- A collation takes a text for one of the members. -/
def Alike (k : Engine.Collation) (v : Stored) (members : List Stored) : Prop :=
  ∃ s m, v = .text s ∧ .text m ∈ members ∧ k.compareTexts s m = .eq

theorem alike_binary : Alike .binary v members ↔ ∃ s, v = .text s ∧ v ∈ members := by
  constructor
  · rintro ⟨s, m, rfl, hm, heq⟩
    obtain rfl : s = m := Std.LawfulEqOrd.compare_eq_iff_eq.mp heq
    exact ⟨s, rfl, hm⟩
  · rintro ⟨s, rfl, hm⟩
    exact ⟨s, s, rfl, hm, Std.LawfulEqOrd.compare_eq_iff_eq.mpr rfl⟩

theorem null_notMem_of_closed (h : Closed type members) : .null ∉ members := by
  cases h <;> simp

/-- A column of the type's affinity finds a value among the members if it is one, if it is the least
integer as a real and the integer is a member, or if its collation takes it for one. -/
theorem comparison_members (h : Closed type members) {a : Affinity} (ha : type.affinity? = some a)
    (k : Engine.Collation) (hv : Engine.convert a v = v) (hnull : v ≠ .null) :
    (members.any fun w => Engine.Expr.comparison .eq a k v w == some true) = true ↔
      v ∈ members ∨ (v.IsLeastReal ∧ .integer Int64.minValue ∈ members) ∨ Alike k v members := by
  have hints (domain : List Int64) (hv : Engine.convert .integer v = v) :
      ((domain.map Stored.integer).any fun w =>
          Engine.Expr.comparison .eq .integer k v w == some true) = true ↔
        v ∈ domain.map .integer ∨
          (v.IsLeastReal ∧ Stored.integer Int64.minValue ∈ domain.map .integer) ∨
            Alike k v (domain.map .integer) := by
    simp only [List.any_map, List.any_eq_true, Function.comp_apply, beq_iff_eq, List.mem_map,
      Engine.comparison_eq_integer k hv hnull, Stored.integer.injEq]
    constructor
    · rintro ⟨i, hi, rfl | ⟨hleast, rfl⟩⟩
      · exact .inl ⟨i, hi, rfl⟩
      · exact .inr (.inl ⟨hleast, _, hi, rfl⟩)
    · rintro (⟨i, hi, rfl⟩ | ⟨hleast, i, hi, rfl⟩ | ⟨s, m, -, hm, -⟩)
      · exact ⟨i, hi, .inl rfl⟩
      · exact ⟨_, hi, .inr ⟨hleast, rfl⟩⟩
      · simp at hm
  have htexts (domain : List String) (hv : Engine.convert .text v = v) :
      ((domain.map Stored.text).any fun w =>
          Engine.Expr.comparison .eq .text k v w == some true) = true ↔
        v ∈ domain.map .text ∨
          (v.IsLeastReal ∧ Stored.integer Int64.minValue ∈ domain.map .text) ∨
            Alike k v (domain.map .text) := by
    simp only [List.any_map, List.any_eq_true, Function.comp_apply, beq_iff_eq, List.mem_map,
      Engine.comparison_eq_text k hv hnull]
    constructor
    · rintro ⟨s, hs, t, rfl, heq⟩
      exact .inr (.inr ⟨t, s, rfl, List.mem_map_of_mem hs, heq⟩)
    · rintro (⟨s, hs, rfl⟩ | ⟨-, s, -, hs⟩ | ⟨t, s, rfl, hs, heq⟩)
      · exact ⟨s, hs, s, rfl, Engine.Collation.compareTexts_self k s⟩
      · cases hs
      · obtain ⟨u, hu, hus⟩ := List.mem_map.mp hs
        cases hus
        exact ⟨s, hu, t, rfl, heq⟩
  cases h with
  | intEnum domain => cases ha; exact hints domain hv
  | intLiteral domain => cases ha; exact hints domain hv
  | strEnum domain => cases ha; exact htexts domain hv
  | strLiteral domain => cases ha; exact htexts domain hv

theorem domainLiterals_required (type : FieldType) :
    type.domainLiterals = type.required.1.domainLiterals := by
  cases type <;> rfl

end FieldType

theorem Value.ofStored_ne_null {v : Stored} (h : v ≠ .null) : Value.ofStored v ≠ .null := by
  cases v with
  | null => exact absurd rfl h
  | _ => exact Value.noConfusion

/-! ### The test, looked up in a table -/

namespace Engine

open TokenReader (among)

def isAmong (slot : Slot) : List Stored → Expr Slot
  | [] => .literal (.integer 0)
  | [v] => .compare .eq (.column slot) (.bare (.literal v))
  | v :: w :: vs => .or (.compare .eq (.column slot) (.bare (.literal v))) (isAmong slot (w :: vs))

theorem resolve_among {f : ColumnRef → Except Complaint (Expr Slot)} {c : ColumnRef} {slot : Slot}
    (hf : f c = .ok (.column slot)) (vs : List Stored) :
    (among (.column c) (vs.map .literal)).resolve f = .ok (isAmong slot vs) := by
  induction vs with
  | nil => rfl
  | cons v vs ih =>
    have htest : (Expr.compare .eq (.column c) (.bare (.literal v))).resolve f =
        .ok (.compare .eq (.column slot) (.bare (.literal v))) := by
      rw [Expr.resolve, Expr.resolve, hf]
      rfl
    cases vs with
    | nil => exact htest
    | cons w vs =>
      rw [List.map_cons, List.map_cons, among, Expr.resolve, htest, ← List.map_cons, ih]
      · rfl
      · nofun

theorem truth?_ofTruth? (o : Option Bool) : truth? (ofTruth? o) = o := by
  rcases o with _ | _ | _ <;> rfl

theorem orTruth_some (a b : Bool) : Expr.orTruth (some a) (some b) = some (a || b) := by
  cases a <;> cases b <;> rfl

/-- The test holds of a value that equals one of the literals, as the column compares them. -/
theorem truth?_isAmong {params : String → Stored} {row : List Stored} {slot : Slot} {v : Stored}
    (hrow : row[slot.position]? = some v) (hnull : v ≠ .null) {vs : List Stored}
    (hvs : .null ∉ vs) :
    truth? ((isAmong slot vs).eval params row) =
      some (vs.any fun w =>
        Expr.comparison .eq slot.affinity slot.collation v w == some true) := by
  have htest {w : Stored} (hw : w ≠ .null) :
      truth? ((Expr.compare .eq (.column slot) (.bare (.literal w))).eval params row) =
        some (Expr.comparison .eq slot.affinity slot.collation v w == some true) := by
    have heval : (Expr.compare .eq (.column slot) (.bare (.literal w))).eval params row =
        ofTruth? (Expr.comparison .eq slot.affinity slot.collation v w) := by
      rw [Expr.eval, Expr.eval, hrow]
      rfl
    rw [heval, truth?_ofTruth?, Expr.comparison, if_neg (by simp [hnull, hw])]
    simp
  induction vs with
  | nil => rfl
  | cons w vs ih =>
    obtain ⟨hw, hvs⟩ := not_or.mp (List.mem_cons.not.mp hvs)
    cases vs with
    | nil => rw [isAmong, htest (Ne.symm hw), List.any_cons, List.any_nil, Bool.or_false]
    | cons u vs =>
      rw [isAmong, Expr.eval, truth?_ofTruth?, htest (Ne.symm hw), ih hvs, orTruth_some]
      rfl

/-- The condition of a constraint of a column, looked up in a table. -/
def conditionOf? (t : StoredTable) (constraint : String) : Option (Expr Slot) :=
  match TokenReader.columnConstraints 1 { name := "", type := "" } (tokens constraint) with
  | .ok ({ checks := [c], .. }, []) => (c.condition.resolve (lookUp (some t) [])).toOption
  | _ => none

def listOf? (list : String) : Option (List (Expr ColumnRef)) :=
  let ts := tokens ("(" ++ list ++ ")")
  match TokenReader.membership (10 * (ts.length + 1)) ts with
  | .ok (es, []) => some es
  | _ => none

section

variable {t : StoredTable} {slot : Slot} {column : String} {ls : List String} {vs : List Stored}

theorem lookUp_column (hslot : t.slot? column = some slot) (offset : Nat) :
    lookUp (some t) [] ⟨none, column, false, offset⟩ = .ok (.column slot) := by
  rw [lookUp, Option.bind_some]
  simp [hslot]

theorem conditionOf?_constraint (hcolumn : TokenReader.PlainName column)
    (h : List.Forall₂ TokenReader.IsLiteral ls vs) (hslot : t.slot? column = some slot) :
    conditionOf? t (String.ofList (TokenReader.constraintChars column ls)) =
      some (isAmong slot vs) := by
  have hmarks : (tokens (String.ofList (TokenReader.constraintChars column ls))).map Token.mark =
      marks (TokenReader.constraintChars column ls) := by
    rw [map_mark_tokens, String.toList_ofList]
  obtain ⟨spec, us, hread, ⟨text, e, ⟨offset, rfl⟩, rfl⟩, hus⟩ :=
    TokenReader.takes_columnConstraints hcolumn h 0 _ _ hmarks
  rw [marks_nil, List.map_eq_nil_iff] at hus
  subst hus
  have hresolve := resolve_among (lookUp_column hslot offset) vs
  rw [conditionOf?, hread]
  dsimp only [List.nil_append]
  rw [hresolve]
  rfl

theorem listOf?_intercalate (h : List.Forall₂ TokenReader.IsLiteral ls vs) :
    listOf? (String.intercalate "," ls) = some (vs.map .literal) := by
  have hchars :
      ("(" ++ String.intercalate "," ls ++ ")").toList =
        '(' :: (TokenReader.items ls ++ [')']) := by
    rw [String.toList_append, String.toList_append]
    rfl
  have hmarks := map_mark_tokens ("(" ++ String.intercalate "," ls ++ ")")
  have hlength : ls.length < (tokens ("(" ++ String.intercalate "," ls ++ ")")).length := by
    rw [← List.length_map Token.mark, hmarks, hchars, marks_sign (.inl rfl), List.length_cons]
    rcases eq_or_ne ls [] with rfl | hne
    · exact Nat.succ_pos _
    · obtain ⟨m, ms, -, hitems, hle⟩ := TokenReader.marks_items h hne []
      rw [hitems, List.length_cons]
      omega
  rw [hchars] at hmarks
  rw [listOf?]
  generalize tokens ("(" ++ String.intercalate "," ls ++ ")") = ts at hmarks hlength
  have hlist := TokenReader.takes_membership h (10 * (ts.length + 1) - 9 - ls.length) []
  have hfuel :
      10 * (ts.length + 1) - 9 - ls.length + 8 + ls.length + 1 = 10 * (ts.length + 1) := by omega
  rw [hfuel] at hlist
  obtain ⟨es, us, hread, rfl, hus⟩ := hlist ts hmarks
  rw [marks_nil, List.map_eq_nil_iff] at hus
  rw [hus] at hread
  simp only [hread]

end

end Engine

open Engine

def singleColumn (column : String) (affinity : Affinity) (collation : Collation) : StoredTable where
  name := "t"
  columns := [⟨column, affinity.sql, affinity, collation, false, .null⟩]
  alias? := none
  key? := none
  strict := false
  checks := []
  references := []
  text := ""
  rows := []

end TypedTables
