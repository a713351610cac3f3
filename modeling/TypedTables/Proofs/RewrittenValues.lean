import Mathlib.Data.List.TakeWhile
import TypedTables.Proofs.FieldRoundTrips
import TypedTables.Proofs.JsonDepth
import TypedTables.Proofs.TimestampColumns

/-!
# Values written back

A column may hold a value in another form than the one it is stored in: a timestamp as a number or
with a blank for its `T`, JSON with blanks, escapes or names that occur twice. Whatever form is
read, the value can be stored again and is then read as the same value. For this the readers answer
only such values as the writers take: times that are regular, and JSON that is not too deep.
-/
namespace TypedTables

/-! ### Times as they are read -/

namespace DateTime

/-- The number that is read has no more digits than are taken. -/
theorem natural_lt {width n : Nat} {cs rest : List Char}
    (h : natural (some width) cs = .ok (n, rest)) :
    cs.length - rest.length ≤ width ∧ n < 10 ^ (cs.length - rest.length) := by
  cases cs with
  | nil => cases h
  | cons c cs =>
    rw [natural] at h
    split at h
    · cases h
    dsimp only [Option.elim_some] at h
    split at h
    · cases h
      have hdigits : Digits (((c :: cs).take width).takeWhile Char.isDigit) :=
        fun _ hd => List.mem_takeWhile_imp hd
      have hle := (List.takeWhile_sublist (l := (c :: cs).take width) Char.isDigit).length_le
      rw [List.length_take] at hle
      rw [List.length_drop, Nat.sub_sub_self (by omega), digitsValue_eq]
      exact ⟨by omega, ofDigitChars_lt hdigits⟩
    · cases h

/-- A fraction that is read is less than a second. -/
theorem fraction_lt {nano : Nat} {cs rest : List Char} (h : fraction cs = .ok (nano, rest)) :
    nano < 1000000000 := by
  rw [fraction.eq_def] at h
  split at h
  next cs =>
    obtain ⟨⟨n, rest'⟩, hread, heq⟩ := except_bind_eq_ok.mp h
    obtain ⟨hcount, hlt⟩ := natural_lt hread
    cases heq
    have hpos : 0 < (10 : Nat) ^ (9 - (cs.length - rest'.length)) := Nat.pow_pos (by decide)
    have hscaled := Nat.mul_lt_mul_of_pos_right hlt hpos
    rwa [← Nat.pow_add, Nat.add_sub_cancel' hcount] at hscaled
  · cases h
    decide

theorem time_of_of? {year : Int} {month day hour minute second nano : Nat} {t : DateTime}
    (h : of? year month day hour minute second nano = some t) :
    t.time.second = second ∧ t.time.nano = nano := by
  obtain ⟨date, -, h⟩ := Option.bind_eq_some_iff.mp h
  obtain ⟨time, htime, h⟩ := Option.bind_eq_some_iff.mp h
  cases h
  rw [TimeOfDay.of?] at htime
  split at htime
  · cases htime
    exact ⟨rfl, rfl⟩
  · cases htime

/-- In both forms, only second 60 is read as a time beyond its second. -/
theorem regular_of_readAs {form : Form} {cs : List Char} {t : DateTime}
    (h : readAs form cs = .ok t) :
    t.time.Regular := by
  obtain ⟨⟨year, rest⟩, -, h⟩ := except_bind_eq_ok.mp h
  obtain ⟨rest, -, h⟩ := except_bind_eq_ok.mp h
  obtain ⟨⟨month, rest⟩, -, h⟩ := except_bind_eq_ok.mp h
  obtain ⟨rest, -, h⟩ := except_bind_eq_ok.mp h
  obtain ⟨⟨day, rest⟩, -, h⟩ := except_bind_eq_ok.mp h
  obtain ⟨rest, -, h⟩ := except_bind_eq_ok.mp h
  obtain ⟨⟨hour, rest⟩, -, h⟩ := except_bind_eq_ok.mp h
  obtain ⟨rest, -, h⟩ := except_bind_eq_ok.mp h
  obtain ⟨⟨minute, rest⟩, -, h⟩ := except_bind_eq_ok.mp h
  obtain ⟨rest, -, h⟩ := except_bind_eq_ok.mp h
  obtain ⟨⟨second, rest⟩, -, h⟩ := except_bind_eq_ok.mp h
  obtain ⟨⟨nano, rest⟩, hfraction, h⟩ := except_bind_eq_ok.mp h
  -- whatever was read before, the time depends on the second and the fraction alone
  have hnano := fraction_lt hfraction
  dsimp only at h
  split at h
  · cases h
  split at h
  next time =>
    cases h
    obtain ⟨hsecond, hread⟩ := time_of_of? time
    rw [TimeOfDay.Regular, hsecond, hread]
    split
    · exact .inr rfl
    · exact .inl hnano
  · cases h

theorem regular_of_parse {s : String} {t : DateTime} (h : parse s = .ok t) : t.time.Regular := by
  rw [parse] at h
  split at h
  next hread =>
    cases h
    exact regular_of_readAs hread
  · exact regular_of_readAs h

end DateTime

/-- Every timestamp that is read, from a text or from a number, has a regular time. -/
theorem regular_of_decodeTimestamp {stored : Stored} {t : DateTime}
    (h : decodeTimestamp stored = .ok t) :
    t.time.Regular := by
  cases stored with
  | null | blob => cases h
  | text s => exact DateTime.regular_of_parse (decodeTimestamp_text.mp h)
  | integer i =>
    have hzero := (DateTime.unixSeconds_of_ofUnix? (by decide) (decodeTimestamp_integer.mp h)).2
    exact .inl (by omega)
  | real x =>
    rw [decodeTimestamp] at h
    split at h
    next hread =>
      cases h
      have hnano := (DateTime.unixSeconds_of_ofUnix? (by omega) hread).2
      exact .inl (by omega)
    · cases h

/-! ### Types that write back what they read -/

/-- A value that has no floating point number in its JSON, if it is that. -/
def Value.Exact : Value → Prop
  | .json j => j.tree.Exact
  | _ => True

namespace FieldType

variable {type : FieldType}

/-- What the type reads it can store and read again; none of it is NULL. -/
def WritesBack (type : FieldType) : Prop :=
  ∀ stored v, type.decode stored = .ok v → v.Exact →
    v ≠ .null ∧ ∃ again, again ≠ .null ∧ type.encode v = .ok again ∧ type.decode again = .ok v

/-- A plain type reads values of its own, which it reads back as they are, JSON if it has no
floating point numbers. -/
theorem holds_of_decode (h : type.IsPlain) {stored : Stored} {v : Value}
    (hv : type.decode stored = .ok v) :
    type.Holds v ∧ type.readBack v = v ∧ (v.Exact → v.Readable) := by
  fun_cases FieldType.decode type stored with
  | case6 i hbool =>
    rw [FieldType.decode, if_pos hbool] at hv
    cases hv
    exact ⟨trivial, rfl, fun _ => trivial⟩
  | case7 i hbool =>
    rw [FieldType.decode, if_neg hbool] at hv
    cases hv
  | case8 domain i hmem | case10 domain i hmem | case12 domain s hmem | case14 domain s hmem =>
    rw [FieldType.decode, if_pos hmem] at hv
    cases hv
    exact ⟨List.contains_iff_mem.mp hmem, rfl, fun _ => trivial⟩
  | case9 domain i hmem | case11 domain i hmem | case13 domain s hmem | case15 domain s hmem =>
    rw [FieldType.decode, if_neg hmem] at hv
    cases hv
  | case16 => cases h
  | case17 s j hparse =>
    rw [FieldType.decode, hparse] at hv
    cases hv
    exact ⟨trivial, rfl, fun hexact => ⟨hexact, Json.depth_of_parse hparse⟩⟩
  | case18 s fault hparse =>
    rw [FieldType.decode, hparse] at hv
    cases hv
  | case19 => cases h
  | case20 =>
    rw [FieldType.decode] at hv
    · cases hv
    all_goals assumption
  | _ =>
    cases hv
    exact ⟨trivial, rfl, fun _ => trivial⟩

theorem writesBack_of_isPlain (h : type.IsPlain) : type.WritesBack := by
  intro stored v hv hexact
  obtain ⟨hholds, hself, hreadable⟩ := holds_of_decode h hv
  obtain ⟨again, hagain⟩ := (exists_encode_iff h).mpr hholds
  have hread := decode_of_encode h (hreadable hexact) hagain
  rw [hself] at hread
  refine ⟨?_, again, ne_null_of_decode h hread, hagain, hread⟩
  rintro rfl
  exact type.not_holds_null hholds

theorem writesBack_iso8601 : (FieldType.timestamp .iso8601).WritesBack := by
  intro stored v hv _
  obtain ⟨t, ht, rfl⟩ := except_map_eq_ok.mp hv
  refine ⟨nofun, .text t.iso, nofun, rfl, except_map_eq_ok.mpr ⟨t, ?_, rfl⟩⟩
  exact decodeTimestamp_text.mpr (t.parse_iso_eq_iff.mpr (regular_of_decodeTimestamp ht))

end FieldType

/-- A column of a built-in type, wrapped once or not, can store every value that it reads, and reads
the same value from what it stores; of timestamps this is said of those that are stored as texts,
and of JSON if it has no floating point number. -/
theorem read_value_written_back {type : FieldType} (h : type.IsPlain ∨ type = .timestamp .iso8601)
    (wrapped : Bool) (asked : Option Affinity) :
    ∃ r, ResolvedType.of? (if wrapped then .optional type else type) asked = some r ∧
      ∀ stored v, r.decode stored = .ok v → v.Exact →
        ∃ again, r.encode v = .ok again ∧ r.decode again = .ok v := by
  have hresolved : ∃ a, ResolvedType.of? (if wrapped then .optional type else type) asked =
      some ⟨a, wrapped, type⟩ := by
    rcases h with hplain | rfl
    · exact ResolvedType.of?_isPlain hplain wrapped asked
    · exact ResolvedType.of?_timestamp .iso8601 wrapped asked
  have hback : type.WritesBack := by
    rcases h with hplain | rfl
    · exact FieldType.writesBack_of_isPlain hplain
    · exact FieldType.writesBack_iso8601
  obtain ⟨a, hr⟩ := hresolved
  refine ⟨_, hr, fun stored v hv hexact => ?_⟩
  by_cases hnull : stored = .null
  · -- only a wrapped type reads NULL, and it stores NULL for it
    subst hnull
    cases wrapped with
    | false => cases hv
    | true =>
      cases hv
      exact ⟨.null, rfl, rfl⟩
  · rw [ResolvedType.decode_of_ne_null hnull] at hv
    obtain ⟨hvalue, again, hagain, hencode, hdecode⟩ := hback stored v hv hexact
    refine ⟨again, ?_, ?_⟩
    · rw [ResolvedType.encode_of_ne_null hvalue, hencode]
    · rw [ResolvedType.decode_of_ne_null hagain, hdecode]

def repeatedName : Json := .ofTree (.object [("a", .array []), ("a", .null)])

theorem parse_repeatedName :
    Json.parse "\x7b\"a\": [],\"\\u0061\":null\x7d" = .ok repeatedName := by
  -- the reader is run on the characters, which are taken out of the text only once
  have hchars :
      "\x7b\"a\": [],\"\\u0061\":null\x7d".toList = ['\x7b', '"', 'a', '"', ':',
        ' ', '[', ']', ',', '"',
      '\\', 'u', '0', '0', '6', '1', '"', ':', 'n', 'u', 'l', 'l', '\x7d'] := rfl
  rw [Json.parse, hchars]
  rfl

/-- The object is read from a text with a blank and an escape, and a timestamp from one with a blank
for its `T`; both come back from the texts that are stored for them. -/
theorem read_value_written_back_of_loose_texts :
    (ResolvedType.decode ⟨.text, true, .json⟩ (.text "\x7b\"a\": [],\"\\u0061\":null\x7d") =
      .ok (.json repeatedName) ∧
      ResolvedType.encode ⟨.text, true, .json⟩ (.json repeatedName) =
        .ok (.text "\x7b\"a\":null\x7d") ∧
      ResolvedType.decode ⟨.text, true, .json⟩ (.text "\x7b\"a\":null\x7d") =
        .ok (.json repeatedName)) ∧
    ResolvedType.decode ⟨.text, false, .timestamp .iso8601⟩ (.text "2016-12-31 23:59:60.5") =
        .ok (.timestamp leapSecond) ∧
      ResolvedType.encode ⟨.text, false, .timestamp .iso8601⟩ (.timestamp leapSecond) =
        .ok (.text "2016-12-31T23:59:60.500") ∧
      ResolvedType.decode ⟨.text, false, .timestamp .iso8601⟩ (.text "2016-12-31T23:59:60.500") =
        .ok (.timestamp leapSecond) := by
  constructor
  · obtain ⟨r, hr, hback⟩ :=
      read_value_written_back (.inl (show FieldType.json.IsPlain from trivial)) true none
    have hresolved : some ⟨.text, true, .json⟩ = some r := hr
    cases hresolved
    have hread : ResolvedType.decode ⟨.text, true, .json⟩
        (.text "\x7b\"a\": [],\"\\u0061\":null\x7d") = .ok (.json repeatedName) := by
      rw [ResolvedType.decode_of_ne_null (show Stored.text _ ≠ .null from Stored.noConfusion),
        FieldType.decode, parse_repeatedName]
    have hexact : (Value.json repeatedName).Exact := by
      have htree : repeatedName.tree = .object [("a", .null)] := rfl
      simp [Value.Exact, htree, Json.Tree.Exact, Json.Tree.MembersExact]
    obtain ⟨again, hagain, hsame⟩ := hback _ _ hread hexact
    have htext : again = .text "\x7b\"a\":null\x7d" := (Except.ok.inj hagain).symm
    rw [htext] at hagain hsame
    exact ⟨hread, hagain, hsame⟩
  · obtain ⟨r, hr, hback⟩ := read_value_written_back (.inr rfl) false none
    have hresolved : some ⟨.text, false, .timestamp .iso8601⟩ = some r := hr
    cases hresolved
    have hread : ResolvedType.decode ⟨.text, false, .timestamp .iso8601⟩
        (.text "2016-12-31 23:59:60.5") = .ok (.timestamp leapSecond) :=
      (ResolvedType.decode_timestamp _ _ _ _ Stored.noConfusion).mpr
        ⟨leapSecond, decodeTimestamp_text.mpr rfl, rfl⟩
    obtain ⟨again, hagain, hsame⟩ := hback _ _ hread trivial
    have htext : again = .text "2016-12-31T23:59:60.500" := (Except.ok.inj hagain).symm
    rw [htext] at hagain hsame
    exact ⟨hread, hagain, hsame⟩

end TypedTables
