import TypedTables.Proofs.StoredRows
import TypedTables.Proofs.TimestampOrder

/-!
# Columns of timestamps

A column of texts reads back every regular timestamp, as does a value without a column. A column of
whole seconds drops what is below the second; its integers grow with the time, and those that it
reads are exactly the seconds of the calendar.
-/
namespace TypedTables

/-! ### Texts -/

/-- Only times that are not regular are read back as others. -/
theorem TimeOfDay.carried_eq_iff (t : TimeOfDay) : t.carried = t ↔ t.Regular := by
  have hnano := t.nano_lt
  rw [carried, Regular]
  constructor
  · intro h
    by_contra hnot
    rw [dif_neg hnot] at h
    have hsecond := congrArg TimeOfDay.second h
    dsimp only at hsecond
    omega
  · intro h
    rw [dif_pos h]

theorem DateTime.parse_iso_eq_iff (t : DateTime) : parse t.iso = .ok t ↔ t.time.Regular := by
  rw [parse_iso, ← TimeOfDay.carried_eq_iff]
  constructor
  · intro h
    injection h with h
    exact congrArg DateTime.time h
  · intro h
    rw [h]

theorem decodeTimestamp_text {s : String} {t : DateTime} :
    decodeTimestamp (.text s) = .ok t ↔ DateTime.parse s = .ok t := by
  rw [decodeTimestamp]
  cases DateTime.parse s <;> simp

theorem decodeTimestamp_integer {i : Int64} {t : DateTime} :
    decodeTimestamp (.integer i) = .ok t ↔ DateTime.ofUnix? i.toInt 0 = some t := by
  rw [decodeTimestamp]
  cases DateTime.ofUnix? i.toInt 0 <;> simp

/-- What a column of timestamps reads is a timestamp. -/
theorem ResolvedType.decode_timestamp (affinity : Affinity) (wrapped : Bool)
    (layout : TimestampLayout) (stored : Stored) (hstored : stored ≠ .null) {v : Value} :
    decode ⟨affinity, wrapped, .timestamp layout⟩ stored = .ok v ↔
      ∃ t, decodeTimestamp stored = .ok t ∧ .timestamp t = v := by
  have hdecode :
      (FieldType.timestamp layout).decode stored = (decodeTimestamp stored).map .timestamp := rfl
  rw [decode_of_ne_null hstored, hdecode, except_map_eq_ok]

/-- A timestamp that is stored as a text, by a column or without one, is read back exactly if its
time is regular, whatever its year. -/
theorem iso_timestamp_read_back (t : DateTime) (wrapped : Bool) (asked : Option Affinity) :
    ∃ r stored, ResolvedType.of? (if wrapped then .optional (.timestamp .iso8601)
        else .timestamp .iso8601) asked =
        some r ∧
      r.encode (.timestamp t) = .ok stored ∧ (Value.timestamp t).toStored = stored ∧
      (r.decode stored = .ok (.timestamp t) ↔ t.time.Regular) ∧
      ((Value.ofStored stored).asTimestamp? = some t ↔ t.time.Regular) := by
  obtain ⟨affinity, hr⟩ := ResolvedType.of?_timestamp .iso8601 wrapped asked
  refine ⟨_, .text t.iso, hr, rfl, rfl, ?_, ?_⟩
  · rw [ResolvedType.decode_timestamp _ _ _ (.text t.iso) nofun, ← DateTime.parse_iso_eq_iff, ←
      decodeTimestamp_text]
    simp
  · rw [← DateTime.parse_iso_eq_iff]
    have hread : (Value.ofStored (.text t.iso)).asTimestamp? = (DateTime.parse t.iso).toOption :=
      rfl
    rw [hread]
    cases DateTime.parse t.iso <;> simp [Except.toOption]

/-! ### Whole seconds -/

/-- The timestamp without what is below its second, also if that is in a leap second. -/
def DateTime.wholeSecond (t : DateTime) : DateTime :=
  ⟨t.date, { t.time with nano := 0, nano_lt := by decide }⟩

def DateTime.epoch : DateTime := (DateTime.of? 1970 1 1 0 0 0 0).get (by decide)

/-- A number of seconds that is read is that of the timestamp. -/
theorem DateTime.unixSeconds_of_ofUnix? {n : Int} {nano : Nat} {t : DateTime}
    (hnano : nano < 2000000000) (h : ofUnix? n nano = some t) :
    t.unixSeconds = n ∧ t.time.nano = nano := by
  obtain ⟨time, htime, hseconds, hnano'⟩ := ofSeconds?_eq (n := (n % 86400).toNat) (by omega) hnano
  rw [ofUnix?, htime] at h
  cases hdate : Date.ofDayNumber? (n / 86400) with
  | none => rw [hdate] at h; cases h
  | some date =>
    rw [hdate] at h
    cases h
    have hday := Date.dayNumber_of_ofDayNumber? hdate
    refine ⟨?_, hnano'⟩
    rw [unixSeconds, hday, hseconds]
    omega

/-- A column of whole seconds reads back what it stores but for what is below the second. Later
timestamps have no smaller integers, and zero is the first second of 1970. The integers that are
read are those of the seconds of the calendar, and each is stored again as itself. -/
theorem unix_seconds_read_back (wrapped : Bool) (asked : Option Affinity) :
    ∃ r, ResolvedType.of? (if wrapped then .optional (.timestamp .unixInt)
      else .timestamp .unixInt) asked = some r ∧
      (∀ t, ∃ n, r.encode (.timestamp t) = .ok (.integer n) ∧
        r.decode (.integer n) = .ok (.timestamp t.wholeSecond)) ∧
      (∀ t u m n, t ≤ u → r.encode (.timestamp t) = .ok (.integer m) →
        r.encode (.timestamp u) = .ok (.integer n) → m ≤ n) ∧
      r.decode (.integer 0) = .ok (.timestamp .epoch) ∧
      ∀ n : Int64,
        ((∃ v, r.decode (.integer n) = .ok v) ↔ DateTime.firstSecond ≤ n.toInt ∧
          n.toInt < DateTime.endSecond) ∧
        ∀ v, r.decode (.integer n) = .ok v → r.encode v = .ok (.integer n) := by
  obtain ⟨affinity, hr⟩ := ResolvedType.of?_timestamp .unixInt wrapped asked
  have hdecode (n : Int64) (v : Value) :
      ResolvedType.decode ⟨affinity, wrapped, .timestamp .unixInt⟩ (.integer n) = .ok v ↔
        ∃ t, DateTime.ofUnix? n.toInt 0 = some t ∧ .timestamp t = v := by
    rw [ResolvedType.decode_timestamp _ _ _ (.integer n) nofun]
    simp only [decodeTimestamp_integer]
  have hencode (t : DateTime) :
    ResolvedType.encode ⟨affinity, wrapped, .timestamp .unixInt⟩ (.timestamp t) =
      .ok (.integer (Int64.ofInt t.unixSeconds)) := rfl
  refine ⟨_, hr, fun t => ⟨_, hencode t, ?_⟩, fun t u m n hle ht hu => ?_, ?_,
    fun n => ⟨?_, fun v hv => ?_⟩⟩
  · refine (hdecode _ _).mpr ⟨t.wholeSecond, ?_, rfl⟩
    rw [toInt_unixSeconds]
    exact t.ofUnix?_unixSeconds (by decide)
  · rw [hencode] at ht hu
    cases ht
    cases hu
    rw [Int64.le_iff_toInt_le, toInt_unixSeconds, toInt_unixSeconds]
    exact DateTime.unixSeconds_le hle
  · exact (hdecode _ _).mpr ⟨.epoch, by decide, rfl⟩
  · simp only [hdecode]
    rw [← DateTime.exists_ofUnix?_iff (show 0 < 2000000000 by decide)]
    simp
  · obtain ⟨t, ht, rfl⟩ := (hdecode n v).mp hv
    rw [hencode, (DateTime.unixSeconds_of_ofUnix? (by decide) ht).1, Int64.ofInt_toInt]

end TypedTables
