import TypedTables.Json.Printer
import TypedTables.Json.Token
import TypedTables.Proofs.Building
import TypedTables.Proofs.DigitTexts
import TypedTables.Proofs.RoundedValues

/-!
# JSON numbers read back

A whole number is read back as itself. Of a floating point number a reader may keep fewer digits
than are written, and rounds twice; what it makes of the text is finite all the same.
-/
namespace TypedTables.Json

/-! ### Digits -/

theorem digitValue_add (n : Nat) (c : Char) (cs : List Char) :
    Nat.ofDigitChars 10 (c :: cs) n = Nat.ofDigitChars 10 cs (n * 10 + digitValue c) := by
  rw [Nat.ofDigitChars_cons, Nat.mul_comm]
  rfl

theorem le_ofDigitChars (n : Nat) (cs : List Char) : n ≤ Nat.ofDigitChars 10 cs n := by
  rw [Nat.ofDigitChars_eq_ofDigitChars_zero]
  have := Nat.le_mul_of_pos_left n (Nat.pow_pos (n := cs.length) (show 0 < 10 by decide))
  omega

/-- The digits that are appended are the first ones. -/
theorem appendDigits_spec (bound : Nat) {n : Nat} (hn : n < bound) (cs : List Char) :
    (appendDigits bound n cs).2 ≤ cs.length ∧
      (appendDigits bound n cs).1 = Nat.ofDigitChars 10 (cs.take (appendDigits bound n cs).2) n ∧
      (appendDigits bound n cs).1 < bound := by
  induction cs generalizing n with
  | nil => exact ⟨Nat.le_refl 0, rfl, hn⟩
  | cons c cs ih =>
    rw [appendDigits]
    split
    next hc =>
      obtain ⟨hle, hvalue, hlt⟩ := ih hc
      refine ⟨Nat.succ_le_succ hle, ?_, hlt⟩
      dsimp only
      rw [List.take_succ_cons, digitValue_add]
      exact hvalue
    next => exact ⟨Nat.zero_le _, rfl, hn⟩

/-- All digits are appended if the number stays below the bound. -/
theorem appendDigits_all {bound n : Nat} {cs : List Char} (h : Nat.ofDigitChars 10 cs n < bound) :
    appendDigits bound n cs = (Nat.ofDigitChars 10 cs n, cs.length) := by
  induction cs generalizing n with
  | nil => rfl
  | cons c cs ih =>
    rw [digitValue_add] at h ⊢
    have hc : n * 10 + digitValue c < bound := (le_ofDigitChars _ cs).trans_lt h
    rw [appendDigits]
    dsimp only
    rw [if_pos hc, ih h, List.length_cons]

/-- The digits that are appended make up no more than all of them. -/
theorem appendDigits_le (bound : Nat) {n : Nat} (hn : n < bound) (cs : List Char) :
    (appendDigits bound n cs).1 * 10 ^ (cs.length - (appendDigits bound n cs).2) ≤
      Nat.ofDigitChars 10 cs n := by
  obtain ⟨hle, hvalue, -⟩ := appendDigits_spec bound hn cs
  have hsplit : Nat.ofDigitChars 10 cs n =
      Nat.ofDigitChars 10 (cs.drop (appendDigits bound n cs).2) (appendDigits bound n cs).1 := by
    rw [hvalue, ← Nat.ofDigitChars_append, List.take_append_drop]
  rw [hsplit, Nat.ofDigitChars_eq_ofDigitChars_zero, List.length_drop, Nat.mul_comm]
  exact Nat.le_add_right ..

/-- The digits of a number do not start with a zero, unless they are one. -/
theorem toDigits_head_ne_zero {n : Nat} (hn : n ≠ 0) : (Nat.toDigits 10 n).head? ≠ some '0' := by
  induction n using Nat.strongRecOn with
  | ind n ih =>
    rw [Nat.toDigits_eq_if (by decide)]
    split
    next hlt =>
      rw [List.head?_singleton, ne_eq, Option.some.injEq, Nat.digitChar_eq_zero]
      exact hn
    next hge =>
      rw [List.head?_append_of_ne_nil _ Nat.toDigits_ne_nil]
      exact ih (n / 10) (by omega) (by omega)

theorem toDigits_ne_zero {n : Nat} {cs : List Char} (h : Nat.toDigits 10 n = '0' :: cs) :
    cs = [] := by
  rcases eq_or_ne n 0 with rfl | hn
  · exact (List.cons.inj h).2.symm
  · exact absurd (by rw [h]; rfl) (toDigits_head_ne_zero hn)

/-! ### Whole numbers -/

structure Leading (ds : List Char) : Prop where
  digits : Digits ds
  ne_nil : ds ≠ []
  zero : ∀ cs, ds = '0' :: cs → cs = []

theorem leading_toDigits (n : Nat) : Leading (Nat.toDigits 10 n) :=
  ⟨digits_toDigits n, Nat.toDigits_ne_nil, fun _ => toDigits_ne_zero⟩

/-- What a reader makes of leading digits and what follows them. -/
def afterLeading (neg : Bool) (ds rest : List Char) : Except Fault (Number × List Char) :=
  let (n, count) := appendDigits significandBound 0 ds
  let dropped : Nat := ds.length - count
  match rest with
  | '.' :: r =>
    let fs := digits r
    let rest := r.drop fs.length
    if fs.isEmpty then
      .error (.at (if r.isEmpty then .valueUnfinished else .numberInvalid) r)
    else
      let (n, count) := appendDigits significandBound n fs
      afterDigits neg n ((dropped : Int) - count) rest
  | 'e' :: r => exponent neg n dropped r
  | 'E' :: r => exponent neg n dropped r
  | _ =>
    if dropped = 0 && !(neg && n = 0) then
      match Number.ofInt? (if neg then -(n : Int) else n) with
      | some i => .ok (i, rest)
      | none => realNumber (if neg then (Binary64.ofInt n).neg else Binary64.ofInt n) rest
    else signedReal neg n dropped rest

/-- A number is read by its leading digits and what follows them. -/
theorem number_append (neg : Bool) {ds rest : List Char} (hds : Leading ds)
    (hrest : EndsDigits rest) :
    number neg (ds ++ rest) = afterLeading neg ds rest := by
  have hread := takeWhile_digits hds.digits hrest
  cases ds with
  | nil => exact absurd rfl hds.ne_nil
  | cons d ds =>
    have hd : d.isDigit = true := hds.digits d List.mem_cons_self
    have hzero : ¬(decide (d = '0') && ((ds ++ rest).head?.any Char.isDigit)) = true := by
      rw [Bool.and_eq_true, decide_eq_true_eq]
      rintro ⟨rfl, hnext⟩
      rw [hds.zero ds rfl, List.nil_append] at hnext
      cases rest with
      | nil => cases hnext
      | cons c rest =>
        have hc : c.isDigit = true := hnext
        rw [hrest c rfl] at hc
        cases hc
    rw [List.cons_append] at hread ⊢
    rw [number, if_neg (by simp [hd]), if_neg hzero]
    simp only [digits, hread]
    rw [← List.cons_append, List.drop_left]
    rfl

/-- What may follow a value inside of an array or an object, or at the end of a text. -/
def Closes (rest : List Char) : Prop := ∀ c ∈ rest.head?, c = ',' ∨ c = ']' ∨ c = '\x7d'

theorem Closes.endsDigits {rest : List Char} (h : Closes rest) : EndsDigits rest := by
  intro c hc
  rcases h c hc with rfl | rfl | rfl
  · rfl
  · rfl
  · rfl

theorem ofInt?_whole {i : Int} (h : -2 ^ 63 ≤ i ∧ i < 2 ^ 64) :
    Number.ofInt? i = some (.whole ⟨i, h⟩) :=
  dif_pos h

/-- Digits that nothing follows are read as the integer they are, if that is a number. -/
theorem afterLeading_whole {neg : Bool} {n : Nat} {i : Number} (hn : n < 2 ^ 64)
    (hzero : (neg && n = 0) = false) (hi : Number.ofInt? (if neg then -(n : Int) else n) = some i)
    {rest : List Char} (hrest : Closes rest) :
    afterLeading neg (Nat.toDigits 10 n) rest = .ok (i, rest) := by
  have hall : appendDigits significandBound 0 (Nat.toDigits 10 n) =
      (n, (Nat.toDigits 10 n).length) := by
    have hfits : Nat.ofDigitChars 10 (Nat.toDigits 10 n) 0 < significandBound := by
      rwa [Nat.ofDigitChars_ten_toDigits]
    rw [appendDigits_all hfits, Nat.ofDigitChars_ten_toDigits]
  have hwhole :
      (if (decide ((Nat.toDigits 10 n).length - (Nat.toDigits 10 n).length = 0) &&
        !(neg && n = 0)) = true then
        match Number.ofInt? (if neg then -(n : Int) else n) with
        | some i => .ok (i, rest)
        | none => realNumber (if neg then (Binary64.ofInt n).neg else Binary64.ofInt n) rest
      else signedReal neg n ((Nat.toDigits 10 n).length - (Nat.toDigits 10 n).length : Nat) rest) =
        Except.ok (i, rest) := by
    rw [hzero, Nat.sub_self, hi]
    rfl
  rw [afterLeading, hall]
  cases rest with
  | nil => exact hwhole
  | cons c rest =>
    rcases hrest c rfl with rfl | rfl | rfl
    · exact hwhole
    · exact hwhole
    · exact hwhole

/-- An integer is read from its text as itself. -/
theorem number_natural {n : Nat} (hn : n < 2 ^ 64) {rest : List Char} (hrest : Closes rest) :
    number false (Nat.toDigits 10 n ++ rest) = .ok (.whole ⟨n, by omega, by omega⟩, rest) := by
  rw [number_append false (leading_toDigits n) hrest.endsDigits]
  exact afterLeading_whole hn rfl (by rw [if_neg Bool.false_ne_true, ofInt?_whole]) hrest

/-- A negative integer is read from its text, behind the sign, as itself. -/
theorem number_minus {n : Nat} (hpos : n ≠ 0) (hn : n ≤ 2 ^ 63) {rest : List Char}
    (hrest : Closes rest) :
    number true (Nat.toDigits 10 n ++ rest) = .ok (.whole ⟨-n, by omega, by omega⟩, rest) := by
  rw [number_append true (leading_toDigits n) hrest.endsDigits]
  exact afterLeading_whole (by omega) (by simp [hpos]) (by rw [if_pos rfl, ofInt?_whole]) hrest

end TypedTables.Json
