import TypedTables.Json.Printer
import TypedTables.Json.Token
import TypedTables.Proofs.Building

/-!
# JSON strings read back

A string is read from its text, whatever its characters are and whatever follows its closing quote.
-/
namespace TypedTables.Json

theorem length_le_byteLength (cs : List Char) : cs.length ≤ byteLength cs := by
  induction cs with
  | nil => exact Nat.le_refl 0
  | cons c cs ih =>
    have hc := c.utf8Size_pos
    rw [List.length_cons, byteLength, List.foldr_cons, ← byteLength]
    omega

theorem hexValue?_hexDigit {d : Nat} (h : d < 16) : hexValue? (hexDigit d) = some d := by
  have hall : ∀ d < 16, hexValue? (hexDigit d) = some d := by decide
  exact hall d h

/-- Four digits of base sixteen, of which the first two are zeros. -/
theorem hexQuad_hexDigit {a b : Nat} (ha : a < 16) (hb : b < 16) (rest : List Char) :
    hexQuad ('0' :: '0' :: hexDigit a :: hexDigit b :: rest) = .ok (a * 16 + b, rest) := by
  have hlength := length_le_byteLength ('0' :: '0' :: hexDigit a :: hexDigit b :: rest)
  have hzero : hexValue? '0' = some 0 := rfl
  simp only [List.length_cons] at hlength
  rw [hexQuad, if_neg (by omega)]
  simp [hzero, hexValue?_hexDigit ha, hexValue?_hexDigit hb]

/-- A control character is read from its number. -/
theorem escape_number {c : Char} (hc : c.toNat < 0x20) (rest : List Char) :
    escape ('u' :: '0' :: '0' :: hexDigit (c.toNat / 16) :: hexDigit (c.toNat % 16) :: rest) =
      .ok (c, rest) := by
  have hsum : c.toNat / 16 * 16 + c.toNat % 16 = c.toNat := Nat.div_add_mod' c.toNat 16
  have htrailing : isTrailing c.toNat = false := by
    simp only [isTrailing, Bool.and_eq_false_iff, decide_eq_false_iff_not]
    omega
  have hleading : isLeading c.toNat = false := by
    simp only [isLeading, Bool.and_eq_false_iff, decide_eq_false_iff_not]
    omega
  rw [escape, numberedChar, hexQuad_hexDigit (by omega) (by omega), except_ok_bind, hsum]
  simp only [htrailing, hleading, Bool.false_eq_true, if_false, Char.ofNat_toNat]

/-- A character stands in a string as an escape that is read as it, or as itself. -/
theorem escaped_cases (c : Char) :
    (∃ cs, escaped c = '\\' :: cs ∧ ∀ rest, escape (cs ++ rest) = .ok (c, rest)) ∨
      escaped c = [c] ∧ c ≠ '"' ∧ c ≠ '\\' ∧ ¬c.toNat < 0x20 := by
  rw [escaped]
  split
  next h => exact .inl ⟨_, rfl, fun rest => by rw [h]; rfl⟩
  next hquote =>
  split
  next h => exact .inl ⟨_, rfl, fun rest => by rw [h]; rfl⟩
  next hbackslash =>
  split
  next h => exact .inl ⟨_, rfl, fun rest => by rw [h]; rfl⟩
  split
  next h => exact .inl ⟨_, rfl, fun rest => by rw [h]; rfl⟩
  split
  next h => exact .inl ⟨_, rfl, fun rest => by rw [h]; rfl⟩
  split
  next h => exact .inl ⟨_, rfl, fun rest => by rw [h]; rfl⟩
  split
  next h => exact .inl ⟨_, rfl, fun rest => by rw [h]; rfl⟩
  split
  next hcontrol => exact .inl ⟨_, rfl, escape_number hcontrol⟩
  next hplain => exact .inr ⟨rfl, hquote, hbackslash, hplain⟩

/-- A character inside a string is read, and then the string from the next one. -/
theorem stringTail_escaped (fuel : Nat) (c : Char) (rest : List Char) :
    stringTail (fuel + 1) (escaped c ++ rest) = (do
      let (cs, rest) ← stringTail fuel rest
      .ok (c :: cs, rest)) := by
  rcases escaped_cases c with ⟨cs, hcs, hread⟩ | ⟨hself, hquote, hbackslash, hplain⟩
  · rw [hcs, List.cons_append, stringTail, if_neg (by decide), if_pos rfl, hread, except_ok_bind]
  · rw [hself, List.singleton_append, stringTail, if_neg hquote, if_neg hbackslash, if_neg hplain]

/-- A string is read up to its closing quote. -/
theorem stringTail_chars {fuel : Nat} {cs : List Char} (h : cs.length < fuel) (rest : List Char) :
    stringTail fuel (cs.flatMap escaped ++ '"' :: rest) = .ok (cs, rest) := by
  induction cs generalizing fuel with
  | nil =>
    obtain ⟨fuel, rfl⟩ := Nat.exists_eq_succ_of_ne_zero (Nat.ne_zero_of_lt h)
    rw [List.flatMap_nil, List.nil_append, stringTail, if_pos rfl]
  | cons c cs ih =>
    obtain ⟨fuel, rfl⟩ := Nat.exists_eq_succ_of_ne_zero (Nat.ne_zero_of_lt h)
    rw [List.flatMap_cons, List.append_assoc, stringTail_escaped,
      ih (Nat.lt_of_succ_lt_succ h), except_ok_bind]

theorem length_le_flatMap_escaped (cs : List Char) : cs.length ≤ (cs.flatMap escaped).length := by
  induction cs with
  | nil => exact Nat.le_refl 0
  | cons c cs ih =>
    have hc : 1 ≤ (escaped c).length := by
      rcases escaped_cases c with ⟨cs, hcs, -⟩ | ⟨hself, -⟩
      · exact hcs ▸ Nat.succ_le_succ (Nat.zero_le cs.length)
      · exact hself ▸ Nat.le_refl 1
    rw [List.flatMap_cons, List.length_append, List.length_cons]
    omega

/-- A string is read from its text, after the opening quote. -/
theorem string_chars (s : String) (rest : List Char) :
    string (s.toList.flatMap escaped ++ '"' :: rest) = .ok (s, rest) := by
  have hfuel : s.toList.length < (s.toList.flatMap escaped ++ '"' :: rest).length + 1 := by
    have := length_le_flatMap_escaped s.toList
    rw [List.length_append]
    omega
  rw [string, stringTail_chars hfuel, except_ok_bind]
  dsimp only
  rw [String.ofList_toList]

end TypedTables.Json
