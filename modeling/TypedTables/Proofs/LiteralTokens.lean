import TypedTables.Proofs.ClauseQuotes
import TypedTables.Proofs.DigitTexts
import TypedTables.Schema.Domain

/-!
# Literals as tokens

A text between quotes is one token, whatever it says, and the token says the text. Digits are one
token, which is the number that they stand for. Words and signs are tokens too; what a token is
depends on what follows it, but not on where it stands.
-/
namespace TypedTables.Engine

/-! ### Kinds and texts of tokens -/

def Token.mark (t : Token) : TokenKind × String := (t.kind, t.text)

def marks (cs : List Char) : List (TokenKind × String) :=
  ((pieces cs).filter (·.kind ≠ .blank)).map fun p => (p.kind, String.ofList p.chars)

theorem map_mark_tokensFrom (offset : Nat) (gap : List Char) (ps : List Piece) :
    (tokensFrom offset gap ps).map Token.mark =
      (ps.filter (·.kind ≠ .blank)).map fun p => (p.kind, String.ofList p.chars) := by
  induction ps generalizing offset gap with
  | nil => rfl
  | cons p ps ih =>
    rw [tokensFrom]
    split
    next h => rw [ih, List.filter_cons_of_neg (by simp [h])]
    next h => rw [List.map_cons, ih, List.filter_cons_of_pos (by simp [h]),
      List.map_cons, Token.mark]

theorem map_mark_tokens (s : String) : (tokens s).map Token.mark = marks s.toList :=
  map_mark_tokensFrom 0 [] _

theorem marks_nil : marks [] = [] := by
  rw [marks, pieces, List.filter_nil, List.map_nil]

/-- A piece that is no blank is a token. -/
theorem marks_piece {kind : TokenKind} {c : Char} {as rest : List Char}
    (h : pieceAfter c (as ++ rest) = (kind, as.length)) (hkind : kind ≠ .blank) :
    marks (c :: (as ++ rest)) = (kind, String.ofList (c :: as)) :: marks rest := by
  rw [marks, pieces, h]
  dsimp only
  rw [List.filter_cons_of_pos (by simp [hkind]), List.map_cons, List.take_left,
    List.drop_left, marks]

/-- Blanks are dropped. -/
theorem marks_blank {c : Char} {cs : List Char} (hc : isSpace c = false) :
    marks (' ' :: c :: cs) = marks (c :: cs) := by
  have hspan : spanLength isSpace (c :: cs) = 0 := by
    rw [spanLength, List.takeWhile_cons_of_neg (by simp [hc]), List.length_nil]
  have hpiece : pieceAfter ' ' (c :: cs) = (.blank, 0) := by
    rw [← hspan]
    rfl
  rw [marks, pieces, hpiece]
  dsimp only
  rw [List.filter_cons_of_neg (by simp), List.drop_zero, marks]

/-- The signs around the items of a list. -/
theorem marks_sign {c : Char} (hc : c = '(' ∨ c = ')' ∨ c = ',') (cs : List Char) :
    marks (c :: cs) = (.sign, String.singleton c) :: marks cs := by
  have hpiece : pieceAfter c cs = (.sign, 0) := by
    rcases hc with rfl | rfl | rfl <;> cases cs <;> rfl
  exact @marks_piece .sign _ [] _ hpiece (by decide)

theorem marks_minus {c : Char} (hc : c.isDigit = true) (cs : List Char) :
    marks ('-' :: c :: cs) = (.sign, "-") :: marks (c :: cs) := by
  have hdash : c ≠ '-' := by rintro rfl; cases hc
  have hangle : c ≠ '>' := by rintro rfl; cases hc
  have hpiece : pieceAfter '-' (c :: cs) = (.sign, 0) := by
    unfold pieceAfter
    rw [if_neg (by decide), if_neg (by decide), if_neg (by decide), if_neg (by decide),
      if_neg (by exact Bool.false_ne_true),
        if_neg (by exact Bool.false_ne_true), if_neg (by decide),
      if_neg (by decide), if_neg (by decide)]
    -- Only what the digit follows could make more of the sign, and it is neither a dash nor an
    -- angle.
    split
    case h_1 h => exact absurd (List.cons.inj h).1 hdash
    case h_11 h => exact absurd (List.cons.inj h).1 hangle
    case h_12 h => exact absurd (List.cons.inj h).1 hangle
    case h_14 => rfl
    all_goals contradiction
  exact @marks_piece .sign _ [] _ hpiece (by decide)

/-! ### Words -/

theorem ne_of_isIdChar {c d : Char} (hc : isIdChar c = true) (hd : isIdChar d = false) : c ≠ d := by
  rintro rfl
  rw [hc] at hd
  cases hd

theorem not_isSpace_of_isIdChar {c : Char} (hc : isIdChar c = true) : ¬ isSpace c = true := by
  intro h
  simp only [isSpace, Bool.or_eq_true, beq_iff_eq, or_assoc] at h
  rcases h with rfl | rfl | rfl | rfl | rfl | rfl <;> cases hc

/-- A character of words starts a number or a word, unless it starts a blob. -/
theorem pieceAfter_of_isIdChar {c : Char} {cs : List Char}
    (hid : isIdChar c = true) (hdollar : c ≠ '$')
    (hblob : ((c = 'x' || c = 'X') && cs.head? == some '\'') = false) :
    pieceAfter c cs =
      if c.isDigit then ((numberPiece (c :: cs)).1, (numberPiece (c :: cs)).2 - 1)
      else (.word, spanLength isIdChar cs) := by
  have hother (d : Char) : isIdChar d = false → c ≠ d := ne_of_isIdChar hid
  unfold pieceAfter
  rw [if_neg (not_isSpace_of_isIdChar hid), if_neg (hother '\'' rfl),
    if_neg (by simp [hother '"' rfl, hother '\x60' rfl]), if_neg (hother '[' rfl), hblob,
    if_neg Bool.false_ne_true]
  cases hdigit : c.isDigit with
  | true => rfl
  | false =>
    rw [if_neg (by simp [hother '.' rfl]), if_pos (by simp [hid, hdollar])]
    rfl

def StartsWord (c : Char) : Prop := isIdChar c = true ∧ c.isDigit = false ∧ c ≠ '$'

/-- What follows a word does not go on with one, and opens no text. -/
def EndsWord (rest : List Char) : Prop := ∀ c ∈ rest.head?, isIdChar c = false ∧ c ≠ '\''

theorem takeWhile_idChars {as rest : List Char} (has : ∀ a ∈ as, isIdChar a = true)
    (hrest : EndsWord rest) : (as ++ rest).takeWhile isIdChar = as := by
  rw [List.takeWhile_append_of_pos has]
  cases rest with
  | nil => simp
  | cons c rest =>
    rw [List.takeWhile_cons_of_neg (by simp [(hrest c rfl).1]), List.append_nil]

theorem marks_word {c : Char} {as rest : List Char} (hc : StartsWord c)
    (has : ∀ a ∈ as, isIdChar a = true) (hrest : EndsWord rest) :
    marks (c :: (as ++ rest)) = (.word, String.ofList (c :: as)) :: marks rest := by
  refine marks_piece ?_ (by decide)
  obtain ⟨hid, hdigit, hdollar⟩ := hc
  have hquote : ((as ++ rest).head? == some '\'') = false := by
    rw [beq_eq_false_iff_ne]
    intro h
    cases as with
    | nil => exact (hrest '\'' h).2 rfl
    | cons a as =>
      cases h
      exact absurd (has '\'' List.mem_cons_self) (by decide)
  rw [pieceAfter_of_isIdChar hid hdollar (by rw [hquote, Bool.and_false]),
    if_neg (by simp [hdigit]), spanLength, takeWhile_idChars has hrest]

/-! ### Numbers -/

theorem natOfDigits_eq (ds : List Char) : natOfDigits ds = Nat.ofDigitChars 10 ds 0 := by
  rw [natOfDigits, Nat.ofDigitChars]
  simp only [Nat.mul_comm]

/-- Digits that are followed by nothing that a number could go on with are an integer. -/
theorem unsignedAt_digits {ds rest : List Char} (neg : Bool) (hds : Digits ds) (hne : ds ≠ [])
    (hrest : ∀ c ∈ rest.head?, isIdChar c = false ∧ c ≠ '.') :
    unsignedAt neg (ds ++ rest) = some (storedOfInt neg ds, rest) := by
  have hends : EndsDigits rest := fun c hc => by
    cases hdigit : c.isDigit with
    | false => rfl
    | true => exact absurd (hrest c hc).1 (by simp [Clause.isIdChar_of_isDigit hdigit])
  have hpoint : ∀ more, rest ≠ '.' :: more := by
    rintro more rfl
    exact (hrest '.' rfl).2 rfl
  have hexponent : exponentAt rest = none := by
    cases rest with
    | nil => rfl
    | cons c rest =>
      have hc := (hrest c rfl).1
      have he : ¬ (c == 'e' || c == 'E') = true := by
        intro h
        rw [Bool.or_eq_true, beq_iff_eq, beq_iff_eq] at h
        rcases h with rfl | rfl <;> cases hc
      exact if_neg he
  rw [unsignedAt, takeWhile_digits hds hends, List.drop_left]
  dsimp only
  split
  next more => exact absurd rfl (hpoint more)
  next =>
    rw [hexponent]
    simp [hne]

theorem marks_digits {ds rest : List Char} (hds : Digits ds) (hne : ds ≠ [])
    (hrest : ∀ c ∈ rest.head?, isIdChar c = false ∧ c ≠ '.') :
    marks (ds ++ rest) = (.number, String.ofList ds) :: marks rest := by
  obtain ⟨d, ds, rfl⟩ := List.exists_cons_of_ne_nil hne
  have hd := hds d List.mem_cons_self
  have hjunk : spanLength isIdChar rest = 0 := by
    cases rest with
    | nil => rfl
    | cons c rest =>
      rw [spanLength, List.takeWhile_cons_of_neg (by simp [(hrest c rfl).1]), List.length_nil]
  have hnumber : numberPiece (d :: (ds ++ rest)) = (.number, ds.length + 1) := by
    have hread := unsignedAt_digits false hds hne hrest
    rw [List.cons_append] at hread
    rw [numberPiece, hread]
    simp only [hjunk, if_true, List.length_cons, List.length_append]
    congr 1
    omega
  have hpiece : pieceAfter d (ds ++ rest) = (.number, ds.length) := by
    have hdollar : d ≠ '$' := by rintro rfl; cases hd
    have hlower : d ≠ 'x' := by rintro rfl; cases hd
    have hupper : d ≠ 'X' := by rintro rfl; cases hd
    rw [pieceAfter_of_isIdChar (Clause.isIdChar_of_isDigit hd) hdollar (by simp [hlower, hupper]),
      if_pos hd, hnumber]
    rfl
  exact marks_piece hpiece (by decide)

/-! ### Texts -/

/-- Characters with every quote written twice. -/
def doubled (cs : List Char) : List Char :=
  cs.flatMap fun c => if c = '\'' then ['\'', '\''] else [c]

theorem toList_sqlLiteral (s : String) :
    (sqlLiteral s).toList = '\'' :: (doubled s.toList ++ ['\'']) := by
  rw [sqlLiteral, String.toList_ofList]
  rfl

theorem doubled_quote (cs : List Char) : doubled ('\'' :: cs) = '\'' :: '\'' :: doubled cs := rfl

theorem doubled_cons {c : Char} (hc : c ≠ '\'') (cs : List Char) :
    doubled (c :: cs) = c :: doubled cs := by
  rw [doubled, List.flatMap_cons, if_neg hc, List.singleton_append, doubled]

theorem quotedLength_doubled (cs : List Char) {rest : List Char} (hrest : rest.head? ≠ some '\'') :
    quotedLength '\'' (doubled cs ++ '\'' :: rest) = some ((doubled cs).length + 1) := by
  induction cs with
  | nil =>
    cases rest with
    | nil => rfl
    | cons c rest =>
      have hc : c ≠ '\'' := fun h => hrest (congrArg some h)
      rw [doubled, List.flatMap_nil, List.nil_append, quotedLength, if_pos rfl]
      exact if_neg hc
  | cons c cs ih =>
    rcases eq_or_ne c '\'' with rfl | hc
    · rw [doubled_quote, List.cons_append, List.cons_append, quotedLength,
        if_pos rfl, if_pos rfl, ih]
      rfl
    · rw [doubled_cons hc, List.cons_append, quotedLength.eq_def]
      dsimp only
      rw [if_neg hc, ih]
      rfl

theorem unquote_doubled (cs : List Char) : Token.unquote '\'' (doubled cs ++ ['\'']) = cs := by
  induction cs with
  | nil => rfl
  | cons c cs ih =>
    rcases eq_or_ne c '\'' with rfl | hc
    · rw [doubled_quote, List.cons_append, List.cons_append, Token.unquote,
        if_pos rfl, if_pos rfl, ih]
    · rw [doubled_cons hc, List.cons_append, Token.unquote.eq_def]
      dsimp only
      rw [if_neg hc, ih]

theorem marks_sqlLiteral (s : String) {rest : List Char} (hrest : rest.head? ≠ some '\'') :
    marks ((sqlLiteral s).toList ++ rest) = (.text, sqlLiteral s) :: marks rest := by
  have hpiece : pieceAfter '\'' (doubled s.toList ++ ['\''] ++ rest) =
      (.text, (doubled s.toList ++ ['\'']).length) := by
    have hlength := quotedLength_doubled s.toList hrest
    rw [List.append_assoc, List.singleton_append, List.length_append]
    unfold pieceAfter
    rw [if_neg (by decide), if_pos rfl, hlength]
    rfl
  have hmarks := marks_piece hpiece (by decide)
  rwa [← List.cons_append, ← toList_sqlLiteral, String.ofList_toList] at hmarks

/-- The token of a text between quotes is the literal of this text. -/
theorem literal?_sqlLiteral {t : Token} {s : String} (h : t.mark = (.text, sqlLiteral s)) :
    t.literal? = some (.text s) := by
  obtain ⟨hkind, htext⟩ := Prod.mk.inj h
  have hcontent : t.content = s := by
    rw [Token.content, htext, toList_sqlLiteral]
    simp [hkind, unquote_doubled]
  rw [Token.literal?, hkind, hcontent]

/-- The token of digits is the literal of the integer that they stand for. -/
theorem literal?_digits {t : Token} {ds : List Char}
    (h : t.mark = (.number, String.ofList ds)) (hds : Digits ds) (hne : ds ≠ []) :
    t.literal? = some (storedOfInt false ds) := by
  obtain ⟨hkind, htext⟩ := Prod.mk.inj h
  have hread : unsignedAt false ds = some (storedOfInt false ds, []) := by
    simpa using @unsignedAt_digits ds [] false hds hne nofun
  rw [Token.literal?, hkind]
  dsimp only
  rw [htext, String.toList_ofList, hread, Option.map_some]

end TypedTables.Engine
