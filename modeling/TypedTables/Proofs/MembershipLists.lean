import Mathlib.Data.List.Forall2
import TypedTables.Engine.Reader
import TypedTables.Proofs.LiteralTokens

/-!
# Reading a list of members

A test whether a column is among literals is read from its text as exactly that, with the literals
in their order. Reading is followed along the characters of the text: what is read depends on the
kinds and texts of the tokens.
-/
namespace TypedTables.Engine.TokenReader

/-! ### Readers along a text -/

section

variable {α β : Type}

/-- A reader takes the tokens of `cs` up to those of `rest`, and what it reads satisfies a
condition. -/
def Takes (r : TokenReader α) (cs : List Char) (P : α → Prop) (rest : List Char) : Prop :=
  ∀ ts, ts.map Token.mark = marks cs → ∃ a us, r ts = .ok (a, us) ∧ P a ∧
    us.map Token.mark = marks rest

variable {r : TokenReader α} {f : α → TokenReader β} {cs ds es : List Char} {P : α →
    Prop} {Q : β → Prop}

theorem Takes.bind (hr : Takes r cs P ds) (hf : ∀ a, P a → Takes (f a) ds Q es) :
    Takes (r >>= f) cs Q es := by
  intro ts hts
  obtain ⟨a, us, hread, ha, hus⟩ := hr ts hts
  obtain ⟨b, vs, hread', hb, hvs⟩ := hf a ha us hus
  refine ⟨b, vs, ?_, hb, hvs⟩
  change r ts >>= (fun p => f p.1 p.2) = _
  rw [hread]
  exact hread'

theorem takes_pure {a : α} (ha : P a) : Takes (pure a) cs P cs :=
  fun ts hts => ⟨a, ts, rfl, ha, hts⟩

theorem Takes.mono (hr : Takes r cs P ds) {R : α → Prop} (h : ∀ a, P a → R a) :
    Takes r cs R ds := by
  intro ts hts
  obtain ⟨a, us, hread, ha, hus⟩ := hr ts hts
  exact ⟨a, us, hread, h a ha, hus⟩

theorem Takes.value {a : α} (hr : Takes r cs (· = a) ds) (hf : Takes (f a) ds Q es) :
    Takes (r >>= f) cs Q es :=
  hr.bind fun _ h => h ▸ hf

end

section

variable {α : Type} {m : TokenKind × String} {ms : List (TokenKind × String)} {cs rest : List Char}

/-- The first token is the one with the given kind and text. -/
theorem exists_of_marks (h : marks cs = m :: ms) {ts : List Token}
    (hts : ts.map Token.mark = marks cs) :
    ∃ t us, ts = t :: us ∧ t.mark = m ∧ us.map Token.mark = ms := by
  rw [h] at hts
  obtain ⟨t, us, rfl, ht, hus⟩ := List.map_eq_cons_iff.mp hts
  exact ⟨t, us, rfl, ht, hus⟩

theorem takes_passes (h : marks cs = m :: marks rest) {p : Token → Bool}
    (hp : ∀ t, t.mark = m → p t = true) :
    Takes (passes p) cs (· = true) rest := by
  intro ts hts
  obtain ⟨t, us, rfl, ht, hus⟩ := exists_of_marks h hts
  refine ⟨true, us, ?_, rfl, hus⟩
  rw [passes, if_pos (hp t ht)]

theorem takes_passes_not (h : marks cs = m :: ms) {p : Token → Bool}
    (hp : ∀ t, t.mark = m → p t = false) :
    Takes (passes p) cs (· = false) cs := by
  intro ts hts
  obtain ⟨t, us, rfl, ht, hus⟩ := exists_of_marks h hts
  refine ⟨false, t :: us, ?_, rfl, hts⟩
  rw [passes, if_neg (by simp [hp t ht])]

/-- Whether a token is a word or a sign is seen from its kind and text. -/
def isWordMark (m : TokenKind × String) (w : String) : Bool :=
  m.1 = .word && m.2.toList.map Char.toUpper == w.toList

@[inherit_doc isWordMark]
def isSignMark (m : TokenKind × String) (s : String) : Bool := m.1 = .sign && m.2 == s

theorem takes_passesWord {w : String} (h : marks cs = m :: marks rest)
    (hm : isWordMark m w = true) :
    Takes (passesWord w) cs (· = true) rest :=
  takes_passes h fun t ht => by rw [← ht] at hm; exact hm

theorem takes_passesWord_not {w : String} (h : marks cs = m :: ms) (hm : isWordMark m w = false) :
    Takes (passesWord w) cs (· = false) cs :=
  takes_passes_not h fun t ht => by rw [← ht] at hm; exact hm

theorem takes_passesSign {s : String} (h : marks cs = m :: marks rest)
    (hm : isSignMark m s = true) :
    Takes (passesSign s) cs (· = true) rest :=
  takes_passes h fun t ht => by rw [← ht] at hm; exact hm

theorem takes_passesSign_not {s : String} (h : marks cs = m :: ms) (hm : isSignMark m s = false) :
    Takes (passesSign s) cs (· = false) cs :=
  takes_passes_not h fun t ht => by rw [← ht] at hm; exact hm

theorem takes_token (h : marks cs = m :: marks rest) {p : Token → Bool}
    (hp : ∀ t, t.mark = m → p t = true) :
    Takes (token p) cs (fun t => t.mark = m) rest := by
  intro ts hts
  obtain ⟨t, us, rfl, ht, hus⟩ := exists_of_marks h hts
  refine ⟨t, us, ?_, ht, hus⟩
  rw [token, if_pos (hp t ht)]

theorem takes_known (h : marks cs = m :: marks rest) {f : Token → Option α} {a : α}
    (hf : ∀ t, t.mark = m → f t = some a) : Takes (known f) cs (· = some a) rest := by
  intro ts hts
  obtain ⟨t, us, rfl, ht, hus⟩ := exists_of_marks h hts
  refine ⟨some a, us, ?_, rfl, hus⟩
  rw [known, hf t ht]

theorem takes_known_not (h : marks cs = m :: ms) {f : Token → Option α}
    (hf : ∀ t, t.mark = m → f t = none) :
    Takes (known f) cs (· = none) cs := by
  intro ts hts
  obtain ⟨t, us, rfl, ht, hus⟩ := exists_of_marks h hts
  refine ⟨none, t :: us, ?_, rfl, hts⟩
  rw [known, hf t ht]

theorem takes_sign {c : Char} (hc : c = '(' ∨ c = ')' ∨ c = ',') :
    Takes (sign (String.singleton c)) (c :: cs) (fun _ => True) cs := by
  refine (takes_token (marks_sign hc cs) ?_).bind fun _ _ => takes_pure trivial
  rintro ⟨k, x, offset, gap⟩ h
  cases h
  rcases hc with rfl | rfl | rfl <;> rfl

end

/-! ### Literals -/

/-- What follows an item: a comma or the closing parenthesis. -/
def EndsItem (rest : List Char) : Prop := ∃ c cs, rest = c :: cs ∧ (c = ',' ∨ c = ')')

/-- A text that is read as a literal wherever an item ends behind it. -/
structure IsLiteral (s : String) (v : Stored) : Prop where
  /-- It has tokens, and does not start like the end of the list. -/
  starts : ∀ {rest}, EndsItem rest →
    ∃ m ms, m ≠ (.sign, ")") ∧ marks (s.toList ++ rest) = m :: (ms ++ marks rest)
  reads : ∀ {rest}, EndsItem rest → ∀ n,
    Takes (operand (n + 1)) (s.toList ++ rest) (· = .literal v) rest

theorem isLiteral_sqlLiteral (s : String) : IsLiteral (sqlLiteral s) (.text s) := by
  have hmarks {rest : List Char} (hrest : EndsItem rest) :
      marks ((sqlLiteral s).toList ++ rest) = (.text, sqlLiteral s) :: marks rest := by
    refine marks_sqlLiteral s ?_
    obtain ⟨c, cs, rfl, rfl | rfl⟩ := hrest <;> simp
  refine ⟨fun hrest => ⟨(.text, sqlLiteral s), [], nofun, hmarks hrest⟩, fun hrest n => ?_⟩
  rw [operand]
  exact (takes_known (hmarks hrest) fun t ht => literal?_sqlLiteral ht).value (takes_pure rfl)

/-- The digits of an integer stand for it, if its sign is taken into account. -/
theorem storedOfInt_toDigits {i : Int64} {neg : Bool} (hneg : neg = decide (i.toInt < 0)) :
    storedOfInt neg (Nat.toDigits 10 i.toInt.natAbs) = .integer i := by
  have hlo := i.le_toInt
  have hhi := i.toInt_lt
  have hvalue : (if neg then -(i.toInt.natAbs : Int) else i.toInt.natAbs) = i.toInt := by
    subst hneg
    split
    next h => rw [decide_eq_true_eq] at h; omega
    next h => rw [decide_eq_true_eq] at h; omega
  rw [storedOfInt, natOfDigits_eq, Nat.ofDigitChars_toDigits (by decide) (by decide), hvalue,
    if_pos ⟨hlo, hhi⟩, Int64.ofInt_toInt]

theorem toString_of_neg {i : Int} (h : i < 0) :
    (toString i).toList = '-' :: Nat.toDigits 10 i.natAbs := by
  rw [Int.toString_eq_repr, Int.repr_eq_if, if_neg (by omega),
    String.toList_append, Nat.toList_repr,
    show (-i).toNat = i.natAbs by omega]
  rfl

theorem toString_of_nonneg {i : Int} (h : 0 ≤ i) :
    (toString i).toList = Nat.toDigits 10 i.natAbs := by
  rw [Int.toString_eq_repr, Int.repr_eq_if, if_pos h, Nat.toList_repr,
    show i.toNat = i.natAbs by omega]

theorem marks_toDigits (n : Nat) {rest : List Char} (hrest : EndsItem rest) :
    marks (Nat.toDigits 10 n ++ rest) =
      (.number, String.ofList (Nat.toDigits 10 n)) :: marks rest := by
  refine marks_digits (digits_toDigits n) Nat.toDigits_ne_nil ?_
  obtain ⟨c, cs, rfl, rfl | rfl⟩ := hrest <;> simp [isIdChar]

theorem isLiteral_of_nonneg {i : Int64} (h : 0 ≤ i.toInt) :
    IsLiteral (toString i.toInt) (.integer i) := by
  have hdigits := digits_toDigits i.toInt.natAbs
  refine ⟨fun {rest} hrest => ?_, fun {rest} hrest n => ?_⟩ <;> rw [toString_of_nonneg h]
  · exact ⟨(.number, _), [], nofun, marks_toDigits _ hrest⟩
  · rw [operand]
    refine (takes_known (marks_toDigits _ hrest) fun t ht => ?_).value (takes_pure rfl)
    rw [literal?_digits ht hdigits Nat.toDigits_ne_nil, storedOfInt_toDigits (by simpa using h)]

/-- A negative integer is read from the sign and the digits together. -/
theorem isLiteral_of_neg {i : Int64} (h : i.toInt < 0) :
    IsLiteral (toString i.toInt) (.integer i) := by
  have hdigits := digits_toDigits i.toInt.natAbs
  have hminus (rest : List Char) : marks ('-' :: Nat.toDigits 10 i.toInt.natAbs ++ rest) =
      (.sign, "-") :: marks (Nat.toDigits 10 i.toInt.natAbs ++ rest) := by
    obtain ⟨d, ds, hds⟩ := List.exists_cons_of_ne_nil (@Nat.toDigits_ne_nil i.toInt.natAbs 10)
    rw [hds] at hdigits ⊢
    exact marks_minus (hdigits d List.mem_cons_self) _
  refine ⟨fun {rest} hrest => ?_, fun {rest} hrest n => ?_⟩ <;> rw [toString_of_neg h]
  · refine ⟨(.sign, "-"),
      [(.number, String.ofList (Nat.toDigits 10 i.toInt.natAbs))], by decide, ?_⟩
    rw [hminus, marks_toDigits _ hrest, List.singleton_append]
  · have hread : unsignedAt true (Nat.toDigits 10 i.toInt.natAbs) = some (.integer i, []) := by
      have := @unsignedAt_digits _ [] true hdigits Nat.toDigits_ne_nil nofun
      rwa [List.append_nil, storedOfInt_toDigits (by simpa using h)] at this
    have hnumber :
        Takes (known fun t => if t.kind = .number then unsignedAt true t.text.toList else none)
        (Nat.toDigits 10 i.toInt.natAbs ++ rest) (· = some (.integer i, [])) rest :=
      takes_known (marks_toDigits _ hrest) fun t ht => by
        rw [if_pos (Prod.mk.inj ht).1, (Prod.mk.inj ht).2, String.toList_ofList, hread]
    rw [operand]
    refine (takes_known_not (hminus rest) fun t ht => ?_).value ?_
    · rw [Token.literal?, (Prod.mk.inj ht).1]
    refine (takes_passesWord_not (hminus rest) rfl).value ?_
    refine (takes_passesWord_not (hminus rest) rfl).value ?_
    exact (takes_passesSign (hminus rest) rfl).value (hnumber.value (takes_pure rfl))

theorem isLiteral_integer (i : Int64) : IsLiteral (toString i.toInt) (.integer i) := by
  rcases Int.lt_or_le i.toInt 0 with h | h
  · exact isLiteral_of_neg h
  · exact isLiteral_of_nonneg h

/-! ### Lists of literals -/

def items (ls : List String) : List Char := (String.intercalate "," ls).toList

theorem items_singleton (l : String) : items [l] = l.toList := by
  rw [items, String.toList_intercalate, List.map_singleton, List.intercalate_singleton]

theorem items_cons (l l' : String) (ls : List String) :
    items (l :: l' :: ls) = l.toList ++ ',' :: items (l' :: ls) := by
  rw [items, items, String.toList_intercalate, String.toList_intercalate,
    List.map_cons, List.map_cons, List.intercalate_cons_cons, List.append_assoc]
  rfl

section

variable {level : Level} {n : Nat} {a : Expr ColumnRef} {cs ds rest : List Char}
    {P Q : Expr ColumnRef → Prop}

/-- Where no operator stands, the left operand is all, unless a test follows. -/
theorem takes_operations (hknown : Takes (known level.operator?) cs (· = none) cs)
    (hlast : Takes (match level with | .equality => tests n a | _ => pure a) cs P ds) :
    Takes (operations (n + 1) level a) cs P ds := by
  rw [operations.eq_def]
  exact hknown.value hlast

/-- An expression of a level is an operand with operators behind it. -/
theorem takes_level (hlevel : level ≠ .operand) (hinner : Takes (expression n level.inner) cs P ds)
    (hops : ∀ a, P a → Takes (operations n level a) ds Q rest) :
    Takes (expression (n + 1) level) cs Q rest := by
  rw [expression.eq_def]
  cases level with
  | operand => exact absurd rfl hlevel
  | _ => exact hinner.bind hops

/-- No operator and no test stands where an item ends. -/
theorem takes_operations_end (hrest : EndsItem rest) (n : Nat) (level : Level)
    (a : Expr ColumnRef) :
    Takes (operations (n + 2) level a) rest (· = a) rest := by
  obtain ⟨c, cs, rfl, hc⟩ := hrest
  have hmark := marks_sign (.inr hc.symm) cs
  have hnone : ∀ t : Token, t.mark = (.sign, String.singleton c) → level.operator? t = none := by
    rintro ⟨k, x, offset, gap⟩ ht
    cases ht
    rcases hc with rfl | rfl <;> cases level <;> rfl
  have htests : Takes (tests (n + 1) a) (c :: cs) (· = a) (c :: cs) := by
    have hword (w : String) : Takes (passesWord w) (c :: cs) (· = false) (c :: cs) :=
      takes_passesWord_not hmark rfl
    rw [tests.eq_def]
    exact (hword _).value
      ((hword _).value ((hword _).value ((hword _).value ((hword _).value (takes_pure rfl)))))
  refine takes_operations (takes_known_not hmark hnone) ?_
  cases level with
  | equality => exact htests
  | _ => exact takes_pure rfl

/-- What is read on the inner level is all, where an item ends. -/
theorem takes_level_end (level : Level) (hlevel : level ≠ .operand) (hrest : EndsItem rest)
    (hinner : Takes (expression (n + 2) level.inner) cs P rest) :
    Takes (expression (n + 3) level) cs P rest :=
  takes_level hlevel hinner fun a ha =>
    (takes_operations_end hrest n level a).mono fun _ heq => heq ▸ ha

/-- An operand that is an item is the whole expression. -/
theorem takes_expression (hrest : EndsItem rest) (h : Takes (operand (n + 1)) cs P rest) :
    Takes (expression (n + 8) .disjunction) cs P rest := by
  have hoperand : Takes (expression (n + 2) Level.product.inner) cs P rest := by
    rw [Level.inner, expression]
    exact h
  have horder := takes_level_end .order nofun hrest
    (takes_level_end .sum nofun hrest (takes_level_end .product nofun hrest hoperand))
  exact takes_level_end .disjunction nofun hrest
    (takes_level_end .conjunction nofun hrest (takes_level_end .equality nofun hrest horder))

end

section

variable {ls : List String} {vs : List Stored}

/-- The items are read one after the other. -/
theorem takes_arguments (h : List.Forall₂ IsLiteral ls vs) (hne : ls ≠ [])
    (n : Nat) (cs : List Char) :
    Takes (arguments (n + 8 + ls.length)) (items ls ++ ')' :: cs)
      (· = vs.map .literal) (')' :: cs) := by
  induction h with
  | nil => exact absurd rfl hne
  | @cons l v ls vs hl hls ih =>
    have hclose : EndsItem (')' :: cs) := ⟨')', cs, rfl, .inr rfl⟩
    have hread {rest : List Char} (hrest : EndsItem rest) :
        Takes (expression (n + 8 + ls.length) .disjunction) (l.toList ++ rest)
          (· = .literal v) rest := by
      rw [Nat.add_right_comm]
      exact takes_expression hrest (hl.reads hrest _)
    rw [List.length_cons, ← Nat.add_assoc, arguments.eq_def]
    cases hls with
    | nil =>
      rw [items_singleton]
      exact (hread hclose).value
        ((takes_passesSign_not (marks_sign (.inr (.inl rfl)) cs) rfl).value (takes_pure rfl))
    | @cons l' v' ls vs hl' hls =>
      have hcomma : EndsItem (',' :: (items (l' :: ls) ++ ')' :: cs)) := ⟨',', _, rfl, .inl rfl⟩
      rw [items_cons, List.append_assoc, List.cons_append]
      exact (hread hcomma).value ((takes_passesSign (marks_sign (.inr (.inr rfl)) _) rfl).value
        ((ih nofun).value (takes_pure rfl)))

/-- Items have at least as many tokens, and do not start like the end of the list. -/
theorem marks_items (h : List.Forall₂ IsLiteral ls vs) (hne : ls ≠ []) (cs : List Char) :
    ∃ m ms, m ≠ (.sign, ")") ∧ marks (items ls ++ ')' :: cs) = m :: ms ∧ ls.length ≤ ms.length := by
  induction h with
  | nil => exact absurd rfl hne
  | @cons l v ls vs hl hls ih =>
    cases hls with
    | nil =>
      obtain ⟨m, ms, hm, hmarks⟩ := hl.starts ⟨')', cs, rfl, .inr rfl⟩
      refine ⟨m, ms ++ marks (')' :: cs), hm, ?_, ?_⟩
      · rw [items_singleton, hmarks]
      · rw [marks_sign (.inr (.inl rfl)), List.length_append,
          List.length_singleton, List.length_cons]
        omega
    | @cons l' v' ls vs hl' hls =>
      obtain ⟨m, ms, hm, hmarks⟩ := hl.starts ⟨',', items (l' :: ls) ++ ')' :: cs, rfl, .inl rfl⟩
      obtain ⟨m', ms', -, hmarks', hlength⟩ := ih nofun
      refine ⟨m, ms ++ (.sign, ",") :: m' :: ms', hm, ?_, ?_⟩
      · rw [items_cons, List.append_assoc, List.cons_append, hmarks,
          marks_sign (.inr (.inr rfl)), hmarks']
        rfl
      · simp only [List.length_append, List.length_cons] at hlength ⊢
        omega

/-- A list between parentheses is read as its items. -/
theorem takes_membership (h : List.Forall₂ IsLiteral ls vs) (n : Nat) (cs : List Char) :
    Takes (membership (n + 8 + ls.length + 1)) ('(' :: (items ls ++ ')' :: cs))
      (· = vs.map .literal) cs := by
  rw [membership.eq_def]
  refine (takes_sign (.inl rfl)).bind fun _ _ => ?_
  rcases eq_or_ne ls [] with rfl | hne
  · cases h
    exact (takes_passesSign (marks_sign (.inr (.inl rfl)) cs) rfl).value (takes_pure rfl)
  · obtain ⟨m, ms, hm, hmarks, -⟩ := marks_items h hne cs
    have hnot : isSignMark m ")" = false := by
      rw [isSignMark, Bool.and_eq_false_imp]
      intro hkind
      rw [decide_eq_true_eq] at hkind
      exact beq_eq_false_iff_ne.mpr fun htext => hm (Prod.ext hkind htext)
    refine (takes_passesSign_not hmarks hnot).value ((takes_arguments h hne n cs).value ?_)
    exact (takes_sign (.inr (.inl rfl))).bind fun _ _ => takes_pure rfl

end

/-! ### Columns -/

structure PlainName (s : String) : Prop where
  chars : ∃ c cs, s.toList = c :: cs ∧ StartsWord c ∧ ∀ a ∈ cs, isIdChar a = true
  free : String.ofList (s.toList.map Char.toUpper) ∉ Token.reservedWords

def IsColumn (s : String) (e : Expr ColumnRef) : Prop :=
  ∃ offset, e = .column ⟨none, s, false, offset⟩

section

variable {s : String} {cs rest : List Char} {ms : List (TokenKind × String)}

theorem PlainName.marks_append (h : PlainName s) (hrest : EndsWord rest) :
    marks (s.toList ++ rest) = (.word, s) :: marks rest := by
  obtain ⟨c, cs, hs, hc, hcs⟩ := h.chars
  rw [hs, List.cons_append, marks_word hc hcs hrest, ← hs, String.ofList_toList]

theorem PlainName.isWordMark_eq (h : PlainName s) {w : String} (hw : w ∈ Token.reservedWords) :
    isWordMark (.word, s) w = false := by
  refine Bool.eq_false_iff.mpr fun hword => h.free ?_
  have hupper : s.toList.map Char.toUpper = w.toList := by simpa [isWordMark] using hword
  rwa [hupper, String.ofList_toList]

/-- The token of a name is one that names a column. -/
theorem PlainName.isName (h : PlainName s) {t : Token} (ht : t.mark = (.word, s)) :
    t.isName = true := by
  obtain ⟨hkind, htext⟩ := Prod.mk.inj ht
  rw [Token.isName, hkind, htext]
  simpa using h.free

theorem PlainName.isColumn (h : PlainName s) {t : Token} (ht : t.mark = (.word, s)) :
    IsColumn s (.column ⟨none, t.content, t.text.startsWith "\"", t.offset⟩) := by
  obtain ⟨hkind, htext⟩ := Prod.mk.inj ht
  obtain ⟨c, cs, hs, ⟨hc, -⟩, -⟩ := h.chars
  have hcontent : t.content = s := by
    rw [Token.content, htext, hs]
    split
    next heq => exact absurd (List.cons.inj heq).1 (ne_of_isIdChar hc rfl)
    next heq => rw [if_neg (by simp [hkind])]
    next heq => cases heq
  have hquoted : t.text.startsWith "\"" = false := by
    rw [htext, String.startsWith_string_eq_false_iff, hs]
    rintro ⟨ds, hds⟩
    exact ne_of_isIdChar hc rfl (List.cons.inj hds).1.symm
  exact ⟨t.offset, by rw [hcontent, hquoted]⟩

/-- A name is read as the column, unless a parenthesis or a point follows. -/
theorem takes_column (h : PlainName s) (hrest : EndsWord rest) {m : TokenKind × String}
    (hmarks : marks rest = m :: ms) (hopen : isSignMark m "(" = false)
    (hpoint : isSignMark m "." = false) (n : Nat) :
    Takes (operand (n + 1)) (s.toList ++ rest) (IsColumn s) rest := by
  have hname := h.marks_append hrest
  have hword (w : String) (hw : w ∈ Token.reservedWords) :
      Takes (passesWord w) (s.toList ++ rest) (· = false) (s.toList ++ rest) :=
    takes_passesWord_not hname (h.isWordMark_eq hw)
  have hsign (x : String) :
      Takes (passesSign x) (s.toList ++ rest) (· = false) (s.toList ++ rest) :=
    takes_passesSign_not hname rfl
  rw [operand]
  refine (takes_known_not hname fun t ht => ?_).value ?_
  · rw [Token.literal?, (Prod.mk.inj ht).1]
  refine (hword _ (by decide)).value ((hword _ (by decide)).value ?_)
  refine (hsign _).value ((hsign _).value ((hsign _).value ?_))
  refine (takes_known_not hname fun t ht => if_neg (by simp [(Prod.mk.inj ht).1])).value ?_
  refine (takes_token hname fun t ht => h.isName ht).bind fun t ht => ?_
  exact (takes_passesSign_not hmarks hopen).value ((takes_passesSign_not hmarks hpoint).value
    (takes_pure (h.isColumn ht)))

end

/-! ### Tests -/

def testChars (s : String) (ls : List String) : List Char :=
  s.toList ++ (" IN (".toList ++ (items ls ++ [')']))

theorem testChars_append (s : String) (ls : List String) (rest : List Char) :
    testChars s ls ++ rest = s.toList ++ (" IN (".toList ++ (items ls ++ ')' :: rest)) := by
  simp only [testChars, List.append_assoc, List.singleton_append]

section

variable {s : String} {ls : List String} {vs : List Stored} {rest : List Char}

theorem endsWord_in (cs : List Char) : EndsWord (" IN (".toList ++ cs) := by
  rintro c ⟨⟩
  exact ⟨rfl, by decide⟩

theorem marks_in (cs : List Char) :
    marks (" IN (".toList ++ cs) = (.word, "IN") :: marks ('(' :: cs) := by
  have hblank : marks (" IN (".toList ++ cs) = marks ('I' :: (['N'] ++ ' ' :: '(' :: cs)) :=
    marks_blank rfl
  have hends : EndsWord (' ' :: '(' :: cs) := by rintro c ⟨⟩; exact ⟨rfl, by decide⟩
  rw [hblank, marks_word ⟨rfl, rfl, by decide⟩ (List.all_eq_true.mp rfl) hends, marks_blank rfl]

/-- A finished test is all, where an item ends. -/
theorem takes_behindTest (hrest : EndsItem rest) (n : Nat) (a : Expr ColumnRef) :
    Takes (behindTest (n + 3) a) rest (· = a) rest := by
  have hops := fun level => takes_operations_end hrest n level a
  rw [behindTest.eq_def]
  exact (hops _).value ((hops _).value ((hops _).value (hops _)))

/-- What stands behind the column makes a test of it. -/
theorem takes_tests (h : List.Forall₂ IsLiteral ls vs) (hrest : EndsItem rest) (n : Nat)
    (c : Expr ColumnRef) :
    Takes (tests (n + 10 + ls.length) c) (" IN (".toList ++ (items ls ++ ')' :: rest))
      (· = among c (vs.map .literal)) rest := by
  have hin := marks_in (items ls ++ ')' :: rest)
  rw [Nat.add_right_comm, tests.eq_def]
  refine (takes_passesWord_not hin rfl).value ((takes_passesWord_not hin rfl).value ?_)
  refine (takes_passesWord_not hin rfl).value ((takes_passesWord hin rfl).value ?_)
  have hlist := takes_membership h n rest
  have hbehind := takes_behindTest hrest (n + 6 + ls.length) (among c (vs.map .literal))
  rw [show n + 8 + ls.length + 1 = n + ls.length + 9 by omega] at hlist
  rw [show n + 6 + ls.length + 3 = n + ls.length + 9 by omega] at hbehind
  exact hlist.value hbehind

/-- The test is read as whether the column is among the literals, in their order. -/
theorem takes_test (hs : PlainName s) (h : List.Forall₂ IsLiteral ls vs)
    (hrest : EndsItem rest) (n : Nat) :
    Takes (expression (n + 14 + ls.length) .disjunction) (testChars s ls ++ rest)
      (fun e => ∃ c, IsColumn s c ∧ e = among c (vs.map .literal)) rest := by
  generalize hk : n + ls.length = k
  have hin := marks_in (items ls ++ ')' :: rest)
  have hends := endsWord_in (items ls ++ ')' :: rest)
  generalize hbehind : " IN (".toList ++ (items ls ++ ')' :: rest) = behind at hin hends
  have hcolumn : Takes (operand (k + 7)) (s.toList ++ behind) (IsColumn s) behind :=
    takes_column hs hends hin rfl rfl _
  have hnone (level : Level) : Takes (known level.operator?) behind (· = none) behind := by
    refine takes_known_not hin fun t ht => ?_
    obtain ⟨hkind, htext⟩ := Prod.mk.inj ht
    cases level <;> simp [Level.operator?, comparisonSign, Token.isWord, Token.isSign, hkind, htext]
  have hup {m : Nat} (level : Level) (hlevel : level ≠ .operand) (htest : level ≠ .equality)
      (hinner : Takes (expression (m + 2) level.inner) (s.toList ++ behind) (IsColumn s) behind) :
      Takes (expression (m + 3) level) (s.toList ++ behind) (IsColumn s) behind := by
    refine takes_level hlevel hinner fun c hc => takes_operations (hnone level) ?_
    cases level with
    | equality => exact absurd rfl htest
    | _ => exact takes_pure hc
  have horder : Takes (expression (k + 11) .order) (s.toList ++ behind) (IsColumn s) behind := by
    refine hup .order nofun nofun (hup .sum nofun nofun (hup .product nofun nofun ?_))
    rw [Level.inner, expression]
    exact hcolumn
  have hequality : Takes (expression (k + 12) .equality) (s.toList ++ behind)
      (fun e => ∃ c, IsColumn s c ∧ e = among c (vs.map .literal)) rest := by
    refine takes_level nofun horder fun c hc => takes_operations (hnone .equality) ?_
    have htests := takes_tests h hrest n c
    rw [hbehind, Nat.add_right_comm, hk] at htests
    exact htests.mono fun e he => ⟨c, hc, he⟩
  have htest :=
    takes_level_end .disjunction nofun hrest (takes_level_end .conjunction nofun hrest hequality)
  rw [testChars_append, hbehind, Nat.add_right_comm, hk]
  exact htest

/-- A test has more tokens than its list has items. -/
theorem length_marks_test (hs : PlainName s) (h : List.Forall₂ IsLiteral ls vs) (cs : List Char) :
    ls.length < (marks (testChars s ls ++ ')' :: cs)).length := by
  have hmarks : marks (testChars s ls ++ ')' :: cs) =
      (.word, s) :: (.word, "IN") :: (.sign, "(") :: marks (items ls ++ ')' :: ')' :: cs) := by
    rw [testChars_append, hs.marks_append (endsWord_in _), marks_in, marks_sign (.inl rfl)]
    rfl
  rw [hmarks]
  rcases eq_or_ne ls [] with rfl | hne
  · exact Nat.succ_pos _
  · obtain ⟨m, ms, -, hitems, hlength⟩ := marks_items h hne (')' :: cs)
    rw [hitems]
    simp only [List.length_cons]
    omega

theorem takes_expr (hs : PlainName s) (h : List.Forall₂ IsLiteral ls vs) (cs : List Char) :
    Takes expr (testChars s ls ++ ')' :: cs) (fun e => ∃ c, IsColumn s c ∧
      e = among c (vs.map .literal))
      (')' :: cs) := by
  have hlength := length_marks_test hs h cs
  intro ts hts
  have hbound : 10 * (ts.length + 1) = 10 * (ts.length + 1) - 14 - ls.length + 14 + ls.length := by
    rw [← hts, List.length_map] at hlength
    omega
  have htest := takes_test hs h ⟨')', cs, rfl, .inr rfl⟩ (10 * (ts.length + 1) - 14 - ls.length)
  rw [← hbound] at htest
  exact htest ts hts

theorem takes_spelled {α : Type} {r : TokenReader α} {cs ds : List Char} {P : α → Prop}
    (hr : Takes r cs P ds) :
    Takes (spelled r) cs (fun p => P p.1) ds := by
  intro ts hts
  obtain ⟨a, us, hread, ha, hus⟩ := hr ts hts
  refine ⟨(a, spelling (ts.take (ts.length - us.length))), us, ?_, ha, hus⟩
  change r ts >>= (fun p => .ok ((p.1, spelling (ts.take (ts.length - p.2.length))), p.2)) = _
  rw [hread]
  rfl

/-! ### Constraints -/

theorem takes_passesWords_not {w : String} {ws : List String} {cs : List Char}
    (h : Takes (passesWord w) cs (· = false) cs) : Takes (passesWords w ws) cs (· = false) cs :=
  h.value (takes_pure rfl)

/-- Where the text ends, no constraint is left. -/
theorem takes_columnConstraints_nil (n : Nat) (spec : ColumnSpec) :
    Takes (columnConstraints n spec) [] (· = spec) [] := by
  have hword (w : String) : Takes (passesWord w) [] (· = false) [] := by
    intro ts hts
    rw [marks_nil, List.map_eq_nil_iff] at hts
    subst hts
    exact ⟨false, [], rfl, rfl, marks_nil.symm⟩
  cases n with
  | zero => exact takes_pure rfl
  | succ n =>
    rw [columnConstraints]
    refine (takes_passesWords_not (hword _)).value ((takes_passesWords_not (hword _)).value ?_)
    refine (hword _).value ((hword _).value ((hword _).value ((hword _).value ?_)))
    exact (hword _).value ((hword _).value (takes_pure rfl))

def constraintChars (s : String) (ls : List String) : List Char :=
  "CHECK(".toList ++ testChars s ls ++ [')']

/-- The constraint adds the test to the conditions of the column. -/
theorem takes_columnConstraints (hs : PlainName s) (h : List.Forall₂ IsLiteral ls vs) (n : Nat)
    (spec : ColumnSpec) :
    Takes (columnConstraints (n + 1) spec) (constraintChars s ls)
      (fun c => ∃ text column, IsColumn s column ∧
        c = { spec with checks := spec.checks ++ [⟨text, among column (vs.map .literal)⟩] })
      [] := by
  have hmarks :
      marks (constraintChars s ls) = (.word, "CHECK") ::
        marks ('(' :: (testChars s ls ++ [')'])) := by
    have hends : EndsWord ('(' :: (testChars s ls ++ [')'])) := by
      rintro c ⟨⟩; exact ⟨rfl, by decide⟩
    exact @marks_word 'C' ['H', 'E', 'C', 'K'] _ ⟨rfl, rfl, by decide⟩
      (List.all_eq_true.mp rfl) hends
  have hword {w : String} (hw : isWordMark (.word, "CHECK") w = false) :
      Takes (passesWord w) (constraintChars s ls) (· = false) (constraintChars s ls) :=
        takes_passesWord_not hmarks hw
  rw [columnConstraints]
  refine (takes_passesWords_not (hword rfl)).value ((takes_passesWords_not (hword rfl)).value ?_)
  refine (hword rfl).value ((hword rfl).value ((takes_passesWord hmarks rfl).value ?_))
  refine (takes_sign (.inl rfl)).bind fun _ _ => (takes_spelled (takes_expr hs h [])).bind ?_
  rintro ⟨e, text⟩ ⟨column, hcolumn, rfl⟩
  refine (takes_sign (.inr (.inl rfl))).bind fun _ _ => (takes_columnConstraints_nil n _).mono ?_
  rintro c rfl
  exact ⟨text, column, hcolumn, rfl⟩

end

end TypedTables.Engine.TokenReader
