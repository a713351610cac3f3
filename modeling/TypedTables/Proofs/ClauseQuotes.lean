import Mathlib.Tactic.Tauto
import TypedTables.Engine.Token
import TypedTables.Statement.Clause

/-!
# Quotes in a clause, as they are scanned and as the engine reads them

The scan of a clause knows quotes but no comments. Beside each piece that the engine reads stands
the quote that the scan takes to be open there. Every piece but a comment closes the quotes that it
opens, unless the text ends before; so without comments that leave a quote open, the scan is outside
of quotes wherever a piece starts.
-/
namespace TypedTables.Clause

open Engine

def quoteAfter : Option Char → Char → Option Char
  | some q, c => if c = q then none else some q
  | none, c => closing? c

def openAfter (open? : Option Char) (cs : List Char) : Option Char := cs.foldl quoteAfter open?

/-- Pieces, each with the quote that is open where it starts. -/
def withOpen : Option Char → List Piece → List (Option Char × Piece)
  | _, [] => []
  | open?, p :: ps => (open?, p) :: withOpen (openAfter open? p.chars) ps

def isComment (p : Piece) : Bool := p.kind == .blank && (p.chars.head?.any fun c => !isSpace c)

@[simp] theorem openAfter_nil (open? : Option Char) : openAfter open? [] = open? := rfl

@[simp] theorem openAfter_cons (open? : Option Char) (c : Char) (cs : List Char) :
    openAfter open? (c :: cs) = openAfter (quoteAfter open? c) cs := rfl

theorem openAfter_append (open? : Option Char) (as bs : List Char) :
    openAfter open? (as ++ bs) = openAfter (openAfter open? as) bs := List.foldl_append

/-- Blanking quoted text goes on behind a part as if the part had opened its quote itself. -/
theorem unquoted_append (open? : Option Char) (as bs : List Char) :
    unquoted open? (as ++ bs) = unquoted open? as ++ unquoted (openAfter open? as) bs := by
  induction as generalizing open? with
  | nil => simp [unquoted]
  | cons c as ih =>
    cases open? with
    | some q => simp only [List.cons_append, unquoted, ih, openAfter_cons, quoteAfter]
    | none =>
      simp only [List.cons_append, unquoted, openAfter_cons, quoteAfter]
      cases hc : closing? c with
      | some q => simp only [List.cons_append, ih]
      | none => simp only [List.cons_append, ih]

/-- Characters none of which opens a quote. -/
def Quiet (cs : List Char) : Prop := ∀ c ∈ cs, closing? c = none

theorem Quiet.cons {c : Char} {cs : List Char} (hc : closing? c = none) (h : Quiet cs) :
    Quiet (c :: cs) := by
  intro d hd
  rcases List.mem_cons.mp hd with rfl | hd
  · exact hc
  · exact h d hd

theorem Quiet.openAfter {cs : List Char} (h : Quiet cs) : openAfter none cs = none := by
  induction cs with
  | nil => rfl
  | cons c cs ih =>
    rw [openAfter_cons, quoteAfter, h c (by simp)]
    exact ih fun d hd => h d (List.mem_cons_of_mem _ hd)

/-- A quote stays open up to its closing character. -/
theorem openAfter_of_ne {q : Char} {cs : List Char} (h : ∀ c ∈ cs, c ≠ q) :
    openAfter (some q) cs = some q := by
  induction cs with
  | nil => rfl
  | cons c cs ih =>
    rw [openAfter_cons, quoteAfter, if_neg (h c (by simp))]
    exact ih fun d hd => h d (List.mem_cons_of_mem _ hd)

/-- A text up to its closing quote closes the quote; a doubled quote opens it again. -/
theorem openAfter_quotedLength {q : Char} (hq : closing? q = some q) {cs : List Char} {n : Nat}
    (h : quotedLength q cs = some n) : openAfter (some q) (cs.take n) = none := by
  fun_induction quotedLength q cs generalizing n with
  | case1 => simp at h
  | case2 ds ih =>
    obtain ⟨m, hm, rfl⟩ := Option.map_eq_some_iff.mp h
    simpa [List.take_succ_cons, quoteAfter, hq] using ih hm
  | case3 d ds hd =>
    cases h
    simp [quoteAfter]
  | case4 =>
    cases h
    simp [quoteAfter]
  | case5 c cs hc ih =>
    obtain ⟨m, hm, rfl⟩ := Option.map_eq_some_iff.mp h
    simpa [List.take_succ_cons, quoteAfter, hc] using ih hm

/-- Characters in place of which the scan puts blanks. -/
def Blanked (open? : Option Char) (cs : List Char) : Prop := ∀ c ∈ unquoted open? cs, c = ' '

theorem blanked_nil (open? : Option Char) : Blanked open? [] := by
  intro c hc
  cases open? <;> cases hc

theorem blanked_cons {q c : Char} {cs : List Char}
    (h : Blanked (if c = q then none else some q) cs) :
    Blanked (some q) (c :: cs) := List.forall_mem_cons.mpr ⟨rfl, h⟩

theorem blanked_opener {c q : Char} {cs : List Char} (hc : closing? c = some q)
    (h : Blanked (some q) cs) :
    Blanked none (c :: cs) := by
  rw [Blanked, unquoted, hc]
  exact List.forall_mem_cons.mpr ⟨rfl, h⟩

theorem blanked_of_ne {q : Char} {cs : List Char} (h : ∀ c ∈ cs, c ≠ q) : Blanked (some q) cs := by
  induction cs with
  | nil => exact blanked_nil _
  | cons c cs ih =>
    refine blanked_cons ?_
    rw [if_neg (h c List.mem_cons_self)]
    exact ih fun d hd => h d (List.mem_cons_of_mem c hd)

/-- What is quoted is blanked, whether the quote is closed or not. -/
theorem blanked_quotedLength {q : Char} (hq : closing? q = some q) (cs : List Char) :
    Blanked (some q) (cs.take ((quotedLength q cs).getD cs.length)) := by
  fun_induction quotedLength q cs with
  | case1 => exact blanked_nil _
  | case2 ds ih =>
    have hlength : ((quotedLength q ds).map (· + 2)).getD (q :: q :: ds).length =
        (quotedLength q ds).getD ds.length + 2 := Option.getD_map _ _ _
    rw [hlength]
    refine blanked_cons ?_
    rw [if_pos rfl]
    exact blanked_opener hq ih
  | case3 d ds hd =>
    refine blanked_cons ?_
    rw [if_pos rfl]
    exact blanked_nil _
  | case4 =>
    refine blanked_cons ?_
    rw [if_pos rfl]
    exact blanked_nil _
  | case5 c cs hc ih =>
    have hlength : ((quotedLength q cs).map (· + 1)).getD (c :: cs).length =
        (quotedLength q cs).getD cs.length + 1 := Option.getD_map _ _ _
    rw [hlength]
    refine blanked_cons ?_
    rw [if_neg hc]
    exact ih

/-- Characters up to a closing one, without another one among them. -/
theorem closed_append {q : Char} {cs : List Char} (h : ∀ c ∈ cs, c ≠ q) :
    openAfter (some q) (cs ++ [q]) = none ∧ Blanked (some q) (cs ++ [q]) := by
  have hopen := openAfter_of_ne h
  constructor
  · rw [openAfter_append, hopen, openAfter_cons, quoteAfter, if_pos rfl, openAfter_nil]
  · rw [Blanked, unquoted_append, hopen]
    refine List.forall_mem_append.mpr ⟨blanked_of_ne h, blanked_cons ?_⟩
    rw [if_pos rfl]
    exact blanked_nil _

def openers : List Char := ['\'', '"', '\x60', '[']

theorem closing_eq_none_iff {c : Char} : closing? c = none ↔ c ∉ openers := by
  simp only [closing?, openers]
  split
  next h => simp at h; simp; tauto
  next h =>
    split
    next hb => simp [hb]
    next hb => simp at h; simp [h, hb]

/-- A class of characters without openers leaves no quote open. -/
theorem closing_of_class {p : Char → Bool} (hp : openers.all (!p ·) = true) {c : Char}
    (h : p c = true) : closing? c = none := by
  rw [closing_eq_none_iff]
  intro hm
  have := List.all_eq_true.mp hp c hm
  simp [h] at this

theorem closing_of_isIdChar {c : Char} (h : isIdChar c = true) : closing? c = none :=
  closing_of_class (by decide) h

/-! ### Numbers -/

/-- The characters of numbers, and of the names that must not follow them. -/
def isNumeralChar (c : Char) : Bool := isIdChar c || c == '.' || c == '+' || c == '-'

theorem isNumeralChar_of_isIdChar {c : Char} (h : isIdChar c = true) : isNumeralChar c = true := by
  simp [isNumeralChar, h]

theorem isIdChar_of_isDigit {c : Char} (h : c.isDigit = true) : isIdChar c = true := by
  simp [isIdChar, Char.isAlphanum, h]

theorem all_takeWhile_of {p q : Char → Bool} (hpq : ∀ c, p c = true → q c = true) (cs : List Char) :
    (cs.takeWhile p).all q = true :=
  List.all_eq_true.mpr fun c hc => hpq c (List.all_eq_true.mp List.all_takeWhile c hc)

theorem numeral_digits (cs : List Char) : (cs.takeWhile Char.isDigit).all isNumeralChar = true :=
  all_takeWhile_of (fun _ h => isNumeralChar_of_isIdChar (isIdChar_of_isDigit h)) cs

theorem takeWhile_append_drop (p : Char → Bool) (cs : List Char) :
    cs.takeWhile p ++ cs.drop (cs.takeWhile p).length = cs :=
  (List.prefix_iff_eq_append.mp (List.takeWhile_prefix p))

theorem numeral_exponentAt {cs rest : List Char} {e : Int} (h : exponentAt cs = some (e, rest)) :
    ∃ pre, cs = pre ++ rest ∧ pre.all isNumeralChar = true := by
  unfold exponentAt at h
  split at h
  next e cs =>
    split at h
    next he =>
      have hletter : isNumeralChar e = true := by
        rw [Bool.or_eq_true, beq_iff_eq, beq_iff_eq] at he
        rcases he with rfl | rfl <;> decide
      split at h
      next neg ds hsign =>
        have hs : ∃ sign, cs = sign ++ ds ∧ sign.all isNumeralChar = true := by
          split at hsign
          next cs' =>
            cases hsign
            exact ⟨['-'], rfl, by decide⟩
          next cs' =>
            cases hsign
            exact ⟨['+'], rfl, by decide⟩
          next =>
            cases hsign
            exact ⟨[], rfl, rfl⟩
        obtain ⟨sign, rfl, hsq⟩ := hs
        simp only at h
        split at h
        · simp at h
        · cases h
          refine ⟨e :: (sign ++ ds.takeWhile Char.isDigit), ?_, ?_⟩
          · simp [takeWhile_append_drop]
          · rw [List.all_cons, List.all_append, hletter, hsq, numeral_digits]
            rfl
    · simp at h
  · simp at h

/-- A number is digits, with a point among them perhaps, and an exponent. -/
theorem unsignedAt_split {neg : Bool} {cs rest : List Char} {v : Stored}
    (h : unsignedAt neg cs = some (v, rest)) :
    ∃ pre mid, cs = pre ++ mid ∧ pre.all isNumeralChar = true ∧
      (rest = mid ∨ ∃ e, exponentAt mid = some (e, rest)) := by
  have hcs := takeWhile_append_drop Char.isDigit cs
  unfold unsignedAt at h
  simp only at h
  split at h
  next more hafter =>
    have hpoint : isNumeralChar '.' = true := by decide
    refine ⟨cs.takeWhile Char.isDigit ++ ('.' :: more.takeWhile Char.isDigit),
      more.drop (more.takeWhile Char.isDigit).length, ?_, ?_, ?_⟩
    · rw [List.append_assoc, List.cons_append, takeWhile_append_drop, ← hafter, hcs]
    · rw [List.all_append, List.all_cons, numeral_digits, hpoint, numeral_digits]
      rfl
    · split at h
      · cases h
      split at h
      next he =>
        cases h
        exact .inr ⟨_, he⟩
      next =>
        cases h
        exact .inl rfl
  next =>
    refine ⟨cs.takeWhile Char.isDigit, _, hcs.symm, numeral_digits cs, ?_⟩
    split at h
    · cases h
    split at h
    next he =>
      cases h
      exact .inr ⟨_, he⟩
    next =>
      cases h
      exact .inl rfl

theorem numeral_unsignedAt {neg : Bool} {cs rest : List Char} {v : Stored}
    (h : unsignedAt neg cs = some (v, rest)) :
    ∃ pre, cs = pre ++ rest ∧ pre.all isNumeralChar = true := by
  obtain ⟨pre, mid, rfl, hpre, rfl | ⟨e, he⟩⟩ := unsignedAt_split h
  · exact ⟨pre, rfl, hpre⟩
  · obtain ⟨more, rfl, hmore⟩ := numeral_exponentAt he
    exact ⟨pre ++ more, by rw [List.append_assoc], by rw [List.all_append, hpre, hmore]; rfl⟩

theorem take_spanLength (p : Char → Bool) (cs : List Char) :
    cs.take (spanLength p cs) = cs.takeWhile p := by
  rw [spanLength]
  exact (List.prefix_iff_eq_take.mp (List.takeWhile_prefix p)).symm

/-- A number, with the name that must not follow it. -/
theorem numeral_numberPiece {c : Char} (hc : isNumeralChar c = true) (cs : List Char) :
    ((c :: cs).take (numberPiece (c :: cs)).2).all isNumeralChar = true := by
  rw [numberPiece]
  split
  · rw [List.take_succ_cons, List.take_zero, List.all_cons, hc]
    rfl
  next v rest h =>
    obtain ⟨pre, heq, hpre⟩ := numeral_unsignedAt h
    have hlen : (c :: cs).length - rest.length = pre.length := by
      rw [heq, List.length_append]
      omega
    simp only [hlen]
    rw [heq, List.take_length_add_append, take_spanLength, List.all_append, hpre,
      all_takeWhile_of fun _ => isNumeralChar_of_isIdChar]
    rfl

/-! ### Pieces -/

/-- What the scan makes of a piece: behind it the scan is outside of quotes, unless the text ends
there, and it sees no colon in the piece but at its start. -/
structure Scanned (c : Char) (cs : List Char) (n : Nat) : Prop where
  closed : openAfter none (c :: cs.take n) = none ∨ cs.drop n = []
  colonless : c ≠ ':' → ':' ∉ unquoted none (c :: cs.take n)

theorem mem_unquoted {d : Char} {open? : Option Char} {cs : List Char} (h : d ∈ unquoted open? cs) :
    d = ' ' ∨ d ∈ cs := by
  induction cs generalizing open? with
  | nil => cases open? <;> cases h
  | cons c cs ih =>
    have hcons : d = ' ' ∨ d = c ∨ ∃ o, d ∈ unquoted o cs := by
      cases open? with
      | some q =>
        rcases List.mem_cons.mp h with hd | hd
        · exact .inl hd
        · exact .inr (.inr ⟨_, hd⟩)
      | none =>
        rw [unquoted] at h
        split at h
        · rcases List.mem_cons.mp h with hd | hd
          · exact .inl hd
          · exact .inr (.inr ⟨_, hd⟩)
        · exact .inr ((List.mem_cons.mp h).imp_right fun hd => ⟨_, hd⟩)
    rcases hcons with hd | rfl | ⟨o, hd⟩
    · exact .inl hd
    · exact .inr List.mem_cons_self
    · exact (ih hd).imp_right (List.mem_cons_of_mem c)

theorem colonless_of_blanked {cs : List Char} {open? : Option Char} (h : Blanked open? cs) :
    ':' ∉ unquoted open? cs := fun hm => absurd (h _ hm) (by decide)

/-- Characters of a class without quotes and colons, behind a character that opens no quote. -/
theorem scanned_of_all {p : Char → Bool} (hp : (':' :: openers).all (!p ·) = true) {c : Char}
    (hc : closing? c = none) {cs : List Char} {n : Nat} (h : (cs.take n).all p = true) :
    Scanned c cs n := by
  rw [List.all_cons, Bool.and_eq_true] at hp
  have hquiet : Quiet (c :: cs.take n) :=
    .cons hc fun d hd => closing_of_class hp.2 (List.all_eq_true.mp h d hd)
  refine ⟨.inl hquiet.openAfter, fun hcolon hm => ?_⟩
  rcases mem_unquoted hm with hspace | hm
  · exact absurd hspace (by decide)
  rcases List.mem_cons.mp hm with rfl | hm
  · exact hcolon rfl
  · have hin := List.all_eq_true.mp h _ hm
    rw [hin] at hp
    cases hp.1

/-- Characters of the longest span of such a class. -/
theorem scanned_span {p : Char → Bool} (hp : (':' :: openers).all (!p ·) = true) {c : Char}
    (hc : closing? c = none) (cs : List Char) : Scanned c cs (spanLength p cs) :=
  scanned_of_all hp hc (by rw [take_spanLength]; exact List.all_takeWhile)

/-- A quote that is closed or goes on to the end of the text. -/
theorem scanned_quoted {c q : Char} (hc : closing? c = some q) {cs : List Char} {n : Nat}
    (hclosed : openAfter (some q) (cs.take n) = none ∨ cs.drop n = [])
    (hblanked : Blanked (some q) (cs.take n)) :
    Scanned c cs n := by
  refine ⟨hclosed.imp_left fun h => ?_, fun _ => colonless_of_blanked (blanked_opener hc hblanked)⟩
  rw [openAfter_cons, quoteAfter, hc, h]

/-- A quote behind a character that opens none. -/
theorem scanned_blob {c : Char} (hc : closing? c = none) {cs : List Char} {n : Nat}
    (h : Scanned '\'' cs n) : Scanned c ('\'' :: cs) (n + 1) := by
  refine ⟨?_, fun hcolon hm => ?_⟩
  · rw [List.take_succ_cons, List.drop_succ_cons, openAfter_cons, quoteAfter, hc]
    exact h.closed
  · rw [List.take_succ_cons, unquoted, hc] at hm
    rcases List.mem_cons.mp hm with heq | hm
    · exact hcolon heq.symm
    · exact h.colonless (by decide) hm

/-- A quote with doubled quotes in it. -/
theorem scanned_quotedLength {q : Char} (hq : closing? q = some q) (cs : List Char) :
    Scanned q cs ((quotedLength q cs).getD cs.length) := by
  refine scanned_quoted hq ?_ (blanked_quotedLength hq cs)
  cases hm : quotedLength q cs with
  | some m => exact .inl (openAfter_quotedLength hq hm)
  | none => exact .inr List.drop_length

/-- The character behind a span is not of its class. -/
theorem take_spanLength_succ {p : Char → Bool} {cs : List Char} (h : spanLength p cs < cs.length) :
    ∃ c, p c = false ∧ cs.take (spanLength p cs + 1) = cs.takeWhile p ++ [c] := by
  have hsplit := List.takeWhile_append_dropWhile (p := p) (l := cs)
  cases hd : cs.dropWhile p with
  | nil =>
    rw [hd, List.append_nil] at hsplit
    rw [spanLength, hsplit] at h
    omega
  | cons c rest =>
    refine ⟨c, ?_, ?_⟩
    · have := List.head?_dropWhile_not p cs
      rwa [hd] at this
    · rw [hd] at hsplit
      calc cs.take (spanLength p cs + 1)
          = (cs.takeWhile p ++ c :: rest).take ((cs.takeWhile p).length + 1) := by
            rw [hsplit, spanLength]
        _ = cs.takeWhile p ++ [c] := by
          rw [List.take_length_add_append]
          rfl

theorem ne_of_mem_takeWhile {q : Char} {cs : List Char} : ∀ c ∈ cs.takeWhile (· ≠ q), c ≠ q := by
  intro c hc
  simpa using List.all_eq_true.mp List.all_takeWhile c hc

/-- A quote goes up to the first of its closing characters behind it, or to the end of the text. -/
theorem scanned_upTo {c q : Char} (hc : closing? c = some q) (cs : List Char) :
    Scanned c cs (min cs.length (spanLength (· ≠ q) cs + 1)) := by
  by_cases h : spanLength (· ≠ q) cs < cs.length
  · rw [Nat.min_eq_right h]
    obtain ⟨d, hd, htake⟩ := take_spanLength_succ h
    have hdq : d = q := by simpa using hd
    have hother : ∀ c ∈ cs.takeWhile (· ≠ q), c ≠ q := ne_of_mem_takeWhile
    obtain ⟨hclosed, hblanked⟩ := closed_append hother
    refine scanned_quoted hc (.inl ?_) ?_
    · rw [htake, hdq, hclosed]
    · rw [htake, hdq]
      exact hblanked
  · have hlength : spanLength (· ≠ q) cs = cs.length :=
      Nat.le_antisymm (List.takeWhile_prefix _).length_le (Nat.le_of_not_lt h)
    rw [hlength, Nat.min_eq_left (Nat.le_succ _)]
    refine scanned_quoted hc (.inr List.drop_length) ?_
    rw [← hlength, take_spanLength]
    exact blanked_of_ne ne_of_mem_takeWhile

/-- The digits of a blob go up to its closing quote. -/
theorem scanned_digits {ds : List Char}
    (h : ds[spanLength (fun d => (Json.hexValue? d).isSome) ds]? = some '\'') :
    Scanned '\'' ds (spanLength (fun d => (Json.hexValue? d).isSome) ds + 1) := by
  have hhex : ∀ d ∈ ds.takeWhile (fun d => (Json.hexValue? d).isSome), d ≠ '\'' := by
    rintro d hd rfl
    have := List.all_eq_true.mp List.all_takeWhile _ hd
    revert this
    decide
  obtain ⟨hclosed, hblanked⟩ := closed_append hhex
  have htake : ds.take (spanLength (fun d => (Json.hexValue? d).isSome) ds + 1) =
      ds.takeWhile (fun d => (Json.hexValue? d).isSome) ++ ['\''] := by
    rw [List.take_add_one, h, take_spanLength]
    rfl
  refine scanned_quoted rfl (.inl ?_) ?_
  · rw [htake, hclosed]
  · rw [htake]
    exact hblanked

theorem numberPiece_kind (cs : List Char) :
    (numberPiece cs).1 = .number ∨ (numberPiece cs).1 = .illegal := by
  rw [numberPiece]
  split
  · exact .inr rfl
  · dsimp only
    split
    · exact .inl rfl
    · exact .inr rfl

/-- A bracket goes up to the closing one, or to the end of the text. -/
theorem scanned_bracket (cs : List Char) :
    Scanned '[' cs (if spanLength (· ≠ ']') cs < cs.length then spanLength (· ≠ ']') cs + 1
      else spanLength (· ≠ ']') cs) := by
  have hscanned := scanned_upTo (c := '[') rfl cs
  split
  next hlt => rwa [Nat.min_eq_right hlt] at hscanned
  next hge =>
    have hlength : spanLength (· ≠ ']') cs = cs.length :=
      Nat.le_antisymm (List.takeWhile_prefix _).length_le (Nat.le_of_not_lt hge)
    rw [hlength] at hscanned ⊢
    rwa [Nat.min_eq_left (Nat.le_succ _)] at hscanned

/-- What begins like a blob and is none goes up to the next quote. -/
theorem scanned_faultyBlob {c : Char} (hc : closing? c = none) (ds : List Char) :
    Scanned c ('\'' :: ds) (min ('\'' :: ds).length (spanLength (· ≠ '\'') ds + 2)) := by
  have hmin : min ('\'' :: ds).length (spanLength (· ≠ '\'') ds + 2) =
      min ds.length (spanLength (· ≠ '\'') ds + 1) + 1 := by
    rw [List.length_cons]
    omega
  rw [hmin]
  exact scanned_blob hc (scanned_upTo rfl ds)

/-- A number has nothing but characters of numbers. -/
theorem scanned_number {c : Char} (hc : isNumeralChar c = true) (hquiet : closing? c = none)
    (cs : List Char) :
    (numberPiece (c :: cs)).1 ≠ .blank ∧ Scanned c cs ((numberPiece (c :: cs)).2 - 1) := by
  have hall := numeral_numberPiece hc cs
  constructor
  · rcases numberPiece_kind (c :: cs) with hkind | hkind <;> rw [hkind] <;> nofun
  · refine scanned_of_all (p := isNumeralChar) (by decide) hquiet ?_
    cases hlength : (numberPiece (c :: cs)).2 with
    | zero => rfl
    | succ length =>
      rw [hlength, List.take_succ_cons, List.all_cons, Bool.and_eq_true] at hall
      exact hall.2

/-- The characters that may stand behind a sign, in the same piece. -/
def isComparisonChar (c : Char) : Bool := c == '=' || c == '<' || c == '>' || c == '|'

/-- A piece is a comment, or it closes the quotes that it opens, if the text goes on, and the scan
sees no colon in it but at its start. -/
theorem piece_cases {c : Char} {cs : List Char} {kind : TokenKind} {n : Nat}
    (h : pieceAfter c cs = (kind, n)) :
    (c = '-' ∨ c = '/') ∧ kind = .blank ∨ (kind = .blank → isSpace c = true) ∧ Scanned c cs n := by
  unfold pieceAfter at h
  rw [ite_eq_iff] at h
  rcases h with ⟨hspace, h⟩ | ⟨hspace, h⟩
  · cases h
    have hc : closing? c = none := closing_of_class (p := isSpace) (by decide) hspace
    exact .inr ⟨fun _ => hspace, scanned_span (by decide) hc cs⟩
  rw [ite_eq_iff] at h
  rcases h with ⟨rfl, h⟩ | ⟨htext, h⟩
  · have hscanned := scanned_quotedLength (q := '\'') rfl cs
    cases hm : quotedLength '\'' cs <;> rw [hm] at h hscanned <;> cases h
    · exact .inr ⟨nofun, hscanned⟩
    · exact .inr ⟨nofun, hscanned⟩
  rw [ite_eq_iff] at h
  rcases h with ⟨hname, h⟩ | ⟨hname, h⟩
  · have hc : closing? c = some c := by
      rw [Bool.or_eq_true, decide_eq_true_eq, decide_eq_true_eq] at hname
      rcases hname with rfl | rfl <;> rfl
    have hscanned := scanned_quotedLength hc cs
    cases hm : quotedLength c cs <;> rw [hm] at h hscanned <;> cases h
    · exact .inr ⟨nofun, hscanned⟩
    · exact .inr ⟨nofun, hscanned⟩
  rw [ite_eq_iff] at h
  rcases h with ⟨rfl, h⟩ | ⟨hbracket, h⟩
  · have hscanned := scanned_bracket cs
    dsimp only at h
    split at h
    next hclosed =>
      cases h
      rw [if_pos hclosed] at hscanned
      exact .inr ⟨nofun, hscanned⟩
    next hopen =>
      cases h
      rw [if_neg hopen] at hscanned
      exact .inr ⟨nofun, hscanned⟩
  rw [ite_eq_iff] at h
  rcases h with ⟨hblob, h⟩ | ⟨hblob, h⟩
  · simp only [Bool.and_eq_true, Bool.or_eq_true, decide_eq_true_eq, beq_iff_eq] at hblob
    have hc : closing? c = none := by rcases hblob.1 with rfl | rfl <;> rfl
    obtain ⟨ds, rfl⟩ : ∃ ds, cs = '\'' :: ds := by
      cases cs with
      | nil => simp at hblob
      | cons d ds => exact ⟨ds, by rw [Option.some.inj hblob.2]⟩
    dsimp only at h
    rw [List.drop_succ_cons, List.drop_zero, List.getElem?_cons_succ] at h
    rw [ite_eq_iff] at h
    rcases h with ⟨hdigits, h⟩ | ⟨hdigits, h⟩
    · cases h
      rw [Bool.and_eq_true, beq_iff_eq] at hdigits
      exact .inr ⟨nofun, scanned_blob hc (scanned_digits hdigits.2)⟩
    · cases h
      exact .inr ⟨nofun, scanned_faultyBlob hc ds⟩
  have hquiet : closing? c = none := by
    rw [closing_eq_none_iff]
    simp only [Bool.or_eq_true, decide_eq_true_eq, not_or] at hname
    simp [openers, htext, hname, hbracket]
  rw [ite_eq_iff] at h
  rcases h with ⟨hnumber, h⟩ | ⟨hnumber, h⟩
  · have hc : isNumeralChar c = true := by
      simp only [Bool.or_eq_true, Bool.and_eq_true, decide_eq_true_eq] at hnumber
      rcases hnumber with hdigit | ⟨rfl, -⟩
      · exact isNumeralChar_of_isIdChar (isIdChar_of_isDigit hdigit)
      · decide
    obtain ⟨hkind, hscanned⟩ := scanned_number hc hquiet cs
    cases h
    exact .inr ⟨fun hblank => absurd hblank hkind, hscanned⟩
  rw [ite_eq_iff] at h
  rcases h with ⟨hword, h⟩ | ⟨hword, h⟩
  · cases h
    exact .inr ⟨nofun, scanned_span (by decide) hquiet cs⟩
  rw [ite_eq_iff] at h
  rcases h with ⟨hquestion, h⟩ | ⟨hquestion, h⟩
  · cases h
    exact .inr ⟨nofun, scanned_span (by decide) hquiet cs⟩
  rw [ite_eq_iff] at h
  rcases h with ⟨hvariable, h⟩ | ⟨hvariable, h⟩
  · cases h
    refine .inr ⟨fun hkind => ?_, scanned_span (by decide) hquiet cs⟩
    split at hkind <;> cases hkind
  split at h <;> cases h
  case h_14 =>
    refine .inr ⟨fun hkind => ?_, scanned_of_all (p := isNumeralChar) (by decide) hquiet rfl⟩
    split at hkind <;> cases hkind
  all_goals first
    | exact .inl ⟨.inl rfl, rfl⟩
    | exact .inl ⟨.inr rfl, rfl⟩
    | exact .inr ⟨nofun, scanned_of_all (p := isComparisonChar) (by decide) rfl rfl⟩

theorem isComment_iff {c : Char} {cs : List Char} {kind : TokenKind} :
    isComment ⟨kind, c :: cs⟩ = true ↔ kind = .blank ∧ isSpace c = false := by
  simp [isComment]

/-- Every piece closes the quotes that it opens, but for comments and what the end of the text cuts
off. -/
theorem openAfter_piece {c : Char} {cs : List Char} {kind : TokenKind} {n : Nat}
    (h : pieceAfter c cs = (kind, n)) :
    openAfter none (c :: cs.take n) = none ∨ cs.drop n = [] ∨
      isComment ⟨kind, c :: cs.take n⟩ = true := by
  rcases piece_cases h with ⟨hc, hkind⟩ | ⟨-, hscanned⟩
  · refine .inr (.inr (isComment_iff.mpr ⟨hkind, ?_⟩))
    rcases hc with rfl | rfl <;> rfl
  · exact hscanned.closed.imp_right .inl

/-- A piece begins behind the pieces in front of it, at a character that says how long it is. -/
theorem mem_withOpen_pieces {cs : List Char} {open? : Option Char} {x : Option Char × Piece}
    (hx : x ∈ withOpen open? (pieces cs)) :
    ∃ pre c rest kind n, cs = pre ++ c :: rest ∧ pieceAfter c rest = (kind, n) ∧
      x = (openAfter open? pre, ⟨kind, c :: rest.take n⟩) := by
  fun_induction pieces cs generalizing open? with
  | case1 => simp [withOpen] at hx
  | case2 c cs kind n h ih =>
    rw [withOpen] at hx
    rcases List.mem_cons.mp hx with rfl | hx
    · exact ⟨[], c, cs, kind, n, rfl, h, rfl⟩
    · obtain ⟨pre, d, rest, kind', n', heq, hpiece, rfl⟩ := ih hx
      refine ⟨c :: cs.take n ++ pre, d, rest, kind', n', ?_, hpiece, ?_⟩
      · rw [List.append_assoc, ← heq, List.cons_append, List.take_append_drop]
      · rw [openAfter_append]

/-- If every comment closes the quotes that it opens, no quote is open where a piece starts. -/
theorem withOpen_none_of_comments {cs : List Char}
    (h : ∀ p ∈ pieces cs, isComment p = true → openAfter none p.chars = none) :
    ∀ x ∈ withOpen none (pieces cs), x.1 = none := by
  fun_induction pieces cs with
  | case1 => simp [withOpen]
  | case2 c cs kind n hpiece ih =>
    intro x hx
    rw [withOpen] at hx
    rcases List.mem_cons.mp hx with rfl | hx
    · rfl
    · have hrest := ih fun p hp => h p (List.mem_cons_of_mem _ hp)
      have hclosed : openAfter none (c :: cs.take n) = none ∨ cs.drop n = [] := by
        rcases openAfter_piece hpiece with ho | hd | hc
        · exact .inl ho
        · exact .inr hd
        · exact .inl (h _ (by simp) hc)
      rcases hclosed with ho | hd
      · rw [ho] at hx
        exact hrest x hx
      · rw [hd, pieces] at hx
        simp [withOpen] at hx

theorem numberPiece_ne_placeholder (cs : List Char) : (numberPiece cs).1 ≠ .placeholder := by
  rcases numberPiece_kind cs with h | h <;> simp [h]

/-- A bind variable: a question mark with a number perhaps, or a sign with a name. -/
theorem pieceAfter_placeholder {c : Char} {cs : List Char} {n : Nat}
    (h : pieceAfter c cs = (.placeholder, n)) :
    c = '?' ∨ (c = ':' ∨ c = '@' ∨ c = '$' ∨ c = '#') ∧ cs.take n = cs.takeWhile isIdChar ∧
      cs.takeWhile isIdChar ≠ [] := by
  unfold pieceAfter at h
  rw [ite_eq_iff] at h
  rcases h with ⟨-, h⟩ | ⟨-, h⟩
  · cases h
  rw [ite_eq_iff] at h
  rcases h with ⟨-, h⟩ | ⟨-, h⟩
  · cases hm : quotedLength c cs <;> rw [hm] at h <;> cases h
  rw [ite_eq_iff] at h
  rcases h with ⟨-, h⟩ | ⟨-, h⟩
  · cases hm : quotedLength c cs <;> rw [hm] at h <;> cases h
  rw [ite_eq_iff] at h
  rcases h with ⟨-, h⟩ | ⟨-, h⟩
  · rcases ite_eq_iff.mp h with ⟨-, hkind⟩ | ⟨-, hkind⟩ <;> cases hkind
  rw [ite_eq_iff] at h
  rcases h with ⟨-, h⟩ | ⟨-, h⟩
  · rcases ite_eq_iff.mp h with ⟨-, hkind⟩ | ⟨-, hkind⟩ <;> cases hkind
  rw [ite_eq_iff] at h
  rcases h with ⟨-, h⟩ | ⟨-, h⟩
  · exact absurd (congrArg Prod.fst h) (numberPiece_ne_placeholder (c :: cs))
  rw [ite_eq_iff] at h
  rcases h with ⟨-, h⟩ | ⟨-, h⟩
  · cases h
  rw [ite_eq_iff] at h
  rcases h with ⟨hquestion, h⟩ | ⟨-, h⟩
  · exact .inl hquestion
  rw [ite_eq_iff] at h
  rcases h with ⟨hsign, h⟩ | ⟨-, h⟩
  · simp only [Bool.or_eq_true, decide_eq_true_eq, or_assoc] at hsign
    obtain ⟨hkind, rfl⟩ := Prod.mk.inj h
    refine .inr ⟨hsign, take_spanLength _ _, ?_⟩
    intro hnil
    rw [spanLength, hnil] at hkind
    simp at hkind
  · split at h <;> simp at h
    split at h <;> simp at h

end TypedTables.Clause
