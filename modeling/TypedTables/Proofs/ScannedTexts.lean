import TypedTables.Proofs.ClauseVariables
import TypedTables.Statement.Text
import TypedTables.Text.Lexemes

/-!
# What the scan finds in a text

The scan for placeholders goes through a text character by character. Cut into words and signs, the
text shows what is found: the words behind colons. So what is found in a text is put together from
its parts. The engine cuts the text into pieces of its own, and reads the same names if no comment
changes what the scan sees and every name is plain.
-/
namespace TypedTables

namespace Text

def firstWord? (ls : List Lexeme) : Option String := ls.head?.bind Lexeme.word?

/-- The lexemes of a text start with a word if the text starts with characters of names. -/
theorem firstWord?_foldr (cs : List Char) :
    firstWord? (cs.foldr addChar []) =
      if (cs.takeWhile isNameChar).isEmpty then none
        else some (String.ofList (cs.takeWhile isNameChar)) := by
  have hsplit := List.takeWhile_append_dropWhile (p := isNameChar) (l := cs)
  have hrest : (cs.dropWhile isNameChar).head?.any isNameChar = false := by
    have hnot := List.head?_dropWhile_not isNameChar cs
    cases hd : (cs.dropWhile isNameChar).head? with
    | none => rfl
    | some d =>
      rw [hd] at hnot
      simpa using hnot
  cases hname : cs.takeWhile isNameChar with
  | nil =>
    rw [hname, List.nil_append] at hsplit
    rw [hsplit] at hrest
    rcases cs with _ | ⟨c, cs⟩
    · rfl
    · rw [List.foldr_cons, addChar_sign hrest]
      rfl
  | cons c name =>
    have hall : (c :: name).all isNameChar = true := hname ▸ List.all_takeWhile
    have hword :=
      lexemes_word (w := String.ofList (c :: name)) (by simp) (by rwa [String.toList_ofList])
    rw [lexemes, String.toList_ofList] at hword
    rw [← hsplit, foldr_addChar_append _ _ hrest, hname, hword]
    rfl

end Text

namespace Clause

open Engine Text

def scan : List Lexeme → Except StatementFault (List String)
  | [] => .ok []
  | .word _ :: ls => scan ls
  | .sign c :: ls =>
    if c = '?' then .error .positionalPlaceholder
    else if c = ':' || c = '@' || c = '$' then
      match firstWord? ls with
      | none => scan ls
      | some w =>
        if c = ':' && isIdentifier w then (scan ls).map (w :: ·)
          else .error (.unsupportedPlaceholder c w)
    else scan ls

def scanSigns : List Char := ['?', ':', '@', '$']

section Scan

variable {ls as bs rest : List Lexeme} {ns ms : List String} {w : String} {c : Char}

theorem scan_addNameChar (c : Char) (ls : List Lexeme) : scan (addNameChar c ls) = scan ls := by
  rcases addNameChar_cases c ls with ⟨w, rest, rfl, hadded⟩ | hadded <;> rw [hadded] <;> rfl

theorem scan_sign (h : c ∉ scanSigns) (ls : List Lexeme) : scan (.sign c :: ls) = scan ls := by
  simp only [scanSigns, List.mem_cons, List.not_mem_nil, or_false, not_or] at h
  simp [scan, h]

/-- The scan of the characters is the scan of the words and signs. -/
theorem names_eq_scan (cs : List Char) : names cs = scan (cs.foldr addChar []) := by
  induction cs with
  | nil => rfl
  | cons c cs ih =>
    rw [List.foldr_cons]
    cases hc : isNameChar c with
    | true =>
      have hne : ∀ d ∈ scanSigns, c ≠ d := by
        rintro d hd rfl
        have hsigns : scanSigns.all (!isNameChar ·) = true := by decide
        simpa [hc] using List.all_eq_true.mp hsigns c hd
      simp only [scanSigns, List.forall_mem_cons] at hne
      rw [addChar_name hc, scan_addNameChar, ← ih, names]
      simp [hne]
    | false =>
      rw [addChar_sign hc, names, scan, firstWord?_foldr, ← ih]
      refine ite_congr rfl (fun _ => rfl) fun _ => ite_congr rfl (fun _ => ?_) fun _ => rfl
      by_cases hname : (cs.takeWhile isNameChar).isEmpty = true
      · simp only [hname, if_true]
      · rw [if_neg hname, if_neg hname]
        dsimp only
        rw [isIdentifier, String.toList_ofList]
        refine ite_congr rfl (fun _ => ?_) fun _ => rfl
        cases names cs <;> rfl

theorem names_toList (text : String) : names text.toList = scan (lexemes text) := names_eq_scan _

/-- Lexemes in which the scan finds names, whatever stands behind them. -/
def Finds (ls : List Lexeme) (found : List String) : Prop :=
  ∀ rest, scan (ls ++ rest) = (scan rest).map (found ++ ·)

theorem finds_nil : Finds [] [] := by
  intro rest
  rw [List.nil_append]
  cases scan rest <;> rfl

theorem Finds.append (ha : Finds as ns) (hb : Finds bs ms) : Finds (as ++ bs) (ns ++ ms) := by
  intro rest
  rw [List.append_assoc, ha, hb]
  cases scan rest with
  | error e => rfl
  | ok found => simp [Except.map]

theorem Finds.scan_eq (h : Finds ls ns) : scan ls = .ok ns := by
  have hnil := h []
  rwa [List.append_nil, scan, Except.map, List.append_nil] at hnil

theorem finds_placeholder (h : isIdentifier w = true) : Finds [.sign ':', .word w] [w] := by
  intro rest
  have hfirst : firstWord? (.word w :: rest) = some w := rfl
  rw [List.cons_append, List.cons_append, List.nil_append, scan, if_neg (by decide),
    if_pos (by decide), hfirst]
  dsimp only
  rw [h, if_pos (by decide)]
  rfl

def passesOver : Lexeme → Bool
  | .word _ => true
  | .sign c => !scanSigns.contains c

/-- Lexemes that the scan passes over. -/
def Calm (ls : List Lexeme) : Prop := ls.all passesOver = true

theorem Calm.append (ha : Calm as) (hb : Calm bs) : Calm (as ++ bs) := by
  rw [Calm, List.all_append, ha, hb]
  rfl

theorem calm_intercalate {sep : List Lexeme} (hsep : Calm sep) {items : List (List Lexeme)}
    (h : ∀ item ∈ items, Calm item) : Calm (sep.intercalate items) := by
  induction items with
  | nil => rfl
  | cons item items ih =>
    obtain ⟨hitem, hitems⟩ := List.forall_mem_cons.mp h
    rcases items with _ | ⟨next, items⟩
    · rwa [List.intercalate_singleton]
    · rw [List.intercalate_cons_cons]
      exact (hitem.append hsep).append (ih hitems)

theorem Calm.finds (h : Calm ls) : Finds ls [] := by
  induction ls with
  | nil => exact finds_nil
  | cons l ls ih =>
    rw [Calm, List.all_cons, Bool.and_eq_true] at h
    intro rest
    rw [List.cons_append]
    cases l with
    | word w => exact ih h.2 rest
    | sign c =>
      have hc : c ∉ scanSigns := by simpa [passesOver] using h.1
      rw [scan_sign hc]
      exact ih h.2 rest

/-- Items that show a name each, with something calm between them. -/
theorem finds_intercalate {α : Type} {sep : List Lexeme} (hsep : Calm sep)
    {g : α → List Lexeme} {f : α → String} {items : List α} (h : ∀ a ∈ items, Finds (g a) [f a]) :
    Finds (sep.intercalate (items.map g)) (items.map f) := by
  induction items with
  | nil => exact finds_nil
  | cons a items ih =>
    obtain ⟨ha, hitems⟩ := List.forall_mem_cons.mp h
    rcases items with _ | ⟨b, items⟩
    · simpa using ha
    · rw [List.map_cons, List.map_cons, List.intercalate_cons_cons]
      exact (ha.append hsep.finds).append (ih hitems)

/-- What is found in a text is found in its parts, if no word goes on behind the first one. -/
theorem scan_append (ha : scan as = .ok ns) (hb : firstWord? bs = none) :
    scan (as ++ bs) = (scan bs).map (ns ++ ·) := by
  induction as generalizing ns with
  | nil =>
    cases ha
    exact finds_nil bs
  | cons l as ih =>
    cases l with
    | word w => exact ih ha
    | sign c =>
      have hfirst : firstWord? (as ++ bs) = firstWord? as := by
        cases as with
        | nil => exact hb
        | cons l as => rfl
      rw [scan] at ha
      rw [List.cons_append, scan, hfirst]
      split at ha
      · cases ha
      next hquestion =>
        rw [if_neg hquestion]
        split at ha
        next hsign =>
          rw [if_pos hsign]
          cases hw : firstWord? as with
          | none =>
            rw [hw] at ha
            exact ih ha
          | some w =>
            rw [hw] at ha
            dsimp only at ha ⊢
            split at ha
            next hid =>
              obtain ⟨found, hfound, rfl⟩ := except_map_eq_ok.mp ha
              rw [if_pos hid, ih hfound]
              cases scan bs <;> rfl
            · cases ha
        next hsign =>
          rw [if_neg hsign]
          exact ih ha

/-- A name is found exactly if it stands behind a colon. -/
theorem mem_of_scan (h : scan ls = .ok ns) : w ∈ ns ↔ [.sign ':', .word w] <:+: ls := by
  induction ls generalizing ns with
  | nil =>
    cases h
    simp
  | cons l ls ih =>
    rw [List.infix_cons_iff]
    cases l with
    | word v =>
      rw [ih h]
      simp
    | sign c =>
      have hstarts : [.sign ':', .word w] <+: .sign c :: ls ↔ c = ':' ∧ firstWord? ls = some w := by
        rcases ls with _ | ⟨l, ls⟩
        · simp [firstWord?]
        · cases l <;> simp [firstWord?, Lexeme.word?, List.cons_prefix_cons, eq_comm]
      rw [hstarts]
      rw [scan] at h
      split at h
      · cases h
      split at h
      next hsign =>
        cases hw : firstWord? ls with
        | none =>
          rw [hw] at h
          rw [ih h]
          simp
        | some v =>
          rw [hw] at h
          dsimp only at h
          split at h
          next hid =>
            obtain ⟨found, hfound, rfl⟩ := except_map_eq_ok.mp h
            rw [Bool.and_eq_true, decide_eq_true_eq] at hid
            rw [List.mem_cons, ih hfound, Option.some.injEq, eq_comm]
            simp [hid.1]
          · cases h
      next hsign =>
        have hcolon : c ≠ ':' := by
          rintro rfl
          exact hsign rfl
        rw [ih h]
        simp [hcolon]

end Scan

/-- The bind variables that the engine reads in a text, as they stand there. -/
def variableTexts (text : String) : List String :=
  ((pieces text.toList).filter (·.kind == .placeholder)).map fun p => String.ofList p.chars

/-- A comment behind which the scan is outside of quotes, and in which it sees no colon. -/
def Silent (p : Piece) : Prop := openAfter none p.chars = none ∧ ':' ∉ unquoted none p.chars

structure Legible (text : String) : Prop where
  silent : ∀ p ∈ pieces text.toList, isComment p = true → Silent p
  plain : ∀ p ∈ pieces text.toList, p.kind = .placeholder → Plain p

section Pieces

variable {as bs cs : List Char} {ns : List String}

/-- Nothing is found in characters without a colon. -/
theorem names_of_colonless (hcolon : ':' ∉ as) (h : names (as ++ bs) = .ok ns) :
    names bs = .ok ns := by
  induction as with
  | nil => exact h
  | cons c as ih =>
    rw [List.mem_cons, not_or] at hcolon
    refine ih hcolon.2 ?_
    rw [List.cons_append, names] at h
    split at h
    · cases h
    split at h
    · dsimp only at h
      split at h
      · exact h
      · rw [decide_eq_false (Ne.symm hcolon.1), Bool.false_and, if_neg Bool.false_ne_true] at h
        cases h
    · exact h

/-- Behind a piece the scan is outside of quotes, unless the text ends there. -/
theorem unquoted_piece {c : Char} {kind : TokenKind} {n : Nat} (h : pieceAfter c cs = (kind, n))
    (hsilent : isComment ⟨kind, c :: cs.take n⟩ = true → Silent ⟨kind, c :: cs.take n⟩) :
    unquoted none (c :: cs) = unquoted none (c :: cs.take n) ++ unquoted none (cs.drop n) := by
  have hclosed : openAfter none (c :: cs.take n) = none ∨ cs.drop n = [] := by
    rcases openAfter_piece h with hopen | hend | hcomment
    · exact .inl hopen
    · exact .inr hend
    · exact .inl (hsilent hcomment).1
  have hsplit := unquoted_append none (c :: cs.take n) (cs.drop n)
  rw [List.cons_append, List.take_append_drop] at hsplit
  rw [hsplit]
  rcases hclosed with hopen | hend
  · rw [hopen]
  · rw [hend]
    cases openAfter none (c :: cs.take n) <;> rfl

/-- The scan sees no colon in a piece that starts with none. -/
theorem colonless_piece {c : Char} {kind : TokenKind} {n : Nat} (h : pieceAfter c cs = (kind, n))
    (hsilent : isComment ⟨kind, c :: cs.take n⟩ = true → Silent ⟨kind, c :: cs.take n⟩)
    (hc : c ≠ ':') :
    ':' ∉ unquoted none (c :: cs.take n) := by
  rcases piece_cases h with ⟨hsign, hkind⟩ | ⟨-, hscanned⟩
  · refine (hsilent (isComment_iff.mpr ⟨hkind, ?_⟩)).2
    rcases hsign with rfl | rfl <;> rfl
  · exact hscanned.colonless hc

/-- The name behind a colon is found, and then the names behind it. -/
theorem names_colon (hname : cs.takeWhile Text.isNameChar ≠ []) (h : names (':' :: cs) = .ok ns) :
    ∃ ms, names (cs.drop (cs.takeWhile Text.isNameChar).length) = .ok ms ∧
      ns = String.ofList (cs.takeWhile Text.isNameChar) :: ms := by
  rw [names, if_neg (by decide), if_pos (by decide)] at h
  dsimp only at h
  rw [if_neg (by simpa using hname)] at h
  split at h
  · obtain ⟨ms, hms, heq⟩ := except_bind_eq_ok.mp h
    cases heq
    refine ⟨ms, ?_, rfl⟩
    rw [← takeWhile_append_drop Text.isNameChar cs] at hms
    refine names_of_colonless ?_ hms
    intro hm
    have hcolon := List.all_eq_true.mp List.all_takeWhile _ hm
    exact absurd hcolon (by decide)
  · cases h

/-- Nothing is found behind a colon without a name. -/
theorem names_lone (hname : cs.takeWhile Text.isNameChar = []) (h : names (':' :: cs) = .ok ns) :
    names cs = .ok ns := by
  rw [names, if_neg (by decide), if_pos (by decide)] at h
  dsimp only at h
  rwa [hname, if_pos (show List.isEmpty [] = true from rfl)] at h

theorem length_unquoted (open? : Option Char) (cs : List Char) :
    (unquoted open? cs).length = cs.length := by
  induction cs generalizing open? with
  | nil => cases open? <;> rfl
  | cons c cs ih =>
    cases open? with
    | some q => rw [unquoted, List.length_cons, ih, List.length_cons]
    | none =>
      rw [unquoted]
      split <;> rw [List.length_cons, ih, List.length_cons]

/-- A colon that starts no bind variable stands alone. -/
theorem span_of_colon {kind : TokenKind} {n : Nat} (h : pieceAfter ':' cs = (kind, n))
    (hkind : kind ≠ .placeholder) : n = 0 ∧ cs.takeWhile Text.isNameChar = [] := by
  have hpiece : pieceAfter ':' cs =
      (if spanLength isIdChar cs = 0 then .illegal else .placeholder, spanLength isIdChar cs) := rfl
  rw [hpiece] at h
  obtain ⟨hk, rfl⟩ := Prod.mk.inj h
  split at hk
  next hzero =>
    have hnone : cs.takeWhile isIdChar = [] := List.length_eq_zero_iff.mp hzero
    refine ⟨hzero, ?_⟩
    rw [takeWhile_eq_of_all (fun _ => isIdChar_of_isNameChar) (by simp [hnone]), hnone]
  · exact absurd hk.symm hkind

/-- The bind variables of a legible text are the names that the scan finds, in order. -/
theorem placeholders_of_names (hsilent : ∀ p ∈ pieces cs, isComment p = true → Silent p)
    (hplain : ∀ p ∈ pieces cs, p.kind = .placeholder → Plain p)
    (h : names (unquoted none cs) = .ok ns) :
    ((pieces cs).filter (·.kind == .placeholder)).map Piece.chars = ns.map fun name =>
      ':' :: name.toList := by
  fun_induction pieces cs generalizing ns with
  | case1 =>
    cases h
    rfl
  | case2 c cs kind n hpiece ih =>
    obtain ⟨hsilent₀, hsilents⟩ := List.forall_mem_cons.mp hsilent
    obtain ⟨hplain₀, hplains⟩ := List.forall_mem_cons.mp hplain
    have hsplit := unquoted_piece hpiece hsilent₀
    -- what is scanned of the rest starts behind the piece, where no quote is open; the piece itself
    -- shows the scan one name if it is a bind variable, and none otherwise
    by_cases hkind : kind = .placeholder
    · subst hkind
      obtain ⟨rfl, htake, hspan, hne, -⟩ := found_of_plain hpiece (hplain₀ rfl) h
      obtain ⟨ms, hms, rfl⟩ := names_colon (by rwa [takeWhile_unquoted, hspan]) h
      have hdrop : (unquoted none cs).drop (cs.take n).length = unquoted none (cs.drop n) := by
        have htail := (List.cons.inj hsplit).2
        rw [htail]
        exact List.drop_left' (length_unquoted _ _)
      rw [takeWhile_unquoted, hspan, ← htake, hdrop] at hms
      rw [List.filter_cons_of_pos rfl, List.map_cons, List.map_cons, ih hsilents hplains hms,
        String.toList_ofList, takeWhile_unquoted, hspan, htake]
    · have hrest : names (unquoted none (cs.drop n)) = .ok ns := by
        by_cases hc : c = ':'
        · subst hc
          obtain ⟨hn, hnone⟩ := span_of_colon hpiece hkind
          rw [hn, List.drop_zero]
          exact names_lone (by rw [takeWhile_unquoted, hnone]) h
        · rw [hsplit] at h
          exact names_of_colonless (colonless_piece hpiece hsilent₀ hc) h
      rw [List.filter_cons_of_neg (by simpa using hkind)]
      exact ih hsilents hplains hrest

/-- The bind variables of a legible text are the names that the scan finds in it. -/
theorem variableTexts_of_names {text : String} (hlegible : Legible text)
    (h : names (unquoted none text.toList) = .ok ns) : variableTexts text = ns.map placeholder := by
  have hchars := placeholders_of_names hlegible.silent hlegible.plain h
  have htexts := congrArg (List.map String.ofList) hchars
  rw [List.map_map, List.map_map] at htexts
  rw [variableTexts]
  refine htexts.trans (List.map_congr_left fun name _ => ?_)
  rw [Function.comp, String.ofList_cons, String.ofList_toList]
  rfl

theorem map_snd_withOpen (open? : Option Char) (ps : List Piece) :
    (withOpen open? ps).map Prod.snd = ps := by
  induction ps generalizing open? with
  | nil => rfl
  | cons p ps ih => rw [withOpen, List.map_cons, ih]

/-- A piece begins at a character that says how long it is. -/
theorem exists_of_mem_pieces {p : Piece} (hp : p ∈ pieces cs) :
    ∃ pre c rest kind n, cs = pre ++ c :: rest ∧ pieceAfter c rest = (kind, n) ∧
    p = ⟨kind, c :: rest.take n⟩ := by
  rw [← map_snd_withOpen none (pieces cs), List.mem_map] at hp
  obtain ⟨x, hx, rfl⟩ := hp
  obtain ⟨pre, c, rest, kind, n, heq, hpiece, rfl⟩ := mem_withOpen_pieces hx
  exact ⟨pre, c, rest, kind, n, heq, hpiece, rfl⟩

/-- The signs that comments start with, and those of bind variables without a name or for the engine
only. -/
def strangeSigns : List Char := ['-', '/', '#', '?']

/-- Whether the scan and the engine take a character alike, wherever it stands. -/
def isOrdinary (c : Char) : Bool :=
  !openers.contains c && !strangeSigns.contains c && (!isIdChar c || Text.isNameChar c)

/-- Characters that the scan and the engine take alike. -/
def Ordinary (cs : List Char) : Prop := cs.all isOrdinary = true

theorem isOrdinary_iff {c : Char} : isOrdinary c = true ↔
    closing? c = none ∧ c ∉ strangeSigns ∧ (isIdChar c = true → Text.isNameChar c = true) := by
  rw [isOrdinary, Bool.and_eq_true, Bool.and_eq_true, closing_eq_none_iff, and_assoc]
  simp only [Bool.not_eq_true', List.contains_eq_mem, decide_eq_false_iff_not,
    Bool.or_eq_true, imp_iff_not_or, Bool.not_eq_true]

theorem isOrdinary_of_isNameChar {c : Char} (h : Text.isNameChar c = true) :
    isOrdinary c = true := by
  refine isOrdinary_iff.mpr ⟨closing_of_isIdChar (isIdChar_of_isNameChar h),
    fun hc => ?_, fun _ => h⟩
  have hsigns : strangeSigns.all (!Text.isNameChar ·) = true := by decide
  simpa [h] using List.all_eq_true.mp hsigns c hc

theorem ordinary_append : Ordinary (as ++ bs) ↔ Ordinary as ∧ Ordinary bs := by
  rw [Ordinary, List.all_append, Bool.and_eq_true]
  rfl

theorem Ordinary.quiet (h : Ordinary cs) : Quiet cs :=
  fun c hc => (isOrdinary_iff.mp (List.all_eq_true.mp h c hc)).1

/-- Without quotes there is nothing to blank. -/
theorem Quiet.unquoted (h : Quiet cs) : unquoted none cs = cs := by
  induction cs with
  | nil => rfl
  | cons c cs ih =>
    rw [Clause.unquoted, h c List.mem_cons_self]
    exact congrArg (c :: ·) (ih fun d hd => h d (List.mem_cons_of_mem c hd))

/-- A text of ordinary characters is legible: it has no comments, and plain names. -/
theorem legible_of_ordinary {text : String} (h : Ordinary text.toList) : Legible text := by
  have hchar : ∀ c ∈ text.toList, c ∉ strangeSigns ∧
      (isIdChar c = true → Text.isNameChar c = true) :=
    fun c hc => (isOrdinary_iff.mp (List.all_eq_true.mp h c hc)).2
  constructor
  · intro p hp hcomment
    obtain ⟨pre, c, rest, kind, n, heq, hpiece, rfl⟩ := exists_of_mem_pieces hp
    obtain ⟨hblank, hspace⟩ := isComment_iff.mp hcomment
    have hc := hchar c (by rw [heq]; simp)
    rcases piece_cases hpiece with ⟨hsign, -⟩ | ⟨hblanks, -⟩
    · refine absurd ?_ hc.1
      rcases hsign with rfl | rfl <;> decide
    · rw [hblanks hblank] at hspace
      cases hspace
  · intro p hp hkind
    obtain ⟨pre, c, rest, kind, n, heq, hpiece, rfl⟩ := exists_of_mem_pieces hp
    cases hkind
    have hc := hchar c (by rw [heq]; simp)
    rcases pieceAfter_placeholder hpiece with rfl | ⟨-, htake, -⟩
    · exact absurd (by decide) hc.1
    · constructor
      · intro hsharp
        cases hsharp
        exact absurd (by decide) hc.1
      · intro d hd
        rw [List.tail_cons, htake] at hd
        have hmem : d ∈ text.toList := by
          rw [heq]
          exact List.mem_append_right _
            (List.mem_cons_of_mem c ((List.takeWhile_sublist _).subset hd))
        exact (hchar d hmem).2 (List.all_eq_true.mp List.all_takeWhile d hd)

end Pieces

end Clause

end TypedTables
