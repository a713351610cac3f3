import Mathlib.Data.String.Basic
import TypedTables.Proofs.ClauseVariables

/-!
# The scan of a clause, byte by byte

The parameters of a clause can also be found with an index into its bytes: each step goes on by one
byte or behind a name, which it cuts out of the text. This loop ends within one step more than there
are bytes, it never cuts a character in two, and it finds what the scan over the characters finds.
-/
namespace TypedTables.Clause

def utf8 (cs : List Char) : List UInt8 := cs.flatMap String.utf8EncodeChar

def bytes (text : String) : List UInt8 := text.toByteArray.data.toList

/-- The text between two bytes, if no character goes on across one of them. -/
def slice? (text : String) (start stop : Nat) : Option String :=
  if String.Pos.Raw.isValid text ⟨start⟩ && String.Pos.Raw.isValid text ⟨stop⟩ then
    some (String.Pos.Raw.extract text ⟨start⟩ ⟨stop⟩)
  else none

/-- Where a scan over bytes stands: at which byte, in which quote, and with which names found. -/
structure ByteScan where
  position : Nat
  close : Option Char
  found : List String

namespace ByteScan

inductive Outcome where
  | next (s : ByteScan)
  | ended (result : Except StatementFault (List String))
  /-- A name was to be cut out of the text in the middle of a character. -/
  | cut

def start : ByteScan := ⟨0, none, []⟩

/-- Passes a sign that may stand in front of a name, together with the name if there is one. -/
def passSign (text : String) (sign : Char) (s : ByteScan) : Outcome :=
  let start := s.position + 1
  let stop := start + (((bytes text).drop start).takeWhile (Text.isNameChar <|
    Char.ofUInt8 ·)).length
  if stop = start then .next { s with position := start }
  else
    match slice? text start stop with
    | none => .cut
    | some name =>
      if sign = ':' && Text.isIdentifier name then
        .next ⟨stop, s.close, if s.found.contains name then s.found else s.found ++ [name]⟩
      else .ended (.error (.unsupportedPlaceholder sign name))

def step (text : String) (s : ByteScan) : Outcome :=
  match (bytes text)[s.position]? with
  | none => .ended (.ok s.found)
  | some b =>
    let c := Char.ofUInt8 b
    match s.close with
    | some q => .next { s with position := s.position + 1, close := if c = q then none else some q }
    | none =>
      match closing? c with
      | some q => .next { s with position := s.position + 1, close := some q }
      | none =>
        if c = '?' then .ended (.error .positionalPlaceholder)
        else if c = ':' || c = '@' || c = '$' then s.passSign text c
        else .next { s with position := s.position + 1 }

/-- At most so many steps, up to the end of the scan. -/
def run (text : String) : Nat → ByteScan → Outcome
  | 0, s => .next s
  | n + 1, s =>
    match s.step text with
    | .next s => run text n s
    | outcome => outcome

end ByteScan

/-! ### Bytes of characters -/

@[simp] theorem utf8_nil : utf8 [] = [] := rfl

theorem utf8_cons (c : Char) (cs : List Char) :
    utf8 (c :: cs) = String.utf8EncodeChar c ++ utf8 cs := rfl

theorem utf8_append (as bs : List Char) : utf8 (as ++ bs) = utf8 as ++ utf8 bs :=
  List.flatMap_append

theorem bytes_eq (text : String) : bytes text = utf8 text.toList := by
  rw [bytes, ← String.utf8Encode_toList, List.utf8Encode, List.toList_data_toByteArray]
  rfl

theorem utf8_ne_nil (c : Char) (cs : List Char) : utf8 (c :: cs) ≠ [] :=
  fun hnil => String.utf8EncodeChar_ne_nil (List.append_eq_nil_iff.mp hnil).1

theorem length_utf8_cons (c : Char) (cs : List Char) :
    (utf8 cs).length < (utf8 (c :: cs)).length := by
  have hbytes : 0 < (String.utf8EncodeChar c).length :=
    List.length_pos_iff.mpr String.utf8EncodeChar_ne_nil
  rw [utf8_cons, List.length_append]
  omega

theorem length_utf8 (cs : List Char) : (utf8 cs).length = (String.ofList cs).utf8ByteSize := by
  have h := bytes_eq (String.ofList cs)
  rw [String.toList_ofList] at h
  rw [← h]
  rfl

theorem toNat_ofUInt8 (b : UInt8) : (Char.ofUInt8 b).toNat = b.toNat := UInt8.toNat_toUInt32 b

/-- A character of one byte is that byte. -/
theorem utf8_narrow {c : Char} (h : c.toNat < 128) :
    ∃ b, String.utf8EncodeChar c = [b] ∧ Char.ofUInt8 b = c := by
  have hle : c.val.toNat ≤ 127 := Nat.le_of_lt_succ h
  refine ⟨UInt8.ofNat c.val.toNat, ?_, ?_⟩
  · simp only [String.utf8EncodeChar, if_pos hle]
  · refine Char.toNat_inj.mp ?_
    rw [toNat_ofUInt8, UInt8.toNat_ofNat', Nat.mod_eq_of_lt (by omega)]
    rfl

theorem length_utf8_narrow {c : Char} (h : c.toNat < 128) (cs : List Char) :
    (utf8 (cs ++ [c])).length = (utf8 cs).length + 1 := by
  obtain ⟨b, hb, -⟩ := utf8_narrow h
  rw [utf8_append, List.length_append, utf8_cons, hb]
  rfl

/-- No byte of a longer character is a character of one byte. -/
theorem utf8_wide {c : Char} (h : 128 ≤ c.toNat) :
    ∀ b ∈ String.utf8EncodeChar c, 128 ≤ b.toNat := by
  have hlow : ¬ c.val.toNat ≤ 127 := Nat.not_le_of_lt h
  intro b hb
  simp only [String.utf8EncodeChar, if_neg hlow] at hb
  split at hb
  · simp only [List.mem_cons, List.not_mem_nil, or_false] at hb
    rcases hb with rfl | rfl <;> simp only [UInt8.toNat_ofNat'] <;> omega
  split at hb
  · simp only [List.mem_cons, List.not_mem_nil, or_false] at hb
    rcases hb with rfl | rfl | rfl <;> simp only [UInt8.toNat_ofNat'] <;> omega
  · simp only [List.mem_cons, List.not_mem_nil, or_false] at hb
    rcases hb with rfl | rfl | rfl | rfl <;> simp only [UInt8.toNat_ofNat'] <;> omega

theorem narrow_of_isNameChar {c : Char} (h : Text.isNameChar c = true) : c.toNat < 128 := by
  have hclass : (c.isUpper || c.isLower || c.isDigit || c == '_') = true := h
  simp only [Bool.or_eq_true, beq_iff_eq] at hclass
  rcases hclass with ((hupper | hlower) | hdigit) | rfl
  · have hle : c.val ≤ 'Z'.val := (of_decide_eq_true hupper).2
    exact Nat.lt_of_le_of_lt hle (by decide)
  · have hle : c.val ≤ 'z'.val := of_decide_eq_true (Bool.and_eq_true_iff.mp hlower).2
    exact Nat.lt_of_le_of_lt hle (by decide)
  · have hle : c.val ≤ '9'.val := of_decide_eq_true (Bool.and_eq_true_iff.mp hdigit).2
    exact Nat.lt_of_le_of_lt hle (by decide)
  · decide

theorem narrow_of_closing {c q : Char} (h : closing? c = some q) :
    c.toNat < 128 ∧ q.toNat < 128 := by
  rw [closing?] at h
  split at h
  next hquote =>
    cases h
    simp only [Bool.or_eq_true, decide_eq_true_eq] at hquote
    rcases hquote with (rfl | rfl) | rfl <;> decide
  next =>
    split at h
    next hbracket =>
      cases h
      subst hbracket
      decide
    next => cases h

/-! A byte of a longer character is read as a character beyond those of one byte, too; all of these
open no quote, stand in no name and are no sign. -/

section Wide

variable {c : Char}

theorem ne_of_wide (hc : 128 ≤ c.toNat) {d : Char} (hd : d.toNat < 128) : c ≠ d := by
  rintro rfl
  exact absurd hd (Nat.not_lt_of_le hc)

theorem closing_of_wide (hc : 128 ≤ c.toNat) : closing? c = none := by
  cases hclosing : closing? c with
  | none => rfl
  | some q => exact absurd (narrow_of_closing hclosing).1 (Nat.not_lt_of_le hc)

theorem isNameChar_of_wide (hc : 128 ≤ c.toNat) : ¬ Text.isNameChar c = true :=
  fun hname => absurd (narrow_of_isNameChar hname) (Nat.not_lt_of_le hc)

theorem not_sign_of_wide (hc : 128 ≤ c.toNat) :
    c ≠ '?' ∧ ¬ (c = ':' || c = '@' || c = '$') = true := by
  have hcolon : c ≠ ':' := ne_of_wide hc (by decide)
  have hat : c ≠ '@' := ne_of_wide hc (by decide)
  have hdollar : c ≠ '$' := ne_of_wide hc (by decide)
  exact ⟨ne_of_wide hc (by decide), by simp [hcolon, hat, hdollar]⟩

theorem wide_ofUInt8 {b : UInt8} (h : 128 ≤ b.toNat) : 128 ≤ (Char.ofUInt8 b).toNat := by
  rwa [toNat_ofUInt8]

end Wide

/-- The longest name at the front of bytes is that at the front of their characters. -/
theorem takeWhile_utf8 (cs : List Char) :
    (utf8 cs).takeWhile (Text.isNameChar <| Char.ofUInt8 ·) =
      utf8 (cs.takeWhile Text.isNameChar) := by
  induction cs with
  | nil => rfl
  | cons c cs ih =>
    rcases Nat.lt_or_ge c.toNat 128 with hnarrow | hwide
    · obtain ⟨b, hb, hread⟩ := utf8_narrow hnarrow
      rw [utf8_cons, hb, List.singleton_append, List.takeWhile_cons, List.takeWhile_cons, hread, ih]
      split
      · rw [utf8_cons, hb, List.singleton_append]
      · rfl
    · rw [List.takeWhile_cons_of_neg (isNameChar_of_wide hwide), utf8_cons, utf8_nil]
      have hbytes := utf8_wide hwide
      cases hb : String.utf8EncodeChar c with
      | nil => exact absurd hb String.utf8EncodeChar_ne_nil
      | cons b bs =>
        rw [hb] at hbytes
        have hname := isNameChar_of_wide (wide_ofUInt8 (hbytes b List.mem_cons_self))
        exact List.takeWhile_cons_of_neg hname

/-! ### Places in a text -/

section Places

variable {text : String} {pre mid post : List Char}

theorem bytes_drop (h : text.toList = pre ++ post) :
    (bytes text).drop (utf8 pre).length = utf8 post := by
  rw [bytes_eq, h, utf8_append, List.drop_left]

theorem bytes_getElem? (h : text.toList = pre ++ post) :
    (bytes text)[(utf8 pre).length]? = (utf8 post).head? := by
  rw [← List.head?_drop, bytes_drop h]

theorem isValid_utf8 (h : text.toList = pre ++ post) :
    String.Pos.Raw.isValid text ⟨(utf8 pre).length⟩ = true := by
  rw [String.Pos.Raw.isValid_eq_true_iff, String.Pos.Raw.isValid_iff_exists_append]
  refine ⟨String.ofList pre, String.ofList post, ?_, ?_⟩
  · rw [← String.ofList_append, ← h, String.ofList_toList]
  · rw [length_utf8]
    rfl

/-- Between two characters a text is cut into whole characters. -/
theorem slice?_utf8 (h : text.toList = pre ++ (mid ++ post)) :
    slice? text (utf8 pre).length ((utf8 pre).length + (utf8 mid).length) =
      some (String.ofList mid) := by
  have hstop : (utf8 pre).length + (utf8 mid).length = (utf8 (pre ++ mid)).length := by
    rw [utf8_append, List.length_append]
  have hfirst := isValid_utf8 h
  have hlast := isValid_utf8 (h.trans (List.append_assoc _ _ _).symm)
  rw [slice?, hfirst, hstop, hlast, ← hstop]
  have hextract := String.extract_of_valid pre mid post
  rw [List.append_assoc, ← h, String.ofList_toList] at hextract
  simp only [length_utf8, String.utf8ByteSize_ofList, Bool.and_self, if_true, hextract]

end Places

/-! ### Steps -/

namespace ByteScan

variable {text : String} {pre post : List Char} {close : Option Char} {found : List String}

/-- A sign and the name behind it, if there is one. -/
theorem passSign_utf8 {c : Char} (h : text.toList = pre ++ c :: post) (hc : c.toNat < 128) :
    passSign text c ⟨(utf8 pre).length, close, found⟩ =
      if post.takeWhile Text.isNameChar = [] then .next ⟨(utf8 (pre ++ [c])).length, close, found⟩
      else if c = ':' && Text.isIdentifierChars (post.takeWhile Text.isNameChar) then
        let name := String.ofList (post.takeWhile Text.isNameChar)
        .next ⟨(utf8 (pre ++ c :: post.takeWhile Text.isNameChar)).length, close,
          if found.contains name then found else found ++ [name]⟩
      else .ended (.error
        (.unsupportedPlaceholder c (String.ofList (post.takeWhile Text.isNameChar)))) := by
  have hbehind : text.toList = (pre ++ [c]) ++ post := by
    rw [h, List.append_assoc, List.singleton_append]
  generalize hname : post.takeWhile Text.isNameChar = name
  have hstop : (utf8 (pre ++ [c])).length + (utf8 name).length =
      (utf8 (pre ++ c :: name)).length := by
    rw [← List.length_append, ← utf8_append, List.append_assoc, List.singleton_append]
  have hslice :
      slice? text (utf8 (pre ++ [c])).length ((utf8 (pre ++ [c])).length + (utf8 name).length) =
      some (String.ofList name) := by
    have hplace : text.toList = (pre ++ [c]) ++ (name ++ post.dropWhile Text.isNameChar) := by
      rw [hbehind, ← hname, List.takeWhile_append_dropWhile]
    exact slice?_utf8 hplace
  rw [passSign]
  dsimp only
  rw [← length_utf8_narrow hc, bytes_drop hbehind, takeWhile_utf8, hname, hslice]
  cases name with
  | nil => rw [utf8_nil, if_pos (List.length_nil ▸ Nat.add_zero _), if_pos rfl]
  | cons d ds =>
    have hne : ¬ (utf8 (pre ++ [c])).length + (utf8 (d :: ds)).length =
        (utf8 (pre ++ [c])).length := fun heq =>
      utf8_ne_nil d ds (List.length_eq_zero_iff.mp (Nat.add_eq_left.mp heq))
    rw [if_neg hne, if_neg (List.cons_ne_nil d ds), hstop]
    simp only [Text.isIdentifier, String.toList_ofList]

/-- A byte of a longer character is passed. -/
theorem step_wide {position : Nat} {b : UInt8} (hget : (bytes text)[position]? = some b)
    (hb : 128 ≤ b.toNat) (hclose : ∀ q, close = some q → q.toNat < 128) :
    step text ⟨position, close, found⟩ = .next ⟨position + 1, close, found⟩ := by
  have hwide := wide_ofUInt8 hb
  rw [step, hget]
  cases close with
  | some q =>
    dsimp only
    rw [if_neg (ne_of_wide hwide (hclose q rfl))]
  | none =>
    obtain ⟨hquestion, hsign⟩ := not_sign_of_wide hwide
    dsimp only
    rw [closing_of_wide hwide]
    dsimp only
    rw [if_neg hquestion, if_neg hsign]

/-- All bytes of longer characters are passed. -/
theorem run_wide {position : Nat} {bs rest : List UInt8}
    (hdrop : (bytes text).drop position = bs ++ rest) (hbs : ∀ b ∈ bs, 128 ≤ b.toNat)
    (hclose : ∀ q, close = some q → q.toNat < 128) (n : Nat) :
    run text (bs.length + n) ⟨position, close, found⟩ =
      run text n ⟨position + bs.length, close, found⟩ := by
  induction bs generalizing position with
  | nil => rw [List.length_nil, Nat.zero_add, Nat.add_zero]
  | cons b bs ih =>
    have hget : (bytes text)[position]? = some b := by
      rw [← List.head?_drop, hdrop]
      rfl
    have htail : (bytes text).drop (position + 1) = bs ++ rest := by
      rw [← List.drop_drop, hdrop]
      rfl
    rw [List.length_cons, Nat.add_right_comm, run, step_wide hget (hbs b List.mem_cons_self) hclose]
    dsimp only
    rw [ih htail fun b hb => hbs b (List.mem_cons_of_mem _ hb), Nat.add_assoc, Nat.add_comm 1]

/-- A character of one byte is seen as it is. -/
theorem step_narrow {c : Char} (h : text.toList = pre ++ c :: post) (hc : c.toNat < 128) :
    step text ⟨(utf8 pre).length, close, found⟩ =
      match close with
      | some q => .next ⟨(utf8 (pre ++ [c])).length, if c = q then none else some q, found⟩
      | none =>
        match closing? c with
        | some q => .next ⟨(utf8 (pre ++ [c])).length, some q, found⟩
        | none =>
          if c = '?' then .ended (.error .positionalPlaceholder)
          else if c = ':' || c = '@' || c = '$' then
            passSign text c ⟨(utf8 pre).length, none, found⟩
          else .next ⟨(utf8 (pre ++ [c])).length, none, found⟩ := by
  obtain ⟨b, hb, hread⟩ := utf8_narrow hc
  have hget : (bytes text)[(utf8 pre).length]? = some b := by
    rw [bytes_getElem? h, utf8_cons, hb]
    rfl
  rw [step, hget, length_utf8_narrow hc]
  simp only [hread]
  cases close <;> rfl

end ByteScan

/-! ### Names -/

/-- Names that were found, and those of further names that are new, each once. -/
def collected (found more : List String) : List String :=
  found ++ (more.filter (!found.contains ·)).eraseDups

theorem collected_start (more : List String) : collected [] more = more.eraseDups := by
  simp [collected]

theorem collected_nil (found : List String) : collected found [] = found := by
  simp [collected]

theorem collected_cons (found : List String) (name : String) (more : List String) :
    collected found (name :: more) =
      collected (if found.contains name then found else found ++ [name]) more := by
  by_cases h : found.contains name = true
  · rw [if_pos h, collected, List.filter_cons_of_neg (by rw [h]; exact Bool.false_ne_true),
      collected]
  · have hnew : ∀ other ∈ more,
        (!other == name && !found.contains other) = !(found ++ [name]).contains other := by
      intro other _
      rw [Bool.eq_iff_iff]
      simp [and_comm]
    rw [if_neg h, collected, List.filter_cons_of_pos (by simpa using h),
      List.eraseDups_cons, collected, List.filter_filter, List.filter_congr hnew, List.append_assoc,
      List.singleton_append]

/-- In the characters of a name the scan finds nothing. -/
theorem names_skip {word : List Char} (hword : ∀ c ∈ word, Text.isNameChar c = true)
    (rest : List Char) :
    names (unquoted none (word ++ rest)) = names (unquoted none rest) := by
  induction word with
  | nil => rfl
  | cons c word ih =>
    have hc := hword c List.mem_cons_self
    have hquote : closing? c = none := closing_of_isIdChar (isIdChar_of_isNameChar hc)
    have hquestion : c ≠ '?' := by rintro rfl; revert hc; decide
    have hsign : ¬ (c = ':' || c = '@' || c = '$') = true := by
      simp only [Bool.or_eq_true, decide_eq_true_eq]
      rintro ((rfl | rfl) | rfl) <;> revert hc <;> decide
    rw [List.cons_append, unquoted, hquote]
    dsimp only
    rw [names, if_neg hquestion, if_neg hsign, ih fun d hd => hword d (List.mem_cons_of_mem c hd)]

/-- A blank is passed. -/
theorem names_blank (cs : List Char) : names (' ' :: cs) = names cs := by
  rw [names]
  rfl

/-- Behind a name the scan finds what it finds from the front of the name on. -/
theorem names_dropWhile (cs : List Char) :
    names (unquoted none (cs.dropWhile Text.isNameChar)) = names (unquoted none cs) := by
  have hname : ∀ d ∈ cs.takeWhile Text.isNameChar, Text.isNameChar d = true :=
    List.all_eq_true.mp List.all_takeWhile
  rw [← names_skip hname, List.takeWhile_append_dropWhile]

/-- What the scan makes of a character outside of quotes that opens none. -/
theorem names_unquoted_cons {c : Char} (hc : closing? c = none) (cs : List Char) :
    names (unquoted none (c :: cs)) =
      if c = '?' then .error .positionalPlaceholder
      else if c = ':' || c = '@' || c = '$' then
        let name := cs.takeWhile Text.isNameChar
        if name = [] then names (unquoted none cs)
        else if c = ':' && Text.isIdentifierChars name then
          (names (unquoted none cs)).map (String.ofList name :: ·)
        else .error (.unsupportedPlaceholder c (String.ofList name))
      else names (unquoted none cs) := by
  rw [unquoted, hc]
  dsimp only
  rw [names, takeWhile_unquoted]
  simp only [List.isEmpty_iff]
  cases names (unquoted none cs) <;> rfl

/-- A character of several bytes is passed, in quotes and outside of them. -/
theorem names_wide {c : Char} (hc : 128 ≤ c.toNat) (close : Option Char)
    (hclose : ∀ q, close = some q → q.toNat < 128) (cs : List Char) :
    names (unquoted close (c :: cs)) = names (unquoted close cs) := by
  cases close with
  | some q => rw [unquoted, if_neg (ne_of_wide hc (hclose q rfl)), names_blank]
  | none =>
    obtain ⟨hquestion, hsign⟩ := not_sign_of_wide hc
    rw [names_unquoted_cons (closing_of_wide hc), if_neg hquestion, if_neg hsign]

namespace ByteScan

variable {text : String} {pre post : List Char} {close : Option Char} {found : List String}

structure At (text : String) (s : ByteScan) (post : List Char) : Prop where
  place : ∃ pre, text.toList = pre ++ post ∧ s.position = (utf8 pre).length
  narrow : ∀ q, s.close = some q → q.toNat < 128

/-- What was found, and what the scan over characters finds behind the place. -/
def rest (s : ByteScan) (post : List Char) : Except StatementFault (List String) :=
  (names (unquoted s.close post)).map (collected s.found)

theorem At.unquoted {position : Nat}
    (h : ∃ pre, text.toList = pre ++ post ∧ position = (utf8 pre).length) :
    At text ⟨position, none, found⟩ post := ⟨h, nofun⟩

/-- One step at a character of one byte: the scan stands behind the character, or behind the name
that the character is a sign of, or it ends with the fault of the scan over characters. -/
theorem step_cases {s : ByteScan} {c : Char} {cs : List Char} (h : s.At text (c :: cs))
    (hc : c.toNat < 128) :
        (∃ t post, s.step text = .next t ∧ t.At text post ∧
          (utf8 post).length < (utf8 (c :: cs)).length ∧
        t.rest post = s.rest (c :: cs)) ∨
      ∃ fault, s.step text = .ended (.error fault) ∧ s.rest (c :: cs) = .error fault := by
  obtain ⟨position, close, found⟩ := s
  obtain ⟨⟨pre, htext, hposition⟩, hclose⟩ := h
  dsimp only at hposition hclose
  subst hposition
  have hshort := length_utf8_cons c cs
  have hplace : text.toList = (pre ++ [c]) ++ cs := by
    rw [htext, List.append_assoc, List.singleton_append]
  rw [step_narrow htext hc]
  cases close with
  | some q =>
    refine .inl ⟨_, cs, rfl, ⟨⟨_, hplace, rfl⟩, fun r hr => ?_⟩, hshort, ?_⟩
    · dsimp only at hr
      split at hr <;> cases hr
      exact hclose q rfl
    · rw [rest, rest, unquoted, names_blank]
  | none =>
  cases hquote : closing? c with
  | some q =>
    refine .inl ⟨_, cs, rfl, ⟨⟨_, hplace, rfl⟩, fun r hr => ?_⟩, hshort, ?_⟩
    · cases hr
      exact (narrow_of_closing hquote).2
    · rw [rest, rest, unquoted, hquote, names_blank]
  | none =>
  rw [rest, names_unquoted_cons hquote]
  dsimp only
  by_cases hquestion : c = '?'
  · rw [if_pos hquestion, if_pos hquestion]
    exact .inr ⟨_, rfl, rfl⟩
  rw [if_neg hquestion, if_neg hquestion]
  by_cases hsign : (c = ':' || c = '@' || c = '$') = true
  · rw [if_pos hsign, if_pos hsign, passSign_utf8 htext hc]
    by_cases hname : cs.takeWhile Text.isNameChar = []
    · rw [if_pos hname, if_pos hname]
      exact .inl ⟨_, cs, rfl, .unquoted ⟨_, hplace, rfl⟩, hshort, rfl⟩
    rw [if_neg hname, if_neg hname]
    by_cases hidentifier : (c = ':' && Text.isIdentifierChars (cs.takeWhile Text.isNameChar)) = true
    · rw [if_pos hidentifier, if_pos hidentifier]
      have hsplit := List.takeWhile_append_dropWhile (p := Text.isNameChar) (l := cs)
      have hbehind :
          text.toList = (pre ++ c :: cs.takeWhile Text.isNameChar) ++
            cs.dropWhile Text.isNameChar := by
        rw [htext, List.append_assoc, List.cons_append, hsplit]
      have hle : (utf8 (cs.dropWhile Text.isNameChar)).length ≤ (utf8 cs).length := by
        rw [← congrArg utf8 hsplit, utf8_append, List.length_append]
        exact Nat.le_add_left _ _
      refine .inl ⟨_, _, rfl, .unquoted ⟨_, hbehind, rfl⟩, Nat.lt_of_le_of_lt hle hshort, ?_⟩
      rw [rest, names_dropWhile]
      cases names (unquoted none cs) with
      | error fault => rfl
      | ok more => exact congrArg Except.ok (collected_cons found _ more).symm
    · rw [if_neg hidentifier, if_neg hidentifier]
      exact .inr ⟨_, rfl, rfl⟩
  · rw [if_neg hsign, if_neg hsign]
    exact .inl ⟨_, cs, rfl, .unquoted ⟨_, hplace, rfl⟩, hshort, rfl⟩

/-- From a place between two characters the scan comes to its end, and it finds what the scan over
the characters finds behind the place. -/
theorem run_eq_rest (n : Nat) {s : ByteScan} (h : s.At text post) (hn : (utf8 post).length < n) :
    run text n s = .ended (s.rest post) := by
  induction n using Nat.strong_induction_on generalizing s post with
  | _ n ih =>
  cases post with
  | nil =>
    obtain ⟨n, rfl⟩ := Nat.exists_eq_succ_of_ne_zero (Nat.ne_zero_of_lt hn)
    obtain ⟨⟨pre, htext, hposition⟩, -⟩ := h
    have hget : (bytes text)[s.position]? = none := hposition ▸ bytes_getElem? htext
    rw [run, step, hget, rest]
    cases s.close <;> simp [unquoted, names, Except.map, collected_nil]
  | cons c cs =>
  rcases Nat.lt_or_ge c.toNat 128 with hnarrow | hwide
  · obtain ⟨n, rfl⟩ := Nat.exists_eq_succ_of_ne_zero (Nat.ne_zero_of_lt hn)
    rw [run]
    rcases step_cases h hnarrow with ⟨t, post, hstep, ht, hshort, hrest⟩ | ⟨fault, hstep, hrest⟩
    · rw [hstep, ← hrest]
      exact ih n (Nat.lt_succ_self n) ht (Nat.lt_of_lt_of_le hshort (Nat.le_of_lt_succ hn))
    · rw [hstep, hrest]
  · have hbytes : 0 < (String.utf8EncodeChar c).length :=
      List.length_pos_iff.mpr String.utf8EncodeChar_ne_nil
    rw [utf8_cons, List.length_append] at hn
    obtain ⟨m, rfl⟩ :=
      Nat.exists_eq_add_of_le (Nat.le_of_lt (Nat.lt_of_le_of_lt (Nat.le_add_right _ _) hn))
    obtain ⟨⟨pre, htext, hposition⟩, hclose⟩ := h
    have hdrop : (bytes text).drop s.position = String.utf8EncodeChar c ++ utf8 cs := by
      rw [hposition, bytes_drop htext, utf8_cons]
    have hnext : At text ⟨s.position + (String.utf8EncodeChar c).length, s.close, s.found⟩ cs := by
      refine ⟨⟨pre ++ [c], by rw [htext, List.append_assoc, List.singleton_append], ?_⟩, hclose⟩
      rw [hposition, utf8_append, List.length_append, utf8_cons, utf8_nil, List.append_nil]
    have hpassed : run text (_ + m) s = _ := run_wide hdrop (utf8_wide hwide) hclose m
    rw [hpassed, ih m (by omega) hnext (by omega), rest, rest, names_wide hwide s.close hclose]

/-- The scan over bytes comes to its end within one step more than there are bytes, without cutting
a character in two, and finds what the scan over characters finds. -/
theorem run_start (text : String) :
    run text ((bytes text).length + 1) start = .ended (placeholders text) := by
  have hstart : start.At text text.toList := .unquoted ⟨[], rfl, rfl⟩
  rw [run_eq_rest _ hstart (by rw [← bytes_eq]; exact Nat.lt_succ_self _), rest, placeholders]
  exact congrArg (fun collect => Outcome.ended ((names (unquoted none text.toList)).map collect))
    (funext collected_start)

end ByteScan

end TypedTables.Clause
