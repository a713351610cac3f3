import TypedTables.Text.Identifier

/-!
# Words and signs

A text cut into words, which are the runs of ASCII letters, digits and `_` in it, and the characters
between them. No text is lost, and two texts are cut apart where one of them has no word.
-/
namespace TypedTables

inductive Lexeme where
  | word (w : String)
  | sign (c : Char)
  deriving DecidableEq

namespace Lexeme

def text : Lexeme → String
  | .word w => w
  | .sign c => String.singleton c

def word? : Lexeme → Option String
  | .word w => some w
  | .sign _ => none

/-- A word of characters of names, or a character that stands in no name. -/
def Proper : Lexeme → Prop
  | .word w => w.toList.all Text.isNameChar = true
  | .sign c => Text.isNameChar c = false

end Lexeme

namespace Text

/-- Puts a character of a name in front of lexemes: it belongs to a word that stands there. -/
def addNameChar (c : Char) : List Lexeme → List Lexeme
  | .word w :: ls => .word (String.singleton c ++ w) :: ls
  | ls => .word (String.singleton c) :: ls

def addChar (c : Char) (ls : List Lexeme) : List Lexeme :=
  if isNameChar c then addNameChar c ls else .sign c :: ls

/-- The words of a text and the characters between them. -/
def lexemes (text : String) : List Lexeme := text.toList.foldr addChar []

def words (text : String) : List String := (lexemes text).filterMap Lexeme.word?

/-- Whether no word of a text goes on in what stands in front of it. -/
def closedLeft (text : String) : Bool := !text.toList.head?.any isNameChar

/-- Whether no word of a text goes on in what stands behind it. -/
def closedRight (text : String) : Bool := !text.toList.getLast?.any isNameChar

variable {a b text : String} {c : Char}

theorem addChar_name (h : isNameChar c = true) (ls : List Lexeme) :
    addChar c ls = addNameChar c ls := if_pos h

theorem addChar_sign (h : isNameChar c = false) (ls : List Lexeme) : addChar c ls = .sign c :: ls :=
  if_neg (h ▸ Bool.false_ne_true)

/-- What stands in front of lexemes: a word and then something, or else. -/
theorem addNameChar_cases (c : Char) (ls : List Lexeme) :
    (∃ w rest, ls = .word w :: rest ∧ addNameChar c ls = .word (String.singleton c ++ w) :: rest) ∨
      addNameChar c ls = .word (String.singleton c) :: ls := by
  rcases ls with _ | ⟨l, ls⟩
  · exact .inr rfl
  · cases l with
    | word w => exact .inl ⟨w, ls, rfl, rfl⟩
    | sign d => exact .inr rfl

theorem addChar_append_sign (d c : Char) (ls ms : List Lexeme) :
    addChar d (ls ++ .sign c :: ms) = addChar d ls ++ .sign c :: ms := by
  cases hd : isNameChar d with
  | false => rw [addChar_sign hd, addChar_sign hd, List.cons_append]
  | true =>
    rw [addChar_name hd, addChar_name hd]
    rcases ls with _ | ⟨l, ls⟩
    · rfl
    · cases l <;> rfl

theorem foldr_addChar_append (cs ds : List Char) (h : ds.head?.any isNameChar = false) :
    (cs ++ ds).foldr addChar [] = cs.foldr addChar [] ++ ds.foldr addChar [] := by
  rcases ds with _ | ⟨d, ds⟩
  · rw [List.append_nil, List.foldr_nil, List.append_nil]
  · rw [List.foldr_cons, addChar_sign h]
    induction cs with
    | nil => rw [List.nil_append, List.foldr_cons, addChar_sign h, List.foldr_nil, List.nil_append]
    | cons c cs ih =>
      rw [List.cons_append, List.foldr_cons, ih, addChar_append_sign, List.foldr_cons]

/-- Two texts are cut apart if no word goes on from the one into the other. -/
theorem lexemes_append (h : closedRight a = true ∨ closedLeft b = true) :
    lexemes (a ++ b) = lexemes a ++ lexemes b := by
  rw [lexemes, String.toList_append]
  rcases h with h | h
  · rw [closedRight, Bool.not_eq_true'] at h
    rw [lexemes, lexemes]
    rcases List.eq_nil_or_concat a.toList with hnil | ⟨cs, c, hcs⟩
    · rw [hnil]
      rfl
    · rw [hcs, List.concat_eq_append] at h ⊢
      rw [List.getLast?_concat] at h
      have hsign : ([c].head?).any isNameChar = false := h
      rw [List.append_assoc, foldr_addChar_append cs ([c] ++ b.toList) hsign,
        foldr_addChar_append cs [c] hsign, List.append_assoc, List.singleton_append,
        List.foldr_cons, addChar_sign h, List.foldr_cons, addChar_sign h, List.foldr_nil,
        List.singleton_append]
  · rw [closedLeft, Bool.not_eq_true'] at h
    exact foldr_addChar_append _ _ h

theorem closedLeft_append_left (hne : a ≠ "") (ha : closedLeft a = true) (b : String) :
    closedLeft (a ++ b) = true := by
  rw [closedLeft, String.toList_append]
  cases hcs : a.toList with
  | nil => exact absurd (String.toList_inj.mp hcs) hne
  | cons c cs =>
    rw [closedLeft, hcs] at ha
    exact ha

theorem closedRight_append_right (a : String) (hne : b ≠ "") (hb : closedRight b = true) :
    closedRight (a ++ b) = true := by
  rw [closedRight, String.toList_append]
  rcases List.eq_nil_or_concat b.toList with hnil | ⟨cs, c, hcs⟩
  · exact absurd (String.toList_inj.mp hnil) hne
  · rw [closedRight, hcs] at hb
    rw [hcs, List.concat_eq_append, ← List.append_assoc, List.getLast?_concat]
    rwa [List.concat_eq_append, List.getLast?_concat] at hb

theorem closedRight_append (ha : closedRight a = true) (hb : closedRight b = true) :
    closedRight (a ++ b) = true := by
  by_cases hne : b = ""
  · rwa [hne, String.append_empty]
  · exact closedRight_append_right a hne hb

/-- A word is cut out as a whole. -/
theorem lexemes_word {w : String} (hne : w ≠ "") (h : w.toList.all isNameChar = true) :
    lexemes w = [.word w] := by
  have hchars : ∀ cs : List Char, cs ≠ [] → cs.all isNameChar = true →
      cs.foldr addChar [] = [.word (String.ofList cs)] := by
    intro cs
    induction cs with
    | nil => exact fun hne => absurd rfl hne
    | cons c cs ih =>
      intro _ hall
      rw [List.all_cons, Bool.and_eq_true] at hall
      rw [List.foldr_cons, addChar_name hall.1]
      rcases cs with _ | ⟨d, cs⟩
      · rfl
      · rw [ih (List.cons_ne_nil _ _) hall.2, addNameChar, ← String.ofList_cons]
  rw [lexemes, hchars _ (fun hnil => hne (String.toList_inj.mp hnil)) h, String.ofList_toList]

theorem lexemes_identifier {w : String} (h : isIdentifier w = true) : lexemes w = [.word w] := by
  refine lexemes_word ?_ (all_isNameChar h)
  rintro rfl
  exact absurd h (by decide)

theorem proper_addChar (c : Char) {ls : List Lexeme} (h : ∀ l ∈ ls, l.Proper) :
    ∀ l ∈ addChar c ls, l.Proper := by
  cases hc : isNameChar c with
  | false =>
    rw [addChar_sign hc]
    exact List.forall_mem_cons.mpr ⟨hc, h⟩
  | true =>
    rw [addChar_name hc]
    rcases addNameChar_cases c ls with ⟨w, rest, rfl, hadded⟩ | hadded <;> rw [hadded]
    · obtain ⟨hw, hrest⟩ := List.forall_mem_cons.mp h
      refine List.forall_mem_cons.mpr ⟨?_, hrest⟩
      rw [Lexeme.Proper, String.toList_append, String.toList_singleton,
        List.singleton_append, List.all_cons, hc]
      exact hw
    · refine List.forall_mem_cons.mpr ⟨?_, h⟩
      rw [Lexeme.Proper, String.toList_singleton, List.all_cons, hc]
      rfl

/-- Every lexeme is a word of characters of names or a single character that stands in no name. -/
theorem proper_of_mem_lexemes {l : Lexeme} (h : l ∈ lexemes text) : l.Proper := by
  suffices hchars : ∀ cs : List Char, ∀ l ∈ cs.foldr addChar [], l.Proper from hchars _ l h
  intro cs
  induction cs with
  | nil => nofun
  | cons c cs ih => exact proper_addChar c ih

theorem flatMap_addChar (c : Char) (ls : List Lexeme) :
    (addChar c ls).flatMap (·.text.toList) = c :: ls.flatMap (·.text.toList) := by
  cases hc : isNameChar c with
  | false => rw [addChar_sign hc, List.flatMap_cons, Lexeme.text, String.toList_singleton,
      List.singleton_append]
  | true =>
    rw [addChar_name hc]
    rcases addNameChar_cases c ls with ⟨w, rest, rfl, hadded⟩ | hadded <;>
      rw [hadded, List.flatMap_cons]
    · rw [Lexeme.text, String.toList_append, String.toList_singleton, List.append_assoc,
        List.singleton_append]
      rfl
    · rw [Lexeme.text, String.toList_singleton, List.singleton_append]

/-- No text is lost. -/
theorem flatMap_lexemes (text : String) : (lexemes text).flatMap (·.text.toList) = text.toList := by
  rw [lexemes]
  induction text.toList with
  | nil => rfl
  | cons c cs ih => rw [List.foldr_cons, flatMap_addChar, ih]

end Text

end TypedTables
