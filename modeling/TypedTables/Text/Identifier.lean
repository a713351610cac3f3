/-!
# Plain identifiers

A name that may stand in the text of a statement without quotes: an ASCII letter or `_`, then ASCII
letters, digits and `_`. The test looks at the whole name, a line break at its end included.
-/
namespace TypedTables.Text

def isNameStart (c : Char) : Bool := c.isAlpha || c == '_'

def isNameChar (c : Char) : Bool := c.isAlphanum || c == '_'

def isIdentifierChars : List Char → Bool
  | [] => false
  | c :: cs => isNameStart c && cs.all isNameChar

/-- Whether `name` can stand in the text of a statement as it is. -/
def isIdentifier (name : String) : Bool := isIdentifierChars name.toList

theorem isNameChar_of_isNameStart {c : Char} (h : isNameStart c = true) : isNameChar c = true := by
  simp only [isNameStart, isNameChar, Char.isAlphanum, Bool.or_eq_true] at *
  rcases h with h | h
  · exact .inl (.inl h)
  · exact .inr h

/-- Every character of an identifier is a letter, a digit or `_`. -/
theorem all_isNameChar {cs : List Char} (h : isIdentifierChars cs = true) :
    cs.all isNameChar = true := by
  cases cs with
  | nil => simp [isIdentifierChars] at h
  | cons c cs =>
    simp only [isIdentifierChars, Bool.and_eq_true] at h
    simp [isNameChar_of_isNameStart h.1, h.2]

end TypedTables.Text
