import TypedTables.Proofs.DeclaredStatements
import TypedTables.Statement.Text
import TypedTables.Text.Lexemes

/-!
# The parts of statements

Every part of a statement has its words and signs: the clauses, the lists of names, the name of the
table. They are those that its text is cut into. A property of words and signs is shown for a part
by showing it for its keywords, for its names and for the few characters between them.
-/
namespace TypedTables

open Text

/-- Lexemes with a comma and a space between them. -/
def listed (items : List (List Lexeme)) : List Lexeme := [.sign ',', .sign ' '].intercalate items

def listedNames (names : List String) : List Lexeme := listed (names.map fun name => [.word name])

def keywordLexemes (asked : Bool) (word : String) : List Lexeme :=
  if asked then [.word word, .sign ' '] else []

def conflictLexemes : Option Conflict → List Lexeme
  | none => []
  | some conflict => [.word "OR", .sign ' ', .word conflict.keyword, .sign ' ']

def assignmentLexemes (mark name : String) : List Lexeme :=
  [.word name, .sign '=', .sign ':', .word (mark ++ name)]

def Condition.lexemes (mark : String) : Condition → List Lexeme
  | .always => []
  | .equalities columns => [.sign ' ', .word "WHERE", .sign ' '] ++
      [.sign ' ', .word "AND", .sign ' '].intercalate (columns.map (assignmentLexemes mark))
  | .clause text => Text.lexemes (" WHERE " ++ text)

def Returned.lexemes : Returned → List Lexeme
  | .nothing => []
  | .all => [.sign ' ', .word "RETURNING", .sign ' ', .sign '*']
  | .columns names => [.sign ' ', .word "RETURNING", .sign ' '] ++ listedNames names

def Selected.lexemes : Selected → List Lexeme
  | .columns names => listedNames names
  | .count => [.word "COUNT", .sign '(', .sign '*', .sign ')']
  | .rowidAndAll => [.word "rowid", .sign ',', .sign ' ', .sign '*']

def sortKeyLexemes (key : String × Direction) : List Lexeme :=
  [.word key.1, .sign ' ', .word key.2.keyword]

def indexColumnLexemes : String × Option Direction → List Lexeme
  | (name, none) => [.word name]
  | (name, some direction) => [.word name, .sign ' ', .word direction.keyword]

def orderLexemes : List (String × Direction) → List Lexeme
  | [] => []
  | keys => [.sign ' ', .word "ORDER", .sign ' ', .word "BY", .sign ' '] ++
      listed (keys.map sortKeyLexemes)

def limitLexemes (limit : Bool) : List Lexeme :=
  if limit then [.sign ' ', .word "LIMIT", .sign ' ', .sign ':', .word limitPlaceholder] else []

def databaseLexemes : Option String → List Lexeme
  | none => []
  | some database => [.word database, .sign '.']

def TableName.lexemes (n : TableName) : List Lexeme := databaseLexemes n.database ++ [.word n.table]

def insertedLexemes : List String → List Lexeme
  | [] => [.sign ' ', .word "DEFAULT", .sign ' ', .word "VALUES"]
  | columns => [.sign ' ', .sign '('] ++ listedNames columns ++
      [.sign ')', .sign ' ', .word "VALUES", .sign ' ', .sign '('] ++
      listed (columns.map fun c => [.sign ':', .word c]) ++ [.sign ')']

/-! ### What the text of a part is cut into -/
section

variable {s : Schema}

def IsMark (mark : String) : Prop := mark.toList.all isNameChar = true

theorem isMark_empty : IsMark "" := rfl

theorem isMark_whereMark : IsMark whereMark := by
  rw [IsMark]
  decide

theorem lexemes_marked {mark name : String} (hmark : IsMark mark) (h : isIdentifier name = true) :
    lexemes (mark ++ name) = [.word (mark ++ name)] := by
  refine lexemes_word ?_ ?_
  · intro hempty
    rw [String.append_eq_empty_iff] at hempty
    rw [hempty.2] at h
    exact absurd h (by decide)
  · rw [String.toList_append, List.all_append, Bool.and_eq_true]
    exact ⟨hmark, all_isNameChar h⟩

theorem lexemes_assignment {mark name : String} (hmark : IsMark mark)
    (h : isIdentifier name = true) :
    lexemes (name ++ "=" ++ placeholder (mark ++ name)) = assignmentLexemes mark name := by
  have hright : closedRight (name ++ "=") = true :=
    closedRight_append_right _ (by decide) (by decide)
  rw [placeholder, lexemes_append (.inl hright),
    lexemes_append (.inr (show closedLeft "=" = true by decide)),
    lexemes_append (.inl (show closedRight ":" = true by decide)), lexemes_identifier h,
    lexemes_marked hmark h]
  rfl

/-- Items with a separator between them that stands in no word. -/
theorem lexemes_intercalate {sep : String} (hne : sep ≠ "") (hleft : closedLeft sep = true)
    (hright : closedRight sep = true) (items : List String) :
    lexemes (String.intercalate sep items) = (lexemes sep).intercalate (items.map lexemes) := by
  induction items with
  | nil => rfl
  | cons item items ih =>
    rcases items with _ | ⟨item', items⟩
    · rw [String.intercalate_singleton, List.map_cons, List.map_nil, List.intercalate_singleton]
    · rw [String.intercalate_cons_cons,
        lexemes_append (.inl (closedRight_append_right item hne hright)),
        lexemes_append (.inr hleft), ih]
      simp only [List.map_cons, List.intercalate_cons_cons]

theorem lexemes_commas {α : Type} {f : α → String} {g : α → List Lexeme} {as : List α}
    (h : ∀ a ∈ as, lexemes (f a) = g a) : lexemes (commas (as.map f)) = listed (as.map g) := by
  have hsep : lexemes ", " = [.sign ',', .sign ' '] := by rfl
  rw [commas, lexemes_intercalate (by decide) (by decide) (by decide), hsep, listed, List.map_map]
  exact congrArg _ (List.map_congr_left h)

theorem lexemes_names {names : List String} (h : ∀ name ∈ names, isIdentifier name = true) :
    lexemes (commas names) = listedNames names := by
  have hmap := lexemes_commas (f := id) fun name hname => lexemes_identifier (h name hname)
  rwa [List.map_id] at hmap

theorem lexemes_keywordIf (asked : Bool) (word : String) (h : isIdentifier word = true) :
    lexemes (keywordIf asked word) = keywordLexemes asked word ∧
    closedRight (keywordIf asked word) = true := by
  cases asked with
  | false => exact ⟨rfl, rfl⟩
  | true =>
    have hspace : closedLeft " " = true := by decide
    refine ⟨?_, closedRight_append_right word (by decide) (by decide)⟩
    exact (lexemes_append (.inr hspace)).trans (by rw [lexemes_identifier h]; rfl)

theorem lexemes_ifNotExists (asked : Bool) :
    lexemes (keywordIf asked "IF NOT EXISTS") =
      (if asked then [.word "IF", .sign ' ', .word "NOT", .sign ' ', .word "EXISTS", .sign ' ']
        else []) ∧
    closedRight (keywordIf asked "IF NOT EXISTS") = true := by
  cases asked <;> exact ⟨rfl, rfl⟩

theorem lexemes_conflictText (conflict : Option Conflict) :
    lexemes (conflictText conflict) = conflictLexemes conflict ∧
    closedRight (conflictText conflict) = true := by
  rcases conflict with _ | conflict
  · exact ⟨rfl, rfl⟩
  · cases conflict <;> exact ⟨rfl, rfl⟩

theorem Condition.lexemes_text {condition : Condition} (h : condition.Declared s) {mark : String}
    (hmark : IsMark mark) :
    Text.lexemes (condition.text mark) = condition.lexemes mark ∧
    closedLeft (condition.text mark) = true := by
  cases condition with
  | always => exact ⟨rfl, rfl⟩
  | equalities columns =>
    refine ⟨?_, closedLeft_append_left (by decide) (by decide) _⟩
    have hwhere : Text.lexemes " WHERE " = [.sign ' ', .word "WHERE", .sign ' '] := by rfl
    have hand : Text.lexemes " AND " = [.sign ' ', .word "AND", .sign ' '] := by rfl
    rw [text, lexemes_append (.inl (by decide)),
      lexemes_intercalate (by decide) (by decide) (by decide), hwhere, hand, List.map_map]
    refine congrArg (_ ++ [_, _, _].intercalate ·) (List.map_congr_left fun c hc => ?_)
    exact lexemes_assignment hmark (Schema.isIdentifier_of_mem (h.2 c hc))
  | clause text => exact ⟨rfl, closedLeft_append_left (by decide) (by decide) _⟩

theorem Returned.lexemes_text {returned : Returned} (h : returned.Declared s) :
    Text.lexemes returned.text = returned.lexemes ∧ closedLeft returned.text = true := by
  cases returned with
  | nothing => exact ⟨rfl, rfl⟩
  | all => exact ⟨rfl, rfl⟩
  | columns names =>
    refine ⟨?_, closedLeft_append_left (by decide) (by decide) _⟩
    have hreturning : Text.lexemes " RETURNING " = [.sign ' ', .word "RETURNING", .sign ' '] := by
      rfl
    rw [text, lexemes_append (.inl (by decide)), hreturning,
      lexemes_names fun name hname => Schema.isIdentifier_of_mem (h.2 name hname)]
    rfl

theorem Selected.lexemes_text {selected : Selected} (h : selected.Declared s) :
    Text.lexemes selected.text = selected.lexemes := by
  cases selected with
  | columns names => exact lexemes_names fun name hname =>
    Schema.isIdentifier_of_mem (h.2 name hname)
  | count => rfl
  | rowidAndAll => rfl

theorem Direction.lexemes_keyword (direction : Direction) :
    Text.lexemes direction.keyword = [.word direction.keyword] := by
  cases direction <;> rfl

/-- A name and a direction with a space between them. -/
theorem lexemes_directed {name : String} (h : isIdentifier name = true) (direction : Direction) :
    lexemes (name ++ " " ++ direction.keyword) =
      [.word name, .sign ' ', .word direction.keyword] := by
  have hspace : lexemes " " = [.sign ' '] := by rfl
  rw [lexemes_append (.inl (closedRight_append_right name (by decide) (by decide))),
    lexemes_append (.inr (by decide)), lexemes_identifier h, hspace, direction.lexemes_keyword]
  rfl

theorem lexemes_indexColumn {column : String × Option Direction}
    (h : isIdentifier column.1 = true) :
    lexemes (indexColumnText column) = indexColumnLexemes column := by
  obtain ⟨name, _ | direction⟩ := column
  · exact lexemes_identifier h
  · exact lexemes_directed h direction

def orderText (keys : List (String × Direction)) : String :=
  if keys.isEmpty then "" else " ORDER BY " ++ commas (keys.map sortKeyText)

theorem lexemes_orderText {keys : List (String × Direction)}
    (h : ∀ key ∈ keys, isIdentifier key.1 = true) :
    lexemes (orderText keys) = orderLexemes keys ∧ closedLeft (orderText keys) = true := by
  rcases keys with _ | ⟨key, keys⟩
  · exact ⟨rfl, rfl⟩
  · refine ⟨?_, closedLeft_append_left (by decide) (by decide) _⟩
    have horder :
        lexemes " ORDER BY " = [.sign ' ', .word "ORDER", .sign ' ', .word "BY", .sign ' '] := by
          rfl
    have hkeys : lexemes (commas ((key :: keys).map sortKeyText)) =
        listed ((key :: keys).map sortKeyLexemes) :=
      lexemes_commas fun key hkey => lexemes_directed (h key hkey) key.2
    show lexemes (" ORDER BY " ++ _) = _
    rw [lexemes_append (.inl (by decide)), horder, hkeys]
    rfl

def limitText (limit : Bool) : String :=
  if limit then " LIMIT " ++ placeholder limitPlaceholder else ""

theorem lexemes_limitText (limit : Bool) :
    lexemes (limitText limit) = limitLexemes limit ∧ closedLeft (limitText limit) = true := by
  cases limit <;> exact ⟨rfl, rfl⟩

def databaseText : Option String → String
  | some database => database ++ "."
  | none => ""

theorem lexemes_databaseText {database : Option String}
    (h : ∀ d ∈ database, isIdentifier d = true) :
    lexemes (databaseText database) = databaseLexemes database ∧
    closedRight (databaseText database) = true := by
  rcases database with _ | database
  · exact ⟨rfl, rfl⟩
  · refine ⟨?_, closedRight_append_right _ (by decide) (by decide)⟩
    have hpoint : lexemes "." = [.sign '.'] := by rfl
    rw [databaseText, lexemes_append (.inr (by decide)),
      lexemes_identifier (h database rfl), hpoint]
    rfl

theorem TableName.text_eq (n : TableName) : n.text = databaseText n.database ++ n.table := by
  rw [text]
  cases n.database with
  | none => exact String.empty_append.symm
  | some d => rfl

theorem TableName.lexemes_text (n : TableName) : Text.lexemes n.text = n.lexemes := by
  obtain ⟨hdatabase, hclosed⟩ := lexemes_databaseText n.isIdentifier_database
  rw [n.text_eq, lexemes_append (.inl hclosed), hdatabase, lexemes_identifier n.isIdentifier_table]
  rfl

def insertedText (columns : List String) : String :=
  if columns.isEmpty then " DEFAULT VALUES"
  else " (" ++ commas columns ++ ") VALUES (" ++ commas (columns.map placeholder) ++ ")"

theorem lexemes_insertedText {columns : List String} (h : ∀ c ∈ columns, isIdentifier c = true) :
    lexemes (insertedText columns) = insertedLexemes columns ∧
    closedLeft (insertedText columns) = true := by
  rcases columns with _ | ⟨c, cs⟩
  · exact ⟨rfl, rfl⟩
  · have hopen : lexemes " (" = [.sign ' ', .sign '('] := by rfl
    have hvalues :
        lexemes ") VALUES (" = [.sign ')', .sign ' ', .word "VALUES", .sign ' ', .sign '('] := by
          rfl
    have hclose : lexemes ")" = [.sign ')'] := by rfl
    have hplaceholder : ∀ name ∈ c :: cs, lexemes (placeholder name) = [.sign ':', .word name] := by
      intro name hname
      rw [placeholder, lexemes_append (.inl (by decide)), lexemes_identifier (h name hname)]
      rfl
    refine ⟨?_, ?_⟩
    · show lexemes (" (" ++ commas (c :: cs) ++ ") VALUES (" ++
        commas ((c :: cs).map placeholder) ++ ")") = _
      rw [lexemes_append (.inr (by decide)),
        lexemes_append (.inl (closedRight_append_right _ (by decide) (by decide))),
        lexemes_append (.inr (by decide)), lexemes_append (.inl (by decide)),
        hopen, hvalues, hclose, lexemes_names h, lexemes_commas hplaceholder]
      rfl
    · show closedLeft (" (" ++ commas (c :: cs) ++ ") VALUES (" ++
        commas ((c :: cs).map placeholder) ++ ")") = true
      rw [String.append_assoc, String.append_assoc, String.append_assoc]
      exact closedLeft_append_left (by decide) (by decide) _

end

/-! ### A property of the words and signs of a part -/

def statementSigns : List Char := [' ', ',', '(', ')', ':', '=', '*', '.']

def TableName.parts (n : TableName) : List String := n.database.toList ++ [n.table]

section

variable {P : Lexeme → Prop}

theorem forall_mem_intercalate {sep : List Lexeme} (hsep : ∀ l ∈ sep, P l)
    {items : List (List Lexeme)} (h : ∀ item ∈ items, ∀ l ∈ item, P l) :
    ∀ l ∈ sep.intercalate items, P l := by
  induction items with
  | nil => nofun
  | cons item items ih =>
    obtain ⟨hitem, hitems⟩ := List.forall_mem_cons.mp h
    rcases items with _ | ⟨item', items⟩
    · rwa [List.intercalate_singleton]
    · rw [List.intercalate_cons_cons, List.forall_mem_append, List.forall_mem_append]
      exact ⟨⟨hitem, hsep⟩, ih hitems⟩

variable (hsigns : ∀ c ∈ statementSigns, P (.sign c))

include hsigns

theorem forall_mem_listed {α : Type} {g : α → List Lexeme} {as : List α}
    (h : ∀ a ∈ as, ∀ l ∈ g a, P l) :
    ∀ l ∈ listed (as.map g), P l := by
  refine forall_mem_intercalate ?_ (List.forall_mem_map.mpr h)
  exact List.forall_mem_cons.mpr ⟨hsigns _ (by decide),
    List.forall_mem_singleton.mpr (hsigns _ (by decide))⟩

theorem forall_mem_listedNames {names : List String} (h : ∀ name ∈ names, P (.word name)) :
    ∀ l ∈ listedNames names, P l :=
  forall_mem_listed hsigns fun name hname => List.forall_mem_singleton.mpr (h name hname)

theorem forall_mem_assignment {mark name : String} (hname : P (.word name))
    (hmarked : P (.word (mark ++ name))) :
    ∀ l ∈ assignmentLexemes mark name, P l := by
  simp only [assignmentLexemes, List.forall_mem_cons]
  exact ⟨hname, hsigns _ (by decide), hsigns _ (by decide), hmarked, nofun⟩

/-- A keyword with a space on both sides. -/
theorem forall_mem_spaced {word : String} (h : P (.word word)) :
    ∀ l ∈ [.sign ' ', .word word, .sign ' '], P l := by
  have hspace := hsigns ' ' (by decide)
  simp only [List.forall_mem_cons]
  exact ⟨hspace, h, hspace, nofun⟩

theorem Condition.forall_mem_lexemes {s : Schema} {condition : Condition} (hplain : condition.Plain)
    (hdeclared : condition.Declared s) {mark : String} (hwhere : P (.word "WHERE"))
    (hand : P (.word "AND"))
    (hnames : ∀ name ∈ s.names, P (.word name) ∧ P (.word (mark ++ name))) :
    ∀ l ∈ condition.lexemes mark, P l := by
  cases condition with
  | always => nofun
  | equalities columns =>
    refine List.forall_mem_append.mpr ⟨forall_mem_spaced hsigns hwhere, ?_⟩
    refine forall_mem_intercalate (forall_mem_spaced hsigns hand)
      (List.forall_mem_map.mpr fun column hcolumn => ?_)
    obtain ⟨hname, hmarked⟩ := hnames column (hdeclared.2 column hcolumn)
    exact forall_mem_assignment hsigns hname hmarked
  | clause text => exact hplain.elim

theorem Returned.forall_mem_lexemes {s : Schema} {returned : Returned}
    (hdeclared : returned.Declared s) (hreturning : P (.word "RETURNING"))
    (hnames : ∀ name ∈ s.names, P (.word name)) :
    ∀ l ∈ returned.lexemes, P l := by
  cases returned with
  | nothing => nofun
  | all =>
    simp only [lexemes, List.forall_mem_cons]
    exact ⟨hsigns _ (by decide), hreturning, hsigns _ (by decide), hsigns _ (by decide), nofun⟩
  | columns names =>
    refine List.forall_mem_append.mpr ⟨forall_mem_spaced hsigns hreturning, ?_⟩
    exact forall_mem_listedNames hsigns fun name hname => hnames name (hdeclared.2 name hname)

theorem Selected.forall_mem_lexemes {s : Schema} {selected : Selected}
    (hdeclared : selected.Declared s) (hcount : P (.word "COUNT"))
    (hrowid : P (.word "rowid")) (hnames : ∀ name ∈ s.names, P (.word name)) :
    ∀ l ∈ selected.lexemes, P l := by
  cases selected with
  | columns names =>
    exact forall_mem_listedNames hsigns fun name hname => hnames name (hdeclared.2 name hname)
  | count =>
    simp only [lexemes, List.forall_mem_cons]
    exact ⟨hcount, hsigns _ (by decide), hsigns _ (by decide), hsigns _ (by decide), nofun⟩
  | rowidAndAll =>
    simp only [lexemes, List.forall_mem_cons]
    exact ⟨hrowid, hsigns _ (by decide), hsigns _ (by decide), hsigns _ (by decide), nofun⟩

theorem forall_mem_order {keys : List (String × Direction)} (horder : P (.word "ORDER"))
    (hby : P (.word "BY")) (hdirections : ∀ direction : Direction, P (.word direction.keyword))
    (h : ∀ key ∈ keys, P (.word key.1)) :
    ∀ l ∈ orderLexemes keys, P l := by
  have hspace := hsigns ' ' (by decide)
  rcases keys with _ | ⟨key, keys⟩
  · nofun
  · refine List.forall_mem_append.mpr ⟨?_, forall_mem_listed hsigns fun key hkey => ?_⟩
    · simp only [List.forall_mem_cons]
      exact ⟨hspace, horder, hspace, hby, hspace, nofun⟩
    · simp only [sortKeyLexemes, List.forall_mem_cons]
      exact ⟨h key hkey, hspace, hdirections key.2, nofun⟩

theorem forall_mem_indexColumn {column : String × Option Direction}
    (hdirections : ∀ direction : Direction, P (.word direction.keyword)) (h : P (.word column.1)) :
    ∀ l ∈ indexColumnLexemes column, P l := by
  obtain ⟨name, _ | direction⟩ := column
  · exact List.forall_mem_singleton.mpr h
  · simp only [indexColumnLexemes, List.forall_mem_cons]
    exact ⟨h, hsigns _ (by decide), hdirections direction, nofun⟩

theorem forall_mem_limit (limit : Bool) (hlimit : P (.word "LIMIT"))
    (hname : P (.word limitPlaceholder)) :
    ∀ l ∈ limitLexemes limit, P l := by
  cases limit with
  | false => nofun
  | true =>
    simp only [limitLexemes, if_true, List.forall_mem_cons]
    exact ⟨hsigns _ (by decide), hlimit, hsigns _ (by decide), hsigns _ (by decide), hname, nofun⟩

theorem forall_mem_keyword (asked : Bool) {word : String} (h : P (.word word)) :
    ∀ l ∈ keywordLexemes asked word, P l := by
  cases asked with
  | false => nofun
  | true =>
    simp only [keywordLexemes, if_true, List.forall_mem_cons]
    exact ⟨h, hsigns _ (by decide), nofun⟩

theorem forall_mem_conflict (conflict : Option Conflict) (hor : P (.word "OR"))
    (hkeyword : ∀ conflict : Conflict, P (.word conflict.keyword)) :
    ∀ l ∈ conflictLexemes conflict, P l := by
  have hspace := hsigns ' ' (by decide)
  rcases conflict with _ | conflict
  · nofun
  · simp only [conflictLexemes, List.forall_mem_cons]
    exact ⟨hor, hspace, hkeyword conflict, hspace, nofun⟩

theorem forall_mem_database {database : Option String} (h : ∀ name ∈ database, P (.word name)) :
    ∀ l ∈ databaseLexemes database, P l := by
  rcases database with _ | name
  · nofun
  · simp only [databaseLexemes, List.forall_mem_cons]
    exact ⟨h name rfl, hsigns _ (by decide), nofun⟩

theorem TableName.forall_mem_lexemes {n : TableName} (h : ∀ name ∈ n.parts, P (.word name)) :
    ∀ l ∈ n.lexemes, P l := by
  rw [parts, List.forall_mem_append] at h
  refine List.forall_mem_append.mpr ⟨forall_mem_database hsigns fun name hname => ?_, ?_⟩
  · exact h.1 name (Option.mem_toList.mpr hname)
  · exact List.forall_mem_singleton.mpr (h.2 _ (List.mem_singleton_self _))

theorem forall_mem_inserted {columns : List String} (hdefault : P (.word "DEFAULT"))
    (hvalues : P (.word "VALUES")) (h : ∀ column ∈ columns, P (.word column)) :
    ∀ l ∈ insertedLexemes columns, P l := by
  have hspace := hsigns ' ' (by decide)
  have hopen := hsigns '(' (by decide)
  have hclose := hsigns ')' (by decide)
  rcases columns with _ | ⟨column, columns⟩
  · simp only [insertedLexemes, List.forall_mem_cons]
    exact ⟨hspace, hdefault, hspace, hvalues, nofun⟩
  · simp only [insertedLexemes, List.forall_mem_append, List.forall_mem_cons]
    refine ⟨⟨⟨⟨⟨hspace, hopen, nofun⟩, forall_mem_listedNames hsigns h⟩,
      hclose, hspace, hvalues, hspace, hopen, nofun⟩, ?_⟩, hclose, nofun⟩
    refine forall_mem_listed hsigns fun name hname => ?_
    simp only [List.forall_mem_cons]
    exact ⟨hsigns _ (by decide), h name hname, nofun⟩

end

end TypedTables
