import TypedTables.Proofs.StatementParts

/-!
# The words of statements

Without text of the caller, the text of a statement has keywords, names, and a few characters
between them. Cut into words and signs it shows its parts one after the other.
-/
namespace TypedTables

open Text

/-- A statement. The definitions of a new table have text of their own. -/
def Statement.lexemes : Statement → List Lexeme
  | .createTable table definitions o => Text.lexemes (createTable table definitions o).text
  | .createIndex table index =>
    [.word "CREATE", .sign ' '] ++ keywordLexemes index.unique "UNIQUE" ++
      [.word "INDEX", .sign ' '] ++
      (if index.ifNotExists then
        [.word "IF", .sign ' ', .word "NOT", .sign ' ', .word "EXISTS", .sign ' '] else []) ++
      databaseLexemes table.database ++
      [.word index.name, .sign ' ', .word "ON", .sign ' ', .word table.table, .sign ' ',
        .sign '('] ++ listed (index.columns.map indexColumnLexemes) ++ [.sign ')']
  | .insert table columns conflict returned =>
    [.word "INSERT", .sign ' '] ++ conflictLexemes conflict ++ [.word "INTO", .sign ' '] ++
      table.lexemes ++ insertedLexemes columns ++ returned.lexemes
  | .select table selected distinct condition orderBy limit =>
    [.word "SELECT", .sign ' '] ++ keywordLexemes distinct "DISTINCT" ++ selected.lexemes ++
      [.sign ' ', .word "FROM", .sign ' '] ++ table.lexemes ++ condition.lexemes "" ++
      orderLexemes orderBy ++ limitLexemes limit
  | .update table set conflict condition =>
    [.word "UPDATE", .sign ' '] ++ conflictLexemes conflict ++ table.lexemes ++
      [.sign ' ', .word "SET", .sign ' '] ++ listed (set.map (assignmentLexemes "")) ++
      condition.lexemes whereMark
  | .delete table condition returned =>
    [.word "DELETE", .sign ' ', .word "FROM", .sign ' '] ++ table.lexemes ++
      condition.lexemes "" ++ returned.lexemes

namespace Statement

def indexKeywords : List String :=
  ["CREATE", "UNIQUE", "INDEX", "IF", "NOT", "EXISTS", "ON", "ASC", "DESC"]

def conflictKeywords : List String := ["OR", "ABORT", "FAIL", "IGNORE", "REPLACE", "ROLLBACK"]

def insertKeywords : List String :=
  ["INSERT", "INTO", "DEFAULT", "VALUES", "RETURNING"] ++ conflictKeywords

def selectKeywords : List String :=
  ["SELECT", "DISTINCT", "COUNT", "FROM", "WHERE", "AND", "ORDER", "BY", "ASC", "DESC", "LIMIT"]

def updateKeywords : List String := ["UPDATE", "SET", "WHERE", "AND"] ++ conflictKeywords

def deleteKeywords : List String := ["DELETE", "FROM", "WHERE", "AND", "RETURNING"]

/-- The fixed words of the kind that a statement has; a CREATE TABLE has text of its own. -/
def keywords : Statement → List String
  | createTable .. => []
  | createIndex .. => indexKeywords
  | insert .. => insertKeywords
  | select .. => selectKeywords
  | update .. => updateKeywords
  | delete .. => deleteKeywords

/-- The names that a statement has besides those of columns and of the table. -/
def ownNames (s : Schema) : Statement → List String
  | createIndex _ index => [index.name]
  | select .. => ["rowid", limitPlaceholder]
  | update .. => s.names.map (whereMark ++ ·)
  | _ => []

/-- What may stand in a statement: its keywords and names, and some characters between them. -/
def Allows (s : Schema) (table : TableName) (statement : Statement) : Lexeme → Prop
  | .word w => w ∈ statement.keywords ∨ w ∈ s.names ∨ w ∈ table.parts ∨ w ∈ statement.ownNames s
  | .sign c => c ∈ statementSigns

section

variable {s : Schema} {table : TableName} {statement : Statement} {name : String}

theorem allows_keyword (h : name ∈ statement.keywords) : statement.Allows s table (.word name) :=
  .inl h

theorem allows_column (h : name ∈ s.names) : statement.Allows s table (.word name) := .inr (.inl h)

theorem allows_own (h : name ∈ statement.ownNames s) : statement.Allows s table (.word name) :=
  .inr (.inr (.inr h))

theorem allows_table (h : name ∈ table.parts) : statement.Allows s table (.word name) :=
  .inr (.inr (.inl h))

theorem allows_sign {c : Char} (h : c ∈ statementSigns) : statement.Allows s table (.sign c) := h

/-- Only an UPDATE marks the placeholders of its condition. -/
theorem allows_unmarked : ∀ name ∈ s.names, statement.Allows s table (.word name) ∧
    statement.Allows s table (.word ("" ++ name)) := by
  intro name hname
  rw [String.empty_append]
  exact ⟨allows_column hname, allows_column hname⟩

end

variable {s : Schema} {table : TableName}

/-! ### CREATE INDEX -/

theorem lexemes_createIndex {index : IndexShape} (hname : isIdentifier index.name = true)
    (hcolumns : ∀ column ∈ index.columns, column.1 ∈ s.names) :
    Text.lexemes (createIndex table index).text = (createIndex table index).lexemes := by
  obtain ⟨hu, huclosed⟩ := lexemes_keywordIf index.unique "UNIQUE" (by decide)
  obtain ⟨hi, hiclosed⟩ := lexemes_ifNotExists index.ifNotExists
  obtain ⟨hd, hdclosed⟩ := lexemes_databaseText table.isIdentifier_database
  have hcreate : Text.lexemes "CREATE " = [.word "CREATE", .sign ' '] := by rfl
  have hindex : Text.lexemes "INDEX " = [.word "INDEX", .sign ' '] := by rfl
  have hon : Text.lexemes " ON " = [.sign ' ', .word "ON", .sign ' '] := by rfl
  have hopen : Text.lexemes " (" = [.sign ' ', .sign '('] := by rfl
  have hclose : Text.lexemes ")" = [.sign ')'] := by rfl
  have hlist : Text.lexemes (commas (index.columns.map indexColumnText)) =
      listed (index.columns.map indexColumnLexemes) :=
    lexemes_commas fun column hcolumn =>
      lexemes_indexColumn (Schema.isIdentifier_of_mem (hcolumns column hcolumn))
  have hfront : closedRight ("CREATE " ++ keywordIf index.unique "UNIQUE" ++ "INDEX " ++
      keywordIf index.ifNotExists "IF NOT EXISTS") = true :=
    closedRight_append (closedRight_append_right _ (by decide) (by decide)) hiclosed
  show Text.lexemes ("CREATE " ++ keywordIf index.unique "UNIQUE" ++ "INDEX " ++
    keywordIf index.ifNotExists "IF NOT EXISTS" ++ databaseText table.database ++
      index.name ++ " ON " ++
    table.table ++ " (" ++ commas (index.columns.map indexColumnText) ++ ")") = _
  rw [lexemes_append (.inr (by decide)),
    lexemes_append (.inl (closedRight_append_right _ (by decide) (by decide))),
    lexemes_append (.inr (by decide)),
    lexemes_append (.inl (closedRight_append_right _ (by decide) (by decide))),
    lexemes_append (.inr (by decide)), lexemes_append (.inl (closedRight_append hfront hdclosed)),
    lexemes_append (.inl hfront),
    lexemes_append (.inl (closedRight_append_right _ (by decide) (by decide))),
    lexemes_append (.inl (closedRight_append (by decide) huclosed)),
    lexemes_append (.inl (by decide)), hu, hi, hd, hcreate, hindex, hon, hopen, hclose, hlist,
    lexemes_identifier hname, lexemes_identifier table.isIdentifier_table]
  simp only [lexemes, List.append_assoc, List.cons_append, List.nil_append]

theorem allows_createIndex {index : IndexShape}
    (hcolumns : ∀ column ∈ index.columns, column.1 ∈ s.names) :
    ∀ l ∈ (createIndex table index).lexemes, (createIndex table index).Allows s table l := by
  have hspace : (createIndex table index).Allows s table (.sign ' ') := allows_sign (by decide)
  have hkeyword : ∀ w ∈ indexKeywords, (createIndex table index).Allows s table (.word w) :=
    fun _ h => allows_keyword h
  have hdirections : ∀ direction : Direction,
      (createIndex table index).Allows s table (.word direction.keyword) := by
    intro direction
    cases direction <;> exact hkeyword _ (by decide)
  simp only [lexemes, List.forall_mem_append, List.forall_mem_cons]
  refine ⟨⟨⟨⟨⟨⟨⟨⟨hkeyword _ (by decide), hspace, nofun⟩, ?_⟩, hkeyword _ (by decide),
    hspace, nofun⟩, ?_⟩, ?_⟩, allows_own (List.mem_singleton_self _), hspace,
    hkeyword _ (by decide), hspace,
    allows_table (List.mem_append_right _ (List.mem_singleton_self _)), hspace,
    allows_sign (by decide), nofun⟩, ?_⟩, allows_sign (by decide), nofun⟩
  · exact forall_mem_keyword (fun _ => allows_sign) _ (hkeyword _ (by decide))
  · split
    · simp only [List.forall_mem_cons]
      exact ⟨hkeyword _ (by decide), hspace, hkeyword _ (by decide), hspace,
        hkeyword _ (by decide), hspace, nofun⟩
    · nofun
  · refine forall_mem_database (fun _ => allows_sign) fun name hname => allows_table ?_
    exact List.mem_append_left _ (Option.mem_toList.mpr hname)
  · refine forall_mem_listed (fun _ => allows_sign) fun column hcolumn => ?_
    exact forall_mem_indexColumn (fun _ => allows_sign) hdirections
      (allows_column (hcolumns column hcolumn))

/-! ### INSERT -/

theorem lexemes_insert {columns : List String} {returned : Returned}
    (hcolumns : ∀ column ∈ columns, column ∈ s.names) (hreturned : returned.Declared s)
    (conflict : Option Conflict) :
    Text.lexemes (insert table columns conflict returned).text =
      (insert table columns conflict returned).lexemes := by
  obtain ⟨hr, hrclosed⟩ := Returned.lexemes_text hreturned
  obtain ⟨hc, hcclosed⟩ := lexemes_conflictText conflict
  obtain ⟨hi, hiclosed⟩ :=
    lexemes_insertedText fun c hc => Schema.isIdentifier_of_mem (hcolumns c hc)
  have hinsert : Text.lexemes "INSERT " = [.word "INSERT", .sign ' '] := by rfl
  have hinto : Text.lexemes "INTO " = [.word "INTO", .sign ' '] := by rfl
  show Text.lexemes ("INSERT " ++ conflictText conflict ++ "INTO " ++ table.text ++
    insertedText columns ++
    returned.text) = _
  rw [lexemes_append (.inr hrclosed), lexemes_append (.inr hiclosed),
    lexemes_append (.inl (closedRight_append_right _ (by decide) (by decide))),
    lexemes_append (.inl (closedRight_append (by decide) hcclosed)),
    lexemes_append (.inl (by decide)), hr, hc, hi, hinsert, hinto, table.lexemes_text]
  rfl

theorem allows_insert {columns : List String} {conflict : Option Conflict} {returned : Returned}
    (hcolumns : ∀ column ∈ columns, column ∈ s.names) (hreturned : returned.Declared s) :
    ∀ l ∈ (insert table columns conflict returned).lexemes,
      (insert table columns conflict returned).Allows s table l := by
  have hspace : (insert table columns conflict returned).Allows s table (.sign ' ') :=
    allows_sign (by decide)
  have hkeyword :
      ∀ w ∈ insertKeywords, (insert table columns conflict returned).Allows s table (.word w) :=
    fun _ h => allows_keyword h
  simp only [lexemes, List.forall_mem_append, List.forall_mem_cons]
  refine ⟨⟨⟨⟨⟨⟨hkeyword _ (by decide), hspace, nofun⟩, ?_⟩, hkeyword _ (by decide), hspace, nofun⟩,
    TableName.forall_mem_lexemes (fun _ => allows_sign) fun _ => allows_table⟩, ?_⟩, ?_⟩
  · refine forall_mem_conflict (fun _ => allows_sign) conflict (hkeyword _ (by decide))
      fun conflict => hkeyword _ ?_
    cases conflict <;> decide
  · exact forall_mem_inserted (fun _ => allows_sign) (hkeyword _ (by decide))
      (hkeyword _ (by decide))
      fun column hcolumn => allows_column (hcolumns column hcolumn)
  · exact Returned.forall_mem_lexemes (fun _ => allows_sign) hreturned (hkeyword _ (by decide))
      fun _ => allows_column

/-! ### SELECT -/

theorem lexemes_select {selected : Selected} {condition : Condition}
    {orderBy : List (String × Direction)} (hselected : selected.Declared s)
    (hcondition : condition.Declared s)
    (horder : ∀ key ∈ orderBy, key.1 = "rowid" ∨ key.1 ∈ s.names) (distinct limit : Bool) :
    Text.lexemes (select table selected distinct condition orderBy limit).text =
      (select table selected distinct condition orderBy limit).lexemes := by
  obtain ⟨hd, hdclosed⟩ := lexemes_keywordIf distinct "DISTINCT" (by decide)
  obtain ⟨hc, hcclosed⟩ := Condition.lexemes_text hcondition isMark_empty
  obtain ⟨ho, hoclosed⟩ := lexemes_orderText fun key hkey =>
    (horder key hkey).elim (fun hrowid => hrowid ▸ by decide) Schema.isIdentifier_of_mem
  obtain ⟨hl, hlclosed⟩ := lexemes_limitText limit
  have hselect : Text.lexemes "SELECT " = [.word "SELECT", .sign ' '] := by rfl
  have hfrom : Text.lexemes " FROM " = [.sign ' ', .word "FROM", .sign ' '] := by rfl
  show Text.lexemes ("SELECT " ++ keywordIf distinct "DISTINCT" ++ selected.text ++
    " FROM " ++ table.text ++
    condition.text "" ++ orderText orderBy ++ limitText limit) = _
  rw [lexemes_append (.inr hlclosed), lexemes_append (.inr hoclosed),
    lexemes_append (.inr hcclosed),
    lexemes_append (.inl (closedRight_append_right _ (by decide) (by decide))),
    lexemes_append (.inr (by decide)),
    lexemes_append (.inl (closedRight_append (by decide) hdclosed)),
    lexemes_append (.inl (by decide)), hd, hc, ho, hl, hselect, hfrom,
    Selected.lexemes_text hselected, table.lexemes_text]
  rfl

theorem allows_select {selected : Selected} {distinct : Bool} {condition : Condition}
    {orderBy : List (String × Direction)} {limit : Bool} (hselected : selected.Declared s)
    (hcondition : condition.Declared s) (hplain : condition.Plain)
    (horder : ∀ key ∈ orderBy, key.1 = "rowid" ∨ key.1 ∈ s.names) :
    ∀ l ∈ (select table selected distinct condition orderBy limit).lexemes,
      (select table selected distinct condition orderBy limit).Allows s table l := by
  have hspace :
      (select table selected distinct condition orderBy limit).Allows s table (.sign ' ') :=
    allows_sign (by decide)
  have hkeyword : ∀ w ∈ selectKeywords,
      (select table selected distinct condition orderBy limit).Allows s table (.word w) :=
    fun _ h => allows_keyword h
  have hrowid :
      (select table selected distinct condition orderBy limit).Allows s table (.word "rowid") :=
    allows_own (by simp [ownNames])
  simp only [lexemes, List.forall_mem_append, List.forall_mem_cons]
  refine ⟨⟨⟨⟨⟨⟨⟨⟨hkeyword _ (by decide), hspace, nofun⟩, ?_⟩, ?_⟩, hspace,
    hkeyword _ (by decide), hspace, nofun⟩,
    TableName.forall_mem_lexemes (fun _ => allows_sign) fun _ => allows_table⟩, ?_⟩, ?_⟩, ?_⟩
  · exact forall_mem_keyword (fun _ => allows_sign) _ (hkeyword _ (by decide))
  · exact Selected.forall_mem_lexemes (fun _ => allows_sign) hselected
      (hkeyword _ (by decide)) hrowid
      fun _ => allows_column
  · exact Condition.forall_mem_lexemes (fun _ => allows_sign) hplain hcondition
      (hkeyword _ (by decide))
      (hkeyword _ (by decide)) allows_unmarked
  · refine forall_mem_order (fun _ => allows_sign) (hkeyword _ (by decide))
      (hkeyword _ (by decide)) ?_ ?_
    · intro direction
      cases direction <;> exact hkeyword _ (by decide)
    · exact fun key hkey => (horder key hkey).elim (fun h => h ▸ hrowid) allows_column
  · exact forall_mem_limit (fun _ => allows_sign) limit (hkeyword _ (by decide))
      (allows_own (by simp [ownNames]))

/-! ### UPDATE -/

theorem lexemes_update {set : List String} {condition : Condition}
    (hset : ∀ column ∈ set, column ∈ s.names) (hcondition : condition.Declared s)
    (conflict : Option Conflict) :
    Text.lexemes (update table set conflict condition).text =
      (update table set conflict condition).lexemes := by
  obtain ⟨hk, hkclosed⟩ := lexemes_conflictText conflict
  obtain ⟨hc, hcclosed⟩ := Condition.lexemes_text hcondition isMark_whereMark
  have hupdate : Text.lexemes "UPDATE " = [.word "UPDATE", .sign ' '] := by rfl
  have hsets : Text.lexemes " SET " = [.sign ' ', .word "SET", .sign ' '] := by rfl
  have hlist : Text.lexemes (commas (set.map fun c => c ++ "=" ++ placeholder c)) =
      listed (set.map (assignmentLexemes "")) := by
    refine lexemes_commas fun c hc => ?_
    have hassignment := lexemes_assignment isMark_empty (Schema.isIdentifier_of_mem (hset c hc))
    rwa [String.empty_append] at hassignment
  show Text.lexemes ("UPDATE " ++ conflictText conflict ++ table.text ++ " SET " ++
    commas (set.map fun c => c ++ "=" ++ placeholder c) ++ condition.text whereMark) = _
  rw [lexemes_append (.inr hcclosed),
    lexemes_append (.inl (closedRight_append_right _ (by decide) (by decide))),
    lexemes_append (.inr (by decide)),
    lexemes_append (.inl (closedRight_append (by decide) hkclosed)),
    lexemes_append (.inl (by decide)), hk, hc, hupdate, hsets, hlist, table.lexemes_text]
  rfl

theorem allows_update {set : List String} {conflict : Option Conflict} {condition : Condition}
    (hset : ∀ column ∈ set, column ∈ s.names) (hcondition : condition.Declared s)
    (hplain : condition.Plain) :
    ∀ l ∈ (update table set conflict condition).lexemes,
    (update table set conflict condition).Allows s table l := by
  have hspace : (update table set conflict condition).Allows s table (.sign ' ') :=
    allows_sign (by decide)
  have hkeyword :
      ∀ w ∈ updateKeywords, (update table set conflict condition).Allows s table (.word w) :=
    fun _ h => allows_keyword h
  simp only [lexemes, List.forall_mem_append, List.forall_mem_cons]
  refine ⟨⟨⟨⟨⟨⟨hkeyword _ (by decide), hspace, nofun⟩, ?_⟩,
    TableName.forall_mem_lexemes (fun _ => allows_sign) fun _ => allows_table⟩, hspace,
    hkeyword _ (by decide), hspace,
    nofun⟩, ?_⟩, ?_⟩
  · refine forall_mem_conflict (fun _ => allows_sign) conflict (hkeyword _ (by decide))
      fun conflict => hkeyword _ ?_
    cases conflict <;> decide
  · refine forall_mem_listed (fun _ => allows_sign) fun name hname => ?_
    obtain ⟨hcolumn, hunmarked⟩ := allows_unmarked name (hset name hname)
    exact forall_mem_assignment (fun _ => allows_sign) hcolumn hunmarked
  · refine Condition.forall_mem_lexemes (fun _ => allows_sign) hplain hcondition
      (hkeyword _ (by decide))
      (hkeyword _ (by decide)) fun name hname => ⟨allows_column hname, allows_own ?_⟩
    exact List.mem_map_of_mem hname

/-! ### DELETE -/

theorem lexemes_delete {condition : Condition} {returned : Returned}
    (hcondition : condition.Declared s) (hreturned : returned.Declared s) :
    Text.lexemes (delete table condition returned).text =
      (delete table condition returned).lexemes := by
  obtain ⟨hc, hcclosed⟩ := Condition.lexemes_text hcondition isMark_empty
  obtain ⟨hr, hrclosed⟩ := Returned.lexemes_text hreturned
  have hdelete :
      Text.lexemes "DELETE FROM " = [.word "DELETE", .sign ' ', .word "FROM", .sign ' '] := by rfl
  show Text.lexemes ("DELETE FROM " ++ table.text ++ condition.text "" ++ returned.text) = _
  rw [lexemes_append (.inr hrclosed), lexemes_append (.inr hcclosed),
    lexemes_append (.inl (by decide)), hc, hr, hdelete, table.lexemes_text]
  rfl

theorem allows_delete {condition : Condition} {returned : Returned}
    (hcondition : condition.Declared s) (hplain : condition.Plain)
    (hreturned : returned.Declared s) :
    ∀ l ∈ (delete table condition returned).lexemes,
    (delete table condition returned).Allows s table l := by
  have hspace : (delete table condition returned).Allows s table (.sign ' ') :=
    allows_sign (by decide)
  have hkeyword :
      ∀ w ∈ deleteKeywords, (delete table condition returned).Allows s table (.word w) :=
    fun _ h => allows_keyword h
  simp only [lexemes, List.forall_mem_append, List.forall_mem_cons]
  refine ⟨⟨⟨⟨hkeyword _ (by decide), hspace, hkeyword _ (by decide), hspace, nofun⟩,
    TableName.forall_mem_lexemes (fun _ => allows_sign) fun _ => allows_table⟩, ?_⟩, ?_⟩
  · exact Condition.forall_mem_lexemes (fun _ => allows_sign) hplain hcondition
      (hkeyword _ (by decide))
      (hkeyword _ (by decide)) allows_unmarked
  · exact Returned.forall_mem_lexemes (fun _ => allows_sign) hreturned (hkeyword _ (by decide))
      fun _ => allows_column

/-! ### Every statement -/

/-- What the text of a statement is cut into. -/
theorem lexemes_text {statement : Statement} (h : statement.Declared s table) :
    Text.lexemes statement.text = statement.lexemes := by
  cases h with
  | createTable => rfl
  | createIndex hname _ hcolumns => exact lexemes_createIndex hname hcolumns
  | insert hcolumns hreturned => exact lexemes_insert hcolumns hreturned _
  | select hselected hcondition horder => exact lexemes_select hselected hcondition horder _ _
  | update _ hset hcondition => exact lexemes_update hset hcondition _
  | delete hcondition hreturned => exact lexemes_delete hcondition hreturned

/-- Without text of the caller a statement has only its keywords and names, and some characters
between them. -/
theorem allows_of_mem_lexemes {statement : Statement} (hdeclared : statement.Declared s table)
    (hplain : statement.Plain) : ∀ l ∈ statement.lexemes, statement.Allows s table l := by
  cases hdeclared with
  | createTable => exact hplain.elim
  | createIndex _ _ hcolumns => exact allows_createIndex hcolumns
  | insert hcolumns hreturned => exact allows_insert hcolumns hreturned
  | select hselected hcondition horder => exact allows_select hselected hcondition hplain horder
  | update _ hset hcondition => exact allows_update hset hcondition hplain
  | delete hcondition hreturned => exact allows_delete hcondition hplain hreturned

end Statement

/-- The characters of a text whose words and signs are known. -/
theorem mem_text_of_lexemes {text : String} {c : Char} (hc : c ∈ text.toList) :
    isNameChar c = true ∨ .sign c ∈ lexemes text := by
  rw [← flatMap_lexemes text, List.mem_flatMap] at hc
  obtain ⟨l, hl, hc⟩ := hc
  cases l with
  | word w => exact .inl (List.all_eq_true.mp (proper_of_mem_lexemes hl) c hc)
  | sign d =>
    rw [Lexeme.text, String.toList_singleton, List.mem_singleton] at hc
    exact .inr (hc ▸ hl)

theorem mem_words_iff {text w : String} : w ∈ words text ↔ .word w ∈ lexemes text := by
  rw [words, List.mem_filterMap]
  constructor
  · rintro ⟨l, hl, hw⟩
    cases l with
    | word w' =>
      cases hw
      exact hl
    | sign c => cases hw
  · exact fun h => ⟨_, h, rfl⟩

end TypedTables
