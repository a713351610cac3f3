import TypedTables.Proofs.ScannedTexts
import TypedTables.Proofs.StatementWords

/-!
# Placeholders of a statement

A statement shows a placeholder for each value: those of the inserted or assigned columns, those of
its condition and that of its limit. A scan of its text finds these, if quoted text in the clause of
the caller is blanked, and the engine reads them there, if the clause closes its quotes and the text
is legible.
-/
namespace TypedTables

open Text

namespace Condition

def placeholders (mark : String) : Condition → Except StatementFault (List String)
  | .always => .ok []
  | .equalities columns => .ok (columns.map (mark ++ ·))
  | .clause text => Clause.names (Clause.unquoted none text.toList)

/-- The condition with blanks in place of the quoted text of its clause. -/
def unquoted : Condition → Condition
  | .clause text => .clause (String.ofList (Clause.unquoted none text.toList))
  | condition => condition

end Condition

namespace Statement

def isDefinition : Statement → Bool
  | .createTable .. | .createIndex .. => true
  | _ => false

def placeholders : Statement → Except StatementFault (List String)
  | .createTable .. | .createIndex .. => .ok []
  | .insert _ columns _ _ => .ok columns
  | .select _ _ _ condition _ limit =>
    (condition.placeholders "").map (· ++ if limit then [limitPlaceholder] else [])
  | .update _ set _ condition => (condition.placeholders whereMark).map (set ++ ·)
  | .delete _ condition _ => condition.placeholders ""

def withCondition (condition : Condition) : Statement → Statement
  | .select table selected distinct _ orderBy limit =>
    .select table selected distinct condition orderBy limit
  | .update table set conflict _ => .update table set conflict condition
  | .delete table _ returned => .delete table condition returned
  | statement => statement

def unquoted (statement : Statement) : Statement :=
  match statement.condition? with
  | some condition => statement.withCondition condition.unquoted
  | none => statement

end Statement

/-! ### What the scan finds -/

section

open Clause

variable {s : Schema} {mark name : String} {ns : List String}

theorem isIdentifier_whereMark (h : isIdentifier name = true) :
    isIdentifier (whereMark ++ name) = true := by
  rw [isIdentifier, String.toList_append]
  show isIdentifierChars ('_' :: ("_where_".toList ++ name.toList)) = true
  rw [isIdentifierChars, List.all_append, all_isNameChar h]
  decide

theorem calm_comma : Calm [.sign ',', .sign ' '] := rfl

theorem calm_listed {α : Type} {g : α → List Lexeme} {as : List α} (h : ∀ a ∈ as, Calm (g a)) :
    Calm (listed (as.map g)) := calm_intercalate calm_comma (List.forall_mem_map.mpr h)

theorem calm_listedNames (names : List String) : Calm (listedNames names) :=
  calm_listed fun _ _ => rfl

theorem calm_keyword (asked : Bool) (word : String) : Calm (keywordLexemes asked word) := by
  cases asked <;> rfl

theorem calm_conflict (conflict : Option Conflict) : Calm (conflictLexemes conflict) := by
  cases conflict <;> rfl

theorem calm_table (table : TableName) : Calm table.lexemes := by
  refine Calm.append ?_ rfl
  cases table.database <;> rfl

theorem calm_selected (selected : Selected) : Calm selected.lexemes := by
  cases selected with
  | columns names => exact calm_listedNames names
  | _ => rfl

theorem calm_returned (returned : Returned) : Calm returned.lexemes := by
  cases returned with
  | columns names => exact Calm.append (by rfl) (calm_listedNames names)
  | _ => rfl

theorem calm_order (keys : List (String × Direction)) : Calm (orderLexemes keys) := by
  cases keys with
  | nil => rfl
  | cons key keys => exact Calm.append (by rfl) (calm_listed fun _ _ => rfl)

theorem finds_assignment (h : isIdentifier (mark ++ name) = true) :
    Finds (assignmentLexemes mark name) [mark ++ name] := by
  have hname : Finds [.word name, .sign '='] [] := Calm.finds rfl
  exact hname.append (finds_placeholder h)

theorem finds_limit (limit : Bool) :
    Finds (limitLexemes limit) (if limit then [limitPlaceholder] else []) := by
  cases limit with
  | false => exact finds_nil
  | true =>
    have hlimit : Finds [.sign ' ', .word "LIMIT", .sign ' '] [] := Calm.finds rfl
    exact hlimit.append (finds_placeholder (by decide))

theorem finds_inserted {columns : List String}
    (h : ∀ column ∈ columns, isIdentifier column = true) :
    Finds (insertedLexemes columns) columns := by
  rcases columns with _ | ⟨column, columns⟩
  · exact Calm.finds rfl
  · have hnames : Calm ([.sign ' ', .sign '('] ++ listedNames (column :: columns) ++
        [.sign ')', .sign ' ', .word "VALUES", .sign ' ', .sign '(']) :=
      (Calm.append (by rfl) (calm_listedNames _)).append (by rfl)
    have hplaceholders : Finds (listed ((column :: columns).map fun c => [.sign ':', .word c]))
        ((column :: columns).map id) :=
      finds_intercalate calm_comma fun c hc => finds_placeholder (h c hc)
    have hclose : Finds [.sign ')'] [] := Calm.finds rfl
    have hall := (hnames.finds.append hplaceholders).append hclose
    rwa [List.map_id, List.nil_append, List.append_nil] at hall

/-- What the scan finds in a condition, if it accepts the text of the caller in it. -/
theorem scan_condition {condition : Condition} (hdeclared : condition.Declared s)
    (hmark : ∀ column ∈ s.names, isIdentifier (mark ++ column) = true)
    (h : condition.placeholders mark = .ok ns) :
    scan (condition.unquoted.lexemes mark) = .ok ns := by
  cases condition with
  | always => exact h
  | equalities columns =>
    cases h
    have hwhere : Finds [.sign ' ', .word "WHERE", .sign ' '] [] := Calm.finds rfl
    have hcolumns :
        Finds ([.sign ' ', .word "AND", .sign ' '].intercalate
          (columns.map (assignmentLexemes mark)))
        (columns.map (mark ++ ·)) :=
      finds_intercalate (by rfl) fun column hcolumn =>
        finds_assignment (hmark column (hdeclared.2 column hcolumn))
    exact (hwhere.append hcolumns).scan_eq
  | clause text =>
    have hwhere : Finds (lexemes " WHERE ") [] := Calm.finds rfl
    show scan (lexemes (" WHERE " ++ String.ofList (Clause.unquoted none text.toList))) = .ok ns
    rw [lexemes_append (.inl (by decide)), hwhere, ← names_toList, String.toList_ofList]
    rw [Condition.placeholders] at h
    rw [h]
    rfl

theorem firstWord?_order (keys : List (String × Direction)) (limit : Bool) :
    firstWord? (orderLexemes keys ++ limitLexemes limit) = none := by
  cases keys <;> cases limit <;> rfl

theorem firstWord?_returned (returned : Returned) : firstWord? returned.lexemes = none := by
  cases returned <;> rfl

end

namespace Condition

theorem Declared.unquoted {s : Schema} {condition : Condition} (h : condition.Declared s) :
    condition.unquoted.Declared s := by
  cases condition <;> exact h

end Condition

namespace Statement

open Clause

variable {s : Schema} {table : TableName} {statement : Statement}
    {condition : Condition} {ns : List String}

theorem Declared.withCondition (h : statement.Declared s table)
    (hcondition : condition.Declared s) : (statement.withCondition condition).Declared s table := by
  cases h with
  | createTable definitions options => exact .createTable definitions options
  | createIndex hname hne hcolumns => exact .createIndex hname hne hcolumns
  | insert hcolumns hreturned => exact .insert hcolumns hreturned
  | select hselected _ horder => exact .select hselected hcondition horder
  | update hne hset _ => exact .update hne hset hcondition
  | delete _ hreturned => exact .delete hcondition hreturned

theorem Declared.of_condition (h : statement.Declared s table)
    (hc : statement.condition? = some condition) :
    condition.Declared s := by
  cases h with
  | select _ hcondition => exact Option.some.inj hc ▸ hcondition
  | update _ _ hcondition => exact Option.some.inj hc ▸ hcondition
  | delete hcondition => exact Option.some.inj hc ▸ hcondition
  | _ => cases hc

theorem Declared.unquoted (h : statement.Declared s table) :
    statement.unquoted.Declared s table := by
  rw [Statement.unquoted]
  split
  next condition hc => exact h.withCondition (h.of_condition hc).unquoted
  next => exact h

/-- In front of the names of columns there is nothing, unless an UPDATE marks them. -/
theorem isIdentifier_unmarked : ∀ column ∈ s.names, isIdentifier ("" ++ column) = true := by
  intro column hcolumn
  rw [String.empty_append]
  exact Schema.isIdentifier_of_mem hcolumn

theorem scan_insert {columns : List String} (hcolumns : ∀ column ∈ columns, column ∈ s.names)
    (conflict : Option Conflict) (returned : Returned) :
    scan (insert table columns conflict returned).lexemes = .ok columns := by
  have hfront : Calm ([.word "INSERT", .sign ' '] ++ conflictLexemes conflict ++
      [.word "INTO", .sign ' '] ++ table.lexemes) :=
    ((Calm.append (by rfl) (calm_conflict conflict)).append (by rfl)).append (calm_table table)
  have hinserted : Finds (insertedLexemes columns) columns :=
    finds_inserted fun column hcolumn => Schema.isIdentifier_of_mem (hcolumns column hcolumn)
  have hall := (hfront.finds.append hinserted).append (calm_returned returned).finds
  rw [List.nil_append, List.append_nil] at hall
  exact hall.scan_eq

theorem scan_select (hcondition : condition.Declared s) {found : List String}
    (hfound : condition.placeholders "" = .ok found) (selected : Selected) (distinct : Bool)
    (orderBy : List (String × Direction)) (limit : Bool) :
    scan (select table selected distinct condition.unquoted orderBy limit).lexemes =
      .ok (found ++ if limit then [limitPlaceholder] else []) := by
  have hfront : Calm ([.word "SELECT", .sign ' '] ++ keywordLexemes distinct "DISTINCT" ++
      selected.lexemes ++ [.sign ' ', .word "FROM", .sign ' '] ++ table.lexemes) :=
    ((Calm.append (by rfl) (calm_keyword _ _)).append (calm_selected selected)).append (by rfl)
      |>.append (calm_table table)
  have hback := ((calm_order orderBy).finds.append (finds_limit limit)).scan_eq
  have hmiddle := scan_condition hcondition isIdentifier_unmarked hfound
  show scan ([.word "SELECT", .sign ' '] ++ keywordLexemes distinct "DISTINCT" ++
    selected.lexemes ++ [.sign ' ', .word "FROM", .sign ' '] ++ table.lexemes ++
    condition.unquoted.lexemes "" ++ orderLexemes orderBy ++ limitLexemes limit) = _
  rw [List.append_assoc, List.append_assoc, hfront.finds,
    scan_append hmiddle (firstWord?_order orderBy limit), hback]
  rfl

theorem scan_update {set : List String} (hset : ∀ column ∈ set, column ∈ s.names)
    (hcondition : condition.Declared s) {found : List String}
    (hfound : condition.placeholders whereMark = .ok found) (conflict : Option Conflict) :
    scan (update table set conflict condition.unquoted).lexemes = .ok (set ++ found) := by
  have hfront : Calm ([.word "UPDATE", .sign ' '] ++ conflictLexemes conflict ++ table.lexemes ++
      [.sign ' ', .word "SET", .sign ' ']) :=
    ((Calm.append (by rfl) (calm_conflict conflict)).append (calm_table table)).append (by rfl)
  have hassigned : Finds (listed (set.map (assignmentLexemes ""))) (set.map ("" ++ ·)) :=
    finds_intercalate calm_comma fun column hcolumn =>
      finds_assignment (isIdentifier_unmarked column (hset column hcolumn))
  have hback := scan_condition hcondition
    (fun column hcolumn => isIdentifier_whereMark (Schema.isIdentifier_of_mem hcolumn)) hfound
  show scan ([.word "UPDATE", .sign ' '] ++ conflictLexemes conflict ++ table.lexemes ++
    [.sign ' ', .word "SET", .sign ' '] ++ listed (set.map (assignmentLexemes "")) ++
    condition.unquoted.lexemes whereMark) = _
  have hnames : set.map ("" ++ ·) = set :=
    (List.map_congr_left fun _ _ => String.empty_append).trans (List.map_id _)
  rw [hnames] at hassigned
  rw [hfront.finds.append hassigned, hback]
  rfl

theorem scan_delete (hcondition : condition.Declared s) {found : List String}
    (hfound : condition.placeholders "" = .ok found) (returned : Returned) :
    scan (delete table condition.unquoted returned).lexemes = .ok found := by
  have hfront : Calm ([.word "DELETE", .sign ' ', .word "FROM", .sign ' '] ++ table.lexemes) :=
    Calm.append (by rfl) (calm_table table)
  have hmiddle := scan_condition hcondition isIdentifier_unmarked hfound
  show scan ([.word "DELETE", .sign ' ', .word "FROM", .sign ' '] ++ table.lexemes ++
    condition.unquoted.lexemes "" ++ returned.lexemes) = _
  rw [List.append_assoc, hfront.finds, scan_append hmiddle (firstWord?_returned returned),
    (calm_returned returned).finds.scan_eq, Except.map, Except.map, List.nil_append,
    List.append_nil]

/-- The scan finds the placeholders of a statement in its text. -/
theorem scan_text (hdeclared : statement.Declared s table) (hnew : statement.isDefinition = false)
    (h : statement.placeholders = .ok ns) :
    scan (Text.lexemes statement.unquoted.text) = .ok ns := by
  rw [lexemes_text hdeclared.unquoted]
  cases hdeclared with
  | createTable => cases hnew
  | createIndex => cases hnew
  | insert hcolumns =>
    cases h
    exact scan_insert hcolumns _ _
  | select _ hcondition =>
    obtain ⟨found, hfound, rfl⟩ := except_map_eq_ok.mp h
    exact scan_select hcondition hfound _ _ _ _
  | update _ hset hcondition =>
    obtain ⟨found, hfound, rfl⟩ := except_map_eq_ok.mp h
    exact scan_update hset hcondition hfound _
  | delete hcondition => exact scan_delete hcondition h _

/-! ### What the engine reads -/

/-- A statement is the text of its condition between two others. -/
theorem exists_around (h : statement.condition? = some condition) : ∃ front back mark,
    ∀ other : Condition,
    (statement.withCondition other).text = front ++ other.text mark ++ back := by
  cases statement with
  | createTable | createIndex | insert => cases h
  | select table selected distinct _ orderBy limit =>
    refine ⟨"SELECT " ++ keywordIf distinct "DISTINCT" ++ selected.text ++ " FROM " ++ table.text,
      orderText orderBy ++ limitText limit, "", fun other => ?_⟩
    rw [← String.append_assoc]
    rfl
  | update table set conflict _ =>
    refine ⟨"UPDATE " ++ conflictText conflict ++ table.text ++ " SET " ++
      commas (set.map fun c => c ++ "=" ++ placeholder c), "", whereMark, fun other => ?_⟩
    rw [String.append_empty]
    rfl
  | delete table _ returned =>
    exact ⟨"DELETE FROM " ++ table.text, returned.text, "", fun other => rfl⟩

theorem withCondition_self (h : statement.condition? = some condition) :
    statement.withCondition condition = statement := by
  cases statement <;> cases h <;> rfl

theorem unquoted_of_condition (h : statement.condition? = some condition) :
    statement.unquoted = statement.withCondition condition.unquoted := by
  rw [unquoted, h]

theorem ordinary_statementSigns : Ordinary statementSigns := by rfl

/-- Statements without text of the caller are made of ordinary characters. -/
theorem ordinary_of_plain (hdeclared : statement.Declared s table) (hplain : statement.Plain) :
    Ordinary statement.text.toList := by
  refine List.all_eq_true.mpr fun c hc => ?_
  rcases mem_text_of_lexemes hc with hname | hsign
  · exact isOrdinary_of_isNameChar hname
  · rw [lexemes_text hdeclared] at hsign
    exact List.all_eq_true.mp ordinary_statementSigns c
      (allows_of_mem_lexemes hdeclared hplain _ hsign)

/-- What stands around a condition is made of ordinary characters. -/
theorem ordinary_around (hdeclared : statement.Declared s table) {front back mark : String}
    (h : ∀ other : Condition,
      (statement.withCondition other).text = front ++ other.text mark ++ back)
    (hc : statement.condition? = some condition) :
    Ordinary front.toList ∧ Ordinary back.toList := by
  have halways : (statement.withCondition .always).Plain := by
    cases statement <;> cases hc <;> exact trivial
  have hall := ordinary_of_plain
    (hdeclared.withCondition (show Condition.Declared s .always from trivial)) halways
  rw [h .always, Condition.text, String.append_empty, String.toList_append] at hall
  exact ordinary_append.mp hall

/-- A statement holds a clause of the caller, or no text of the caller. -/
theorem plain_or_clause (hnew : statement.isDefinition = false) :
    statement.Plain ∨ ∃ clause, statement.condition? = some (.clause clause) := by
  cases statement with
  | createTable | createIndex => cases hnew
  | insert => exact .inl trivial
  | select _ _ _ condition | update _ _ _ condition | delete _ condition =>
    cases condition with
    | clause text => exact .inr ⟨text, rfl⟩
    | _ => exact .inl trivial

theorem unquoted_of_plain (h : statement.Plain) : statement.unquoted = statement := by
  cases hc : statement.condition? with
  | none => rw [unquoted, hc]
  | some condition =>
    rw [unquoted_of_condition hc]
    cases condition with
    | clause text =>
      cases statement with
      | createTable | createIndex | insert => cases hc
      | _ =>
        cases hc
        exact h.elim
    | _ => exact withCondition_self hc

/-- A statement with a clause of ordinary characters, or with none, is made of ordinary
characters. -/
theorem ordinary_text (hdeclared : statement.Declared s table)
    (hnew : statement.isDefinition = false)
    (h : ∀ clause, statement.condition? = some (.clause clause) → Ordinary clause.toList) :
    Ordinary statement.text.toList := by
  rcases plain_or_clause hnew with hplain | ⟨clause, hclause⟩
  · exact ordinary_of_plain hdeclared hplain
  · obtain ⟨front, back, mark, haround⟩ := exists_around hclause
    obtain ⟨hfront, hback⟩ := ordinary_around hdeclared haround hclause
    have hwhere : Ordinary " WHERE ".toList := by rfl
    rw [← withCondition_self hclause, haround, Condition.text, String.toList_append,
      String.toList_append, String.toList_append]
    exact ordinary_append.mpr
      ⟨ordinary_append.mpr ⟨hfront, ordinary_append.mpr ⟨hwhere, h clause hclause⟩⟩, hback⟩

def ClosesQuotes (statement : Statement) : Prop :=
  ∀ clause, statement.condition? = some (.clause clause) → openAfter none clause.toList = none

/-- Blanking what is quoted in a statement blanks it in the clause, and nothing behind it. -/
theorem unquoted_text (hdeclared : statement.Declared s table)
    (hnew : statement.isDefinition = false) (h : statement.ClosesQuotes) :
    Clause.unquoted none statement.text.toList = statement.unquoted.text.toList := by
  rcases plain_or_clause hnew with hplain | ⟨clause, hclause⟩
  · rw [unquoted_of_plain hplain]
    exact (ordinary_of_plain hdeclared hplain).quiet.unquoted
  · obtain ⟨front, back, mark, haround⟩ := exists_around hclause
    obtain ⟨hfront, hback⟩ := ordinary_around hdeclared haround hclause
    have hquiet : Quiet (front.toList ++ " WHERE ".toList) :=
      (ordinary_append.mpr ⟨hfront, by rfl⟩).quiet
    have htext : statement.text.toList =
        (front.toList ++ " WHERE ".toList) ++ (clause.toList ++ back.toList) := by
      conv_lhs => rw [← withCondition_self hclause]
      rw [haround, Condition.text]
      simp only [String.toList_append, List.append_assoc]
    have hunquoted : statement.unquoted.text.toList =
        (front.toList ++ " WHERE ".toList) ++
          (Clause.unquoted none clause.toList ++ back.toList) := by
      rw [unquoted_of_condition hclause, haround, Condition.unquoted, Condition.text]
      simp only [String.toList_append, String.toList_ofList, List.append_assoc]
    rw [htext, hunquoted, unquoted_append, hquiet.openAfter, hquiet.unquoted,
      unquoted_append, h clause hclause, hback.quiet.unquoted]

/-- The engine reads the placeholders of a statement in its text, if the clause of the caller closes
its quotes and the text is legible. -/
theorem variableTexts_text (hdeclared : statement.Declared s table)
    (hnew : statement.isDefinition = false) (hcloses : statement.ClosesQuotes)
    (hlegible : Legible statement.text) (h : statement.placeholders = .ok ns) :
    variableTexts statement.text = ns.map placeholder := by
  refine variableTexts_of_names hlegible ?_
  rw [unquoted_text hdeclared hnew hcloses, names_toList]
  exact scan_text hdeclared hnew h

end Statement

end TypedTables
