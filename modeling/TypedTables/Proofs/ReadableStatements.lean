import TypedTables.Example.Tables
import TypedTables.Proofs.StatementWords

/-!
# Reading statements

The text of a statement tells which statement it is, even where columns, tables and indexes are
named like keywords. A part is read off the front of a text; what may come behind it cannot be taken
for more of it.
-/
namespace TypedTables

open Text

/-- What is written can be read off the front, if what comes behind it satisfies a condition. -/
def Readable {α : Type} (write : α → List Lexeme) (follows : List Lexeme → Prop) : Prop :=
  ∀ a b x y, follows x → follows y → write a ++ x = write b ++ y → a = b ∧ x = y

def NoWord (x : List Lexeme) : Prop := ∀ w rest, x ≠ .word w :: rest

section

variable {α : Type} {g : α → List Lexeme} {follows : List Lexeme → Prop} {sep x y : List Lexeme}

theorem noWord_sign (c : Char) (rest : List Lexeme) : NoWord (.sign c :: rest) := nofun

/-- Items that begin with words, with a separator between them: they are read one after the
other. -/
theorem readable_intercalate (hg : Readable g follows)
    (hword : ∀ a, ∃ w rest, g a = .word w :: rest) (hsep : ∀ rest, follows (sep ++ rest)) :
    Readable (fun as : List α => sep.intercalate (as.map g)) fun x => follows x ∧
    ¬ sep <+: x ∧ NoWord x := by
  have hnonempty : ∀ a as, ∃ w rest, sep.intercalate ((a :: as).map g) = .word w :: rest := by
    intro a as
    obtain ⟨w, rest, ha⟩ := hword a
    rcases as with _ | ⟨b, bs⟩
    · exact ⟨w, rest, by rw [List.map_cons, List.map_nil, List.intercalate_singleton, ha]⟩
    · refine ⟨w, rest ++ sep ++ sep.intercalate ((b :: bs).map g), ?_⟩
      rw [List.map_cons, List.map_cons, List.intercalate_cons_cons, ha]
      rfl
  intro as
  induction as with
  | nil =>
    intro bs x y hx hy h
    rcases bs with _ | ⟨b, bs⟩
    · exact ⟨rfl, h⟩
    · obtain ⟨w, rest, hb⟩ := hnonempty b bs
      dsimp only at h
      rw [hb] at h
      exact absurd h (hx.2.2 w _)
  | cons a as ih =>
    intro bs x y hx hy h
    rcases bs with _ | ⟨b, bs⟩
    · obtain ⟨w, rest, ha⟩ := hnonempty a as
      dsimp only at h
      rw [ha] at h
      exact absurd h.symm (hy.2.2 w _)
    · rcases as with _ | ⟨a', as⟩ <;> rcases bs with _ | ⟨b', bs⟩ <;>
        simp only [List.map_cons, List.map_nil, List.intercalate_singleton,
          List.intercalate_cons_cons, List.append_assoc] at h
      · obtain ⟨rfl, hxy⟩ := hg a b x y hx.1 hy.1 h
        exact ⟨rfl, hxy⟩
      · obtain ⟨-, hxy⟩ := hg a b _ _ hx.1 (hsep _) h
        exact absurd ⟨_, hxy.symm⟩ hx.2.1
      · obtain ⟨-, hxy⟩ := hg a b _ _ (hsep _) hy.1 h
        exact absurd ⟨_, hxy⟩ hy.2.1
      · obtain ⟨rfl, hxy⟩ := hg a b _ _ (hsep _) (hsep _) h
        obtain ⟨heq, hrest⟩ := ih (b' :: bs) x y hx hy (List.append_cancel_left hxy)
        exact ⟨by rw [heq], hrest⟩

/-- What may come behind a list: no comma and no word. -/
def EndsList (x : List Lexeme) : Prop := (∀ rest, x ≠ .sign ',' :: rest) ∧ NoWord x

theorem readable_listed (hg : Readable g fun _ => True)
    (hword : ∀ a, ∃ w rest, g a = .word w :: rest) :
    Readable (fun as : List α => listed (as.map g)) EndsList := by
  intro as bs x y hx hy
  have hprefix : ∀ {z : List Lexeme}, EndsList z → ¬ [.sign ',', .sign ' '] <+: z := by
    rintro z hz ⟨rest, rfl⟩
    exact hz.1 _ rfl
  exact readable_intercalate hg hword (fun _ => trivial) as bs x y ⟨trivial, hprefix hx, hx.2⟩
    ⟨trivial, hprefix hy, hy.2⟩

theorem readable_name : Readable (fun name : String => [Lexeme.word name]) fun _ => True := by
  intro a b x y _ _ h
  obtain ⟨hword, hrest⟩ := List.cons.inj h
  exact ⟨Lexeme.word.inj hword, hrest⟩

theorem readable_names : Readable listedNames EndsList :=
  readable_listed readable_name fun name => ⟨name, [], rfl⟩

theorem readable_assignment (mark : String) : Readable (assignmentLexemes mark) fun _ => True := by
  intro a b x y _ _ h
  simp only [assignmentLexemes, List.cons_append, List.nil_append, List.cons.injEq,
    Lexeme.word.injEq] at h
  exact ⟨h.1, h.2.2.2.2⟩

theorem Direction.keyword_inj {a b : Direction} (h : a.keyword = b.keyword) : a = b := by
  cases a <;> cases b <;> first | rfl | exact absurd h (by decide)

theorem Conflict.keyword_inj {a b : Conflict} (h : a.keyword = b.keyword) : a = b := by
  cases a <;> cases b <;> first | rfl | exact absurd h (by decide)

theorem readable_sortKey : Readable sortKeyLexemes fun _ => True := by
  rintro ⟨name, direction⟩ ⟨name', direction'⟩ x y _ _ h
  simp only [sortKeyLexemes, List.cons_append, List.nil_append, List.cons.injEq,
    Lexeme.word.injEq] at h
  obtain ⟨rfl, -, hkeyword, hrest⟩ := h
  exact ⟨by rw [Direction.keyword_inj hkeyword], hrest⟩

/-- A column of an index is read if no space comes behind it. -/
theorem readable_indexColumn : Readable indexColumnLexemes fun x => ∀ rest,
    x ≠ .sign ' ' :: rest := by
  rintro ⟨name, _ | direction⟩ ⟨name', _ | direction'⟩ x y hx hy h <;>
    simp only [indexColumnLexemes, List.cons_append, List.nil_append, List.cons.injEq,
      Lexeme.word.injEq] at h
  · obtain ⟨rfl, hrest⟩ := h
    exact ⟨rfl, hrest⟩
  · exact absurd h.2 (hx _)
  · exact absurd h.2.symm (hy _)
  · obtain ⟨rfl, -, hkeyword, hrest⟩ := h
    exact ⟨by rw [Direction.keyword_inj hkeyword], hrest⟩

theorem endsList_nil : EndsList [] := ⟨nofun, nofun⟩

theorem endsList_sign {c : Char} (h : c ≠ ',') (rest : List Lexeme) : EndsList (.sign c :: rest) :=
  ⟨fun _ heq => h (Lexeme.sign.inj (List.cons.inj heq).1), nofun⟩

/-- A list of names is empty, a name, or a name with a comma and another name behind it. -/
theorem listedNames_cases (names : List String) :
    names = [] ∨ (∃ name, names = [name]) ∨ ∃ name name' rest,
      listedNames names = .word name :: .sign ',' :: .sign ' ' :: .word name' :: rest := by
  rcases names with _ | ⟨name, _ | ⟨name', names⟩⟩
  · exact .inl rfl
  · exact .inr (.inl ⟨name, rfl⟩)
  · obtain ⟨rest, hrest⟩ : ∃ rest, listedNames (name' :: names) = .word name' :: rest := by
      rcases names with _ | ⟨name'', names⟩
      · exact ⟨[], rfl⟩
      · refine ⟨[.sign ',', .sign ' '] ++ listedNames (name'' :: names), ?_⟩
        simp only [listedNames, listed, List.map_cons, List.intercalate_cons_cons]
        rfl
    refine .inr (.inr ⟨name, name', rest, ?_⟩)
    have hcons : listedNames (name :: name' :: names) =
        .word name :: .sign ',' :: .sign ' ' :: listedNames (name' :: names) := by
      simp only [listedNames, listed, List.map_cons, List.intercalate_cons_cons]
      rfl
    rw [hcons, hrest]

theorem listedNames_ne_star (names : List String) : listedNames names ≠ [.sign '*'] := by
  rcases listedNames_cases names with rfl | ⟨name, rfl⟩ | ⟨name, name', rest, h⟩
  · exact nofun
  · exact nofun
  · rw [h]
    exact nofun

/-- Nothing comes behind a RETURNING clause. -/
theorem Returned.lexemes_inj {a b : Returned} (h : a.lexemes = b.lexemes) : a = b := by
  cases a with
  | nothing =>
    cases b with
    | nothing => rfl
    | all => cases h
    | columns names => cases h
  | all =>
    cases b with
    | nothing => cases h
    | all => rfl
    | columns names =>
      simp only [lexemes, List.cons_append, List.nil_append, List.cons.injEq, true_and] at h
      exact absurd h.symm (listedNames_ne_star names)
  | columns names =>
    cases b with
    | nothing => cases h
    | all =>
      simp only [lexemes, List.cons_append, List.nil_append, List.cons.injEq, true_and] at h
      exact absurd h (listedNames_ne_star names)
    | columns names' =>
      have hlists := congrArg (· ++ []) (List.append_cancel_left h)
      rw [(readable_names _ _ _ _ endsList_nil endsList_nil hlists).1]

structure EndsCondition (x : List Lexeme) : Prop where
  first : EndsList x
  second : ∀ c word rest, x = .sign c :: .word word :: rest → word ≠ "WHERE" ∧
    word ≠ "AND" ∧ word ≠ "FROM"

theorem readable_condition {mark : String} {a b : Condition} (ha : a.Plain) (hb : b.Plain)
    (hx : EndsCondition x) (hy : EndsCondition y) (h : a.lexemes mark ++ x = b.lexemes mark ++ y) :
    a = b ∧ x = y := by
  have hprefix : ∀ {z : List Lexeme}, EndsCondition z →
      ¬ [.sign ' ', .word "AND", .sign ' '] <+: z := by
    rintro z hz ⟨rest, rfl⟩
    exact (hz.second _ _ _ rfl).2.1 rfl
  cases a with
  | clause text => exact ha.elim
  | always =>
    cases b with
    | clause text => exact hb.elim
    | always => exact ⟨rfl, h⟩
    | equalities columns => exact absurd rfl (hx.second _ _ _ h).1
  | equalities columns =>
    cases b with
    | clause text => exact hb.elim
    | always => exact absurd rfl (hy.second _ _ _ h.symm).1
    | equalities columns' =>
      rw [Condition.lexemes, Condition.lexemes, List.append_assoc, List.append_assoc] at h
      have hread :=
        readable_intercalate (readable_assignment mark) (fun c => ⟨c, _, rfl⟩) (fun _ => trivial)
        columns columns' x y ⟨trivial, hprefix hx, hx.first.2⟩ ⟨trivial, hprefix hy, hy.first.2⟩
        (List.append_cancel_left h)
      exact ⟨by rw [hread.1], hread.2⟩

theorem endsCondition_nil : EndsCondition [] := ⟨endsList_nil, nofun⟩

theorem endsCondition_returned (returned : Returned) : EndsCondition returned.lexemes := by
  cases returned with
  | nothing => exact endsCondition_nil
  | all =>
    refine ⟨endsList_sign (by decide) _, fun c word rest h => ?_⟩
    cases h
    exact ⟨by decide, by decide, by decide⟩
  | columns names =>
    refine ⟨endsList_sign (by decide) _, fun c word rest h => ?_⟩
    cases h
    exact ⟨by decide, by decide, by decide⟩

/-- What may come behind the ORDER BY clause: nothing or the limit. -/
theorem endsList_limit (limit : Bool) : EndsList (limitLexemes limit) := by
  cases limit with
  | false => exact endsList_nil
  | true => exact endsList_sign (by decide) _

theorem endsCondition_order (keys : List (String × Direction)) (limit : Bool) :
    EndsCondition (orderLexemes keys ++ limitLexemes limit) := by
  rcases keys with _ | ⟨key, keys⟩
  · refine ⟨endsList_limit limit, fun c word rest h => ?_⟩
    cases limit <;> cases h
    exact ⟨by decide, by decide, by decide⟩
  · refine ⟨endsList_sign (by decide) _, fun c word rest h => ?_⟩
    cases h
    exact ⟨by decide, by decide, by decide⟩

/-- The clauses at the end of a SELECT. -/
theorem order_limit_inj {keys keys' : List (String × Direction)} {limit limit' : Bool}
    (h : orderLexemes keys ++ limitLexemes limit = orderLexemes keys' ++ limitLexemes limit') :
    keys = keys' ∧ limit = limit' := by
  have hlimits : ∀ {limit limit'}, limitLexemes limit = limitLexemes limit' → limit = limit' := by
    intro limit limit' hlimit
    cases limit <;> cases limit' <;> first | rfl | cases hlimit
  rcases keys with _ | ⟨key, keys⟩ <;> rcases keys' with _ | ⟨key', keys'⟩
  · exact ⟨rfl, hlimits h⟩
  · cases limit <;> simp [orderLexemes, limitLexemes] at h
  · cases limit' <;> simp [orderLexemes, limitLexemes] at h
  · rw [orderLexemes, orderLexemes, List.append_assoc, List.append_assoc] at h
    · obtain ⟨heq, hlimit⟩ := readable_listed readable_sortKey (fun key => ⟨key.1, _, rfl⟩) _ _ _ _
        (endsList_limit limit) (endsList_limit limit') (List.append_cancel_left h)
      exact ⟨heq, hlimits hlimit⟩
    all_goals exact List.cons_ne_nil _ _

/-- The columns and placeholders of an INSERT: the columns tell the placeholders. -/
theorem readable_inserted {columns columns' : List String}
    (h : insertedLexemes columns ++ x = insertedLexemes columns' ++ y) :
    columns = columns' ∧ x = y := by
  rcases columns with _ | ⟨c, cs⟩ <;> rcases columns' with _ | ⟨c', cs'⟩ <;>
    simp only [insertedLexemes, List.append_assoc, List.cons_append,
      List.nil_append, List.cons.injEq, reduceCtorEq, false_and, and_false, true_and] at h
  · exact ⟨rfl, h⟩
  · obtain ⟨heq, hrest⟩ :=
      readable_names _ _ _ _ (endsList_sign (by decide) _) (endsList_sign (by decide) _) h
    rw [heq] at hrest ⊢
    simp only [List.cons.injEq, true_and, List.append_cancel_left_eq] at hrest
    exact ⟨rfl, hrest⟩

/-- A word with a space behind it is a projection of one column. -/
theorem selected_of_word {selected : Selected} {w : String}
    (h : selected.lexemes ++ .sign ' ' :: x = .word w :: .sign ' ' :: y) :
    selected = .columns [w] ∧ x = y := by
  cases selected with
  | columns names =>
    rcases listedNames_cases names with rfl | ⟨name, rfl⟩ | ⟨name, name', rest, hnames⟩
    · cases h
    · cases h
      exact ⟨rfl, rfl⟩
    · rw [Selected.lexemes, hnames] at h
      cases h
  | count => cases h
  | rowidAndAll => cases h

/-- Columns are not the number of rows, and not the rowid with all columns. -/
theorem listedNames_ne_selected (names : List String) (x y : List Lexeme) :
    listedNames names ++ .sign ' ' :: x ≠ Selected.count.lexemes ++ .sign ' ' :: y ∧
      listedNames names ++ .sign ' ' :: x ≠ Selected.rowidAndAll.lexemes ++ .sign ' ' :: y := by
  rcases listedNames_cases names with rfl | ⟨name, rfl⟩ | ⟨name, name', rest, h⟩
  · exact ⟨nofun, nofun⟩
  · exact ⟨nofun, nofun⟩
  · rw [h]
    exact ⟨nofun, nofun⟩

theorem readable_selected {a b : Selected}
    (h : a.lexemes ++ .sign ' ' :: x = b.lexemes ++ .sign ' ' :: y) :
    a = b ∧ x = y := by
  cases a with
  | columns names =>
    cases b with
    | columns names' =>
      obtain ⟨rfl, hrest⟩ :=
        readable_names _ _ _ _ (endsList_sign (by decide) _) (endsList_sign (by decide) _) h
      exact ⟨rfl, (List.cons.inj hrest).2⟩
    | count => exact absurd h (listedNames_ne_selected names x y).1
    | rowidAndAll => exact absurd h (listedNames_ne_selected names x y).2
  | count =>
    cases b with
    | columns names => exact absurd h.symm (listedNames_ne_selected names y x).1
    | count => exact ⟨rfl, (List.cons.inj (List.append_cancel_left h)).2⟩
    | rowidAndAll => simp [Selected.lexemes] at h
  | rowidAndAll =>
    cases b with
    | columns names => exact absurd h.symm (listedNames_ne_selected names y x).2
    | count => simp [Selected.lexemes] at h
    | rowidAndAll => exact ⟨rfl, (List.cons.inj (List.append_cancel_left h)).2⟩

/-- A keyword that may be missing, in front of another word. -/
theorem readable_keyword {asked asked' : Bool} {w v : String} (hne : v ≠ w)
    (h : keywordLexemes asked w ++ .word v :: x = keywordLexemes asked' w ++ .word v :: y) :
    asked = asked' ∧ x = y := by
  cases asked <;> cases asked' <;>
    simp only [keywordLexemes, if_true, Bool.false_eq_true, if_false,
      List.cons_append, List.nil_append, List.cons.injEq, Lexeme.word.injEq, true_and] at h
  · exact ⟨rfl, h⟩
  · exact absurd h.1 hne
  · exact absurd h.1.symm hne
  · exact ⟨rfl, h⟩

/-- What does not begin like a conflict clause. -/
def NoConflict (x : List Lexeme) : Prop :=
  ∀ (conflict : Conflict) rest, x ≠ .word "OR" :: .sign ' ' :: .word conflict.keyword :: rest

theorem readable_conflict : Readable conflictLexemes NoConflict := by
  rintro (_ | conflict) (_ | conflict') x y hx hy h <;>
    simp only [conflictLexemes, List.cons_append, List.nil_append, List.cons.injEq, true_and,
      Lexeme.word.injEq] at h
  · exact ⟨rfl, h⟩
  · exact absurd h (hx conflict' _)
  · exact absurd h.symm (hy conflict _)
  · exact ⟨by rw [Conflict.keyword_inj h.1], h.2⟩

end

namespace Statement

variable {s : Schema} {table : TableName}

/-- An index named like a keyword is told from IF NOT EXISTS by what comes behind it. -/
theorem readable_ifNotExists {asked asked' : Bool} {database : Option String} {name name' : String}
    {x y : List Lexeme}
    (h : (if asked then [.word "IF", .sign ' ', .word "NOT", .sign ' ', .word "EXISTS", .sign ' ']
        else []) ++
        (databaseLexemes database ++ .word name :: .sign ' ' :: .word "ON" :: x) =
      (if asked' then [.word "IF", .sign ' ', .word "NOT", .sign ' ', .word "EXISTS", .sign ' ']
        else []) ++
        (databaseLexemes database ++ .word name' :: .sign ' ' :: .word "ON" :: y)) :
    asked = asked' ∧ name = name' ∧ x = y := by
  cases asked <;> cases asked' <;> cases database <;> simp [databaseLexemes] at h ⊢ <;> exact h

theorem createIndex_inj {index index' : IndexShape}
    (h : (createIndex table index).lexemes = (createIndex table index').lexemes) :
    createIndex table index = createIndex table index' := by
  obtain ⟨name, columns, unique, ifNotExists⟩ := index
  obtain ⟨name', columns', unique', ifNotExists'⟩ := index'
  simp only [lexemes, List.append_assoc, List.cons_append, List.nil_append,
    List.cons.injEq, true_and] at h
  obtain ⟨rfl, hindex⟩ := readable_keyword (by decide) h
  obtain ⟨rfl, rfl, hcolumns⟩ := readable_ifNotExists (List.cons.inj hindex).2
  simp only [List.cons.injEq, true_and] at hcolumns
  have hends : ∀ rest, [Lexeme.sign ')'] ≠ .sign ' ' :: rest := by simp
  have hread := readable_intercalate readable_indexColumn
    (fun column => by obtain ⟨name, _ | direction⟩ := column <;> exact ⟨name, _, rfl⟩)
    (fun rest other => by simp) columns columns' _ _ ⟨hends, by simp, noWord_sign _ _⟩
    ⟨hends, by simp, noWord_sign _ _⟩ hcolumns
  rw [hread.1]

theorem insert_inj {columns columns' : List String} {conflict conflict' : Option Conflict}
    {returned returned' : Returned}
    (h : (insert table columns conflict returned).lexemes =
      (insert table columns' conflict' returned').lexemes) :
    insert table columns conflict returned = insert table columns' conflict' returned' := by
  simp only [lexemes, List.append_assoc, List.cons_append, List.nil_append,
    List.cons.injEq, true_and] at h
  obtain ⟨rfl, hinto⟩ := readable_conflict _ _ _ _ (by simp [NoConflict]) (by simp [NoConflict]) h
  simp only [List.cons.injEq, true_and, List.append_cancel_left_eq] at hinto
  obtain ⟨rfl, hreturned⟩ := readable_inserted hinto
  rw [Returned.lexemes_inj hreturned]

/-- A column named like a keyword is told from DISTINCT by what comes behind it: only for a column
and a table that are named like the next keyword the texts go on alike, and then there is no second
keyword. -/
theorem distinct_ne {selected selected' : Selected} {x y : List Lexeme}
    (hy : ∀ c rest, y ≠ .sign c :: .word "FROM" :: rest) :
    .word "DISTINCT" :: .sign ' ' ::
        (selected.lexemes ++ .sign ' ' :: .word "FROM" :: .sign ' ' :: (table.lexemes ++ x)) ≠
      selected'.lexemes ++ .sign ' ' :: .word "FROM" :: .sign ' ' :: (table.lexemes ++ y) := by
  intro h
  obtain ⟨-, hselected⟩ := selected_of_word h.symm
  obtain ⟨-, htable⟩ := selected_of_word hselected.symm
  rw [TableName.lexemes] at htable
  cases hdatabase : table.database with
  | none =>
    rw [hdatabase, databaseLexemes, List.nil_append, List.cons_append,
      List.cons_append, List.nil_append, List.nil_append, List.cons.injEq] at htable
    obtain ⟨hname, hrest⟩ := htable
    rw [← hname] at hrest
    exact hy _ _ hrest.symm
  | some database =>
    rw [hdatabase] at htable
    simp [databaseLexemes] at htable

theorem readable_distinct {distinct distinct' : Bool}
    {selected selected' : Selected} {x y : List Lexeme}
    (hx : ∀ c rest, x ≠ .sign c :: .word "FROM" :: rest)
    (hy : ∀ c rest, y ≠ .sign c :: .word "FROM" :: rest) (h : keywordLexemes distinct "DISTINCT" ++
        (selected.lexemes ++ .sign ' ' :: .word "FROM" :: .sign ' ' :: (table.lexemes ++ x)) =
      keywordLexemes distinct' "DISTINCT" ++
        (selected'.lexemes ++ .sign ' ' :: .word "FROM" :: .sign ' ' :: (table.lexemes ++ y))) :
    distinct = distinct' ∧ selected = selected' ∧ x = y := by
  have hsame : distinct = distinct' := by
    cases distinct <;> cases distinct'
    · rfl
    · exact absurd h.symm (distinct_ne hx)
    · exact absurd h (distinct_ne hy)
    · rfl
  obtain rfl := hsame
  obtain ⟨rfl, hrest⟩ := readable_selected (List.append_cancel_left h)
  simp only [List.cons.injEq, true_and, List.append_cancel_left_eq] at hrest
  exact ⟨rfl, rfl, hrest⟩

theorem select_inj {selected selected' : Selected} {distinct distinct' : Bool}
    {condition condition' : Condition} {orderBy orderBy' : List (String × Direction)}
    {limit limit' : Bool} (hplain : condition.Plain) (hplain' : condition'.Plain)
    (h : (select table selected distinct condition orderBy limit).lexemes =
      (select table selected' distinct' condition' orderBy' limit').lexemes) :
    select table selected distinct condition orderBy limit =
      select table selected' distinct' condition' orderBy' limit' := by
  have hfrom : ∀ {condition : Condition}, condition.Plain →
      ∀ (keys : List (String × Direction)) (limit : Bool) c rest,
      condition.lexemes "" ++ (orderLexemes keys ++ limitLexemes limit) ≠
        .sign c :: .word "FROM" :: rest := by
    intro condition hplain keys limit c rest
    cases condition with
    | always => exact fun h => ((endsCondition_order keys limit).second c _ rest h).2.2 rfl
    | equalities columns => simp [Condition.lexemes]
    | clause text => exact hplain.elim
  simp only [lexemes, List.append_assoc, List.cons_append, List.nil_append,
    List.cons.injEq, true_and] at h
  obtain ⟨rfl, rfl, htail⟩ := readable_distinct (hfrom hplain _ _) (hfrom hplain' _ _) h
  obtain ⟨rfl, hends⟩ :=
    readable_condition hplain hplain' (endsCondition_order _ _) (endsCondition_order _ _) htail
  obtain ⟨rfl, rfl⟩ := order_limit_inj hends
  rfl

theorem update_inj {set set' : List String} {conflict conflict' : Option Conflict}
    {condition condition' : Condition} (hplain : condition.Plain) (hplain' : condition'.Plain)
    (h : (update table set conflict condition).lexemes =
      (update table set' conflict' condition').lexemes) :
    update table set conflict condition = update table set' conflict' condition' := by
  have hnone : ∀ x, NoConflict (table.lexemes ++ .sign ' ' :: .word "SET" :: x) := by
    intro x conflict rest
    rw [TableName.lexemes]
    cases table.database <;> cases conflict <;> simp [databaseLexemes, Conflict.keyword]
  simp only [lexemes, List.append_assoc, List.cons_append, List.nil_append,
    List.cons.injEq, true_and] at h
  obtain ⟨rfl, hset⟩ := readable_conflict _ _ _ _ (hnone _) (hnone _) h
  simp only [List.append_cancel_left_eq, List.cons.injEq, true_and] at hset
  have hends : ∀ condition : Condition, condition.Plain →
      EndsList (condition.lexemes whereMark) := by
    intro condition hplain
    cases condition with
    | always => exact endsList_nil
    | equalities columns => exact endsList_sign (by decide) _
    | clause text => exact hplain.elim
  obtain ⟨rfl, hcondition⟩ :=
    readable_listed (readable_assignment "") (fun c => ⟨c, _, rfl⟩) _ _ _ _
    (hends condition hplain) (hends condition' hplain') hset
  have hread := congrArg (· ++ []) hcondition
  rw [(readable_condition hplain hplain' endsCondition_nil endsCondition_nil hread).1]

theorem delete_inj {condition condition' : Condition} {returned returned' : Returned}
    (hplain : condition.Plain) (hplain' : condition'.Plain)
    (h : (delete table condition returned).lexemes = (delete table condition' returned').lexemes) :
    delete table condition returned = delete table condition' returned' := by
  simp only [lexemes, List.append_assoc, List.cons_append, List.nil_append,
    List.cons.injEq, true_and, List.append_cancel_left_eq] at h
  obtain ⟨rfl, hreturned⟩ :=
    readable_condition hplain hplain' (endsCondition_returned _) (endsCondition_returned _) h
  rw [Returned.lexemes_inj hreturned]

/-- The words and signs of a statement tell the statement. -/
theorem lexemes_inj {statement statement' : Statement} (hdeclared : statement.Declared s table)
    (hdeclared' : statement'.Declared s table) (hplain : statement.Plain)
    (hplain' : statement'.Plain) (h : statement.lexemes = statement'.lexemes) :
    statement = statement' := by
  -- statements of different kinds differ in their first words
  cases hdeclared with
  | createTable => exact hplain.elim
  | createIndex =>
    cases hdeclared' with
    | createTable => exact hplain'.elim
    | createIndex => exact createIndex_inj h
    | _ => simp [lexemes] at h
  | insert =>
    cases hdeclared' with
    | createTable => exact hplain'.elim
    | insert => exact insert_inj h
    | _ => simp [lexemes] at h
  | select =>
    cases hdeclared' with
    | createTable => exact hplain'.elim
    | select => exact select_inj hplain hplain' h
    | _ => simp [lexemes] at h
  | update =>
    cases hdeclared' with
    | createTable => exact hplain'.elim
    | update => exact update_inj hplain hplain' h
    | _ => simp [lexemes] at h
  | delete =>
    cases hdeclared' with
    | createTable => exact hplain'.elim
    | delete => exact delete_inj hplain hplain' h
    | _ => simp [lexemes] at h

end Statement

/-- The text of an accepted INSERT, SELECT, UPDATE, DELETE or CREATE INDEX without text of the
caller: it has ASCII letters, digits, `_` and a few other characters; its words are keywords of its
kind, declared columns, parts of the name of the table, and the names that belong to its kind; and
no other accepted statement on the table has the same text. -/
theorem statement_text_read {s : Schema} {table : TableName} {shape : Shape} {statement : Statement}
    (h : Statement.ofShape s table shape = .ok statement) (hraw : shape.isRaw = false)
    (hnew : ∀ options, shape ≠ .createTable options) :
    (∀ c ∈ statement.text.toList, isNameChar c = true ∨ c ∈ statementSigns) ∧
    (∀ w ∈ words statement.text,
      w ∈ statement.keywords ∨ w ∈ s.names ∨ w ∈ table.parts ∨ w ∈ statement.ownNames s) ∧
    ∀ shape' statement', Statement.ofShape s table shape' = .ok statement' → shape'.isRaw = false →
      (∀ options, shape' ≠ .createTable options) → statement'.text = statement.text →
      statement' = statement := by
  have hdeclared := Statement.declared_of_ofShape h
  have hplain := Statement.plain_of_ofShape h hraw hnew
  have hlexemes := Statement.lexemes_text hdeclared
  have hallows := Statement.allows_of_mem_lexemes hdeclared hplain
  refine ⟨fun c hc => ?_, fun w hw => ?_, fun shape' statement' h' hraw' hnew' htext => ?_⟩
  · refine (mem_text_of_lexemes hc).imp_right fun hsign => ?_
    exact hallows _ (hlexemes ▸ hsign)
  · exact hallows _ (hlexemes ▸ mem_words_iff.mp hw)
  · have hdeclared' := Statement.declared_of_ofShape h'
    refine Statement.lexemes_inj hdeclared' hdeclared
      (Statement.plain_of_ofShape h' hraw' hnew') hplain ?_
    rw [← Statement.lexemes_text hdeclared', ← hlexemes, htext]

open Example

/-- The texts `SELECT DISTINCT FROM FROM FROM` and `SELECT DISTINCT FROM FROM` are read apart. -/
theorem keyword_named_read :
    ∃ statement statement',
      Statement.ofShape keywordNamed keywordName
        (.select ⟨.columns (.only ["FROM"]), true, .all, [], false⟩) =
        .ok statement ∧
      Statement.ofShape keywordNamed keywordName
        (.select ⟨.columns (.only ["DISTINCT"]), false, .all, [], false⟩) =
        .ok statement' ∧
      (∀ w ∈ words statement.text, w ∈ statement.keywords ∨ w ∈ keywordNamed.names ∨
        w ∈ keywordName.parts ∨
        w ∈ statement.ownNames keywordNamed) ∧
      statement'.text ≠ statement.text := by
  obtain ⟨statement, h⟩ : ∃ statement, Statement.ofShape keywordNamed keywordName
      (.select ⟨.columns (.only ["FROM"]), true, .all, [], false⟩) = .ok statement := ⟨_, rfl⟩
  obtain ⟨statement', h'⟩ : ∃ statement, Statement.ofShape keywordNamed keywordName
      (.select ⟨.columns (.only ["DISTINCT"]), false, .all, [], false⟩) = .ok statement := ⟨_, rfl⟩
  obtain ⟨-, hwords, hread⟩ := statement_text_read h rfl nofun
  refine ⟨statement, statement', h, h', hwords, fun htext => ?_⟩
  have heq := hread _ _ h' rfl nofun htext
  cases h
  cases h'
  exact absurd heq (by decide)

end TypedTables
