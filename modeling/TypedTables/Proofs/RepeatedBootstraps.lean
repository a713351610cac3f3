import TypedTables.Proofs.ClauseVariables
import TypedTables.Proofs.CreatedObjects
import TypedTables.Proofs.ResultLists
import TypedTables.Proofs.UpdatePairs

/-!
# Bootstraps that are repeated

A bootstrap builds all of its statements before the first one runs, so that one that cannot be built
keeps the others from running. Where every statement says `IF NOT EXISTS`, a bootstrap that
succeeded can be run again: each statement finds what it makes, and nothing changes.
-/
namespace TypedTables

/-! ### Building -/

/-- What is at fault with an index, for which there is no statement then. The name comes first, and
of several columns the first one that is not declared. -/
inductive IndexShape.Faulty (s : Schema) (index : IndexShape) : Error → Prop where
  | name (h : Text.isIdentifier index.name ≠ true) :
      Faulty s index (.schema (.indexName index.name))
  | empty (hname : Text.isIdentifier index.name = true) (h : index.columns = []) :
      Faulty s index (.schema (.indexWithoutColumns index.name))
  | column (hname : Text.isIdentifier index.name = true)
      {before after : List (String × Option Direction)}
      {column : String × Option Direction} (hcolumns : index.columns = before ++ column :: after)
      (hbefore : ∀ c ∈ before, c.1 ∈ s.names) (h : column.1 ∉ s.names) :
      Faulty s index (.schema (.unknownColumn column.1))

structure IndexShape.Sound (s : Schema) (index : IndexShape) : Prop where
  isIdentifier : Text.isIdentifier index.name = true
  columns_ne_nil : index.columns ≠ []
  declared : ∀ c ∈ index.columns, c.1 ∈ s.names

namespace Schema

variable {s : Schema} {table : TableName} {index : IndexShape} {e : Error}

theorem check_eq_ok_iff {name : String} : s.check name = .ok () ↔ name ∈ s.names := by
  rw [check, except_map_eq_ok, mem_names]
  exact exists_congr fun c => ⟨fun h => h.1, fun h => ⟨h, rfl⟩⟩

theorem check_eq_error_iff {name : String} :
    s.check name = .error e ↔ name ∉ s.names ∧ e = .schema (.unknownColumn name) := by
  rw [check, except_map_eq_error, column_eq_error_iff, ne_eq, s.contains_iff_mem]

/-- The columns of an index are checked one after the other. -/
theorem forM_check_eq_ok_iff {columns : List (String × Option Direction)} :
    (columns.forM fun c => s.check c.1) = .ok () ↔ ∀ c ∈ columns, c.1 ∈ s.names :=
  ⟨fun h c hc => check_eq_ok_iff.mp (Clause.forM_eq_ok h c hc),
    fun h => Clause.forM_eq_ok_of_forall fun c hc => check_eq_ok_iff.mpr (h c hc)⟩

theorem forM_check_eq_error_iff {columns : List (String × Option Direction)} :
    (columns.forM fun c => s.check c.1) = .error e ↔
      ∃ before column after, columns = before ++ column :: after ∧ (∀ c ∈ before, c.1 ∈ s.names) ∧
        column.1 ∉ s.names ∧ e = .schema (.unknownColumn column.1) := by
  have hchecked (name : String) : (∃ u, s.check name = .ok u) ↔ name ∈ s.names :=
    ⟨fun ⟨_, h⟩ => check_eq_ok_iff.mp h, fun h => ⟨(), check_eq_ok_iff.mpr h⟩⟩
  rw [forM_eq_map_mapM, except_map_eq_error, mapM_eq_error_iff]
  simp only [hchecked, check_eq_error_iff]

theorem createIndex_eq_ok_iff :
    (∃ text, s.statementText table (.createIndex index) = .ok text) ↔ index.Sound s := by
  simp only [statementText, except_map_eq_ok, Statement.ofShape]
  constructor
  · rintro ⟨text, statement, hstatement, -⟩
    split at hstatement
    · cases hstatement
    next hname =>
      split at hstatement
      · cases hstatement
      next hcolumns =>
        obtain ⟨u, hchecked, -⟩ := except_bind_eq_ok.mp hstatement
        exact ⟨by simpa using hname, by simpa using hcolumns, forM_check_eq_ok_iff.mp hchecked⟩
  · rintro ⟨hname, hcolumns, hdeclared⟩
    rw [if_neg (by simpa using hname), if_neg (by simpa using hcolumns),
      forM_check_eq_ok_iff.mpr hdeclared]
    exact ⟨_, _, rfl, rfl⟩

theorem createIndex_eq_error_iff :
    s.statementText table (.createIndex index) = .error e ↔ index.Faulty s e := by
  rw [statementText, except_map_eq_error, Statement.ofShape]
  split
  next hname =>
    have hname : Text.isIdentifier index.name ≠ true := by simpa using hname
    constructor
    · rintro ⟨⟩
      exact .name hname
    · intro h
      cases h with
      | name => rfl
      | empty hname' => exact absurd hname' hname
      | column hname' => exact absurd hname' hname
  next hname =>
    have hname : Text.isIdentifier index.name = true := by simpa using hname
    split
    next hcolumns =>
      have hcolumns : index.columns = [] := by simpa using hcolumns
      constructor
      · rintro ⟨⟩
        exact .empty hname hcolumns
      · intro h
        cases h with
        | name hname' => exact absurd hname hname'
        | empty => rfl
        | column _ hsplit => simp [hcolumns] at hsplit
    next hcolumns =>
      have hcolumns : index.columns ≠ [] := by simpa using hcolumns
      rw [except_bind_eq_error, or_iff_left (by rintro ⟨u, -, h⟩; cases h), forM_check_eq_error_iff]
      constructor
      · rintro ⟨before, column, after, hsplit, hbefore, hnot, rfl⟩
        exact .column hname hsplit hbefore hnot
      · intro h
        cases h with
        | name hname' => exact absurd hname hname'
        | empty _ hempty => exact absurd hempty hcolumns
        | column _ hsplit hbefore hnot => exact ⟨_, _, _, hsplit, hbefore, hnot, rfl⟩

end Schema

namespace Table

variable {σ ρ : Type} {t : Table ρ} {E : Engine.Interface σ}

/-- Statements that are asked for one after the other have the texts of their shapes. -/
theorem mapM_statement_requested (s : Schema) (table : TableName) (shapes earlier : List Shape) :
    (shapes.mapM statement ((StatementCache.new s table).requested earlier)).1 =
      shapes.mapM (s.statementText table) := by
  induction shapes generalizing earlier with
  | nil => rfl
  | cons shape shapes ih =>
    have hhead := statement_requested s table earlier shape
    have hcache : (statement shape ((StatementCache.new s table).requested earlier)).2 =
        (StatementCache.new s table).requested (earlier ++ [shape]) := by
      rw [StatementCache.requested_concat]
      rfl
    rw [List.mapM_cons, List.mapM_cons, stateful_bind]
    rcases hrequest : statement shape ((StatementCache.new s table).requested earlier) with ⟨r, c⟩
    rw [hrequest] at hhead hcache
    dsimp only at hhead hcache
    rw [← hhead, hcache]
    cases r with
    | error e => rfl
    | ok text =>
      dsimp only
      rw [stateful_bind, except_ok_bind, ← ih (earlier ++ [shape])]
      rcases shapes.mapM statement
        ((StatementCache.new s table).requested (earlier ++ [shape])) with ⟨r, c'⟩
      cases r <;> rfl

/-- What a bootstrap builds, whatever was asked for before. -/
theorem bootstrapAll_requested (earlier : List Shape) :
    (t.bootstrapAll E (t.newCache.requested earlier)).1 =
      ((bootstrapShapes t.bootstrap).mapM (t.schema.statementText t.name)).map (define E) := by
  rw [bootstrapAll, stateful_bind, ← mapM_statement_requested t.schema t.name _ earlier, newCache]
  rcases (bootstrapShapes t.bootstrap).mapM statement
    ((StatementCache.new t.schema t.name).requested earlier)
    with ⟨r, c⟩
  cases r <;> rfl

/-- The texts of a bootstrap: that of the table, and then those of the indexes. -/
theorem mapM_bootstrapShapes (b : Bootstrap) :
    ∃ text, t.schema.statementText t.name (.createTable b.table) = .ok text ∧
      (bootstrapShapes (some b)).mapM (t.schema.statementText t.name) =
        (b.indexes.mapM fun index => t.schema.statementText t.name (.createIndex index)).map
          (text :: ·) := by
  refine ⟨_, rfl, ?_⟩
  rw [bootstrapShapes, List.mapM_cons, List.mapM_map]
  rfl

/-- Only an index can keep a bootstrap from being built: the first one at fault is reported. -/
theorem bootstrapAll_eq_error_iff {earlier : List Shape} {e : Error} :
    (t.bootstrapAll E (t.newCache.requested earlier)).1 = .error e ↔
      ∃ b before index after, t.bootstrap = some b ∧ b.indexes = before ++ index :: after ∧
        (∀ i ∈ before, i.Sound t.schema) ∧ index.Faulty t.schema e := by
  rw [bootstrapAll_requested, except_map_eq_error]
  cases t.bootstrap with
  | none => exact ⟨nofun, nofun⟩
  | some b =>
    obtain ⟨text, -, htexts⟩ := t.mapM_bootstrapShapes b
    simp only [htexts, except_map_eq_error, mapM_eq_error_iff, Schema.createIndex_eq_ok_iff,
      Schema.createIndex_eq_error_iff, Option.some.injEq]
    constructor
    · rintro ⟨before, index, after, h⟩
      exact ⟨b, before, index, after, rfl, h⟩
    · rintro ⟨_, before, index, after, rfl, h⟩
      exact ⟨before, index, after, h⟩

/-- A bootstrap is built if its indexes are sound. -/
theorem bootstrapAll_eq_ok_iff {earlier : List Shape} :
    (∃ job, (t.bootstrapAll E (t.newCache.requested earlier)).1 = .ok job) ↔
      ∀ b, t.bootstrap = some b → ∀ index ∈ b.indexes, index.Sound t.schema := by
  simp only [bootstrapAll_requested, except_map_eq_ok]
  cases t.bootstrap with
  | none => exact ⟨fun _ => nofun, fun _ => ⟨_, _, rfl, rfl⟩⟩
  | some b =>
    obtain ⟨text, -, htexts⟩ := t.mapM_bootstrapShapes b
    have hindexes :
        (∃ texts, (b.indexes.mapM fun index => t.schema.statementText t.name (.createIndex index)) =
          .ok texts) ↔
          ∀ index ∈ b.indexes, index.Sound t.schema := by
      simp only [exists_mapM_eq_ok_iff, Schema.createIndex_eq_ok_iff]
    simp only [htexts, except_map_eq_ok, Option.some.injEq, forall_eq', ← hindexes]
    constructor
    · rintro ⟨job, _, ⟨texts, h, -⟩, -⟩
      exact ⟨texts, h⟩
    · rintro ⟨texts, h⟩
      exact ⟨_, _, ⟨texts, h, rfl⟩, rfl⟩

end Table

/-! ### Running -/

inductive Creation where
  | table (temporary : Bool)
  | index (name : String)
  deriving DecidableEq

namespace Creation

inductive MadeBy (table : TableName) (guarded : Bool) : Creation → String → Prop where
  | table (temporary : Bool) (rest : String) : MadeBy table guarded (.table temporary)
      ("CREATE " ++ (if temporary then "TEMPORARY " else "") ++ "TABLE " ++
        (if guarded then "IF NOT EXISTS " else "") ++ table.text ++ " (" ++ rest)
  | index (unique : Bool) (name rest : String) : MadeBy table guarded (.index name)
      ("CREATE " ++ (if unique then "UNIQUE " else "") ++ "INDEX " ++
        (if guarded then "IF NOT EXISTS " else "") ++
        (table.database.elim "" (· ++ ".")) ++ name ++ " ON " ++ table.table ++ " (" ++ rest)

inductive Of : Shape → Creation → Prop where
  | table (options : TableOptions) : Of (.createTable options) (.table options.temporary)
  | index (index : IndexShape) : Of (.createIndex index) (.index index.name)

end Creation

/-- Whether a statement says `IF NOT EXISTS`. -/
def Shape.isGuarded : Shape → Bool
  | .createTable options => options.ifNotExists
  | .createIndex index => index.ifNotExists
  | _ => false

/-- A statement makes one thing. -/
theorem Creation.Of.unique {shape : Shape} {c c' : Creation} (h : Of shape c) (h' : Of shape c') :
    c = c' := by
  cases h <;> cases h' <;> rfl

/-- The flag of a shape reaches its text. -/
theorem Creation.Of.madeBy {shape : Shape} {c : Creation} {s : Schema}
    {table : TableName} {text : String} (h : Of shape c)
    (htext : s.statementText table shape = .ok text) : MadeBy table shape.isGuarded c text := by
  obtain ⟨statement, hstatement, rfl⟩ := except_map_eq_ok.mp htext
  cases h with
  | table options =>
    cases hstatement
    convert MadeBy.table options.temporary
      (commas (s.columns.map Column.definition) ++ ")" ++ options.trailer) using 1
    change "CREATE " ++ keywordIf options.temporary "TEMPORARY" ++ "TABLE " ++
      keywordIf options.ifNotExists "IF NOT EXISTS" ++ table.text ++ " (" ++ commas _ ++ ")" ++
      options.trailer = _
    simp only [keywordIf, String.append_assoc]
    rfl
  | index index =>
    rw [Statement.ofShape] at hstatement
    split at hstatement
    · cases hstatement
    split at hstatement
    · cases hstatement
    obtain ⟨u, -, hstatement⟩ := except_bind_eq_ok.mp hstatement
    cases hstatement
    convert MadeBy.index index.unique index.name
      (commas (index.columns.map indexColumnText) ++ ")") using 1
    change "CREATE " ++ keywordIf index.unique "UNIQUE" ++ "INDEX " ++
      keywordIf index.ifNotExists "IF NOT EXISTS" ++
      _ ++ index.name ++ " ON " ++ table.table ++ " (" ++ commas _ ++ ")" = _
    simp only [keywordIf, String.append_assoc]
    cases table.database <;> rfl

variable {σ κ ρ : Type}

namespace Engine.Interface

/-- What is assumed of an engine about a statement that makes something. In the states that an open
connection can be in, something that is there by name is found by `IF NOT EXISTS`: such a statement,
if the engine accepts its text at all, is accepted and changes no name. What an accepted statement
makes is there by name, and one that makes an index takes no name away. -/
structure Defines (E : Interface σ) (isOpen : σ → Prop) (catalog : σ → κ)
    (has : κ → Creation → Prop) (table : TableName) (c : Creation) (text : String) : Prop where
  stays : ∀ {s s'}, isOpen s → E.Executes text s s' → isOpen s'
  present : c.MadeBy table true text → ∀ {s₀ s₁ s}, isOpen s₀ → E.Executes text s₀ s₁ → isOpen s →
    has (catalog s) c → ∃ s', E.Executes text s s' ∧ catalog s' = catalog s
  created : ∀ {guarded s s'}, c.MadeBy table guarded text → isOpen s →
    E.Executes text s s' → has (catalog s') c
  kept : ∀ {guarded name s s'}, c = .index name → c.MadeBy table guarded text → isOpen s →
    E.Executes text s s' →
    ∀ other, has (catalog s) other → has (catalog s') other

end Engine.Interface

open Engine (Interface Connection Catalog)

variable {E : Interface σ} {isOpen : σ → Prop} {catalog : σ → κ} {has : κ → Creation →
    Prop} {table : TableName}
  {c : Creation} {cs : List Creation} {text : String} {texts : List String} {s s' : σ}

/-- What is there by name for a table. -/
def Engine.Catalog.Has (table : TableName) (catalog : Catalog) : Creation → Prop
  | .table temporary => catalog.HasTable temporary table.database table.table
  | .index name => catalog.HasIndex table.database table.table name

namespace Engine.Connection

open Engine

variable {next : Option Nat} {source : String} {name : ObjectName}

/-- The engine makes a table as it is assumed. -/
theorem defines_table {temporary withoutRowid strict : Bool} {specs : List ColumnSpec}
    (hread : readStatement text =
      .ok (.createTable temporary true name specs withoutRowid strict source, next))
    (hdatabase : name.database.map (·.1) = table.database) (hname : name.name = table.table) :
    interface.Defines (fun c => c.catalog.IsOpen) Connection.catalog (Catalog.Has table) table
      (.table temporary) text where
  stays hopen h := (hasTable_of_executes hread hopen h).2.1
  present _ _ _ _ hopen haccepted _ hhas := by
    have hchecked := (hasTable_of_executes hread hopen haccepted).1
    exact ⟨_, executes_of_hasTable hread hchecked (by rw [hdatabase, hname]; exact hhas), rfl⟩
  created _ hopen h := by
    have htable := (hasTable_of_executes hread hopen h).2.2
    rwa [hdatabase, hname] at htable
  kept := nofun

/-- The engine makes an index as it is assumed. -/
theorem defines_index {unique : Bool} {indexed index : String}
    {columns : List (String × Nat × Direction)}
    (hread : readStatement text = .ok (.createIndex unique true name indexed columns source, next))
    (hdatabase : name.database.map (·.1) = table.database) (hindexed : indexed = table.table)
    (hname : name.name = index) :
    interface.Defines (fun c => c.catalog.IsOpen) Connection.catalog (Catalog.Has table) table
      (.index index) text where
  stays hopen h := (hasIndex_of_executes hread hopen h).2.1
  present _ _ _ _ hopen haccepted _ hhas := by
    have hchecked := (hasIndex_of_executes hread hopen haccepted).1
    exact ⟨_, executes_of_hasIndex hread hchecked (by rw [hdatabase, hindexed, hname]; exact hhas),
      rfl⟩
  created _ hopen h := by
    have hindex := (hasIndex_of_executes hread hopen h).2.2.1
    rwa [hdatabase, hindexed, hname] at hindex
  kept _ _ hopen h other hother := by
    obtain ⟨-, -, -, htables, hindexes⟩ := hasIndex_of_executes hread hopen h
    cases other with
    | table temporary => exact htables _ _ _ hother
    | index name => exact hindexes _ _ _ hother

/-- The engine makes the objects of a bootstrap as it is assumed. -/
theorem defines_indexedNumbers {shape : Shape}
    (hshape : shape ∈ Table.bootstrapShapes Example.indexedNumbers.bootstrap)
    (hc : Creation.Of shape c)
    (htext : Example.indexedNumbers.schema.statementText Example.indexedNumbers.name shape =
      .ok text) :
    interface.Defines (fun c => c.catalog.IsOpen) Connection.catalog
      (Catalog.Has Example.indexedNumbers.name)
      Example.indexedNumbers.name c text := by
  have htable : readStatement "CREATE TABLE IF NOT EXISTS numbers (id INTEGER PRIMARY KEY)" =
      .ok (.createTable false true ⟨none, "numbers", 27⟩
        [{ name := "id", type := "INTEGER", primaryKey := true }]
        false false "CREATE TABLE numbers (id INTEGER PRIMARY KEY)", none) := by decide +kernel
  have hindex :
    readStatement "CREATE UNIQUE INDEX IF NOT EXISTS numbers_by_id ON numbers (id DESC)" =
      .ok (.createIndex true true ⟨none, "numbers_by_id", 34⟩ "numbers" [("id", 60, .descending)]
        "CREATE UNIQUE INDEX numbers_by_id ON numbers (id DESC)", none) := by decide +kernel
  rcases List.mem_cons.mp hshape with rfl | hshape
  · cases hc
    obtain rfl : text = "CREATE TABLE IF NOT EXISTS numbers (id INTEGER PRIMARY KEY)" :=
      Except.ok.inj (htext.symm.trans (by decide +kernel))
    exact defines_table htable rfl rfl
  · obtain rfl := List.mem_singleton.mp hshape
    cases hc
    obtain rfl : text = "CREATE UNIQUE INDEX IF NOT EXISTS numbers_by_id ON numbers (id DESC)" :=
      Except.ok.inj (htext.symm.trans (by decide +kernel))
    exact defines_index hindex rfl rfl rfl

end Engine.Connection

namespace Table

theorem define_cons_eq_ok : define E (text :: texts) s = (.ok (), s') ↔
    ∃ s₁, E.Executes text s s₁ ∧ define E texts s₁ = (.ok (), s') := by
  have hcons : define E (text :: texts) =
      (E.change text .empty >>= fun _ => pure ()) >>= fun _ => define E texts := rfl
  rw [hcons, stateful_bind, stateful_bind]
  simp only [Interface.Executes]
  rcases h : E.change text .empty s with ⟨r, s₁⟩
  cases r with
  | error e =>
    constructor
    · nofun
    · rintro ⟨s₂, ⟨n, hn⟩, -⟩
      cases hn
  | ok n =>
    constructor
    · exact fun hrest => ⟨s₁, ⟨n, rfl⟩, hrest⟩
    · rintro ⟨s₂, ⟨m, hm⟩, hrest⟩
      cases hm
      exact hrest

structure Making (E : Interface σ) (isOpen : σ → Prop) (catalog : σ → κ) (has : κ → Creation → Prop)
    (table : TableName) (c : Creation) (text : String) : Prop where
  defines : E.Defines isOpen catalog has table c text
  madeBy : ∃ guarded, c.MadeBy table guarded text

structure Made (E : Interface σ) (isOpen : σ → Prop) (catalog : σ → κ) (has : κ → Creation → Prop)
    (table : TableName) (k : κ) (c : Creation) (text : String) : Prop
    extends Making E isOpen catalog has table c text where
  accepted : ∃ s₀ s₁, isOpen s₀ ∧ E.Executes text s₀ s₁
  named : has k c

/-- After statements that make indexes were accepted, the names from before and those of the indexes
are there. The induction is on the statements. -/
theorem made_of_indexes {names : List String}
    (h : List.Forall₂ (Making E isOpen catalog has table) (names.map .index) texts)
    (hopen : isOpen s) (hrun : define E texts s = (.ok (), s')) :
    (∀ other, has (catalog s) other → has (catalog s') other) ∧
      List.Forall₂ (Made E isOpen catalog has table (catalog s')) (names.map .index) texts := by
  induction names generalizing texts s with
  | nil =>
    cases h
    cases hrun
    exact ⟨fun _ h => h, .nil⟩
  | cons name names ih =>
    obtain ⟨text, texts, hhead, htail, rfl⟩ := List.forall₂_cons_left_iff.mp h
    obtain ⟨s₁, hexecutes, hrest⟩ := define_cons_eq_ok.mp hrun
    obtain ⟨hkept, hmade⟩ := ih htail (hhead.defines.stays hopen hexecutes) hrest
    obtain ⟨guarded, htext⟩ := hhead.madeBy
    have hnamed := hhead.defines.created htext hopen hexecutes
    exact ⟨fun other hother =>
      hkept other (hhead.defines.kept rfl htext hopen hexecutes other hother),
      .cons ⟨hhead, ⟨s, s₁, hopen, hexecutes⟩, hkept _ hnamed⟩ hmade⟩

/-- After a table and indexes were made, all of them are there. -/
theorem made_of_table {names : List String}
    (h : List.Forall₂ (Making E isOpen catalog has table) (c :: names.map .index) texts)
    (hopen : isOpen s) (hrun : define E texts s = (.ok (), s')) :
    List.Forall₂ (Made E isOpen catalog has table (catalog s')) (c :: names.map .index) texts := by
  obtain ⟨text, texts, hhead, htail, rfl⟩ := List.forall₂_cons_left_iff.mp h
  obtain ⟨s₁, hexecutes, hrest⟩ := define_cons_eq_ok.mp hrun
  obtain ⟨hkept, hmade⟩ := made_of_indexes htail (hhead.defines.stays hopen hexecutes) hrest
  obtain ⟨guarded, htext⟩ := hhead.madeBy
  have hnamed := hhead.defines.created htext hopen hexecutes
  exact .cons ⟨hhead, ⟨s, s₁, hopen, hexecutes⟩, hkept _ hnamed⟩ hmade

/-- Statements that say `IF NOT EXISTS` and find what they make are accepted again, and change
nothing. -/
theorem define_made {k : κ} (h : List.Forall₂ (Made E isOpen catalog has table k) cs texts)
    (hguarded : List.Forall₂ (Creation.MadeBy table true) cs texts) (hopen : isOpen s)
    (hcatalog : catalog s = k) :
    ∃ s', define E texts s = (.ok (), s') ∧ catalog s' = k := by
  induction h generalizing s with
  | nil => exact ⟨s, rfl, hcatalog⟩
  | cons hhead _ ih =>
    obtain ⟨htext, htexts⟩ := List.forall₂_cons.mp hguarded
    obtain ⟨s₀, s₁, hopen₀, haccepted⟩ := hhead.accepted
    obtain ⟨s₂, hexecutes, hsame⟩ :=
      hhead.defines.present htext hopen₀ haccepted hopen (hcatalog ▸ hhead.named)
    obtain ⟨s', hrest, hk⟩ := ih htexts (hhead.defines.stays hopen hexecutes) (hsame.trans hcatalog)
    exact ⟨s', define_cons_eq_ok.mpr ⟨s₂, hexecutes, hrest⟩, hk⟩

/-- What the statements of a bootstrap make: one table, and then indexes. -/
theorem exists_creations (b : Option Bootstrap) :
    ∃ c names, List.Forall₂ Creation.Of (bootstrapShapes b)
      (c :: List.map Creation.index names) := by
  cases b with
  | none => exact ⟨_, [], .cons (.table _) .nil⟩
  | some b =>
    refine ⟨_, b.indexes.map IndexShape.name, .cons (.table _) ?_⟩
    rw [List.map_map, List.forall₂_map_left_iff, List.forall₂_map_right_iff, List.forall₂_same]
    exact fun index _ => .index index

section Shapes

variable {shapes : List Shape} {s : Schema} (hcs : List.Forall₂ Creation.Of shapes cs)
include hcs

/-- The texts of shapes make what the shapes make. -/
theorem making_of_shapes
    (htexts : List.Forall₂ (fun shape text => s.statementText table shape = .ok text) shapes texts)
    (hE : ∀ shape ∈ shapes, ∀ c text, Creation.Of shape c → s.statementText table shape = .ok text →
      E.Defines isOpen catalog has table c text) :
    List.Forall₂ (Making E isOpen catalog has table) cs texts := by
  induction hcs generalizing texts with
  | nil =>
    cases htexts
    exact .nil
  | cons hc _ ih =>
    obtain ⟨text, texts, htext, hrest, rfl⟩ := List.forall₂_cons_left_iff.mp htexts
    obtain ⟨hhead, htail⟩ := List.forall_mem_cons.mp hE
    exact .cons ⟨hhead _ _ hc htext, _, hc.madeBy htext⟩ (ih hrest htail)

/-- Shapes that say `IF NOT EXISTS` have such texts. -/
theorem madeBy_of_shapes
    (htexts : List.Forall₂ (fun shape text => s.statementText table shape = .ok text) shapes texts)
    (hguarded : ∀ shape ∈ shapes, shape.isGuarded = true) :
    List.Forall₂ (Creation.MadeBy table true) cs texts := by
  induction hcs generalizing texts with
  | nil =>
    cases htexts
    exact .nil
  | cons hc _ ih =>
    obtain ⟨text, texts, htext, hrest, rfl⟩ := List.forall₂_cons_left_iff.mp htexts
    obtain ⟨hflag, hflags⟩ := List.forall_mem_cons.mp hguarded
    exact .cons (hflag ▸ hc.madeBy htext) (ih hrest hflags)

/-- What was made is what the shapes make. -/
theorem has_of_made {k : κ} (h : List.Forall₂ (Made E isOpen catalog has table k) cs texts) :
    ∀ shape ∈ shapes, ∀ c, Creation.Of shape c → has k c := by
  induction hcs generalizing texts with
  | nil => exact nofun
  | cons hc _ ih =>
    obtain ⟨text, texts, hhead, htail, rfl⟩ := List.forall₂_cons_left_iff.mp h
    refine List.forall_mem_cons.mpr ⟨fun c hc' => ?_, ih htail⟩
    rw [hc'.unique hc]
    exact hhead.named

end Shapes

/-- A bootstrap is built, whatever was asked for before, exactly if the name of every index is an
identifier and every index has columns, which are all declared; else the first index at fault is
reported, there is no job, and the connection is left as it is, whatever an engine keeps in it.
Assume of the engine that `IF NOT EXISTS` finds what is there by name, changing nothing, and that
what a statement makes is there by name afterwards. If a bootstrap succeeds on an open connection,
its table and its indexes are there. If all its statements say `IF NOT EXISTS`, it succeeds again in
every state with the names that it left, and leaves these names as they are. -/
theorem bootstrap_repeated (t : Table ρ) (E : Interface σ) :
    (∀ earlier, (∃ job, (t.bootstrapAll E (t.newCache.requested earlier)).1 = .ok job) ↔
      ∀ b, t.bootstrap = some b → ∀ index ∈ b.indexes, index.Sound t.schema) ∧
    (∀ earlier e, (t.bootstrapAll E (t.newCache.requested earlier)).1 = .error e ↔
      ∃ b before index after, t.bootstrap = some b ∧ b.indexes = before ++ index :: after ∧
        (∀ i ∈ before, i.Sound t.schema) ∧ index.Faulty t.schema e) ∧
    (∀ earlier e s, (t.bootstrapAll E (t.newCache.requested earlier)).1 = .error e →
      ((t.bootstrapAll E).runDirect ⟨t.newCache.requested earlier, s⟩).1 = .error e ∧
        ((t.bootstrapAll E).runDirect ⟨t.newCache.requested earlier, s⟩).2.connection = s) ∧
    ∀ (κ : Type) (isOpen : σ → Prop) (catalog : σ → κ) (has : κ → Creation → Prop),
      (∀ shape ∈ bootstrapShapes t.bootstrap, ∀ c text, Creation.Of shape c →
        t.schema.statementText t.name shape = .ok text →
        E.Defines isOpen catalog has t.name c text) →
      ∀ earlier job s s₁, (t.bootstrapAll E (t.newCache.requested earlier)).1 = .ok job → isOpen s →
        job s = (.ok (), s₁) →
        (∀ shape ∈ bootstrapShapes t.bootstrap, ∀ c, Creation.Of shape c → has (catalog s₁) c) ∧
        ((∀ shape ∈ bootstrapShapes t.bootstrap, shape.isGuarded = true) →
          ∀ later, ∃ job', (t.bootstrapAll E (t.newCache.requested later)).1 = .ok job' ∧
            ∀ s₂, isOpen s₂ → catalog s₂ = catalog s₁ →
              ∃ s₃, job' s₂ = (.ok (), s₃) ∧ catalog s₃ = catalog s₂) := by
  refine ⟨fun earlier => bootstrapAll_eq_ok_iff, fun earlier e => bootstrapAll_eq_error_iff,
    fun earlier e s he => ?_, ?_⟩
  · rw [Building.runDirect_of_error he]
    exact ⟨rfl, rfl⟩
  · intro κ isOpen catalog has hE earlier job s s₁ hjob hopen hrun
    rw [bootstrapAll_requested, except_map_eq_ok] at hjob
    obtain ⟨texts, htexts, rfl⟩ := hjob
    obtain ⟨c, names, hcs⟩ := exists_creations t.bootstrap
    have hmade := made_of_table (making_of_shapes hcs (mapM_eq_ok_iff.mp htexts) hE) hopen hrun
    refine ⟨has_of_made hcs hmade, fun hguarded later => ?_⟩
    refine ⟨define E
      texts, by rw [bootstrapAll_requested, htexts]; rfl, fun s₂ hopen₂ hcatalog => ?_⟩
    have hstatements := madeBy_of_shapes hcs (mapM_eq_ok_iff.mp htexts) hguarded
    obtain ⟨s₃, hagain, hsame⟩ := define_made hmade hstatements hopen₂ hcatalog
    exact ⟨s₃, hagain, hsame.trans hcatalog.symm⟩

open Example in
/-- The table of numbers and its index are made once; the second time nothing is left to make. -/
theorem bootstrap_repeated_of_numbers :
    ∃ job s₁ s₂, (indexedNumbers.bootstrapAll Connection.interface indexedNumbers.newCache).1 =
      .ok job ∧
      job emptyAt = (.ok (), s₁) ∧ s₁.catalog.HasTable false none "numbers" ∧
      s₁.catalog.HasIndex none "numbers" "numbers_by_id" ∧ job s₁ = (.ok (), s₂) ∧
      s₂.catalog = s₁.catalog := by
  let texts := ["CREATE TABLE IF NOT EXISTS numbers (id INTEGER PRIMARY KEY)",
    "CREATE UNIQUE INDEX IF NOT EXISTS numbers_by_id ON numbers (id DESC)"]
  have htexts : (bootstrapShapes indexedNumbers.bootstrap).mapM
      (indexedNumbers.schema.statementText indexedNumbers.name) = .ok texts := by decide +kernel
  have hbuilt : (indexedNumbers.bootstrapAll Connection.interface indexedNumbers.newCache).1 =
      .ok (define Connection.interface texts) :=
    (bootstrapAll_requested []).trans (congrArg (Except.map (define Connection.interface)) htexts)
  have hrun : (define Connection.interface texts emptyAt).1 = .ok () ∧
      (define Connection.interface texts emptyAt).2.catalog.databases.length = 2 := by
    decide +kernel
  obtain ⟨-, -, -, hrepeated⟩ := bootstrap_repeated indexedNumbers Connection.interface
  obtain ⟨hhas, hagain⟩ :=
    hrepeated _ _ _ _ (fun _ hshape _ _ => Connection.defines_indexedNumbers hshape) [] _
    emptyAt _ hbuilt (Nat.le_refl 2) (Prod.ext hrun.1 rfl)
  obtain ⟨job, hjob, hagain⟩ := hagain (by decide) []
  obtain rfl := Except.ok.inj (hbuilt.symm.trans hjob)
  obtain ⟨s₂, hs₂, hsame⟩ := hagain _ (Nat.le_of_eq hrun.2.symm) rfl
  have htable := hhas _ List.mem_cons_self _ (.table _)
  have hindex := hhas _ (List.mem_cons_of_mem _ List.mem_cons_self) _ (.index _)
  exact ⟨_, _, s₂, hbuilt, Prod.ext hrun.1 rfl, htable, hindex, hs₂, hsame⟩

end Table

end TypedTables
