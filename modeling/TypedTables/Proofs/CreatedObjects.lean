import TypedTables.Proofs.ConnectionTransactions
import TypedTables.Proofs.InsertedRows

/-!
# What CREATE leaves in a catalog

A table or an index that a statement made is found by its name afterwards. A statement that says
`IF NOT EXISTS` does nothing where the name is there already, and one that makes an index leaves all
names where they are.
-/
namespace TypedTables.Engine

/-! ### Databases -/

namespace Database

variable {d : Database} {name : String}

theorem tables_append (d : Database) (objects : List Object) : (d.append objects).tables =
    d.tables ++ (Database.mk objects).tables := List.filterMap_append

theorem indexes_append (d : Database) (objects : List Object) : (d.append objects).indexes =
    d.indexes ++ (Database.mk objects).indexes := List.filterMap_append

/-- Objects that are added leave the indexes from before. -/
theorem index?_append (objects : List Object) (h : (d.index? name).isSome = true) :
    ((d.append objects).index? name).isSome = true := by
  rw [index?, indexes_append, List.find?_append, Option.isSome_or]
  rw [index?] at h
  rw [h]
  rfl

theorem index?_append_self (d : Database) (i : Index) :
    ((d.append [.index i]).index? i.name).isSome = true := by
  rw [index?, indexes_append, List.find?_append, Option.isSome_or, Bool.or_eq_true]
  exact .inr (by simp [indexes, sameName])

/-- An index that is added leaves the tables. -/
theorem table?_append_index (d : Database) (i : Index) (name : String) :
    (d.append [.index i]).table? name = d.table? name := by
  rw [table?, tables_append]
  exact congrArg (List.find? _) (List.append_nil _)

theorem table?_append_self (d : Database) (t : StoredTable) (objects : List Object) :
    ((d.append (.table t :: objects)).table? t.name).isSome = true := by
  rw [table?, tables_append, List.find?_append, Option.isSome_or, Bool.or_eq_true]
  exact .inr (by simp [tables, sameName])

end Database

/-! ### Catalogs -/

namespace Catalog

variable {c : Catalog} {i j default : Nat} {database : Option String}

/-- Where an object with a name is meant to be: in the database that is named, or else in the
default one. -/
def target? (c : Catalog) (default : Nat) : Option String → Option Nat
  | none => some default
  | some d => c.database? d

theorem requireDatabase_eq_ok {named : Option (String × Nat)} :
    requireDatabase c default named = .ok i ↔ c.target? default (named.map (·.1)) = some i := by
  cases named with
  | none => simp [requireDatabase, target?]
  | some d =>
    simp only [requireDatabase, target?, Option.map_some]
    cases c.database? d.1 <;> simp

/-- The databases keep their names. -/
theorem names_set (c : Catalog) (i : Nat) (d : Database) :
    (c.set i d).databases.map Prod.fst = c.databases.map Prod.fst := by
  rw [set, List.map_set]
  refine List.ext_getElem? fun j => ?_
  rw [List.getElem?_set]
  split
  next hij =>
    subst hij
    split
    next hlt => simp [databaseName, List.getElem?_eq_getElem (by simpa using hlt)]
    next hge => rw [List.getElem?_eq_none (by simpa using hge)]
  next => rfl

theorem target?_set (c : Catalog) (i : Nat) (d : Database) (default : Nat)
    (database : Option String) :
    (c.set i d).target? default database = c.target? default database := by
  cases database with
  | none => rfl
  | some name =>
    have hfind (c : Catalog) :
        c.database? name = (c.databases.map Prod.fst).findIdx? (sameName · name) := by
      rw [List.findIdx?_map]
      rfl
    rw [target?, target?, hfind, hfind, names_set]

theorem database_set (d : Database) (hi : i < c.databases.length) (j : Nat) :
    (c.set i d).database j = if j = i then d else c.database j := by
  rw [database, set, List.getElem?_set]
  split
  next hij =>
    subst hij
    simp
  next hij =>
    rw [if_neg (Ne.symm hij)]
    rfl

/-- The main database and the temporary one are there. -/
def IsOpen (c : Catalog) : Prop := 2 ≤ c.databases.length

theorem isOpen_set (h : c.IsOpen) (i : Nat) (d : Database) : (c.set i d).IsOpen := by
  rw [IsOpen, set, List.length_set]
  exact h

/-- Every object is meant to be in one of the databases. -/
theorem target?_lt (h : c.IsOpen) (hdefault : default < 2)
    (hi : c.target? default database = some i) :
    i < c.databases.length := by
  cases database with
  | none =>
    obtain rfl := Option.some.inj hi
    exact Nat.lt_of_lt_of_le hdefault h
  | some d => exact (List.findIdx?_eq_some_iff_findIdx_eq.mp hi).1

def HasTable (c : Catalog) (temporary : Bool) (database : Option String) (name : String) : Prop :=
  ∃ i, c.target? (if temporary then Catalog.temporary else 0) database = some i ∧
    (temporary = true → i = Catalog.temporary) ∧ ((c.database i).table? name).isSome = true

/-- The database in which an index is meant to be if none is named. -/
def indexDefault (c : Catalog) (table : String) : Nat :=
  if ((c.database temporary).table? table).isSome then temporary else 0

def HasIndex (c : Catalog) (database : Option String) (table name : String) : Prop :=
  ∃ i t, c.target? (c.indexDefault table) database = some i ∧ (c.database i).table? table = some t ∧
    isCatalog i t.name true = false ∧ (c.database i).table? name = none ∧
    ((c.database i).index? name).isSome = true

theorem indexDefault_lt (c : Catalog) (table : String) : c.indexDefault table < 2 := by
  rw [indexDefault]
  split <;> decide

/-- An index that is added leaves the tables of every database. -/
theorem table?_set_index (hi : i < c.databases.length) (x : Index) (j : Nat) (name : String) :
    ((c.set i ((c.database i).append [.index x])).database j).table? name =
      (c.database j).table? name := by
  rw [database_set _ hi]
  split
  next hij => rw [Database.table?_append_index, hij]
  next => rfl

theorem indexDefault_set_index (hi : i < c.databases.length) (x : Index) (table : String) :
    (c.set i ((c.database i).append [.index x])).indexDefault table = c.indexDefault table := by
  rw [indexDefault, indexDefault, table?_set_index hi]

theorem HasTable.set_index {temporary : Bool} {name : String}
    (h : c.HasTable temporary database name) (hi : i < c.databases.length) (x : Index) :
    (c.set i ((c.database i).append [.index x])).HasTable temporary database name := by
  obtain ⟨j, htarget, htemporary, htable⟩ := h
  exact ⟨j, by rw [target?_set, htarget], htemporary, by rw [table?_set_index hi, htable]⟩

theorem HasIndex.set_index {table name : String} (h : c.HasIndex database table name)
    (hi : i < c.databases.length) (x : Index) :
    (c.set i ((c.database i).append [.index x])).HasIndex database table name := by
  obtain ⟨j, t, htarget, htable, hcatalog, hfree, hindex⟩ := h
  refine ⟨j, t, by rw [target?_set, indexDefault_set_index hi,
    htarget], by rw [table?_set_index hi, htable], hcatalog, by rw [table?_set_index hi, hfree], ?_⟩
  rw [database_set _ hi]
  split
  next hij => exact Database.index?_append _ (hij ▸ hindex)
  next => exact hindex

end Catalog

/-! ### Plans -/

section Plans

variable {c : Catalog} {temporary unique ifNotExists : Bool} {name : ObjectName}
    {specs : List ColumnSpec}
  {withoutRowid strict : Bool} {text table : String}
    {columns : List (String × Nat × Direction)} {plan : Plan}

/-- What a CREATE TABLE makes is a table with the name, and indexes for its constraints. -/
theorem tableObjects_computes (name text : String) (specs : List ColumnSpec)
    (withoutRowid strict : Bool) :
    Computes (fun objects => ∃ t rest, objects = .table t :: rest ∧ t.name = name)
      (tableObjects name text specs withoutRowid strict) := by
  rw [tableObjects]
  dsimp only
  -- Whatever was refused on the way, only the last step computes objects.
  split
  all_goals
    repeat' first
      | split
      | refine .bind fun _ => ?_
    all_goals exact .pure ⟨_, _, rfl, rfl⟩

/-- A CREATE TABLE that is planned finds the table, or makes one with its name. -/
theorem planTable_eq_ok
    (h : planTable c temporary ifNotExists name specs withoutRowid strict text = .ok plan) :
    checkObjectName name.name = .ok () ∧
    ∃ i, c.target? (if temporary then Catalog.temporary else 0) (name.database.map (·.1)) = some i ∧
      (temporary = true → i = Catalog.temporary) ∧
      ((((c.database i).table? name.name).isSome = true ∧ plan = .present) ∨
        ∃ t rest, t.name = name.name ∧ plan = .createObjects i (.table t :: rest)) := by
  obtain ⟨i, hi, h⟩ := except_bind_eq_ok.mp h
  dsimp only at h
  split at h
  · cases h
  next hplace =>
    have htemporary : temporary = true → i = Catalog.temporary := by simpa using hplace
    obtain ⟨u, hname, h⟩ := except_bind_eq_ok.mp h
    refine ⟨hname, i, Catalog.requireDatabase_eq_ok.mp hi, htemporary, ?_⟩
    split at h
    next htable =>
      split at h
      · cases h
        exact .inl ⟨htable, rfl⟩
      · cases h
    next =>
      split at h
      · cases h
      · obtain ⟨objects, hobjects, h⟩ := except_bind_eq_ok.mp h
        obtain ⟨t, rest, rfl, ht⟩ := tableObjects_computes _ _ _ _ _ objects hobjects
        cases h
        exact .inr ⟨t, rest, ht, rfl⟩

/-- A table that has been made is found by `IF NOT EXISTS`. -/
theorem planTable_present (hname : checkObjectName name.name = .ok ())
    (h : c.HasTable temporary (name.database.map (·.1)) name.name) :
    planTable c temporary true name specs withoutRowid strict text = .ok .present := by
  obtain ⟨i, hi, htemporary, htable⟩ := h
  rw [planTable, Catalog.requireDatabase_eq_ok.mpr hi, except_ok_bind]
  dsimp only
  rw [if_neg (by simpa using htemporary), hname, except_ok_bind, if_pos htable]
  rfl

/-- A table that may be indexed is not the catalog. -/
theorem table?_of_tableIn? {i : Nat} {t : StoredTable} (h : c.tableIn? i table true = some t)
    (hcatalog : Catalog.isCatalog i t.name true = false) :
    (c.database i).table? table = some t := by
  rw [Catalog.tableIn?] at h
  cases hfound : (c.database i).table? table with
  | some stored => rwa [hfound] at h
  | none =>
    rw [hfound] at h
    obtain ⟨hname, hstored⟩ := Option.ite_none_right_eq_some.mp h
    cases hstored
    cases hname.symm.trans hcatalog

/-- A CREATE INDEX that is planned finds the index, or makes it. -/
theorem planIndex_eq_ok (h : planIndex c unique ifNotExists name table columns text = .ok plan) :
    checkObjectName name.name = .ok () ∧
    ∃ i t, c.target? (c.indexDefault table) (name.database.map (·.1)) = some i ∧
      (c.database i).table? table = some t ∧ Catalog.isCatalog i t.name true = false ∧
      (c.database i).table? name.name = none ∧
      ((((c.database i).index? name.name).isSome = true ∧ plan = .present) ∨
        ∃ x, x.name = name.name ∧ plan = .createObjects i [.index x]) := by
  obtain ⟨i, hi, h⟩ := except_bind_eq_ok.mp h
  dsimp only at h
  cases htable : c.tableIn? i table true with
  | none =>
    rw [htable] at h
    cases h
  | some t =>
    rw [htable] at h
    change (if Catalog.isCatalog i t.name true = true then _ else _) = _ at h
    split at h
    · cases h
    next hcatalog =>
      have hcatalog : Catalog.isCatalog i t.name true = false := by simpa using hcatalog
      obtain ⟨u, hname, h⟩ := except_bind_eq_ok.mp h
      split at h
      · cases h
      next hfree =>
        have hfree : (c.database i).table? name.name = none := by simpa using hfree
        refine ⟨hname, i, t, Catalog.requireDatabase_eq_ok.mp hi,
          table?_of_tableIn? htable hcatalog, hcatalog, hfree, ?_⟩
        split at h
        next hindex =>
          split at h
          · cases h
            exact .inl ⟨hindex, rfl⟩
          · cases h
        next =>
          obtain ⟨positions, -, h⟩ := except_bind_eq_ok.mp h
          cases h
          exact .inr ⟨_, rfl, rfl⟩

/-- An index that has been made is found by `IF NOT EXISTS`. -/
theorem planIndex_present (hname : checkObjectName name.name = .ok ())
    (h : c.HasIndex (name.database.map (·.1)) table name.name) :
    planIndex c unique true name table columns text = .ok .present := by
  obtain ⟨i, t, hi, htable, hcatalog, hfree, hindex⟩ := h
  have hin : c.tableIn? i table true = some t := by rw [Catalog.tableIn?, htable]
  have hdatabase : requireDatabase c (c.indexDefault table) name.database = .ok i :=
    Catalog.requireDatabase_eq_ok.mpr hi
  rw [planIndex]
  dsimp only
  rw [← Catalog.indexDefault, hdatabase, except_ok_bind, hin]
  change (if Catalog.isCatalog i t.name true = true then _ else _) = _
  rw [if_neg (by simp [hcatalog]), hname, except_ok_bind, if_neg (by simp [hfree]), if_pos hindex]
  rfl

end Plans

/-! ### Connections -/

namespace Interface

/-- A statement without parameters is accepted. -/
def Executes {σ : Type} (E : Interface σ) (text : String) (s s' : σ) : Prop :=
  ∃ n, E.change text .empty s = (.ok n, s')

end Interface

namespace Connection

variable {c c' : Connection} {text : String} {plan : Plan}

/-- What a connection does with an accepted statement: it plans it, and carries out the plan. -/
theorem executes_iff : interface.Executes text c c' ↔
    ∃ plan bound answer, c.plan text = .ok plan ∧ bind plan .empty = .ok bound ∧
      c.execute bound plan = (.ok answer, c') := by
  constructor
  · rintro ⟨n, h⟩
    obtain ⟨names, answer, c₁, hprepare, hrun⟩ := change_eq_ok h
    obtain ⟨hnames, rfl⟩ := Prod.mk.inj hprepare
    obtain ⟨plan, hplan, -⟩ := except_map_eq_ok.mp hnames
    cases hbind : bind plan .empty with
    | error fault => exact absurd ((run_of_bind_error hplan hbind).symm.trans hrun) (by simp)
    | ok bound =>
      exact ⟨plan, bound, answer, hplan, hbind, (run_of_bind_ok hplan hbind).symm.trans hrun⟩
  · rintro ⟨plan, bound, answer, hplan, hbind, hexecute⟩
    refine ⟨answer.changes, ?_⟩
    have hprepare : interface.preparing text c = (.ok plan.columnNames, c) := by
      change ((c.prepare text).mapError (Error.refused text), c) = _
      rw [prepare, hplan]
      rfl
    have hrun : interface.running text .empty c = (.ok answer, c') := by
      change (((c.run text .empty).1).mapError (Error.refused text), (c.run text .empty).2) = _
      rw [run_of_bind_ok hplan hbind, hexecute]
      rfl
    rw [Interface.change, stateful_bind, hprepare]
    dsimp only
    rw [stateful_bind, hrun]
    rfl

theorem plan_present {command : Command} {next : Option Nat}
    (h : readStatement text = .ok (command, next))
    (hplan : Plan.of c.catalog command = .ok .present) : c.plan text = .ok .present :=
  plan_of h hplan (admitted_of_free rfl)

theorem of_plan_of_read {command : Command} {next : Option Nat}
    (h : readStatement text = .ok (command, next)) (hplan : c.plan text = .ok plan) :
    Plan.of c.catalog command = .ok plan := by
  obtain ⟨command', next', hread, hof, -⟩ := exists_of_plan hplan
  obtain ⟨rfl, -⟩ := Prod.mk.inj (Except.ok.inj (h.symm.trans hread))
  exact hof

/-- Nothing is done where everything is there. -/
theorem executes_present (h : c.plan text = .ok .present) : interface.Executes text c c :=
  executes_iff.mpr ⟨.present, _, .changed 0, h, rfl, rfl⟩

theorem createObjects_eq_ok {i : Nat} {objects : List Object} {answer : Answer}
    (h : c.createObjects i objects = (.ok answer, c')) :
    c'.catalog = c.catalog.set i ((c.catalog.database i).append objects) := by
  rw [createObjects] at h
  split at h
  · cases h
  split at h
  · cases h
  · cases h
    rfl

section Table

variable {temporary ifNotExists withoutRowid strict : Bool} {name : ObjectName}
    {specs : List ColumnSpec}
  {source : String} {next : Option Nat}

/-- After a CREATE TABLE was accepted the table is there. -/
theorem hasTable_of_executes
    (hread : readStatement text =
      .ok (.createTable temporary ifNotExists name specs withoutRowid strict source, next))
    (hopen : c.catalog.IsOpen) (h : interface.Executes text c c') :
    checkObjectName name.name = .ok () ∧ c'.catalog.IsOpen ∧
      c'.catalog.HasTable temporary (name.database.map (·.1)) name.name := by
  obtain ⟨plan, bound, answer, hplan, -, hexecute⟩ := executes_iff.mp h
  have hplanned :
      planTable c.catalog temporary ifNotExists name specs withoutRowid strict source = .ok plan :=
    of_plan_of_read hread hplan
  obtain ⟨hname, i, htarget, htemporary, hcase⟩ := planTable_eq_ok hplanned
  refine ⟨hname, ?_⟩
  obtain ⟨htable, rfl⟩ | ⟨t, rest, ht, rfl⟩ := hcase
  · cases hexecute
    exact ⟨hopen, i, htarget, htemporary, htable⟩
  · have hcatalog := createObjects_eq_ok hexecute
    have hdefault : (if temporary = true then Catalog.temporary else 0) < 2 := by split <;> decide
    have hi := Catalog.target?_lt hopen hdefault htarget
    rw [hcatalog]
    refine ⟨Catalog.isOpen_set hopen _ _, i, by rw [Catalog.target?_set, htarget], htemporary, ?_⟩
    rw [Catalog.database_set _ hi, if_pos rfl, ← ht]
    exact Database.table?_append_self _ t rest

/-- A table that is there is found. -/
theorem executes_of_hasTable
    (hread : readStatement text =
      .ok (.createTable temporary true name specs withoutRowid strict source, next))
    (hname : checkObjectName name.name = .ok ())
    (h : c.catalog.HasTable temporary (name.database.map (·.1)) name.name) :
    interface.Executes text c c :=
  executes_present (plan_present hread (planTable_present hname h))

end Table

section Index

variable {unique ifNotExists : Bool} {name : ObjectName} {table source : String}
  {columns : List (String × Nat × Direction)} {next : Option Nat}

/-- After a CREATE INDEX was accepted the index is there, and all other tables and indexes are there
still. -/
theorem hasIndex_of_executes
    (hread : readStatement text =
      .ok (.createIndex unique ifNotExists name table columns source, next))
    (hopen : c.catalog.IsOpen) (h : interface.Executes text c c') :
    checkObjectName name.name = .ok () ∧ c'.catalog.IsOpen ∧
      c'.catalog.HasIndex (name.database.map (·.1)) table name.name ∧
      (∀ temporary database other, c.catalog.HasTable temporary database other →
        c'.catalog.HasTable temporary database other) ∧
      ∀ database table other, c.catalog.HasIndex database table other →
      c'.catalog.HasIndex database table other := by
  obtain ⟨plan, bound, answer, hplan, -, hexecute⟩ := executes_iff.mp h
  have hplanned : planIndex c.catalog unique ifNotExists name table columns source = .ok plan :=
    of_plan_of_read hread hplan
  obtain ⟨hname, i, t, htarget, htable, hreal, hfree, hcase⟩ := planIndex_eq_ok hplanned
  refine ⟨hname, ?_⟩
  obtain ⟨hindex, rfl⟩ | ⟨x, hx, rfl⟩ := hcase
  · cases hexecute
    exact ⟨hopen, ⟨i, t, htarget, htable, hreal, hfree, hindex⟩, fun _ _ _ h => h, fun _ _ _ h => h⟩
  · have hcatalog := createObjects_eq_ok hexecute
    have hi := Catalog.target?_lt hopen (Catalog.indexDefault_lt _ table) htarget
    rw [hcatalog]
    refine ⟨Catalog.isOpen_set hopen _ _, ⟨i, t, ?_, ?_, hreal, ?_, ?_⟩,
      fun _ _ _ h => h.set_index hi x,
      fun _ _ _ h => h.set_index hi x⟩
    · rw [Catalog.target?_set, Catalog.indexDefault_set_index hi, htarget]
    · rw [Catalog.table?_set_index hi, htable]
    · rw [Catalog.table?_set_index hi, hfree]
    · rw [Catalog.database_set _ hi, if_pos rfl, ← hx]
      exact Database.index?_append_self _ x

/-- An index that is there is found. -/
theorem executes_of_hasIndex
    (hread : readStatement text = .ok (.createIndex unique true name table columns source, next))
    (hname : checkObjectName name.name = .ok ())
    (h : c.catalog.HasIndex (name.database.map (·.1)) table name.name) :
    interface.Executes text c c :=
  executes_present (plan_present hread (planIndex_present hname h))

end Index

end Connection

end TypedTables.Engine
