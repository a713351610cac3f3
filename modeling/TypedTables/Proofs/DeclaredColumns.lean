import Mathlib.Data.List.Forall2
import TypedTables.Proofs.OptionalTypes
import TypedTables.Proofs.SchemaOrder

/-!
# Schemas of declarations

A list of declarations makes a schema exactly if each of them is valid and no two have the same
name, and the first one that is in the way is reported. The columns can be indexed while they are
resolved, too: each name is stored with the place of its column, a name that is stored already is
refused, and a column is looked up by its place.
-/
namespace TypedTables

/-! ### Types without an affinity -/

inductive FieldType.IsCustom : FieldType → Prop where
  | custom (codec : Codec) : IsCustom (.custom codec)
  | optional {inner : FieldType} (h : inner.IsCustom) : IsCustom (.optional inner)

/-- Custom types are those without an affinity of their own. -/
theorem FieldType.affinity?_eq_none_iff {type : FieldType} :
    type.affinity? = none ↔ type.IsCustom := by
  induction type with
  | custom codec => exact ⟨fun _ => .custom codec, fun _ => rfl⟩
  | optional inner ih =>
    rw [affinity?, ih]
    exact ⟨.optional, fun h => by cases h; assumption⟩
  | timestamp layout => cases layout <;> exact ⟨nofun, nofun⟩
  | _ => exact ⟨nofun, nofun⟩

/-- A type is left without an affinity if none is asked for and it has none of its own. -/
theorem ResolvedType.of?_eq_none_iff {type : FieldType} {asked : Option Affinity} :
    of? type asked = none ↔ asked = none ∧ type.IsCustom := by
  rw [of?_eq, Option.map_eq_none_iff, ← FieldType.affinity?_eq_none_iff]
  cases asked <;> simp

/-! ### Declarations -/

namespace Declaration

structure Valid (d : Declaration) : Prop where
  isIdentifier : Text.isIdentifier d.name = true
  affinity_ne_none : d.type.IsCustom → d.affinity ≠ none

/-- What is reported of a declaration, given the names of the declarations before it. The name comes
first, then the type, and only then the names before. -/
inductive Offends (names : List String) (d : Declaration) : SchemaFault → Prop where
  | name (h : Text.isIdentifier d.name ≠ true) : Offends names d (.columnName d.name)
  | affinity (hname : Text.isIdentifier d.name = true) (hcustom : d.type.IsCustom)
      (hasked : d.affinity = none) :
      Offends names d (.noAffinity d.name)
  | twice (hvalid : d.Valid) (hmem : d.name ∈ names) : Offends names d (.declaredTwice d.name)

variable {d : Declaration} {names names' : List String} {fault : SchemaFault}

theorem resolve_of_valid (h : d.Valid) : ∃ c, d.resolve = .ok c := by
  rw [resolve, dif_pos h.isIdentifier]
  cases htype : ResolvedType.of? d.type d.affinity with
  | some type => exact ⟨_, rfl⟩
  | none =>
    obtain ⟨hasked, hcustom⟩ := ResolvedType.of?_eq_none_iff.mp htype
    exact absurd hasked (h.affinity_ne_none hcustom)

theorem resolve_of_name (h : Text.isIdentifier d.name ≠ true) :
    d.resolve = .error (.columnName d.name) := by
  rw [resolve, dif_neg h]

theorem resolve_of_affinity (hname : Text.isIdentifier d.name = true) (hcustom : d.type.IsCustom)
    (hasked : d.affinity = none) : d.resolve = .error (.noAffinity d.name) := by
  rw [resolve, dif_pos hname, ResolvedType.of?_eq_none_iff.mpr ⟨hasked, hcustom⟩]

/-- A declaration is valid and of a new name, or there is something to report of it. -/
theorem valid_or_offends (names : List String) (d : Declaration) :
    (d.Valid ∧ d.name ∉ names) ∨ ∃ fault, d.Offends names fault := by
  by_cases hname : Text.isIdentifier d.name = true
  · by_cases htype : d.type.IsCustom ∧ d.affinity = none
    · exact .inr ⟨_, .affinity hname htype.1 htype.2⟩
    · have hvalid : d.Valid := ⟨hname, fun hcustom hasked => htype ⟨hcustom, hasked⟩⟩
      by_cases hmem : d.name ∈ names
      · exact .inr ⟨_, .twice hvalid hmem⟩
      · exact .inl ⟨hvalid, hmem⟩
  · exact .inr ⟨_, .name hname⟩

theorem Offends.congr (h : d.Offends names fault) (hnames : ∀ name, name ∈ names ↔ name ∈ names') :
    d.Offends names' fault := by
  cases h with
  | name h => exact .name h
  | affinity hname hcustom hasked => exact .affinity hname hcustom hasked
  | twice hvalid hmem => exact .twice hvalid ((hnames _).mp hmem)

structure WellFormed (taken : List String) (ds : List Declaration) : Prop where
  valid : ∀ d ∈ ds, d.Valid
  names_nodup : (ds.map Declaration.name).Nodup
  names_free : ∀ d ∈ ds, d.name ∉ taken

/-- What is reported of the first declaration that is in the way. -/
def FirstOffence (taken : List String) (ds : List Declaration) (fault : SchemaFault) : Prop :=
  ∃ before d after, ds = before ++ d :: after ∧ WellFormed taken before ∧
    d.Offends (taken ++ before.map Declaration.name) fault

variable {taken : List String} {ds : List Declaration}

theorem wellFormed_nil (taken : List String) : WellFormed taken [] := ⟨nofun, .nil, nofun⟩

/-- The name of a declaration is taken for those behind it. -/
theorem wellFormed_cons_iff :
    WellFormed taken (d :: ds) ↔ d.Valid ∧ d.name ∉ taken ∧ WellFormed (d.name :: taken) ds := by
  constructor
  · rintro ⟨hvalid, hnodup, hfree⟩
    obtain ⟨hnew, hnodup⟩ := List.nodup_cons.mp hnodup
    refine ⟨hvalid d List.mem_cons_self, hfree d List.mem_cons_self,
      fun d' hd' => hvalid d' (List.mem_cons_of_mem _ hd'), hnodup, fun d' hd' hmem => ?_⟩
    rcases List.mem_cons.mp hmem with hsame | hmem
    · exact hnew (hsame ▸ List.mem_map_of_mem hd')
    · exact hfree d' (List.mem_cons_of_mem _ hd') hmem
  · rintro ⟨hd, hnew, hvalid, hnodup, hfree⟩
    refine ⟨List.forall_mem_cons.mpr ⟨hd, hvalid⟩, List.nodup_cons.mpr ⟨fun hmem => ?_, hnodup⟩,
      List.forall_mem_cons.mpr ⟨hnew,
        fun d' hd' hmem => hfree d' hd' (List.mem_cons_of_mem _ hmem)⟩⟩
    obtain ⟨d', hd', hsame⟩ := List.mem_map.mp hmem
    exact hfree d' hd' (hsame ▸ List.mem_cons_self)

theorem FirstOffence.head (h : d.Offends taken fault) : FirstOffence taken (d :: ds) fault :=
  ⟨[], d, ds, rfl, wellFormed_nil taken, by simpa using h⟩

theorem FirstOffence.tail (hvalid : d.Valid) (hnew : d.name ∉ taken)
    (h : FirstOffence (d.name :: taken) ds fault) : FirstOffence taken (d :: ds) fault := by
  obtain ⟨before, d', after, rfl, hbefore, hd'⟩ := h
  refine ⟨d :: before, d', after, rfl, wellFormed_cons_iff.mpr ⟨hvalid, hnew, hbefore⟩,
    hd'.congr fun name => ?_⟩
  simp [or_left_comm]

/-- Where a list is not well formed, one of its declarations is the first in the way. -/
theorem wellFormed_or_firstOffence (taken : List String) (ds : List Declaration) :
    WellFormed taken ds ∨ ∃ fault, FirstOffence taken ds fault := by
  induction ds generalizing taken with
  | nil => exact .inl (wellFormed_nil taken)
  | cons d ds ih =>
    obtain ⟨hvalid, hnew⟩ | ⟨fault, hfault⟩ := valid_or_offends taken d
    · obtain h | ⟨fault, hfault⟩ := ih (d.name :: taken)
      · exact .inl (wellFormed_cons_iff.mpr ⟨hvalid, hnew, h⟩)
      · exact .inr ⟨fault, hfault.tail hvalid hnew⟩
    · exact .inr ⟨fault, .head hfault⟩

end Declaration

/-! ### Resolving in order -/

namespace Schema

open Declaration

variable {taken : List String} {d : Declaration} {ds : List Declaration}
    {c : Column} {cs : List Column}
  {fault : SchemaFault} {s : Schema} {e : Error}

/-- The columns of declarations, one for each and in their order. -/
def Resolved : List Declaration → List Column → Prop := List.Forall₂ fun d c => d.resolve = .ok c

theorem resolveAll_cons_of_ok (hd : d.resolve = .ok c) (hnew : d.name ∉ taken) :
    resolveAll taken (d :: ds) = (resolveAll (d.name :: taken) ds).map (c :: ·) := by
  have hnot : ¬ taken.contains d.name = true := by simpa using hnew
  rw [resolveAll, hd, except_ok_bind, name_of_resolve hd, if_neg hnot]
  cases resolveAll (d.name :: taken) ds <;> rfl

theorem resolveAll_cons_of_offends (h : d.Offends taken fault) :
    resolveAll taken (d :: ds) = .error fault := by
  rw [resolveAll]
  cases h with
  | name h =>
    rw [resolve_of_name h]
    rfl
  | affinity hname hcustom hasked =>
    rw [resolve_of_affinity hname hcustom hasked]
    rfl
  | twice hvalid hmem =>
    obtain ⟨c, hc⟩ := resolve_of_valid hvalid
    rw [hc, except_ok_bind, name_of_resolve hc, if_pos (List.contains_iff_mem.mpr hmem)]

/-- Each declaration of a well-formed list is resolved. -/
theorem resolveAll_of_wellFormed (h : WellFormed taken ds) :
    ∃ cs, resolveAll taken ds = .ok cs ∧ Resolved ds cs := by
  induction ds generalizing taken with
  | nil => exact ⟨[], rfl, .nil⟩
  | cons d ds ih =>
    obtain ⟨hvalid, hnew, hrest⟩ := wellFormed_cons_iff.mp h
    obtain ⟨c, hc⟩ := resolve_of_valid hvalid
    obtain ⟨cs, hcs, hresolved⟩ := ih hrest
    refine ⟨c :: cs, ?_, .cons hc hresolved⟩
    rw [resolveAll_cons_of_ok hc hnew, hcs]
    rfl

/-- Behind declarations that are well formed, the one that is in the way is reached and reported. -/
theorem resolveAll_of_firstOffence (h : FirstOffence taken ds fault) :
    resolveAll taken ds = .error fault := by
  obtain ⟨before, d, after, rfl, hbefore, hd⟩ := h
  induction before generalizing taken with
  | nil => exact resolveAll_cons_of_offends (by simpa using hd)
  | cons d' before ih =>
    obtain ⟨hvalid, hnew, hrest⟩ := wellFormed_cons_iff.mp hbefore
    obtain ⟨c, hc⟩ := resolve_of_valid hvalid
    rw [List.cons_append, resolveAll_cons_of_ok hc hnew,
      ih hrest (hd.congr fun name => by simp [or_left_comm])]
    rfl

theorem resolveAll_eq_ok (h : resolveAll taken ds = .ok cs) :
    WellFormed taken ds ∧ Resolved ds cs := by
  obtain hwell | ⟨fault, hfault⟩ := wellFormed_or_firstOffence taken ds
  · obtain ⟨cs', hcs', hresolved⟩ := resolveAll_of_wellFormed hwell
    obtain rfl : cs' = cs := Except.ok.inj (hcs'.symm.trans h)
    exact ⟨hwell, hresolved⟩
  · exact absurd ((resolveAll_of_firstOffence hfault).symm.trans h) nofun

theorem resolveAll_eq_error_iff :
    resolveAll taken ds = .error fault ↔ FirstOffence taken ds fault := by
  refine ⟨fun h => ?_, resolveAll_of_firstOffence⟩
  obtain hwell | ⟨fault', hfault⟩ := wellFormed_or_firstOffence taken ds
  · obtain ⟨cs, hcs, -⟩ := resolveAll_of_wellFormed hwell
    exact absurd (hcs.symm.trans h) nofun
  · obtain rfl : fault' = fault :=
      Except.error.inj ((resolveAll_of_firstOffence hfault).symm.trans h)
    exact hfault

theorem columns_of_ofDeclarations (h : ofDeclarations ds = .ok s) :
    ds ≠ [] ∧ resolveAll [] ds = .ok s.columns := by
  rw [ofDeclarations] at h
  split at h
  · cases h
  next hne =>
    split at h
    · cases h
    next hcs =>
      cases h
      exact ⟨hne, hcs⟩

theorem ofDeclarations_of_columns (hne : ds ≠ []) (h : resolveAll [] ds = .ok cs) :
    ∃ s, ofDeclarations ds = .ok s ∧ s.columns = cs := by
  rw [ofDeclarations, dif_neg hne]
  split
  next hfault => exact absurd (hfault.symm.trans h) nofun
  next hcs => exact ⟨_, rfl, Except.ok.inj (hcs.symm.trans h)⟩

theorem ofDeclarations_eq_error_iff : ofDeclarations ds = .error e ↔
    (ds = [] ∧ e = .schema .noColumns) ∨ ∃ fault, FirstOffence [] ds fault ∧ e = .schema fault := by
  have hne : ∀ fault, FirstOffence [] ds fault → ds ≠ [] := by
    rintro fault ⟨before, d, after, rfl, -⟩
    simp
  rw [ofDeclarations]
  split
  next hempty =>
    constructor
    · rintro ⟨⟩
      exact .inl ⟨hempty, rfl⟩
    · rintro (⟨-, rfl⟩ | ⟨fault, hfault, -⟩)
      · rfl
      · exact absurd hempty (hne fault hfault)
  next hnonempty =>
    split
    next fault hfault =>
      constructor
      · rintro ⟨⟩
        exact .inr ⟨fault, resolveAll_eq_error_iff.mp hfault, rfl⟩
      · rintro (⟨hempty, -⟩ | ⟨fault', hfault', rfl⟩)
        · exact absurd hempty hnonempty
        · rw [Except.error.inj (hfault.symm.trans (resolveAll_eq_error_iff.mpr hfault'))]
    next cs hcs =>
      constructor
      · nofun
      · rintro (⟨hempty, -⟩ | ⟨fault', hfault', -⟩)
        · exact absurd hempty hnonempty
        · exact absurd (hcs.symm.trans (resolveAll_eq_error_iff.mpr hfault')) nofun

end Schema

/-! ### Indexed columns -/

structure IndexedColumns where
  columns : List Column
  places : Keyed Nat

namespace IndexedColumns

variable {x y : IndexedColumns} {d : Declaration} {ds : List Declaration}
    {taken : List String} {s : Schema}

/-- Adds the column of a declaration and the place of its name, if the name has none yet. -/
def add (x : IndexedColumns) (d : Declaration) : Except SchemaFault IndexedColumns := do
  let c ← d.resolve
  if (x.places.get? c.name).isSome then .error (.declaredTwice c.name)
  else .ok ⟨x.columns ++ [c], x.places.insert c.name x.columns.length⟩

/-- Adds the columns of declarations, one after the other. -/
def ofDeclarations (ds : List Declaration) : Except Error IndexedColumns :=
  if ds.isEmpty then .error (.schema .noColumns)
  else (ds.foldlM add ⟨[], .empty⟩).mapError .schema

def contains (x : IndexedColumns) (name : String) : Bool := (x.places.get? name).isSome

def column (x : IndexedColumns) (name : String) : Except Error Column :=
  match (x.places.get? name).bind (x.columns[·]?) with
  | some c => .ok c
  | none => .error (.schema (.unknownColumn name))

/-- The place of a name is that of the column with this name. -/
def Agrees (x : IndexedColumns) : Prop :=
  ∀ name i, x.places.get? name = some i ↔ x.columns[i]?.map Column.name = some name

theorem add_eq_ok (h : x.add d = .ok y) : ∃ c, d.resolve = .ok c ∧ x.places.get? c.name = none ∧
    y = ⟨x.columns ++ [c], x.places.insert c.name x.columns.length⟩ := by
  obtain ⟨c, hc, hy⟩ := except_bind_eq_ok.mp h
  split at hy
  · cases hy
  next hfree =>
    cases hy
    exact ⟨c, hc, by simpa using hfree, rfl⟩

theorem name_concat {cs : List Column} {c : Column} {name : String} {i : Nat} :
    (cs ++ [c])[i]?.map Column.name = some name ↔
      cs[i]?.map Column.name = some name ∨ i = cs.length ∧ c.name = name := by
  rw [List.getElem?_append]
  split
  next hlt =>
    have hne : i ≠ cs.length := by omega
    simp [hne]
  next hge =>
    have hnone : cs[i]? = none := List.getElem?_eq_none (by omega)
    rw [hnone, List.getElem?_singleton]
    by_cases hi : i = cs.length
    · simp [hi]
    · have hne : i - cs.length ≠ 0 := by omega
      simp [hi, hne]

/-- A name is added together with the column at its place. -/
theorem Agrees.add (hx : x.Agrees) (h : x.add d = .ok y) : y.Agrees := by
  obtain ⟨c, -, hfree, rfl⟩ := add_eq_ok h
  intro name i
  rw [name_concat, ← hx]
  by_cases hname : name = c.name
  · subst hname
    rw [Keyed.get?_insert_self, hfree]
    simp [eq_comm]
  · rw [Keyed.get?_insert_of_ne _ hname]
    simp [Ne.symm hname]

theorem Agrees.foldlM (hx : x.Agrees) (h : ds.foldlM IndexedColumns.add x = .ok y) : y.Agrees := by
  induction ds generalizing x with
  | nil =>
    cases h
    exact hx
  | cons d ds ih =>
    rw [List.foldlM_cons] at h
    obtain ⟨z, hz, hrest⟩ := except_bind_eq_ok.mp h
    exact ih (hx.add hz) hrest

/-- The loop ends with the columns that are resolved with the names of the places taken, or with the
same fault. -/
theorem columns_foldlM (hplaces : ∀ name, name ∈ taken ↔ (x.places.get? name).isSome = true) :
    (ds.foldlM add x).map columns = (Schema.resolveAll taken ds).map (x.columns ++ ·) := by
  induction ds generalizing x taken with
  | nil => simp [Schema.resolveAll, Except.map, pure, Except.pure]
  | cons d ds ih =>
    rw [List.foldlM_cons, Schema.resolveAll, IndexedColumns.add]
    cases hd : d.resolve with
    | error fault => rfl
    | ok c =>
      by_cases hc : c.name ∈ taken
      · rw [except_ok_bind, except_ok_bind, if_pos ((hplaces _).mp hc),
          if_pos (List.contains_iff_mem.mpr hc)]
        rfl
      · have hstep : ∀ name, name ∈ c.name :: taken ↔
            ((x.places.insert c.name x.columns.length).get? name).isSome = true := by
          intro name
          rw [List.mem_cons]
          by_cases hname : name = c.name
          · subst hname
            simp
          · rw [Keyed.get?_insert_of_ne _ hname, ← hplaces]
            simp [hname]
        rw [except_ok_bind, except_ok_bind, if_neg (mt (hplaces _).mpr hc),
          if_neg (by simpa using hc), except_ok_bind, ih hstep]
        cases Schema.resolveAll (c.name :: taken) ds with
        | error fault => rfl
        | ok cs => simp [Except.map, bind, Except.bind]

/-- Both ways of resolving declarations have the same columns, or the same error. -/
theorem columns_ofDeclarations (ds : List Declaration) :
    (ofDeclarations ds).map columns = (Schema.ofDeclarations ds).map Schema.columns := by
  by_cases hempty : ds = []
  · subst hempty
    rfl
  have hloop : (ds.foldlM add ⟨[], .empty⟩).map columns = (Schema.resolveAll [] ds).map ([] ++ ·) :=
    columns_foldlM (by simp)
  rw [ofDeclarations, if_neg (by simpa using hempty)]
  cases hresolved : Schema.resolveAll [] ds with
  | error fault =>
    rw [hresolved] at hloop
    have hschema : Schema.ofDeclarations ds = .error (.schema fault) :=
      Schema.ofDeclarations_eq_error_iff.mpr
        (.inr ⟨fault, Schema.resolveAll_eq_error_iff.mp hresolved, rfl⟩)
    rw [except_map_eq_error.mp hloop, hschema]
    rfl
  | ok cs =>
    rw [hresolved] at hloop
    obtain ⟨x, hx, hcolumns⟩ := except_map_eq_ok.mp hloop
    obtain ⟨s, hs, hsame⟩ := Schema.ofDeclarations_of_columns hempty hresolved
    rw [hx, hs, except_mapError_ok, Except.map, Except.map, hcolumns, hsame]
    rfl

theorem agrees_of_ofDeclarations (h : ofDeclarations ds = .ok x) : x.Agrees := by
  rw [ofDeclarations] at h
  split at h
  · cases h
  · have hempty : Agrees ⟨[], .empty⟩ := fun name i => by simp
    exact hempty.foldlM (except_mapError_eq_ok.mp h)

/-- The names with a place are those of the columns. -/
theorem Agrees.isSome_place (hx : x.Agrees) {name : String} :
    (x.places.get? name).isSome = true ↔ name ∈ x.columns.map Column.name := by
  rw [Option.isSome_iff_exists, List.mem_iff_getElem?]
  exact exists_congr fun i => by rw [hx, List.getElem?_map]

theorem Agrees.contains_eq (hx : x.Agrees) (hcolumns : x.columns = s.columns) (name : String) :
    x.contains name = s.contains name := by
  rw [Bool.eq_iff_iff, contains, hx.isSome_place, hcolumns, s.contains_iff_mem]
  rfl

/-- A column that is found at the place of its name is the one that is found in the list. -/
theorem Agrees.column_eq (hx : x.Agrees) (hcolumns : x.columns = s.columns) (name : String) :
    x.column name = s.column name := by
  rw [column]
  cases hplace : x.places.get? name with
  | some i =>
    obtain ⟨c, hc, hname⟩ := Option.map_eq_some_iff.mp ((hx name i).mp hplace)
    have hmem : c ∈ s.columns := hcolumns ▸ List.mem_of_getElem? hc
    rw [Option.bind_some, hc, Schema.column_eq_ok.mpr ⟨hmem, hname⟩]
  | none =>
    have hnot : s.contains name ≠ true := by
      rw [← hx.contains_eq hcolumns, contains, hplace]
      decide
    rw [Schema.column_eq_error_iff.mpr ⟨hnot, rfl⟩]
    rfl

end IndexedColumns

/-- A list of declarations makes a schema exactly if it is not empty, every name is an identifier,
every type has an affinity or is asked for one, and the names are distinct. Then the columns are
those of the declarations, in order, and a name is found if it is the name of a column, which is
answered for it; the columns that are indexed in one loop are the same, each name has the place of
its column, and both look-ups answer what they do in the list. Otherwise the first declaration that
is in the way is reported. -/
theorem schema_of_declarations (ds : List Declaration) :
    ((∃ s, Schema.ofDeclarations ds = .ok s) ↔
      ds ≠ [] ∧ (∀ d ∈ ds, d.Valid) ∧ (ds.map Declaration.name).Nodup) ∧
    (∀ s, Schema.ofDeclarations ds = .ok s →
      Schema.Resolved ds s.columns ∧
      (∀ name, s.contains name = true ↔ ∃ c ∈ s.columns, c.name = name) ∧
      (∀ name c, s.column name = .ok c ↔ c ∈ s.columns ∧ c.name = name) ∧
      (∀ name e, s.column name = .error e ↔ s.contains name ≠ true ∧
        e = .schema (.unknownColumn name)) ∧
      ∃ x, IndexedColumns.ofDeclarations ds = .ok x ∧ x.columns = s.columns ∧ x.Agrees ∧
        ∀ name, x.contains name = s.contains name ∧ x.column name = s.column name) ∧
    ∀ e,
      (Schema.ofDeclarations ds = .error e ↔ (ds = [] ∧ e = .schema .noColumns) ∨
        ∃ before d after fault, ds = before ++ d :: after ∧ (∀ d' ∈ before, d'.Valid) ∧
          (before.map Declaration.name).Nodup ∧ d.Offends (before.map Declaration.name) fault ∧
          e = .schema fault) ∧
      (IndexedColumns.ofDeclarations ds = .error e ↔ Schema.ofDeclarations ds = .error e) := by
  have hindexed := IndexedColumns.columns_ofDeclarations ds
  refine ⟨⟨?_, ?_⟩, ?_, fun e => ⟨?_, ?_⟩⟩
  · rintro ⟨s, hs⟩
    obtain ⟨hne, hcs⟩ := Schema.columns_of_ofDeclarations hs
    obtain ⟨⟨hvalid, hnodup, -⟩, -⟩ := Schema.resolveAll_eq_ok hcs
    exact ⟨hne, hvalid, hnodup⟩
  · rintro ⟨hne, hvalid, hnodup⟩
    have hwell : Declaration.WellFormed [] ds := ⟨hvalid, hnodup, by simp⟩
    obtain ⟨cs, hcs, -⟩ := Schema.resolveAll_of_wellFormed hwell
    obtain ⟨s, hs, -⟩ := Schema.ofDeclarations_of_columns hne hcs
    exact ⟨s, hs⟩
  · intro s hs
    obtain ⟨-, hcs⟩ := Schema.columns_of_ofDeclarations hs
    rw [hs] at hindexed
    obtain ⟨x, hx, hcolumns⟩ := except_map_eq_ok.mp hindexed
    have hagrees := IndexedColumns.agrees_of_ofDeclarations hx
    refine ⟨(Schema.resolveAll_eq_ok hcs).2, fun name => ?_, fun name c => Schema.column_eq_ok,
      fun name e => Schema.column_eq_error_iff, x, hx, hcolumns, hagrees,
      fun name => ⟨hagrees.contains_eq hcolumns name, hagrees.column_eq hcolumns name⟩⟩
    rw [s.contains_iff_mem, Schema.names, List.mem_map]
  · rw [Schema.ofDeclarations_eq_error_iff]
    refine or_congr_right ⟨?_, ?_⟩
    · rintro ⟨fault, ⟨before, d, after, hds, hbefore, hd⟩, he⟩
      exact ⟨before, d, after, fault, hds, hbefore.valid, hbefore.names_nodup, hd, he⟩
    · rintro ⟨before, d, after, fault, hds, hvalid, hnodup, hd, he⟩
      exact ⟨fault, ⟨before, d, after, hds, ⟨hvalid, hnodup, by simp⟩, hd⟩, he⟩
  · rw [← except_map_eq_error (f := IndexedColumns.columns), hindexed, except_map_eq_error]

/-- The name of the second declaration is reported, and not that of the third one. -/
example : Schema.ofDeclarations [.of "id" .integer, .of "2nd" .integer, .of "id" .integer] =
    .error (.schema (.columnName "2nd")) := rfl

end TypedTables
