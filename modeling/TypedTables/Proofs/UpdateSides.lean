import TypedTables.Engine.Connection
import TypedTables.Example.Tables
import TypedTables.Proofs.Encoding
import TypedTables.Proofs.SchemaOrder
import TypedTables.Table.Update

/-!
# The two sides of an update

An update sets columns and compares columns, and a column can be on both sides. The values of the
two sides travel in one list of parameters, apart only by the mark in front of the names of the
compared columns. They stay apart exactly if no column that is set is named like the mark and a
compared column.
-/
namespace TypedTables

variable {σ ρ : Type}

structure Beside where
  column : String
  placeholder : String
  deriving DecidableEq

/-- A column and its placeholder as the text has them. -/
def Beside.text (b : Beside) : String := b.column ++ "=" ++ TypedTables.placeholder b.placeholder

/-- The columns of a row in the order of the table, each with the placeholder under a mark. -/
def Schema.beside (s : Schema) (mark : String) (row : Row) : List Beside :=
  (s.names.filter row.names.contains).map fun column => ⟨column, mark ++ column⟩

def updateText (table : TableName) (conflict : Option Conflict) (assigned compared : List Beside) :
    String :=
  "UPDATE " ++ conflictText conflict ++ table.text ++ " SET " ++
    commas (assigned.map Beside.text) ++
      (" WHERE " ++ String.intercalate " AND " (compared.map Beside.text))

/-- A placeholder beside a column is bound to the stored form of the value that a row has for it. -/
def Schema.Carries (s : Schema) (row : Row) (params : Params) (b : Beside) : Prop :=
  ∃ v stored, row.get? b.column = some v ∧ s.stored b.column v = .ok stored ∧
    params.get? b.placeholder = some stored

structure SidesApart (s : Schema) (set compared : Row) (params : Params) : Prop where
  set_carried : ∀ b ∈ s.beside "" set, s.Carries set params b
  compared_carried : ∀ b ∈ s.beside whereMark compared, s.Carries compared params b
  disjoint : ∀ a ∈ s.beside "" set, ∀ b ∈ s.beside whereMark compared, a.placeholder ≠ b.placeholder

/-- No column that is set is named like the mark and a compared column. -/
def NoneShadowed (set compared : Row) : Prop :=
  ∀ c ∈ set.names, ∀ d ∈ compared.names, c ≠ whereMark ++ d

/-- What the text and the parameters of an update say about its two sides: compared columns always
carry their values, those that are set do unless they share a placeholder, and the sides are apart
exactly if no column is shadowed. -/
structure SidesOf (t : Table ρ) (conflict : Option Conflict) (set compared : Row) (text : String)
    (params : Params) : Prop where
  text_eq : text = updateText t.name conflict (t.schema.beside "" set)
    (t.schema.beside whereMark compared)
  set_declared : ∀ c ∈ set.names, c ∈ t.schema.names
  compared_declared : ∀ d ∈ compared.names, d ∈ t.schema.names
  compared_carried : ∀ b ∈ t.schema.beside whereMark compared, t.schema.Carries compared params b
  set_carried : ∀ b ∈ t.schema.beside "" set,
    (∀ d ∈ compared.names, b.column ≠ whereMark ++ d) → t.schema.Carries set params b
  apart_iff : SidesApart t.schema set compared params ↔ NoneShadowed set compared

section Sides

variable {s : Schema} {set compared : Row} {p q : Params}

theorem mem_beside {mark : String} {row : Row} (h : ∀ c ∈ row.names, c ∈ s.names) {b : Beside} :
    b ∈ s.beside mark row ↔ b.column ∈ row.names ∧ b.placeholder = mark ++ b.column := by
  simp only [Schema.beside, List.mem_map, List.mem_filter, List.contains_iff_mem]
  constructor
  · rintro ⟨c, ⟨-, hc⟩, rfl⟩
    exact ⟨hc, rfl⟩
  · rintro ⟨hc, hp⟩
    exact ⟨b.column, ⟨h _ hc, hc⟩, by rw [← hp]⟩

theorem beside_text (mark : String) (row : Row) :
    (s.beside mark row).map Beside.text =
      (s.names.filter row.names.contains).map fun c => c ++ "=" ++ placeholder (mark ++ c) := by
  rw [Schema.beside, List.map_map]
  rfl

/-- The mark is no colon, so a name behind it is bound as it stands. -/
theorem bareName_marked (name : String) :
    Params.bareName (whereMark ++ name) = whereMark ++ name := by
  refine Params.bareName_of_head ?_
  simp [whereMark]

/-- What the merged parameters bind: compared columns under their marked names, other names as
before. -/
theorem get?_merged (hq : s.encodeRow compared whereMark = .ok q) (name : String) :
    (p.extend q).get? name = (q.get? name).or (p.get? name) := by
  refine Params.get?_extend p q ?_ name
  intro n hn
  rw [(Schema.encodeRow_spec hq).1] at hn
  obtain ⟨d, -, rfl⟩ := List.mem_map.mp hn
  exact bareName_marked d

/-- A compared column carries its value, since its side is bound last. -/
theorem compared_carried (hq : s.encodeRow compared whereMark = .ok q)
    (hd : ∀ d ∈ compared.names, d ∈ s.names) :
    ∀ b ∈ s.beside whereMark compared, s.Carries compared (p.extend q) b := by
  intro b hb
  obtain ⟨hc, hp⟩ := (mem_beside hd).mp hb
  obtain ⟨v, hv⟩ := compared.mem_names_iff.mp hc
  obtain ⟨stored, hs, hget⟩ := (Schema.encodeRow_spec hq).2 _ v hv
  refine ⟨v, stored, hv, hs, ?_⟩
  rw [get?_merged hq, hp, hget, Option.some_or]

/-- A column that is set carries its value if no compared column takes its placeholder. -/
theorem set_carried (hp : s.encodeRow set "" = .ok p) (hq : s.encodeRow compared whereMark = .ok q)
    (hc : ∀ c ∈ set.names, c ∈ s.names) :
    ∀ b ∈ s.beside "" set, (∀ d ∈ compared.names, b.column ≠ whereMark ++ d) →
      s.Carries set (p.extend q) b := by
  intro b hb hfree
  obtain ⟨hmem, hplace⟩ := (mem_beside hc).mp hb
  obtain ⟨v, hv⟩ := set.mem_names_iff.mp hmem
  obtain ⟨stored, hs, hget⟩ := (Schema.encodeRow_spec hp).2 _ v hv
  rw [String.empty_append] at hget hplace
  have hnone : q.get? b.column = none := by
    rw [Params.get?_eq_none_iff, (Schema.encodeRow_spec hq).1]
    intro hm
    obtain ⟨d, hd, heq⟩ := List.mem_map.mp hm
    exact hfree d hd heq.symm
  refine ⟨v, stored, hv, hs, ?_⟩
  rw [get?_merged hq, hplace, hnone, Option.none_or, hget]

theorem sidesApart_iff (hp : s.encodeRow set "" = .ok p)
    (hq : s.encodeRow compared whereMark = .ok q) (hc : ∀ c ∈ set.names, c ∈ s.names)
    (hd : ∀ d ∈ compared.names, d ∈ s.names) :
    SidesApart s set compared (p.extend q) ↔ NoneShadowed set compared := by
  constructor
  · intro h c hcm d hdm heq
    exact h.disjoint ⟨c, c⟩ ((mem_beside hc).mpr ⟨hcm, (String.empty_append).symm⟩)
      ⟨d, whereMark ++ d⟩ ((mem_beside hd).mpr ⟨hdm, rfl⟩) heq
  · intro h
    refine ⟨?_, compared_carried hq hd, ?_⟩
    · intro b hb
      exact set_carried hp hq hc b hb (h b.column ((mem_beside hc).mp hb).1)
    · intro a ha b hb heq
      obtain ⟨ham, hap⟩ := (mem_beside hc).mp ha
      obtain ⟨hbm, hbp⟩ := (mem_beside hd).mp hb
      rw [hap, hbp, String.empty_append] at heq
      exact h _ ham _ hbm heq

end Sides

section Text

variable {s : Schema} {table : TableName} {set compared : Row} {conflict : Option Conflict}

/-- The text of an update by columns: both lists of columns are in the order of the table. -/
theorem text_of_statementText {cs ds : List String} {text : String}
    (h : s.statementText table (.update ⟨cs, .columns ds, conflict⟩) = .ok text) :
    ∃ cs' ds', s.ordered cs = .ok cs' ∧ s.ordered ds = .ok ds' ∧
      text = (Statement.update table cs' conflict (.equalities ds')).text := by
  obtain ⟨statement, hst, rfl⟩ := except_map_eq_ok.mp h
  simp only [Statement.ofShape, except_bind_eq_ok] at hst
  obtain ⟨cs', hcs, hst⟩ := hst
  split at hst
  · simp at hst
  · simp only [Schema.condition, except_bind_eq_ok] at hst
    obtain ⟨condition, ⟨ds', hds, hcond⟩, hst⟩ := hst
    split at hcond
    · simp at hcond
    · cases hcond
      cases hst
      exact ⟨cs', ds', hcs, hds, rfl⟩

/-- The text of an update whose two lists name the columns of two rows. -/
theorem text_of_rows {cs ds : List String} {text : String}
    (h : s.statementText table (.update ⟨cs, .columns ds, conflict⟩) = .ok text)
    (hcs : ∀ name, name ∈ cs ↔ name ∈ set.names) (hds : ∀ name, name ∈ ds ↔ name ∈ compared.names) :
    text = updateText table conflict (s.beside "" set) (s.beside whereMark compared) ∧
      (∀ c ∈ set.names, c ∈ s.names) ∧ ∀ d ∈ compared.names, d ∈ s.names := by
  obtain ⟨cs', ds', hcs', hds', rfl⟩ := text_of_statementText h
  obtain ⟨hc, rfl⟩ := Schema.ordered_eq_ok.mp hcs'
  obtain ⟨hd, rfl⟩ := Schema.ordered_eq_ok.mp hds'
  have hfilter : ∀ {as bs : List String}, (∀ name, name ∈ as ↔ name ∈ bs) →
      s.names.filter as.contains = s.names.filter bs.contains := by
    intro as bs hab
    refine List.filter_congr ?_
    intro name _
    rw [Bool.eq_iff_iff, List.contains_iff_mem, List.contains_iff_mem]
    exact hab name
  refine ⟨?_, fun c hm => hc c ((hcs c).mpr hm), fun d hm => hd d ((hds d).mpr hm)⟩
  have hplain : (fun c => c ++ "=" ++ placeholder ("" ++ c)) = fun c =>
      c ++ "=" ++ placeholder c := by
    funext c
    rw [String.empty_append]
  rw [updateText, beside_text, beside_text, ← hfilter hcs, ← hfilter hds, hplain]
  rfl

end Text

/-- The names of a row that was checked against a list of columns are the columns of the list. -/
theorem mem_names_of_expectColumns {row : Row} {columns : List String} {what : String}
    (h : Table.expectColumns row columns what = .ok ()) (name : String) :
    name ∈ columns ↔ name ∈ row.names := by
  simp only [Table.expectColumns] at h
  split at h
  next heq =>
    rw [heq, Keyed.mem_names_ofList]
    simp
  · simp at h

namespace Table

variable {t : Table ρ}

/-- The sides of one of many updates. -/
theorem sidesOf_encodeUpdate {cs ds : List String} {set compared : Row} {conflict : Option Conflict}
    {text : String} {params : Params}
    (ht : t.schema.statementText t.name (.update ⟨cs, .columns ds, conflict⟩) = .ok text)
    (h : t.encodeUpdate cs (.columns ds) (set, compared) = .ok params) :
    SidesOf t conflict set compared text params := by
  simp only [encodeUpdate, encodeCompared, except_bind_eq_ok] at h
  obtain ⟨⟨⟩, hset, p, hp, q, ⟨⟨⟩, hcompared, hq⟩, hparams⟩ := h
  cases hparams
  obtain ⟨rfl, hc, hd⟩ := text_of_rows ht (mem_names_of_expectColumns hset)
    (mem_names_of_expectColumns hcompared)
  exact ⟨rfl, hc, hd, TypedTables.compared_carried hq hd, TypedTables.set_carried hp hq hc,
    sidesApart_iff hp hq hc hd⟩

/-- What an accepted update hands to the engine, whatever the table was asked for earlier. -/
theorem update_eq_ok (E : Engine.Interface σ) {earlier : List Shape} {set compared : Row}
    {conflict : Option Conflict} {job : Job σ Nat}
    (h : (t.update E set (.eq compared) conflict (t.newCache.requested earlier)).1 = .ok job) :
    ∃ text params, job = E.change text params ∧ SidesOf t conflict set compared text params := by
  simp only [update, building_bind_eq_ok, checked_apply, building_pure, Except.ok.injEq] at h
  obtain ⟨cs, hcs, ⟨predicate, q⟩, hf, text, ht, p, hp, rfl⟩ := h
  simp only [Filter.compile] at hf
  split at hf
  · simp at hf
  · simp only [except_bind_eq_ok] at hf
    obtain ⟨ds, hds, q', hq, heq⟩ := hf
    cases heq
    rw [newCache, statement_requested] at ht
    obtain ⟨rfl, hc, hd⟩ := text_of_rows ht (fun name => Schema.mem_ordered_iff hcs)
      (fun name => Schema.mem_ordered_iff hds)
    exact ⟨_, _, rfl, rfl, hc, hd, TypedTables.compared_carried hq hd,
      TypedTables.set_carried hp hq hc, sidesApart_iff hp hq hc hd⟩

/-- What accepted updates of many pairs hand to the engine. -/
theorem updateMany_eq_ok (E : Engine.Interface σ) {earlier : List Shape}
    {columns names : List String} {pairs : List (Row × Row)} {job : Job σ Nat}
    (h : (t.updateMany E columns (.columns names) pairs (t.newCache.requested earlier)).1 =
      .ok job) :
    ∃ text cs ds, t.schema.ordered columns = .ok cs ∧ t.schema.ordered names = .ok ds ∧
      job = E.batch text (t.encodeUpdate cs (.columns ds)) pairs ∧
      ∀ pair params, t.encodeUpdate cs (.columns ds) pair = .ok params →
        SidesOf t none pair.1 pair.2 text params := by
  simp only [updateMany, building_bind_eq_ok, checked_apply, building_pure, Except.ok.injEq] at h
  obtain ⟨cs, hcs, predicate, hpredicate, text, ht, rfl⟩ := h
  obtain ⟨ds, hds, rfl⟩ := except_map_eq_ok.mp hpredicate
  rw [newCache, statement_requested] at ht
  exact ⟨text, cs, ds, hcs, hds, rfl, fun pair params hparams => sidesOf_encodeUpdate ht hparams⟩

end Table

/-- An accepted update, alone or one of many, keeps its two sides apart exactly if it sets no column
that is named like the mark and a compared column. -/
theorem update_sides (t : Table ρ) (E : Engine.Interface σ) (earlier : List Shape) :
    (∀ set compared conflict job,
      (t.update E set (.eq compared) conflict (t.newCache.requested earlier)).1 = .ok job →
        ∃ text params, job = E.change text params ∧ SidesOf t conflict set compared text params) ∧
    (∀ columns names pairs job,
      (t.updateMany E columns (.columns names) pairs (t.newCache.requested earlier)).1 = .ok job →
        ∃ text cs ds, t.schema.ordered columns = .ok cs ∧ t.schema.ordered names = .ok ds ∧
          job = E.batch text (t.encodeUpdate cs (.columns ds)) pairs ∧
          ∀ pair params, t.encodeUpdate cs (.columns ds) pair = .ok params →
            SidesOf t none pair.1 pair.2 text params) :=
  ⟨fun _ _ _ _ h => Table.update_eq_ok E h, fun _ _ _ _ h => Table.updateMany_eq_ok E h⟩

open Example

/-- The column `a` is set and compared at once, alone and as one of many. -/
theorem update_sides_of_one_column :
    (∃ text params, SidesOf shadowing none (oneInteger "a" 1) (oneInteger "a" 2) text params) ∧
      ∃ text params,
      shadowing.encodeUpdate ["a"] (.columns ["a"]) (oneInteger "a" 1, oneInteger "a" 2) =
        .ok params ∧ SidesOf shadowing none (oneInteger "a" 1) (oneInteger "a" 2) text params := by
  have h := update_sides shadowing Engine.Connection.interface []
  constructor
  · obtain ⟨text, params, -, hs⟩ := h.1 (oneInteger "a" 1) (oneInteger "a" 2) none _ rfl
    exact ⟨text, params, hs⟩
  · obtain ⟨text, cs, ds, hcs, hds, -, hs⟩ :=
      h.2 ["a"] ["a"] [(oneInteger "a" 1, oneInteger "a" 2)] _ rfl
    cases hcs
    cases hds
    exact ⟨text, _, rfl, hs (oneInteger "a" 1, oneInteger "a" 2) _ rfl⟩

/-- Setting `__where_a` where `a` has a value is accepted, and sets `__where_a` to the compared
value. -/
theorem shadowed_update_not_apart :
    shadowing.type.schema = .ok shadowing.schema ∧
    ∃ params, (∀ (σ : Type) (E : Engine.Interface σ),
      (shadowing.update E (oneInteger "__where_a" 1) (.eq (oneInteger "a" 2)) none
        shadowing.newCache).1 =
        .ok (E.change "UPDATE t SET __where_a=:__where_a WHERE a=:__where_a" params)) ∧
      params.entries = [("__where_a", .integer 2)] ∧
      ¬ SidesApart shadowing.schema (oneInteger "__where_a" 1) (oneInteger "a" 2) params := by
  refine ⟨rfl, _, fun σ E => rfl, rfl, ?_⟩
  intro h
  exact h.disjoint ⟨"__where_a", "__where_a"⟩ (by decide) ⟨"a", "__where_a"⟩ (by decide) rfl

end TypedTables
