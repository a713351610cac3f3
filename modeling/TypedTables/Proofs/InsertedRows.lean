import TypedTables.Proofs.DeletedRows
import TypedTables.Proofs.SelectionLimits
import TypedTables.Proofs.Transactions

/-!
# Selecting an inserted row

A record that was inserted is selected again by its own fields. The comparison is the equality of
the engine, which is not true of NULL: a field that is stored as NULL chooses no row, not even its
own.
-/
namespace TypedTables

namespace Insertion

open Engine

variable {σ ρ : Type}

/-- A row as the statements of a table see it: the value of each column. -/
abbrev Cells := String → Stored

/-- `column = value` is true of a row: neither side is NULL, and they are equal. -/
def Matches (equal : String → Stored → Stored → Prop) (row : Cells) (column : String)
    (v : Stored) : Prop :=
  v.kept ≠ .null ∧ row column ≠ .null ∧ equal column (row column) v.kept

/-- What a statement that inserts a row does to an empty content: at most one row is stored, and
whatever was bound and is not NULL equals what is stored for it. For NULL the engine may have stored
a default. -/
structure Stores (E : Interface σ) (content : σ → List Cells)
    (equal : String → Stored → Stored → Prop) (text : String) (params : Params) (s : σ) : Prop where
  stored : ∀ {names answer s₁ s₂}, content s = [] → E.prepare text s = (.ok names, s₁) →
    E.run text params s₁ = (.ok answer, s₂) → content s₂ = [] ∨
      ∃ row, content s₂ = [row] ∧ ∀ c v, params.get? c = some v → v.kept ≠ .null →
      Matches equal row c v

/-- What a statement answers that selects the rows of a content in which columns equal the values
that are bound to their names: the values of these rows, column by column. -/
structure Selects (E : Interface σ) (content : σ → List Cells)
    (equal : String → Stored → Stored → Prop) (columns names : List String) (text : String)
    (compared : List String) (params : Params) (s : σ) :
    Prop where
  prepared : E.prepare text s = (.ok names, s)
  answered : ∃ chosen : Cells → Bool, ∃ changes,
    (∀ row ∈ content s, chosen row = true ↔
      ∀ c ∈ compared, ∃ v, params.get? c = some v ∧ Matches equal row c v) ∧
    (E.run text params s).1 = .ok ⟨((content s).filter chosen).map columns.map, changes⟩

def HasNull (s : Schema) (m : Row) : Prop :=
  ∃ name v stored, m.get? name = some v ∧ s.stored name v = .ok stored ∧ stored.kept = .null

/-- The rows that a selection answers, read as records. -/
theorem Selects.collect {E : Interface σ} {content : σ → List Cells}
    {equal : String → Stored → Stored → Prop} {columns names : List String} {text : String}
    {compared : List String} {params : Params} {s : σ}
    (h : Selects E content equal columns names text compared params s)
    (decode : List String → List Stored → Except Error ρ) :
    ∃ chosen : Cells → Bool,
      (∀ row ∈ content s, chosen row = true ↔
        ∀ c ∈ compared, ∃ v, params.get? c = some v ∧ Matches equal row c v) ∧
      (E.rows text params decode wantsAll s).1.collect =
        ((content s).filter chosen).mapM fun row => decode names (columns.map row) := by
  obtain ⟨chosen, changes, hchosen, hran⟩ := h.answered
  refine ⟨chosen, hchosen, ?_⟩
  rcases hrun : E.run text params s with ⟨ran, s₁⟩
  rw [hrun] at hran
  cases hran
  rw [Interface.rows_of_run_ok h.prepared hrun, collect_handOut_nil, List.mapM_map]
  rfl

end Insertion

namespace Table

variable {σ ρ : Type} {t : Table ρ}

/-- A filter that compiles to a predicate with a condition is accepted. -/
theorem filtered_of_compiled {f : Filter} {predicate : Predicate} {params : Params}
    {condition : Condition} (hf : f.compile t.schema "" = .ok (predicate, params))
    (hc : t.schema.condition [] predicate = .ok condition) (earlier : List Shape) :
    (t.filtered (.columns .all) f .none (t.newCache.requested earlier)).1 =
      .ok (selectionText t t.schema.names f .none, params) := by
  have hshape :
    Statement.ofShape t.schema t.name (.select ⟨.columns .all, false, predicate, [], false⟩) =
      .ok (.select t.name (.columns t.schema.names) false condition [] false) := by
    have hnames : t.schema.names.isEmpty = false := by
      rw [List.isEmpty_eq_false_iff, Schema.names]
      exact fun h => t.schema.columns_ne_nil (List.map_eq_nil_iff.mp h)
    simp only [Statement.ofShape, Schema.selected, Schema.chosen, bind, Except.bind, hnames, hc]
    rfl
  have htext : t.schema.statementText t.name
    (.select ⟨.columns .all, false, predicate, [], false⟩) =
      .ok (selectionText t t.schema.names f .none) := by
    rw [Schema.statementText, hshape, selectionText, ← condition_text hf hc]
    rfl
  refine building_bind_eq_ok.mpr ⟨(predicate, params), hf, selection_eq_ok.mpr ⟨?_, rfl⟩⟩
  change (statement _ (t.newCache.requested earlier)).1 = _
  rw [newCache, statement_requested]
  exact htext

/-- A row that names declared columns names one of them. -/
theorem compared_ne_nil {s : Schema} {m : Row} (hm : m.isEmpty = false)
    (hdeclared : ∀ name ∈ m.names, name ∈ s.names) : s.names.filter m.names.contains ≠ [] := by
  rw [Keyed.isEmpty, List.isEmpty_eq_false_iff_exists_mem] at hm
  obtain ⟨e, he⟩ := hm
  have hmem : e.1 ∈ m.names := List.mem_map_of_mem he
  exact List.ne_nil_of_mem (List.mem_filter.mpr ⟨hdeclared _ hmem, List.contains_iff_mem.mpr hmem⟩)

/-- Comparing declared columns, at least one, with values that have stored forms compares these
columns in the order of the table. -/
theorem compile_eq {s : Schema} {mark : String} {m : Row} {params : Params} (hm : m.isEmpty = false)
    (hdeclared : ∀ name ∈ m.names, name ∈ s.names) (hp : s.encodeRow m mark = .ok params) :
    (Filter.eq m).compile s mark = .ok (.columns (s.names.filter m.names.contains), params) ∧
      s.condition [] (.columns (s.names.filter m.names.contains)) =
        .ok (.equalities (s.names.filter m.names.contains)) := by
  have hordered : s.orderedNames m = .ok (s.names.filter m.names.contains) :=
    Schema.ordered_eq_ok.mpr ⟨hdeclared, rfl⟩
  have hsome := List.isEmpty_eq_false_iff.mpr (compared_ne_nil hm hdeclared)
  constructor
  · simp only [Filter.compile, hm, Bool.false_eq_true, if_false, hordered, hp, bind, Except.bind]
  · simp only [Schema.condition, Schema.ordered_ordered hordered, hsome,
      Bool.false_eq_true, if_false, bind, Except.bind]

/-- Comparing declared columns, at least one, with values that have stored forms is accepted. -/
theorem compile_eq_of_encoded {s : Schema} {m : Row} {params : Params} (hm : m.isEmpty = false)
    (hdeclared : ∀ name ∈ m.names, name ∈ s.names) (hp : s.encodeRow m "" = .ok params) :
    ∃ predicate condition, (Filter.eq m).compile s "" = .ok (predicate, params) ∧
      s.condition [] predicate = .ok condition := ⟨_, _, compile_eq hm hdeclared hp⟩

/-- What a selection of records collects that was built. -/
theorem collect_select {E : Engine.Interface σ} {content : σ → List Insertion.Cells}
    {equal : String → Stored → Stored → Prop} {names compared : List String}
    {params : Params} {f : Filter} {predicate : Predicate} {condition : Condition} {s : σ}
    (hE : Insertion.Selects E content equal t.schema.names names
      (selectionText t t.schema.names f .none)
      compared params s)
    (hf : f.compile t.schema "" = .ok (predicate, params))
    (hc : t.schema.condition [] predicate = .ok condition) (earlier : List Shape) :
    ∃ chosen : Insertion.Cells → Bool,
      (∀ row ∈ content s, chosen row = true ↔
        ∀ c ∈ compared, ∃ v, params.get? c = some v ∧ Insertion.Matches equal row c v) ∧
      ((t.select E f .none).collectDirect ⟨t.newCache.requested earlier, s⟩).1 =
        ((content s).filter chosen).mapM fun row =>
          t.decodeRecords 0 names (t.schema.names.map row) := by
  obtain ⟨chosen, hchosen, hcollect⟩ := hE.collect (t.decodeRecords 0)
  refine ⟨chosen, hchosen, ?_⟩
  have hbuilt : (t.select E f .none (t.newCache.requested earlier)).1 =
      .ok (E.rows (selectionText t t.schema.names f .none) params (t.decodeRecords 0)) :=
    building_bind_eq_ok.mpr ⟨_, filtered_of_compiled hf hc earlier, rfl⟩
  rw [Building.collectDirect_of_ok hbuilt]
  exact hcollect

end Table

theorem mapM_singleton_eq_ok {ε α β : Type} {f : α → Except ε β} {a : α} {b : β} :
    [a].mapM f = .ok [b] ↔ f a = .ok b := by
  rw [List.mapM_cons, List.mapM_nil]
  cases f a with
  | error e => exact ⟨nofun, nofun⟩
  | ok b' =>
    change Except.ok [b'] = Except.ok [b] ↔ _
    simp

/-- What a job did that changed rows: its statement was prepared, and it ran. -/
theorem change_eq_ok {σ : Type} {E : Engine.Interface σ} {text : String} {params : Params}
    {s s' : σ} {n : Nat} (h : E.change text params s = (.ok n, s')) :
    ∃ names answer s₁, E.prepare text s = (.ok names, s₁) ∧
    E.run text params s₁ = (.ok answer, s') := by
  rw [Engine.Interface.change, stateful_bind] at h
  rcases hprepared : E.preparing text s with ⟨prepared, s₁⟩
  rw [hprepared] at h
  cases prepared with
  | error e => cases h
  | ok names =>
    dsimp only at h
    rw [stateful_bind] at h
    rcases hran : E.running text params s₁ with ⟨ran, s₂⟩
    rw [hran] at h
    cases ran with
    | error e => cases h
    | ok answer =>
      cases h
      obtain ⟨hnames, hstate⟩ := Prod.mk.inj hprepared
      exact ⟨names, answer, s₁, Prod.ext (except_mapError_eq_ok.mp hnames) hstate,
        Engine.Interface.running_eq_ok hran⟩

namespace Table

variable {σ ρ : Type} {t : Table ρ} {E : Engine.Interface σ}

/-- What an insertion did that succeeded. -/
theorem insert_eq_ok {earlier : List Shape} {s : σ} {record : ρ}
    {conflict : Option Conflict} {n : Nat} {session : Session σ}
    (h : (t.insert E record conflict).runDirect
      ⟨t.newCache.requested earlier, s⟩ = (.ok n, session)) :
    ∃ text params names answer s₁,
      t.schema.statementText t.name (.insert ⟨.all, conflict, none⟩) = .ok text ∧
      t.schema.encodeRecord t.type record = .ok params ∧ E.prepare text s = (.ok names, s₁) ∧
      E.run text params s₁ = (.ok answer, session.connection) := by
  cases hbuilt : (t.insert E record conflict (t.newCache.requested earlier)).1 with
  | error e =>
    rw [Building.runDirect_of_error hbuilt] at h
    cases h
  | ok job =>
    rw [Building.runDirect_of_ok hbuilt] at h
    obtain ⟨text, htext, hbuilt⟩ := building_bind_eq_ok.mp hbuilt
    obtain ⟨params, hparams, hjob⟩ := building_bind_eq_ok.mp hbuilt
    cases hjob
    rw [insertStatement, newCache, statement_requested] at htext
    obtain ⟨hn, hsession⟩ := Prod.mk.inj h
    obtain ⟨names, answer, s₁, hprepare, hrun⟩ := change_eq_ok (Prod.ext hn rfl)
    rw [← hsession]
    exact ⟨text, params, names, answer, s₁, htext, hparams, hprepare, hrun⟩

end Table

open Insertion in
/-- A record that was inserted into an empty table and is read back unchanged is selected by any of
its fields that are not stored as NULL, and by no others. -/
theorem select_inserted {σ ρ : Type} {t : Table ρ} {E : Engine.Interface σ}
    {content : σ → List Cells} {equal : String → Stored → Stored → Prop} {names : List String}
    {earlier : List Shape} {s : σ} {record : ρ} {conflict : Option Conflict} {n : Nat}
    {session : Session σ} {m : Row}
      (hinsert : ∀ text params,
        t.schema.statementText t.name (.insert ⟨.all, conflict, none⟩) = .ok text →
      t.schema.encodeRecord t.type record = .ok params → Stores E content equal text params s)
    (hall : Selects E content equal t.schema.names names
      (selectionText t t.schema.names .all .none) []
      .empty session.connection)
    (hequal : ∀ params, t.schema.encodeRow m "" = .ok params →
      Selects E content equal t.schema.names names
        (selectionText t t.schema.names (.eq m) .none) m.names params session.connection)
    (hempty : content s = [])
    (hinserted : (t.insert E record conflict).runDirect
      ⟨t.newCache.requested earlier, s⟩ = (.ok n, session))
    (hread : ((t.select E .all .none).collectDirect
      ⟨t.newCache.requested earlier, session.connection⟩).1 = .ok [record])
    (hm : m.isEmpty = false)
    (hfields : ∀ name v, m.get? name = some v → (t.type.toRow record).get? name = some v)
    (later : List Shape) :
    (¬ HasNull t.schema m →
      ((t.select E (.eq m) .none).collectDirect
        ⟨t.newCache.requested later, session.connection⟩).1 =
        .ok [record]) ∧
    (HasNull t.schema m →
      ((t.select E (.eq m) .none).collectDirect
        ⟨t.newCache.requested later, session.connection⟩).1 =
        .ok []) := by
  obtain ⟨text, p, answered, answer, s₁, htext, hp, hprepare, hrun⟩ := Table.insert_eq_ok hinserted
  obtain ⟨every, hevery, hcollected⟩ := Table.collect_select hall rfl rfl earlier
  rw [hcollected] at hread
  -- the one row that is there now is read as the record
  obtain ⟨row, hcontent, hstored⟩ : ∃ row, content session.connection = [row] ∧
      ∀ c v, p.get? c = some v → v.kept ≠ .null → Matches equal row c v := by
    rcases (hinsert text p htext hp).stored hempty hprepare hrun with hnone | hrow
    · rw [hnone] at hread
      cases hread
    · exact hrow
  have hrecord : t.decodeRecords 0 names (t.schema.names.map row) = .ok record := by
    have htrue : every row = true := (hevery row (by simp [hcontent])).mpr nofun
    rw [hcontent, List.filter_cons_of_pos htrue, List.filter_nil] at hread
    exact mapM_singleton_eq_ok.mp hread
  have hbound : ∀ name v, m.get? name = some v →
      ∃ stored, t.schema.stored name v = .ok stored ∧ p.get? name = some stored :=
    fun name v hv => Schema.stored_of_encodeRecord hp (hfields name v hv)
  obtain ⟨q, hq⟩ : ∃ q, t.schema.encodeRow m "" = .ok q :=
    Schema.exists_encodeRow fun name v hv => (hbound name v hv).imp fun _ h => h.1
  have hdeclared : ∀ name ∈ m.names, name ∈ t.schema.names := by
    intro name hn
    obtain ⟨v, hv⟩ := m.mem_names_iff.mp hn
    exact (Schema.encodeRecord_spec hp).2.1 name
      ((t.type.toRow record).mem_names_iff.mpr ⟨v, hfields name v hv⟩)
  obtain ⟨predicate, condition, hf, hc⟩ := Table.compile_eq_of_encoded hm hdeclared hq
  obtain ⟨chosen, hchosen, hcollect⟩ := Table.collect_select (hequal q hq) hf hc later
  have hrow := hchosen row (by simp [hcontent])
  rw [hcollect, hcontent]
  constructor
  · intro hfree
    have htrue : chosen row = true := by
      refine hrow.mpr fun name hn => ?_
      obtain ⟨v, hv⟩ := m.mem_names_iff.mp hn
      obtain ⟨stored, hs, hpget⟩ := hbound name v hv
      obtain ⟨stored', hs', hqget⟩ := (Schema.encodeRow_spec hq).2 name v hv
      cases hs.symm.trans hs'
      rw [String.empty_append] at hqget
      have hkept : stored.kept ≠ .null := fun hnull => hfree ⟨name, v, stored, hv, hs, hnull⟩
      exact ⟨stored, hqget, hstored name stored hpget hkept⟩
    rw [List.filter_cons_of_pos htrue, List.filter_nil]
    exact mapM_singleton_eq_ok.mpr hrecord
  · rintro ⟨name, v, stored, hv, hs, hnull⟩
    have hfalse : ¬ chosen row = true := by
      intro htrue
      obtain ⟨w, hw, hkept, -⟩ := hrow.mp htrue name (m.mem_names_iff.mpr ⟨v, hv⟩)
      obtain ⟨stored', hs', hqget⟩ := (Schema.encodeRow_spec hq).2 name v hv
      cases hs.symm.trans hs'
      rw [String.empty_append] at hqget
      cases hqget.symm.trans hw
      exact hkept hnull
    rw [List.filter_cons_of_neg hfalse, List.filter_nil]
    rfl

/-- The rows of a table at a place, column by column. -/
def Insertion.cellsAt (p : Engine.Place) (columns : List String) (c : Engine.Connection) :
    List Cells :=
  (Deletion.rowsAt p c).map fun r name => ((columns.zip r.values).lookup name).getD .null

open Example

/-- Inserting the item without a label, as the engine does it. -/
theorem unlabelled_stores {text : String} {params : Params}
    (htext : items.schema.statementText items.name (.insert ⟨.all, none, none⟩) = .ok text)
    (hparams : items.schema.encodeRecord items.type ⟨1, none⟩ = .ok params) :
    Insertion.Stores Engine.Connection.interface (Insertion.cellsAt ⟨0, "items"⟩ ["id", "label"])
      (fun _ a b => a = b) text params (itemsAt []) := by
  have hrun : (Engine.Connection.interface.run text params (itemsAt [])).2 =
      itemsAt [unlabelled] := by
    cases htext
    cases hparams
    decide +kernel
  have hentries : params.entries = [("id", .integer 1), ("label", .null)] := by
    cases hparams
    rfl
  refine ⟨fun {names answer s₁ s₂} _ hprepare hran => .inr ?_⟩
  obtain ⟨-, rfl⟩ := Prod.mk.inj hprepare
  have hstate : s₂ = itemsAt [unlabelled] := (congrArg Prod.snd hran).symm.trans hrun
  refine ⟨_, by rw [hstate]; rfl, ?_⟩
  intro c v hv hkept
  rw [Params.get?_eq_some_iff, hentries, List.mem_cons, List.mem_singleton] at hv
  rcases hv with hid | hlabel
  · cases hid
    exact ⟨hkept, nofun, rfl⟩
  · cases hlabel
    exact absurd rfl hkept

/-- Selecting items where the only one is without a label, as the engine does it. -/
theorem unlabelled_selects (f : Filter) (compared : List String) (params : Params) (chosen : Bool)
    (hchosen : chosen = true ↔ ∀ c ∈ compared, ∃ v, params.get? c = some v ∧
      Insertion.Matches (fun _ a b => a = b)
        (fun name => ((["id", "label"].zip unlabelled.values).lookup name).getD .null) c v)
    (hprepare : (itemsAt [unlabelled]).prepare (selectionText items items.schema.names f .none) =
      .ok ["id", "label"])
    (hrun : ((itemsAt [unlabelled]).run (selectionText items items.schema.names f .none) params).1 =
      .ok ⟨if chosen then [unlabelled.values] else [], 0⟩) :
    Insertion.Selects Engine.Connection.interface (Insertion.cellsAt ⟨0, "items"⟩ ["id", "label"])
      (fun _ a b => a = b) items.schema.names ["id", "label"]
      (selectionText items items.schema.names f .none) compared params (itemsAt [unlabelled]) where
  prepared := congrArg (·, itemsAt [unlabelled]) hprepare
  answered := by
    refine ⟨fun _ => chosen, 0, ?_, ?_⟩
    · intro row hrow
      obtain rfl := List.mem_singleton.mp hrow
      exact hchosen
    · refine hrun.trans ?_
      cases chosen <;> rfl

theorem unlabelled_inserted : ((items.insert Engine.Connection.interface ⟨1, none⟩ none).runDirect
    ⟨items.newCache, itemsAt []⟩).2.connection = itemsAt [unlabelled] := by decide +kernel

theorem unlabelled_read : ((items.select Engine.Connection.interface .all .none).collectDirect
    ⟨items.newCache, itemsAt [unlabelled]⟩).1 = .ok [⟨1, none⟩] := by decide +kernel

/-- An item without a label is selected by its number, and is not selected by its label. -/
theorem select_inserted_item :
    ((items.select Engine.Connection.interface (.eq (oneInteger "id" 1)) .none).collectDirect
        ⟨items.newCache, itemsAt [unlabelled]⟩).1 = .ok [⟨1, none⟩] ∧
      ((items.select Engine.Connection.interface (.eq (.insert .empty "label" .null))
        .none).collectDirect
        ⟨items.newCache, itemsAt [unlabelled]⟩).1 = .ok [] := by
  have hone : ((items.insert Engine.Connection.interface ⟨1, none⟩ none).runDirect
      ⟨items.newCache, itemsAt []⟩).1 = .ok 1 := by decide +kernel
  have hall := unlabelled_selects .all [] .empty true (by simp)
    (by decide +kernel) (by decide +kernel)
  have hread := unlabelled_read
  have hid : ∀ params, items.schema.encodeRow (oneInteger "id" 1) "" = .ok params →
      Insertion.Selects Engine.Connection.interface (Insertion.cellsAt ⟨0, "items"⟩ ["id", "label"])
        (fun _ a b => a = b) items.schema.names ["id", "label"]
        (selectionText items items.schema.names (.eq (oneInteger "id" 1)) .none)
          (oneInteger "id" 1).names params
        (itemsAt [unlabelled]) := by
    intro params hparams
    cases hparams
    refine unlabelled_selects _ _ _ true ⟨fun _ => ?_, fun _ => rfl⟩
      (by decide +kernel) (by decide +kernel)
    intro c hc
    obtain rfl := List.mem_singleton.mp hc
    exact ⟨.integer 1, rfl, nofun, nofun, rfl⟩
  have hlabel : ∀ params, items.schema.encodeRow (.insert .empty "label" .null) "" = .ok params →
      Insertion.Selects Engine.Connection.interface (Insertion.cellsAt ⟨0, "items"⟩ ["id", "label"])
        (fun _ a b => a = b) items.schema.names ["id", "label"]
        (selectionText items items.schema.names (.eq (.insert .empty "label" .null)) .none)
        (Keyed.insert Keyed.empty "label" Value.null).names params (itemsAt [unlabelled]) := by
    intro params hparams
    cases hparams
    refine unlabelled_selects _ _ _ false ⟨nofun, fun h => ?_⟩
      (by decide +kernel) (by decide +kernel)
    obtain ⟨v, hv, hkept, -⟩ := h "label" (by decide)
    cases hv
    exact absurd rfl hkept
  rw [← unlabelled_inserted] at hall hread hid hlabel ⊢
  have hinserted : (items.insert Engine.Connection.interface ⟨1, none⟩ none).runDirect
      ⟨items.newCache.requested [], itemsAt []⟩ =
        (.ok 1, ((items.insert Engine.Connection.interface ⟨1, none⟩ none).runDirect
          ⟨items.newCache, itemsAt []⟩).2) := Prod.ext hone rfl
  have hone' : ∀ {name v}, (oneInteger "id" 1).get? name = some v → name = "id" ∧ v = .int 1 := by
    intro name v hv
    exact Prod.mk.inj (List.mem_singleton.mp ((oneInteger "id" 1).get?_eq_some_iff.mp hv))
  constructor
  · refine (select_inserted (fun _ _ => unlabelled_stores) hall hid rfl hinserted hread rfl
      ?_ []).1 ?_
    · intro name v hv
      obtain ⟨rfl, rfl⟩ := hone' hv
      rfl
    · rintro ⟨name, v, stored, hv, hs, hnull⟩
      obtain ⟨rfl, rfl⟩ := hone' hv
      cases hs
      cases hnull
  · refine (select_inserted (fun _ _ => unlabelled_stores) hall hlabel rfl hinserted
      hread rfl ?_ []).2 ?_
    · intro name v hv
      rw [Keyed.get?_eq_some_iff] at hv
      obtain ⟨rfl, rfl⟩ := Prod.mk.inj (List.mem_singleton.mp hv)
      rfl
    · exact ⟨"label", .null, .null, rfl, rfl, rfl⟩

/-- The item without a label is stored and read back unchanged, but the filter that names all of its
fields does not select it. -/
theorem inserted_item_not_selected :
    items.type.schema = .ok items.schema ∧
    ((items.insert Engine.Connection.interface ⟨1, none⟩ none).runDirect
        ⟨items.newCache, itemsAt []⟩).2.connection = itemsAt [unlabelled] ∧
      ((items.select Engine.Connection.interface .all .none).collectDirect
        ⟨items.newCache, itemsAt [unlabelled]⟩).1 = .ok [⟨1, none⟩] ∧
      ((items.select Engine.Connection.interface (.eq (items.type.toRow ⟨1, none⟩))
        .none).collectDirect
        ⟨items.newCache, itemsAt [unlabelled]⟩).1 = .ok [] := by
  exact ⟨rfl, unlabelled_inserted, unlabelled_read, by decide +kernel⟩

end TypedTables
