import TypedTables.Proofs.Keyed
import TypedTables.Record.Params

/-!
# Named parameters as a finite map

The entries of `Params` carry each name once, so a value is found exactly where its name was bound
last. Pushing, pushing many and extending are described by what `get?` answers afterwards.
-/
namespace TypedTables

namespace Params

theorem get?_eq_some_iff (p : Params) {name : String} {v : Stored} :
    p.get? name = some v ↔ (name, v) ∈ p.entries := Keyed.find?_eq_some_iff_mem p.names_nodup

theorem get?_eq_none_iff (p : Params) {name : String} : p.get? name = none ↔ name ∉ p.names := by
  rw [Option.eq_none_iff_forall_ne_some]
  simp [get?_eq_some_iff, names]

theorem mem_names_iff (p : Params) {name : String} : name ∈ p.names ↔ p.get? name ≠ none := by
  rw [ne_eq, get?_eq_none_iff, not_not]

@[simp] theorem get?_empty (name : String) : empty.get? name = none := rfl

@[simp] theorem names_empty : empty.names = [] := rfl

theorem mem_replaced {name other : String} {v w : Stored} {es : List (String × Stored)} :
    (other, w) ∈ replaced name v es ↔
      if other = name then w = v ∧ name ∈ es.map (·.1) else (other, w) ∈ es := by
  simp only [replaced, List.mem_map]
  by_cases h : other = name
  · subst h
    simp only [if_true]
    constructor
    · rintro ⟨e, he, heq⟩
      by_cases hn : e.1 = other
      · rw [if_pos hn, Prod.mk.injEq] at heq
        exact ⟨heq.2.symm, e, he, hn⟩
      · rw [if_neg hn] at heq
        exact absurd (congrArg Prod.fst heq) hn
    · rintro ⟨rfl, e, he, hn⟩
      exact ⟨e, he, by rw [if_pos hn]⟩
  · simp only [h, if_false]
    constructor
    · rintro ⟨e, he, heq⟩
      by_cases hn : e.1 = name
      · rw [if_pos hn] at heq
        exact absurd (congrArg Prod.fst heq).symm h
      · rw [if_neg hn] at heq
        exact heq ▸ he
    · intro hm
      exact ⟨_, hm, if_neg h⟩

/-- A pushed name has the new value, and every other name what it had. -/
theorem get?_push (p : Params) (name other : String) (v : Stored) :
    (p.push name v).get? other = if other = name then some v else p.get? other := by
  ext w
  rw [get?_eq_some_iff]
  simp only [push]
  split
  next h =>
    rw [mem_replaced]
    by_cases ho : other = name
    · simp [ho, h, eq_comm]
    · simp [ho, get?_eq_some_iff]
  next h =>
    have hn : ∀ u, (name, u) ∉ p.entries := fun u hu => h (List.mem_map.mpr ⟨_, hu, rfl⟩)
    by_cases ho : other = name
    · subst ho
      simp [hn, eq_comm]
    · simp [ho, get?_eq_some_iff]

theorem entries_push (p : Params) (name : String) (v : Stored) :
    (p.push name v).entries =
      if name ∈ p.names then replaced name v p.entries else p.entries ++ [(name, v)] := by
  rw [push, names]
  split <;> rfl

/-- Of two values pushed under a name the second one counts. -/
theorem push_push (p : Params) (name : String) (v w : Stored) :
    (p.push name v).push name w = p.push name w := by
  have hentries : ((p.push name v).push name w).entries = (p.push name w).entries := by
    by_cases h : name ∈ p.names
    · have hagain : name ∈ (p.push name v).names := by
        rw [names, entries_push, if_pos h, names_replaced]
        exact h
      rw [entries_push, if_pos hagain, entries_push, if_pos h, entries_push,
        if_pos h, replaced, replaced, List.map_map]
      refine List.map_congr_left fun e _ => ?_
      by_cases he : e.1 = name <;> simp [he]
    · have hagain : name ∈ (p.push name v).names := by
        rw [names, entries_push, if_neg h]
        simp
      have hfixed : replaced name w p.entries = p.entries := by
        refine (List.map_congr_left fun e he => if_neg ?_).trans (List.map_id _)
        rintro rfl
        exact h (List.mem_map_of_mem he)
      rw [entries_push, if_pos hagain, entries_push, if_neg h, entries_push, if_neg h, replaced,
        List.map_append, ← replaced, hfixed]
      simp
  cases hl : (p.push name v).push name w
  cases hr : p.push name w
  rw [hl, hr] at hentries
  cases hentries
  rfl

theorem get?_push_self (p : Params) (name : String) (v : Stored) :
    (p.push name v).get? name = some v := by simp [get?_push]

theorem get?_push_of_ne (p : Params) {name other : String} (h : other ≠ name) (v : Stored) :
    (p.push name v).get? other = p.get? other := by simp [get?_push, h]

theorem mem_names_push (p : Params) {name other : String} (v : Stored) :
    other ∈ (p.push name v).names ↔ other = name ∨ other ∈ p.names := by
  rw [mem_names_iff, mem_names_iff, get?_push]
  by_cases h : other = name <;> simp [h]

@[simp] theorem pushAll_nil (p : Params) : p.pushAll [] = p := rfl

@[simp] theorem pushAll_cons (p : Params) (e : String × Stored) (es : List (String × Stored)) :
    p.pushAll (e :: es) = (p.push e.1 e.2).pushAll es := rfl

/-- Names that are not pushed keep what they had. -/
theorem get?_pushAll_of_not_mem {es : List (String × Stored)} {name : String} (p : Params)
    (h : name ∉ es.map (·.1)) : (p.pushAll es).get? name = p.get? name := by
  induction es generalizing p with
  | nil => rfl
  | cons e es ih =>
    rw [List.map_cons, List.mem_cons, not_or] at h
    rw [pushAll_cons, ih _ h.2, get?_push_of_ne p h.1]

/-- Of distinct names each has the value that is pushed for it. -/
theorem get?_pushAll_of_mem {es : List (String × Stored)} {name : String} {v : Stored} (p : Params)
    (hes : (es.map (·.1)).Nodup) (h : (name, v) ∈ es) : (p.pushAll es).get? name = some v := by
  induction es generalizing p with
  | nil => simp at h
  | cons e es ih =>
    obtain ⟨hn, hes⟩ := List.nodup_cons.mp hes
    rw [pushAll_cons]
    rcases List.mem_cons.mp h with rfl | h
    · rw [get?_pushAll_of_not_mem _ hn, get?_push_self]
    · exact ih _ hes h

/-- Distinct names that are new go behind the entries that are there, in order. -/
theorem entries_pushAll {es : List (String × Stored)} (p : Params)
    (h : ((p.entries ++ es).map (·.1)).Nodup) : (p.pushAll es).entries = p.entries ++ es := by
  induction es generalizing p with
  | nil => simp
  | cons e es ih =>
    have hnew : e.1 ∉ p.entries.map (·.1) := by
      intro hm
      rw [List.map_append, List.nodup_append] at h
      exact h.2.2 e.1 hm e.1 (by simp) rfl
    have hpush : (p.push e.1 e.2).entries = p.entries ++ [e] := by
      simp only [push, hnew, dite_false]
    rw [pushAll_cons, ih, hpush, List.append_assoc, List.singleton_append]
    rw [hpush, List.append_assoc, List.singleton_append]
    exact h

/-- A name that does not start with a colon is bound as it is. -/
theorem bareName_of_head {name : String} (h : name.toList.head? ≠ some ':') :
    bareName name = name := by
  have hd : name.toList.dropWhile (· == ':') = name.toList := by
    cases hc : name.toList with
    | nil => rfl
    | cons c cs =>
      have : (c == ':') = false := by simpa [hc] using h
      simp [this]
  rw [bareName, hd, String.ofList_toList]

/-- Extending by bare names: what the other parameters bind wins over what was bound before. -/
theorem get?_extend (p other : Params) (h : ∀ name ∈ other.names, bareName name = name)
    (name : String) : (p.extend other).get? name = (other.get? name).or (p.get? name) := by
  have hes : (other.entries.map fun e => (bareName e.1, e.2)) = other.entries := by
    calc (other.entries.map fun e => (bareName e.1, e.2))
        = other.entries.map id := by
          refine List.map_congr_left ?_
          intro e he
          rw [h e.1 (List.mem_map.mpr ⟨e, he, rfl⟩), id]
      _ = other.entries := List.map_id _
  rw [extend, hes]
  cases hv : other.get? name with
  | none => rw [Option.none_or, get?_pushAll_of_not_mem p (other.get?_eq_none_iff.mp hv)]
  | some v =>
    rw [Option.some_or, get?_pushAll_of_mem p other.names_nodup (other.get?_eq_some_iff.mp hv)]

theorem mem_names_extend (p other : Params) (h : ∀ name ∈ other.names, bareName name = name)
    {name : String} :
    name ∈ (p.extend other).names ↔ name ∈ p.names ∨ name ∈ other.names := by
  rw [mem_names_iff, get?_extend p other h, mem_names_iff, mem_names_iff, ne_eq,
    Option.or_eq_none_iff, not_and_or, or_comm]

theorem names_ofRow (row : Row) : (ofRow row).names = row.names := by
  have hnames : (row.entries.map fun e => (e.1, e.2.toStored)).map (·.1) = row.names := by
    rw [List.map_map]
    rfl
  rw [ofRow, names, entries_pushAll .empty (hnames ▸ row.names_nodup), List.map_append, hnames]
  rfl

/-- The values of a row that belongs to no table are bound to the names of its columns. -/
theorem get?_ofRow {row : Row} {name : String} {v : Value} (h : row.get? name = some v) :
    (ofRow row).get? name = some v.toStored := by
  have hnames : ((row.entries.map fun e => (e.1, e.2.toStored)).map (·.1)).Nodup := by
    rw [List.map_map]
    exact row.names_nodup
  exact get?_pushAll_of_mem empty hnames
    (List.mem_map.mpr ⟨(name, v), row.get?_eq_some_iff.mp h, rfl⟩)

end Params

end TypedTables
