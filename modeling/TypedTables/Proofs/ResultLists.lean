import Mathlib.Data.List.Forall2
import TypedTables.Proofs.Building

/-!
# Lists of results

Items that have a result each, one after the other: either all of them have one, or the first one
that has none is reported.
-/
namespace TypedTables

variable {ε α β : Type} {f : α → Except ε β} {as : List α} {bs : List β} {e : ε}

theorem mapM_eq_ok_iff : as.mapM f = .ok bs ↔ List.Forall₂ (fun a b => f a = .ok b) as bs := by
  induction as generalizing bs with
  | nil =>
    rw [List.mapM_nil, List.forall₂_nil_left_iff]
    exact ⟨fun h => (Except.ok.inj h).symm, fun h => h ▸ rfl⟩
  | cons a as ih =>
    rw [List.mapM_cons, except_bind_eq_ok, List.forall₂_cons_left_iff]
    constructor
    · rintro ⟨b, hb, hrest⟩
      obtain ⟨bs', hbs', heq⟩ := except_bind_eq_ok.mp hrest
      exact ⟨b, bs', hb, ih.mp hbs', (Except.ok.inj heq).symm⟩
    · rintro ⟨b, bs', hb, hbs', rfl⟩
      exact ⟨b, hb, except_bind_eq_ok.mpr ⟨bs', ih.mpr hbs', rfl⟩⟩

theorem exists_mapM_eq_ok_iff : (∃ bs, as.mapM f = .ok bs) ↔ ∀ a ∈ as, ∃ b, f a = .ok b := by
  induction as with
  | nil => exact ⟨nofun, fun _ => ⟨[], rfl⟩⟩
  | cons a as ih =>
    rw [List.forall_mem_cons, ← ih]
    constructor
    · rintro ⟨bs, hbs⟩
      rw [List.mapM_cons] at hbs
      obtain ⟨b, hb, hrest⟩ := except_bind_eq_ok.mp hbs
      obtain ⟨bs', hbs', -⟩ := except_bind_eq_ok.mp hrest
      exact ⟨⟨b, hb⟩, bs', hbs'⟩
    · rintro ⟨⟨b, hb⟩, bs, hbs⟩
      exact ⟨b :: bs, by rw [List.mapM_cons, hb, hbs]; rfl⟩

/-- The first item that has no result is reported. -/
theorem mapM_eq_error_iff : as.mapM f = .error e ↔
    ∃ before a after, as = before ++ a :: after ∧ (∀ x ∈ before, ∃ b, f x = .ok b) ∧
    f a = .error e := by
  induction as with
  | nil => exact ⟨nofun, by simp⟩
  | cons a as ih =>
    have hrest : ∀ b, (as.mapM f >>= fun bs => pure (b :: bs)) = .error e ↔
        as.mapM f = .error e := by
      intro b
      rw [except_bind_eq_error]
      exact ⟨fun h => h.resolve_right nofun, .inl⟩
    simp only [List.mapM_cons, except_bind_eq_error, hrest, ih]
    constructor
    · rintro (ha | ⟨b, hb, before, a', after, rfl, hbefore, ha'⟩)
      · exact ⟨[], a, as, rfl, nofun, ha⟩
      · exact ⟨a :: before, a', after, rfl, List.forall_mem_cons.mpr ⟨⟨b, hb⟩, hbefore⟩, ha'⟩
    · rintro ⟨before, a', after, heq, hbefore, ha'⟩
      cases before with
      | nil =>
        obtain ⟨rfl, -⟩ := List.cons.inj heq
        exact .inl ha'
      | cons x before =>
        obtain ⟨rfl, hrest'⟩ := List.cons.inj heq
        obtain ⟨⟨b, hb⟩, hbefore⟩ := List.forall_mem_cons.mp hbefore
        exact .inr ⟨b, hb, before, a', after, hrest', hbefore, ha'⟩

theorem forM_eq_map_mapM {f : α → Except ε Unit} : as.forM f = (as.mapM f).map fun _ => () := by
  induction as with
  | nil => rfl
  | cons a as ih =>
    change (f a >>= fun _ => as.forM f) = _
    rw [ih, List.mapM_cons]
    cases f a with
    | error e => rfl
    | ok u => cases as.mapM f <;> rfl

/-- Some of the items at the front have their results. -/
theorem mapM_take (h : as.mapM f = .ok bs) (n : Nat) : (as.take n).mapM f = .ok (bs.take n) :=
  mapM_eq_ok_iff.mpr (List.forall₂_take n (mapM_eq_ok_iff.mp h))

end TypedTables
