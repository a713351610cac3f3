/-!
# Maps from names

A map from names to values is the list of its entries in increasing order of the names, each name
once. Names are compared by code points, which is also the order of their UTF-8 bytes.
-/
namespace TypedTables

def Increasing {α : Type} (entries : List (String × α)) : Prop :=
  entries.Pairwise fun a b => a.1 < b.1

instance {α : Type} (entries : List (String × α)) : Decidable (Increasing entries) :=
  inferInstanceAs (Decidable (entries.Pairwise _))

/-- Puts an entry at its place, instead of the one with the same name. -/
def putEntry {α : Type} (name : String) (a : α) : List (String × α) → List (String × α)
  | [] => [(name, a)]
  | e :: es =>
    if name < e.1 then (name, a) :: e :: es
    else if name = e.1 then (name, a) :: es
    else e :: putEntry name a es

/-- The entries in increasing order of the names; of two with the same name the later one stays. -/
def sortEntries {α : Type} (entries : List (String × α)) : List (String × α) :=
  entries.foldl (fun es e => putEntry e.1 e.2 es) []

theorem mem_putEntry {α : Type} {name : String} {a : α} {es : List (String × α)}
    {e : String × α} (h : e ∈ putEntry name a es) : e = (name, a) ∨ e ∈ es := by
  induction es with
  | nil => simpa [putEntry] using h
  | cons x es ih =>
    simp only [putEntry] at h
    split at h
    · simpa using h
    split at h
    · simp only [List.mem_cons] at h ⊢
      exact h.imp_right .inr
    · simp only [List.mem_cons] at h ⊢
      rcases h with h | h
      · exact .inr (.inl h)
      · exact (ih h).imp_right .inr

theorem Increasing.putEntry {α : Type} {es : List (String × α)} (h : Increasing es)
    (name : String) (a : α) : Increasing (putEntry name a es) := by
  induction es with
  | nil => simp [TypedTables.putEntry, Increasing]
  | cons e es ih =>
    have ⟨he, hes⟩ := List.pairwise_cons.1 h
    simp only [TypedTables.putEntry]
    split
    next hlt =>
      refine List.pairwise_cons.2 ⟨fun x hx => ?_, h⟩
      rcases List.mem_cons.1 hx with rfl | hx
      · exact hlt
      · exact String.lt_trans hlt (he x hx)
    split
    next heq => exact List.pairwise_cons.2 ⟨fun x hx => by simpa [heq] using he x hx, hes⟩
    next hlt hne =>
      refine List.pairwise_cons.2 ⟨fun x hx => ?_, ih hes⟩
      rcases mem_putEntry hx with rfl | hx
      · exact Std.lt_of_le_of_ne (Std.not_lt.1 hlt) fun h => hne h.symm
      · exact he x hx

theorem increasing_sortEntries {α : Type} (entries : List (String × α)) :
    Increasing (sortEntries entries) := by
  suffices h : ∀ (es acc : List (String × α)), Increasing acc →
      Increasing (es.foldl (fun es e => putEntry e.1 e.2 es) acc) from
    h entries [] List.Pairwise.nil
  intro es
  induction es with
  | nil => exact fun _ h => h
  | cons e es ih => exact fun acc h => ih _ (h.putEntry e.1 e.2)

structure Keyed (α : Type) where
  entries : List (String × α)
  increasing : Increasing entries

namespace Keyed

variable {α β : Type}

@[ext] theorem ext {m n : Keyed α} (h : m.entries = n.entries) : m = n := by
  cases m; cases n; simp_all

instance [DecidableEq α] : DecidableEq (Keyed α) := fun m n =>
  decidable_of_iff (m.entries = n.entries) ⟨ext, fun h => h ▸ rfl⟩

def empty : Keyed α := ⟨[], List.Pairwise.nil⟩

instance : Inhabited (Keyed α) := ⟨empty⟩

def insert (m : Keyed α) (name : String) (a : α) : Keyed α :=
  ⟨putEntry name a m.entries, m.increasing.putEntry name a⟩

/-- The map of the entries, of which a later one replaces an earlier one with the same name. -/
def ofList (entries : List (String × α)) : Keyed α :=
  ⟨sortEntries entries, increasing_sortEntries entries⟩

def get? (m : Keyed α) (name : String) : Option α :=
  (m.entries.find? (·.1 == name)).map (·.2)

def contains (m : Keyed α) (name : String) : Bool := m.entries.any (·.1 == name)

def erase (m : Keyed α) (name : String) : Keyed α :=
  ⟨m.entries.filter (·.1 != name), m.increasing.filter _⟩

/-- The bound names in increasing order. -/
def names (m : Keyed α) : List String := m.entries.map (·.1)

def size (m : Keyed α) : Nat := m.entries.length

def isEmpty (m : Keyed α) : Bool := m.entries.isEmpty

@[simp] theorem entries_empty : (empty : Keyed α).entries = [] := rfl

@[simp] theorem entries_ofList (entries : List (String × α)) :
    (ofList entries).entries = sortEntries entries := rfl

@[simp] theorem get?_empty (name : String) : (empty : Keyed α).get? name = none := rfl

theorem find?_putEntry_self (name : String) (a : α) (es : List (String × α)) :
    ((putEntry name a es).find? (·.1 == name)) = some (name, a) := by
  induction es with
  | nil => simp [putEntry]
  | cons e es ih =>
    simp only [putEntry]
    split
    · simp
    split
    · simp
    next hne =>
      have : (e.1 == name) = false := by simpa using fun h => hne h.symm
      simp [this, ih]

theorem find?_putEntry_of_ne {name other : String} (h : other ≠ name) (a : α)
    (es : List (String × α)) :
    ((putEntry name a es).find? (·.1 == other)) = es.find? (·.1 == other) := by
  have hne : (name == other) = false := by simpa using fun e => h e.symm
  induction es with
  | nil => simp [putEntry, hne]
  | cons e es ih =>
    simp only [putEntry]
    split
    · rw [List.find?_cons, hne]
    split
    next heq => simp only [List.find?_cons, hne, ← heq]
    · simp only [List.find?_cons, ih]

@[simp] theorem get?_insert_self (m : Keyed α) (name : String) (a : α) :
    (m.insert name a).get? name = some a := by
  simp [get?, insert, find?_putEntry_self]

theorem get?_insert_of_ne (m : Keyed α) {name other : String} (h : other ≠ name) (a : α) :
    (m.insert name a).get? other = m.get? other := by
  simp [get?, insert, find?_putEntry_of_ne h]

end Keyed

end TypedTables
