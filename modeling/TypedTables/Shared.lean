/-!
# Shared objects

Two holders share an object when they hold the same serial number: equal contents are not enough. A
`SharedMap` gives every key one object, the one that was stored first, and never replaces it.
-/
namespace TypedTables

structure Shared (α : Type) where
  serial : Nat
  content : α
  deriving DecidableEq

/-- Objects by key, each stored once. `issued` is the number of serial numbers given out. -/
structure SharedMap (κ α : Type) where
  entries : List (κ × Shared α)
  issued : Nat

namespace SharedMap

variable {κ α : Type} [DecidableEq κ]

def empty : SharedMap κ α := ⟨[], 0⟩

def find? (m : SharedMap κ α) (key : κ) : Option (Shared α) :=
  (m.entries.find? (·.1 = key)).map (·.2)

def size (m : SharedMap κ α) : Nat := m.entries.length

def issue (m : SharedMap κ α) (a : α) : Shared α × SharedMap κ α :=
  (⟨m.issued, a⟩, { m with issued := m.issued + 1 })

/-- Gives a key an object, if it has none yet; answers the object of the key. -/
def insertIfAbsent (m : SharedMap κ α) (key : κ) (object : Shared α) : Shared α × SharedMap κ α :=
  match m.find? key with
  | some existing => (existing, m)
  | none => (object, { m with entries := m.entries ++ [(key, object)] })

variable {m m' : SharedMap κ α} {key : κ} {object : Shared α}

theorem mem_of_find? (h : m.find? key = some object) : (key, object) ∈ m.entries := by
  obtain ⟨entry, hentry, rfl⟩ := Option.map_eq_some_iff.mp h
  have hkey : entry.1 = key := by simpa using List.find?_some hentry
  exact hkey ▸ List.mem_of_find?_eq_some hentry

theorem not_mem_of_find? (h : m.find? key = none) : key ∉ m.entries.map Prod.fst := by
  rw [find?, Option.map_eq_none_iff, List.find?_eq_none] at h
  intro hmem
  obtain ⟨entry, hentry, rfl⟩ := List.mem_map.mp hmem
  exact h entry hentry (decide_eq_true rfl)

/-- What is found is still found, as the same object, after entries were added. -/
theorem find?_of_grown (hentries : m.entries <+: m'.entries) (h : m.find? key = some object) :
    m'.find? key = some object := by
  obtain ⟨entry, hentry, rfl⟩ := Option.map_eq_some_iff.mp h
  exact Option.map_eq_some_iff.mpr ⟨entry, hentries.find?_eq_some hentry, rfl⟩

theorem find?_added (h : m.find? key = none) :
    find? { m with entries := m.entries ++ [(key, object)] } key = some object := by
  rw [find?, Option.map_eq_none_iff] at h
  simp [find?, List.find?_append, h]

/-- No key is there twice, unless it is added again. -/
theorem nodup_added (hdistinct : (m.entries.map Prod.fst).Nodup) (h : m.find? key = none) :
    ((m.entries ++ [(key, object)]).map Prod.fst).Nodup := by
  rw [List.map_append, List.nodup_append]
  refine ⟨hdistinct, List.pairwise_singleton .., fun kept hkept added hadded heq => ?_⟩
  rw [heq, List.mem_singleton.mp hadded] at hkept
  exact not_mem_of_find? h hkept

end SharedMap

end TypedTables
