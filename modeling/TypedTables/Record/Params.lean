import TypedTables.Row

/-!
# Named parameters

The values that are bound to the placeholders of a statement: each name once, in the order in which
the names were first pushed. A placeholder is written as a colon and the name.
-/
namespace TypedTables

structure Params where
  entries : List (String × Stored)
  names_nodup : (entries.map (·.1)).Nodup

namespace Params

def empty : Params := ⟨[], List.nodup_nil⟩

instance : Inhabited Params := ⟨empty⟩

def names (p : Params) : List String := p.entries.map (·.1)

def size (p : Params) : Nat := p.entries.length

def isEmpty (p : Params) : Bool := p.entries.isEmpty

def get? (p : Params) (name : String) : Option Stored :=
  (p.entries.find? (·.1 == name)).map (·.2)

/-- Gives a name a new value, at its place. -/
def replaced (name : String) (v : Stored) (entries : List (String × Stored)) :
    List (String × Stored) :=
  entries.map fun e => if e.1 = name then (name, v) else e

theorem names_replaced (name : String) (v : Stored) (entries : List (String × Stored)) :
    (replaced name v entries).map (·.1) = entries.map (·.1) := by
  simp only [replaced, List.map_map]
  refine List.map_congr_left fun e _ => ?_
  by_cases h : e.1 = name <;> simp [h]

/-- Binds a name; an earlier value of the same name is replaced. -/
def push (p : Params) (name : String) (v : Stored) : Params :=
  if h : name ∈ p.entries.map (·.1) then
    ⟨replaced name v p.entries, by rw [names_replaced]; exact p.names_nodup⟩
  else
    ⟨p.entries ++ [(name, v)], by
      rw [List.map_append, List.nodup_append]
      refine ⟨p.names_nodup, by simp, ?_⟩
      rintro a ha b hb rfl
      simp only [List.map_cons, List.map_nil, List.mem_singleton] at hb
      exact h (hb ▸ ha)⟩

def pushAll (p : Params) (entries : List (String × Stored)) : Params :=
  entries.foldl (fun p e => p.push e.1 e.2) p

def bareName (name : String) : String := String.ofList (name.toList.dropWhile (· == ':'))

/-- Binds the names of other parameters, without the colons in front of them. -/
def extend (p other : Params) : Params :=
  p.pushAll (other.entries.map fun e => (bareName e.1, e.2))

/-- The values of a row that belongs to no table, bound to the names of its columns. -/
def ofRow (row : Row) : Params :=
  empty.pushAll (row.entries.map fun e => (e.1, e.2.toStored))

end Params

end TypedTables
