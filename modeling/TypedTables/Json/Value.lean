import TypedTables.Keyed
import TypedTables.Number.Binary64

/-!
# JSON values

`Tree` is a JSON text as read: the members of an object stand in the order of the text and a name
may occur twice. `Json` is the value that it denotes: the members of every object are in increasing
order of their names, and of two members with the same name the later one counts.
-/
namespace TypedTables

attribute [local instance (high)] instPowNat

namespace Json

/-- A whole number that fits sixty-four bits, with or without sign. -/
def Whole : Type := { i : Int // -2 ^ (63 : Nat) ≤ i ∧ i < 2 ^ (64 : Nat) }

instance : DecidableEq Whole := fun a b => decidable_of_iff (a.1 = b.1) Subtype.ext_iff.symm

inductive Number where
  | whole (i : Whole)
  | real (x : Binary64) (finite : x.isFinite = true)
  deriving DecidableEq

/-- The number that an integer is, if it fits. -/
def Number.ofInt? (i : Int) : Option Number :=
  if h : -2 ^ (63 : Nat) ≤ i ∧ i < 2 ^ (64 : Nat) then some (.whole ⟨i, h⟩) else none

inductive Tree where
  | null
  | bool (b : Bool)
  | number (n : Number)
  | string (s : String)
  | array (items : List Tree)
  | object (members : List (String × Tree))

instance : Inhabited Tree := ⟨.null⟩

namespace Tree

mutual

/-- The members of every object are in increasing order of their names. -/
def Ordered : Tree → Prop
  | .array items => ItemsOrdered items
  | .object members => Increasing members ∧ MembersOrdered members
  | _ => True

def ItemsOrdered : List Tree → Prop
  | [] => True
  | t :: ts => Ordered t ∧ ItemsOrdered ts

def MembersOrdered : List (String × Tree) → Prop
  | [] => True
  | (_, t) :: ms => Ordered t ∧ MembersOrdered ms

end

mutual

/-- The same value with the members of every object sorted and, of two with the same name, only the
later one. -/
def sorted : Tree → Tree
  | .array items => .array (sortedItems items)
  | .object members => .object (sortEntries (sortedMembers members))
  | t => t

def sortedItems : List Tree → List Tree
  | [] => []
  | t :: ts => sorted t :: sortedItems ts

def sortedMembers : List (String × Tree) → List (String × Tree)
  | [] => []
  | (name, t) :: ms => (name, sorted t) :: sortedMembers ms

end

theorem membersOrdered_iff (ms : List (String × Tree)) :
    MembersOrdered ms ↔ ∀ m ∈ ms, Ordered m.2 := by
  induction ms with
  | nil => simp [MembersOrdered]
  | cons m ms ih => obtain ⟨_, t⟩ := m; simp [MembersOrdered, ih]

theorem mem_of_mem_sortEntries {α : Type} {es : List (String × α)} {e : String × α}
    (h : e ∈ sortEntries es) : e ∈ es := by
  suffices aux : ∀ (es acc : List (String × α)),
      e ∈ es.foldl (fun es e => putEntry e.1 e.2 es) acc → e ∈ es ∨ e ∈ acc by
    simpa using aux es [] h
  intro es
  induction es with
  | nil => exact fun _ h => .inr h
  | cons x es ih =>
    intro acc h
    rcases ih _ h with h | h
    · exact .inl (List.mem_cons_of_mem _ h)
    · rcases mem_putEntry h with rfl | h
      · exact .inl (List.mem_cons_self ..)
      · exact .inr h

mutual

theorem ordered_sorted : ∀ t : Tree, Ordered (sorted t)
  | .null => by simp [sorted, Ordered]
  | .bool _ => by simp [sorted, Ordered]
  | .number _ => by simp [sorted, Ordered]
  | .string _ => by simp [sorted, Ordered]
  | .array items => by
    simpa [sorted, Ordered] using ordered_sortedItems items
  | .object members => by
    simp only [sorted, Ordered]
    refine ⟨increasing_sortEntries _, (membersOrdered_iff _).2 fun m hm => ?_⟩
    exact (membersOrdered_iff _).1 (ordered_sortedMembers members) m (mem_of_mem_sortEntries hm)

theorem ordered_sortedItems : ∀ ts : List Tree, ItemsOrdered (sortedItems ts)
  | [] => by simp [sortedItems, ItemsOrdered]
  | t :: ts => by
    simpa [sortedItems, ItemsOrdered] using ⟨ordered_sorted t, ordered_sortedItems ts⟩

theorem ordered_sortedMembers : ∀ ms : List (String × Tree), MembersOrdered (sortedMembers ms)
  | [] => by simp [sortedMembers, MembersOrdered]
  | (_, t) :: ms => by
    simpa [sortedMembers, MembersOrdered] using ⟨ordered_sorted t, ordered_sortedMembers ms⟩

end

end Tree

end Json

def Json : Type := { t : Json.Tree // t.Ordered }

namespace Json

/-- The value that a text as read denotes. -/
def ofTree (t : Tree) : Json := ⟨t.sorted, t.ordered_sorted⟩

def tree (j : Json) : Tree := j.1

instance : Inhabited Json := ⟨ofTree .null⟩

/-- The number of a floating point number; what is not finite has none and becomes null. -/
def ofReal (x : Binary64) : Tree := if h : x.isFinite = true then .number (.real x h) else .null

def items? (j : Json) : Option (List Tree) :=
  match j.tree with
  | .array items => some items
  | _ => none

def Number.toReal : Number → Binary64
  | .whole i => Binary64.ofInt i.1
  | .real x _ => x

def Tree.real? : Tree → Option Binary64
  | .number n => some n.toReal
  | _ => none

end Json

end TypedTables
