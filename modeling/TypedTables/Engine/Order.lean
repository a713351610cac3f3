import TypedTables.Affinity
import TypedTables.Engine.Numeral

/-!
# Comparing and converting stored values

All stored values stand in one order: NULL, then numbers by value, then texts, then blobs. An
affinity converts a value before it is stored in a column, or before it is compared with one.
-/
namespace TypedTables.Engine

attribute [local instance (high)] instPowNat

def rank : Stored → Nat
  | .null => 0
  | .integer _ | .real _ => 1
  | .text _ => 2
  | .blob _ => 3

/-- How two blobs compare: byte by byte, the shorter one first. -/
def compareBytes : List UInt8 → List UInt8 → Ordering
  | [], [] => .eq
  | [], _ :: _ => .lt
  | _ :: _, [] => .gt
  | a :: as, b :: bs => if a < b then .lt else if b < a then .gt else compareBytes as bs

/-- How two stored values compare. Texts compare by code points, as their UTF-8 bytes do. -/
def compareStored : Stored → Stored → Ordering
  | .integer i, .integer j => compare i.toInt j.toInt
  | .integer i, .real y => Binary64.compareInt i.toInt y
  | .real x, .integer j => (Binary64.compareInt j.toInt x).swap
  | .real x, .real y => (x.compare? y).getD .eq
  | .text s, .text t => compare s t
  | .blob a, .blob b => compareBytes a b
  | a, b => compare (rank a) (rank b)

/-- The integer that equals a real, if there is one strictly inside sixty-four bits. -/
def integerOfReal? (x : Binary64) : Option Int64 :=
  match x.toInt? with
  | some n => if -2 ^ (63 : Nat) < n ∧ n < 2 ^ (63 : Nat) - 1 then some (Int64.ofInt n) else none
  | none => none

/-- The integer in place of a real that equals it. -/
def whole : Stored → Stored
  | .real x =>
    match integerOfReal? x with
    | some i => .integer i
    | none => .real x
  | v => v

/-- The number in place of a text that is one. -/
def numeric : Stored → Stored
  | .text s => (numberOfText? s).getD (.text s)
  | v => v

/-- The text of a number. -/
def textual : Stored → Stored
  | .integer i => .text (toString i.toInt)
  | .real x => .text (Layout.fifteen.write x)
  | v => v

/-- What a column with the affinity stores for a value. A real that equals an integer goes through
it, which loses nothing but the sign of zero. -/
def convert : Affinity → Stored → Stored
  | .text, v => textual v
  | .integer, v | .numeric, v => whole (numeric v)
  | .real, v =>
    match whole (numeric v) with
    | .integer i => .real (Binary64.ofInt i.toInt)
    | v => v
  | .blob, v | .null, v => v

/-- The affinity under which two operands are compared; literals and parameters have none. -/
def comparisonAffinity : Option Affinity → Option Affinity → Affinity
  | some a, some b => if a.isNumeric || b.isNumeric then .numeric else .blob
  | some a, none | none, some a => a
  | none, none => .blob

def converted (affinity : Affinity) (a b : Stored) : Stored × Stored :=
  if affinity.isNumeric then (numeric a, numeric b)
  else if affinity = .text && (rank a == 2 || rank b == 2) then (textual a, textual b)
  else (a, b)

/-- The truth of a value: a number other than zero is true; NULL is neither true nor false. -/
def truth? : Stored → Option Bool
  | .null => none
  | .integer i => some (i != 0)
  | .real x => some (x.compare? (.zero false) != some .eq)
  | .text s =>
    match numberAt s.toList with
    | some (.integer i, _) => some (i != 0)
    | some (.real x, _) => some (x.compare? (.zero false) != some .eq)
    | _ => some false
  | .blob bytes =>
    match numberAt (bytes.map fun b => Char.ofNat b.toNat) with
    | some (.integer i, _) => some (i != 0)
    | some (.real x, _) => some (x.compare? (.zero false) != some .eq)
    | _ => some false

def ofTruth? : Option Bool → Stored
  | none => .null
  | some b => .integer (boolInt b)

example : convert .integer (.text "3.0") = .integer 3 := by decide +kernel
example : convert .integer (.text "abc") = .text "abc" := by decide +kernel
example : convert .real (.real (.zero true)) = .real (.zero false) := by decide +kernel
example : convert .text (.integer 5) = .text "5" := by decide +kernel
example : compareStored (.integer 1) (.real (Binary64.ofInt 1)) = .eq := by decide +kernel

end TypedTables.Engine
