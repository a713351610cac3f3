import TypedTables.Engine.Collation
import TypedTables.Engine.Fault

/-!
# Expressions

An expression refers to columns by something of type `κ`: by name as it is read, by the place of the
column once the names are resolved. Truth has three values: a comparison with NULL is NULL, and a
row is chosen only if its condition is true.
-/
namespace TypedTables.Engine

attribute [local instance (high)] instPowNat

/-- A complaint about a statement: what is wrong, and the byte of the text that shows it. -/
structure Complaint where
  fault : Fault
  offset : Option Nat
  deriving DecidableEq

def Complaint.toFault (c : Complaint) (text : String) : Fault :=
  match c.offset with
  | some offset => .located c.fault text offset
  | none => c.fault

inductive Comparison where
  | eq
  | ne
  | lt
  | le
  | gt
  | ge
  deriving DecidableEq, Repr

/-- Whether the comparison holds of operands in the given order. -/
def Comparison.holds : Comparison → Ordering → Bool
  | .eq, o => o == .eq
  | .ne, o => o != .eq
  | .lt, o => o == .lt
  | .le, o => o != .gt
  | .gt, o => o == .gt
  | .ge, o => o != .lt

inductive Arithmetic where
  | add
  | sub
  | mul
  deriving DecidableEq, Repr

inductive Function where
  | typeof
  | length
  deriving DecidableEq, Repr

inductive Expr (κ : Type) where
  | literal (v : Stored)
  | parameter (name : String)
  | column (c : κ)
  /-- The value of an expression, without its affinity and its collation. -/
  | bare (e : Expr κ)
  /-- The value of an expression, without its affinity. -/
  | plus (e : Expr κ)
  | not (e : Expr κ)
  | and (a b : Expr κ)
  | or (a b : Expr κ)
  | compare (op : Comparison) (a b : Expr κ)
  /-- Whether two values are the same, with NULL the same as NULL. -/
  | same (a b : Expr κ)
  | arithmetic (op : Arithmetic) (a b : Expr κ)
  | call (f : Function) (e : Expr κ)
  /-- An expression that was read but means nothing. -/
  | senseless (complaint : Complaint)
  deriving DecidableEq

/-- The place of a column in the rows of a table, and how its values compare. -/
structure Slot where
  position : Nat
  affinity : Affinity
  collation : Collation
  deriving DecidableEq

def Arithmetic.onInts : Arithmetic → Int → Int → Int
  | .add, a, b => a + b
  | .sub, a, b => a - b
  | .mul, a, b => a * b

def Arithmetic.onReals : Arithmetic → Binary64 → Binary64 → Binary64
  | .add, a, b => a.add b
  | .sub, a, b => a.sub b
  | .mul, a, b => a.mul b

/-- A value as a number: the number at its start, or zero. -/
def numberOf : Stored → Stored
  | .text s => ((numberAt s.toList).map (·.1)).getD (.integer 0)
  | .blob bytes =>
    ((numberAt (bytes.map fun b => Char.ofNat b.toNat)).map (·.1)).getD (.integer 0)
  | v => v

def realOf : Stored → Binary64
  | .integer i => Binary64.ofInt i.toInt
  | .real x => x
  | _ => .zero false

/-- The result of an operation: an integer as long as it fits, NULL for what is not a number. -/
def Arithmetic.apply (op : Arithmetic) (a b : Stored) : Stored :=
  let real (a b : Stored) : Stored :=
    let x := op.onReals (realOf a) (realOf b)
    if x.isNaN then .null else .real x
  match numberOf a, numberOf b with
  | .null, _ | _, .null => .null
  | .integer i, .integer j =>
    let n := op.onInts i.toInt j.toInt
    if -2 ^ (63 : Nat) ≤ n ∧ n < 2 ^ (63 : Nat) then .integer (Int64.ofInt n)
      else real (.integer i) (.integer j)
  | a, b => real a b

def typeName : Stored → String
  | .null => "null"
  | .integer _ => "integer"
  | .real _ => "real"
  | .text _ => "text"
  | .blob _ => "blob"

/-- The number of bytes of a blob or of characters of everything else. -/
def lengthOf : Stored → Stored
  | .null => .null
  | .blob bytes => .integer (Int64.ofNat bytes.length)
  | v =>
    match textual v with
    | .text s => .integer (Int64.ofNat (s.toList.takeWhile (· ≠ '\x00')).length)
    | v => v

def Function.apply : Function → Stored → Stored
  | .typeof, v => .text (typeName v)
  | .length, v => lengthOf v

namespace Expr

def affinity? : Expr Slot → Option Affinity
  | .column c => some c.affinity
  | _ => none

/-- Whether both are true; false as soon as one is false. -/
def andTruth : Option Bool → Option Bool → Option Bool
  | some false, _ | _, some false => some false
  | some true, some true => some true
  | _, _ => none

/-- Whether one is true; true as soon as one is true. -/
def orTruth : Option Bool → Option Bool → Option Bool
  | some true, _ | _, some true => some true
  | some false, some false => some false
  | _, _ => none

def collation? : Expr Slot → Option Collation
  | .column c => some c.collation
  | .plus e => collation? e
  | _ => none

def collation (e : Expr Slot) : Collation := e.collation?.getD .binary

/-- The collation under which two operands are compared: that of the first that has one. -/
def comparisonCollation (a b : Expr Slot) : Collation :=
  (a.collation?.or b.collation?).getD .binary

def comparison (op : Comparison) (affinity : Affinity) (collation : Collation) (a b : Stored) :
    Option Bool :=
  if a = .null ∨ b = .null then none
  else
    let (a, b) := converted affinity a b
    some (op.holds (collation.compare a b))

def eval (params : String → Stored) (row : List Stored) : Expr Slot → Stored
  | .literal v => v
  | .parameter name => params name
  | .column c => row[c.position]?.getD .null
  | .bare e | .plus e => eval params row e
  | .not e => ofTruth? ((truth? (eval params row e)).map (!·))
  | .and a b => ofTruth? (andTruth (truth? (eval params row a)) (truth? (eval params row b)))
  | .or a b => ofTruth? (orTruth (truth? (eval params row a)) (truth? (eval params row b)))
  | .compare op a b =>
    ofTruth? (comparison op (comparisonAffinity a.affinity? b.affinity?) (comparisonCollation a b)
      (eval params row a) (eval params row b))
  | .same a b =>
    let (u, v) := converted (comparisonAffinity a.affinity? b.affinity?) (eval params row a)
      (eval params row b)
    ofTruth? (some ((comparisonCollation a b).compare u v == .eq))
  | .arithmetic op a b => op.apply (eval params row a) (eval params row b)
  | .call f e => f.apply (eval params row e)
  | .senseless _ => .null

def holds (e : Expr Slot) (params : String → Stored) (row : List Stored) : Bool :=
  truth? (e.eval params row) == some true

/-- Replaces the references to columns; the leftmost one that has no replacement counts. -/
def resolve {κ μ : Type} (f : κ → Except Complaint (Expr μ)) : Expr κ → Except Complaint (Expr μ)
  | .literal v => .ok (.literal v)
  | .parameter name => .ok (.parameter name)
  | .column c => f c
  | .bare e => do
    let e ← resolve f e
    .ok (.bare e)
  | .plus e => do
    let e ← resolve f e
    .ok (.plus e)
  | .not e => do
    let e ← resolve f e
    .ok (.not e)
  | .and a b => do
    let a ← resolve f a
    let b ← resolve f b
    .ok (.and a b)
  | .or a b => do
    let a ← resolve f a
    let b ← resolve f b
    .ok (.or a b)
  | .compare op a b => do
    let a ← resolve f a
    let b ← resolve f b
    .ok (.compare op a b)
  | .same a b => do
    let a ← resolve f a
    let b ← resolve f b
    .ok (.same a b)
  | .arithmetic op a b => do
    let a ← resolve f a
    let b ← resolve f b
    .ok (.arithmetic op a b)
  | .call g e => do
    let e ← resolve f e
    .ok (.call g e)
  | .senseless c => .error c

def parameters {κ : Type} : Expr κ → List String
  | .parameter name => [name]
  | .bare e | .plus e | .not e | .call _ e => parameters e
  | .and a b | .or a b | .compare _ a b | .same a b | .arithmetic _ a b =>
    parameters a ++ parameters b
  | .literal _ | .column _ | .senseless _ => []

def columns {κ : Type} : Expr κ → List κ
  | .column c => [c]
  | .bare e | .plus e | .not e | .call _ e => columns e
  | .and a b | .or a b | .compare _ a b | .same a b | .arithmetic _ a b => columns a ++ columns b
  | .literal _ | .parameter _ | .senseless _ => []

end Expr

end TypedTables.Engine
