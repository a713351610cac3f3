import TypedTables.Engine.Order

/-!
# Collations

Each column says how its texts compare. Values of other kinds compare alike under every collation.
-/
namespace TypedTables.Engine

inductive Collation where
  | binary
  | noCase
  | rtrim
  deriving DecidableEq, Repr

namespace Collation

def ofName? (name : String) : Option Collation :=
  match String.ofList (name.toList.map Char.toLower) with
  | "binary" => some .binary
  | "nocase" => some .noCase
  | "rtrim" => some .rtrim
  | _ => none

/-- A text up to its first NUL, with ASCII letters in lower case. -/
def caseless (s : String) : String :=
  String.ofList ((s.toList.takeWhile (· ≠ '\x00')).map Char.toLower)

/-- A text without the spaces at its end. -/
def unpadded (s : String) : String :=
  String.ofList (s.toList.reverse.dropWhile (· = ' ')).reverse

/-- Without regard to case the number of bytes decides between texts that are alike up to a NUL. -/
def compareTexts : Collation → String → String → Ordering
  | .binary, s, t => compare s t
  | .noCase, s, t =>
    (compare (caseless s) (caseless t)).then (compare s.utf8ByteSize t.utf8ByteSize)
  | .rtrim, s, t => compare (unpadded s) (unpadded t)

def compare : Collation → Stored → Stored → Ordering
  | k, .text s, .text t => k.compareTexts s t
  | _, a, b => compareStored a b

theorem compareTexts_self (k : Collation) (s : String) : k.compareTexts s s = .eq := by
  cases k <;> simp [compareTexts]

@[simp] theorem compare_binary (a b : Stored) : compare .binary a b = compareStored a b := by
  cases a <;> cases b <;> rfl

end Collation

example : Collation.compare .noCase (.text "Ab") (.text "aB") = .eq := by decide +kernel
example : Collation.compare .rtrim (.text "a ") (.text "a") = .eq := by decide +kernel

end TypedTables.Engine
