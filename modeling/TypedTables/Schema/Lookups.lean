import TypedTables.Schema.Registry

/-!
# Look-ups in a registry at the same time

Any number of look-ups are under way at once, for one record type or for many. A look-up probes the
registry, makes an object of the extracted schema if it found none, and stores the object unless
another look-up was faster. Probing and storing are atomic, and between these steps every other
look-up may take its own. Whoever needs several schemas makes the next look-up when the one before
it came back.
-/
namespace TypedTables

inductive LookupStage where
  /-- It is about to probe the registry. -/
  | probing
  /-- It found no schema and is about to extract it. -/
  | missing
  /-- It made an object of the schema and is about to store it. -/
  | holding (object : Shared Schema)
  /-- It came back to its caller. -/
  | answered (answer : Except Error (Shared Schema))

structure SchemaLookup (κ : Type) where
  type : κ
  stage : LookupStage

namespace SchemaLookup

variable {κ : Type} [DecidableEq κ]

def new (type : κ) : SchemaLookup κ := ⟨type, .probing⟩

/-- The next atomic step of a look-up, given what the record types declare. An object gets its
serial number when it is made, so that one that is not stored in the end has used one up. -/
def step (declarations : κ → List Declaration) (l : SchemaLookup κ) (r : Registry κ) :
    SchemaLookup κ × Registry κ :=
  match l.stage with
  | .probing =>
    match SharedMap.find? r l.type with
    | some object => (⟨l.type, .answered (.ok object)⟩, r)
    | none => (⟨l.type, .missing⟩, r)
  | .missing =>
    match Schema.ofDeclarations (declarations l.type) with
    | .error e => (⟨l.type, .answered (.error e)⟩, r)
    | .ok schema =>
      let (object, r) := SharedMap.issue r schema
      (⟨l.type, .holding object⟩, r)
  | .holding object =>
    let (object, r) := SharedMap.insertIfAbsent r l.type object
    (⟨l.type, .answered (.ok object)⟩, r)
  | .answered _ => (l, r)

end SchemaLookup

structure SharedRegistry (κ : Type) where
  registry : Registry κ
  lookups : List (SchemaLookup κ)

inductive RegistryEvent (κ : Type) where
  /-- Somebody asks for the schema of a record type. -/
  | look (type : κ)
  /-- The look-up at this place takes its next step. -/
  | go (place : Nat)
  deriving DecidableEq

namespace SharedRegistry

variable {κ : Type} [DecidableEq κ]

def new : SharedRegistry κ := ⟨.empty, []⟩

def step (declarations : κ → List Declaration) (s : SharedRegistry κ) :
    RegistryEvent κ → SharedRegistry κ
  | .look type => { s with lookups := s.lookups ++ [.new type] }
  | .go place =>
    match s.lookups[place]? with
    | some l =>
      let (l, registry) := l.step declarations s.registry
      ⟨registry, s.lookups.set place l⟩
    | none => s

def run (declarations : κ → List Declaration) (s : SharedRegistry κ)
    (events : List (RegistryEvent κ)) :
    SharedRegistry κ :=
  events.foldl (step declarations) s

end SharedRegistry

end TypedTables
