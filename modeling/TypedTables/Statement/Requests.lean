import TypedTables.Statement.Cache

/-!
# Requests to a cache at the same time

A cache serves any number of requests at once. A request looks for its statement, builds the text if
it did not find it, and stores what it built. Looking and storing are atomic, and between these
steps every other request may take its own.
-/
namespace TypedTables

inductive RequestStage where
  /-- It is about to look for its statement. -/
  | asking
  /-- It found no statement and is about to build the text. -/
  | missing
  /-- It built the text and is about to store it. -/
  | holding (text : String)
  /-- It came back to its caller. -/
  | answered (answer : Except Error (Shared String))

structure StatementRequest where
  shape : Shape
  stage : RequestStage

namespace StatementRequest

def new (shape : Shape) : StatementRequest := ⟨shape, .asking⟩

def step (r : StatementRequest) (c : StatementCache) : StatementRequest × StatementCache :=
  match r.stage with
  | .asking =>
    match c.find? r.shape with
    | some object => (⟨r.shape, .answered (.ok object)⟩, c)
    | none => (⟨r.shape, .missing⟩, c)
  | .missing =>
    match c.build r.shape with
    | .ok text => (⟨r.shape, .holding text⟩, c)
    | .error e => (⟨r.shape, .answered (.error e)⟩, c)
  | .holding text =>
    let (object, c) := c.store r.shape text
    (⟨r.shape, .answered (.ok object)⟩, c)
  | .answered _ => (r, c)

end StatementRequest

structure SharedCache where
  cache : StatementCache
  requests : List StatementRequest

inductive CacheEvent where
  /-- Somebody asks for the statement of a shape. -/
  | ask (shape : Shape)
  /-- The request at this place takes its next step. -/
  | go (place : Nat)
  deriving DecidableEq

namespace SharedCache

def new (schema : Schema) (table : TableName) : SharedCache := ⟨.new schema table, []⟩

def step (c : SharedCache) : CacheEvent → SharedCache
  | .ask shape => { c with requests := c.requests ++ [.new shape] }
  | .go place =>
    match c.requests[place]? with
    | some r =>
      let (r, cache) := r.step c.cache
      ⟨cache, c.requests.set place r⟩
    | none => c

def run (c : SharedCache) (events : List CacheEvent) : SharedCache := events.foldl step c

end SharedCache

end TypedTables
