import TypedTables.Pool.Basic

/-!
# One schedule of a pool

The schedule in which workers are as fast as possible: after every step of a caller they go on until
nothing is left to do, except for jobs that are held up from outside. A nanosecond passes at every
step of a worker.
-/
namespace TypedTables.Pool

variable {σ ω : Type}

/-- Whether a running job can go on: one that is held up cannot, nor one whose channel is full. -/
def canWork (closing held : Bool) (t : Ticket σ ω) : Bool :=
  match t.phase with
  | .taken | .settled _ | .ended => true
  | .running => !held
  | .producing _ =>
    t.dropped || closing || t.channel.length < channelCapacity ||
      t.source.all fun source => (source.next? t.produced).isNone
  | .queued | .done | .refused => false

/-- The step that a worker can take, if there is one. -/
def nextEvent? (p : Pool σ ω) (held : List Nat) (w : Nat) : Option (Event σ ω) :=
  match p.workers[w]?.map Worker.activity with
  | some .idle => if p.queue.isEmpty then none else some (.take w)
  | some (.busy id) =>
    match p.tickets[id]? with
    | some t => if canWork p.closing (held.contains id) t then some (.work w) else none
    | none => none
  | _ => none

/-- Lets the workers take at most so many steps. -/
def advanceBy (held : List Nat) : Nat → Pool σ ω → Pool σ ω
  | 0, p => p
  | n + 1, p =>
    match (List.range p.workers.length).findSome? (p.nextEvent? held) with
    | some event => advanceBy held n ((p.step (.tick 1)).step event)
    | none => p

/-- More steps than the workers can take before they wait for a caller. -/
def stepBound (p : Pool σ ω) : Nat :=
  (p.queue.length + p.workers.length + 1) * (channelCapacity + 8)

/-- Lets the workers go on until nothing is left to do, except for the jobs that are held up. -/
def advance (p : Pool σ ω) (held : List Nat) : Pool σ ω := advanceBy held p.stepBound p

/-- Submits a job and lets the workers go on. -/
def submitted (p : Pool σ ω) (body : Body σ ω) (held : List Nat) : Pool σ ω :=
  ((p.step (.tick 1)).step (.submit body 1)).advance held

/-- A ticket whose job was never built: it holds the error. -/
def rejected (p : Pool σ ω) (body : Body σ ω) (e : Error) : Pool σ ω :=
  { p with tickets := p.tickets ++ [(Ticket.new body none).refuse e] }

def shutDown (p : Pool σ ω) (held : List Nat) : Pool σ ω :=
  ((p.step .beginClosing).step .closeQueue).advance held

inductive Patience where
  | blocking
  | timer
  | untimed
  deriving DecidableEq

/-- Lets the time pass up to the deadline of a job that still waits in the queue. -/
def untilDeadline (p : Pool σ ω) (id : Nat) : Pool σ ω :=
  match (p.tickets[id]?).bind Ticket.admission with
  | some a => if a.slot = .queued then p.step (.tick (a.deadline - p.now)) else p
  | none => p

/-- Waits for a worker to take a job, at most until its deadline, and gives up if none did. -/
def awaitAdmission (p : Pool σ ω) (id : Nat) : Pool σ ω :=
  ((p.untilDeadline id).step (.expire id)).step (.giveUp id)

/-- What a caller received since it had received `n` things. -/
def news? (p : Pool σ ω) (id n : Nat) : Option (Except Error ω) :=
  (p.tickets[id]?).bind fun t => t.received[n]?

/-- The number of things that the caller of a job received. -/
def receivedCount (p : Pool σ ω) (id : Nat) : Nat :=
  ((p.tickets[id]?).map fun t => t.received.length).getD 0

/-- Waits for the next thing from a job. A thread that reads rows waits for admission first; all
other callers look into the channel first. -/
def next (p : Pool σ ω) (patience : Patience) (held : List Nat) (id : Nat) :
    Option (Except Error ω) × Pool σ ω :=
  let p := p.advance held
  let n := p.receivedCount id
  let reply := ((p.tickets[id]?).map Ticket.isReply).getD true
  let p := if patience = .blocking && !reply then p.awaitAdmission id else p
  let p := p.step (.receive id)
  let p := if p.receivedCount id = n && patience ≠ .untimed then p.awaitAdmission id else p
  (p.news? id n, p)

/-- Reads rows up to the end or the first error, at most so many; `rows` are those read before. -/
def drain (patience : Patience) (held : List Nat) (id : Nat) :
    Nat → List ω → Pool σ ω → (List ω × Option Error) × Pool σ ω
  | 0, rows, p => ((rows.reverse, none), p)
  | n + 1, rows, p =>
    match p.next patience held id with
    | (some (.ok row), p) => drain patience held id n (row :: rows) p
    | (some (.error e), p) => ((rows.reverse, some e), p)
    | (none, p) => ((rows.reverse, none), p)

end TypedTables.Pool
