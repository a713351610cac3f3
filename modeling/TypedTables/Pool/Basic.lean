import TypedTables.Pool.Ticket

/-!
# Pools of workers

A pool has workers, each with a connection of its own, and one queue from which they take jobs in
the order of submission. `Pool.step` is one atomic step of a worker, of a caller, of the clock or of
the world outside; what threads do is a sequence of such steps in any order.
-/
namespace TypedTables

inductive Order where
  | run (id : Nat)
  | stop
  deriving DecidableEq

inductive Activity where
  | idle
  | busy (id : Nat)
  | exited
  deriving DecidableEq

structure Worker (σ : Type) where
  connection : σ
  activity : Activity

/-- A pool of workers. Jobs are numbered in the order of submission. -/
structure Pool (σ ω : Type) where
  workers : List (Worker σ)
  queue : List Order
  tickets : List (Ticket σ ω)
  limit : Option Duration
  now : Nat
  /-- Closing has begun: full channels are given up. -/
  closing : Bool
  /-- No more jobs are queued. -/
  closed : Bool

namespace Pool

variable {σ ω : Type}

def new (connections : List σ) (limit : Option Duration) : Pool σ ω :=
  ⟨connections.map (⟨·, .idle⟩), [], [], limit, 0, false, false⟩

def update (p : Pool σ ω) (id : Nat) (f : Ticket σ ω → Ticket σ ω) : Pool σ ω :=
  { p with tickets := p.tickets.modify id f }

def updateWorker (p : Pool σ ω) (w : Nat) (f : Worker σ → Worker σ) : Pool σ ω :=
  { p with workers := p.workers.modify w f }

def setActivity (p : Pool σ ω) (w : Nat) (activity : Activity) : Pool σ ω :=
  p.updateWorker w fun worker => { worker with activity }

def setConnection (p : Pool σ ω) (w : Nat) (connection : σ) : Pool σ ω :=
  p.updateWorker w fun worker => { worker with connection }

@[simp] theorem update_tickets (p : Pool σ ω) (id : Nat) (f : Ticket σ ω → Ticket σ ω) :
    (p.update id f).tickets = p.tickets.modify id f := rfl

@[simp] theorem update_queue (p : Pool σ ω) (id : Nat) (f : Ticket σ ω → Ticket σ ω) :
    (p.update id f).queue = p.queue := rfl

@[simp] theorem setActivity_tickets (p : Pool σ ω) (w : Nat) (activity : Activity) :
    (p.setActivity w activity).tickets = p.tickets := rfl

@[simp] theorem setActivity_queue (p : Pool σ ω) (w : Nat) (activity : Activity) :
    (p.setActivity w activity).queue = p.queue := rfl

@[simp] theorem setConnection_tickets (p : Pool σ ω) (w : Nat) (connection : σ) :
    (p.setConnection w connection).tickets = p.tickets := rfl

@[simp] theorem setConnection_queue (p : Pool σ ω) (w : Nat) (connection : σ) :
    (p.setConnection w connection).queue = p.queue := rfl

/-- The admission of a job whose deadline was computed so long ago. The outer option is empty if
there is a limit whose deadline no clock can show. -/
def admission? (p : Pool σ ω) (elapsed : Nat) : Option (Option Admission) :=
  match p.limit with
  | none => some none
  | some limit => (Admission.new? (p.now - elapsed) limit).map some

/-- Puts a job into the queue, or turns it away if the queue is closed. -/
def enqueue (p : Pool σ ω) (t : Ticket σ ω) : Pool σ ω :=
  if p.closed then
    { p with tickets := p.tickets ++ [(t.leaveQueue p.now).refuse .poolClosed] }
  else { p with tickets := p.tickets ++ [t], queue := p.queue ++ [.run p.tickets.length] }

/-- Submits a job, `elapsed` after the computing of its deadline. A job whose deadline no clock can
show is not submitted. -/
def submit (p : Pool σ ω) (body : Body σ ω) (elapsed : Nat) : Pool σ ω :=
  match p.admission? elapsed with
  | none => p
  | some admission => p.enqueue (.new body admission)

/-- An idle worker takes the next order from the queue. -/
def take (p : Pool σ ω) (w : Nat) : Pool σ ω :=
  match p.workers[w]?.map Worker.activity, p.queue with
  | some .idle, .run id :: rest =>
    ({ p with queue := rest }.setActivity w (.busy id)).update id Ticket.take
  | some .idle, .stop :: rest => { p with queue := rest }.setActivity w .exited
  | _, _ => p

def start (p : Pool σ ω) (w id : Nat) (connection : σ) : Body σ ω → Pool σ ω
  | .reply _ => p.update id Ticket.beginReply
  | .rows produce =>
    let (source, connection) := produce connection
    (p.setConnection w connection).update id (·.beginRows source)

/-- A worker begins the job that it took, or turns it away. -/
def beginOrRefuse (p : Pool σ ω) (w id : Nat) (connection : σ) (body : Body σ ω) :
    Option Error → Pool σ ω
  | some e => (p.setActivity w .idle).update id (·.refuse e)
  | none => p.start w id connection body

/-- A worker runs a body with one result to its end. -/
def runBody (p : Pool σ ω) (w id : Nat) (connection : σ) : Body σ ω → Pool σ ω
  | .reply run =>
    let (outcome, connection) := run connection
    (p.setConnection w connection).update id (·.endReply outcome)
  | .rows _ => p

/-- A worker sends the result of a body, and is done with the job. -/
def sendResult (p : Pool σ ω) (w id : Nat) : Option (Outcome ω) → Pool σ ω
  | some outcome => (p.setActivity w .idle).update id (·.answer outcome)
  | none => p

def sendRow (p : Pool σ ω) (w id : Nat) (full : Bool) (t : Ticket σ ω) :
    Option (Source ω) → Pool σ ω
  | some source =>
    let p' := p.update id (·.produce p.closing source full)
    if (t.produce p.closing source full).isOver then p'.setActivity w .idle else p'
  | none => p

/-- A worker goes on with the job that it took: it settles whether the job left the queue in time,
looks whether it was withdrawn, runs its body to the end and sends the result, or sends one row
after the other. -/
def work (p : Pool σ ω) (w : Nat) : Pool σ ω :=
  match p.workers[w]? with
  | some ⟨connection, .busy id⟩ =>
    match p.tickets[id]? with
    | none => p
    | some t =>
      match t.phase with
      | .taken => p.update id (·.leaveQueue p.now)
      | .settled inTime => p.beginOrRefuse w id connection t.body (t.refusal? inTime)
      | .running => p.runBody w id connection t.body
      | .ended => p.sendResult w id t.outcome
      | .producing full => p.sendRow w id full t t.source
      | .queued | .done | .refused => p
  | _ => p

def beginClosing (p : Pool σ ω) : Pool σ ω := { p with closing := true }

/-- Shutting down closes the queue and orders each worker to stop. -/
def closeQueue (p : Pool σ ω) : Pool σ ω :=
  if p.closing && !p.closed then
    { p with closed := true, queue := p.queue ++ p.workers.map fun _ => .stop }
  else p

inductive Event (σ ω : Type) where
  | submit (body : Body σ ω) (elapsed : Nat)
  | cancel (id : Nat)
  | drop (id : Nat)
  | receive (id : Nat)
  | expire (id : Nat)
  | giveUp (id : Nat)
  | take (w : Nat)
  | work (w : Nat)
  | beginClosing
  | closeQueue
  | tick (elapsed : Nat)
  /-- Something else changes what the connection of a worker shows. -/
  | outside (w : Nat) (connection : σ)

def step (p : Pool σ ω) : Event σ ω → Pool σ ω
  | .submit body elapsed => p.submit body elapsed
  | .cancel id => p.update id Ticket.cancel
  | .drop id => p.update id Ticket.drop
  | .receive id => p.update id Ticket.receive
  | .expire id => p.update id (·.expire p.now)
  | .giveUp id => p.update id Ticket.giveUp
  | .take w => p.take w
  | .work w => p.work w
  | .beginClosing => p.beginClosing
  | .closeQueue => p.closeQueue
  | .tick elapsed => { p with now := p.now + elapsed }
  | .outside w connection => p.setConnection w connection

def run (p : Pool σ ω) (events : List (Event σ ω)) : Pool σ ω := events.foldl step p

@[simp] theorem run_nil (p : Pool σ ω) : p.run [] = p := rfl

@[simp] theorem run_cons (p : Pool σ ω) (e : Event σ ω) (events : List (Event σ ω)) :
    p.run (e :: events) = (p.step e).run events := rfl

@[simp] theorem run_append (p : Pool σ ω) (events later : List (Event σ ω)) :
    p.run (events ++ later) = (p.run events).run later := List.foldl_append

end Pool

end TypedTables
