import TypedTables.Job
import TypedTables.Pool.Admission

/-!
# Jobs with their callers

A job in a pool, together with what its caller and its worker share: whether it was withdrawn, how
long it may wait, and a channel of bounded size for its result or its rows. Each function here is
one atomic step of the worker that has the job, or of the caller that holds its handle.
-/
namespace TypedTables

inductive Outcome (α : Type) where
  | returned (r : Except Error α)
  | panicked (message : String)

/-- The result of a body; a panic becomes an error. -/
def Outcome.guarded {α : Type} : Outcome α → Except Error α
  | .returned r => r
  | .panicked message => .error (.workerPanic message)

/-- Rows that are produced one after the other: those up to the first missing one, and then an
end. -/
structure Source (ω : Type) where
  item : Nat → Option ω
  ending : Outcome Unit

/-- The rows that a job handed out, to be produced one after the other. -/
def Emitted.toSource {ω : Type} (e : Emitted ω) : Source ω :=
  ⟨fun i => e.rows[i]?, .returned e.ending.toExcept⟩

/-- The next thing that a job with rows sends: a row, or the error at its end. -/
def Source.next? {ω : Type} (source : Source ω) (produced : Nat) : Option (Except Error ω) :=
  match source.item produced with
  | some row => some (.ok row)
  | none =>
    match source.ending.guarded with
    | .ok _ => none
    | .error e => some (.error e)

inductive Body (σ ω : Type) where
  /-- It has one result. -/
  | reply (run : σ → Outcome ω × σ)
  /-- It produces rows. -/
  | rows (produce : σ → Source ω × σ)

def Job.body {σ ω : Type} (job : Job σ ω) : Body σ ω :=
  .reply fun s =>
    let (r, s) := job s
    (.returned r, s)

def RowJob.body {σ ω : Type} (job : RowJob σ ω) : Body σ ω :=
  .rows fun s =>
    let (emitted, s) := job wantsAll s
    (emitted.toSource, s)

inductive Phase where
  | queued
  /-- A worker took it from the queue. -/
  | taken
  /-- It was settled whether it left the queue in time. -/
  | settled (inTime : Bool)
  /-- A worker runs its body, which has one result. -/
  | running
  /-- Its body ended, and the result is not sent yet. -/
  | ended
  /-- A worker runs its body, which produces rows; `full` says that the channel had no room for the
  next one. -/
  | producing (full : Bool)
  /-- It ran to its end. -/
  | done
  /-- It was turned away without having run. -/
  | refused
  deriving DecidableEq

structure Ticket (σ ω : Type) where
  body : Body σ ω
  phase : Phase
  cancelled : Bool
  admission : Option Admission
  /-- What was sent and not yet received. -/
  channel : List (Except Error ω)
  /-- The caller dropped the handle. -/
  dropped : Bool
  /-- The rows were cut short when the pool was closed. -/
  truncated : Bool
  /-- What the caller received. -/
  received : List (Except Error ω)
  /-- The caller knows that nothing more comes. -/
  finished : Bool
  /-- How often the body was begun. -/
  begun : Nat
  /-- How the body ended, if it has one result. -/
  outcome : Option (Outcome ω)
  /-- What the body produces, once it was begun, if it produces rows. -/
  source : Option (Source ω)
  /-- The number of rows that were sent. -/
  produced : Nat

def channelCapacity : Nat := 128

namespace Ticket

variable {σ ω : Type}

def new (body : Body σ ω) (admission : Option Admission) : Ticket σ ω :=
  ⟨body, .queued, false, admission, [], false, false, [], false, 0, none, none, 0⟩

def isOver (t : Ticket σ ω) : Bool :=
  match t.phase with
  | .done | .refused => true
  | _ => false

def wasStarted (t : Ticket σ ω) : Bool := 0 < t.begun

def isReply (t : Ticket σ ω) : Bool :=
  match t.body with
  | .reply _ => true
  | .rows _ => false

/-! ### The worker -/

/-- Sends something, which is lost if nobody can receive it. -/
def send (t : Ticket σ ω) (x : Except Error ω) : Ticket σ ω :=
  if t.dropped then t else { t with channel := t.channel ++ [x] }

def refuse (t : Ticket σ ω) (e : Error) : Ticket σ ω :=
  { t.send (.error e) with phase := .refused }

def take (t : Ticket σ ω) : Ticket σ ω := { t with phase := .taken }

/-- Settles whether the job left the queue in time. -/
def leaveQueue (t : Ticket σ ω) (now : Nat) : Ticket σ ω :=
  let admission := t.admission.map (Admission.leaveQueue · now)
  { t with admission, phase := .settled (admission.all Admission.isStarted) }

/-- Why a job that left the queue is turned away: its caller withdrew it, or it left too late. -/
def refusal? (t : Ticket σ ω) (inTime : Bool) : Option Error :=
  if t.cancelled then some .cancelled
  else
    match t.admission, inTime with
    | some a, false => some (.timeout a.limit)
    | _, _ => none

def beginReply (t : Ticket σ ω) : Ticket σ ω := { t with phase := .running, begun := t.begun + 1 }

def endReply (t : Ticket σ ω) (outcome : Outcome ω) : Ticket σ ω :=
  { t with phase := .ended, outcome := some outcome }

/-- Sends the result of a body that ended. -/
def answer (t : Ticket σ ω) (outcome : Outcome ω) : Ticket σ ω :=
  { t.send outcome.guarded with phase := .done }

def beginRows (t : Ticket σ ω) (source : Source ω) : Ticket σ ω :=
  { t with phase := .producing false, begun := t.begun + 1, source := some source }

/-- One attempt of a running job to send the next thing. The job stops if nobody can receive it. -/
def push (t : Ticket σ ω) (source : Source ω) : Ticket σ ω :=
  match source.next? t.produced with
  | none => { t with phase := .done }
  | some x =>
    if t.dropped then { t with phase := .done }
    else if t.channel.length < channelCapacity then
      if x.isOk then { t with channel := t.channel ++ [x], produced := t.produced + 1 }
      else { t with channel := t.channel ++ [x], phase := .done }
    else { t with phase := .producing true }

/-- A running job goes on: it sends the next thing, or it found the channel full. Then it tries
again, unless the pool is closing. -/
def produce (t : Ticket σ ω) (closing : Bool) (source : Source ω) (full : Bool) : Ticket σ ω :=
  if !full then t.push source
  else if closing then { t with truncated := true, phase := .done }
  else { t with phase := .producing false }

/-! ### The caller -/

/-- Withdraws the job unless a worker has already begun it. -/
def cancel (t : Ticket σ ω) : Ticket σ ω := { t with cancelled := true }

def drop (t : Ticket σ ω) : Ticket σ ω := { t with dropped := true, channel := [] }

/-- Whether the caller still holds the handle and may get something from it. -/
def isHeld (t : Ticket σ ω) : Bool := !t.finished && !t.dropped

def deliver (t : Ticket σ ω) (x : Except Error ω) (rest : List (Except Error ω)) : Ticket σ ω :=
  { t with channel := rest, received := t.received ++ [x], finished := t.isReply || !x.isOk }

/-- Looks into the channel. At the end of a job without anything to receive, a missing result or cut
off rows mean that the pool was closed. -/
def receive (t : Ticket σ ω) : Ticket σ ω :=
  if !t.isHeld then t
  else
    match t.channel with
    | x :: rest => t.deliver x rest
    | [] =>
      if !t.isOver then t
      else if t.isReply || t.truncated then t.deliver (.error .poolClosed) []
      else { t with finished := true }

/-- The caller has waited until the deadline: it settles that no worker takes the job any more,
unless one was faster. -/
def expire (t : Ticket σ ω) (now : Nat) : Ticket σ ω :=
  match t.admission with
  | some a => if t.isHeld && a.deadline ≤ now then { t with admission := some a.settle } else t
  | none => t

/-- The caller gives up if it was settled that no worker takes the job in time. -/
def giveUp (t : Ticket σ ω) : Ticket σ ω :=
  match t.admission with
  | some a =>
    if t.isHeld && a.slot = .abandoned then
      { t with
        cancelled := true, received := t.received ++ [.error (.timeout a.limit)], finished := true }
    else t
  | none => t

end Ticket

end TypedTables
