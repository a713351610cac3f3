import TypedTables.Duration

/-!
# Waiting for a worker

A job may wait for a worker only for so long. The worker that takes it and the caller that gives up
settle between them which comes first, and what is settled stays settled. Moments are numbers of
nanoseconds since some beginning; a clock counts its seconds with sixty-four bits and a sign.
-/
namespace TypedTables

attribute [local instance (high)] instPowNat

inductive Slot where
  | queued
  | started
  | abandoned
  deriving DecidableEq

structure Admission where
  slot : Slot
  deadline : Nat
  limit : Duration
  deriving DecidableEq

namespace Admission

/-- The first moment that a clock cannot show. -/
def endOfTime : Nat := 2 ^ (63 : Nat) * 1000000000

/-- The admission of a job that is submitted now; none if a clock cannot show its deadline. -/
def new? (now : Nat) (limit : Duration) : Option Admission :=
  if now + limit.toNanos < endOfTime then some ⟨.queued, now + limit.toNanos, limit⟩ else none

/-- A worker takes the job, or finds that it is too late. -/
def leaveQueue (a : Admission) (now : Nat) : Admission :=
  if a.slot = .queued then { a with slot := if now ≤ a.deadline then .started else .abandoned }
    else a

/-- The caller gives up unless a worker was faster. -/
def settle (a : Admission) : Admission :=
  if a.slot = .queued then { a with slot := .abandoned } else a

/-- Whether a worker took the job in time. -/
def isStarted (a : Admission) : Bool := a.slot == .started

end Admission

end TypedTables
