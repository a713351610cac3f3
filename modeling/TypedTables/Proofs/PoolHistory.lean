import Mathlib.Data.List.Basic
import TypedTables.Proofs.WorkerSteps

/-!
# The history of a pool

The history of a pool says which jobs were put into the queue or turned away at its door, which
worker took which order, and which jobs were begun or turned away by a worker, in the order in which
that happened. For this it does not matter what the jobs do: `Outline.Next` has one case for each
thing that a step can make of a pool of which only the queue is known, how far each job has come,
and what each worker does.
-/
namespace TypedTables

/-- Whether nothing more is sent for a job that has come so far. -/
def Phase.isOver : Phase → Bool
  | .done | .refused => true
  | _ => false

theorem Phase.hasLeft_of_hasBegun {phase : Phase} (h : phase.hasBegun = true) :
    phase.hasLeft = true := by
  cases phase <;> simp_all [hasLeft, hasBegun]

inductive Deed where
  /-- A job is put into the queue. -/
  | accept (id : Nat)
  /-- A job is turned away, since the queue is closed. -/
  | reject (id : Nat)
  /-- A worker takes an order from the queue. -/
  | take (w : Nat) (order : Order)
  /-- A worker begins the body of a job. -/
  | start (id : Nat)
  /-- A worker turns a job away. -/
  | refuse (id : Nat) (e : Error)
  deriving DecidableEq

structure Outline where
  phases : List Phase
  activities : List Activity
  queue : List Order
  closed : Bool

namespace Outline

inductive Next : Outline → Option Deed → Outline → Prop where
  | quiet (o : Outline) : Next o none o
  | accept {o : Outline} (opened : o.closed = false) : Next o (some (.accept o.phases.length))
      { o with phases := o.phases ++ [.queued], queue := o.queue ++ [.run o.phases.length] }
  | reject {o : Outline} (closed : o.closed = true) : Next o (some (.reject o.phases.length))
      { o with phases := o.phases ++ [.refused] }
  | takeJob {o : Outline} {w id : Nat} {rest : List Order} (idle : o.activities[w]? = some .idle)
    (queue : o.queue = .run id :: rest) (waiting : o.phases[id]? = some .queued) :
    Next o (some (.take w (.run id)))
      { o with phases := o.phases.set id .taken, activities :=
        o.activities.set w (.busy id), queue := rest }
  | takeStop {o : Outline} {w : Nat} {rest : List Order} (idle : o.activities[w]? = some .idle)
    (queue : o.queue = .stop :: rest) :
    Next o (some (.take w .stop)) { o with activities := o.activities.set w .exited, queue := rest }
  | start {o : Outline} {w id : Nat} {inTime : Bool} {phase : Phase}
      (busy : o.activities[w]? = some (.busy id))
    (settled : o.phases[id]? = some (.settled inTime)) (begun : phase.hasBegun = true)
    (goesOn : phase.isOver = false) : Next o (some (.start id))
      { o with phases := o.phases.set id phase, activities := o.activities.set w (.busy id) }
  | refuse {o : Outline} {w id : Nat} {inTime : Bool} {e : Error}
      (busy : o.activities[w]? = some (.busy id))
    (settled : o.phases[id]? = some (.settled inTime)) (refusal : e.isRefusal = true) :
    Next o (some (.refuse id e))
      { o with phases := o.phases.set id .refused, activities := o.activities.set w .idle }
  | goOn {o : Outline} {w id : Nat} {phase phase' : Phase}
      (busy : o.activities[w]? = some (.busy id))
    (held : o.phases[id]? = some phase) (unfinished : phase.isOver = false)
      (left : phase'.hasLeft = true)
    (unrefused : phase' ≠ .refused) (same : phase'.hasBegun = phase.hasBegun) : Next o none { o with
      phases := o.phases.set id phase'
      activities := o.activities.set w (if phase'.isOver then .idle else .busy id) }
  | close {o : Outline} (opened : o.closed = false) : Next o none
      { o with closed := true, queue := o.queue ++ List.replicate o.activities.length .stop }

end Outline

variable {σ ω : Type}

section Lists

variable {α β : Type} {f : α → α} {g : α → β}

theorem modify_eq_set {l : List α} {i : Nat} {a : α} (h : l[i]? = some a) (f : α → α) :
    l.modify i f = l.set i (f a) := by
  rw [List.modify_eq_set_getElem?, h]
  rfl

theorem set_same {l : List α} {i : Nat} {a : α} (h : l[i]? = some a) : l.set i a = l := by
  obtain ⟨hlt, rfl⟩ := List.getElem?_eq_some_iff.mp h
  exact List.set_getElem_self hlt

theorem map_modify_same (h : ∀ a, g (f a) = g a) (l : List α) (i : Nat) :
    (l.modify i f).map g = l.map g := by
  apply List.ext_getElem?
  intro j
  rw [List.getElem?_map, List.getElem?_map, List.getElem?_modify]
  cases l[j]? with
  | none => rfl
  | some a => by_cases hi : i = j <;> simp [hi, h]

theorem map_modify_const {b : β} (h : ∀ a, g (f a) = b) (l : List α) (i : Nat) :
    (l.modify i f).map g = (l.map g).set i b := by
  cases hl : l[i]? with
  | some a => rw [modify_eq_set hl, List.map_set, h]
  | none =>
    have hle := List.getElem?_eq_none_iff.mp hl
    rw [List.modify_eq_self hle, List.set_eq_of_length_le (by rwa [List.length_map])]

end Lists

namespace Ticket

theorem isOver_phase (t : Ticket σ ω) : t.phase.isOver = t.isOver := by
  unfold isOver Phase.isOver
  cases t.phase <;> rfl

theorem hasBegun_produce {t : Ticket σ ω} {full : Bool}
    (h : t.phase = .producing full) (closing : Bool) (source : Source ω) :
    (t.produce closing source full).phase.hasBegun = true := by
  have hproduces := produces h closing source
  generalize t.produce closing source full = t' at hproduces ⊢
  cases hproduces <;> rfl

inductive Works (closing : Bool) (now : Nat) (s : σ) (t : Ticket σ ω) : Ticket σ ω → Prop where
  | leaveQueue (taken : t.phase = .taken) : Works closing now s t (t.leaveQueue now)
  | refuse {inTime : Bool} {e : Error} (settled : t.phase = .settled inTime)
    (refused : t.refusal? inTime = some e) : Works closing now s t (t.refuse e)
  | beginReply {inTime : Bool} {run : σ → Outcome ω × σ} (settled : t.phase = .settled inTime)
    (free : t.refusal? inTime = none) (reply : t.body = .reply run) :
    Works closing now s t t.beginReply
  | beginRows {inTime : Bool} {produce : σ → Source ω × σ} (settled : t.phase = .settled inTime)
    (free : t.refusal? inTime = none) (rows : t.body = .rows produce) :
    Works closing now s t (t.beginRows (produce s).1)
  | endReply {run : σ → Outcome ω × σ} (running : t.phase = .running)
      (reply : t.body = .reply run) :
    Works closing now s t (t.endReply (run s).1)
  | answer {outcome : Outcome ω} (ended : t.phase = .ended) (known : t.outcome = some outcome) :
    Works closing now s t (t.answer outcome)
  | produce {full : Bool} {source : Source ω} (producing : t.phase = .producing full)
    (known : t.source = some source) : Works closing now s t (t.produce closing source full)

/-- What goes down in the history when the worker that has a job goes on. -/
def deed? (t : Ticket σ ω) (id : Nat) : Option Deed :=
  match t.phase with
  | .settled inTime =>
    match t.refusal? inTime with
    | some e => some (.refuse id e)
    | none => some (.start id)
  | _ => none

end Ticket

namespace Pool

/-- What goes down in the history of a pool at a step. -/
def deed? (p : Pool σ ω) : Event σ ω → Option Deed
  | .submit _ elapsed => (p.admission? elapsed).map fun _ =>
      if p.closed then .reject p.tickets.length else .accept p.tickets.length
  | .take w =>
    match p.workers[w]?.map Worker.activity with
    | some .idle => p.queue.head?.map (.take w)
    | _ => none
  | .work w =>
    match p.workers[w]?.map Worker.activity with
    | some (.busy id) => (p.tickets[id]?).bind (·.deed? id)
    | _ => none
  | _ => none

def history (p : Pool σ ω) : List (Event σ ω) → List Deed
  | [] => []
  | e :: events => (p.deed? e).toList ++ (p.step e).history events

def outline (p : Pool σ ω) : Outline :=
  ⟨p.tickets.map Ticket.phase, p.workers.map Worker.activity, p.queue, p.closed⟩

/-- What every step keeps of a pool and its history, every run keeps. -/
theorem run_recorded {I : List Deed → Pool σ ω → Prop} {p : Pool σ ω} (hp : I [] p)
    (h : ∀ {deeds : List Deed} {p : Pool σ ω} (e : Event σ ω), I deeds p →
      I (deeds ++ (p.deed? e).toList) (p.step e)) (events : List (Event σ ω)) :
    I (p.history events) (p.run events) := by
  have hrun : ∀ {deeds : List Deed} {p : Pool σ ω}, I deeds p →
      I (deeds ++ p.history events) (p.run events) := by
    induction events with
    | nil =>
      intro deeds p hp
      rwa [history, List.append_nil]
    | cons e events ih =>
      intro deeds p hp
      rw [history, ← List.append_assoc]
      exact ih (h e hp)
  exact hrun hp

/-! ### The outline of a step -/

/-- What a caller does leaves the outline of a pool alone. -/
theorem outline_update (p : Pool σ ω) (id : Nat) {f : Ticket σ ω → Ticket σ ω}
    (h : ∀ t, (f t).phase = t.phase) : (p.update id f).outline = p.outline := by
  rw [outline, outline, update_tickets, map_modify_same h]
  rfl

/-- The outline after a job was changed. -/
theorem outline_update_job {p : Pool σ ω} {id : Nat} {t : Ticket σ ω} (ht : p.tickets[id]? = some t)
    (f : Ticket σ ω → Ticket σ ω) :
    (p.update id f).outline = { p.outline with phases := p.outline.phases.set id (f t).phase } := by
  simp only [outline, update_tickets, modify_eq_set ht, List.map_set]
  rfl

theorem outline_setActivity (p : Pool σ ω) (w : Nat) (activity : Activity) :
    (p.setActivity w activity).outline =
      { p.outline with activities := p.outline.activities.set w activity } := by
  have hactivities : (p.setActivity w activity).workers.map Worker.activity =
      (p.workers.map Worker.activity).set w activity := map_modify_const (by exact fun _ => rfl) _ _
  rw [outline, hactivities]
  rfl

theorem outline_setConnection (p : Pool σ ω) (w : Nat) (connection : σ) :
    (p.setConnection w connection).outline = p.outline := by
  have hactivities : (p.setConnection w connection).workers.map Worker.activity =
      p.workers.map Worker.activity := map_modify_same (by exact fun _ => rfl) _ _
  rw [outline, hactivities]
  rfl

namespace Holds

variable {p : Pool σ ω} {w id : Nat} {x : Worker σ} {t : Ticket σ ω}

theorem activity (h : p.Holds w x id t) : p.outline.activities[w]? = some (.busy id) := by
  simp [outline, h.worker, h.busy]

theorem phase (h : p.Holds w x id t) : p.outline.phases[id]? = some t.phase := by
  simp [outline, h.job]

/-- What goes down in the history when a worker goes on with its job. -/
theorem deed? (h : p.Holds w x id t) : p.deed? (.work w) = t.deed? id := by
  simp [Pool.deed?, h.worker, h.busy, h.job]

theorem setConnection (h : p.Holds w x id t) (connection : σ) :
    (p.setConnection w connection).Holds w { x with connection } id t :=
  ⟨updateWorker_same h.worker _, h.busy, h.job⟩

/-- A worker that stays busy with its job. -/
theorem outline_busy (h : p.Holds w x id t) (f : Ticket σ ω → Ticket σ ω) :
    (p.update id f).outline = { p.outline with
      phases := p.outline.phases.set id (f t).phase
      activities := p.outline.activities.set w (.busy id) } := by
  rw [outline_update_job h.job, set_same h.activity]

/-- A worker that is done with its job. -/
theorem outline_idle (h : p.Holds w x id t) (f : Ticket σ ω → Ticket σ ω) :
    ((p.setActivity w .idle).update id f).outline = { p.outline with
      phases := p.outline.phases.set id (f t).phase
      activities := p.outline.activities.set w .idle } := by
  have ht : (p.setActivity w .idle).tickets[id]? = some t := h.job
  rw [outline_update_job ht, outline_setActivity]

/-- A job that produces rows goes on, or ends and sets its worker free. -/
theorem produce_next (h : p.Holds w x id t) {full : Bool} (producing : t.phase = .producing full)
    (closing : Bool) (source : Source ω) : p.outline.Next none { p.outline with
      phases := p.outline.phases.set id (t.produce closing source full).phase
      activities := p.outline.activities.set w
        (if (t.produce closing source full).isOver then .idle else .busy id) } := by
  have hbegun := Ticket.hasBegun_produce producing closing source
  rw [← Ticket.isOver_phase]
  apply Outline.Next.goOn h.activity h.phase (by rw [producing]; rfl)
    (Phase.hasLeft_of_hasBegun hbegun)
    (Phase.ne_refused hbegun)
  rw [hbegun, producing]
  rfl

end Holds

/-- A worker that can go on does something for its job, and keeps it until it is over. -/
theorem Holds.works {p : Pool σ ω} {w id : Nat} {x : Worker σ} {t : Ticket σ ω}
    (h : p.Holds w x id t) (hgoesOn : t.CanGoOn) : ∃ t', t.Works p.closing p.now x.connection t' ∧
      (p.work w).tickets[id]? = some t' ∧
      (p.work w).outline.activities = p.outline.activities.set w (if t'.isOver then .idle
        else .busy id) := by
  have hacts := p.work_acts w
  generalize p.work w = p' at hacts ⊢
  cases hacts with
  | rest stuck => exact absurd hgoesOn (stuck x id t h)
  | leave holds taken =>
    obtain ⟨rfl, rfl, rfl⟩ := h.unique holds
    exact ⟨_, .leaveQueue taken, getElem?_update_same h.job _, by rw [h.outline_busy]; rfl⟩
  | refuse holds settled refused =>
    obtain ⟨rfl, rfl, rfl⟩ := h.unique holds
    exact ⟨_, .refuse settled refused, getElem?_update_same h.job _, by rw [h.outline_idle]; rfl⟩
  | beginReply holds settled free reply =>
    obtain ⟨rfl, rfl, rfl⟩ := h.unique holds
    exact ⟨_, .beginReply settled free reply,
      getElem?_update_same h.job _, by rw [h.outline_busy]; rfl⟩
  | beginRows holds settled free rows =>
    obtain ⟨rfl, rfl, rfl⟩ := h.unique holds
    refine ⟨_, .beginRows settled free rows, getElem?_update_same (h.setConnection _).job _, ?_⟩
    rw [(h.setConnection _).outline_busy, outline_setConnection]
    rfl
  | endReply holds running reply =>
    obtain ⟨rfl, rfl, rfl⟩ := h.unique holds
    refine ⟨_, .endReply running reply, getElem?_update_same (h.setConnection _).job _, ?_⟩
    rw [(h.setConnection _).outline_busy, outline_setConnection]
    rfl
  | answer holds ended known =>
    obtain ⟨rfl, rfl, rfl⟩ := h.unique holds
    exact ⟨_, .answer ended known, getElem?_update_same h.job _, by rw [h.outline_idle]; rfl⟩
  | send holds producing known goesOn =>
    obtain ⟨rfl, rfl, rfl⟩ := h.unique holds
    refine ⟨_, .produce producing known, getElem?_update_same h.job _, ?_⟩
    rw [h.outline_busy, goesOn]
    rfl
  | finish holds producing known ends =>
    obtain ⟨rfl, rfl, rfl⟩ := h.unique holds
    refine ⟨_, .produce producing known, getElem?_update_same h.job _, ?_⟩
    rw [outline_setActivity, outline_update_job h.job, ends]
    rfl

theorem submit_next (p : Pool σ ω) (body : Body σ ω) (elapsed : Nat) :
    p.outline.Next (p.deed? (.submit body elapsed)) (p.submit body elapsed).outline := by
  simp only [submit, deed?]
  cases p.admission? elapsed with
  | none => exact .quiet _
  | some admission =>
    cases hclosed : p.closed with
    | true =>
      have h := Outline.Next.reject (o := p.outline) hclosed
      simpa [outline, enqueue, hclosed, Ticket.refuse] using h
    | false =>
      have h := Outline.Next.accept (o := p.outline) hclosed
      simpa [outline, enqueue, hclosed, Ticket.new] using h

/-- A worker that takes nothing adds nothing to the history. -/
theorem deed?_of_rest {p : Pool σ ω} {w : Nat}
    (hnone : ∀ x, p.workers[w]? = some x → x.activity = .idle → p.queue = []) :
    p.deed? (.take w) = none := by
  simp only [deed?]
  split
  next hidle =>
    obtain ⟨x, hx, hactivity⟩ := Option.map_eq_some_iff.mp hidle
    rw [hnone x hx hactivity]
    rfl
  next => rfl

/-- Neither does a worker that cannot go on. -/
theorem deed?_of_stuck {p : Pool σ ω} {w : Nat} (hstuck : ∀ x id t, p.Holds w x id t → ¬t.CanGoOn) :
    p.deed? (.work w) = none := by
  simp only [deed?]
  split
  next id hbusy =>
    obtain ⟨x, hx, hactivity⟩ := Option.map_eq_some_iff.mp hbusy
    cases ht : p.tickets[id]? with
    | none => rfl
    | some t =>
      have hstays := hstuck x id t ⟨hx, hactivity, ht⟩
      simp only [Option.bind_some, Ticket.deed?]
      split
      next hsettled => exact (hstays (by simp [Ticket.CanGoOn, hsettled])).elim
      next => rfl
  next => rfl

theorem take_next {p : Pool σ ω} (hp : p.Orderly) (w : Nat) :
    p.outline.Next (p.deed? (.take w)) (p.take w).outline := by
  have htakes := p.take_takes w
  generalize p.take w = p' at htakes ⊢
  cases htakes with
  | rest hnone =>
    rw [deed?_of_rest hnone]
    exact .quiet _
  | @job x id rest worker idle queue =>
    obtain ⟨t, ht, hwaits⟩ := hp.waiting id (by simp [queue])
    have hdeed : p.deed? (.take w) = some (.take w (.run id)) := by
      simp [deed?, worker, idle, queue]
    have ht' : (({ p with queue := rest } : Pool σ ω).setActivity w (.busy id)).tickets[id]? =
        some t := ht
    rw [hdeed, outline_update_job ht', outline_setActivity]
    exact .takeJob (o := p.outline) (by simp [outline,
      worker, idle]) queue (by simp [outline, ht, hwaits])
  | @stop x rest worker idle queue =>
    have hdeed : p.deed? (.take w) = some (.take w .stop) := by simp [deed?, worker, idle, queue]
    rw [hdeed, outline_setActivity]
    exact .takeStop (o := p.outline) (by simp [outline, worker, idle]) queue

theorem work_next (p : Pool σ ω) (w : Nat) :
    p.outline.Next (p.deed? (.work w)) (p.work w).outline := by
  have hacts := p.work_acts w
  generalize p.work w = p' at hacts ⊢
  cases hacts with
  | rest stuck =>
    rw [deed?_of_stuck stuck]
    exact .quiet _
  | leave holds taken =>
    rw [holds.deed?, holds.outline_busy, Ticket.deed?, taken]
    exact .goOn holds.activity holds.phase (by rw [taken]; rfl) rfl Phase.noConfusion
      (by rw [taken]; rfl)
  | refuse holds settled refused =>
    rw [holds.deed?, holds.outline_idle, Ticket.deed?, settled]
    dsimp only
    rw [refused]
    exact .refuse holds.activity (settled ▸ holds.phase) (Ticket.isRefusal_of_refusal? refused)
  | beginReply holds settled free =>
    rw [holds.deed?, holds.outline_busy, Ticket.deed?, settled]
    dsimp only
    rw [free]
    exact .start holds.activity (settled ▸ holds.phase) rfl rfl
  | @beginRows x id t inTime produce holds settled free =>
    rw [holds.deed?, (holds.setConnection _).outline_busy, outline_setConnection,
      Ticket.deed?, settled]
    dsimp only
    rw [free]
    exact .start holds.activity (settled ▸ holds.phase) rfl rfl
  | @endReply x id t run holds running =>
    rw [holds.deed?, (holds.setConnection _).outline_busy, outline_setConnection,
      Ticket.deed?, running]
    exact .goOn holds.activity holds.phase (by rw [running]; rfl) rfl Phase.noConfusion (by
      rw [running]; rfl)
  | answer holds ended known =>
    rw [holds.deed?, holds.outline_idle, Ticket.deed?, ended]
    exact .goOn holds.activity holds.phase
      (by rw [ended]; rfl) rfl Phase.noConfusion (by rw [ended]; rfl)
  | @send x id t full source holds producing known goesOn =>
    have hnext := holds.produce_next producing p.closing source
    rw [goesOn] at hnext
    rw [holds.deed?, holds.outline_busy, Ticket.deed?, producing]
    exact hnext
  | @finish x id t full source holds producing known ends =>
    have hnext := holds.produce_next producing p.closing source
    rw [ends] at hnext
    rw [holds.deed?, outline_setActivity, outline_update_job holds.job, Ticket.deed?, producing]
    exact hnext

theorem closeQueue_next (p : Pool σ ω) : p.outline.Next none p.closeQueue.outline := by
  unfold closeQueue
  split
  next h =>
    have hopen : p.closed = false := by simp_all
    have hnext := Outline.Next.close (o := p.outline) hopen
    simpa [outline, List.map_const'] using hnext
  next => exact .quiet _

/-- Each step is one of the cases, with the deed that goes down in the history. -/
theorem Orderly.step_next {p : Pool σ ω} (hp : p.Orderly) (e : Event σ ω) :
    p.outline.Next (p.deed? e) (p.step e).outline := by
  have hsame : ∀ {p' : Pool σ ω}, p'.outline = p.outline → p.outline.Next none p'.outline :=
    fun h => h ▸ .quiet _
  cases e with
  | submit body elapsed => exact p.submit_next body elapsed
  | cancel id => exact hsame (p.outline_update id fun _ => rfl)
  | drop id => exact hsame (p.outline_update id fun _ => rfl)
  | receive id => exact hsame (p.outline_update id Ticket.phase_receive)
  | expire id => exact hsame (p.outline_update id fun t => t.phase_expire p.now)
  | giveUp id => exact hsame (p.outline_update id Ticket.phase_giveUp)
  | take w => exact take_next hp w
  | work w => exact p.work_next w
  | beginClosing => exact hsame rfl
  | closeQueue => exact p.closeQueue_next
  | tick elapsed => exact hsame rfl
  | outside w connection => exact hsame (p.outline_setConnection w connection)

/-- What holds of the outline and the history of a new pool, and is kept in each case, holds at all
times. -/
theorem new_run_outline {I : List Deed → Outline → Prop} (connections : List σ)
    (limit : Option Duration) (hnew : I [] (new connections limit : Pool σ ω).outline)
    (hnext : ∀ {deeds : List Deed} {o o' : Outline} {d : Option Deed}, I deeds o → o.Next d o' →
      I (deeds ++ d.toList) o') (events : List (Event σ ω)) :
    I ((new connections limit).history events) ((new connections limit).run events).outline := by
  have hboth := run_recorded (I := fun deeds (p : Pool σ ω) => p.Orderly ∧ I deeds p.outline)
    ⟨orderly_new connections limit, hnew⟩
    (fun e h => ⟨h.1.step e, hnext h.2 (h.1.step_next e)⟩) events
  exact hboth.2

end Pool

end TypedTables
