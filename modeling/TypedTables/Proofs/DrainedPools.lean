import TypedTables.Proofs.ClosedPools
import TypedTables.Proofs.PoolAccounts

/-!
# Pools that are drained

Whoever submits a job to a pool has it put into the queue, or gets it back with `Error.poolClosed`,
and the workers of a pool that is shut down stop one after the other when they have taken all jobs
of the queue, each with an order of its own. Nothing but the workers is needed for this: while the
pool is closing, a job whose channel is full is cut short, so that no worker waits for a caller.
-/
namespace TypedTables

variable {σ ω : Type}

namespace Ticket

variable {t t' : Ticket σ ω}

/-! ### Jobs that are turned away at the door -/

/-- A job that was turned away when it was submitted: the error waits for the caller, unless the
caller finds that the job left the queue too late. -/
structure Rejected (t : Ticket σ ω) : Prop where
  refused : t.phase = .refused
  unbegun : t.begun = 0
  waiting : t.isHeld = true → t.channel = [.error .poolClosed] ∧ t.received = []
  told : t.finished = true →
    t.received = [.error .poolClosed] ∨ ∃ a, t.admission = some a ∧
    t.received = [.error (.timeout a.limit)]

theorem rejected (body : Body σ ω) (admission : Option Admission) (now : Nat) :
    (((new body admission).leaveQueue now).refuse .poolClosed).Rejected :=
  ⟨rfl, rfl, fun _ => ⟨rfl, rfl⟩, nofun⟩

theorem Rejected.receive (h : t.Rejected) : t.receive.Rejected := by
  cases hheld : t.isHeld with
  | false => rwa [receive_of_not_held hheld]
  | true =>
    obtain ⟨hchannel, hreceived⟩ := h.waiting hheld
    have hfinished := t.finished_deliver_error .poolClosed []
    have hanswer : (t.deliver (.error .poolClosed) []).received = [.error .poolClosed] := by
      rw [deliver, hreceived]
      rfl
    rw [receive_cons hheld hchannel]
    refine ⟨h.refused, h.unbegun, fun hheld' => ?_, fun _ => .inl hanswer⟩
    cases hfinished.symm.trans (isHeld_iff.mp hheld').1

theorem Rejected.giveUp (h : t.Rejected) : t.giveUp.Rejected := by
  unfold Ticket.giveUp
  split
  next a ha =>
    split
    next hgives =>
      obtain ⟨hheld, -⟩ := Bool.and_eq_true_iff.mp hgives
      exact ⟨h.refused, h.unbegun, nofun, fun _ => .inr ⟨a, ha, by rw [(h.waiting hheld).2]; rfl⟩⟩
    next => exact h
  next => exact h

/-- A job that was turned away at the door stays so. -/
theorem Rejected.moves (h : t.Rejected) (hm : t.Moves t') : t'.Rejected := by
  have hphase := h.refused
  cases hm with
  | stay => exact h
  | cancel => exact { h with }
  | drop => exact { h with waiting := fun hheld => nomatch (isHeld_iff.mp hheld).2 }
  | receive => exact h.receive
  | expire now =>
    rcases t.expire_frame now with heq | heq
    · rwa [heq]
    · rw [heq]
      refine { h with told := fun hfinished => ?_ }
      rcases h.told hfinished with hclosed | ⟨a, ha, hreceived⟩
      · exact .inl hclosed
      · refine .inr ⟨a.settle, by rw [ha, Option.map_some], ?_⟩
        rw [hreceived, Admission.settle]
        split <;> rfl
  | giveUp => exact h.giveUp
  | take waiting => cases hphase.symm.trans waiting
  | leaveQueue taken => cases hphase.symm.trans taken
  | refuse settled => cases hphase.symm.trans settled
  | beginReply settled => cases hphase.symm.trans settled
  | beginRows settled => cases hphase.symm.trans settled
  | endReply running => cases hphase.symm.trans running
  | answer ended => cases hphase.symm.trans ended
  | produce producing => cases hphase.symm.trans producing

/-! ### How far a job is from its end -/

/-- At most so many steps of its worker are left of a job while the pool is closing. -/
def effort (t : Ticket σ ω) : Nat :=
  match t.phase with
  | .taken => 2 * channelCapacity + 5
  | .settled _ => 2 * channelCapacity + 4
  | .producing full => 2 * (channelCapacity - t.channel.length) + if full then 2 else 3
  | .running => 2
  | .ended => 1
  | .queued | .done | .refused => 0

/-- A job whose pool is closing comes nearer to its end, even if its channel is full. -/
theorem effort_produce {full : Bool} {source : Source ω} (hphase : t.phase = .producing full)
    (hgoesOn : (t.produce true source full).isOver = false) :
    (t.produce true source full).effort < t.effort := by
  have heffort : t.effort = 2 * (channelCapacity - t.channel.length) + if full then 2 else 3 := by
    rw [effort, hphase]
  cases full with
  | true => cases hgoesOn
  | false =>
    change (t.push source).isOver = false at hgoesOn
    change (t.push source).effort < t.effort
    unfold push at hgoesOn ⊢
    split at hgoesOn
    next => cases hgoesOn
    next x hx =>
      split at hgoesOn
      next => cases hgoesOn
      next hkept =>
        split at hgoesOn
        next hroom =>
          split at hgoesOn
          next hok =>
            simp only [hkept, hroom, hok, if_true, Bool.false_eq_true, if_false, effort, hphase,
              List.length_append, List.length_singleton] at heffort ⊢
            omega
          next => cases hgoesOn
        next hfull =>
          simp only [hkept, hfull, Bool.false_eq_true, if_false, if_true, effort,
            hphase] at heffort ⊢
          omega

/-- A job that is not over after a step of its worker is nearer to its end. -/
theorem Works.effort_lt {now : Nat} {s : σ} (hw : t.Works true now s t')
    (hgoesOn : t'.isOver = false) :
    t'.effort < t.effort := by
  cases hw with
  | leaveQueue taken => simp [effort, Ticket.leaveQueue, taken]
  | refuse => cases hgoesOn
  | beginReply settled => simp [effort, Ticket.beginReply, settled, channelCapacity]
  | beginRows settled =>
    simp only [effort, Ticket.beginRows, settled, Bool.false_eq_true, if_false]
    omega
  | endReply running => simp [effort, Ticket.endReply, running]
  | answer => cases hgoesOn
  | produce producing => exact effort_produce producing hgoesOn

end Ticket

def Activity.isBusy : Activity → Bool
  | .busy _ => true
  | _ => false

namespace Pool

/-! ### Workers that go on alone -/

theorem Reachable.run {p : Pool σ ω} (hp : p.Reachable) (events : List (Event σ ω)) :
    (p.run events).Reachable := by
  obtain ⟨connections, limit, h⟩ := hp
  exact ⟨connections, limit, h.trans ⟨events, rfl⟩⟩

theorem Reachable.accounts {p : Pool σ ω} (hp : p.Reachable) :
    ∃ deeds, Outline.Ledger deeds p.outline ∧ p.outline.Placed := by
  obtain ⟨connections, limit, events, rfl⟩ := hp
  exact ⟨_, new_run_ledger connections limit events⟩

/-- A worker that is busy has a job. -/
theorem Reachable.exists_holds {p : Pool σ ω} (hp : p.Reachable) {w id : Nat}
    (hbusy : p.outline.activities[w]? = some (.busy id)) : ∃ x t, p.Holds w x id t := by
  obtain ⟨deeds, -, hplaced⟩ := hp.accounts
  obtain ⟨phase, hphase, -⟩ := hplaced.held w id hbusy
  obtain ⟨x, hx, hactivity⟩ := Option.map_eq_some_iff.mp ((List.getElem?_map ..).symm.trans hbusy)
  obtain ⟨t, ht, -⟩ := Option.map_eq_some_iff.mp ((List.getElem?_map ..).symm.trans hphase)
  exact ⟨x, t, hx, hactivity, ht⟩

/-- A worker that has a job can go on with it. -/
theorem Reachable.canGoOn {p : Pool σ ω} (hp : p.Reachable) {w id : Nat}
    {x : Worker σ} {t : Ticket σ ω} (h : p.Holds w x id t) : t.CanGoOn := by
  obtain ⟨deeds, -, hplaced⟩ := hp.accounts
  obtain ⟨phase, hphase, hleft, hover⟩ := hplaced.held w id h.activity
  cases h.phase.symm.trans hphase
  obtain ⟨connections, limit, events, rfl⟩ := hp
  rw [Ticket.isOver_phase] at hover
  exact (new_run_course h.job rfl (Ticket.lasting_canGoOn t.body)).canGoOn hleft hover

def Event.isWorkers : Event σ ω → Bool
  | .take _ | .work _ => true
  | _ => false

structure Beside (p p' : Pool σ ω) : Prop where
  queue : p'.queue = p.queue
  closed : p'.closed = p.closed
  closing : p'.closing = p.closing

theorem Beside.trans {p p' p'' : Pool σ ω} (h : p.Beside p') (h' : p'.Beside p'') : p.Beside p'' :=
  ⟨h'.queue.trans h.queue, h'.closed.trans h.closed, h'.closing.trans h.closing⟩

theorem work_beside (p : Pool σ ω) (w : Nat) : p.Beside (p.work w) := by
  have hacts := p.work_acts w
  generalize p.work w = p' at hacts ⊢
  cases hacts <;> exact ⟨rfl, rfl, rfl⟩

/-- A worker of a pool that is closing has done with its job, or is nearer to its end. -/
theorem Reachable.work {p : Pool σ ω} (hp : p.Reachable) (hclosing : p.closing = true) {w id : Nat}
    {x : Worker σ} {t : Ticket σ ω} (h : p.Holds w x id t) :
    (p.work w).outline.activities = p.outline.activities.set w .idle ∨
      (p.work w).outline.activities = p.outline.activities ∧
        ∃ x' t', (p.work w).Holds w x' id t' ∧ t'.effort < t.effort := by
  obtain ⟨t', hworks, ht', hactivities⟩ := h.works (hp.canGoOn h)
  rw [hclosing] at hworks
  cases hover : t'.isOver with
  | true =>
    rw [hover, if_pos rfl] at hactivities
    exact .inl hactivities
  | false =>
    rw [hover, if_neg Bool.false_ne_true, set_same h.activity] at hactivities
    obtain ⟨x', hx', hbusy⟩ := Option.map_eq_some_iff.mp
      ((List.getElem?_map ..).symm.trans ((congrArg (·[w]?) hactivities).trans h.activity))
    exact .inr ⟨hactivities, x', t', ⟨hx', hbusy, ht'⟩, hworks.effort_lt hover⟩

/-- A worker of a pool that is closing gets done with its job alone. -/
theorem Reachable.exists_works_idle {p : Pool σ ω} (hp : p.Reachable) (hclosing : p.closing = true)
    {w id : Nat} {x : Worker σ} {t : Ticket σ ω} (h : p.Holds w x id t) :
    ∃ n, (p.run (List.replicate n (.work w))).outline.activities =
      p.outline.activities.set w .idle ∧
      p.Beside (p.run (List.replicate n (.work w))) := by
  -- The effort that the job still takes bounds the steps; the pool and the job change with each of
  -- them.
  induction heffort : t.effort using Nat.strongRecOn generalizing p x t with
  | ind effort ih =>
    have hbeside := p.work_beside w
    rcases hp.work hclosing h with hidle | ⟨hbusy, x', t', h', hless⟩
    · exact ⟨1, hidle, hbeside⟩
    · have hclosing' : (p.work w).closing = true := hbeside.closing.trans hclosing
      obtain ⟨n, hdone, hbeside'⟩ := ih _ (heffort ▸ hless) (hp.run [.work w]) hclosing' h' rfl
      exact ⟨n + 1, hdone.trans (congrArg (·.set w .idle) hbusy), hbeside.trans hbeside'⟩

/-- The queue is closed only when the pool is closing. -/
theorem closing_of_closed {p : Pool σ ω} (e : Event σ ω) (h : p.closed = true → p.closing = true) :
    (p.step e).closed = true → (p.step e).closing = true := by
  by_cases hbegin : e = .beginClosing
  · subst hbegin
    exact fun _ => rfl
  · rw [p.step_closing hbegin]
    by_cases hclose : e = .closeQueue
    · subst hclose
      change p.closeQueue.closed = true → p.closing = true
      unfold closeQueue
      split
      next hcloses => exact fun _ => (Bool.and_eq_true_iff.mp hcloses).1
      next => exact h
    · rwa [(p.step_flags hbegin hclose).1]

theorem Reachable.closing {p : Pool σ ω} (hp : p.Reachable) (hclosed : p.closed = true) :
    p.closing = true := by
  obtain ⟨connections, limit, events, rfl⟩ := hp
  have hnew : (new connections limit : Pool σ ω).closed = true →
      (new connections limit : Pool σ ω).closing = true := fun h => by cases h
  exact run_keeps (I := fun p : Pool σ ω => p.closed = true → p.closing = true)
    (fun e h => closing_of_closed e h) hnew events hclosed

/-- A bound on what the workers have left to do, counted in orders and jobs. -/
def load (p : Pool σ ω) : Nat := 2 * p.queue.length + p.outline.activities.countP Activity.isBusy

theorem countP_set_le {α : Type} (f : α → Bool) (l : List α) (i : Nat) (a : α) :
    (l.set i a).countP f ≤ l.countP f + 1 := by
  by_cases hi : i < l.length
  · rw [List.countP_set hi]
    split <;> split <;> omega
  · rw [List.set_eq_of_length_le (Nat.le_of_not_lt hi)]
    exact Nat.le_add_right _ 1

/-- A worker that gets done with its job has less to do. -/
theorem load_idle {p p' : Pool σ ω} {w id : Nat} (busy : p.outline.activities[w]? = some (.busy id))
    (hactivities : p'.outline.activities = p.outline.activities.set w .idle)
    (hqueue : p'.queue = p.queue) :
    p'.load < p.load := by
  obtain ⟨hlt, hget⟩ := List.getElem?_eq_some_iff.mp busy
  have hpos : 0 < p.outline.activities.countP Activity.isBusy :=
    List.countP_pos_iff.mpr ⟨_, List.mem_of_getElem? busy, rfl⟩
  rw [load, load, hactivities, hqueue, List.countP_set hlt, hget]
  simp only [Activity.isBusy, if_true, Bool.false_eq_true, if_false]
  omega

/-- An idle worker that takes an order has less to do. -/
theorem load_take {p : Pool σ ω} {w : Nat} (idle : p.outline.activities[w]? = some .idle)
    (hqueue : p.queue ≠ []) : (p.take w).load < p.load := by
  obtain ⟨x, hx, hidle⟩ := Option.map_eq_some_iff.mp ((List.getElem?_map ..).symm.trans idle)
  have htakes := p.take_takes w
  generalize p.take w = p' at htakes ⊢
  cases htakes with
  | rest none => exact (hqueue (none x hx hidle)).elim
  | @job _ id rest _ _ queue =>
    have hload := countP_set_le Activity.isBusy p.outline.activities w (.busy id)
    have hactivities := congrArg Outline.activities
      (({ p with queue := rest } : Pool σ ω).outline_setActivity w (.busy id))
    have hcount : (({ p with queue := rest } : Pool σ ω).setActivity w (.busy id)).load =
        2 * rest.length + (p.outline.activities.set w (.busy id)).countP Activity.isBusy := by
      rw [load, hactivities]
      rfl
    change (({ p with queue := rest } : Pool σ ω).setActivity w (.busy id)).load < p.load
    rw [hcount, load, queue, List.length_cons]
    omega
  | @stop _ rest _ _ queue =>
    have hload := countP_set_le Activity.isBusy p.outline.activities w .exited
    have hactivities := congrArg Outline.activities
      (({ p with queue := rest } : Pool σ ω).outline_setActivity w .exited)
    rw [load, hactivities, load, queue, List.length_cons]
    change 2 * rest.length + (p.outline.activities.set w .exited).countP Activity.isBusy < _
    omega

/-- As long as a worker of a closed pool goes on, there is an order to stop in the queue for it. -/
theorem Reachable.queue_ne_nil {p : Pool σ ω} (hp : p.Reachable)
    (hclosed : p.closed = true) {w : Nat} (idle : p.outline.activities[w]? = some .idle) :
    p.queue ≠ [] := by
  obtain ⟨deeds, hledger, -⟩ := hp.accounts
  intro hqueue
  have hexits := hledger.exits
  have hnone : p.outline.queue.count .stop = 0 := by
    change p.queue.count .stop = 0
    rw [hqueue, List.count_nil]
  have hopen : p.outline.closed = true := hclosed
  rw [hnone, hopen, if_pos rfl, Nat.zero_add, List.count_eq_length] at hexits
  cases hexits _ (List.mem_of_getElem? idle)

/-- A worker of a closed pool that has not stopped can go on until less is left to do. -/
theorem Reachable.exists_load_lt {p : Pool σ ω} (hp : p.Reachable) (hclosed : p.closed = true)
    {activity : Activity} (hmem : activity ∈ p.outline.activities) (hrunning : activity ≠ .exited) :
    ∃ events, (∀ e ∈ events, e.isWorkers = true) ∧ (p.run events).closed = true ∧
      (p.run events).load < p.load := by
  obtain ⟨w, hw⟩ := List.getElem?_of_mem hmem
  cases activity with
  | exited => exact (hrunning rfl).elim
  | idle =>
    refine ⟨[.take w], by simp [Event.isWorkers], ?_, load_take hw (hp.queue_ne_nil hclosed hw)⟩
    have htakes := p.take_takes w
    change (p.take w).closed = true
    generalize p.take w = p' at htakes ⊢
    cases htakes <;> exact hclosed
  | busy id =>
    obtain ⟨x, t, h⟩ := hp.exists_holds hw
    obtain ⟨n, hidle, hbeside⟩ := hp.exists_works_idle (hp.closing hclosed) h
    refine ⟨List.replicate n (.work w), fun e he => ?_, hbeside.closed.trans hclosed,
      load_idle hw hidle hbeside.queue⟩
    rw [List.eq_of_mem_replicate he]
    rfl

/-- The workers of a closed pool get to their end without their callers. -/
theorem Reachable.exists_exited {p : Pool σ ω} (hp : p.Reachable) (hclosed : p.closed = true) :
    ∃ later, (∀ e ∈ later, e.isWorkers = true) ∧
      ∀ activity ∈ (p.run later).outline.activities, activity = .exited := by
  -- One worker goes on alone until less is left to do, and then the others have less to do.
  induction hload : p.load using Nat.strongRecOn generalizing p with
  | ind load ih =>
    by_cases hall : ∀ activity ∈ p.outline.activities, activity = .exited
    · exact ⟨[], nofun, hall⟩
    · simp only [not_forall] at hall
      obtain ⟨activity, hmem, hrunning⟩ := hall
      obtain ⟨events, hevents, hclosed', hless⟩ := hp.exists_load_lt hclosed hmem hrunning
      obtain ⟨later, hlater, hexited⟩ := ih _ (hload ▸ hless) (hp.run events) hclosed' rfl
      refine ⟨events ++ later, fun e he => ?_, by rwa [run_append]⟩
      rcases List.mem_append.mp he with hnow | hthen
      · exact hevents e hnow
      · exact hlater e hthen

/-! ### The whole run -/

/-- What a pool owes those who submit jobs to it, after a run that its history tells. -/
structure Drains (deeds : List Deed) (p : Pool σ ω) : Prop where
  /-- Each job was accepted or rejected when it was submitted, and not both. -/
  submitted : deeds.filterMap Deed.submitted? = List.range p.tickets.length
  /-- The next job is accepted if the queue is open, and else it is turned away with
  `Error.poolClosed`. -/
  submits : ∀ (body : Body σ ω) (elapsed : Nat) (admission : Option Admission),
    p.admission? elapsed = some admission →
      p.closed = false ∧ p.deed? (.submit body elapsed) = some (.accept p.tickets.length) ∧
        p.submit body elapsed = { p with
          tickets := p.tickets ++ [.new body admission], queue :=
            p.queue ++ [.run p.tickets.length] } ∨
      p.closed = true ∧ p.deed? (.submit body elapsed) = some (.reject p.tickets.length) ∧
        ∃ t : Ticket σ ω, t.body = body ∧ t.isHeld = true ∧ t.channel = [.error .poolClosed] ∧
          p.submit body elapsed = { p with tickets := p.tickets ++ [t] }
  /-- A job that was rejected is never begun, and `Error.poolClosed` waits for its caller. -/
  rejected : ∀ id, .reject id ∈ deeds → ∃ t, p.tickets[id]? = some t ∧ t.Rejected
  /-- The workers take the accepted jobs in the order of submission, and then the orders to stop. -/
  fifo : taken deeds ++ p.queue = (accepted deeds).map .run ++
    if p.closed then List.replicate p.workers.length .stop else []
  /-- A worker has stopped if it took an order to stop, and none takes two. -/
  stops : ∀ (w : Nat) (x : Worker σ), p.workers[w]? = some x →
    deeds.count (.take w .stop) = if x.activity = .exited then 1 else 0
  /-- When a worker stops, every accepted job has been taken, and the worker takes nothing more. -/
  last : ∀ w before after, deeds = before ++ .take w .stop :: after →
    (∀ id ∈ accepted deeds, .run id ∈ taken before) ∧ ∀ order, .take w order ∉ after
  /-- There is an order for every idle worker of a closed pool. -/
  supplied : p.closed = true → ∀ x ∈ p.workers, x.activity = .idle → p.queue ≠ []
  /-- When all workers have stopped, nothing waits, and each accepted job was run to its end once,
  or turned away once. -/
  ended : (∀ x ∈ p.workers, x.activity = .exited) → p.closed = true ∧ p.queue = [] ∧
    ∀ id ∈ accepted deeds, deeds.countP (Deed.decides id) = 1 ∧ ∃ t, p.tickets[id]? = some t ∧
      (.start id ∈ deeds ∧ t.phase = .done ∧ t.begun = 1 ∨
        (∃ e, .refuse id e ∈ deeds ∧ e.isRefusal = true) ∧ t.phase = .refused ∧ t.begun = 0)
  /-- The workers of a closed pool can all stop, whatever their callers do. -/
  ends : p.closed = true → ∃ later, (∀ e ∈ later, e.isWorkers = true) ∧
    ∀ x ∈ (p.run later).workers, x.activity = .exited

/-- Before an order to stop come all jobs. -/
theorem run_mem_of_stop {ids : List Nat} {stops before after : List Order}
    (h : ids.map .run ++ stops = before ++ .stop :: after) : ∀ id ∈ ids, .run id ∈ before := by
  induction before generalizing ids with
  | nil =>
    cases ids with
    | nil => exact nofun
    | cons id ids => cases h
  | cons order before ih =>
    cases ids with
    | nil => exact nofun
    | cons id ids =>
      obtain ⟨rfl, hrest⟩ := List.cons.inj h
      intro id' hid'
      rcases List.mem_cons.mp hid' with rfl | hold
      · exact List.mem_cons_self
      · exact List.mem_cons_of_mem _ (ih hrest id' hold)

/-- Orders to stop stand at the end. -/
theorem eq_nil_of_no_stop {ids : List Nat} {taken queue : List Order} {n : Nat}
    (h : taken ++ queue = ids.map .run ++ List.replicate (n + 1) .stop)
    (hnone : queue.count .stop = 0) :
    queue = [] := by
  rcases List.eq_nil_or_concat queue with hnil | ⟨rest, order, rfl⟩
  · exact hnil
  · rw [List.concat_eq_append, ← List.append_assoc, List.replicate_succ', ← List.append_assoc] at h
    obtain rfl : order = .stop := List.singleton_inj.mp (List.append_inj' h rfl).2
    simp at hnone

/-- A job that is submitted waits in the queue, or is turned away. -/
theorem submit_cases {p : Pool σ ω} {elapsed : Nat} {admission : Option Admission}
    (hsubmitted : p.admission? elapsed = some admission) (body : Body σ ω) :
    p.closed = false ∧ p.deed? (.submit body elapsed) = some (.accept p.tickets.length) ∧
        p.submit body elapsed = { p with
          tickets := p.tickets ++ [.new body admission], queue :=
            p.queue ++ [.run p.tickets.length] } ∨
      p.closed = true ∧ p.deed? (.submit body elapsed) = some (.reject p.tickets.length) ∧
        p.submit body elapsed = { p with
          tickets := p.tickets ++
            [((Ticket.new body admission).leaveQueue p.now).refuse .poolClosed] } := by
  cases hclosed : p.closed with
  | false =>
    left
    exact ⟨rfl, by simp [deed?, hsubmitted, hclosed], by simp [submit,
      hsubmitted, enqueue, hclosed]⟩
  | true =>
    right
    exact ⟨rfl, by simp [deed?, hsubmitted, hclosed], by simp [submit,
      hsubmitted, enqueue, hclosed]⟩

/-- Only a submission is rejected. -/
theorem exists_submit_of_reject {p : Pool σ ω} {e : Event σ ω} {id : Nat}
    (h : p.deed? e = some (.reject id)) :
    ∃ body elapsed admission, e = .submit body elapsed ∧ p.admission? elapsed = some admission := by
  cases e with
  | submit body elapsed =>
    obtain ⟨admission, hsubmitted, -⟩ := Option.map_eq_some_iff.mp h
    exact ⟨body, elapsed, admission, rfl, hsubmitted⟩
  | take w =>
    simp only [deed?] at h
    split at h
    · obtain ⟨order, -, htake⟩ := Option.map_eq_some_iff.mp h
      cases htake
    · cases h
  | work w =>
    simp only [deed?] at h
    split at h
    · obtain ⟨t, -, hdeed⟩ := Option.bind_eq_some_iff.mp h
      unfold Ticket.deed? at hdeed
      split at hdeed
      · split at hdeed <;> cases hdeed
      · cases hdeed
    · cases h
  | _ => cases h

structure KeepsRejected (deeds : List Deed) (p : Pool σ ω) : Prop where
  orderly : p.Orderly
  rejected : ∀ id, .reject id ∈ deeds → ∃ t, p.tickets[id]? = some t ∧ t.Rejected

theorem KeepsRejected.step {deeds : List Deed} {p : Pool σ ω}
    (h : KeepsRejected deeds p) (e : Event σ ω) :
    KeepsRejected (deeds ++ (p.deed? e).toList) (p.step e) := by
  refine ⟨h.orderly.step e, fun id hid => ?_⟩
  rcases List.mem_append.mp hid with hold | hnew
  · obtain ⟨t, ht, hrejected⟩ := h.rejected id hold
    obtain ⟨t', ht', hmoves⟩ := h.orderly.step_moves ht e
    exact ⟨t', ht', hrejected.moves hmoves⟩
  · have hdeed := Option.mem_toList.mp hnew
    obtain ⟨body, elapsed, admission, rfl, hsubmitted⟩ := exists_submit_of_reject hdeed
    rcases submit_cases hsubmitted body with ⟨-, haccept, -⟩ | ⟨-, hreject, hsubmit⟩
    · cases haccept.symm.trans hdeed
    · cases hreject.symm.trans hdeed
      refine ⟨_, ?_, Ticket.rejected body admission p.now⟩
      change (p.submit body elapsed).tickets[p.tickets.length]? = _
      rw [hsubmit]
      exact List.getElem?_concat_length

/-- What became of a job of a pool in which nothing is left to do. -/
theorem Reachable.done_or_refused {p : Pool σ ω} (hp : p.Reachable) (hqueue : p.queue = [])
    (hidle : ∀ x ∈ p.workers, x.activity.isBusy = false) {id : Nat} {t : Ticket σ ω}
    (ht : p.tickets[id]? = some t) :
    t.phase = .done ∧ t.begun = 1 ∨ t.phase = .refused ∧ t.begun = 0 := by
  have hleft : t.phase ≠ .queued := by
    obtain ⟨deeds, -, hplaced⟩ := hp.accounts
    intro hwaits
    have hmem := hplaced.queued id (by simp [outline, ht, hwaits])
    change .run id ∈ p.queue at hmem
    rw [hqueue] at hmem
    cases hmem
  obtain ⟨connections, limit, events, rfl⟩ := hp
  have hsound := (new_run_course ht rfl (Ticket.lasting_canGoOn t.body)).sound
  have hattended : ((new connections limit).run events).Attended :=
    (attended_new connections limit).run events
  cases hover : t.isOver with
  | true =>
    have hbegun := hsound.begun
    rw [← Ticket.isOver_phase] at hover
    cases hfar : t.phase with
    | done =>
      rw [hfar] at hbegun
      exact .inl ⟨rfl, hbegun⟩
    | refused =>
      rw [hfar] at hbegun
      exact .inr ⟨rfl, hbegun⟩
    | _ =>
      rw [hfar] at hover
      cases hover
  | false =>
    obtain ⟨w, x, hx, hbusy⟩ := hattended id t ht hleft hover
    have hnone := hidle x (List.mem_of_getElem? hx)
    rw [hbusy] at hnone
    cases hnone

/-- When a worker stops, every accepted job has been taken, and the worker takes nothing more. -/
theorem last_of_ledger {deeds before after : List Deed} {o : Outline} {w : Nat}
    (h : Outline.Ledger deeds o) (hdeeds : deeds = before ++ .take w .stop :: after) :
    (∀ id ∈ accepted deeds, .run id ∈ taken before) ∧ ∀ order, .take w order ∉ after := by
  have hstop : Deed.taken? (.take w .stop) = some .stop := rfl
  have htaken : taken deeds = taken before ++ .stop :: taken after := by
    rw [hdeeds, taken, List.filterMap_append, List.filterMap_cons_some hstop, taken, taken]
  have hqueue := h.queue
  rw [htaken, List.append_assoc, List.cons_append] at hqueue
  have hlast := h.last
  rw [hdeeds, List.pairwise_append, List.pairwise_cons] at hlast
  exact ⟨run_mem_of_stop hqueue.symm, fun order hmem => hlast.2.1.1 _ hmem w order rfl rfl⟩

/-- A pool with a worker whose workers have all stopped is closed, and nothing waits in its
queue. -/
theorem closed_of_exited {deeds : List Deed} {p : Pool σ ω} (h : Outline.Ledger deeds p.outline)
    (hsome : p.workers ≠ []) (hexited : ∀ x ∈ p.workers, x.activity = .exited) :
    p.closed = true ∧ p.queue = [] := by
  have hall : p.outline.activities.count .exited = p.outline.activities.length := by
    rw [List.count_eq_length]
    intro activity hmem
    obtain ⟨x, hx, rfl⟩ := List.mem_map.mp hmem
    exact (hexited x hx).symm
  have hpos : 0 < p.outline.activities.length := by
    rw [outline, List.length_map]
    exact List.length_pos_iff.mpr hsome
  have hexits := h.exits
  have hqueue := h.queue
  rw [hall] at hexits
  cases hclosed : p.outline.closed with
  | false =>
    rw [hclosed, if_neg Bool.false_ne_true] at hexits
    omega
  | true =>
    rw [hclosed, if_pos rfl] at hexits hqueue
    obtain ⟨n, hn⟩ := Nat.exists_eq_succ_of_ne_zero (Nat.ne_of_gt hpos)
    rw [hn] at hqueue
    have hnone : p.outline.queue.count .stop = 0 := by omega
    exact ⟨hclosed, eq_nil_of_no_stop hqueue hnone⟩

/-- However submissions, steps of the workers and calls to shut the pool down interleave: no job is
lost, each worker stops once and only after all accepted jobs were taken, and in the end each of
them was run or turned away once. -/
theorem new_run_drains (first : σ) (others : List σ) (limit : Option Duration)
    (events : List (Event σ ω)) :
    Drains ((new (first :: others) limit).history events)
      ((new (first :: others) limit).run events) := by
  have hreachable : ((new (first :: others) limit).run events).Reachable := ⟨_, limit, events, rfl⟩
  have hsome : ((new (first :: others) limit).run events).workers ≠ [] := by
    rw [← List.length_pos_iff, new_run_workers]
    exact Nat.succ_pos _
  have hledger := (new_run_ledger (first :: others) limit events).1
  have hrejected : KeepsRejected _ ((new (first :: others) limit).run events) :=
    run_recorded ⟨orderly_new _ limit, nofun⟩ (fun e h => h.step e) events
  generalize (new (first :: others) limit).history events = deeds at *
  generalize (new (first :: others) limit).run events = p at *
  have hactivity : ∀ {w : Nat} {x : Worker σ}, p.workers[w]? = some x →
      p.outline.activities[w]? = some x.activity := fun hx => by simp [outline, hx]
  have hphase : ∀ {id : Nat} {t : Ticket σ ω}, p.tickets[id]? = some t →
      p.outline.phases[id]? = some t.phase := fun ht => by simp [outline, ht]
  exact {
    submitted := by rw [hledger.submitted, outline, List.length_map]
    submits := fun body elapsed admission hsubmitted => by
      rcases submit_cases hsubmitted body with haccepted | ⟨hclosed, hdeed, hsubmit⟩
      · exact .inl haccepted
      · exact .inr ⟨hclosed, hdeed, _, rfl, rfl, rfl, hsubmit⟩
    rejected := hrejected.rejected
    fifo := by
      have hqueue := hledger.queue
      rwa [outline, List.length_map] at hqueue
    stops := fun w x hx => by
      rw [hledger.stops w, hactivity hx]
      simp only [Option.some.injEq]
    last := fun w before after hdeeds => last_of_ledger hledger hdeeds
    supplied := fun hclosed x hx hidle => by
      obtain ⟨w, hw⟩ := List.getElem?_of_mem hx
      exact hreachable.queue_ne_nil hclosed (hidle ▸ hactivity hw)
    ended := fun hexited => by
      obtain ⟨hclosed, hqueue⟩ := closed_of_exited hledger hsome hexited
      refine ⟨hclosed, hqueue, fun id hid => ?_⟩
      have hlt := hledger.lt_of_accepted hid
      rw [outline, List.length_map] at hlt
      have ht := List.getElem?_eq_getElem hlt
      have hdecided := hledger.decided id
      rw [hphase ht, Option.any_some] at hdecided
      have hidle : ∀ x ∈ p.workers, x.activity.isBusy = false := fun x hx => by
        rw [hexited x hx]; rfl
      rcases hreachable.done_or_refused hqueue hidle ht with ⟨hdone, hbegun⟩ | ⟨hrefused, hunbegun⟩
      · rw [hdone] at hdecided
        exact ⟨hdecided, _, ht,
          .inl ⟨hledger.start_mem (hphase ht) (by rw [hdone]; rfl), hdone, hbegun⟩⟩
      · rw [hrefused] at hdecided
        exact ⟨hdecided, _, ht,
          .inr ⟨hledger.refuse_mem hid (hrefused ▸ hphase ht), hrefused, hunbegun⟩⟩
    ends := fun hclosed => by
      obtain ⟨later, hlater, hexited⟩ := hreachable.exists_exited hclosed
      refine ⟨later, hlater, fun x hx => hexited _ ?_⟩
      exact List.mem_map_of_mem hx }

/-- Two workers share three jobs, one of which is withdrawn; the pool is shut down twice, and a
fourth job comes too late. -/
def drainedRun : List (Event Nat Nat) :=
  [.submit (.reply fun s => (.returned (.ok s), s + 1)) 0,
    .submit (.rows fun s => (⟨fun _ => none, .panicked "overflow"⟩, s)) 0, .take 1,
    .submit (.reply fun s => (.returned (.ok s), s + 1)) 0, .cancel 2,
      .beginClosing, .take 0, .work 0,
    .closeQueue, .work 1, .submit (.reply fun s => (.returned (.ok s), s)) 0,
      .work 0, .work 1, .work 1,
    .beginClosing, .closeQueue, .work 1, .take 1, .work 1, .work 0, .work 1, .take 1, .take 0]

theorem new_run_drains_twoWorkers :
    accepted ((new [0, 0] none).history drainedRun) = [0, 1, 2] ∧
      .reject 3 ∈ (new [0, 0] none).history drainedRun ∧
      ((new [0, 0] none).run drainedRun).queue = [] ∧
      (∀ id ∈ [0, 1, 2], ((new [0, 0] none).history drainedRun).countP (Deed.decides id) = 1) ∧
      ∃ t, ((new [0, 0] none).run drainedRun).tickets[3]? = some t ∧ t.Rejected := by
  have hdrains := new_run_drains 0 [0] none drainedRun
  have haccepted : accepted ((new [0, 0] none).history drainedRun) = [0, 1, 2] := by decide +kernel
  have hreject : .reject 3 ∈ (new [0, 0] none).history drainedRun := by decide +kernel
  have hexited : ∀ x ∈ ((new [0, 0] none).run drainedRun).workers, x.activity = .exited := by
    intro x hx
    have hall : ((new [0, 0] none).run drainedRun).workers.map Worker.activity =
        [.exited, .exited] := rfl
    have hmem := List.mem_map_of_mem (f := Worker.activity) hx
    rw [hall] at hmem
    simpa using hmem
  obtain ⟨-, hqueue, hover⟩ := hdrains.ended hexited
  rw [haccepted] at hover
  exact ⟨haccepted, hreject, hqueue, fun id hid => (hover id hid).1, hdrains.rejected 3 hreject⟩

end Pool

end TypedTables
