import TypedTables.Proofs.JobCourses

/-!
# What a worker does in one step

An idle worker takes an order from the queue; a worker that has a job goes on with it. `Pool.Takes`
and `Pool.Acts` have one case for each of these steps, with the whole pool that comes of it. A job
that waits is in the queue, and a worker that is busy has a job that no other worker has and with
which it can go on.
-/
namespace TypedTables

variable {σ ω : Type}

namespace Ticket

variable {t t' : Ticket σ ω}

/-- Whether the worker that has a job can go on with it. -/
def CanGoOn (t : Ticket σ ω) : Prop :=
  match t.phase with
  | .taken | .settled _ => True
  | .running => t.isReply = true
  | .ended => t.outcome ≠ none
  | .producing _ => t.source ≠ none
  | .queued | .done | .refused => False

/-- Whether a worker can go on with a job does not depend on its caller. -/
theorem canGoOn_congr (hbody : t'.body = t.body) (hphase : t'.phase = t.phase)
    (houtcome : t'.outcome = t.outcome) (hsource : t'.source = t.source) :
    t'.CanGoOn ↔ t.CanGoOn := by
  simp only [CanGoOn, isReply, hbody, hphase, houtcome, hsource]

/-- A job that was begun is done, or its worker can go on with it. -/
theorem lasting_canGoOn (body : Body σ ω) : Lasting body fun t => t.phase = .done ∨ t.CanGoOn where
  begins hbody hwaits hfinished hphase hbegins := by
    cases hbegins with
    | reply hreply => exact .inr (by simp [CanGoOn, beginReply, isReply, hreply])
    | rows hrows s => exact .inr (by simp [CanGoOn, beginRows])
  goes := by
    intro t t' hbody hbegun h hgoes
    have hcaller : t'.body = t.body → t'.phase = t.phase → t'.outcome = t.outcome →
        t'.source = t.source →
        t'.phase = .done ∨ t'.CanGoOn := fun hbody hphase houtcome hsource =>
      h.imp hphase.trans (canGoOn_congr hbody hphase houtcome hsource).mpr
    cases hgoes with
    | stay => exact h
    | cancel => exact hcaller rfl rfl rfl rfl
    | drop => exact hcaller rfl rfl rfl rfl
    | receive =>
      obtain ⟨channel, received, finished, heq⟩ := t.receive_frame
      rw [heq] at hcaller ⊢
      exact hcaller rfl rfl rfl rfl
    | settle => exact hcaller rfl rfl rfl rfl
    | endReply => exact .inr (by simp [CanGoOn, endReply])
    | answer => exact .inl rfl
    | produce producing known produces =>
      cases produces with
      | row => exact .inr (by simp [CanGoOn, known])
      | waiting => exact .inr (by simp [CanGoOn, known])
      | _ => exact .inl rfl

/-- The worker that has a job can go on with it. -/
theorem Course.canGoOn {body : Body σ ω} (h : t.Course body fun t => t.phase = .done ∨ t.CanGoOn)
    (hleft : t.phase ≠ .queued) (hover : t.isOver = false) : t.CanGoOn := by
  cases hbegun : t.phase.hasBegun with
  | true =>
    apply (h.begun hbegun).resolve_left
    intro hdone
    simp [isOver, hdone] at hover
  | false => cases hphase : t.phase <;> simp_all [CanGoOn, isOver, Phase.hasBegun]

end Ticket

namespace Pool

structure Holds (p : Pool σ ω) (w : Nat) (x : Worker σ) (id : Nat) (t : Ticket σ ω) : Prop where
  worker : p.workers[w]? = some x
  busy : x.activity = .busy id
  job : p.tickets[id]? = some t

/-- A worker has one job at most. -/
theorem Holds.unique {p : Pool σ ω} {w id id' : Nat} {x x' : Worker σ} {t t' : Ticket σ ω}
    (h : p.Holds w x id t) (h' : p.Holds w x' id' t') : x' = x ∧ id' = id ∧ t' = t := by
  cases h.worker.symm.trans h'.worker
  cases h.busy.symm.trans h'.busy
  cases h.job.symm.trans h'.job
  exact ⟨rfl, rfl, rfl⟩

inductive Takes (p : Pool σ ω) (w : Nat) : Pool σ ω → Prop where
  | rest (none : ∀ x, p.workers[w]? = some x → x.activity = .idle → p.queue = []) : Takes p w p
  | job {x : Worker σ} {id : Nat} {rest : List Order} (worker : p.workers[w]? = some x)
    (idle : x.activity = .idle) (queue : p.queue = .run id :: rest) :
    Takes p w (({ p with queue := rest }.setActivity w (.busy id)).update id Ticket.take)
  | stop {x : Worker σ} {rest : List Order} (worker : p.workers[w]? = some x)
      (idle : x.activity = .idle)
    (queue : p.queue = .stop :: rest) : Takes p w ({ p with queue := rest }.setActivity w .exited)

theorem take_takes (p : Pool σ ω) (w : Nat) : p.Takes w (p.take w) := by
  unfold take
  split
  next id rest hidle hqueue =>
    obtain ⟨x, hx, hactivity⟩ := Option.map_eq_some_iff.mp hidle
    exact .job hx hactivity hqueue
  next rest hidle hqueue =>
    obtain ⟨x, hx, hactivity⟩ := Option.map_eq_some_iff.mp hidle
    exact .stop hx hactivity hqueue
  next hjob hstop =>
    apply Takes.rest
    intro x hx hidle
    have hactivity : p.workers[w]?.map Worker.activity = some .idle := by
      rw [hx, Option.map_some, hidle]
    cases hqueue : p.queue with
    | nil => rfl
    | cons order rest =>
      cases order with
      | run id => exact (hjob id rest hactivity hqueue).elim
      | stop => exact (hstop rest hactivity hqueue).elim

inductive Acts (p : Pool σ ω) (w : Nat) : Pool σ ω → Prop where
  | rest (stuck : ∀ x id t, p.Holds w x id t → ¬t.CanGoOn) : Acts p w p
  | leave {x : Worker σ} {id : Nat} {t : Ticket σ ω} (holds : p.Holds w x id t)
      (taken : t.phase = .taken) :
    Acts p w (p.update id (·.leaveQueue p.now))
  | refuse {x : Worker σ} {id : Nat} {t : Ticket σ ω} {inTime : Bool} {e : Error}
      (holds : p.Holds w x id t)
    (settled : t.phase = .settled inTime) (refused : t.refusal? inTime = some e) :
    Acts p w ((p.setActivity w .idle).update id (·.refuse e))
  | beginReply {x : Worker σ} {id : Nat} {t : Ticket σ ω} {inTime : Bool} {run : σ → Outcome ω × σ}
    (holds : p.Holds w x id t) (settled : t.phase = .settled inTime)
      (free : t.refusal? inTime = none)
    (reply : t.body = .reply run) : Acts p w (p.update id Ticket.beginReply)
  | beginRows {x : Worker σ} {id : Nat} {t : Ticket σ ω} {inTime : Bool}
      {produce : σ → Source ω × σ}
    (holds : p.Holds w x id t) (settled : t.phase = .settled inTime)
      (free : t.refusal? inTime = none)
    (rows : t.body = .rows produce) :
    Acts p w ((p.setConnection w (produce x.connection).2).update id
      (·.beginRows (produce x.connection).1))
  | endReply {x : Worker σ} {id : Nat} {t : Ticket σ ω} {run : σ →
      Outcome ω × σ} (holds : p.Holds w x id t)
    (running : t.phase = .running) (reply : t.body = .reply run) :
    Acts p w ((p.setConnection w (run x.connection).2).update id (·.endReply (run x.connection).1))
  | answer {x : Worker σ} {id : Nat} {t : Ticket σ ω} {outcome : Outcome ω}
      (holds : p.Holds w x id t)
    (ended : t.phase = .ended) (known : t.outcome = some outcome) :
    Acts p w ((p.setActivity w .idle).update id (·.answer outcome))
  | send {x : Worker σ} {id : Nat} {t : Ticket σ ω} {full : Bool} {source : Source ω}
    (holds : p.Holds w x id t) (producing : t.phase = .producing full)
      (known : t.source = some source)
    (goesOn : (t.produce p.closing source full).isOver = false) :
    Acts p w (p.update id (·.produce p.closing source full))
  | finish {x : Worker σ} {id : Nat} {t : Ticket σ ω} {full : Bool} {source : Source ω}
    (holds : p.Holds w x id t) (producing : t.phase = .producing full)
      (known : t.source = some source)
    (ends : (t.produce p.closing source full).isOver = true) :
    Acts p w ((p.update id (·.produce p.closing source full)).setActivity w .idle)

/-- A worker that has no job, or cannot go on with it, does nothing. -/
theorem Acts.of_stuck {p : Pool σ ω} {w : Nat} {x : Worker σ} {id : Nat} {t : Ticket σ ω}
    (h : p.Holds w x id t) (hstuck : ¬t.CanGoOn) : p.Acts w p := by
  apply Acts.rest
  intro x' id' t' h'
  obtain ⟨rfl, rfl, rfl⟩ := h.unique h'
  exact hstuck

theorem work_acts (p : Pool σ ω) (w : Nat) : p.Acts w (p.work w) := by
  unfold work
  split
  next connection id hw =>
    cases ht : p.tickets[id]? with
    | none =>
      apply Acts.rest
      intro x' id' t' h'
      cases hw.symm.trans h'.worker
      cases h'.busy
      cases ht.symm.trans h'.job
    | some t =>
      have h : p.Holds w ⟨connection, .busy id⟩ id t := ⟨hw, rfl, ht⟩
      dsimp only
      split
      next htaken => exact .leave h htaken
      next inTime hsettled =>
        cases hrefusal : t.refusal? inTime with
        | some e => exact .refuse h hsettled hrefusal
        | none =>
          cases hbody : t.body with
          | reply run => exact .beginReply h hsettled hrefusal hbody
          | rows produce => exact .beginRows h hsettled hrefusal hbody
      next hrunning =>
        cases hbody : t.body with
        | reply run => exact .endReply h hrunning hbody
        | rows produce =>
          exact .of_stuck h (by simp [Ticket.CanGoOn, hrunning, Ticket.isReply, hbody])
      next hended =>
        cases hknown : t.outcome with
        | some outcome => exact .answer h hended hknown
        | none => exact .of_stuck h (by simp [Ticket.CanGoOn, hended, hknown])
      next full hproducing =>
        cases hknown : t.source with
        | some source =>
          dsimp only [sendRow]
          split
          next hends => exact .finish h hproducing hknown hends
          next hgoesOn => exact .send h hproducing hknown (Bool.eq_false_iff.mpr hgoesOn)
        | none => exact .of_stuck h (by simp [Ticket.CanGoOn, hproducing, hknown])
      next hqueued => exact .of_stuck h (by simp [Ticket.CanGoOn, hqueued])
      next hdone => exact .of_stuck h (by simp [Ticket.CanGoOn, hdone])
      next hrefused => exact .of_stuck h (by simp [Ticket.CanGoOn, hrefused])
  next hnone =>
    apply Acts.rest
    intro x id t h
    obtain ⟨connection, activity⟩ := x
    cases h.busy
    exact (hnone connection id h.worker).elim

/-- Only calls to shut the pool down close it. -/
theorem step_flags (p : Pool σ ω) {e : Event σ ω} (hbegin : e ≠ .beginClosing)
    (hclose : e ≠ .closeQueue) : (p.step e).closed = p.closed ∧ (p.step e).closing = p.closing := by
  cases e with
  | submit body elapsed =>
    change (p.submit body elapsed).closed = _ ∧ (p.submit body elapsed).closing = _
    unfold submit enqueue
    split
    · exact ⟨rfl, rfl⟩
    · split <;> exact ⟨rfl, rfl⟩
  | take w =>
    change (p.take w).closed = _ ∧ (p.take w).closing = _
    have htakes := p.take_takes w
    generalize p.take w = p' at htakes ⊢
    cases htakes <;> exact ⟨rfl, rfl⟩
  | work w =>
    change (p.work w).closed = _ ∧ (p.work w).closing = _
    have hacts := p.work_acts w
    generalize p.work w = p' at hacts ⊢
    cases hacts <;> exact ⟨rfl, rfl⟩
  | beginClosing => exact (hbegin rfl).elim
  | closeQueue => exact (hclose rfl).elim
  | _ => exact ⟨rfl, rfl⟩

theorem closing_closeQueue (p : Pool σ ω) : p.closeQueue.closing = p.closing := by
  unfold closeQueue
  split <;> rfl

/-- As long as nobody begins to shut the pool down, it is not closing. -/
theorem step_closing (p : Pool σ ω) {e : Event σ ω} (h : e ≠ .beginClosing) :
    (p.step e).closing = p.closing := by
  by_cases hclose : e = .closeQueue
  · subst hclose
    exact p.closing_closeQueue
  · exact (p.step_flags h hclose).2

end Pool

end TypedTables
