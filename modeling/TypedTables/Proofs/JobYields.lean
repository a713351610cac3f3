import TypedTables.Executor
import TypedTables.Proofs.Building
import TypedTables.Proofs.ClosedPools
import TypedTables.Proofs.JobAnswers
import TypedTables.Proofs.PoolHistory
import TypedTables.Proofs.RowStreams

/-!
# What jobs come to

The body of a job is carried out in one step of its worker, on the connection of that worker, and
comes to what it comes to on the spot. `Pool.Advances` says what a step makes of the connections and
of what the jobs have come to: one job at most is carried out. A caller that has read to the end has
received what its job came to.
-/
namespace TypedTables

variable {σ ω : Type}

inductive Yield (ω : Type) where
  | result (outcome : Outcome ω)
  | rows (source : Source ω)

def Body.onTheSpot : Body σ ω → StateM σ (Yield ω)
  | .reply run => fun s => (.result (run s).1, (run s).2)
  | .rows produce => fun s => (.rows (produce s).1, (produce s).2)

/-- What a caller has received that has read to the end: the result, or all rows and the error at
their end; rows that were cut short end in `Error.poolClosed`. -/
inductive Yield.Received : Yield ω → (truncated : Bool) → List (Except Error ω) → Prop where
  | result (outcome : Outcome ω) (truncated : Bool) :
      Received (.result outcome) truncated [outcome.guarded]
  | rows {source : Source ω} {rows : List ω} {truncated : Bool} {last : Option Error}
    (items : ∀ i < rows.length, source.item i = rows[i]?)
      (ends : source.Ends rows.length truncated last) :
    Received (.rows source) truncated (transcript rows last)

/-- What a caller has that collects what it receives up to the first error. -/
def drained (received : List (Except Error ω)) : Except Error (List ω) := received.mapM id

theorem drained_transcript (rows : List ω) (last : Option Error) :
    drained (transcript rows last) = match last with
      | none => .ok rows
      | some e => .error e := by
  induction rows with
  | nil => cases last <;> rfl
  | cons row rows ih =>
    have hcons : drained (transcript (row :: rows) last) =
        drained (transcript rows last) >>= fun rest => .ok (row :: rest) := List.mapM_cons
    rw [hcons, ih]
    cases last <;> rfl

/-- Whoever has received all rows of a job has what is collected of them. -/
theorem drained_of_received {emitted : Emitted ω} {received : List (Except Error ω)}
    (h : (Yield.rows emitted.toSource).Received false received) :
    drained received = emitted.collect := by
  cases h with
  | @rows _ rows _ last items ends =>
    have hall : emitted.rows[rows.length]? = none := by cases ends <;> assumption
    have hsame : emitted.rows = rows := by
      refine List.ext_getElem? fun i => ?_
      by_cases hi : i < rows.length
      · exact items i hi
      · have hle : rows.length ≤ i := Nat.le_of_not_lt hi
        have hend : emitted.rows.length ≤ i := Nat.le_trans (List.getElem?_eq_none_iff.mp hall) hle
        rw [List.getElem?_eq_none hle, List.getElem?_eq_none hend]
    rw [drained_transcript, Emitted.collect, hsame]
    cases ends with
    | complete _ ending =>
      rw [show emitted.ending.toExcept = .ok () from ending]
      rfl
    | @failure e _ ending =>
      rw [show emitted.ending.toExcept = .error e from ending]
      rfl

inductive BuiltJob (σ ω : Type) where
  | single (job : Job σ ω)
  | stream (job : RowJob σ ω)

namespace BuiltJob

def body : BuiltJob σ ω → Body σ ω
  | .single job => job.body
  | .stream job => job.body

/-- Runs the operation on a connection at hand, and collects its rows. -/
def direct : BuiltJob σ ω → ExceptT Error (StateM (Session σ)) (List ω)
  | .single job => do return [← Building.runDirect (pure job)]
  | .stream job => Building.collectDirect (pure job)

/-- Whoever has received all that the body of an operation comes to has what the operation answers
directly. -/
theorem direct_eq_drained (op : BuiltJob σ ω) {s : Session σ} {received : List (Except Error ω)}
    (h : (op.body.onTheSpot s.connection).1.Received false received) :
    op.direct s = (drained received,
      { s with connection := (op.body.onTheSpot s.connection).2 }) := by
  cases op with
  | single job =>
    rcases hrun : job s.connection with ⟨r, connection⟩
    have hspot : (BuiltJob.single job).body.onTheSpot s.connection =
        (.result (.returned r), connection) := by
      simp [body, Job.body, Body.onTheSpot, hrun]
    rw [hspot] at h ⊢
    cases h
    rw [direct, stateful_bind, Building.runDirect_of_ok rfl, hrun]
    cases r <;> rfl
  | stream job =>
    rcases hrun : job wantsAll s.connection with ⟨emitted, connection⟩
    have hspot : (BuiltJob.stream job).body.onTheSpot s.connection =
        (.rows emitted.toSource, connection) := by
      simp [body, RowJob.body, Body.onTheSpot, hrun]
    rw [hspot] at h ⊢
    rw [direct, Building.collectDirect_of_ok rfl, hrun, drained_of_received h]
    rfl

/-- Something can be received of whatever the body of an operation comes to. -/
theorem exists_received (op : BuiltJob σ ω) (s : σ) :
    ∃ received, (op.body.onTheSpot s).1.Received false received := by
  cases op with
  | single job => exact ⟨_, .result _ false⟩
  | stream job =>
    have hrows : ∀ emitted : Emitted ω, ∃ received,
        (Yield.rows emitted.toSource).Received false received := by
      intro emitted
      have hall : emitted.toSource.item emitted.rows.length = none :=
        List.getElem?_eq_none (Nat.le_refl _)
      cases hending : emitted.ending.toExcept with
      | ok => exact ⟨transcript emitted.rows none, .rows (fun _ _ => rfl) (.complete hall hending)⟩
      | error e => exact ⟨transcript emitted.rows (some e),
          .rows (fun _ _ => rfl) (.failure hall hending)⟩
    exact hrows _

end BuiltJob

namespace Ticket

variable {t t' : Ticket σ ω}

/-- What a job has come to, once its body was carried out. -/
def yield? (t : Ticket σ ω) : Option (Yield ω) :=
  match t.outcome with
  | some outcome => some (.result outcome)
  | none => t.source.map .rows

theorem outcome_of_yield? (h : t.yield? = none) : t.outcome = none := by
  cases houtcome : t.outcome with
  | none => rfl
  | some outcome => simp [yield?, houtcome] at h

theorem Waits.yield? (h : t.Waits) : t.yield? = none := by
  simp [Ticket.yield?, h.outcome, h.source]

/-- What a caller does leaves alone what a job has come to. -/
theorem yield?_receive (t : Ticket σ ω) : t.receive.yield? = t.yield? := by
  obtain ⟨channel, received, finished, heq⟩ := t.receive_frame
  rw [heq]
  rfl

theorem yield?_expire (t : Ticket σ ω) (now : Nat) : (t.expire now).yield? = t.yield? := by
  rcases t.expire_frame now with heq | heq
  · rw [heq]
  · rw [heq]
    rfl

theorem yield?_giveUp (t : Ticket σ ω) : t.giveUp.yield? = t.yield? := by
  obtain ⟨cancelled, received, finished, heq⟩ := t.giveUp_frame
  rw [heq]
  rfl

theorem yield?_produce {full : Bool} (h : t.phase = .producing full) (closing : Bool)
    (source : Source ω) : (t.produce closing source full).yield? = t.yield? := by
  have hproduces := produces h closing source
  generalize t.produce closing source full = t' at hproduces ⊢
  cases hproduces <;> rfl

/-- Rows are whole as long as the pool is not closing. -/
theorem truncated_produce (t : Ticket σ ω) (source : Source ω) (full : Bool) :
    (t.produce false source full).truncated = t.truncated := by
  cases full with
  | true => rfl
  | false =>
    change (t.push source).truncated = t.truncated
    unfold push
    split
    · rfl
    · split
      · rfl
      · split
        · split <;> rfl
        · rfl

/-- A job that was begun has come to something unless its body is running. -/
theorem lasting_yield (body : Body σ ω) :
    Lasting body fun t => t.yield?.isSome = true ↔ t.phase ≠ .running where
  begins := by
    intro t t' hbody hwaits hfinished hphase hbegins
    cases hbegins with
    | reply =>
      have hnone : t.beginReply.yield? = none := hwaits.yield?
      refine ⟨fun hsome => ?_, fun hne => absurd rfl hne⟩
      rw [hnone] at hsome
      cases hsome
    | rows hrows s => simp [Ticket.yield?, beginRows, hwaits.outcome]
  goes := by
    intro t t' hbody hbegun h hgoes
    cases hgoes with
    | stay => exact h
    | cancel => exact h
    | drop => exact h
    | receive => rwa [yield?_receive, phase_receive]
    | settle => exact h
    | endReply => simp [Ticket.yield?, endReply]
    | @answer outcome ended known =>
      obtain ⟨channel, heq, -⟩ := t.answer_frame outcome
      rw [heq]
      simp [Ticket.yield?, known]
    | produce producing known produces =>
      have hsome : t.yield?.isSome = true := h.mpr (by simp [producing])
      cases produces <;> exact ⟨fun _ => Phase.noConfusion, fun _ => hsome⟩

theorem Replies.received_yield {run : σ → Outcome ω × σ} (h : t.Replies run)
    (hfinished : t.finished = true) :
    ∃ y, t.yield? = some y ∧ y.Received t.truncated t.received := by
  have hdone : t.phase = .done := by
    refine Decidable.byContradiction fun hne => ?_
    rw [(h.working hne).1] at hfinished
    cases hfinished
  obtain ⟨outcome, hknown, -, hreceived⟩ := h.sent hdone
  rw [hreceived hfinished]
  exact ⟨.result outcome, by simp [yield?, hknown], .result outcome t.truncated⟩

theorem Streams.received_yield {source : Source ω} (h : t.Streams source)
    (hfinished : t.finished = true) :
    ∃ y, t.yield? = some y ∧ y.Received t.truncated t.received := by
  obtain ⟨rows, last, hreceived, -, hitems, hends⟩ := h.received
  rw [hreceived]
  exact ⟨.rows source, by simp [yield?, h.outcome, h.known], .rows hitems (hends hfinished)⟩

end Ticket

namespace Pool

/-- A job has come to something if its body was begun and is not running. -/
theorem Reachable.yield?_isSome {p : Pool σ ω} (hp : p.Reachable) {id : Nat} {t : Ticket σ ω}
    (ht : p.tickets[id]? = some t) :
    t.yield?.isSome = true ↔ t.phase.hasBegun = true ∧ t.phase ≠ .running := by
  obtain ⟨connections, limit, events, rfl⟩ := hp
  have h := new_run_course ht rfl (Ticket.lasting_yield t.body)
  cases hbegun : t.phase.hasBegun with
  | true => simp [h.begun hbegun]
  | false => simp [(h.waits hbegun).yield?]

/-- A caller that has read to the end of a job that was begun has received what the job came to. -/
theorem Reachable.received_yield {p : Pool σ ω} (hp : p.Reachable) {id : Nat} {t : Ticket σ ω}
    (ht : p.tickets[id]? = some t) (hbegun : t.phase.hasBegun = true)
    (hfinished : t.finished = true) :
    ∃ y, t.yield? = some y ∧ y.Received t.truncated t.received := by
  obtain ⟨connections, limit, events, rfl⟩ := hp
  cases hbody : t.body with
  | reply run =>
    have h := new_run_course ht hbody (Ticket.lasting_replies run)
    exact (h.begun hbegun).received_yield hfinished
  | rows produce =>
    have h := new_run_course ht hbody (Ticket.lasting_streams produce)
    obtain ⟨s, hstreams⟩ := h.begun hbegun
    exact hstreams.received_yield hfinished

/-- The bodies of the jobs of a pool, with what they have come to. -/
def yields (p : Pool σ ω) : List (Body σ ω × Option (Yield ω)) :=
  p.tickets.map fun t => (t.body, t.yield?)

def connections (p : Pool σ ω) : List σ := p.workers.map Worker.connection

inductive Advances (p : Pool σ ω) : Event σ ω → Pool σ ω → Prop where
  | same {e : Event σ ω} {p' : Pool σ ω} (yields : p'.yields = p.yields)
    (connections : p'.connections = p.connections) : Advances p e p'
  | submit {body : Body σ ω} {elapsed : Nat} {p' : Pool σ ω}
      (yields : p'.yields = p.yields ++ [(body, none)])
    (connections : p'.connections = p.connections) : Advances p (.submit body elapsed) p'
  | carryOut {w id : Nat} {x : Worker σ} {t : Ticket σ ω} {p' : Pool σ ω} (holds : p.Holds w x id t)
    (pending : t.yield? = none)
    (yields : p'.yields = p.yields.set id (t.body, some (t.body.onTheSpot x.connection).1))
    (connections : p'.connections = p.connections.set w (t.body.onTheSpot x.connection).2) :
    Advances p (.work w) p'
  | outside {w : Nat} {connection : σ} {p' : Pool σ ω} (yields : p'.yields = p.yields) :
    Advances p (.outside w connection) p'

theorem yields_update (p : Pool σ ω) (id : Nat) {f : Ticket σ ω → Ticket σ ω}
    (hbody : ∀ t, (f t).body = t.body) (hyield : ∀ t, (f t).yield? = t.yield?) :
    (p.update id f).yields = p.yields :=
  map_modify_same (fun t => by rw [hbody, hyield]) p.tickets id

/-- What the jobs have come to after one of them was changed. -/
theorem yields_update_job {p : Pool σ ω} {id : Nat} {t : Ticket σ ω} (ht : p.tickets[id]? = some t)
    (f : Ticket σ ω → Ticket σ ω) :
    (p.update id f).yields = p.yields.set id ((f t).body, (f t).yield?) := by
  rw [yields, update_tickets, modify_eq_set ht, List.map_set, yields]

/-- A change of a job that leaves it what it has come to. -/
theorem yields_update_same {p : Pool σ ω} {id : Nat} {t : Ticket σ ω} (ht : p.tickets[id]? = some t)
    {f : Ticket σ ω → Ticket σ ω} (hbody : (f t).body = t.body) (hyield : (f t).yield? = t.yield?) :
    (p.update id f).yields = p.yields := by
  have hsame : p.yields[id]? = some (t.body, t.yield?) := by simp [yields, ht]
  rw [yields_update_job ht, hbody, hyield, set_same hsame]

theorem connections_setActivity (p : Pool σ ω) (w : Nat) (activity : Activity) :
    (p.setActivity w activity).connections = p.connections :=
  map_modify_same (by exact fun _ => rfl) _ _

theorem connections_setConnection (p : Pool σ ω) (w : Nat) (connection : σ) :
    (p.setConnection w connection).connections = p.connections.set w connection :=
  map_modify_const (by exact fun _ => rfl) _ _

/-- Which job is carried out when a worker goes on. -/
theorem Reachable.work_advances {p : Pool σ ω} (hp : p.Reachable) (w : Nat) :
    p.Advances (.work w) (p.work w) := by
  have hacts := p.work_acts w
  have hpending : ∀ {x : Worker σ} {id : Nat} {t : Ticket σ ω}, p.Holds w x id t →
      (t.phase.hasBegun = true → t.phase = .running) → t.yield? = none := by
    intro x id t holds hrunning
    refine Option.not_isSome_iff_eq_none.mp fun hsome => ?_
    obtain ⟨hbegun, hne⟩ := (hp.yield?_isSome holds.job).mp hsome
    exact hne (hrunning hbegun)
  generalize p.work w = p' at hacts ⊢
  cases hacts with
  | rest => exact .same rfl rfl
  | leave holds => exact .same (yields_update_same holds.job rfl rfl) rfl
  | @refuse x id t inTime e holds =>
    have ht : (p.setActivity w .idle).tickets[id]? = some t := holds.job
    obtain ⟨channel, heq, -⟩ := t.refuse_frame e
    exact .same (yields_update_same ht (by rw [heq]) (by rw [heq]; rfl))
      (connections_setActivity ..)
  | beginReply holds => exact .same (yields_update_same holds.job rfl rfl) rfl
  | @beginRows x id t inTime produce holds settled free rows =>
    have ht : (p.setConnection w (produce x.connection).2).tickets[id]? = some t := holds.job
    have hnone := hpending holds fun hbegun => by rw [settled] at hbegun; cases hbegun
    have hspot : t.body.onTheSpot x.connection = (.rows (produce x.connection).1,
        (produce x.connection).2) := by
      rw [rows]
      rfl
    refine .carryOut holds hnone ?_ ?_
    · have hyield :
          (t.beginRows (produce x.connection).1).yield? =
            some (.rows (produce x.connection).1) := by
        simp [Ticket.yield?, Ticket.beginRows, Ticket.outcome_of_yield? hnone]
      rw [hspot, yields_update_job ht, hyield]
      rfl
    · rw [hspot]
      exact connections_setConnection ..
  | @endReply x id t run holds running reply =>
    have ht : (p.setConnection w (run x.connection).2).tickets[id]? = some t := holds.job
    have hspot : t.body.onTheSpot x.connection =
        (.result (run x.connection).1, (run x.connection).2) := by
      rw [reply]
      rfl
    refine .carryOut holds (hpending holds fun _ => running) ?_ ?_
    · rw [hspot, yields_update_job ht]
      rfl
    · rw [hspot]
      exact connections_setConnection ..
  | @answer x id t outcome holds =>
    have ht : (p.setActivity w .idle).tickets[id]? = some t := holds.job
    obtain ⟨channel, heq, -⟩ := t.answer_frame outcome
    exact .same (yields_update_same ht (by rw [heq]) (by rw [heq]; rfl))
      (connections_setActivity ..)
  | @send x id t full source holds producing known =>
    have hmoves := Ticket.Moves.produce producing known p.closing
    exact .same (yields_update_same holds.job hmoves.body (Ticket.yield?_produce producing ..)) rfl
  | @finish x id t full source holds producing known =>
    have hmoves := Ticket.Moves.produce producing known p.closing
    exact .same (yields_update_same holds.job hmoves.body (Ticket.yield?_produce producing ..))
      (connections_setActivity ..)

/-- In one step, one job at most is carried out, by its worker and on the connection of that. -/
theorem Reachable.step_advances {p : Pool σ ω} (hp : p.Reachable) (e : Event σ ω) :
    p.Advances e (p.step e) := by
  cases e with
  | submit body elapsed =>
    change p.Advances _ (p.submit body elapsed)
    unfold submit
    split
    · exact .same rfl rfl
    · unfold enqueue
      split
      · refine .submit ?_ rfl
        simp [yields, Ticket.refuse, Ticket.send, Ticket.leaveQueue, Ticket.new, Ticket.yield?]
      · exact .submit (by simp [yields, Ticket.new, Ticket.yield?]) rfl
  | cancel id => exact .same (yields_update p id (fun _ => rfl) fun _ => rfl) rfl
  | drop id => exact .same (yields_update p id (fun _ => rfl) fun _ => rfl) rfl
  | receive id =>
    have hbody : ∀ t : Ticket σ ω, t.receive.body = t.body := fun t => (Ticket.Moves.receive t).body
    exact .same (yields_update p id hbody Ticket.yield?_receive) rfl
  | expire id =>
    have hbody : ∀ t : Ticket σ ω,
        (t.expire p.now).body = t.body := fun t => (Ticket.Moves.expire t p.now).body
    exact .same (yields_update p id hbody fun t => t.yield?_expire p.now) rfl
  | giveUp id =>
    have hbody : ∀ t : Ticket σ ω, t.giveUp.body = t.body := fun t => (Ticket.Moves.giveUp t).body
    exact .same (yields_update p id hbody Ticket.yield?_giveUp) rfl
  | take w =>
    change p.Advances _ (p.take w)
    have htakes := p.take_takes w
    generalize p.take w = p' at htakes ⊢
    cases htakes with
    | rest => exact .same rfl rfl
    | job => exact .same (yields_update _ _ (fun _ => rfl)
        fun _ => rfl) (connections_setActivity ..)
    | stop => exact .same rfl (connections_setActivity ..)
  | work w => exact hp.work_advances w
  | beginClosing => exact .same rfl rfl
  | closeQueue =>
    change p.Advances _ p.closeQueue
    unfold closeQueue
    split <;> exact .same rfl rfl
  | tick elapsed => exact .same rfl rfl
  | outside w connection => exact .outside rfl

/-! ### Rows that are cut short -/

/-- Rows are cut short only while the pool is closing. -/
theorem work_truncated {p : Pool σ ω} (hopen : p.closing = false) (w : Nat) :
    (p.work w).tickets.map Ticket.truncated = p.tickets.map Ticket.truncated := by
  have hacts := p.work_acts w
  have hsame : ∀ {x : Worker σ} {id : Nat} {t : Ticket σ ω} {f : Ticket σ ω → Ticket σ ω},
      p.Holds w x id t →
      (f t).truncated = t.truncated → (p.tickets.modify id f).map Ticket.truncated =
        p.tickets.map Ticket.truncated := by
    intro x id t f holds htruncated
    rw [modify_eq_set holds.job, List.map_set, htruncated]
    exact set_same (by simp [holds.job])
  generalize p.work w = p' at hacts ⊢
  cases hacts with
  | rest => rfl
  | leave holds => exact hsame holds rfl
  | @refuse x id t inTime e holds =>
    obtain ⟨channel, heq, -⟩ := t.refuse_frame e
    exact hsame holds (by rw [heq])
  | beginReply holds => exact hsame holds rfl
  | beginRows holds => exact hsame holds rfl
  | endReply holds => exact hsame holds rfl
  | @answer x id t outcome holds =>
    obtain ⟨channel, heq, -⟩ := t.answer_frame outcome
    exact hsame holds (by rw [heq])
  | send holds => exact hsame holds (by rw [hopen]; exact Ticket.truncated_produce ..)
  | finish holds => exact hsame holds (by rw [hopen]; exact Ticket.truncated_produce ..)

theorem step_truncated {p : Pool σ ω} (hopen : p.closing = false) (e : Event σ ω) :
    (p.step e).tickets.map Ticket.truncated = p.tickets.map Ticket.truncated ∨
      (p.step e).tickets.map Ticket.truncated = p.tickets.map Ticket.truncated ++ [false] := by
  cases e with
  | submit body elapsed =>
    change (p.submit body elapsed).tickets.map Ticket.truncated = _ ∨
      (p.submit body elapsed).tickets.map _ = _
    unfold submit
    split
    · exact .inl rfl
    · unfold enqueue
      split <;> exact .inr List.map_append
  | cancel id => exact .inl (map_modify_same (by exact fun _ => rfl) _ _)
  | drop id => exact .inl (map_modify_same (by exact fun _ => rfl) _ _)
  | receive id =>
    refine .inl (map_modify_same (fun t => ?_) _ _)
    obtain ⟨channel, received, finished, heq⟩ := t.receive_frame
    rw [heq]
  | expire id =>
    refine .inl (map_modify_same (fun t => ?_) _ _)
    rcases t.expire_frame p.now with heq | heq <;> rw [heq]
  | giveUp id =>
    refine .inl (map_modify_same (fun t => ?_) _ _)
    obtain ⟨cancelled, received, finished, heq⟩ := t.giveUp_frame
    rw [heq]
  | take w =>
    change (p.take w).tickets.map Ticket.truncated = _ ∨ (p.take w).tickets.map _ = _
    have htakes := p.take_takes w
    generalize p.take w = p' at htakes ⊢
    cases htakes with
    | job => exact .inl (map_modify_same (by exact fun _ => rfl) _ _)
    | _ => exact .inl rfl
  | work w => exact .inl (work_truncated hopen w)
  | closeQueue =>
    change p.closeQueue.tickets.map Ticket.truncated = _ ∨ p.closeQueue.tickets.map _ = _
    unfold closeQueue
    split <;> exact .inl rfl
  | _ => exact .inl rfl

/-- The rows of a job are whole unless the pool is closing. -/
theorem Reachable.truncated {p : Pool σ ω} (hp : p.Reachable) (hopen : p.closing = false) {id : Nat}
    {t : Ticket σ ω} (ht : p.tickets[id]? = some t) : t.truncated = false := by
  have hkeeps : ∀ {p : Pool σ ω} (e : Event σ ω),
      (p.closing = false → ∀ b ∈ p.tickets.map Ticket.truncated, b = false) →
      (p.step e).closing = false → ∀ b ∈ (p.step e).tickets.map Ticket.truncated, b = false := by
    intro p e h hopen b hb
    have hbegin : e ≠ .beginClosing := by
      rintro rfl
      cases hopen
    have hwas : p.closing = false := p.step_closing hbegin ▸ hopen
    rcases step_truncated hwas e with heq | heq <;> rw [heq] at hb
    · exact h hwas b hb
    · rcases List.mem_append.mp hb with hold | hnew
      · exact h hwas b hold
      · exact List.mem_singleton.mp hnew
  obtain ⟨connections, limit, events, rfl⟩ := hp
  have hnew : (new connections limit : Pool σ ω).closing = false →
      ∀ b ∈ (new connections limit : Pool σ ω).tickets.map Ticket.truncated, b = false :=
    fun _ b hb => by cases hb
  exact run_keeps (I := fun p : Pool σ ω => p.closing = false →
    ∀ b ∈ p.tickets.map Ticket.truncated, b = false)
    hkeeps hnew events hopen _ (List.mem_map_of_mem (List.mem_of_getElem? ht))

end Pool

end TypedTables
