import Mathlib.Logic.Relation
import TypedTables.Pool.Basic

/-!
# What becomes of one job in a pool

A step of a pool touches one job at most. What it can make of that job is said once, without the
pool: `Ticket.Moves` has one case for each thing that the worker or the caller of a job can do. A
worker takes only jobs that wait in the queue, since each waits there once; so every job of a run
comes from a fresh one by such moves.
-/
namespace TypedTables

variable {σ ω : Type}

namespace Ticket

inductive Moves : Ticket σ ω → Ticket σ ω → Prop where
  | stay (t : Ticket σ ω) : Moves t t
  | cancel (t : Ticket σ ω) : Moves t t.cancel
  | drop (t : Ticket σ ω) : Moves t t.drop
  | receive (t : Ticket σ ω) : Moves t t.receive
  | expire (t : Ticket σ ω) (now : Nat) : Moves t (t.expire now)
  | giveUp (t : Ticket σ ω) : Moves t t.giveUp
  | take {t : Ticket σ ω} (waiting : t.phase = .queued) : Moves t t.take
  | leaveQueue {t : Ticket σ ω} (taken : t.phase = .taken) (now : Nat) : Moves t (t.leaveQueue now)
  | refuse {t : Ticket σ ω} {inTime : Bool} {e : Error} (settled : t.phase = .settled inTime)
    (refused : t.refusal? inTime = some e) : Moves t (t.refuse e)
  | beginReply {t : Ticket σ ω} {inTime : Bool} {run : σ → Outcome ω × σ}
    (settled : t.phase = .settled inTime) (free : t.refusal? inTime = none)
      (reply : t.body = .reply run) :
    Moves t t.beginReply
  | beginRows {t : Ticket σ ω} {inTime : Bool} {produce : σ → Source ω × σ}
    (settled : t.phase = .settled inTime) (free : t.refusal? inTime = none)
      (rows : t.body = .rows produce)
    (s : σ) : Moves t (t.beginRows (produce s).1)
  | endReply {t : Ticket σ ω} {run : σ → Outcome ω × σ} (running : t.phase = .running)
    (reply : t.body = .reply run) (s : σ) : Moves t (t.endReply (run s).1)
  | answer {t : Ticket σ ω} {outcome : Outcome ω} (ended : t.phase = .ended)
    (known : t.outcome = some outcome) : Moves t (t.answer outcome)
  | produce {t : Ticket σ ω} {full : Bool} {source : Source ω}
      (producing : t.phase = .producing full)
    (known : t.source = some source) (closing : Bool) : Moves t (t.produce closing source full)

abbrev Becomes : Ticket σ ω → Ticket σ ω → Prop := Relation.ReflTransGen Moves

inductive Fresh : Ticket σ ω → Prop where
  | queued (body : Body σ ω) {admission : Option Admission}
      (waits : ∀ a ∈ admission, a.slot = .queued) :
    Fresh (.new body admission)
  | rejected (body : Body σ ω) {admission : Option Admission}
      (waits : ∀ a ∈ admission, a.slot = .queued) (now : Nat) :
    Fresh (((new body admission).leaveQueue now).refuse .poolClosed)

/-- What a caller does leaves a job as far as it has come. -/
theorem phase_receive (t : Ticket σ ω) : t.receive.phase = t.phase := by
  unfold receive deliver
  split
  · rfl
  · split
    · rfl
    · split
      · rfl
      · split <;> rfl

theorem phase_expire (t : Ticket σ ω) (now : Nat) : (t.expire now).phase = t.phase := by
  unfold expire
  split
  · split <;> rfl
  · rfl

theorem phase_giveUp (t : Ticket σ ω) : t.giveUp.phase = t.phase := by
  unfold giveUp
  split
  · split <;> rfl
  · rfl

theorem isOver_congr {t t' : Ticket σ ω} (h : t'.phase = t.phase) : t'.isOver = t.isOver := by
  simp only [isOver, h]

end Ticket

namespace Pool

open Ticket (Fresh Moves Becomes)

structure Orderly (p : Pool σ ω) : Prop where
  once : ∀ id, p.queue.count (.run id) ≤ 1
  waiting : ∀ id, .run id ∈ p.queue → ∃ t, p.tickets[id]? = some t ∧ t.phase = .queued

inductive Touches (p p' : Pool σ ω) : Prop where
  | none (same : p'.tickets = p.tickets)
  | new {t : Ticket σ ω} (fresh : Fresh t) (added : p'.tickets = p.tickets ++ [t])
  | one {id : Nat} {f : Ticket σ ω → Ticket σ ω} (moves : ∀ t,
      p.tickets[id]? = some t → t.Moves (f t))
    (changed : p'.tickets = p.tickets.modify id f)

theorem update_touches {p : Pool σ ω} {id : Nat} {f : Ticket σ ω → Ticket σ ω}
    (h : ∀ t, Moves t (f t)) :
    p.Touches (p.update id f) := .one (fun t _ => h t) rfl

/-- The admission of a new job says that it waits. -/
theorem slot_admission? {p : Pool σ ω} {elapsed : Nat} {admission : Option Admission}
    (h : p.admission? elapsed = some admission) : ∀ a ∈ admission, a.slot = .queued := by
  intro a ha
  unfold admission? at h
  split at h
  · cases h
    cases ha
  · obtain ⟨a', hnew, rfl⟩ := Option.map_eq_some_iff.mp h
    cases ha
    unfold Admission.new? at hnew
    split at hnew
    · cases hnew
      rfl
    · cases hnew

theorem submit_touches (p : Pool σ ω) (body : Body σ ω) (elapsed : Nat) :
    p.Touches (p.submit body elapsed) := by
  unfold submit
  split
  next => exact .none rfl
  next admission h =>
    unfold enqueue
    split
    · exact .new (.rejected body (slot_admission? h) p.now) rfl
    · exact .new (.queued body (slot_admission? h)) rfl

theorem take_touches {p : Pool σ ω} (hp : p.Orderly) (w : Nat) : p.Touches (p.take w) := by
  unfold take
  split
  next id rest _ hqueue =>
    refine .one (fun t ht => ?_) rfl
    obtain ⟨t', ht', hwaits⟩ := hp.waiting id (by simp [hqueue])
    rw [ht] at ht'
    cases ht'
    exact .take hwaits
  next => exact .none rfl
  next => exact .none rfl

theorem updateWorker_same {p : Pool σ ω} {w : Nat} {x : Worker σ} (hw : p.workers[w]? = some x)
    (f : Worker σ → Worker σ) : (p.updateWorker w f).workers[w]? = some (f x) := by
  simp [updateWorker, hw]

theorem updateWorker_other (p : Pool σ ω) {w w' : Nat} (h : w' ≠ w) (f : Worker σ → Worker σ) :
    (p.updateWorker w f).workers[w']? = p.workers[w']? := by
  simp [updateWorker, Ne.symm h]

theorem getElem?_update_same {p : Pool σ ω} {id : Nat} {t : Ticket σ ω}
    (ht : p.tickets[id]? = some t) (f : Ticket σ ω → Ticket σ ω) :
    (p.update id f).tickets[id]? = some (f t) := by
  rw [update_tickets, List.getElem?_modify_eq, ht]
  rfl

theorem getElem?_update_other (p : Pool σ ω) {id id' : Nat} (h : id' ≠ id)
    (f : Ticket σ ω → Ticket σ ω) : (p.update id' f).tickets[id]? = p.tickets[id]? := by
  rw [update_tickets, List.getElem?_modify_ne _ _ h]

/-- What a worker does: nothing, or it moves the job that it took, which does not wait any more and
is not over. It leaves the queue and the other workers alone, and goes on with the job until nothing
more is sent. -/
inductive Works (p : Pool σ ω) (w : Nat) (p' : Pool σ ω) : Prop where
  | rest (same : p' = p)
  | move {id : Nat} {t : Ticket σ ω} {f : Ticket σ ω → Ticket σ ω} {x x' : Worker σ}
    (busy : p.workers[w]? = some x) (took : x.activity = .busy id) (job : p.tickets[id]? = some t)
    (left : t.phase ≠ .queued) (unfinished : t.isOver = false) (moves : t.Moves (f t))
    (changed : p'.tickets = p.tickets.modify id f)
    (queue : p'.queue = p.queue) (others : ∀ w', w' ≠ w → p'.workers[w']? = p.workers[w']?)
    (own : p'.workers[w]? = some x') (goesOn : x'.activity = .busy id ∨ (f t).isOver = true)

/-- Which move a worker makes depends on how far the job has come. -/
theorem work_works (p : Pool σ ω) (w : Nat) : p.Works w (p.work w) := by
  unfold work
  split
  next connection id hw =>
    cases ht : p.tickets[id]? with
    | none => exact .rest rfl
    | some t =>
      have idles : ∀ w', w' ≠ w → (p.setActivity w .idle).workers[w']? = p.workers[w']? :=
        fun w' h => p.updateWorker_other h _
      have keeps : ∀ connection w', w' ≠ w →
          (p.setConnection w connection).workers[w']? = p.workers[w']? :=
        fun connection w' h => p.updateWorker_other h _
      dsimp only
      split
      next htaken =>
        exact .move hw rfl ht (by simp [htaken]) (by simp [Ticket.isOver, htaken])
          (.leaveQueue htaken p.now)
          rfl rfl (fun _ _ => rfl) hw (.inl rfl)
      next inTime hsettled =>
        have hphase : t.phase ≠ .queued := by simp [hsettled]
        have hover : t.isOver = false := by simp [Ticket.isOver, hsettled]
        cases hrefusal : t.refusal? inTime with
        | some e =>
          exact .move hw rfl ht hphase hover (.refuse hsettled hrefusal) rfl rfl idles
            (updateWorker_same hw _) (.inr rfl)
        | none =>
          cases hbody : t.body with
          | reply run =>
            exact .move hw rfl ht hphase hover (.beginReply hsettled hrefusal hbody) rfl rfl
              (fun _ _ => rfl) hw (.inl rfl)
          | rows produce =>
            exact .move hw rfl ht hphase hover (.beginRows hsettled hrefusal hbody connection) rfl
              rfl
              (keeps _) (updateWorker_same hw _) (.inl rfl)
      next hrunning =>
        cases hbody : t.body with
        | reply run =>
          exact .move hw rfl ht (by simp [hrunning]) (by simp [Ticket.isOver, hrunning])
            (.endReply hrunning hbody connection) rfl rfl (keeps _)
              (updateWorker_same hw _) (.inl rfl)
        | rows produce => exact .rest rfl
      next hended =>
        cases hknown : t.outcome with
        | some outcome =>
          exact .move hw rfl ht (by simp [hended]) (by simp [Ticket.isOver, hended])
            (.answer hended hknown)
            rfl rfl idles (updateWorker_same hw _) (.inr rfl)
        | none => exact .rest rfl
      next full hproducing =>
        cases hknown : t.source with
        | some source =>
          have hmoves := Moves.produce hproducing hknown p.closing
          have hphase : t.phase ≠ .queued := by simp [hproducing]
          have hover : t.isOver = false := by simp [Ticket.isOver, hproducing]
          dsimp only [sendRow]
          split
          next hends =>
            exact .move (f := (·.produce p.closing source full)) hw rfl ht hphase hover
              hmoves rfl rfl idles
              (updateWorker_same hw _) (.inr hends)
          next =>
            exact .move (f := (·.produce p.closing source full)) hw rfl ht hphase
              hover hmoves rfl rfl
              (fun _ _ => rfl) hw (.inl rfl)
        | none => exact .rest rfl
      next => exact .rest rfl
      next => exact .rest rfl
      next => exact .rest rfl
  next => exact .rest rfl

theorem work_touches (p : Pool σ ω) (w : Nat) : p.Touches (p.work w) := by
  cases p.work_works w with
  | rest same => exact .none (congrArg Pool.tickets same)
  | move _ _ job _ _ moves changed =>
    refine .one (fun t' ht' => ?_) changed
    rw [job] at ht'
    cases ht'
    exact moves

theorem step_touches {p : Pool σ ω} (hp : p.Orderly) (e : Event σ ω) : p.Touches (p.step e) := by
  cases e with
  | submit body elapsed => exact p.submit_touches body elapsed
  | cancel id => exact update_touches .cancel
  | drop id => exact update_touches .drop
  | receive id => exact update_touches .receive
  | expire id => exact update_touches fun t => .expire t p.now
  | giveUp id => exact update_touches .giveUp
  | take w => exact take_touches hp w
  | work w => exact p.work_touches w
  | beginClosing => exact .none rfl
  | closeQueue =>
    refine .none ?_
    change p.closeQueue.tickets = _
    unfold closeQueue
    split <;> rfl
  | tick elapsed => exact .none rfl
  | outside w connection => exact .none rfl

/-- What every step keeps, every run keeps. -/
theorem run_keeps {I : Pool σ ω → Prop} (h : ∀ {p : Pool σ ω} (e : Event σ ω), I p → I (p.step e))
    {p : Pool σ ω} (hp : I p) (events : List (Event σ ω)) : I (p.run events) := by
  induction events generalizing p with
  | nil => exact hp
  | cons e events ih => exact ih (h e hp)

/-! ### Jobs that wait -/

theorem orderly_new (connections : List σ) (limit : Option Duration) :
    (new connections limit : Pool σ ω).Orderly := ⟨by simp [new], by simp [new]⟩

/-- The number that the next job gets is in the queue nowhere. -/
theorem Orderly.unused {p : Pool σ ω} (hp : p.Orderly) : .run p.tickets.length ∉ p.queue := by
  intro hmem
  obtain ⟨t, ht, -⟩ := hp.waiting _ hmem
  simp at ht

/-- One more job is in order if it waits in the queue, or is not put there. -/
theorem Orderly.enqueue {p : Pool σ ω} (hp : p.Orderly) {t : Ticket σ ω} (h : t.phase = .queued) :
    (p.enqueue t).Orderly := by
  have hkept : ∀ (t' : Ticket σ ω) (id : Nat), .run id ∈ p.queue →
      ∃ u, (p.tickets ++ [t'])[id]? = some u ∧ u.phase = .queued := by
    intro t' id hmem
    obtain ⟨u, hu, hwaits⟩ := hp.waiting id hmem
    exact ⟨u, List.getElem?_append_left (List.getElem?_eq_some_iff.mp hu).1 ▸ hu, hwaits⟩
  unfold Pool.enqueue
  split
  · exact ⟨hp.once, hkept _⟩
  · refine ⟨fun id => ?_, fun id hmem => ?_⟩
    · have hcount := hp.once id
      rw [List.count_append, List.count_singleton]
      by_cases hid : p.tickets.length = id
      · subst hid
        rw [List.count_eq_zero.mpr hp.unused]
        split <;> omega
      · simpa [hid] using hcount
    · rcases List.mem_append.mp hmem with hold | hnew
      · exact hkept t id hold
      · obtain rfl : id = p.tickets.length := by simpa using hnew
        exact ⟨t, by simp, h⟩

/-- The queue without its first order is in order. -/
theorem Orderly.tail {p : Pool σ ω} (hp : p.Orderly) {order : Order} {rest : List Order}
    (h : p.queue = order :: rest) : ({ p with queue := rest } : Pool σ ω).Orderly := by
  refine ⟨fun id => ?_, fun id hmem => hp.waiting id (h ▸ List.mem_cons_of_mem _ hmem)⟩
  have hcount := hp.once id
  rw [h, List.count_cons] at hcount
  exact Nat.le_of_add_right_le hcount

/-- What waits and in which order depends on the jobs and the queue alone. -/
theorem Orderly.of_eq {p p' : Pool σ ω} (hp : p.Orderly) (htickets : p'.tickets = p.tickets)
    (hqueue : p'.queue = p.queue) : p'.Orderly :=
  ⟨fun id => hqueue ▸ hp.once id, fun id hmem => htickets ▸ hp.waiting id (hqueue ▸ hmem)⟩

/-- A change of a job that does not wait, or goes on to wait, leaves the queue in order. -/
theorem Orderly.update {p : Pool σ ω} (hp : p.Orderly) {id : Nat} {f : Ticket σ ω → Ticket σ ω}
    (h : .run id ∈ p.queue → ∀ t, (f t).phase = t.phase) : (p.update id f).Orderly := by
  refine ⟨hp.once, fun id' hmem => ?_⟩
  obtain ⟨t, ht, hwaits⟩ := hp.waiting id' hmem
  rw [update_tickets, List.getElem?_modify, ht]
  by_cases hid : id = id'
  · subst hid
    exact ⟨f t, by simp, (h hmem t).trans hwaits⟩
  · exact ⟨t, by simp [hid], hwaits⟩

theorem Orderly.take {p : Pool σ ω} (hp : p.Orderly) (w : Nat) : (p.take w).Orderly := by
  unfold Pool.take
  split
  next id rest _ hqueue =>
    have hrest : ({ p with queue := rest }.setActivity w (.busy id)).Orderly :=
      (hp.tail hqueue).of_eq rfl rfl
    refine hrest.update fun hmem => ?_
    -- the job was in the queue once, so that it is not in the rest of it
    have hcount := hp.once id
    have hpos : 0 < rest.count (.run id) := List.count_pos_iff.mpr hmem
    rw [hqueue, List.count_cons_self] at hcount
    omega
  next rest _ hqueue => exact (hp.tail hqueue).of_eq rfl rfl
  next => exact hp

theorem Orderly.work {p : Pool σ ω} (hp : p.Orderly) (w : Nat) : (p.work w).Orderly := by
  cases p.work_works w with
  | rest same => rwa [same]
  | @move id t f x x' _ _ job left _ _ changed queue =>
    have hupdate : (p.update id f).Orderly := by
      refine hp.update fun hmem => ?_
      obtain ⟨t', ht', hwaits⟩ := hp.waiting id hmem
      rw [job] at ht'
      cases ht'
      exact absurd hwaits left
    exact hupdate.of_eq changed queue

/-- Orders to stop leave the waiting jobs in order. -/
theorem Orderly.closeQueue {p : Pool σ ω} (hp : p.Orderly) : p.closeQueue.Orderly := by
  unfold Pool.closeQueue
  split
  · have hstop : ∀ id, Order.run id ∉ p.workers.map fun _ => Order.stop := by simp
    refine ⟨fun id => ?_, fun id hmem => ?_⟩
    · rw [List.count_append, List.count_eq_zero.mpr (hstop id)]
      exact hp.once id
    · exact hp.waiting id ((List.mem_append.mp hmem).resolve_right (hstop id))
  · exact hp

theorem Orderly.step {p : Pool σ ω} (hp : p.Orderly) (e : Event σ ω) : (p.step e).Orderly := by
  cases e with
  | submit body elapsed =>
    change (p.submit body elapsed).Orderly
    unfold submit
    split
    · exact hp
    · exact hp.enqueue rfl
  | cancel id => exact hp.update fun _ _ => rfl
  | drop id => exact hp.update fun _ _ => rfl
  | receive id => exact hp.update fun _ t => t.phase_receive
  | expire id => exact hp.update fun _ t => t.phase_expire p.now
  | giveUp id => exact hp.update fun _ t => t.phase_giveUp
  | take w => exact hp.take w
  | work w => exact hp.work w
  | beginClosing => exact hp.of_eq rfl rfl
  | closeQueue => exact hp.closeQueue
  | tick elapsed => exact hp.of_eq rfl rfl
  | outside w connection => exact hp.of_eq rfl rfl

theorem Orderly.run {p : Pool σ ω} (hp : p.Orderly) (events : List (Event σ ω)) :
    (p.run events).Orderly := run_keeps (fun e hp => hp.step e) hp events

/-! ### Jobs of a run -/

/-- In one step, a job moves. -/
theorem Orderly.step_moves {p : Pool σ ω} (hp : p.Orderly) {id : Nat} {t : Ticket σ ω}
    (ht : p.tickets[id]? = some t) (e : Event σ ω) :
    ∃ t', (p.step e).tickets[id]? = some t' ∧ t.Moves t' := by
  cases step_touches hp e with
  | none same => exact ⟨t, same ▸ ht, .stay t⟩
  | new _ added =>
    rw [added, List.getElem?_append_left (List.getElem?_eq_some_iff.mp ht).1]
    exact ⟨t, ht, .stay t⟩
  | @one id' f moves changed =>
    rw [changed, List.getElem?_modify, ht]
    by_cases hid : id' = id
    · subst hid
      exact ⟨f t, by simp, moves t ht⟩
    · exact ⟨t, by simp [hid], .stay t⟩

/-- However a run goes on, a job stays in the pool and moves. -/
theorem Orderly.run_becomes {p : Pool σ ω} (hp : p.Orderly) {id : Nat} {t : Ticket σ ω}
    (ht : p.tickets[id]? = some t) (events : List (Event σ ω)) :
    ∃ t', (p.run events).tickets[id]? = some t' ∧ t.Becomes t' := by
  induction events generalizing p t with
  | nil => exact ⟨t, ht, .refl⟩
  | cons e events ih =>
    obtain ⟨t₁, ht₁, hmoves⟩ := hp.step_moves ht e
    obtain ⟨t₂, ht₂, hbecomes⟩ := ih (hp.step e) ht₁
    exact ⟨t₂, ht₂, hbecomes.head hmoves⟩

/-- A job that is new after a step is fresh. -/
theorem Orderly.step_origin {p : Pool σ ω} (hp : p.Orderly) {e : Event σ ω}
    {id : Nat} {t' : Ticket σ ω} (ht' : (p.step e).tickets[id]? = some t') :
    Fresh t' ∨ ∃ t, p.tickets[id]? = some t ∧ t.Moves t' := by
  cases hold : p.tickets[id]? with
  | some t =>
    obtain ⟨t'', ht'', hmoves⟩ := hp.step_moves hold e
    rw [ht'] at ht''
    cases ht''
    exact .inr ⟨t, rfl, hmoves⟩
  | none =>
    have hlen : p.tickets.length ≤ id := List.getElem?_eq_none_iff.mp hold
    cases step_touches hp e with
    | none same =>
      rw [same, hold] at ht'
      cases ht'
    | new fresh added =>
      rw [added, List.getElem?_append_right hlen, List.getElem?_singleton] at ht'
      split at ht'
      · cases ht'
        exact .inl fresh
      · cases ht'
    | one _ changed =>
      rw [changed, List.getElem?_modify, hold] at ht'
      cases ht'

/-- Every job of a run was there at its beginning, or comes from a fresh one. -/
theorem Orderly.run_origin {p : Pool σ ω} (hp : p.Orderly) {events : List (Event σ ω)} {id : Nat}
    {t : Ticket σ ω} (ht : (p.run events).tickets[id]? = some t) :
    ∃ t₀, (Fresh t₀ ∨ p.tickets[id]? = some t₀) ∧ t₀.Becomes t := by
  induction events generalizing p with
  | nil => exact ⟨t, .inr ht, .refl⟩
  | cons e events ih =>
    obtain ⟨t₁, horigin, hbecomes⟩ := ih (hp.step e) ht
    rcases horigin with hfresh | ht₁
    · exact ⟨t₁, .inl hfresh, hbecomes⟩
    · rcases hp.step_origin ht₁ with hfresh | ⟨t₀, ht₀, hmoves⟩
      · exact ⟨t₁, .inl hfresh, hbecomes⟩
      · exact ⟨t₀, .inr ht₀, hbecomes.head hmoves⟩

/-- Every job of a pool that started without jobs comes from a fresh one. -/
theorem new_run_origin {connections : List σ} {limit : Option Duration} {events : List (Event σ ω)}
    {id : Nat} {t : Ticket σ ω} (ht : ((new connections limit).run events).tickets[id]? = some t) :
    ∃ t₀, Fresh t₀ ∧ t₀.Becomes t := by
  obtain ⟨t₀, hfresh | hnone, hbecomes⟩ := (orderly_new connections limit).run_origin ht
  · exact ⟨t₀, hfresh, hbecomes⟩
  · cases hnone

/-! ### Jobs that a worker has -/

/-- Every job that was taken from the queue and may still send something is in the hands of a
worker. -/
def Attended (p : Pool σ ω) : Prop :=
  ∀ (id : Nat) (t : Ticket σ ω), p.tickets[id]? = some t → t.phase ≠ .queued → t.isOver = false →
    ∃ (w : Nat) (x : Worker σ), p.workers[w]? = some x ∧ x.activity = .busy id

theorem attended_new (connections : List σ) (limit : Option Duration) :
    (new connections limit : Pool σ ω).Attended := by
  intro id t ht
  cases ht

/-- Steps that leave the workers busy with what they do keep the jobs in their hands, if they take
no job. -/
theorem Attended.of_busy {p p' : Pool σ ω} (hp : p.Attended)
    (hworkers : ∀ (w : Nat) (x : Worker σ), p.workers[w]? = some x →
      ∃ x', p'.workers[w]? = some x' ∧ x'.activity = x.activity)
    (htickets : ∀ (id : Nat) (t' : Ticket σ ω), p'.tickets[id]? = some t' → t'.phase ≠ .queued →
      t'.isOver = false → ∃ t, p.tickets[id]? = some t ∧ t.phase ≠ .queued ∧ t.isOver = false) :
    p'.Attended := by
  intro id t' ht' hphase' hover'
  obtain ⟨t, ht, hphase, hover⟩ := htickets id t' ht' hphase' hover'
  obtain ⟨w, x, hx, hbusy⟩ := hp id t ht hphase hover
  obtain ⟨x', hx', hsame⟩ := hworkers w x hx
  exact ⟨w, x', hx', hsame.trans hbusy⟩

theorem Attended.update {p : Pool σ ω} (hp : p.Attended) {id : Nat} {f : Ticket σ ω → Ticket σ ω}
    (h : ∀ t, (f t).phase = t.phase) : (p.update id f).Attended := by
  refine hp.of_busy (fun w x hx => ⟨x, hx, rfl⟩) fun id' t' ht' hphase hover => ?_
  rw [update_tickets, List.getElem?_modify] at ht'
  obtain ⟨t, ht, rfl⟩ := Option.map_eq_some_iff.mp ht'
  refine ⟨t, ht, ?_⟩
  split at hphase
  next hid =>
    simp only [hid, if_true, Ticket.isOver_congr (h t)] at hover
    exact ⟨h t ▸ hphase, hover⟩
  next hid =>
    simp only [hid, if_false] at hover
    exact ⟨hphase, hover⟩

/-- New jobs wait, or are turned away at once. -/
theorem Attended.enqueue {p : Pool σ ω} (hp : p.Attended) {t : Ticket σ ω} (h : t.phase = .queued) :
    (p.enqueue t).Attended := by
  have hadded : ∀ {u : Ticket σ ω}, (u.phase = .queued ∨ u.isOver = true) →
      ∀ (id : Nat) (t' : Ticket σ ω), (p.tickets ++ [u])[id]? = some t' → t'.phase ≠ .queued →
      t'.isOver = false → ∃ t, p.tickets[id]? = some t ∧ t.phase ≠ .queued ∧ t.isOver = false := by
    intro u hu id t' ht' hphase hover
    rw [List.getElem?_append] at ht'
    split at ht'
    · exact ⟨t', ht', hphase, hover⟩
    · obtain rfl : t' = u := by
        have hmem := List.mem_of_getElem? ht'
        simpa using hmem
      rcases hu with hqueued | hdone
      · exact absurd hqueued hphase
      · rw [hdone] at hover
        cases hover
  unfold Pool.enqueue
  split
  · exact hp.of_busy (fun w x hx => ⟨x, hx, rfl⟩) (hadded (.inr rfl))
  · exact hp.of_busy (fun w x hx => ⟨x, hx, rfl⟩) (hadded (.inl h))

/-- What becomes of an idle worker matters to no job. -/
theorem Attended.of_idle {p : Pool σ ω} (hp : p.Attended) {w : Nat} {x : Worker σ}
    (hx : p.workers[w]? = some x) (hidle : x.activity = .idle) (f : Worker σ → Worker σ) :
    (p.updateWorker w f).Attended := by
  intro id t ht hphase hover
  obtain ⟨w', x', hx', hbusy⟩ := hp id t ht hphase hover
  have hne : w' ≠ w := by
    rintro rfl
    cases hx.symm.trans hx'
    cases hidle.symm.trans hbusy
  exact ⟨w', x', (p.updateWorker_other hne f).trans hx', hbusy⟩

/-- A worker that takes a job has it in its hands. -/
theorem Attended.take {p : Pool σ ω} (hp : p.Attended) (w : Nat) : (p.take w).Attended := by
  unfold Pool.take
  split
  next id rest hidle _ =>
    obtain ⟨x, hx, hactivity⟩ := Option.map_eq_some_iff.mp hidle
    have hother : (p.setActivity w (.busy id)).Attended := hp.of_idle hx hactivity _
    intro id' t' ht' hphase hover
    by_cases hid : id = id'
    · subst hid
      exact ⟨w, _, updateWorker_same (p := p) hx _, rfl⟩
    · rw [update_tickets, List.getElem?_modify_ne _ _ hid] at ht'
      exact hother id' t' ht' hphase hover
  next hidle _ =>
    obtain ⟨x, hx, hactivity⟩ := Option.map_eq_some_iff.mp hidle
    exact hp.of_idle hx hactivity fun worker => { worker with activity := .exited }
  next => exact hp

/-- A worker puts a job out of its hands only when nothing more is sent. -/
theorem Attended.work {p : Pool σ ω} (hp : p.Attended) (w : Nat) : (p.work w).Attended := by
  cases p.work_works w with
  | rest same => rwa [same]
  | @move id t f x x' busy took job left _ _ changed queue others own goesOn =>
    intro id' t' ht' hphase hover
    rw [changed] at ht'
    by_cases hid : id = id'
    · subst hid
      rw [List.getElem?_modify_eq, job] at ht'
      cases ht'
      rcases goesOn with hbusy | hdone
      · exact ⟨w, x', own, hbusy⟩
      · rw [hdone] at hover
        cases hover
    · rw [List.getElem?_modify_ne _ _ hid] at ht'
      obtain ⟨w', y, hy, hbusy⟩ := hp id' t' ht' hphase hover
      have hne : w' ≠ w := by
        rintro rfl
        cases busy.symm.trans hy
        exact hid (Activity.busy.inj (took.symm.trans hbusy))
      exact ⟨w', y, (others w' hne).trans hy, hbusy⟩

theorem Attended.step {p : Pool σ ω} (hp : p.Attended) (e : Event σ ω) : (p.step e).Attended := by
  cases e with
  | submit body elapsed =>
    change (p.submit body elapsed).Attended
    unfold submit
    split
    · exact hp
    · exact hp.enqueue rfl
  | cancel id => exact hp.update fun _ => rfl
  | drop id => exact hp.update fun _ => rfl
  | receive id => exact hp.update Ticket.phase_receive
  | expire id => exact hp.update fun t => t.phase_expire p.now
  | giveUp id => exact hp.update Ticket.phase_giveUp
  | take w => exact hp.take w
  | work w => exact hp.work w
  | beginClosing => exact hp
  | closeQueue =>
    change p.closeQueue.Attended
    unfold Pool.closeQueue
    split <;> exact hp
  | tick elapsed => exact hp
  | outside w connection =>
    refine hp.of_busy (fun w' x hx => ?_) fun id t ht hphase hover => ⟨t, ht, hphase, hover⟩
    by_cases hw : w' = w
    · subst hw
      exact ⟨_, updateWorker_same hx _, rfl⟩
    · exact ⟨x, (p.updateWorker_other hw _).trans hx, rfl⟩

theorem Attended.run {p : Pool σ ω} (hp : p.Attended) (events : List (Event σ ω)) :
    (p.run events).Attended := run_keeps (fun e hp => hp.step e) hp events

end Pool

end TypedTables
