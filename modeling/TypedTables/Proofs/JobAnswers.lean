import TypedTables.Proofs.JobCourses

/-!
# What the handle of a job answers

The handle of a job with one result answers at most once. If the job was not run it answers the
error with which the job was turned away, and then the job is never run; if it was run, it answers
the result of the body, whatever the caller and the other jobs do meanwhile.
-/
namespace TypedTables

namespace Ticket

variable {σ ω : Type} {t t' : Ticket σ ω} {run : σ → Outcome ω × σ}

/-- A job with one result that is begun: nothing is sent before the body has ended, and then its
result is sent once. -/
structure Replies (run : σ → Outcome ω × σ) (t : Ticket σ ω) : Prop where
  single : ∀ full, t.phase ≠ .producing full
  source : t.source = none
  silent : t.finished = false → t.received = []
  working : t.phase ≠ .done → t.finished = false ∧ (t.isHeld = true → t.channel = [])
  own : ∀ outcome, t.outcome = some outcome → ∃ s, outcome = (run s).1
  known : t.phase = .ended → ∃ outcome, t.outcome = some outcome
  sent : t.phase = .done → ∃ outcome, t.outcome = some outcome ∧
    (t.isHeld = true → t.channel = [outcome.guarded]) ∧
    (t.finished = true → t.received = [outcome.guarded])

/-- A look at a job that was begun: it finds the result once that was sent, and nothing before. -/
theorem Replies.receive (h : t.Replies run) (hbody : t.body = .reply run)
    (hbegun : t.phase.hasBegun = true) : t.receive.Replies run := by
  cases hheld : t.isHeld with
  | false => rwa [receive_of_not_held hheld]
  | true =>
    by_cases hphase : t.phase = .done
    · obtain ⟨outcome, hknown, hchannel, -⟩ := h.sent hphase
      have hreceived := h.silent (isHeld_iff.mp hheld).1
      have hreply : t.isReply = true := by simp [isReply, hbody]
      have hfinished : (t.deliver outcome.guarded []).finished = true := by simp [deliver, hreply]
      have hunheld : (t.deliver outcome.guarded []).isHeld = false :=
        isHeld_eq_false.mpr (.inl hfinished)
      have hanswer : (t.deliver outcome.guarded []).received = [outcome.guarded] := by
        rw [deliver, hreceived]
        rfl
      rw [receive_cons hheld (hchannel hheld)]
      refine { h with
        silent := fun hf => ?_
        working := fun hne => absurd hphase hne
        sent := fun _ => ⟨outcome, hknown, fun hheld' => ?_, fun _ => hanswer⟩ }
      · cases hfinished.symm.trans hf
      · cases hunheld.symm.trans hheld'
    · have hover := isOver_eq_false hphase (Phase.ne_refused hbegun)
      rwa [receive_nil ((h.working hphase).2 hheld) hover]

/-- When a job with one result is begun, nothing was sent yet. -/
theorem Waits.replies (h : t.Waits) (hfinished : t.finished = false) (hphase : t.phase ≠ .refused) :
    t.beginReply.Replies run where
  single := nofun
  source := h.source
  silent := h.silent
  working _ := ⟨hfinished, fun hheld => h.unsent hheld hphase⟩
  own outcome ho := by cases h.outcome.symm.trans ho
  known := nofun
  sent := nofun

/-- What a begun job with one result sends is its result, and it sends it once. -/
theorem Replies.answer (h : t.Replies run) (hended : t.phase = .ended) {outcome : Outcome ω}
    (hknown : t.outcome = some outcome) : (t.answer outcome).Replies run := by
  obtain ⟨hfinished, hchannel⟩ := h.working (hended ▸ Phase.noConfusion)
  obtain ⟨channel, heq, happend⟩ := t.answer_frame outcome
  have hsent : t.isHeld = true → channel = [outcome.guarded] := by
    intro hheld
    rw [happend hheld, hchannel hheld]
    rfl
  rw [heq]
  refine { h with
    single := nofun
    working := fun hne => absurd rfl hne
    known := nofun
    sent := fun _ => ⟨outcome, hknown, hsent, fun hf => ?_⟩ }
  cases hfinished.symm.trans hf

theorem Replies.drop (h : t.Replies run) : t.drop.Replies run := by
  have hdropped : t.drop.isHeld = false := isHeld_eq_false.mpr (.inr rfl)
  refine { h with
    working := fun hphase => ⟨(h.working hphase).1, fun _ => rfl⟩
    sent := fun hphase => ?_ }
  obtain ⟨outcome, hknown, -, hreceived⟩ := h.sent hphase
  refine ⟨outcome, hknown, fun hheld => ?_, hreceived⟩
  cases hdropped.symm.trans hheld

theorem lasting_replies (run : σ → Outcome ω × σ) : Lasting (.reply run) (Replies run) where
  begins hbody hwaits hfinished hphase hbegins := by
    cases hbegins with
    | reply => exact hwaits.replies hfinished hphase
    | rows hrows => cases hbody.symm.trans hrows
  goes hbody hbegun h hgoes := by
    cases hgoes with
    | stay => exact h
    | cancel => exact { h with }
    | drop => exact h.drop
    | receive => exact h.receive hbody hbegun
    | settle => exact { h with }
    | endReply running reply s =>
      cases hbody.symm.trans reply
      have hworking := h.working (running ▸ Phase.noConfusion)
      exact { h with
        single := nofun
        working := fun _ => hworking
        own := fun outcome ho => ⟨s, (Option.some.inj ho).symm⟩
        known := fun _ => ⟨_, rfl⟩
        sent := nofun }
    | answer ended known => exact h.answer ended known
    | produce _ known => cases h.source.symm.trans known

abbrev Answers (run : σ → Outcome ω × σ) : Ticket σ ω → Prop := Course (.reply run) (Replies run)

/-- Whatever the handle answers is the result of the body, if that was begun, and else the error
with which the job was turned away. -/
theorem Answers.received (h : t.Answers run) (hfinished : t.finished = true) :
    (∃ outcome s, outcome = (run s).1 ∧ t.outcome = some outcome ∧ t.phase.hasBegun = true ∧
      t.received = [outcome.guarded]) ∨
    t.Lost ∧ ∃ e, e.isRefusal = true ∧ t.received = [.error e] := by
  cases hbegun : t.phase.hasBegun with
  | false => exact .inr ((h.waits hbegun).told hfinished)
  | true =>
    have hreplies := h.begun hbegun
    have hdone : t.phase = .done := by
      refine Decidable.byContradiction fun hne => ?_
      rw [(hreplies.working hne).1] at hfinished
      cases hfinished
    obtain ⟨outcome, hknown, -, hreceived⟩ := hreplies.sent hdone
    obtain ⟨s, hown⟩ := hreplies.own outcome hknown
    exact .inl ⟨outcome, s, hown, hknown, rfl, hreceived hfinished⟩

/-- A caller receives one thing at most, and then knows that nothing more comes. -/
theorem Answers.finished_of_mem (h : t.Answers run) {x : Except Error ω} (hx : x ∈ t.received) :
    t.finished = true := by
  have hsilent : t.finished = false → t.received = [] := by
    cases hbegun : t.phase.hasBegun with
    | false => exact (h.waits hbegun).silent
    | true => exact (h.begun hbegun).silent
  cases hf : t.finished with
  | true => rfl
  | false =>
    rw [hsilent hf] at hx
    cases hx

theorem Answers.received_le (h : t.Answers run) : t.received.length ≤ 1 := by
  cases hreceived : t.received with
  | nil => exact Nat.zero_le 1
  | cons x rest =>
    rcases h.received (h.finished_of_mem (hreceived ▸ List.mem_cons_self)) with
      ⟨outcome, -, -, -, -, hone⟩ | ⟨-, e, -, hone⟩ <;>
    · rw [← hreceived, hone]
      exact Nat.le_refl 1

/-- A handle that is kept until the job is done answers the result of the body, at the next look at
the latest. -/
theorem Replies.receive_done (h : t.Replies run) (hdone : t.phase = .done)
    (hkept : t.dropped = false) :
    ∃ s, t.outcome = some (run s).1 ∧ t.receive.received = [(run s).1.guarded] := by
  obtain ⟨outcome, hknown, hchannel, hreceived⟩ := h.sent hdone
  obtain ⟨s, rfl⟩ := h.own outcome hknown
  refine ⟨s, hknown, ?_⟩
  cases hf : t.finished with
  | true => rw [receive_of_not_held (isHeld_eq_false.mpr (.inl hf)), hreceived hf]
  | false =>
    have hheld := isHeld_iff.mpr ⟨hf, hkept⟩
    rw [receive_cons hheld (hchannel hheld)]
    change t.received ++ _ = _
    rw [h.silent hf]
    rfl

end Ticket

namespace Pool

open Ticket (Answers)

variable {σ ω : Type} {run : σ → Outcome ω × σ}

/-- A worker that runs a body ends it. -/
theorem work_running {p : Pool σ ω} {w id : Nat} {x : Worker σ} {t : Ticket σ ω}
    (hx : p.workers[w]? = some x) (hbusy : x.activity = .busy id) (ht : p.tickets[id]? = some t)
    (hphase : t.phase = .running) (hbody : t.body = .reply run) :
    p.work w = (p.setConnection w (run x.connection).2).update id
      (·.endReply (run x.connection).1) := by
  obtain ⟨connection, activity⟩ := x
  cases hbusy
  unfold work
  simp only [hx, ht, hphase, runBody, hbody]

/-- A worker whose body ended sends the result, and is done with the job. -/
theorem work_ended {p : Pool σ ω} {w id : Nat} {x : Worker σ} {t : Ticket σ ω} {outcome : Outcome ω}
    (hx : p.workers[w]? = some x) (hbusy : x.activity = .busy id) (ht : p.tickets[id]? = some t)
    (hphase : t.phase = .ended) (hknown : t.outcome = some outcome) :
    p.work w = (p.setActivity w .idle).update id (·.answer outcome) := by
  obtain ⟨connection, activity⟩ := x
  cases hbusy
  unfold work
  simp only [hx, ht, hphase, sendResult, hknown]

theorem dropped_answer (t : Ticket σ ω) (outcome : Outcome ω) :
    (t.answer outcome).dropped = t.dropped := by
  obtain ⟨channel, heq, -⟩ := t.answer_frame outcome
  rw [heq]

/-- The worker that has a job whose body ended sends the result in one step. -/
theorem exists_work_ended {p : Pool σ ω} {w id : Nat} {x : Worker σ} {t : Ticket σ ω}
    (hx : p.workers[w]? = some x) (hbusy : x.activity = .busy id) (ht : p.tickets[id]? = some t)
    (hphase : t.phase = .ended) (h : t.Answers run) :
    ∃ t', (p.work w).tickets[id]? = some t' ∧ t'.phase = .done ∧ t'.dropped = t.dropped := by
  obtain ⟨outcome, hknown⟩ := (h.begun (by rw [hphase]; rfl)).known hphase
  rw [work_ended hx hbusy ht hphase hknown]
  exact ⟨_, getElem?_update_same ht _, rfl, dropped_answer t outcome⟩

/-- The worker that has a begun job brings it to its end in a few steps, with its result sent. -/
theorem Attended.exists_works_done {p : Pool σ ω} (hp : p.Attended) {id : Nat} {t : Ticket σ ω}
    (ht : p.tickets[id]? = some t) (h : t.Answers run) (hbegun : t.phase.hasBegun = true) :
    ∃ w n t', (p.run (List.replicate n (.work w))).tickets[id]? = some t' ∧ t'.phase = .done ∧
      t'.dropped = t.dropped := by
  have hreplies := h.begun hbegun
  cases hphase : t.phase with
  | queued => rw [hphase] at hbegun; cases hbegun
  | taken => rw [hphase] at hbegun; cases hbegun
  | settled inTime => rw [hphase] at hbegun; cases hbegun
  | refused => rw [hphase] at hbegun; cases hbegun
  | producing full => exact absurd hphase (hreplies.single full)
  | done => exact ⟨0, 0, t, ht, hphase, rfl⟩
  | ended =>
    obtain ⟨w, x, hx, hbusy⟩ :=
      hp id t ht (hphase ▸ Phase.noConfusion) (by rw [Ticket.isOver, hphase])
    exact ⟨w, 1, exists_work_ended hx hbusy ht hphase h⟩
  | running =>
    obtain ⟨w, x, hx, hbusy⟩ :=
      hp id t ht (hphase ▸ Phase.noConfusion) (by rw [Ticket.isOver, hphase])
    have hends := h.moves (Ticket.lasting_replies run) (.endReply hphase h.body x.connection)
    have ht' := getElem?_update_same (p := p.setConnection w (run x.connection).2) ht
      (·.endReply (run x.connection).1)
    rw [← work_running hx hbusy ht hphase h.body] at ht'
    have hx' : (p.work w).workers[w]? = some { x with connection := (run x.connection).2 } := by
      rw [work_running hx hbusy ht hphase h.body]
      exact updateWorker_same hx _
    have hdone := exists_work_ended hx' hbusy ht' rfl hends
    exact ⟨w, 2, hdone⟩

/-- A job with one result is begun at most once, and its handle answers at most once. If that is a
refusal that the body could not give as its own result, the body was not begun and never is. If the
body was begun, the handle answers its own result and nothing else; a handle that is kept gets it as
soon as the worker of the job has made a few more steps, whatever happened before. -/
theorem run_reply_answers {connections : List σ} {limit : Option Duration}
    {events : List (Event σ ω)} {id : Nat} {t : Ticket σ ω}
    (ht : ((new connections limit).run events).tickets[id]? = some t)
    (hbody : t.body = .reply run) :
    t.begun ≤ 1 ∧ t.received.length ≤ 1 ∧
    (∀ e, .error e ∈ t.received → e.isRefusal = true → (∀ s, (run s).1.guarded ≠ .error e) →
      ∀ later, ∃ t', ((new connections limit).run (events ++ later)).tickets[id]? = some t' ∧
      t'.begun = 0) ∧
    (0 < t.begun → ∀ x ∈ t.received, ∃ s, t.outcome = some (run s).1 ∧ x = (run s).1.guarded) ∧
    (0 < t.begun → t.dropped = false → ∃ w n s t',
      ((new connections limit).run
        (events ++ List.replicate n (.work w) ++ [.receive id])).tickets[id]? = some t' ∧
      t'.outcome = some (run s).1 ∧ t'.received = [(run s).1.guarded]) := by
  have hlasting := Ticket.lasting_replies run
  have h : t.Answers run := new_run_course ht hbody hlasting
  have horderly :=
    (orderly_new connections limit : (new connections limit : Pool σ ω).Orderly).run events
  refine ⟨h.sound.begun_le, h.received_le, fun e hmem he hown later => ?_, fun hbegun x hmem => ?_,
    fun hbegun hkept => ?_⟩
  · obtain ⟨t', ht', hbecomes'⟩ := horderly.run_becomes ht later
    have hlost : t.Lost := by
      rcases h.received (h.finished_of_mem hmem) with
          ⟨outcome, s, rfl, -, -, hreceived⟩ | ⟨hlost, -⟩
      · rw [hreceived, List.mem_singleton] at hmem
        exact absurd hmem.symm (hown s)
      · exact hlost
    exact ⟨t', by rwa [run_append], (hlost.becomes h.sound hbecomes').2⟩
  · have hphase := h.sound.begun_pos.mp hbegun
    rcases h.received (h.finished_of_mem hmem) with
        ⟨outcome, s, rfl, hknown, -, hreceived⟩ | ⟨hlost, -⟩
    · rw [hreceived, List.mem_singleton] at hmem
      exact ⟨s, hknown, hmem⟩
    · rw [hlost.hasBegun h.sound] at hphase
      cases hphase
  · have hphase := h.sound.begun_pos.mp hbegun
    obtain ⟨w, n, t₁, ht₁, hdone, hsame⟩ :=
      ((attended_new connections limit).run events).exists_works_done ht h hphase
    obtain ⟨t₂, ht₂, hbecomes'⟩ := horderly.run_becomes ht (List.replicate n (.work w))
    cases ht₁.symm.trans ht₂
    have hreplies := (h.becomes hlasting hbecomes').begun (by rw [hdone]; rfl)
    obtain ⟨s, hknown, hreceived⟩ := hreplies.receive_done hdone (hsame.trans hkept)
    refine ⟨w, n, s, t₁.receive, ?_, ?_, hreceived⟩
    · rw [run_append, run_append]
      exact getElem?_update_same ht₁ Ticket.receive
    · obtain ⟨channel, received, finished, heq⟩ := t₁.receive_frame
      rw [heq]
      exact hknown

/-- A job is withdrawn after its begin and panics, while the pool is closed and its caller looks for
it. -/
def panickedRun : List (Event Nat Nat) :=
  [.submit (.reply fun s => (.panicked "overflow", s + 1)) 0, .take 0, .tick 5,
    .work 0, .work 0, .cancel 0,
    .work 0, .receive 0, .beginClosing, .closeQueue, .work 0, .receive 0]

theorem run_reply_answers_panicked :
    ∃ t, ((new [0] (some (.ofParts 1 0))).run panickedRun).tickets[0]? = some t ∧
      t.received = [.error (.workerPanic "overflow")] ∧ t.begun ≤ 1 ∧ t.received.length ≤ 1 ∧
      ∀ x ∈ t.received, x = .error (.workerPanic "overflow") := by
  have ht : ((new [0] (some (.ofParts 1 0))).run panickedRun).tickets[0]? = some _ := rfl
  obtain ⟨hbegun, hreceived, -, hown, -⟩ := run_reply_answers ht rfl
  refine ⟨_, ht, rfl, hbegun, hreceived, fun x hx => ?_⟩
  obtain ⟨s, -, hguarded⟩ := hown (by decide) x hx
  exact hguarded

end Pool

end TypedTables
