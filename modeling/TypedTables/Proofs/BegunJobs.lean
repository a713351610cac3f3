import TypedTables.Proofs.TicketSteps

/-!
# Jobs that are begun, and jobs that are turned away

A job is begun at most once, and only if it was settled that a worker took it in time, or nothing
had to be settled. So a job for which it was settled that nobody waits any more, or which was turned
away, is never begun; and as long as a job is not begun, nothing is sent to its caller but the error
with which it is turned away.
-/
namespace TypedTables

def Phase.hasBegun : Phase → Bool
  | .running | .ended | .producing _ | .done => true
  | .queued | .taken | .settled _ | .refused => false

def Phase.hasLeft : Phase → Bool
  | .queued | .taken => false
  | _ => true

theorem Phase.ne_refused {phase : Phase} (h : phase.hasBegun = true) : phase ≠ .refused := by
  rintro rfl
  cases h

theorem Phase.ne_done {phase : Phase} (h : phase.hasBegun = false) : phase ≠ .done := by
  rintro rfl
  cases h

def Error.isRefusal : Error → Bool
  | .cancelled | .timeout _ | .poolClosed => true
  | _ => false

namespace Admission

@[simp] theorem isStarted_settle (a : Admission) : a.settle.isStarted = a.isStarted := by
  unfold settle
  split
  next h =>
    rw [isStarted, isStarted, h]
    rfl
  next => rfl

theorem slot_settle (a : Admission) : a.settle.slot ≠ .queued := by
  unfold settle
  split
  · exact Slot.noConfusion
  · assumption

theorem slot_leaveQueue (a : Admission) (now : Nat) : (a.leaveQueue now).slot ≠ .queued := by
  unfold leaveQueue
  split
  · dsimp only
    split <;> exact Slot.noConfusion
  · assumption

/-- What is settled stays settled. -/
theorem settle_of_settled {a : Admission} (h : a.slot ≠ .queued) : a.settle = a := by
  simp [settle, h]

theorem leaveQueue_of_settled {a : Admission} (h : a.slot ≠ .queued) (now : Nat) :
    a.leaveQueue now = a := by
  simp [leaveQueue, h]

end Admission

theorem Source.next?_eq_none {ω : Type} {source : Source ω} {n : Nat} (h : source.next? n = none) :
    source.item n = none ∧ source.ending.guarded = .ok () := by
  unfold next? at h
  split at h
  · cases h
  next hitem =>
    split at h
    next hending => exact ⟨hitem, hending⟩
    · cases h

theorem Source.next?_eq_ok {ω : Type} {source : Source ω} {n : Nat} {row : ω}
    (h : source.next? n = some (.ok row)) : source.item n = some row := by
  unfold next? at h
  split at h
  next hitem =>
    cases h
    exact hitem
  · split at h <;> cases h

theorem Source.next?_eq_error {ω : Type} {source : Source ω} {n : Nat} {e : Error}
    (h : source.next? n = some (.error e)) :
    source.item n = none ∧ source.ending.guarded = .error e := by
  unfold next? at h
  split at h
  · cases h
  next hitem =>
    split at h
    · cases h
    next hending =>
      cases h
      exact ⟨hitem, hending⟩

variable {σ ω : Type}

namespace Ticket

variable {t t' : Ticket σ ω}

/-! ### What the steps leave alone -/

theorem receive_frame (t : Ticket σ ω) :
    ∃ channel received finished, t.receive = { t with channel, received, finished } := by
  unfold receive
  split
  · exact ⟨_, _, _, rfl⟩
  · split
    · exact ⟨_, _, _, rfl⟩
    · split
      · exact ⟨_, _, _, rfl⟩
      · split <;> exact ⟨_, _, _, rfl⟩

theorem giveUp_frame (t : Ticket σ ω) :
    ∃ cancelled received finished, t.giveUp = { t with cancelled, received, finished } := by
  unfold giveUp
  split
  · split <;> exact ⟨_, _, _, rfl⟩
  · exact ⟨_, _, _, rfl⟩

theorem expire_frame (t : Ticket σ ω) (now : Nat) :
    t.expire now = t ∨ t.expire now = { t with admission := t.admission.map Admission.settle } := by
  unfold expire
  split
  next a ha =>
    split
    · exact .inr (by simp [ha])
    · exact .inl rfl
  next => exact .inl rfl

/-- What is sent is in the channel afterwards, if the caller holds the handle. -/
theorem send_frame (t : Ticket σ ω) (x : Except Error ω) :
    ∃ channel, t.send x = { t with channel } ∧ (t.isHeld = true → channel = t.channel ++ [x]) := by
  unfold send
  split
  next hdropped => exact ⟨_, rfl, fun hheld => by simp [isHeld, hdropped] at hheld⟩
  next => exact ⟨_, rfl, fun _ => rfl⟩

theorem refuse_frame (t : Ticket σ ω) (e : Error) : ∃ channel,
    t.refuse e = { t with channel, phase := .refused } ∧
      (t.isHeld = true → channel = t.channel ++ [.error e]) := by
  obtain ⟨channel, heq, hheld⟩ := t.send_frame (.error e)
  exact ⟨channel, by rw [refuse, heq], hheld⟩

theorem answer_frame (t : Ticket σ ω) (outcome : Outcome ω) : ∃ channel,
    t.answer outcome = { t with channel, phase := .done } ∧
      (t.isHeld = true → channel = t.channel ++ [outcome.guarded]) := by
  obtain ⟨channel, heq, hheld⟩ := t.send_frame outcome.guarded
  exact ⟨channel, by rw [answer, heq], hheld⟩

/-- What a job that produces rows does in one step: it sends a row, or the error at the end of its
rows; it ends, since there is nothing to send or nobody to receive it; it waits for room in the
channel; or it is cut short. -/
inductive Produces (source : Source ω) (t : Ticket σ ω) : Ticket σ ω → Prop where
  | row {row : ω} (kept : t.dropped = false) (item : source.item t.produced = some row) :
    Produces source t { t with
      channel := t.channel ++ [.ok row], produced := t.produced + 1, phase := .producing false }
  | failure {e : Error} (kept : t.dropped = false) (item : source.item t.produced = none)
    (ending : source.ending.guarded = .error e) :
    Produces source t { t with channel := t.channel ++ [.error e], phase := .done }
  | complete (item : source.item t.produced = none) (ending : source.ending.guarded = .ok ()) :
    Produces source t { t with phase := .done }
  | unheard (dropped : t.dropped = true) : Produces source t { t with phase := .done }
  | waiting (full : Bool) : Produces source t { t with phase := .producing full }
  | cut : Produces source t { t with truncated := true, phase := .done }

theorem produces {full : Bool} (h : t.phase = .producing full) (closing : Bool)
    (source : Source ω) :
    Produces source t (t.produce closing source full) := by
  unfold produce
  cases full with
  | true =>
    cases closing with
    | true => exact .cut
    | false => exact .waiting false
  | false =>
    change Produces source t (t.push source)
    unfold push
    split
    next hnone =>
      obtain ⟨hitem, hending⟩ := Source.next?_eq_none hnone
      exact .complete hitem hending
    next x hx =>
      split
      next hdropped => exact .unheard hdropped
      next hkept =>
        have hkept : t.dropped = false := by simpa using hkept
        split
        · cases x with
          | ok row =>
            have hrow := Produces.row hkept (Source.next?_eq_ok hx)
            rw [← h] at hrow
            exact hrow
          | error e =>
            obtain ⟨hitem, hending⟩ := Source.next?_eq_error hx
            exact .failure hkept hitem hending
        · exact .waiting true

/-! ### Once, and only if it was admitted -/

/-- How far a job has come agrees with what was settled about it, and with how often it was
begun. -/
structure Sound (t : Ticket σ ω) : Prop where
  begun : t.begun = t.phase.hasBegun.toNat
  left : t.phase.hasLeft = true → ∀ a ∈ t.admission, a.slot ≠ .queued
  inTime : ∀ b, t.phase = .settled b → b = t.admission.all Admission.isStarted
  admitted : t.phase.hasBegun = true → t.admission.all Admission.isStarted = true

theorem Fresh.sound (h : Fresh t) : t.Sound := by
  cases h with
  | queued body waits => exact ⟨rfl, nofun, nofun, nofun⟩
  | rejected body waits now =>
    refine ⟨rfl, fun _ a ha => ?_, nofun, nofun⟩
    obtain ⟨a', -, rfl⟩ := Option.map_eq_some_iff.mp ha
    exact a'.slot_leaveQueue now

/-- A job that is not turned away when it has left the queue was admitted. -/
theorem Sound.of_free (h : t.Sound) {inTime : Bool} (hphase : t.phase = .settled inTime)
    (hfree : t.refusal? inTime = none) : t.admission.all Admission.isStarted = true := by
  rw [← h.inTime inTime hphase]
  cases inTime with
  | true => rfl
  | false =>
    cases ha : t.admission with
    | none => simpa [ha] using h.inTime false hphase
    | some a =>
      unfold refusal? at hfree
      rw [ha] at hfree
      split at hfree <;> cases hfree

theorem Sound.moves (h : t.Sound) (hm : t.Moves t') : t'.Sound := by
  have hbegun := h.begun
  cases hm with
  | stay => exact h
  | cancel => exact { h with }
  | drop => exact { h with }
  | receive =>
    obtain ⟨channel, received, finished, heq⟩ := t.receive_frame
    rw [heq]
    exact { h with }
  | expire now =>
    rcases t.expire_frame now with heq | heq
    · rwa [heq]
    · have hall : (t.admission.map Admission.settle).all Admission.isStarted =
          t.admission.all Admission.isStarted := by cases t.admission <;> simp
      rw [heq]
      refine ⟨h.begun, fun _ a ha => ?_, fun b hb => (h.inTime b hb).trans hall.symm, fun hb => ?_⟩
      · obtain ⟨a', -, rfl⟩ := Option.map_eq_some_iff.mp ha
        exact a'.slot_settle
      · exact hall.trans (h.admitted hb)
  | giveUp =>
    obtain ⟨cancelled, received, finished, heq⟩ := t.giveUp_frame
    rw [heq]
    exact { h with }
  | take waiting =>
    rw [waiting] at hbegun
    exact ⟨hbegun, nofun, nofun, nofun⟩
  | leaveQueue taken now =>
    rw [taken] at hbegun
    refine ⟨hbegun, fun _ a ha => ?_, fun b hb => ?_, nofun⟩
    · obtain ⟨a', -, rfl⟩ := Option.map_eq_some_iff.mp ha
      exact a'.slot_leaveQueue now
    · cases hb
      rfl
  | @refuse inTime e settled refused =>
    obtain ⟨channel, heq, -⟩ := t.refuse_frame e
    rw [settled] at hbegun
    rw [heq]
    exact ⟨hbegun, fun _ => h.left (by rw [settled]; rfl), nofun, nofun⟩
  | beginReply settled free reply =>
    rw [settled] at hbegun
    exact ⟨congrArg (· + 1) hbegun, fun _ => h.left (by rw [settled]; rfl), nofun,
      fun _ => h.of_free settled free⟩
  | beginRows settled free rows s =>
    rw [settled] at hbegun
    exact ⟨congrArg (· + 1) hbegun, fun _ => h.left (by rw [settled]; rfl), nofun,
      fun _ => h.of_free settled free⟩
  | endReply running reply s =>
    rw [running] at hbegun
    exact ⟨hbegun, fun _ => h.left (by rw [running]; rfl), nofun,
      fun _ => h.admitted (by rw [running]; rfl)⟩
  | @answer outcome ended known =>
    obtain ⟨channel, heq, -⟩ := t.answer_frame outcome
    rw [ended] at hbegun
    rw [heq]
    exact ⟨hbegun, fun _ => h.left (by rw [ended]; rfl), nofun,
      fun _ => h.admitted (by rw [ended]; rfl)⟩
  | @produce full source producing known closing =>
    rw [producing] at hbegun
    have hleft := h.left (by rw [producing]; rfl)
    have hadmitted := h.admitted (by rw [producing]; rfl)
    have hproduces := produces producing closing source
    generalize t.produce closing source full = t' at hproduces ⊢
    cases hproduces <;>
      exact ⟨hbegun, fun _ => hleft, nofun, fun _ => hadmitted⟩

/-- A job is begun at most once. -/
theorem Sound.begun_le (h : t.Sound) : t.begun ≤ 1 := h.begun ▸ Bool.toNat_le _

theorem Sound.begun_pos (h : t.Sound) : 0 < t.begun ↔ t.phase.hasBegun = true := by
  rw [h.begun]
  cases t.phase.hasBegun <;> simp

/-! ### Jobs that are lost -/

/-- It was settled that the body of a job is not begun any more. -/
def Lost (t : Ticket σ ω) : Prop :=
  t.phase = .refused ∨ ∃ a, t.admission = some a ∧ a.slot = .abandoned

theorem Lost.hasBegun (h : t.Lost) (hs : t.Sound) : t.phase.hasBegun = false := by
  rcases h with hrefused | ⟨a, ha, habandoned⟩
  · rw [hrefused]
    rfl
  · cases hbegun : t.phase.hasBegun with
    | false => rfl
    | true =>
      have hstarted := hs.admitted hbegun
      rw [ha] at hstarted
      simp [Admission.isStarted, habandoned] at hstarted

/-- The body of a job that left the queue as a lost one is not begun. -/
theorem Lost.not_free (h : t.Lost) (hs : t.Sound) {inTime : Bool}
    (hphase : t.phase = .settled inTime) :
    t.refusal? inTime ≠ none := by
  intro hfree
  have hadmitted := hs.of_free hphase hfree
  rcases h with hrefused | ⟨a, ha, habandoned⟩
  · rw [hphase] at hrefused
    cases hrefused
  · rw [ha] at hadmitted
    simp [Admission.isStarted, habandoned] at hadmitted

/-- A lost job stays lost. -/
theorem Lost.moves (h : t.Lost) (hs : t.Sound) (hm : t.Moves t') : t'.Lost := by
  have hunbegun := h.hasBegun hs
  have hunsettled : ∀ {phase : Phase}, t.phase = phase → phase ≠ .refused →
      ∃ a, t.admission = some a ∧ a.slot = .abandoned := by
    rintro phase rfl hphase
    exact h.resolve_left hphase
  cases hm with
  | stay => exact h
  | cancel => exact h
  | drop => exact h
  | receive =>
    obtain ⟨channel, received, finished, heq⟩ := t.receive_frame
    rwa [heq]
  | expire now =>
    rcases t.expire_frame now with heq | heq
    · rwa [heq]
    · rw [heq]
      rcases h with hrefused | ⟨a, ha, habandoned⟩
      · exact .inl hrefused
      · have hsettled := a.settle_of_settled (habandoned ▸ Slot.noConfusion)
        exact .inr ⟨a, by rw [ha, Option.map_some, hsettled], habandoned⟩
  | giveUp =>
    obtain ⟨cancelled, received, finished, heq⟩ := t.giveUp_frame
    rwa [heq]
  | take waiting => exact .inr (hunsettled waiting nofun)
  | leaveQueue taken now =>
    obtain ⟨a, ha, habandoned⟩ := hunsettled taken nofun
    have hsettled := a.leaveQueue_of_settled (habandoned ▸ Slot.noConfusion) now
    exact .inr ⟨a, by rw [Ticket.leaveQueue, ha, Option.map_some, hsettled], habandoned⟩
  | refuse => exact .inl rfl
  | beginReply settled free => exact absurd free (h.not_free hs settled)
  | beginRows settled free => exact absurd free (h.not_free hs settled)
  | endReply running =>
    rw [running] at hunbegun
    cases hunbegun
  | answer ended =>
    rw [ended] at hunbegun
    cases hunbegun
  | produce producing =>
    rw [producing] at hunbegun
    cases hunbegun

/-- The body of a lost job is never begun. -/
theorem Lost.becomes (h : t.Lost) (hs : t.Sound) (hb : t.Becomes t') : t'.Lost ∧ t'.begun = 0 := by
  have hlost : t'.Sound ∧ t'.Lost := by
    induction hb with
    | refl => exact ⟨hs, h⟩
    | tail _ hm ih => exact ⟨ih.1.moves hm, ih.2.moves ih.1 hm⟩
  obtain ⟨hs', h'⟩ := hlost
  exact ⟨h', by rw [hs'.begun, h'.hasBegun hs']; rfl⟩

/-! ### Jobs that are not begun -/

/-- A job that is not begun: its channel is empty unless the job was turned away, and its caller has
got nothing unless the job is lost. -/
structure Waits (t : Ticket σ ω) : Prop where
  outcome : t.outcome = none
  source : t.source = none
  produced : t.produced = 0
  truncated : t.truncated = false
  silent : t.finished = false → t.received = []
  unsent : t.isHeld = true → t.phase ≠ .refused → t.channel = []
  sent : t.isHeld = true → t.phase = .refused → ∃ e, e.isRefusal = true ∧ t.channel = [.error e]
  told : t.finished = true → t.Lost ∧ ∃ e, e.isRefusal = true ∧ t.received = [.error e]

theorem isHeld_iff : t.isHeld = true ↔ t.finished = false ∧ t.dropped = false := by
  simp [isHeld]

theorem isRefusal_of_refusal? {inTime : Bool} {e : Error} (h : t.refusal? inTime = some e) :
    e.isRefusal = true := by
  unfold refusal? at h
  split at h
  · cases h
    rfl
  · split at h <;> cases h
    rfl

theorem isHeld_eq_false : t.isHeld = false ↔ t.finished = true ∨ t.dropped = true := by
  cases hf : t.finished <;> cases hd : t.dropped <;> simp [isHeld, hf, hd]

/-- A look of a caller that holds no handle any more finds nothing. -/
theorem receive_of_not_held (h : t.isHeld = false) : t.receive = t := by simp [receive, h]

/-- A look into a channel that is not empty. -/
theorem receive_cons (h : t.isHeld = true) {x : Except Error ω} {rest : List (Except Error ω)}
    (hc : t.channel = x :: rest) : t.receive = t.deliver x rest := by
  simp [receive, h, hc]

theorem isOver_eq_false (hdone : t.phase ≠ .done) (hrefused : t.phase ≠ .refused) :
    t.isOver = false := by
  unfold isOver
  split
  next h => exact absurd h hdone
  next h => exact absurd h hrefused
  next => rfl

/-- A look into an empty channel, as long as something may come. -/
theorem receive_nil (hc : t.channel = []) (ho : t.isOver = false) : t.receive = t := by
  unfold receive
  split
  · rfl
  · simp [hc, ho]

/-- A caller gives up only a job that is lost. -/
theorem giveUp_cases (t : Ticket σ ω) :
    t.giveUp = t ∨ t.isHeld = true ∧ t.Lost ∧ ∃ e, e.isRefusal = true ∧ t.giveUp =
      { t with cancelled := true, received := t.received ++ [.error e], finished := true } := by
  unfold giveUp
  split
  next a ha =>
    split
    next h =>
      obtain ⟨hheld, habandoned⟩ := Bool.and_eq_true_iff.mp h
      exact .inr ⟨hheld, .inr ⟨a, ha, of_decide_eq_true habandoned⟩, .timeout a.limit, rfl, rfl⟩
    next => exact .inl rfl
  next => exact .inl rfl

/-- What the channel of a job that was not begun holds once the job is turned away. -/
theorem Waits.refuse (h : t.Waits) (hphase : t.phase ≠ .refused) {e : Error}
    (he : e.isRefusal = true) : (t.refuse e).Waits := by
  obtain ⟨channel, heq, hsent⟩ := t.refuse_frame e
  rw [heq]
  exact { h with
    unsent := fun _ hne => absurd rfl hne
    sent := fun hheld _ => ⟨e, he, by rw [hsent hheld, h.unsent hheld hphase]; rfl⟩
    told := fun hfinished => ⟨.inl rfl, (h.told hfinished).2⟩ }

theorem Fresh.waits (h : Fresh t) : t.Waits := by
  have hnew : ∀ (body : Body σ ω) (admission : Option Admission), (new body admission).Waits :=
    fun body admission => ⟨rfl, rfl, rfl, rfl, fun _ => rfl, fun _ _ => rfl, nofun, nofun⟩
  cases h with
  | queued body waits => exact hnew body _
  | rejected body waits now =>
    refine Waits.refuse (t := (new body _).leaveQueue now) ?_ nofun rfl
    exact ⟨rfl, rfl, rfl, rfl, fun _ => rfl, fun _ _ => rfl, nofun, nofun⟩

theorem Moves.body (hm : t.Moves t') : t'.body = t.body := by
  cases hm with
  | receive =>
    obtain ⟨channel, received, finished, heq⟩ := t.receive_frame
    rw [heq]
  | expire now => rcases t.expire_frame now with heq | heq <;> rw [heq]
  | giveUp =>
    obtain ⟨cancelled, received, finished, heq⟩ := t.giveUp_frame
    rw [heq]
  | @refuse _ e =>
    obtain ⟨channel, heq, -⟩ := t.refuse_frame e
    rw [heq]
  | @answer outcome =>
    obtain ⟨channel, heq, -⟩ := t.answer_frame outcome
    rw [heq]
  | @produce full source producing _ closing =>
    have hproduces := produces producing closing source
    generalize t.produce closing source full = t' at hproduces ⊢
    cases hproduces <;> rfl
  | _ => rfl

theorem Becomes.body (hb : t.Becomes t') : t'.body = t.body := by
  induction hb with
  | refl => rfl
  | tail _ hm ih => exact hm.body.trans ih

theorem finished_deliver_error (t : Ticket σ ω) (e : Error) (rest : List (Except Error ω)) :
    (t.deliver (.error e) rest).finished = true := by
  simp [deliver, Except.isOk, Except.toBool]

/-- A look at a job that is not begun: it finds the error with which the job was turned away, or
nothing. -/
theorem Waits.receive (h : t.Waits) (hunbegun : t.phase.hasBegun = false) : t.receive.Waits := by
  cases hheld : t.isHeld with
  | false => rwa [receive_of_not_held hheld]
  | true =>
    by_cases hphase : t.phase = .refused
    · obtain ⟨e, he, hchannel⟩ := h.sent hheld hphase
      have hfinished := t.finished_deliver_error e []
      have hreceived : (t.deliver (.error e) []).received = [.error e] := by
        change t.received ++ [_] = _
        rw [h.silent (isHeld_iff.mp hheld).1]
        rfl
      rw [receive_cons hheld hchannel]
      exact { h with
        silent := fun hf => nomatch hfinished.symm.trans hf
        unsent := fun _ _ => rfl
        sent := fun hheld' _ => nomatch hfinished.symm.trans (isHeld_iff.mp hheld').1
        told := fun _ => ⟨.inl hphase, e, he, hreceived⟩ }
    · rwa [receive_nil (h.unsent hheld hphase) (isOver_eq_false (Phase.ne_done hunbegun) hphase)]

/-- A job that is not begun goes on to be one that is not begun. -/
theorem Waits.moves (h : t.Waits) (hs : t.Sound) (hm : t.Moves t')
    (hunbegun : t'.phase.hasBegun = false) :
    t'.Waits := by
  cases hm with
  | stay => exact h
  | cancel => exact { h with }
  | drop =>
    exact { h with
      unsent := fun hheld => nomatch (isHeld_iff.mp hheld).2
      sent := fun hheld => nomatch (isHeld_iff.mp hheld).2 }
  | receive => exact h.receive (t.phase_receive ▸ hunbegun)
  | expire now =>
    rcases t.expire_frame now with heq | heq
    · rwa [heq]
    · have hlost : t.Lost → (t.expire now).Lost := fun hlost => hlost.moves hs (.expire t now)
      rw [heq] at hlost ⊢
      exact { h with told := fun hf => ⟨hlost (h.told hf).1, (h.told hf).2⟩ }
  | giveUp =>
    rcases t.giveUp_cases with heq | ⟨hheld, hlost, e, he, heq⟩
    · rwa [heq]
    · rw [heq, h.silent (isHeld_iff.mp hheld).1]
      exact { h with
        silent := nofun
        unsent := nofun
        sent := nofun
        told := fun _ => ⟨hlost, e, he, rfl⟩ }
  | take waiting =>
    have hphase : t.phase ≠ .refused := waiting ▸ Phase.noConfusion
    exact { h with
      unsent := fun hheld _ => h.unsent hheld hphase
      sent := nofun
      told := fun hf => ⟨(h.told hf).1.moves hs (.take waiting), (h.told hf).2⟩ }
  | leaveQueue taken now =>
    have hphase : t.phase ≠ .refused := taken ▸ Phase.noConfusion
    exact { h with
      unsent := fun hheld _ => h.unsent hheld hphase
      sent := nofun
      told := fun hf => ⟨(h.told hf).1.moves hs (.leaveQueue taken now), (h.told hf).2⟩ }
  | refuse settled refused =>
    exact h.refuse (settled ▸ Phase.noConfusion) (isRefusal_of_refusal? refused)
  | beginReply => cases hunbegun
  | beginRows => cases hunbegun
  | endReply => cases hunbegun
  | @answer outcome =>
    obtain ⟨channel, heq, -⟩ := t.answer_frame outcome
    rw [heq] at hunbegun
    cases hunbegun
  | @produce full source producing _ closing =>
    have hproduces := produces producing closing source
    generalize t.produce closing source full = t' at hproduces hunbegun
    cases hproduces <;> cases hunbegun

inductive Begins (t : Ticket σ ω) : Ticket σ ω → Prop where
  | reply {run : σ → Outcome ω × σ} (body : t.body = .reply run) : Begins t t.beginReply
  | rows {produce : σ → Source ω × σ} (body : t.body = .rows produce) (s : σ) :
    Begins t (t.beginRows (produce s).1)

theorem Moves.begins (hm : t.Moves t') (hunbegun : t.phase.hasBegun = false)
    (hbegun : t'.phase.hasBegun = true) :
    ∃ inTime, t.phase = .settled inTime ∧ t.refusal? inTime = none ∧ t.Begins t' := by
  have hsame : t'.phase = t.phase → False := by
    intro heq
    rw [heq, hunbegun] at hbegun
    cases hbegun
  cases hm with
  | stay => exact (hsame rfl).elim
  | cancel => exact (hsame rfl).elim
  | drop => exact (hsame rfl).elim
  | receive => exact (hsame t.phase_receive).elim
  | expire now => exact (hsame (t.phase_expire now)).elim
  | giveUp => exact (hsame t.phase_giveUp).elim
  | take => cases hbegun
  | leaveQueue => cases hbegun
  | refuse => cases hbegun
  | beginReply settled free reply => exact ⟨_, settled, free, .reply reply⟩
  | beginRows settled free rows s => exact ⟨_, settled, free, .rows rows s⟩
  | endReply running =>
    rw [running] at hunbegun
    cases hunbegun
  | answer ended =>
    rw [ended] at hunbegun
    cases hunbegun
  | produce producing =>
    rw [producing] at hunbegun
    cases hunbegun

/-- The caller of a job that is about to be begun has got nothing yet. -/
theorem Waits.not_finished (h : t.Waits) (hs : t.Sound) {inTime : Bool}
    (hphase : t.phase = .settled inTime) (hfree : t.refusal? inTime = none) :
    t.finished = false := by
  cases hf : t.finished with
  | false => rfl
  | true => exact absurd hfree ((h.told hf).1.not_free hs hphase)

/-- The caller of a job that is begun does not give up any more. -/
theorem Sound.giveUp (hs : t.Sound) (hbegun : t.phase.hasBegun = true) : t.giveUp = t := by
  rcases t.giveUp_cases with heq | ⟨-, hlost, -⟩
  · exact heq
  · rw [hlost.hasBegun hs] at hbegun
    cases hbegun

end Ticket

end TypedTables
