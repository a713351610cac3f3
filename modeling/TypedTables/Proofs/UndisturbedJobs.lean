import TypedTables.Proofs.DrainedPools
import TypedTables.Proofs.JobYields

/-!
# Jobs that nobody disturbs

A job that is not withdrawn and does not wait too long is not turned away. Each step brings it
nearer to its end, or leaves it as it is: once it was begun, a worker does nothing for it only while
the channel is full, and a caller only while the channel is empty and more may come, so that the two
do not wait for each other.
-/
namespace TypedTables

variable {σ ω : Type}

namespace Ticket

variable {t t' : Ticket σ ω}

structure Undisturbed (t : Ticket σ ω) : Prop where
  wanted : t.cancelled = false
  kept : t.dropped = false
  patient : ∀ a ∈ t.admission, a.slot ≠ .abandoned

/-- Nothing speaks against an undisturbed job that has left the queue. -/
theorem Undisturbed.free (h : t.Undisturbed) (hs : t.Sound) {inTime : Bool}
    (hphase : t.phase = .settled inTime) :
    t.refusal? inTime = none := by
  have hstarted : ∀ a ∈ t.admission, a.slot = .started := by
    intro a ha
    have hleft := hs.left (by rw [hphase]; rfl) a ha
    have hpatient := h.patient a ha
    cases hslot : a.slot with
    | queued => exact absurd hslot hleft
    | started => rfl
    | abandoned => exact absurd hslot hpatient
  have hinTime : inTime = true := by
    rw [hs.inTime inTime hphase, Option.all_eq_true]
    exact fun a ha => decide_eq_true (hstarted a ha)
  simp [refusal?, h.wanted, hinTime]

/-- An undisturbed job is not turned away. -/
theorem Undisturbed.moves (h : t.Undisturbed) (hs : t.Sound) (hm : t.Moves t')
    (hphase : t.phase ≠ .refused) :
    t'.phase ≠ .refused := by
  cases hm with
  | stay => exact hphase
  | cancel => exact hphase
  | drop => exact hphase
  | receive => rwa [phase_receive]
  | expire now => rwa [phase_expire]
  | giveUp => rwa [phase_giveUp]
  | refuse settled refused => cases (h.free hs settled).symm.trans refused
  | @produce full source producing known closing =>
    have hproduces := produces producing closing source
    generalize t.produce closing source full = t' at hproduces ⊢
    cases hproduces <;> exact Phase.noConfusion
  | answer => exact Phase.noConfusion
  | _ => exact Phase.noConfusion

/-- A job that is over stays so. -/
theorem Moves.over (hm : t.Moves t') (hover : t.isOver = true) : t'.isOver = true := by
  have hunless : ∀ {phase : Phase}, t.phase = phase → phase.isOver = true :=
    fun hphase => hphase ▸ t.isOver_phase.trans hover
  cases hm with
  | stay => exact hover
  | cancel => exact hover
  | drop => exact hover
  | receive => rwa [isOver_congr t.phase_receive]
  | expire now => rwa [isOver_congr (t.phase_expire now)]
  | giveUp => rwa [isOver_congr t.phase_giveUp]
  | take waiting => cases hunless waiting
  | leaveQueue taken => cases hunless taken
  | refuse settled => cases hunless settled
  | beginReply settled => cases hunless settled
  | beginRows settled => cases hunless settled
  | endReply running => cases hunless running
  | answer ended => cases hunless ended
  | produce producing => cases hunless producing

/-! ### How far a job is from being begun -/

/-- So many steps of its worker are left before a job that was taken is begun. -/
def delay (t : Ticket σ ω) : Nat :=
  match t.phase with
  | .taken => 2
  | .settled _ => 1
  | _ => 0

theorem delay_congr (h : t'.phase = t.phase) : t'.delay = t.delay := by simp only [delay, h]

/-- The time until a job is begun does not grow. -/
theorem delay_moves (hm : t.Moves t') (hleft : t.phase ≠ .queued) : t'.delay ≤ t.delay := by
  cases hm with
  | receive => exact Nat.le_of_eq (delay_congr t.phase_receive)
  | expire now => exact Nat.le_of_eq (delay_congr (t.phase_expire now))
  | giveUp => exact Nat.le_of_eq (delay_congr t.phase_giveUp)
  | take waiting => exact absurd waiting hleft
  | leaveQueue taken => simp [delay, leaveQueue, taken]
  | @produce full source producing known closing =>
    have hproduces := produces producing closing source
    generalize t.produce closing source full = t' at hproduces ⊢
    cases hproduces <;> exact Nat.zero_le _
  | stay => exact Nat.le_refl _
  | cancel => exact Nat.le_refl _
  | drop => exact Nat.le_refl _
  | _ => exact Nat.zero_le _

/-! ### How far a job is from its end -/

structure Bounded (total : Nat) (t : Ticket σ ω) : Prop where
  last : ∀ source, t.source = some source → source.item total = none
  produced_le : t.produced ≤ total

theorem Bounded.moves {total : Nat} (h : t.Bounded total) (hs : t.Sound)
    (hbegun : t.phase.hasBegun = true) (hm : t.Moves t') : t'.Bounded total := by
  cases hm.goes hs hbegun with
  | stay => exact h
  | cancel => exact ⟨h.last, h.produced_le⟩
  | drop => exact ⟨h.last, h.produced_le⟩
  | receive =>
    obtain ⟨channel, received, finished, heq⟩ := t.receive_frame
    rw [heq]
    exact ⟨h.last, h.produced_le⟩
  | settle => exact ⟨h.last, h.produced_le⟩
  | endReply => exact ⟨h.last, h.produced_le⟩
  | @answer outcome =>
    obtain ⟨channel, heq, -⟩ := t.answer_frame outcome
    rw [heq]
    exact ⟨h.last, h.produced_le⟩
  | @produce _ _ source producing known produces =>
    cases produces with
    | row kept item =>
      refine ⟨h.last, Nat.lt_of_le_of_ne h.produced_le ?_⟩
      rintro rfl
      cases (h.last source known).symm.trans item
    | _ => exact ⟨h.last, h.produced_le⟩

/-- What the worker of a job that was begun has still to do, apart from the rows that it has not
produced. A worker that found the channel full notices that there is room. -/
def toDo (t : Ticket σ ω) : Nat :=
  match t.phase with
  | .running => 4
  | .ended => 3
  | .producing full => if full = true ∧ t.channel.length < channelCapacity then 4 else 3
  | _ => 0

/-- What is still to be done for a job that was begun and produces so many rows. -/
def cost (total : Nat) (t : Ticket σ ω) : Nat :=
  -- A row costs less once it was sent and nothing once it was received. Its receipt is worth two,
  -- since the room that it makes gives a worker that found the channel full one thing more to do.
  3 * (total - t.produced) + 2 * t.channel.length + (if t.finished then 0 else 1) + t.toDo

/-- A job that costs less after a step, or for which nothing was done. -/
def Cheaper (total : Nat) (t t' : Ticket σ ω) : Prop :=
  t'.cost total < t.cost total ∨ t'.cost total = t.cost total ∧ t'.channel = t.channel ∧
    t'.isOver = t.isOver

theorem toDo_producing {full : Bool} (h : t.phase = .producing full) :
    t.toDo = if full = true ∧ t.channel.length < channelCapacity then 4 else 3 := by rw [toDo, h]

theorem cost_eq (total : Nat) {n : Nat} (h : t.toDo = n) :
    t.cost total = 3 * (total - t.produced) + 2 * t.channel.length +
      (if t.finished then 0 else 1) + n := by
  rw [cost, h]

/-- One attempt to send the next thing brings a job nearer to its end, unless the channel is
full. -/
theorem cost_push {total : Nat} {source : Source ω} (hb : t.Bounded total)
    (hphase : t.phase = .producing false)
      (hknown : t.source = some source) : (t.push source).cost total < t.cost total ∨
      channelCapacity ≤ t.channel.length ∧ t.push source = { t with phase := .producing true } := by
  have htoDo : t.toDo = 3 := toDo_producing hphase
  have hcost := cost_eq total htoDo
  have hdone : cost total { t with phase := .done } < t.cost total := by
    refine Nat.add_lt_add_left ?_ _
    rw [htoDo]
    exact Nat.succ_pos 2
  unfold push
  split
  next => exact .inl hdone
  next x hx =>
    split
    next => exact .inl hdone
    next =>
      split
      next =>
        left
        cases x with
        | ok row =>
          have hlt : t.produced < total := by
            refine Nat.lt_of_le_of_ne hb.produced_le ?_
            intro heq
            have hlast := hb.last source hknown
            rw [← heq] at hlast
            cases hlast.symm.trans (Source.next?_eq_ok hx)
          have hsent :=
            cost_eq (t := { t with channel := t.channel ++ [.ok row], produced := t.produced + 1 })
            total (toDo_producing hphase)
          change cost total
            { t with channel := t.channel ++ [.ok row], produced := t.produced + 1 } < _
          simp only [List.length_append, List.length_singleton, Bool.false_eq_true,
            false_and, if_false] at hsent
          omega
        | error e =>
          have hsent := cost_eq (t := { t with channel := t.channel ++ [.error e], phase := .done })
            total (n := 0) rfl
          change cost total { t with channel := t.channel ++ [.error e], phase := .done } < _
          simp only [List.length_append, List.length_singleton] at hsent
          omega
      next hfull => exact .inr ⟨Nat.le_of_not_lt hfull, rfl⟩

/-- A step of a job that produces rows brings it nearer to its end, unless the channel is full. -/
theorem cost_produce {total : Nat} {full : Bool} {source : Source ω} (hb : t.Bounded total)
    (hphase : t.phase = .producing full) (hknown : t.source = some source) (closing : Bool) :
    (t.produce closing source full).cost total < t.cost total ∨
      channelCapacity ≤ t.channel.length ∧ t.Cheaper total (t.produce closing source full) := by
  have hgoing : t.isOver = false :=
    isOver_eq_false (hphase ▸ Phase.noConfusion) (hphase ▸ Phase.noConfusion)
  have hsame : ∀ {full' : Bool}, t.toDo = 3 → (full' = true → channelCapacity ≤ t.channel.length) →
      t.Cheaper total { t with phase := .producing full' } := by
    intro full' htoDo hfull
    refine .inr ⟨?_, rfl, hgoing.symm⟩
    rw [cost, cost, htoDo]
    exact congrArg _ (if_neg fun ⟨hyes, hroom⟩ => Nat.not_le_of_lt hroom (hfull hyes))
  cases full with
  | false =>
    refine (cost_push hb hphase hknown).imp id fun ⟨hfull, heq⟩ => ⟨hfull, ?_⟩
    change t.Cheaper total (t.push source)
    rw [heq]
    exact hsame (toDo_producing hphase) fun _ => hfull
  | true =>
    have htoDo := toDo_producing hphase
    cases closing with
    | true =>
      refine .inl (Nat.add_lt_add_left ?_ _)
      change 0 < t.toDo
      rw [htoDo]
      split <;> exact Nat.succ_pos _
    | false =>
      by_cases hroom : t.channel.length < channelCapacity
      · refine .inl (Nat.add_lt_add_left ?_ _)
        change 3 < t.toDo
        rw [htoDo, if_pos ⟨rfl, hroom⟩]
        exact Nat.lt_succ_self 3
      · rw [if_neg fun h => hroom h.2] at htoDo
        exact .inr ⟨Nat.le_of_not_lt hroom, hsame htoDo nofun⟩

theorem toDo_le (h : t'.phase = t.phase) : t'.toDo ≤ t.toDo + 1 := by
  unfold toDo
  rw [h]
  split
  · exact Nat.le_succ 4
  · exact Nat.le_succ 3
  · split <;> split <;> decide
  · exact Nat.zero_le _

theorem toDo_of_over (h : t.isOver = true) : t.toDo = 0 := by
  unfold toDo
  split <;> simp_all [isOver]

/-- A look at something that was sent, or at the end, brings a job nearer to its end. -/
theorem cost_receive (total : Nat) (hheld : t.isHeld = true)
    (h : t.channel ≠ [] ∨ t.isOver = true) :
    t.receive.cost total < t.cost total := by
  have hcost := cost_eq total (t := t) rfl
  have htoDo := toDo_le t.phase_receive
  rw [if_neg (by simp [(isHeld_iff.mp hheld).1])] at hcost
  cases hchannel : t.channel with
  | cons x rest =>
    have hless := cost_eq total (t := t.receive) rfl
    have hafter : t.receive.channel = rest ∧ t.receive.produced = t.produced := by
      rw [receive_cons hheld hchannel]
      exact ⟨rfl, rfl⟩
    rw [hafter.1, hafter.2] at hless
    rw [hchannel, List.length_cons] at hcost
    split at hless <;> omega
  | nil =>
    have hover := h.resolve_left fun hne => hne hchannel
    have hless := cost_eq total (toDo_of_over ((isOver_congr t.phase_receive).trans hover))
    have hafter : t.receive.channel = [] ∧ t.receive.produced = t.produced ∧
        t.receive.finished = true := by
      simp only [receive, hheld, hchannel, hover, Bool.not_true, Bool.false_eq_true, if_false]
      split
      · exact ⟨rfl, rfl, t.finished_deliver_error ..⟩
      · exact ⟨rfl, rfl, rfl⟩
    rw [hafter.1, hafter.2.1, if_pos hafter.2.2] at hless
    rw [hchannel] at hcost
    omega

theorem cost_endReply (total : Nat) (hphase : t.phase = .running) (outcome : Outcome ω) :
    (t.endReply outcome).cost total < t.cost total := by
  refine Nat.add_lt_add_left ?_ _
  change 3 < t.toDo
  rw [toDo, hphase]
  exact Nat.lt_succ_self 3

theorem cost_answer (total : Nat) (hphase : t.phase = .ended) (outcome : Outcome ω) :
    (t.answer outcome).cost total < t.cost total := by
  have hcost := cost_eq total (show t.toDo = 3 by rw [toDo, hphase])
  have hless := cost_eq total (show (t.answer outcome).toDo = 0 from rfl)
  have hafter : (t.answer outcome).channel.length ≤ t.channel.length + 1 ∧
      (t.answer outcome).produced = t.produced ∧ (t.answer outcome).finished = t.finished := by
    unfold answer send
    split
    · exact ⟨Nat.le_succ _, rfl, rfl⟩
    · exact ⟨Nat.le_of_eq List.length_append, rfl, rfl⟩
  rw [hafter.2.1, hafter.2.2] at hless
  omega

/-- A job that was begun does not become dearer. -/
theorem cost_moves {total : Nat} (hb : t.Bounded total) (hs : t.Sound)
    (hbegun : t.phase.hasBegun = true) (hm : t.Moves t') : t.Cheaper total t' := by
  have hsame : ∀ {t' : Ticket σ ω}, t'.phase = t.phase → t'.channel = t.channel →
      t'.produced = t.produced →
      t'.finished = t.finished → t.Cheaper total t' := by
    intro t' hphase hchannel hproduced hfinished
    refine .inr ⟨?_, hchannel, isOver_congr hphase⟩
    simp only [cost, toDo, hphase, hchannel, hproduced, hfinished]
  have hunless : ∀ {phase : Phase}, t.phase = phase → phase.hasBegun = true :=
    fun hphase => hphase ▸ hbegun
  cases hm with
  | stay => exact hsame rfl rfl rfl rfl
  | cancel => exact hsame rfl rfl rfl rfl
  | drop =>
    cases hchannel : t.channel with
    | nil => exact hsame rfl hchannel.symm rfl rfl
    | cons x rest =>
      have hcost := cost_eq total (t := t) rfl
      have hless : t.drop.cost total =
          3 * (total - t.produced) + 2 * 0 + (if t.finished then 0 else 1) + t.drop.toDo := rfl
      have htoDo := toDo_le (show t.drop.phase = t.phase from rfl)
      rw [hchannel, List.length_cons] at hcost
      exact .inl (by omega)
  | receive =>
    by_cases hlook : t.isHeld = true ∧ (t.channel ≠ [] ∨ t.isOver = true)
    · exact .inl (cost_receive total hlook.1 hlook.2)
    · have hstays : t.receive = t := by
        cases hheld : t.isHeld with
        | false => exact receive_of_not_held hheld
        | true =>
          obtain ⟨hchannel, hover⟩ := not_or.mp fun h => hlook ⟨hheld, h⟩
          exact receive_nil (Decidable.not_not.mp hchannel) (Bool.eq_false_iff.mpr hover)
      rw [hstays]
      exact hsame rfl rfl rfl rfl
  | expire now =>
    rcases t.expire_frame now with heq | heq <;> rw [heq] <;> exact hsame rfl rfl rfl rfl
  | giveUp =>
    rw [hs.giveUp hbegun]
    exact hsame rfl rfl rfl rfl
  | take waiting => cases hunless waiting
  | leaveQueue taken => cases hunless taken
  | refuse settled => cases hunless settled
  | beginReply settled => cases hunless settled
  | beginRows settled => cases hunless settled
  | endReply running => exact .inl (cost_endReply total running _)
  | answer ended => exact .inl (cost_answer total ended _)
  | produce producing known closing =>
    exact (cost_produce hb producing known closing).elim .inl And.right

/-! ### What the worker does -/

section Works

variable {closing : Bool} {now : Nat} {s : σ}

/-- A worker that goes on with an undisturbed job that was not begun comes nearer to beginning
it. -/
theorem Works.delay_lt (hw : t.Works closing now s t') (hs : t.Sound) (h : t.Undisturbed)
    (hunbegun : t.phase.hasBegun = false) : t'.delay < t.delay := by
  have hunless : ∀ {phase : Phase}, t.phase = phase → phase.hasBegun = false :=
    fun hphase => hphase ▸ hunbegun
  cases hw with
  | leaveQueue taken => simp [delay, Ticket.leaveQueue, taken]
  | refuse settled refused => cases (h.free hs settled).symm.trans refused
  | beginReply settled => simp [delay, Ticket.beginReply, settled]
  | beginRows settled => simp [delay, Ticket.beginRows, settled]
  | endReply running => cases hunless running
  | answer ended => cases hunless ended
  | produce producing => cases hunless producing

/-- A worker that goes on with a job that was begun brings it nearer to its end if the channel has
room. -/
theorem Works.cost_lt (hw : t.Works closing now s t') {total : Nat} (hb : t.Bounded total)
    (hbegun : t.phase.hasBegun = true) (hroom : t.channel.length < channelCapacity) :
    t'.cost total < t.cost total := by
  have hunless : ∀ {phase : Phase}, t.phase = phase → phase.hasBegun = true :=
    fun hphase => hphase ▸ hbegun
  cases hw with
  | leaveQueue taken => cases hunless taken
  | refuse settled => cases hunless settled
  | beginReply settled => cases hunless settled
  | beginRows settled => cases hunless settled
  | endReply running => exact cost_endReply total running _
  | answer ended => exact cost_answer total ended _
  | produce producing known =>
    exact (cost_produce hb producing known _).resolve_right fun hfull =>
      Nat.not_le_of_lt hroom hfull.1

end Works

end Ticket

namespace Outline

variable {o o' : Outline} {d : Option Deed}

/-- A worker keeps its job until that is over. -/
theorem Next.busy (hn : o.Next d o') {w id : Nat} {phase : Phase}
    (busy : o.activities[w]? = some (.busy id)) (hphase : o'.phases[id]? = some phase)
    (going : phase.isOver = false) :
    o'.activities[w]? = some (.busy id) := by
  have hmine : ∀ {w' id' : Nat} {activity : Activity}, o.activities[w']? = some (.busy id') →
      (w' = w → id' = id → activity = .busy id) →
      (o.activities.set w' activity)[w]? = some (.busy id) := by
    intro w' id' activity busy' hkeeps
    by_cases hw : w' = w
    · subst hw
      cases busy.symm.trans busy'
      rw [getElem?_set_same busy, hkeeps rfl rfl]
    · rwa [List.getElem?_set_ne hw]
  have hidle : ∀ {w' : Nat} (activity : Activity), o.activities[w']? = some .idle →
      (o.activities.set w' activity)[w]? = some (.busy id) := by
    intro w' activity idle
    rw [List.getElem?_set_ne, busy]
    rintro rfl
    cases busy.symm.trans idle
  cases hn with
  | quiet => exact busy
  | accept => exact busy
  | reject => exact busy
  | takeJob idle => exact hidle _ idle
  | takeStop idle => exact hidle _ idle
  | start busy' => exact hmine busy' fun _ hid => hid ▸ rfl
  | refuse busy' settled =>
    refine hmine busy' fun _ hid => ?_
    subst hid
    cases (getElem?_set_same settled _).symm.trans hphase
    cases going
  | goOn busy' held =>
    refine hmine busy' fun _ hid => ?_
    subst hid
    cases (getElem?_set_same held _).symm.trans hphase
    rw [going, if_neg Bool.false_ne_true]
  | close => exact busy

/-- A job that is submitted while the queue is open waits there. -/
theorem Next.fresh (hn : o.Next d o') (opened : o.closed = false) {id : Nat} {phase : Phase}
    (hnone : o.phases[id]? = none) (hphase : o'.phases[id]? = some phase) : phase = .queued := by
  have hold : ∀ (id' : Nat) (phase' : Phase), (o.phases.set id' phase')[id]? ≠ some phase := by
    intro id' phase' hsome
    have hlt := (List.getElem?_eq_some_iff.mp hsome).1
    rw [List.length_set] at hlt
    exact absurd hlt (Nat.not_lt_of_le (List.getElem?_eq_none_iff.mp hnone))
  cases hn with
  | quiet => cases hnone.symm.trans hphase
  | accept =>
    rw [List.getElem?_append_right (List.getElem?_eq_none_iff.mp hnone)] at hphase
    exact List.mem_singleton.mp (List.mem_of_getElem? hphase)
  | reject closed => cases closed.symm.trans opened
  | takeJob => exact absurd hphase (hold _ _)
  | takeStop => cases hnone.symm.trans hphase
  | start => exact absurd hphase (hold _ _)
  | refuse => exact absurd hphase (hold _ _)
  | goOn => exact absurd hphase (hold _ _)
  | close => cases hnone.symm.trans hphase

end Outline

namespace Pool

/-- A worker has its job until that is over. -/
theorem Reachable.step_holds {p : Pool σ ω} (hp : p.Reachable) {w id : Nat}
    {x : Worker σ} {t t' : Ticket σ ω} (h : p.Holds w x id t) {e : Event σ ω}
    (ht' : (p.step e).tickets[id]? = some t') (going : t'.isOver = false) :
    ∃ x', (p.step e).Holds w x' id t' := by
  have hphase : (p.step e).outline.phases[id]? = some t'.phase := by simp [outline, ht']
  have hbusy := (hp.orderly.step_next e).busy h.activity hphase (by rw [Ticket.isOver_phase, going])
  rw [outline, List.getElem?_map] at hbusy
  obtain ⟨x', hx', hactivity⟩ := Option.map_eq_some_iff.mp hbusy
  exact ⟨x', hx', hactivity, ht'⟩

theorem Reachable.sound {p : Pool σ ω} (hp : p.Reachable) {id : Nat} {t : Ticket σ ω}
    (ht : p.tickets[id]? = some t) : t.Sound := by
  obtain ⟨connections, limit, events, rfl⟩ := hp
  exact (new_run_course ht rfl (Ticket.lasting_yield t.body)).sound

theorem Reachable.waits {p : Pool σ ω} (hp : p.Reachable) {id : Nat} {t : Ticket σ ω}
    (ht : p.tickets[id]? = some t) (hunbegun : t.phase.hasBegun = false) : t.Waits := by
  obtain ⟨connections, limit, events, rfl⟩ := hp
  exact (new_run_course ht rfl (Ticket.lasting_yield t.body)).waits hunbegun

end Pool

end TypedTables
