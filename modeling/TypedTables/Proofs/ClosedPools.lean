import TypedTables.Proofs.CallerWaits

/-!
# Jobs that are submitted too late

A job that is submitted to a closed pool is turned away with `Error.poolClosed`, and nothing that
happens in the pool changes what its caller finds. Whoever looks into the channel first gets that
error. But the job is also settled to have left the queue too late if its deadline has passed by
then; a thread that reads rows asks for the admission before it looks into the channel, and so takes
the end of the pool for a timeout.
-/
namespace TypedTables

variable {σ ω : Type}

namespace Admission

theorem slot_leaveQueue_of_queued {a : Admission} (h : a.slot = .queued) (now : Nat) :
    (a.leaveQueue now).slot = if now ≤ a.deadline then .started else .abandoned := by
  simp [leaveQueue, h]

@[simp] theorem limit_leaveQueue (a : Admission) (now : Nat) :
    (a.leaveQueue now).limit = a.limit := by
  unfold leaveQueue
  split <;> rfl

end Admission

namespace Pool

/-- The steps of the caller of a job that look at it or drop it. -/
def Event.uses (id : Nat) : Event σ ω → Bool
  | .drop i | .receive i | .expire i | .giveUp i => i = id
  | _ => false

/-- A job that is over stays as it is until its caller looks at it, except that it may be
withdrawn. -/
theorem Orderly.step_over {p : Pool σ ω} (hp : p.Orderly) {id : Nat} {t : Ticket σ ω}
    (ht : p.tickets[id]? = some t) (hover : t.isOver = true) {e : Event σ ω}
    (he : e.uses id = false) :
    ∃ cancelled, (p.step e).tickets[id]? = some { t with cancelled } := by
  have hother : ∀ {id'}, decide (id' = id) = false → ∀ f, (p.update id' f).tickets[id]? = some t :=
    fun h f => (p.getElem?_update_other (of_decide_eq_false h) f).trans ht
  cases e with
  | submit body elapsed =>
    refine ⟨t.cancelled, ?_⟩
    have hadded : ∀ u, (p.tickets ++ [u])[id]? = some t := fun u => by
      rw [List.getElem?_append_left (List.getElem?_eq_some_iff.mp ht).1, ht]
    change (p.submit body elapsed).tickets[id]? = some t
    unfold submit
    split
    · exact ht
    · unfold Pool.enqueue
      split <;> exact hadded _
  | cancel id' =>
    by_cases hid : id' = id
    · subst hid
      exact ⟨true, getElem?_update_same ht _⟩
    · exact ⟨t.cancelled, (p.getElem?_update_other hid _).trans ht⟩
  | drop id' => exact ⟨t.cancelled, hother he _⟩
  | receive id' => exact ⟨t.cancelled, hother he _⟩
  | expire id' => exact ⟨t.cancelled, hother he _⟩
  | giveUp id' => exact ⟨t.cancelled, hother he _⟩
  | take w =>
    refine ⟨t.cancelled, ?_⟩
    change (p.take w).tickets[id]? = some t
    unfold Pool.take
    split
    next id' rest _ hqueue =>
      have hid : id' ≠ id := by
        rintro rfl
        obtain ⟨t', ht', hwaits⟩ := hp.waiting id' (by simp [hqueue])
        cases ht.symm.trans ht'
        simp [Ticket.isOver, hwaits] at hover
      exact (Pool.getElem?_update_other _ hid _).trans ht
    next => exact ht
    next => exact ht
  | work w =>
    refine ⟨t.cancelled, ?_⟩
    change (p.work w).tickets[id]? = some t
    cases p.work_works w with
    | rest same => rwa [same]
    | @move id' t' f x x' _ _ job _ unfinished _ changed =>
      have hid : id' ≠ id := by
        rintro rfl
        cases ht.symm.trans job
        cases hover.symm.trans unfinished
      rwa [changed, List.getElem?_modify_ne _ _ hid]
  | beginClosing => exact ⟨t.cancelled, ht⟩
  | closeQueue =>
    refine ⟨t.cancelled, ?_⟩
    change p.closeQueue.tickets[id]? = some t
    unfold Pool.closeQueue
    split <;> exact ht
  | tick elapsed => exact ⟨t.cancelled, ht⟩
  | outside w connection => exact ⟨t.cancelled, ht⟩

theorem Orderly.run_over {p : Pool σ ω} (hp : p.Orderly) {id : Nat} {t : Ticket σ ω}
    (ht : p.tickets[id]? = some t) (hover : t.isOver = true) {events : List (Event σ ω)}
    (hevents : ∀ e ∈ events, e.uses id = false) :
    ∃ cancelled, (p.run events).tickets[id]? = some { t with cancelled } := by
  induction events generalizing p t with
  | nil => exact ⟨t.cancelled, ht⟩
  | cons e events ih =>
    obtain ⟨c, ht'⟩ := hp.step_over ht hover (hevents e List.mem_cons_self)
    obtain ⟨c', ht''⟩ := ih (hp.step e) ht' hover fun e' he' =>
      hevents e' (List.mem_cons_of_mem e he')
    exact ⟨c', ht''⟩

theorem uses_nextEvent? {p : Pool σ ω} {held : List Nat} {w : Nat} {e : Event σ ω}
    (h : p.nextEvent? held w = some e) (id : Nat) : e.uses id = false := by
  unfold nextEvent? at h
  split at h
  · split at h <;> cases h
    rfl
  · split at h
    · split at h <;> cases h
      rfl
    · cases h
  · cases h

/-- Workers that go on leave a job alone that is over. -/
theorem Orderly.advanceBy_over {p : Pool σ ω} (hp : p.Orderly) {id : Nat} {t : Ticket σ ω}
    (ht : p.tickets[id]? = some t) (hover : t.isOver = true) (held : List Nat) (n : Nat) :
    ∃ cancelled, (advanceBy held n p).tickets[id]? = some { t with cancelled } := by
  induction n generalizing p t with
  | zero => exact ⟨t.cancelled, ht⟩
  | succ n ih =>
    unfold advanceBy
    split
    next event hevent =>
      obtain ⟨w, -, hw⟩ := List.exists_of_findSome?_eq_some hevent
      have huses : ∀ e ∈ [.tick 1, event], e.uses id = false := by
        intro e he
        rcases List.mem_cons.mp he with rfl | he
        · rfl
        · exact List.mem_singleton.mp he ▸ uses_nextEvent? hw id
      obtain ⟨c, ht'⟩ := hp.run_over ht hover huses
      obtain ⟨c', ht''⟩ := ih (hp.run [.tick 1, event]) ht' hover
      exact ⟨c', ht''⟩
    next => exact ⟨t.cancelled, ht⟩

/-- A caller that waits for a worker to take a job that has left the queue does not wait, and gives
up if the job left too late. -/
theorem awaitAdmission_settled {p : Pool σ ω} {id : Nat} {t : Ticket σ ω}
    (ht : p.tickets[id]? = some t) (hsettled : ∀ a ∈ t.admission, a.slot ≠ .queued) :
    (p.awaitAdmission id).tickets[id]? = some t.giveUp := by
  have hdeadline : p.untilDeadline id = p := by
    unfold untilDeadline
    rw [ht]
    split
    next a ha => exact if_neg (hsettled a ha)
    next => rfl
  have hexpire : t.expire p.now = t := by
    unfold Ticket.expire
    split
    next a ha =>
      split
      · rw [a.settle_of_settled (hsettled a ha), ← ha]
      · rfl
    next => rfl
  unfold awaitAdmission
  rw [hdeadline]
  have ht' : (p.step (.expire id)).tickets[id]? = some t :=
    (getElem?_update_same ht _).trans (congrArg some hexpire)
  exact getElem?_update_same ht' Ticket.giveUp

/-- The pool in which the caller of a job looks into the channel: a thread that reads rows has
waited for its admission. -/
def lookout (p : Pool σ ω) (patience : Patience) (id : Nat) (t : Ticket σ ω) : Pool σ ω :=
  if patience = .blocking && !t.isReply then p.awaitAdmission id else p

/-- A wait that finds the first thing for its caller answers that. -/
theorem next_of_received {p : Pool σ ω} {patience : Patience} {held : List Nat}
    {id : Nat} {t u : Ticket σ ω} {x : Except Error ω} (ht : (p.advance held).tickets[id]? = some t)
    (hnone : t.received = [])
    (hu : (((p.advance held).lookout patience id t).step (.receive id)).tickets[id]? = some u)
    (hx : u.received = [x]) :
    p.next patience held id =
      (some x, ((p.advance held).lookout patience id t).step (.receive id)) := by
  have hn : (p.advance held).receivedCount id = 0 := by simp [receivedCount, ht, hnone]
  have hcount :
      (((p.advance held).lookout patience id t).step (.receive id)).receivedCount id = 1 := by
    simp [receivedCount, hu, hx]
  have hnews : (((p.advance held).lookout patience id t).step (.receive id)).news? id 0 =
      some x := by
    simp [news?, hu, hx]
  unfold lookout at hcount hnews ⊢
  unfold next
  simp only [hn, ht, Option.map_some, Option.getD_some, hcount, hnews,
    Nat.one_ne_zero, decide_false, Bool.false_and, Bool.false_eq_true, if_false]

end Pool

namespace Ticket

/-- A job that was turned away since the pool was closed, before its caller looked at it. -/
structure TurnedAway (t : Ticket σ ω) : Prop where
  refused : t.phase = .refused
  channel : t.channel = [.error .poolClosed]
  received : t.received = []
  held : t.isHeld = true
  settled : ∀ a ∈ t.admission, a.slot ≠ .queued

theorem turnedAway (body : Body σ ω) (admission : Option Admission) (now : Nat) (cancelled : Bool) :
    TurnedAway { ((new body admission).leaveQueue now).refuse .poolClosed with cancelled } where
  refused := rfl
  channel := rfl
  received := rfl
  held := rfl
  settled a ha := by
    obtain ⟨a', -, rfl⟩ := Option.map_eq_some_iff.mp ha
    exact a'.slot_leaveQueue now

theorem TurnedAway.receive {t : Ticket σ ω} (h : t.TurnedAway) :
    t.receive.received = [.error .poolClosed] ∧ t.receive.finished = true := by
  rw [receive_cons h.held h.channel]
  refine ⟨?_, t.finished_deliver_error _ _⟩
  change t.received ++ [_] = _
  rw [h.received]
  rfl

end Ticket

namespace Pool

open Ticket (TurnedAway)

/-- Whoever looks into the channel before the deadline matters finds that the pool was closed. -/
theorem next_turnedAway {p : Pool σ ω} {patience : Patience} {held : List Nat}
    {id : Nat} {t : Ticket σ ω} (ht : (p.advance held).tickets[id]? = some t) (h : t.TurnedAway)
    (hintime : patience = .blocking → t.isReply = true ∨ ∀ a ∈ t.admission, a.slot = .started) :
    (p.next patience held id).1 = some (.error .poolClosed) ∧
      ∃ u, (p.next patience held id).2.tickets[id]? = some u ∧ u.finished = true := by
  have hlookout : ((p.advance held).lookout patience id t).tickets[id]? = some t := by
    unfold lookout
    split
    next hwaits =>
      obtain ⟨hblocking, hrows⟩ := Bool.and_eq_true_iff.mp hwaits
      have hstarted := (hintime (of_decide_eq_true hblocking)).resolve_left (by simpa using hrows)
      have hgiveUp : t.giveUp = t := by
        unfold Ticket.giveUp
        split
        next a ha => simp [hstarted a ha]
        next => rfl
      rw [awaitAdmission_settled ht h.settled, hgiveUp]
    next => exact ht
  obtain ⟨hreceived, hfinished⟩ := h.receive
  have hu := getElem?_update_same hlookout Ticket.receive
  rw [next_of_received ht h.received hu hreceived]
  exact ⟨rfl, t.receive, hu, hfinished⟩

/-- A thread that reads rows gives up first if the deadline has passed. -/
theorem next_turnedAway_late {p : Pool σ ω} {held : List Nat} {id : Nat}
    {t : Ticket σ ω} {a : Admission} (ht : (p.advance held).tickets[id]? = some t)
    (h : t.TurnedAway) (hrows : t.isReply = false) (ha : t.admission = some a)
    (hlate : a.slot = .abandoned) :
      (p.next .blocking held id).1 = some (.error (.timeout a.limit)) ∧
      ∃ u, (p.next .blocking held id).2.tickets[id]? = some u ∧ u.finished = true := by
  have hgiveUp : t.giveUp = { t with
      cancelled := true, received := [.error (.timeout a.limit)], finished := true } := by
    simp [Ticket.giveUp, ha, h.held, hlate, h.received]
  have hlookout : ((p.advance held).lookout .blocking id t).tickets[id]? = some t.giveUp := by
    simp only [lookout, hrows, decide_true, Bool.not_false, Bool.and_true, if_true]
    exact awaitAdmission_settled ht h.settled
  have hover : t.giveUp.receive = t.giveUp :=
    Ticket.receive_of_not_held (Ticket.isHeld_eq_false.mpr (.inl (by rw [hgiveUp])))
  have hu := (getElem?_update_same hlookout Ticket.receive).trans (congrArg some hover)
  rw [next_of_received ht h.received hu (by rw [hgiveUp])]
  exact ⟨rfl, t.giveUp, hu, by rw [hgiveUp]⟩

def Reachable (p : Pool σ ω) : Prop :=
  ∃ connections limit, (new connections limit).Continues p

theorem Reachable.orderly {p : Pool σ ω} (hp : p.Reachable) : p.Orderly := by
  obtain ⟨connections, limit, events, rfl⟩ := hp
  exact (orderly_new connections limit).run events

/-- What the caller of a job that is submitted now finds when it looks for the first time, after
more steps. -/
def firstAnswer (p : Pool σ ω) (body : Body σ ω) (elapsed : Nat) (later : List (Event σ ω))
    (patience : Patience) (held : List Nat) : Option (Except Error ω) × Pool σ ω :=
  ((p.submit body elapsed).run later).next patience held p.tickets.length

/-- A job that is submitted to a closed pool is turned away. -/
theorem turnedAway_of_closed {p : Pool σ ω} (hp : p.Orderly)
    (hclosed : p.closed = true) {elapsed : Nat} {admission : Option Admission}
    (hsubmitted : p.admission? elapsed = some admission) (body : Body σ ω)
    {later : List (Event σ ω)} (hlater : ∀ e ∈ later, e.uses p.tickets.length = false)
    (held : List Nat) :
    ∃ t, (((p.submit body elapsed).run later).advance held).tickets[p.tickets.length]? = some t ∧
      t.TurnedAway ∧ t.body = body ∧
      t.admission = admission.map (Admission.leaveQueue · p.now) := by
  have hnew : (p.submit body elapsed).tickets[p.tickets.length]? =
      some (((Ticket.new body admission).leaveQueue p.now).refuse .poolClosed) := by
    simp [submit, hsubmitted, enqueue, hclosed]
  have hp' : (p.submit body elapsed).Orderly := hp.step (.submit body elapsed)
  obtain ⟨c, ht⟩ := hp'.run_over hnew rfl hlater
  obtain ⟨c', ht'⟩ := (hp'.run later).advanceBy_over ht rfl held _
  exact ⟨_, ht', Ticket.turnedAway body admission p.now c', rfl, rfl⟩

/-- Whoever submits a job to a closed pool gets `Error.poolClosed` first, however late it looks for
the answer and whatever happens before, except for a thread that reads rows of a job whose deadline
had passed when the pool turned it away: it gets a timeout. Nothing follows in any case. -/
theorem firstAnswer_of_closed {p : Pool σ ω} (hp : p.Reachable)
    (hclosed : p.closed = true) {elapsed : Nat} {admission : Option Admission}
    (hsubmitted : p.admission? elapsed = some admission) (body : Body σ ω)
    {later : List (Event σ ω)} (hlater : ∀ e ∈ later, e.uses p.tickets.length = false)
    (patience : Patience) (held : List Nat) :
      ((patience = .blocking → (∃ run, body = .reply run) ∨ ∀ a ∈ admission, p.now ≤ a.deadline) →
      (p.firstAnswer body elapsed later patience held).1 = some (.error .poolClosed)) ∧
    (patience = .blocking → (∃ produce, body = .rows produce) → ∀ a ∈ admission,
      a.deadline < p.now →
      (p.firstAnswer body elapsed later patience held).1 = some (.error (.timeout a.limit))) ∧
    ∀ rest patience' held',
      (((p.firstAnswer body elapsed later patience held).2.run rest).next patience' held'
        p.tickets.length).1 = none := by
  have horderly := hp.orderly
  have hlast : ((p.submit body elapsed).run later).Orderly :=
    (horderly.step (.submit body elapsed)).run later
  have hslot := slot_admission? hsubmitted
  obtain ⟨t, ht, haway, hbody, hadmission⟩ :=
    turnedAway_of_closed horderly hclosed hsubmitted body hlater held
  by_cases hlate : patience = .blocking ∧ (∃ produce, body = .rows produce) ∧
      ∃ a ∈ admission, a.deadline < p.now
  · obtain ⟨rfl, ⟨produce, rfl⟩, a, ha, hpassed⟩ := hlate
    have hleft : t.admission = some (a.leaveQueue p.now) := by rw [hadmission, ha, Option.map_some]
    have habandoned : (a.leaveQueue p.now).slot = .abandoned := by
      rw [a.slot_leaveQueue_of_queued (hslot a ha), if_neg (Nat.not_le_of_lt hpassed)]
    obtain ⟨hanswer, u, hu, hfinished⟩ :=
      next_turnedAway_late ht haway (by simp [Ticket.isReply, hbody]) hleft habandoned
    rw [a.limit_leaveQueue] at hanswer
    refine ⟨fun hintime => ?_, fun _ _ a' ha' _ => ?_, hlast.next_after_end hu hfinished⟩
    · rcases hintime rfl with ⟨run, hreply⟩ | htimely
      · cases hreply
      · exact absurd (htimely a ha) (Nat.not_le_of_lt hpassed)
    · obtain rfl := Option.mem_unique ha ha'
      exact hanswer
  · have hintime : patience = .blocking → t.isReply = true ∨ ∀ a ∈ t.admission,
        a.slot = .started := by
      intro hblocking
      cases body with
      | reply run => exact .inl (by simp [Ticket.isReply, hbody])
      | rows produce =>
        refine .inr fun a' ha' => ?_
        rw [hadmission] at ha'
        obtain ⟨a, ha, rfl⟩ := Option.map_eq_some_iff.mp ha'
        have htimely : ¬a.deadline < p.now :=
          fun hpassed => hlate ⟨hblocking, ⟨produce, rfl⟩, a, ha, hpassed⟩
        rw [a.slot_leaveQueue_of_queued (hslot a ha), if_pos (Nat.le_of_not_lt htimely)]
    obtain ⟨hanswer, u, hu, hfinished⟩ := next_turnedAway ht haway hintime
    refine ⟨fun _ => hanswer, fun hblocking hrows a ha hpassed => ?_,
      hlast.next_after_end hu hfinished⟩
    exact absurd ⟨hblocking, hrows, a, ha, hpassed⟩ hlate

/-- A closed pool whose jobs may not wait at all, a moment after it was closed. -/
def closedPool : Pool Nat Nat :=
  (new [0] (some (.ofParts 0 0))).run [.beginClosing, .closeQueue, .tick 1]

def noRows : Body Nat Nat := .rows fun s => (⟨fun _ => none, .returned (.ok ())⟩, s)

/-- A task that reads rows gets the end of the pool, even if the deadline has passed. -/
theorem firstAnswer_of_closed_timer :
    closedPool.closed = true ∧
      (closedPool.firstAnswer noRows 1 [.tick 5] .timer []).1 = some (.error .poolClosed) := by
  have hreachable : closedPool.Reachable := ⟨[0], some (.ofParts 0 0), _, rfl⟩
  have hsubmitted : closedPool.admission? 1 = some (some ⟨.queued, 0, .ofParts 0 0⟩) := by decide
  have hlater : ∀ e ∈ [(.tick 5 : Event Nat Nat)], e.uses closedPool.tickets.length = false := by
    intro e he
    cases List.mem_singleton.mp he
    rfl
  exact ⟨rfl, (firstAnswer_of_closed hreachable rfl hsubmitted noRows hlater .timer []).1 nofun⟩

/-- A thread that reads rows from the same pool gets a timeout. -/
theorem firstAnswer_of_closed_blocking :
    closedPool.closed = true ∧
      (closedPool.firstAnswer noRows 1 [] .blocking []).1 =
        some (.error (.timeout (.ofParts 0 0))) ∧
      (closedPool.firstAnswer noRows 1 [] .blocking []).1 ≠ some (.error .poolClosed) :=
  ⟨rfl, rfl, nofun⟩

end Pool

end TypedTables
