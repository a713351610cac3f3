import Mathlib.Order.OrderIsoNat
import TypedTables.Proofs.UndisturbedJobs

/-!
# The same results as directly

Whatever the workers, the callers and all others do meanwhile, and however few of the rows the
channel holds: the caller of a job that nobody disturbs receives what the operation answers
directly, and if the worker goes on and the caller looks into the channel time and again, the caller
has all of it in the end. A caller that waits on a thread, with a timer or without one looks into
the channel and gives up in the same steps, so that this holds of all of them.
-/
namespace TypedTables

variable {σ ω : Type}

namespace Pool

/-! ### Schedules without end -/

structure Calm (p : Pool σ ω) (id : Nat) : Prop where
  opened : p.closing = false
  undisturbed : ∀ t, p.tickets[id]? = some t → t.Undisturbed

/-- A pool after so many steps of a schedule. -/
def after (p : Pool σ ω) (schedule : Nat → Event σ ω) : Nat → Pool σ ω
  | 0 => p
  | n + 1 => (p.after schedule n).step (schedule n)

/-- Something that happens time and again. -/
def Recurs (schedule : Nat → Event σ ω) (e : Event σ ω) : Prop := ∀ n, ∃ k ≥ n, schedule k = e

theorem after_add (p : Pool σ ω) (schedule : Nat → Event σ ω) (m n : Nat) :
    p.after schedule (m + n) = (p.after schedule m).after (fun k => schedule (m + k)) n := by
  induction n with
  | zero => rfl
  | succ n ih => rw [after, ← ih, Nat.add_succ, after]

theorem Recurs.shift {schedule : Nat → Event σ ω} {e : Event σ ω}
    (h : Recurs schedule e) (m : Nat) :
    Recurs (fun k => schedule (m + k)) e := by
  intro n
  obtain ⟨i, hi, hevent⟩ := h (m + n)
  obtain ⟨k, rfl⟩ := Nat.exists_eq_add_of_le hi
  rw [Nat.add_assoc] at hevent
  exact ⟨n + k, Nat.le_add_right n k, hevent⟩

theorem Reachable.after {p : Pool σ ω} (hp : p.Reachable) (schedule : Nat → Event σ ω) (n : Nat) :
    (p.after schedule n).Reachable := by
  induction n with
  | zero => exact hp
  | succ n ih => exact ih.run [schedule n]

/-- A number that does not grow stays the same from some time on. -/
theorem exists_constant {f : Nat → Nat} (h : ∀ n, f (n + 1) ≤ f n) : ∃ m, ∀ n ≥ m, f n = f m := by
  obtain ⟨m, hm⟩ :=
    WellFoundedGT.monotone_chain_condition (⟨f, antitone_nat_of_succ_le h⟩ : Nat →o Natᵒᵈ)
  exact ⟨m, fun n hn => (hm n hn).symm⟩

/-- What becomes of a job at each moment of a schedule: its worker has it until it is over, and
nobody disturbs it. -/
structure Follows (p : Pool σ ω) (schedule : Nat → Event σ ω) (w id : Nat)
    (job : Nat → Ticket σ ω) : Prop where
  reachable : ∀ n, (p.after schedule n).Reachable
  calm : ∀ n, (p.after schedule n).Calm id
  present : ∀ n, (p.after schedule n).tickets[id]? = some (job n)
  held : ∀ n, (job n).isOver = false → ∃ x, (p.after schedule n).Holds w x id (job n)

theorem Reachable.exists_follows {p : Pool σ ω} (hp : p.Reachable)
    {schedule : Nat → Event σ ω} {w id : Nat} {x : Worker σ} {t : Ticket σ ω} (h : p.Holds w x id t)
    (hcalm : ∀ n, (p.after schedule n).Calm id) :
    ∃ job, job 0 = t ∧ p.Follows schedule w id job := by
  have hall : ∀ n, ∃ t', (p.after schedule n).tickets[id]? = some t' ∧
      (t'.isOver = false → ∃ x', (p.after schedule n).Holds w x' id t') := by
    intro n
    induction n with
    | zero => exact ⟨t, h.job, fun _ => ⟨x, h⟩⟩
    | succ n ih =>
      obtain ⟨t₁, ht₁, hheld₁⟩ := ih
      obtain ⟨t₂, ht₂, hmoves⟩ := (hp.after schedule n).orderly.step_moves ht₁ (schedule n)
      refine ⟨t₂, ht₂, fun hgoing => ?_⟩
      have hgoing₁ : t₁.isOver = false := by
        refine Bool.eq_false_iff.mpr fun hover => ?_
        cases (hmoves.over hover).symm.trans hgoing
      obtain ⟨x₁, hholds⟩ := hheld₁ hgoing₁
      exact (hp.after schedule n).step_holds hholds ht₂ hgoing
  choose job hjob hheld using hall
  exact ⟨job, Option.some.inj ((hjob 0).symm.trans h.job), hp.after schedule, hcalm, hjob, hheld⟩

namespace Follows

variable {p : Pool σ ω} {schedule : Nat → Event σ ω} {w id : Nat} {job : Nat → Ticket σ ω}

theorem moves (h : p.Follows schedule w id job) (n : Nat) : (job n).Moves (job (n + 1)) := by
  obtain ⟨t', ht', hmoves⟩ := (h.reachable n).orderly.step_moves (h.present n) (schedule n)
  cases ht'.symm.trans (h.present (n + 1))
  exact hmoves

theorem sound (h : p.Follows schedule w id job) (n : Nat) : (job n).Sound :=
  (h.reachable n).sound (h.present n)

theorem undisturbed (h : p.Follows schedule w id job) (n : Nat) : (job n).Undisturbed :=
  (h.calm n).undisturbed _ (h.present n)

/-- What the worker makes of the job when it goes on. -/
theorem job_succ (h : p.Follows schedule w id job) {n : Nat} {e : Event σ ω} (he : schedule n = e)
    {t : Ticket σ ω} (ht : ((p.after schedule n).step e).tickets[id]? = some t) :
    job (n + 1) = t := by
  subst he
  exact Option.some.inj ((h.present (n + 1)).symm.trans ht)

/-- If the worker goes on time and again, the job is begun. -/
theorem exists_begun (h : p.Follows schedule w id job) (hwork : Recurs schedule (.work w))
    (hstart : (job 0).phase ≠ .refused) : ∃ n, (job n).phase.hasBegun = true := by
  -- Otherwise the time until it is begun would stop to fall, and the next step of the worker would
  -- lower it.
  by_contra hnever
  have hunbegun : ∀ n, (job n).phase.hasBegun = false :=
    fun n => Bool.eq_false_iff.mpr fun hbegun => hnever ⟨n, hbegun⟩
  have hunrefused : ∀ n, (job n).phase ≠ .refused := by
    intro n
    induction n with
    | zero => exact hstart
    | succ n ih => exact (h.undisturbed n).moves (h.sound n) (h.moves n) ih
  have hheld : ∀ n, ∃ x, (p.after schedule n).Holds w x id (job n) :=
    fun n => h.held n (Ticket.isOver_eq_false (Phase.ne_done (hunbegun n)) (hunrefused n))
  have hleft : ∀ n, (job n).phase ≠ .queued := by
    intro n hqueued
    obtain ⟨x, hholds⟩ := hheld n
    have hgoesOn := (h.reachable n).canGoOn hholds
    rwa [Ticket.CanGoOn, hqueued] at hgoesOn
  obtain ⟨m, hconstant⟩ := exists_constant (f := fun n => (job n).delay)
    fun n => Ticket.delay_moves (h.moves n) (hleft n)
  obtain ⟨k, hk, hevent⟩ := hwork m
  obtain ⟨x, hholds⟩ := hheld k
  obtain ⟨t, hworks, ht, -⟩ := hholds.works ((h.reachable k).canGoOn hholds)
  have hless := hworks.delay_lt (h.sound k) (h.undisturbed k) (hunbegun k)
  rw [← h.job_succ hevent ht, hconstant (k + 1) (Nat.le_succ_of_le hk), hconstant k hk] at hless
  exact Nat.lt_irrefl _ hless

/-- If the worker goes on time and again, and the caller looks into the channel time and again, the
caller has received all of the job in the end. -/
theorem exists_finished (h : p.Follows schedule w id job) (hwork : Recurs schedule (.work w))
    (hreceive : Recurs schedule (.receive id)) {total m : Nat}
    (hbegun : (job m).phase.hasBegun = true) (hb : (job m).Bounded total) :
    ∃ n, (job n).finished = true := by
  by_contra hnever
  have hwaits : ∀ n, (job n).isHeld = true := fun n =>
    Ticket.isHeld_iff.mpr ⟨Bool.eq_false_iff.mpr fun hf => hnever ⟨n, hf⟩, (h.undisturbed n).kept⟩
  have hkept : ∀ n, (job (m + n)).phase.hasBegun = true ∧ (job (m + n)).Bounded total := by
    intro n
    induction n with
    | zero => exact ⟨hbegun, hb⟩
    | succ n ih =>
      obtain ⟨hbegun, hb⟩ := ih
      have hgoes := (h.moves (m + n)).goes (h.sound _) hbegun
      exact ⟨hgoes.hasBegun hbegun, hb.moves (h.sound _) hbegun (h.moves (m + n))⟩
  have hcheaper : ∀ n, (job (m + n)).Cheaper total (job (m + (n + 1))) :=
    fun n => Ticket.cost_moves (hkept n).2 (h.sound _) (hkept n).1 (h.moves (m + n))
  obtain ⟨k₀, hconstant⟩ := exists_constant (f := fun n => (job (m + n)).cost total)
    fun n => (hcheaper n).elim Nat.le_of_lt fun heq => Nat.le_of_eq heq.1
  -- From here on nothing is done for the job, so that what the channel holds stays the same.
  have hdearest : ∀ {n}, n ≥ k₀ → ∀ t, job (m + n + 1) = t →
      ¬t.cost total < (job (m + n)).cost total := by
    rintro n hn _ rfl hless
    have hlater := hconstant (n + 1) (Nat.le_succ_of_le hn)
    rw [← hconstant n hn] at hlater
    exact Nat.ne_of_lt hless hlater
  have hstill : ∀ n ≥ k₀, (job (m + n)).channel = (job (m + k₀)).channel ∧
      (job (m + n)).isOver = (job (m + k₀)).isOver := by
    intro n hn
    induction n, hn using Nat.le_induction with
    | base => exact ⟨rfl, rfl⟩
    | succ n hn ih =>
      obtain ⟨-, hchannel, hover⟩ := (hcheaper n).resolve_left (hdearest hn _ rfl)
      exact ⟨hchannel.trans ih.1, hover.trans ih.2⟩
  by_cases hlook : (job (m + k₀)).channel ≠ [] ∨ (job (m + k₀)).isOver = true
  · obtain ⟨k, hk, hevent⟩ := hreceive.shift m k₀
    have hafter := h.job_succ hevent (getElem?_update_same (h.present _) Ticket.receive)
    obtain ⟨hchannel, hover⟩ := hstill k hk
    rw [← hchannel, ← hover] at hlook
    exact hdearest hk _ hafter (Ticket.cost_receive total (hwaits _) hlook)
  · obtain ⟨hempty, hgoing⟩ := not_or.mp hlook
    obtain ⟨k, hk, hevent⟩ := hwork.shift m k₀
    obtain ⟨hchannel, hover⟩ := hstill k hk
    rw [← hchannel, Decidable.not_not] at hempty
    rw [← hover] at hgoing
    obtain ⟨x, hholds⟩ := h.held _ (Bool.eq_false_iff.mpr hgoing)
    have hroom : (job (m + k)).channel.length < channelCapacity := by
      rw [hempty]; exact Nat.succ_pos 127
    obtain ⟨t, hworks, ht, -⟩ := hholds.works ((h.reachable _).canGoOn hholds)
    exact hdearest hk t (h.job_succ hevent ht) (hworks.cost_lt (hkept k).2 (hkept k).1 hroom)

end Follows

/-! ### The same results -/

/-- What a job has come to was found when its body was carried out, on the connection of its
worker. -/
theorem exists_carriedOut {connections : List σ} {limit : Option Duration}
    {schedule : Nat → Event σ ω} {n id : Nat} {body : Body σ ω} {y : Yield ω}
    (h : ((new connections limit).after schedule n).yields[id]? = some (body, some y)) :
    ∃ m < n, ∃ w x t, schedule m = .work w ∧
      ((new connections limit).after schedule m).Holds w x id t ∧
      y = (body.onTheSpot x.connection).1 ∧
      ((new connections limit).after schedule (m + 1)).connections =
        ((new connections limit).after schedule m).connections.set w
          (body.onTheSpot x.connection).2 := by
  induction n with
  | zero => cases h
  | succ n ih =>
    have hnew : (new connections limit : Pool σ ω).Reachable := ⟨connections, limit, [], rfl⟩
    have hadvances := (hnew.after schedule n).step_advances (schedule n)
    have hearlier := fun hold => (ih hold).imp fun m hm => And.intro (Nat.lt_succ_of_lt hm.1) hm.2
    change (((new connections limit).after schedule n).step (schedule n)).yields[id]? = _ at h
    generalize hp : ((new connections limit).after schedule n).step (schedule n) = p' at hadvances h
    generalize he : schedule n = e at hadvances
    cases hadvances with
    | same yields => exact hearlier (yields ▸ h)
    | submit yields =>
      rw [yields] at h
      by_cases hlt : id < ((new connections limit).after schedule n).yields.length
      · rw [List.getElem?_append_left hlt] at h
        exact hearlier h
      · rw [List.getElem?_append_right (Nat.le_of_not_lt hlt)] at h
        cases List.mem_singleton.mp (List.mem_of_getElem? h)
    | @carryOut w id' x t _ holds pending yields connections =>
      rw [yields] at h
      rcases getElem?_set_eq_some h with ⟨rfl, heq⟩ | ⟨-, hold⟩
      · obtain ⟨rfl, hy⟩ := Prod.mk.inj heq
        refine ⟨n, Nat.lt_succ_self n, w, x, t, he, holds, Option.some.inj hy, ?_⟩
        rw [after, hp, connections]
      · exact hearlier hold
    | outside yields => exact hearlier (yields ▸ h)

/-- An undisturbed job is not turned away. -/
theorem ne_refused_of_calm {connections : List σ} {limit : Option Duration}
    {schedule : Nat → Event σ ω} {id : Nat}
    (hcalm : ∀ n, ((new connections limit).after schedule n).Calm id) {n : Nat} {t : Ticket σ ω}
    (ht : ((new connections limit).after schedule n).tickets[id]? = some t) :
    t.phase ≠ .refused := by
  induction n generalizing t with
  | zero => cases ht
  | succ n ih =>
    have hnew : (new connections limit : Pool σ ω).Reachable := ⟨connections, limit, [], rfl⟩
    have hp := hnew.after schedule n
    cases hold : ((new connections limit).after schedule n).tickets[id]? with
    | none =>
      have hopen : ((new connections limit).after schedule n).closed = false := by
        refine Bool.eq_false_iff.mpr fun hclosed => ?_
        cases (hcalm n).opened.symm.trans (hp.closing hclosed)
      have hnone : ((new connections limit).after schedule n).outline.phases[id]? = none := by
        simp [outline, hold]
      have hphase :
          (((new connections limit).after schedule n).step (schedule n)).outline.phases[id]? =
          some t.phase := by
        change (((new connections limit).after schedule n).step (schedule n)).tickets[id]? =
          some t at ht
        simp [outline, ht]
      rw [(hp.orderly.step_next (schedule n)).fresh hopen hnone hphase]
      exact Phase.noConfusion
    | some t₀ =>
      obtain ⟨t', ht', hmoves⟩ := hp.orderly.step_moves hold (schedule n)
      cases ht'.symm.trans ht
      exact ((hcalm n).undisturbed t₀ hold).moves (hp.sound hold) hmoves (ih hold)

/-- An operation hands out so many rows. -/
theorem Reachable.exists_bounded {p : Pool σ ω} (hp : p.Reachable) {id : Nat}
    {t : Ticket σ ω} {op : BuiltJob σ ω} (ht : p.tickets[id]? = some t) (hbody : t.body = op.body)
    (hbegun : t.phase.hasBegun = true) :
    ∃ total, t.Bounded total := by
  obtain ⟨connections, limit, events, rfl⟩ := hp
  cases op with
  | single job =>
    have h := (new_run_course ht hbody (Ticket.lasting_replies _)).begun hbegun
    refine ⟨t.produced, ⟨fun source hknown => ?_, Nat.le_refl _⟩⟩
    cases h.source.symm.trans hknown
  | stream job =>
    obtain ⟨s, h⟩ := (new_run_course ht hbody (Ticket.lasting_streams _)).begun hbegun
    have hlast : (job wantsAll s).1.toSource.item (job wantsAll s).1.rows.length = none :=
      List.getElem?_eq_none (Nat.le_refl _)
    refine ⟨(job wantsAll s).1.rows.length,
      ⟨fun source hknown => ?_, Nat.le_of_not_lt fun hlt => ?_⟩⟩
    · cases h.known.symm.trans hknown
      exact hlast
    · have hsome := h.items _ hlt
      rw [hlast] at hsome
      cases hsome

/-- In whichever order the steps of the workers, the callers and all others come: what the caller of
an undisturbed job has received in the end, collected up to the first error, is what the operation
answers directly on the connection on which it was carried out, and it leaves that connection the
same. If the worker that took the job goes on time and again, and the caller looks into the channel
time and again, the caller comes to that end. -/
theorem received_eq_direct (connections : List σ) (limit : Option Duration)
    (schedule : Nat → Event σ ω) (id : Nat) (op : BuiltJob σ ω)
    (hcalm : ∀ n, ((new connections limit).after schedule n).Calm id)
    (hop : ∀ n t, ((new connections limit).after schedule n).tickets[id]? = some t →
      t.body = op.body) :
    (∀ n t, ((new connections limit).after schedule n).tickets[id]? = some t → t.finished = true →
      ∃ m < n, ∃ (w : Nat) (x : Worker σ) (s : σ), schedule m = .work w ∧
        ((new connections limit).after schedule m).workers[w]? = some x ∧ x.activity = .busy id ∧
        ((new connections limit).after schedule (m + 1)).connections =
          ((new connections limit).after schedule m).connections.set w s ∧
        ∀ statements,
        op.direct ⟨statements, x.connection⟩ = (drained t.received, ⟨statements, s⟩)) ∧
    ∀ (m w : Nat) (x : Worker σ), ((new connections limit).after schedule m).workers[w]? = some x →
      x.activity = .busy id → Recurs schedule (.work w) → Recurs schedule (.receive id) →
        ∃ n t, ((new connections limit).after schedule n).tickets[id]? = some t ∧
        t.finished = true := by
  have hnew : (new connections limit : Pool σ ω).Reachable := ⟨connections, limit, [], rfl⟩
  constructor
  · intro n t ht hfinished
    have hp := hnew.after schedule n
    have hbegun : t.phase.hasBegun = true := by
      refine Bool.ne_false_iff.mp fun hunbegun => ?_
      rcases ((hp.waits ht hunbegun).told hfinished).1 with hrefused | ⟨a, ha, habandoned⟩
      · exact ne_refused_of_calm hcalm ht hrefused
      · exact ((hcalm n).undisturbed t ht).patient a ha habandoned
    obtain ⟨y, hyield, hreceived⟩ := hp.received_yield ht hbegun hfinished
    rw [hp.truncated (hcalm n).opened ht] at hreceived
    have hyields :
        ((new connections limit).after schedule n).yields[id]? = some (op.body, some y) := by
      simp [yields, ht, hyield, hop n t ht]
    obtain ⟨m, hm, w, x, t', hevent, hholds, rfl, hconnections⟩ := exists_carriedOut hyields
    exact ⟨m, hm, w, x, _, hevent, hholds.worker, hholds.busy, hconnections,
      fun statements => op.direct_eq_drained hreceived⟩
  · intro m w x hx hbusy hwork hreceive
    have hp := hnew.after schedule m
    have hshift :
        ∀ n, (((new connections limit).after schedule m).after (fun k => schedule (m + k)) n) =
        (new connections limit).after schedule (m + n) := fun n => (after_add _ schedule m n).symm
    have hactive :
        ((new connections limit).after schedule m).outline.activities[w]? = some (.busy id) := by
      simp [outline, hx, hbusy]
    obtain ⟨_, t, hholds⟩ := hp.exists_holds hactive
    obtain ⟨job, rfl, hfollows⟩ := hp.exists_follows hholds fun n => hshift n ▸ hcalm (m + n)
    have hstart : (job 0).phase ≠ .refused := ne_refused_of_calm hcalm hholds.job
    obtain ⟨i, hbegun⟩ := hfollows.exists_begun (hwork.shift m) hstart
    have hbody : (job i).body = op.body := hop (m + i) (job i) (hshift i ▸ hfollows.present i)
    obtain ⟨total, hbounded⟩ :=
      (hfollows.reachable i).exists_bounded (hfollows.present i) hbody hbegun
    obtain ⟨n, hfinished⟩ :=
      hfollows.exists_finished (hwork.shift m) (hreceive.shift m) hbegun hbounded
    exact ⟨m + n, job n, hshift n ▸ hfollows.present n, hfinished⟩

/-! ### Pools that nobody disturbs -/

/-- Whether nobody withdraws a job, drops its handle or begins to shut the pool down. -/
def Event.isQuiet : Event σ ω → Bool
  | .cancel _ | .drop _ | .beginClosing => false
  | _ => true

end Pool

namespace Ticket

variable {t : Ticket σ ω}

structure IsPlain (t : Ticket σ ω) : Prop where
  wanted : t.cancelled = false
  kept : t.dropped = false
  unlimited : t.admission = none

theorem IsPlain.undisturbed (h : t.IsPlain) : t.Undisturbed :=
  ⟨h.wanted, h.kept, fun a ha => by cases h.unlimited.symm.trans ha⟩

theorem IsPlain.leaveQueue (h : t.IsPlain) (now : Nat) : (t.leaveQueue now).IsPlain :=
  ⟨h.wanted, h.kept, by rw [Ticket.leaveQueue, h.unlimited]; rfl⟩

theorem IsPlain.refuse (h : t.IsPlain) (e : Error) : (t.refuse e).IsPlain := by
  obtain ⟨channel, heq, -⟩ := t.refuse_frame e
  rw [heq]
  exact { h with }

theorem IsPlain.answer (h : t.IsPlain) (outcome : Outcome ω) : (t.answer outcome).IsPlain := by
  obtain ⟨channel, heq, -⟩ := t.answer_frame outcome
  rw [heq]
  exact { h with }

theorem IsPlain.produce (h : t.IsPlain) {full : Bool}
    (producing : t.phase = .producing full) (closing : Bool) (source : Source ω) :
    (t.produce closing source full).IsPlain := by
  have hproduces := produces producing closing source
  generalize t.produce closing source full = t' at hproduces ⊢
  cases hproduces <;> exact { h with }

theorem IsPlain.receive (h : t.IsPlain) : t.receive.IsPlain := by
  obtain ⟨channel, received, finished, heq⟩ := t.receive_frame
  rw [heq]
  exact { h with }

theorem IsPlain.expire (h : t.IsPlain) (now : Nat) : (t.expire now).IsPlain := by
  rwa [Ticket.expire, h.unlimited]

theorem IsPlain.giveUp (h : t.IsPlain) : t.giveUp.IsPlain := by
  rwa [Ticket.giveUp, h.unlimited]

end Ticket

namespace Pool

structure Quiet (p : Pool σ ω) : Prop where
  unlimited : p.limit = none
  opened : p.closing = false
  jobs : ∀ t ∈ p.tickets, t.IsPlain

theorem quiet_new (connections : List σ) : (new connections none : Pool σ ω).Quiet :=
  ⟨rfl, rfl, fun _ ht => absurd ht List.not_mem_nil⟩

/-- Another state of the one job that a step touches. -/
theorem Quiet.update {p p' : Pool σ ω} (h : p.Quiet) {id : Nat} {f : Ticket σ ω → Ticket σ ω}
    (hlimit : p'.limit = p.limit) (hclosing : p'.closing = p.closing)
    (htickets : p'.tickets = p.tickets.modify id f)
    (hf : ∀ t, p.tickets[id]? = some t → t.IsPlain → (f t).IsPlain) : p'.Quiet := by
  refine ⟨hlimit.trans h.unlimited, hclosing.trans h.opened, fun t ht => ?_⟩
  obtain ⟨i, hi⟩ := List.getElem?_of_mem ht
  rw [htickets, List.getElem?_modify] at hi
  obtain ⟨t₀, ht₀, rfl⟩ := Option.map_eq_some_iff.mp hi
  have hplain := h.jobs t₀ (List.mem_of_getElem? ht₀)
  split
  case isTrue hid => exact hf t₀ (hid ▸ ht₀) hplain
  case isFalse => exact hplain

theorem Quiet.submit {p : Pool σ ω} (h : p.Quiet) (body : Body σ ω) (elapsed : Nat) :
    (p.submit body elapsed).Quiet := by
  have hadmission : p.admission? elapsed = some none := by rw [admission?, h.unlimited]
  have hnew : (Ticket.new body none).IsPlain := ⟨rfl, rfl, rfl⟩
  have hadded : ∀ {t : Ticket σ ω}, t.IsPlain → ∀ t' ∈ p.tickets ++ [t], t'.IsPlain := by
    intro t ht t' ht'
    rcases List.mem_append.mp ht' with hold | hlast
    · exact h.jobs t' hold
    · rwa [List.mem_singleton.mp hlast]
  unfold Pool.submit Pool.enqueue
  rw [hadmission]
  dsimp only
  split
  · exact ⟨h.unlimited, h.opened, hadded ((hnew.leaveQueue p.now).refuse .poolClosed)⟩
  · exact ⟨h.unlimited, h.opened, hadded hnew⟩

theorem Quiet.work {p : Pool σ ω} (h : p.Quiet) (w : Nat) : (p.work w).Quiet := by
  have hacts := p.work_acts w
  generalize p.work w = p' at hacts ⊢
  cases hacts with
  | rest => exact h
  | leave => exact h.update rfl rfl rfl fun t _ ht => ht.leaveQueue p.now
  | refuse => exact h.update rfl rfl rfl fun t _ ht => ht.refuse _
  | beginReply => exact h.update rfl rfl rfl fun t _ ht => { ht with }
  | beginRows => exact h.update rfl rfl rfl fun t _ ht => { ht with }
  | endReply => exact h.update rfl rfl rfl fun t _ ht => { ht with }
  | answer => exact h.update rfl rfl rfl fun t _ ht => ht.answer _
  | send holds producing =>
    refine h.update rfl rfl rfl fun t ht hplain => ?_
    cases holds.job.symm.trans ht
    exact hplain.produce producing ..
  | finish holds producing =>
    refine h.update rfl rfl rfl fun t ht hplain => ?_
    cases holds.job.symm.trans ht
    exact hplain.produce producing ..

theorem Quiet.step {p : Pool σ ω} (h : p.Quiet) {e : Event σ ω} (he : e.isQuiet = true) :
    (p.step e).Quiet := by
  cases e with
  | submit body elapsed => exact h.submit body elapsed
  | cancel => cases he
  | drop => cases he
  | receive => exact h.update rfl rfl rfl fun t _ ht => ht.receive
  | expire => exact h.update rfl rfl rfl fun t _ ht => ht.expire p.now
  | giveUp => exact h.update rfl rfl rfl fun t _ ht => ht.giveUp
  | take w =>
    change (p.take w).Quiet
    have htakes := p.take_takes w
    generalize p.take w = p' at htakes ⊢
    cases htakes with
    | rest => exact h
    | job => exact h.update rfl rfl rfl fun t _ ht => { ht with }
    | stop => exact { h with }
  | work w => exact h.work w
  | beginClosing => cases he
  | closeQueue =>
    change p.closeQueue.Quiet
    unfold closeQueue
    split
    · exact { h with }
    · exact h
  | tick => exact { h with }
  | outside => exact { h with }

/-- Without a limit for waiting, jobs are disturbed only by those who withdraw them, drop their
handles or shut the pool down. -/
theorem calm_of_isQuiet (connections : List σ) {schedule : Nat → Event σ ω}
    (hquiet : ∀ n, (schedule n).isQuiet = true) (n id : Nat) :
    ((new connections none).after schedule n).Calm id := by
  have h : ((new connections none).after schedule n).Quiet := by
    induction n with
    | zero => exact quiet_new connections
    | succ n ih => exact ih.step (hquiet n)
  exact ⟨h.opened, fun t ht => (h.jobs t (List.mem_of_getElem? ht)).undisturbed⟩

/-- A job stays what it was submitted as. -/
theorem Reachable.after_body {p : Pool σ ω} (hp : p.Reachable)
    (schedule : Nat → Event σ ω) {id : Nat} {t : Ticket σ ω}
    (ht : p.tickets[id]? = some t) (n : Nat) :
    ∃ t', (p.after schedule n).tickets[id]? = some t' ∧ t'.body = t.body := by
  induction n with
  | zero => exact ⟨t, ht, rfl⟩
  | succ n ih =>
    obtain ⟨t₁, ht₁, hbody⟩ := ih
    obtain ⟨t₂, ht₂, hmoves⟩ := (hp.after schedule n).orderly.step_moves ht₁ (schedule n)
    exact ⟨t₂, ht₂, hmoves.body.trans hbody⟩

/-- An operation that hands out what a counter shows and the number after that. -/
def countingRows : BuiltJob Nat Nat := .stream fun _ s => (⟨[s, s + 1], .finished⟩, s + 2)

/-- The operation is submitted, and from then on its worker and its caller take turns. -/
def takingTurns : Nat → Event Nat Nat
  | 0 => .submit countingRows.body 0
  | 1 => .take 0
  | n + 2 => if n % 2 = 0 then .work 0 else .receive 0

theorem received_eq_direct_countingRows :
    ∃ (n : Nat) (t : Ticket Nat Nat) (x : Worker Nat)
      (s : Nat), ((new [3] none).after takingTurns n).tickets[0]? = some t ∧ t.finished = true ∧
      ∀ statements, countingRows.direct ⟨statements, x.connection⟩ =
        (drained t.received, ⟨statements, s⟩) := by
  have hquiet : ∀ n, (takingTurns n).isQuiet = true := by
    intro n
    unfold takingTurns
    split
    · rfl
    · rfl
    · split <;> rfl
  have hbody : ∀ n t, ((new [3] none).after takingTurns n).tickets[0]? = some t →
      t.body = countingRows.body := by
    intro n t ht
    cases n with
    | zero => cases ht
    | succ n =>
      have hfirst :
          ((new [3] none).after takingTurns 1).tickets[0]? = some (.new countingRows.body none) :=
            rfl
      have hp : ((new [3] none).after takingTurns 1).Reachable := ⟨[3], none, [takingTurns 0], rfl⟩
      obtain ⟨t', ht', hsame⟩ := hp.after_body (fun k => takingTurns (1 + k)) hfirst n
      rw [← after_add, Nat.add_comm] at ht'
      cases ht.symm.trans ht'
      exact hsame
  obtain ⟨hdirect, hends⟩ := received_eq_direct [3] none takingTurns 0 countingRows
    (fun n => calm_of_isQuiet [3] hquiet n 0) hbody
  have hwork : Recurs takingTurns (.work 0) := fun n => ⟨2 * n + 2, by omega, by simp [takingTurns]⟩
  have hreceive : Recurs takingTurns (.receive 0) :=
    fun n => ⟨2 * n + 1 + 2, by omega, by simp [takingTurns, Nat.add_mod]⟩
  obtain ⟨n, t, ht, hfinished⟩ := hends 2 0 ⟨3, .busy 0⟩ rfl rfl hwork hreceive
  obtain ⟨m, -, w, x, s, -, -, -, -, hresult⟩ := hdirect n t ht hfinished
  exact ⟨n, t, x, s, ht, hfinished, hresult⟩

end Pool

end TypedTables
