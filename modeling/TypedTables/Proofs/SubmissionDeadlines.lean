import TypedTables.Proofs.ConfigTexts
import TypedTables.Proofs.DrainedPools

/-!
# Deadlines of submissions

The deadline of a job is the moment of its submission and the limit of the pool after it. Where no
clock can show it, the submission fails and the pool stays as it was. The deadline that a job gets
is settled once: no step of a worker or of a caller changes it.
-/
namespace TypedTables

/-! ### Limits -/

namespace Admission

variable {now : Nat} {limit : Duration}

theorem new?_of_shown (h : now + limit.toNanos < endOfTime) :
    new? now limit = some ⟨.queued, now + limit.toNanos, limit⟩ := if_pos h

theorem new?_eq_none_iff : new? now limit = none ↔ endOfTime ≤ now + limit.toNanos := by
  rw [new?, ite_eq_right_iff, imp_iff_not nofun, Nat.not_lt]

/-- A limit whose seconds do not fit a clock fails at every moment. -/
theorem new?_eq_none_of_long (h : 2 ^ 63 ≤ limit.seconds.toNat) (now : Nat) :
    new? now limit = none := by
  rw [new?_eq_none_iff, endOfTime, Duration.toNanos]
  omega

/-- A limit that fails at the beginning of time has such seconds. -/
theorem new?_eq_none_always_iff :
    (∀ now, new? now limit = none) ↔ 2 ^ 63 ≤ limit.seconds.toNat := by
  refine ⟨fun h => ?_, new?_eq_none_of_long⟩
  have hnanos := limit.nanos_lt
  have hzero := new?_eq_none_iff.mp (h 0)
  rw [endOfTime, Duration.toNanos] at hzero
  omega

/-- Every other limit than zero fails at the end of time. -/
theorem new?_ne_none_always_iff : (∀ now < endOfTime, new? now limit ≠ none) ↔
    limit.toNanos = 0 := by
  simp only [ne_eq, new?_eq_none_iff, Nat.not_le]
  constructor
  · intro h
    have hlast := h (endOfTime - 1) (by decide)
    rw [endOfTime] at hlast
    omega
  · intro h now hnow
    rwa [h, Nat.add_zero]

end Admission

def Duration.longest : Duration := ⟨UInt64.ofNat (2 ^ 64 - 1), 999999999, by decide⟩

/-- A limit of whole milliseconds ends before `2 ^ 64` of them have passed. -/
theorem Duration.Whole.toNanos_lt {d : Duration} (h : d.Whole) : d.toNanos < 2 ^ 64 * 1000000 := by
  have htoNanos : d.toNanos = d.toMillis * 1000000 := by
    rw [← Duration.toNanos_ofMillis d.toMillis_lt]
    exact congrArg Duration.toNanos h.symm
  have hmillis := d.toMillis_lt
  omega

/-- A limit that is read from a text fails only within the last `2 ^ 64` milliseconds of a clock. -/
theorem PoolOptions.shown_of_read {text : String} {o : PoolOptions}
    (h : Json.parseAs shape.read text = .ok o) {limit : Duration}
    (hlimit : limit ∈ o.acquireTimeout) {now : Nat}
    (hnow : now + 2 ^ 64 * 1000000 ≤ Admission.endOfTime) : Admission.new? now limit ≠ none := by
  have hwhole : limit.Whole := yields_whole.of_parseAs h limit hlimit
  have hlt := hwhole.toNanos_lt
  rw [ne_eq, Admission.new?_eq_none_iff]
  omega

variable {σ ω : Type}

/-! ### Jobs -/

namespace Ticket

variable {t t' : Ticket σ ω}

/-- Until when a job may wait, and how long this is. -/
def term (t : Ticket σ ω) : Option (Nat × Duration) :=
  t.admission.map fun a => (a.deadline, a.limit)

theorem term_leaveQueue (t : Ticket σ ω) (now : Nat) : (t.leaveQueue now).term = t.term := by
  rw [term, leaveQueue, Option.map_map]
  refine Option.map_congr fun a _ => ?_
  rw [Function.comp_apply, Admission.leaveQueue]
  split <;> rfl

theorem term_expire (t : Ticket σ ω) (now : Nat) : (t.expire now).term = t.term := by
  obtain h | h := t.expire_frame now
  · rw [h]
  · rw [h, term, Option.map_map]
    refine Option.map_congr fun a _ => ?_
    rw [Function.comp_apply, Admission.settle]
    split <;> rfl

theorem term_refuse (t : Ticket σ ω) (e : Error) : (t.refuse e).term = t.term := by
  obtain ⟨channel, h, -⟩ := t.refuse_frame e
  rw [h]
  rfl

/-- Nothing that is done to a job changes its term. -/
theorem Moves.term (h : t.Moves t') : t'.term = t.term := by
  cases h with
  | receive =>
    obtain ⟨channel, received, finished, h⟩ := t.receive_frame
    rw [h]
    rfl
  | expire now => exact t.term_expire now
  | giveUp =>
    obtain ⟨cancelled, received, finished, h⟩ := t.giveUp_frame
    rw [h]
    rfl
  | leaveQueue _ now => exact t.term_leaveQueue now
  | refuse => exact t.term_refuse _
  | answer =>
    obtain ⟨channel, h, -⟩ := t.answer_frame _
    rw [h]
    rfl
  | @produce full source producing _ closing =>
    have hproduces := produces producing closing source
    generalize t.produce closing source full = t' at hproduces ⊢
    cases hproduces <;> rfl
  | _ => rfl

end Ticket

/-! ### Pools -/

namespace Pool

open Admission (endOfTime)

variable {p p' : Pool σ ω} {limit : Option Duration}

inductive Term (now : Nat) : Option Duration → Option (Nat × Duration) → Prop where
  | unlimited : Term now none none
  | limited {moment : Nat} {limit : Duration} (passed : moment ≤ now)
    (shown : moment + limit.toNanos < endOfTime) :
    Term now (some limit) (some (moment + limit.toNanos, limit))

theorem Term.later {now now' : Nat} {term : Option (Nat × Duration)} (h : Term now limit term)
    (hnow : now ≤ now') :
    Term now' limit term := by
  cases h with
  | unlimited => exact .unlimited
  | limited passed shown => exact .limited (passed.trans hnow) shown

/-- A submission fails if there is a limit whose end no clock can show. -/
theorem admission?_eq_none_iff {elapsed : Nat} :
    p.admission? elapsed = none ↔ ∃ l ∈ p.limit, endOfTime ≤ p.now - elapsed + l.toNanos := by
  rw [admission?]
  cases p.limit with
  | none => simp
  | some l => simp [Admission.new?_eq_none_iff]

theorem submit_of_admission?_eq_none {elapsed : Nat}
    (h : p.admission? elapsed = none) (body : Body σ ω) :
    p.submit body elapsed = p := by
  rw [submit, h]

/-- The term of an admission is computed from the moment of the submission. -/
theorem term_of_admission? {elapsed : Nat} {admission : Option Admission}
    (h : p.admission? elapsed = some admission) (body : Body σ ω) :
    (Ticket.new body admission).term = p.limit.map fun l => (p.now - elapsed + l.toNanos, l) := by
  rw [admission?] at h
  cases hlimit : p.limit with
  | none =>
    rw [hlimit] at h
    cases h
    rfl
  | some l =>
    rw [hlimit] at h
    obtain ⟨a, ha, rfl⟩ := Option.map_eq_some_iff.mp h
    have hshown : p.now - elapsed + l.toNanos < endOfTime := by
      by_contra hlate
      exact absurd (Admission.new?_eq_none_iff.mpr (Nat.not_lt.mp hlate)) (by simp [ha])
    rw [Admission.new?_of_shown hshown] at ha
    cases ha
    rfl

/-- A submission that does not fail adds a job with this term, whether the queue is open or
closed. -/
theorem submit_term {elapsed : Nat} (h : p.admission? elapsed ≠ none) (body : Body σ ω) :
    ∃ t, (p.submit body elapsed).tickets = p.tickets ++ [t] ∧ t.body = body ∧
      t.term = p.limit.map fun l => (p.now - elapsed + l.toNanos, l) := by
  obtain ⟨admission, hadmission⟩ := Option.ne_none_iff_exists'.mp h
  have hterm := term_of_admission? hadmission body
  obtain ⟨-, -, hsubmit⟩ | ⟨-, -, hsubmit⟩ := submit_cases hadmission body
  · exact ⟨_, congrArg tickets hsubmit, rfl, hterm⟩
  · refine ⟨_, congrArg tickets hsubmit, ?_, ?_⟩
    · obtain ⟨channel, hrefused, -⟩ :=
        ((Ticket.new body admission).leaveQueue p.now).refuse_frame .poolClosed
      rw [hrefused]
      rfl
    · rw [Ticket.term_refuse, Ticket.term_leaveQueue, hterm]

/-- A submission that does not fail sets a term of now. -/
theorem term_of_now {elapsed : Nat} (h : p.admission? elapsed ≠ none) :
    Term p.now p.limit (p.limit.map fun l => (p.now - elapsed + l.toNanos, l)) := by
  rw [ne_eq, admission?_eq_none_iff] at h
  cases hlimit : p.limit with
  | none => exact .unlimited
  | some l => exact .limited (Nat.sub_le _ _) (Nat.not_le.mp fun hlate => h ⟨l, hlimit, hlate⟩)

/-- A change of one job that keeps its term keeps all of them. -/
theorem mem_modify {id : Nat} {f : Ticket σ ω → Ticket σ ω} {t' : Ticket σ ω}
    (hf : ∀ t, p.tickets[id]? = some t → (f t).term = t.term) (ht' : t' ∈ p.tickets.modify id f) :
    ∃ t ∈ p.tickets, t'.term = t.term := by
  obtain ⟨i, hi⟩ := List.mem_iff_getElem?.mp ht'
  rw [List.getElem?_modify] at hi
  obtain ⟨t, ht, rfl⟩ := Option.map_eq_some_iff.mp hi
  refine ⟨t, List.mem_of_getElem? ht, ?_⟩
  split
  next hid => exact hf t (hid ▸ ht)
  next => rfl

/-- A step keeps the limit, and the clock does not go back. -/
theorem step_clock (p : Pool σ ω) (e : Event σ ω) :
    (p.step e).limit = p.limit ∧ p.now ≤ (p.step e).now := by
  cases e with
  | submit body elapsed =>
    rw [step, submit]
    split
    · exact ⟨rfl, Nat.le_refl _⟩
    · rw [enqueue]
      split <;> exact ⟨rfl, Nat.le_refl _⟩
  | take w =>
    rw [step, take]
    split <;> exact ⟨rfl, Nat.le_refl _⟩
  | work w =>
    rw [step, work]
    unfold beginOrRefuse start runBody sendResult sendRow
    (repeat' split) <;> exact ⟨rfl, Nat.le_refl _⟩
  | closeQueue =>
    rw [step, closeQueue]
    split <;> exact ⟨rfl, Nat.le_refl _⟩
  | tick elapsed => exact ⟨rfl, Nat.le_add_right _ _⟩
  | _ => exact ⟨rfl, Nat.le_refl _⟩

/-- After a step each job has the term that it had, unless it is submitted now. -/
theorem step_terms (p : Pool σ ω) (e : Event σ ω) {t' : Ticket σ ω}
    (ht' : t' ∈ (p.step e).tickets) : (∃ t ∈ p.tickets, t'.term = t.term) ∨
    Term p.now p.limit t'.term := by
  cases e with
  | submit body elapsed =>
    by_cases hfails : p.admission? elapsed = none
    · rw [step, submit_of_admission?_eq_none hfails] at ht'
      exact .inl ⟨t', ht', rfl⟩
    · obtain ⟨t, htickets, -, hterm⟩ := submit_term hfails body
      rw [step, htickets, List.mem_append, List.mem_singleton] at ht'
      rcases ht' with hold | rfl
      · exact .inl ⟨t', hold, rfl⟩
      · exact .inr (hterm ▸ term_of_now hfails)
  | cancel id => exact .inl (mem_modify (fun t _ => (Ticket.Moves.cancel t).term) ht')
  | drop id => exact .inl (mem_modify (fun t _ => (Ticket.Moves.drop t).term) ht')
  | receive id => exact .inl (mem_modify (fun t _ => (Ticket.Moves.receive t).term) ht')
  | expire id => exact .inl (mem_modify (fun t _ => t.term_expire p.now) ht')
  | giveUp id => exact .inl (mem_modify (fun t _ => (Ticket.Moves.giveUp t).term) ht')
  | take w =>
    rw [step, take] at ht'
    split at ht'
    · exact .inl (mem_modify (fun t _ => show t.take.term = t.term from rfl) ht')
    · exact .inl ⟨t', ht', rfl⟩
    · exact .inl ⟨t', ht', rfl⟩
  | work w =>
    cases p.work_works w with
    | rest same => exact .inl ⟨t', same ▸ ht', rfl⟩
    | move _ _ job _ _ moves changed =>
      refine .inl (mem_modify (fun t ht => ?_) (changed ▸ ht'))
      obtain rfl := Option.some.inj (job.symm.trans ht)
      exact moves.term
  | closeQueue =>
    rw [step, closeQueue] at ht'
    split at ht' <;> exact .inl ⟨t', ht', rfl⟩
  | _ => exact .inl ⟨t', ht', rfl⟩

structure Scheduled (limit : Option Duration) (p : Pool σ ω) : Prop where
  limit_eq : p.limit = limit
  terms : ∀ t ∈ p.tickets, Term p.now limit t.term

theorem scheduled_new (connections : List σ) (limit : Option Duration) :
    (new connections limit : Pool σ ω).Scheduled limit :=
  ⟨rfl, fun _ ht => absurd ht List.not_mem_nil⟩

theorem Scheduled.step (h : p.Scheduled limit) (e : Event σ ω) : (p.step e).Scheduled limit := by
  obtain ⟨hlimit, hnow⟩ := p.step_clock e
  refine ⟨hlimit.trans h.limit_eq, fun t' ht' => ?_⟩
  obtain ⟨t, ht, hterm⟩ | hnew := p.step_terms e ht'
  · exact (hterm ▸ h.terms t ht).later hnow
  · exact (h.limit_eq ▸ hnew).later hnow

theorem Scheduled.run (h : p.Scheduled limit) (events : List (Event σ ω)) :
    (p.run events).Scheduled limit :=
  run_keeps (fun e h => h.step e) h events

/-- Under a limit whose seconds do not fit a clock there is no job. -/
theorem Scheduled.tickets_eq_nil {l : Duration} (h : p.Scheduled (some l))
    (hlong : 2 ^ 63 ≤ l.seconds.toNat) :
    p.tickets = [] := by
  refine List.eq_nil_iff_forall_not_mem.mpr fun t ht => ?_
  have hterm := h.terms t ht
  generalize t.term = term at hterm
  cases hterm with
  | @limited moment _ _ shown =>
    have hlate := Admission.new?_eq_none_iff.mp (Admission.new?_eq_none_of_long hlong moment)
    exact absurd shown (Nat.not_lt.mpr hlate)

structure Submits (p : Pool σ ω) (elapsed : Nat) : Prop where
  fails_iff : p.admission? elapsed = none ↔ ∃ l ∈ p.limit, endOfTime ≤ p.now - elapsed + l.toNanos
  failed : p.admission? elapsed = none → ∀ body, p.submit body elapsed = p
  added : p.admission? elapsed ≠ none → ∀ body, ∃ t,
    (p.submit body elapsed).tickets = p.tickets ++ [t] ∧
    t.body = body ∧ t.term = p.limit.map fun l => (p.now - elapsed + l.toNanos, l)

theorem submits (p : Pool σ ω) (elapsed : Nat) : p.Submits elapsed :=
  ⟨admission?_eq_none_iff, submit_of_admission?_eq_none, submit_term⟩

/-- After every run of a pool, every job, whether it has one result or produces rows, has to be
taken by its moment of submission and the limit after it, which a clock can show. The next
submission fails exactly if no clock can show its deadline, and then leaves the pool as it is. A
limit fails at every moment exactly if its seconds do not fit sixty-three bits: under such a limit
no job is ever submitted. Every limit but zero fails towards the end of time, and a limit that is
read from a text only within the last `2 ^ 64` milliseconds. -/
theorem submission_deadlines :
    (∀ (connections : List σ) (limit : Option Duration) (events : List (Event σ ω)),
      ((new connections limit).run events).Scheduled limit ∧
      (∀ elapsed, ((new connections limit).run events).Submits elapsed) ∧
      ∀ l ∈ limit, 2 ^ 63 ≤ l.seconds.toNat → ((new connections limit).run events).tickets = [] ∧
        ∀ elapsed, ((new connections limit).run events).admission? elapsed = none) ∧
    (∀ l : Duration, ((∀ now, Admission.new? now l = none) ↔ 2 ^ 63 ≤ l.seconds.toNat) ∧
      ((∀ now < endOfTime, Admission.new? now l ≠ none) ↔ l.toNanos = 0)) ∧
    ∀ text o, Json.parseAs PoolOptions.shape.read text = .ok o → ∀ l ∈ o.acquireTimeout,
      ∀ now, now + 2 ^ 64 * 1000000 ≤ endOfTime → Admission.new? now l ≠ none := by
  refine ⟨fun connections limit events => ?_,
    fun l => ⟨Admission.new?_eq_none_always_iff, Admission.new?_ne_none_always_iff⟩,
    fun text o h l hl now hnow => PoolOptions.shown_of_read h hl hnow⟩
  have hscheduled := (scheduled_new (ω := ω) connections limit).run events
  refine ⟨hscheduled, submits _, ?_⟩
  rintro l rfl hlong
  refine ⟨hscheduled.tickets_eq_nil hlong, fun elapsed => ?_⟩
  rw [admission?_eq_none_iff, hscheduled.limit_eq]
  exact ⟨l, rfl, Admission.new?_eq_none_iff.mp (Admission.new?_eq_none_of_long hlong _)⟩

/-- The longest limit can be asked for, and neither a job with one result nor one that produces rows
can be submitted under it. -/
theorem longest_limit_overflows :
    let options := { PoolOptions.of 1 with acquireTimeout := some Duration.longest }
    let p : Pool Unit Int64 := new [()] options.acquireTimeout
    p.admission? 0 = none ∧ p.submit (.reply fun s => (.returned (.ok 7), s)) 0 = p ∧
      p.submit (.rows fun s => (⟨fun _ => some 7, .returned (.ok ())⟩, s)) 0 = p := by
  intro options p
  have hfails : p.admission? 0 = none :=
    admission?_eq_none_iff.mpr ⟨Duration.longest, rfl, by decide +kernel⟩
  exact ⟨hfails, submit_of_admission?_eq_none hfails _, submit_of_admission?_eq_none hfails _⟩

end Pool

end TypedTables
