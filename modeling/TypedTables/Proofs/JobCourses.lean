import TypedTables.Proofs.BegunJobs

/-!
# The course of a job

A job waits until it is begun, and after that it does what its body does. So to know what holds of
the jobs with a body at all times, it is enough to know what holds when such a job is begun, and
that the steps that a begun job can make keep it.
-/
namespace TypedTables

variable {σ ω : Type}

namespace Ticket

variable {t t' : Ticket σ ω}

inductive Goes (t : Ticket σ ω) : Ticket σ ω → Prop where
  | stay : Goes t t
  | cancel : Goes t t.cancel
  | drop : Goes t t.drop
  | receive : Goes t t.receive
  | settle (admission : Option Admission) : Goes t { t with admission }
  | endReply {run : σ → Outcome ω × σ} (running : t.phase = .running)
      (reply : t.body = .reply run) (s : σ) :
    Goes t (t.endReply (run s).1)
  | answer {outcome : Outcome ω} (ended : t.phase = .ended) (known : t.outcome = some outcome) :
    Goes t (t.answer outcome)
  | produce {t' : Ticket σ ω} {full : Bool} {source : Source ω}
      (producing : t.phase = .producing full)
    (known : t.source = some source) (produces : t.Produces source t') : Goes t t'

theorem Moves.goes (hm : t.Moves t') (hs : t.Sound) (hbegun : t.phase.hasBegun = true) :
    t.Goes t' := by
  have hunless : ∀ {phase : Phase}, t.phase = phase → phase.hasBegun = true :=
    fun hphase => hphase ▸ hbegun
  cases hm with
  | stay => exact .stay
  | cancel => exact .cancel
  | drop => exact .drop
  | receive => exact .receive
  | expire now =>
    rcases t.expire_frame now with heq | heq <;> rw [heq]
    · exact .stay
    · exact .settle _
  | giveUp =>
    rw [hs.giveUp hbegun]
    exact .stay
  | take waiting => cases hunless waiting
  | leaveQueue taken => cases hunless taken
  | refuse settled => cases hunless settled
  | beginReply settled => cases hunless settled
  | beginRows settled => cases hunless settled
  | endReply running reply s => exact .endReply running reply s
  | answer ended known => exact .answer ended known
  | produce producing known closing => exact .produce producing known (produces producing closing _)

/-- A job that is begun stays begun. -/
theorem Goes.hasBegun (hg : t.Goes t') (hbegun : t.phase.hasBegun = true) :
    t'.phase.hasBegun = true := by
  cases hg with
  | stay => exact hbegun
  | cancel => exact hbegun
  | drop => exact hbegun
  | receive => exact t.phase_receive.symm ▸ hbegun
  | settle => exact hbegun
  | endReply => rfl
  | answer => rfl
  | produce _ _ produces => cases produces <;> rfl

/-- What holds of a begun job with this body: it holds when the job is begun, and every step keeps
it. -/
structure Lasting (body : Body σ ω) (B : Ticket σ ω → Prop) : Prop where
  begins : ∀ {t t' : Ticket σ ω}, t.body = body → t.Waits → t.finished = false →
    t.phase ≠ .refused →
    t.Begins t' → B t'
  goes : ∀ {t t' : Ticket σ ω}, t.body = body → t.phase.hasBegun = true → B t → t.Goes t' → B t'

structure Course (body : Body σ ω) (B : Ticket σ ω → Prop) (t : Ticket σ ω) : Prop where
  body : t.body = body
  sound : t.Sound
  waits : t.phase.hasBegun = false → t.Waits
  begun : t.phase.hasBegun = true → B t

variable {body : Body σ ω} {B : Ticket σ ω → Prop}

theorem Fresh.course (h : Fresh t) (hbody : t.body = body) : t.Course body B :=
  ⟨hbody, h.sound, fun _ => h.waits, by cases h <;> exact nofun⟩

theorem Course.moves (h : t.Course body B) (hB : Lasting body B) (hm : t.Moves t') :
    t'.Course body B := by
  have hsound := h.sound.moves hm
  cases hbegun : t.phase.hasBegun with
  | true =>
    have hgoes := hm.goes h.sound hbegun
    have hbegun' := hgoes.hasBegun hbegun
    have hkept := hB.goes h.body hbegun (h.begun hbegun) hgoes
    refine ⟨hm.body.trans h.body, hsound, ?_, fun _ => hkept⟩
    intro hunbegun'
    cases hbegun'.symm.trans hunbegun'
  | false =>
    have hwaits := h.waits hbegun
    refine ⟨hm.body.trans h.body, hsound, hwaits.moves h.sound hm, fun hbegun' => ?_⟩
    obtain ⟨inTime, hphase, hfree, hbegins⟩ := hm.begins hbegun hbegun'
    have hfinished := hwaits.not_finished h.sound hphase hfree
    exact hB.begins h.body hwaits hfinished (hphase ▸ Phase.noConfusion) hbegins

theorem Course.becomes (h : t.Course body B) (hB : Lasting body B) (hb : t.Becomes t') :
    t'.Course body B := by
  induction hb with
  | refl => exact h
  | tail _ hm ih => exact ih.moves hB hm

end Ticket

/-- Every job of a pool that started without jobs takes its course. -/
theorem Pool.new_run_course {connections : List σ} {limit : Option Duration}
    {events : List (Event σ ω)} {id : Nat} {t : Ticket σ ω} {body : Body σ ω}
    {B : Ticket σ ω → Prop} (ht : ((new connections limit).run events).tickets[id]? = some t)
    (hbody : t.body = body) (hB : Ticket.Lasting body B) : t.Course body B := by
  obtain ⟨t₀, hfresh, hbecomes⟩ := new_run_origin ht
  exact (hfresh.course (hbecomes.body.symm.trans hbody)).becomes hB hbecomes

end TypedTables
