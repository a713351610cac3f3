import TypedTables.Pool.Schedule
import TypedTables.Proofs.BegunJobs

/-!
# Callers that wait

Whatever a caller does while it waits for the next thing from a job is a sequence of steps of the
pool. A caller that knows that nothing more comes receives nothing any more, in whichever way it
waits.
-/
namespace TypedTables

variable {σ ω : Type}

namespace Pool

/-- A pool goes on to be like this. -/
def Continues (p p' : Pool σ ω) : Prop := ∃ events, p' = p.run events

theorem Continues.refl (p : Pool σ ω) : p.Continues p := ⟨[], rfl⟩

theorem Continues.step {p p' : Pool σ ω} (h : p.Continues p') (e : Event σ ω) :
    p.Continues (p'.step e) := by
  obtain ⟨events, rfl⟩ := h
  exact ⟨events ++ [e], by rw [run_append, run_cons, run_nil]⟩

theorem Continues.trans {p p' p'' : Pool σ ω} (h : p.Continues p') (h' : p'.Continues p'') :
    p.Continues p'' := by
  obtain ⟨events, rfl⟩ := h
  obtain ⟨later, rfl⟩ := h'
  exact ⟨events ++ later, (run_append p events later).symm⟩

theorem Orderly.continues {p p' : Pool σ ω} (hp : p.Orderly) (h : p.Continues p') : p'.Orderly := by
  obtain ⟨events, rfl⟩ := h
  exact hp.run events

theorem advanceBy_continues (held : List Nat) (n : Nat) (p : Pool σ ω) :
    p.Continues (advanceBy held n p) := by
  induction n generalizing p with
  | zero => exact .refl p
  | succ n ih =>
    unfold advanceBy
    split
    next event _ => exact (((Continues.refl p).step (.tick 1)).step event).trans (ih _)
    next => exact .refl p

theorem advance_continues (p : Pool σ ω) (held : List Nat) : p.Continues (p.advance held) :=
  advanceBy_continues held _ p

theorem untilDeadline_continues (p : Pool σ ω) (id : Nat) : p.Continues (p.untilDeadline id) := by
  unfold untilDeadline
  split
  next a _ =>
    split
    · exact (Continues.refl p).step (.tick (a.deadline - p.now))
    · exact .refl p
  next => exact .refl p

theorem awaitAdmission_continues (p : Pool σ ω) (id : Nat) : p.Continues (p.awaitAdmission id) :=
  ((p.untilDeadline_continues id).step (.expire id)).step (.giveUp id)

/-- What a caller does after the workers have gone on, as it waits for the next thing. -/
theorem next_continues (p : Pool σ ω) (patience : Patience) (held : List Nat) (id : Nat) :
    (p.advance held).Continues (p.next patience held id).2 := by
  have hbranch : ∀ {c : Prop} [Decidable c] (q : Pool σ ω),
      q.Continues (if c then q.awaitAdmission id else q) := by
    intro c _ q
    split
    · exact q.awaitAdmission_continues id
    · exact .refl q
  exact ((hbranch _).step (.receive id)).trans (hbranch _)

/-- What a wait answers is what the caller received first of all that it had not received before. -/
theorem next_fst (p : Pool σ ω) (patience : Patience) (held : List Nat) (id : Nat) :
    (p.next patience held id).1 =
      (p.next patience held id).2.news? id ((p.advance held).receivedCount id) := rfl

end Pool

namespace Ticket

variable {t t' : Ticket σ ω}

/-- A caller that knows that nothing more comes receives nothing more. -/
theorem Moves.finished (hm : t.Moves t') (hf : t.finished = true) :
    t'.finished = true ∧ t'.received = t.received := by
  have hheld : t.isHeld = false := isHeld_eq_false.mpr (.inl hf)
  cases hm with
  | receive =>
    rw [receive_of_not_held hheld]
    exact ⟨hf, rfl⟩
  | expire now =>
    rcases t.expire_frame now with heq | heq <;>
    · rw [heq]
      exact ⟨hf, rfl⟩
  | giveUp =>
    rcases t.giveUp_cases with heq | ⟨hheld', -⟩
    · rw [heq]
      exact ⟨hf, rfl⟩
    · rw [hheld] at hheld'
      cases hheld'
  | @refuse _ e =>
    obtain ⟨channel, heq, -⟩ := t.refuse_frame e
    rw [heq]
    exact ⟨hf, rfl⟩
  | @answer outcome =>
    obtain ⟨channel, heq, -⟩ := t.answer_frame outcome
    rw [heq]
    exact ⟨hf, rfl⟩
  | @produce full source producing _ closing =>
    have hproduces := produces producing closing source
    generalize t.produce closing source full = t' at hproduces ⊢
    cases hproduces <;> exact ⟨hf, rfl⟩
  | _ => exact ⟨hf, rfl⟩

theorem Becomes.finished (hb : t.Becomes t') (hf : t.finished = true) :
    t'.finished = true ∧ t'.received = t.received := by
  induction hb with
  | refl => exact ⟨hf, rfl⟩
  | tail _ hm ih =>
    obtain ⟨hf', hreceived⟩ := hm.finished ih.1
    exact ⟨hf', hreceived.trans ih.2⟩

end Ticket

namespace Pool

/-- Waiting for more after the end is in vain. -/
theorem Orderly.next_finished {p : Pool σ ω} (hp : p.Orderly) {id : Nat} {t : Ticket σ ω}
    (ht : p.tickets[id]? = some t) (hf : t.finished = true)
    (patience : Patience) (held : List Nat) : (p.next patience held id).1 = none := by
  obtain ⟨events, hadvance⟩ := p.advance_continues held
  obtain ⟨later, hnext⟩ := p.next_continues patience held id
  obtain ⟨t₁, ht₁, hbecomes₁⟩ := hp.run_becomes ht events
  obtain ⟨t₂, ht₂, hbecomes₂⟩ := (hp.run events).run_becomes ht₁ later
  obtain ⟨hf₁, -⟩ := hbecomes₁.finished hf
  obtain ⟨-, hreceived⟩ := hbecomes₂.finished hf₁
  rw [← hadvance] at ht₁ ht₂
  rw [← hnext] at ht₂
  rw [next_fst, news?, receivedCount, ht₁, ht₂]
  change t₂.received[t₁.received.length]? = none
  rw [hreceived]
  exact List.getElem?_eq_none (Nat.le_refl _)

/-- A wait that tells its caller that nothing more comes is the last one that answers. -/
theorem Orderly.next_after_end {p : Pool σ ω} (hp : p.Orderly)
    {patience : Patience} {held : List Nat} {id : Nat} {t : Ticket σ ω}
    (ht : (p.next patience held id).2.tickets[id]? = some t) (hf : t.finished = true)
    (rest : List (Event σ ω)) (patience' : Patience) (held' : List Nat) :
    (((p.next patience held id).2.run rest).next patience' held' id).1 = none := by
  have hnext :=
    (hp.continues (p.advance_continues held)).continues (p.next_continues patience held id)
  obtain ⟨u, hu, hbecomes⟩ := hnext.run_becomes ht rest
  exact (hnext.run rest).next_finished hu (hbecomes.finished hf).1 patience' held'

end Pool

end TypedTables
