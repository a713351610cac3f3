import TypedTables.Shared

/-!
# Errands to a shared state

Any number of errands are under way at once. Each probes the state for what its key stands for,
makes it if it is not there, and stores what it made. Every one of these steps is atomic, and
between them other errands take theirs. What follows does not depend on what is probed, made and
stored: an errand moves in its own turns only, three of them are enough, and an errand that nothing
comes between is served at one go.
-/
namespace TypedTables

inductive ErrandStage (β γ : Type) where
  | probing
  | missing
  | holding (made : β)
  | answered (answer : γ)

structure Errand (κ β γ : Type) where
  key : κ
  stage : ErrandStage β γ

/-- What errands do to a state. If nothing can be made there is an answer at once. -/
structure Scheme (κ σ β γ : Type) where
  probe : κ → σ → Option γ
  make : κ → σ → Except γ β × σ
  store : κ → β → σ → γ × σ

variable {κ σ β γ : Type} {S : Scheme κ σ β γ}

/-- Serves a key at one go. -/
def Scheme.serve (S : Scheme κ σ β γ) (key : κ) (s : σ) : γ × σ :=
  match S.probe key s with
  | some answer => (answer, s)
  | none =>
    match S.make key s with
    | (.error answer, s) => (answer, s)
    | (.ok made, s) => S.store key made s

/-! ### One errand -/

namespace Errand

variable {e : Errand κ β γ} {key : κ} {answer : γ}

def step (S : Scheme κ σ β γ) (e : Errand κ β γ) (s : σ) : Errand κ β γ × σ :=
  match e.stage with
  | .probing =>
    match S.probe e.key s with
    | some answer => (⟨e.key, .answered answer⟩, s)
    | none => (⟨e.key, .missing⟩, s)
  | .missing =>
    match S.make e.key s with
    | (.error answer, s) => (⟨e.key, .answered answer⟩, s)
    | (.ok made, s) => (⟨e.key, .holding made⟩, s)
  | .holding made => (⟨e.key, .answered (S.store e.key made s).1⟩, (S.store e.key made s).2)
  | .answered _ => (e, s)

/-- The steps that an errand still has to take, at most. -/
def left (e : Errand κ β γ) : Nat :=
  match e.stage with
  | .probing => 3
  | .missing => 2
  | .holding _ => 1
  | .answered _ => 0

theorem left_le (e : Errand κ β γ) : e.left ≤ 3 := by
  obtain ⟨key, stage⟩ := e
  cases stage <;> simp [left]

theorem answered_of_left (h : e.left = 0) : ∃ answer, e = ⟨e.key, .answered answer⟩ := by
  obtain ⟨key, stage⟩ := e
  cases stage with
  | probing => cases h
  | missing => cases h
  | holding made => cases h
  | answered answer => exact ⟨answer, rfl⟩

/-- A step keeps the key and brings the errand nearer to its end. -/
theorem step_nearer (S : Scheme κ σ β γ) (e : Errand κ β γ) (s : σ) :
    (e.step S s).1.key = e.key ∧ (e.step S s).1.left ≤ e.left - 1 := by
  obtain ⟨key, stage⟩ := e
  cases stage with
  | probing =>
    rw [step]
    dsimp only
    cases S.probe key s with
    | some answer => exact ⟨rfl, Nat.zero_le _⟩
    | none => exact ⟨rfl, Nat.le_refl 2⟩
  | missing =>
    rw [step]
    dsimp only
    rcases S.make key s with ⟨answer | made, s'⟩
    · exact ⟨rfl, Nat.zero_le _⟩
    · exact ⟨rfl, Nat.le_refl 1⟩
  | holding made => exact ⟨rfl, Nat.le_refl 0⟩
  | answered answer => exact ⟨rfl, Nat.le_refl 0⟩

/-- Three steps that nothing comes between. -/
theorem step_alone (S : Scheme κ σ β γ) (key : κ) (s : σ) :
    let first := step S ⟨key, .probing⟩ s
    let second := first.1.step S first.2
    second.1.step S second.2 = (⟨key, .answered (S.serve key s).1⟩, (S.serve key s).2) := by
  dsimp only [step, Scheme.serve]
  cases S.probe key s with
  | some answer => rfl
  | none => rcases S.make key s with ⟨answer | made, s'⟩ <;> rfl

end Errand

/-! ### Errands in turns -/

structure Errands (κ σ β γ : Type) where
  state : σ
  sent : List (Errand κ β γ)

inductive Turn (κ : Type) where
  /-- Somebody sends an errand. -/
  | send (key : κ)
  /-- The errand at this place takes its next step. -/
  | go (place : Nat)
  deriving DecidableEq

namespace Errands

variable {es : Errands κ σ β γ} {e : Errand κ β γ} {place : Nat}

def step (S : Scheme κ σ β γ) (es : Errands κ σ β γ) : Turn κ → Errands κ σ β γ
  | .send key => { es with sent := es.sent ++ [⟨key, .probing⟩] }
  | .go place =>
    match es.sent[place]? with
    | some e => ⟨(e.step S es.state).2, es.sent.set place (e.step S es.state).1⟩
    | none => es

def run (S : Scheme κ σ β γ) (es : Errands κ σ β γ) (turns : List (Turn κ)) : Errands κ σ β γ :=
  turns.foldl (step S) es

theorem step_go (S : Scheme κ σ β γ) (h : es.sent[place]? = some e) :
    es.step S (.go place) = ⟨(e.step S es.state).2, es.sent.set place (e.step S es.state).1⟩ := by
  rw [step, h]

theorem step_go_none (S : Scheme κ σ β γ) (h : es.sent[place]? = none) :
    es.step S (.go place) = es := by
  rw [step, h]

variable [DecidableEq κ]

/-- A turn moves the errand that it names, and no other one. -/
theorem step_sent (S : Scheme κ σ β γ) (h : es.sent[place]? = some e) (turn : Turn κ) :
    (es.step S turn).sent[place]? =
      some (if turn = .go place then (e.step S es.state).1 else e) := by
  have hlt := (List.getElem?_eq_some_iff.mp h).1
  cases turn with
  | send key =>
    rw [if_neg nofun]
    exact (List.getElem?_append_left hlt).trans h
  | go other =>
    by_cases heq : other = place
    · subst heq
      rw [if_pos rfl, step_go S h]
      exact List.getElem?_set_self hlt
    · rw [if_neg fun hgo => heq (Turn.go.inj hgo)]
      cases hother : es.sent[other]? with
      | none => rwa [step_go_none S hother]
      | some e' =>
        rw [step_go S hother]
        exact (List.getElem?_set_ne heq).trans h

/-- An errand keeps its key, and each turn of its own brings it nearer to its end. -/
theorem run_sent (S : Scheme κ σ β γ) (h : es.sent[place]? = some e) (turns : List (Turn κ)) :
    ∃ e', (es.run S turns).sent[place]? = some e' ∧ e'.key = e.key ∧
    e'.left ≤ e.left - turns.count (.go place) := by
  induction turns generalizing es e with
  | nil => exact ⟨e, h, rfl, Nat.le_refl _⟩
  | cons turn turns ih =>
    obtain ⟨e', hget, hkey, hleft⟩ := ih (step_sent S h turn)
    refine ⟨e', hget, ?_, ?_⟩
    · rw [hkey]
      split
      · exact (e.step_nearer S es.state).1
      · rfl
    · by_cases heq : turn = .go place
      · rw [if_pos heq] at hleft
        rw [heq, List.count_cons_self]
        have hnearer := (e.step_nearer S es.state).2
        omega
      · rw [if_neg heq] at hleft
        rwa [List.count_cons_of_ne heq]

/-- Three turns of its own are enough for an answer. -/
theorem run_ends (S : Scheme κ σ β γ) (h : es.sent[place]? = some e) {turns : List (Turn κ)}
    (hcount : 3 ≤ turns.count (.go place)) :
    ∃ answer, (es.run S turns).sent[place]? = some ⟨e.key, .answered answer⟩ := by
  obtain ⟨e', hget, hkey, hleft⟩ := run_sent S h turns
  have hbegun := e.left_le
  obtain ⟨answer, hanswer⟩ := Errand.answered_of_left (show e'.left = 0 by omega)
  exact ⟨answer, by rw [hget, hanswer, hkey]⟩

/-- An answer is final, whatever comes later. -/
theorem run_answered (S : Scheme κ σ β γ) {key : κ} {answer : γ}
    (h : es.sent[place]? = some ⟨key, .answered answer⟩) (turns : List (Turn κ)) :
    (es.run S turns).sent[place]? = some ⟨key, .answered answer⟩ := by
  induction turns generalizing es with
  | nil => exact h
  | cons turn turns ih =>
    refine ih ((step_sent S h turn).trans ?_)
    split <;> rfl

omit [DecidableEq κ] in
/-- A turn of the errand that was sent last. -/
theorem step_last (S : Scheme κ σ β γ) (s : σ) (sent : List (Errand κ β γ)) (e : Errand κ β γ) :
    step S ⟨s, sent ++ [e]⟩ (.go sent.length) = ⟨(e.step S s).2, sent ++ [(e.step S s).1]⟩ := by
  rw [step_go S (List.getElem?_concat_length ..),
    List.set_append_right _ _ (Nat.le_refl _), Nat.sub_self]
  rfl

omit [DecidableEq κ] in
/-- An errand that nothing comes between is served at one go. -/
theorem run_alone (S : Scheme κ σ β γ) (es : Errands κ σ β γ) (key : κ) :
    es.run S [.send key, .go es.sent.length, .go es.sent.length, .go es.sent.length] =
      ⟨(S.serve key es.state).2, es.sent ++ [⟨key, .answered (S.serve key es.state).1⟩]⟩ := by
  have hsteps := Errand.step_alone S key es.state
  simp only [run, List.foldl_cons, List.foldl_nil, step_last, hsteps, show es.step S (.send key) =
    ⟨es.state, es.sent ++ [⟨key, .probing⟩]⟩ from rfl]

omit [DecidableEq κ] in
/-- What takes its steps as errands do runs as they do. -/
theorem run_of_steps {τ ε : Type} {step : τ → ε → τ}
    {errands : τ → Errands κ σ β γ} {turn : ε → Turn κ}
    (h : ∀ t event, errands (step t event) = (errands t).step S (turn event))
    (t : τ) (events : List ε) :
    errands (events.foldl step t) = (errands t).run S (events.map turn) := by
  induction events generalizing t with
  | nil => rfl
  | cons event events ih =>
    rw [List.foldl_cons, ih, h]
    rfl

end Errands

end TypedTables
