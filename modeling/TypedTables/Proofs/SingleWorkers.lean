import Mathlib.Data.List.Induction
import TypedTables.Proofs.DrainedPools
import TypedTables.Proofs.JobYields

/-!
# Pools with a single worker

A pool with one worker is one connection to its callers: the bodies that are begun run one after the
other in the order of submission, so that the connection, and what each job came to, are as if these
bodies had been run on the spot. A job that is not begun is turned away, and nothing is seen of it
but that.
-/
namespace TypedTables

variable {σ ω : Type}

namespace Deed

def started? : Deed → Option Nat
  | .start id => some id
  | _ => none

end Deed

/-- The jobs that were begun, in the order in which that happened. -/
def begun (deeds : List Deed) : List Nat := deeds.filterMap Deed.started?

theorem mem_begun {deeds : List Deed} {id : Nat} : id ∈ begun deeds ↔ .start id ∈ deeds := by
  rw [begun, List.mem_filterMap]
  constructor
  · rintro ⟨d, hd, hid⟩
    cases d <;> cases hid
    exact hd
  · exact fun hid => ⟨_, hid, rfl⟩

namespace Outline

variable {o o' : Outline} {d : Option Deed}

/-- With one worker, every job in the queue was submitted after the job that the worker has, and
that one after all others that were begun. -/
structure InTurn (o : Outline) : Prop where
  single : o.activities.length ≤ 1
  bound : ∀ id, .run id ∈ o.queue → id < o.phases.length
  sorted : o.queue.Pairwise fun order order' => ∀ id id', order = .run id →
    order' = .run id' → id < id'
  ahead : ∀ w id id' : Nat, o.activities[w]? = some (.busy id) → .run id' ∈ o.queue → id < id'
  past : ∀ (id : Nat) (phase : Phase), o.phases[id]? = some phase → phase.hasBegun = true →
    (∀ id', .run id' ∈ o.queue → id < id') ∧
      ∀ w id' : Nat, o.activities[w]? = some (.busy id') → id ≤ id'

/-- The worker goes on with its job. -/
theorem InTurn.move (h : o.InTurn) {w id : Nat}
    (busy : o.activities[w]? = some (.busy id)) (phase : Phase) {activity : Activity}
    (hbusy : ∀ id', activity = .busy id' → id' = id) :
      ({ o with phases := o.phases.set id phase, activities := o.activities.set w activity } :
      Outline).InTurn := by
  have hsub : ∀ w' id' : Nat, (o.activities.set w activity)[w']? = some (.busy id') →
      o.activities[w']? = some (.busy id') := by
    intro w' id' hid'
    rcases getElem?_set_eq_some hid' with ⟨rfl, heq⟩ | ⟨-, hold⟩
    · rwa [hbusy id' heq.symm]
    · exact hold
  have honly : ∀ w' id' : Nat, o.activities[w']? = some (.busy id') → id' = id := by
    intro w' id' hid'
    have hw := (List.getElem?_eq_some_iff.mp busy).1
    have hw' := (List.getElem?_eq_some_iff.mp hid').1
    have hsingle := h.single
    obtain rfl : w' = w := by omega
    exact Activity.busy.inj (Option.some.inj (hid'.symm.trans busy))
  refine ⟨by rw [List.length_set]; exact h.single, fun id' hid' => ?_, h.sorted,
    fun w' id₁ id₂ h₁ h₂ => ?_,
    fun id' phase' hphase' hbegun' => ?_⟩
  · rw [List.length_set]
    exact h.bound id' hid'
  · exact h.ahead w' id₁ id₂ (hsub w' id₁ h₁) h₂
  · rcases getElem?_set_eq_some hphase' with ⟨rfl, -⟩ | ⟨-, hold⟩
    · refine ⟨fun id' hid' => h.ahead w id id' busy hid', fun w' id' hid' => ?_⟩
      exact Nat.le_of_eq (honly w' id' (hsub w' id' hid')).symm
    · obtain ⟨hqueue, hactive⟩ := h.past id' phase' hold hbegun'
      exact ⟨hqueue, fun w' id'' hid'' => hactive w' id'' (hsub w' id'' hid'')⟩

/-- The worker takes the next job, which was submitted before those that remain. -/
theorem InTurn.takeJob (h : o.InTurn) (w : Nat) {id : Nat} {rest : List Order}
    (queue : o.queue = .run id :: rest) : ({ o with
      phases := o.phases.set id .taken, activities :=
        o.activities.set w (.busy id), queue := rest } :
      Outline).InTurn := by
  have hrest : ∀ {order}, order ∈ rest → order ∈ o.queue :=
    fun hmem => queue ▸ List.mem_cons_of_mem _ hmem
  have hfirst : .run id ∈ o.queue := queue ▸ List.mem_cons_self
  have hsorted := h.sorted
  rw [queue, List.pairwise_cons] at hsorted
  refine ⟨by rw [List.length_set]; exact h.single, fun id' hid' => ?_, hsorted.2,
    fun w' id₁ id₂ h₁ h₂ => ?_,
    fun id' phase' hphase' hbegun' => ?_⟩
  · rw [List.length_set]
    exact h.bound id' (hrest hid')
  · rcases getElem?_set_eq_some h₁ with ⟨-, heq⟩ | ⟨-, hold⟩
    · cases heq
      exact hsorted.1 _ h₂ _ _ rfl rfl
    · exact h.ahead w' id₁ id₂ hold (hrest h₂)
  · rcases getElem?_set_eq_some hphase' with ⟨-, heq⟩ | ⟨-, hold⟩
    · rw [heq] at hbegun'
      cases hbegun'
    · obtain ⟨hqueue, hactive⟩ := h.past id' phase' hold hbegun'
      refine ⟨fun id'' hid'' => hqueue id'' (hrest hid''), fun w' id'' hid'' => ?_⟩
      rcases getElem?_set_eq_some hid'' with ⟨-, heq⟩ | ⟨-, hbusy⟩
      · cases heq
        exact Nat.le_of_lt (hqueue id hfirst)
      · exact hactive w' id'' hbusy

theorem InTurn.takeStop (h : o.InTurn) (w : Nat) {rest : List Order}
    (queue : o.queue = .stop :: rest) :
    ({ o with activities := o.activities.set w .exited, queue := rest } : Outline).InTurn := by
  have hrest : ∀ {order}, order ∈ rest → order ∈ o.queue :=
    fun hmem => queue ▸ List.mem_cons_of_mem _ hmem
  have hsub : ∀ w' id' : Nat, (o.activities.set w .exited)[w']? = some (.busy id') →
      o.activities[w']? = some (.busy id') := by
    intro w' id' hid'
    rcases getElem?_set_eq_some hid' with ⟨-, heq⟩ | ⟨-, hold⟩
    · cases heq
    · exact hold
  have hsorted := h.sorted
  rw [queue, List.pairwise_cons] at hsorted
  refine ⟨by rw [List.length_set]; exact h.single,
    fun id' hid' => h.bound id' (hrest hid'), hsorted.2,
    fun w' id₁ id₂ h₁ h₂ => h.ahead w' id₁ id₂ (hsub w' id₁ h₁) (hrest h₂),
      fun id' phase' hphase' hbegun' => ?_⟩
  obtain ⟨hqueue, hactive⟩ := h.past id' phase' hphase' hbegun'
  exact ⟨fun id'' hid'' => hqueue id'' (hrest hid''),
    fun w' id'' hid'' => hactive w' id'' (hsub w' id'' hid'')⟩

/-- A new job comes after all others, and more orders to stop are in nobody's way. -/
theorem InTurn.append (h : o.InTurn) (hplaced : o.Placed) (phases : List Phase) (queue : List Order)
    (closed : Bool) (hphases : ∀ phase ∈ phases, phase.hasBegun = false)
    (hqueue : queue.Pairwise fun order order' => ∀ id id', order = .run id →
      order' = .run id' → id < id')
    (hnew : ∀ id, .run id ∈ queue → o.phases.length ≤ id ∧ id < (o.phases ++ phases).length) :
    ({ o with phases := o.phases ++ phases, queue := o.queue ++ queue, closed } :
      Outline).InTurn := by
  refine ⟨h.single, fun id hid => ?_, ?_, fun w id₁ id₂ h₁ h₂ => ?_,
    fun id phase hphase hbegun => ?_⟩
  · rcases List.mem_append.mp hid with hold | hlast
    · rw [List.length_append]
      exact Nat.lt_add_right _ (h.bound id hold)
    · exact (hnew id hlast).2
  · refine List.pairwise_append.mpr ⟨h.sorted, hqueue,
      fun order hold order' hlast id id' heq heq' => ?_⟩
    subst heq heq'
    exact Nat.lt_of_lt_of_le (h.bound id hold) (hnew id' hlast).1
  · rcases List.mem_append.mp h₂ with hold | hlast
    · exact h.ahead w id₁ id₂ h₁ hold
    · obtain ⟨phase, hphase, -⟩ := hplaced.held w id₁ h₁
      exact Nat.lt_of_lt_of_le (List.getElem?_eq_some_iff.mp hphase).1 (hnew id₂ hlast).1
  · by_cases hlt : id < o.phases.length
    · have hold : o.phases[id]? = some phase := by
        rw [← List.getElem?_append_left hlt]; exact hphase
      obtain ⟨hwait, hactive⟩ := h.past id phase hold hbegun
      refine ⟨fun id' hid' => ?_, hactive⟩
      rcases List.mem_append.mp hid' with hmem | hlast
      · exact hwait id' hmem
      · exact Nat.lt_of_lt_of_le hlt (hnew id' hlast).1
    · have hmem : phase ∈ phases := by
        have hright : phases[id - o.phases.length]? = some phase := by
          rw [← List.getElem?_append_right (Nat.le_of_not_lt hlt)]
          exact hphase
        exact List.mem_of_getElem? hright
      rw [hphases phase hmem] at hbegun
      cases hbegun

theorem InTurn.next (h : o.InTurn) (hplaced : o.Placed) (hn : o.Next d o') : o'.InTurn := by
  cases hn with
  | quiet => exact h
  | accept =>
    apply h.append hplaced [.queued] [.run o.phases.length] o.closed
    · simp [Phase.hasBegun]
    · exact List.pairwise_singleton _ _
    · simp
  | reject =>
    have hrefused := h.append hplaced [.refused] [] o.closed (by simp [Phase.hasBegun]) .nil
      fun _ hid => absurd hid List.not_mem_nil
    rwa [List.append_nil] at hrefused
  | @takeJob w id rest idle queue waiting => exact h.takeJob w queue
  | @takeStop w rest idle queue => exact h.takeStop w queue
  | start busy => exact h.move busy _ fun id' heq => (Activity.busy.inj heq).symm
  | refuse busy => exact h.move busy _ fun _ heq => Activity.noConfusion heq
  | goOn busy =>
    refine h.move busy _ fun id' heq => ?_
    split at heq
    · cases heq
    · exact (Activity.busy.inj heq).symm
  | close =>
    have hnone : ∀ id : Nat, Order.run id ∉ List.replicate o.activities.length .stop := by
      intro id hid
      cases List.eq_of_mem_replicate hid
    have hclosed := h.append hplaced [] (List.replicate o.activities.length .stop) true
      (fun _ hphase => absurd hphase List.not_mem_nil)
      (List.pairwise_of_forall_mem_list fun _ hmem _ _ id _ heq => absurd (heq ▸ hmem) (hnone id))
      (fun id hid => absurd hid (hnone id))
    rwa [List.append_nil] at hclosed

structure Turns (deeds : List Deed) (o : Outline) : Prop where
  ledger : Ledger deeds o
  placed : o.Placed
  inTurn : o.InTurn
  order : (begun deeds).Pairwise (· < ·)

theorem turns_new : Turns [] ⟨[], List.replicate 1 .idle, [], false⟩ where
  ledger := ledger_new 1
  placed := placed_new 1
  inTurn := ⟨Nat.le_refl 1, nofun, .nil, nofun, nofun⟩
  order := .nil

/-- A job is begun after all others that were begun, and was submitted after them. -/
theorem Turns.lt_of_begun {deeds : List Deed} (h : Turns deeds o) {w id id' : Nat} {inTime : Bool}
    (busy : o.activities[w]? = some (.busy id)) (settled : o.phases[id]? = some (.settled inTime))
    (hbegun : id' ∈ begun deeds) : id' < id := by
  obtain ⟨phase, hphase, hfar⟩ := h.ledger.begun_of_start (mem_begun.mp hbegun)
  refine Nat.lt_of_le_of_ne ((h.inTurn.past id' phase hphase hfar).2 w id busy) ?_
  rintro rfl
  cases hphase.symm.trans settled
  cases hfar

theorem Turns.next {deeds : List Deed} (h : Turns deeds o) (hn : o.Next d o') :
    Turns (deeds ++ d.toList) o' := by
  have horder : (begun (deeds ++ d.toList)).Pairwise (· < ·) := by
    rw [begun, List.filterMap_append]
    cases hn with
    | @start w id inTime phase busy settled =>
      refine List.pairwise_append.mpr ⟨h.order, List.pairwise_singleton _ _,
        fun id' hid' id'' hid'' => ?_⟩
      obtain rfl : id'' = id := List.mem_singleton.mp hid''
      exact h.lt_of_begun busy settled hid'
    | _ =>
      change (begun deeds ++ []).Pairwise (· < ·)
      rw [List.append_nil]
      exact h.order
  exact ⟨h.ledger.next hn, h.placed.next hn, h.inTurn.next h.placed hn, horder⟩

end Outline

/-! ### What the jobs have come to, one after the other -/

/-- Runs bodies on the spot, one after the other. -/
def serially (bodies : List (Body σ ω)) : StateM σ (List (Yield ω)) := bodies.mapM Body.onTheSpot

theorem serially_append (bodies later : List (Body σ ω)) (s : σ) :
    serially (bodies ++ later) s =
      ((serially bodies s).1 ++ (serially later (serially bodies s).2).1,
        (serially later (serially bodies s).2).2) := by
  rw [serially, List.mapM_append]
  rfl

theorem serially_singleton (body : Body σ ω) (s : σ) :
    serially [body] s = ([(body.onTheSpot s).1], (body.onTheSpot s).2) := by
  rw [serially, List.mapM_cons, List.mapM_nil]
  rfl

namespace Pool

/-- The bodies that were carried out, in the order of submission, with what they have come to. -/
def carriedOut (yields : List (Body σ ω × Option (Yield ω))) : List (Body σ ω × Yield ω) :=
  yields.filterMap fun (body, yield) => yield.map (body, ·)

/-- The bodies that were carried out, run on the spot one after the other, come to the same, and
leave the connection of the one worker. -/
def Serial (s₀ : σ) (p : Pool σ ω) : Prop :=
  ∃ s, p.connections = [s] ∧
    serially ((carriedOut p.yields).map Prod.fst) s₀ = ((carriedOut p.yields).map Prod.snd, s)

/-- The last job of all that have come to something. -/
theorem carriedOut_set {yields : List (Body σ ω × Option (Yield ω))} {id : Nat}
    {body : Body σ ω} {y : Yield ω} (hid : yields[id]? = some (body, none))
    (hlast : ∀ id' body' y', yields[id']? = some (body', some y') → id' < id) :
    carriedOut (yields.set id (body, some y)) = carriedOut yields ++ [(body, y)] := by
  obtain ⟨hlt, hget⟩ := List.getElem?_eq_some_iff.mp hid
  have hnone : carriedOut (yields.drop (id + 1)) = [] := by
    refine List.filterMap_eq_nil_iff.mpr fun (body', y') hmem => ?_
    obtain ⟨i, hi⟩ := List.getElem?_of_mem hmem
    rw [List.getElem?_drop] at hi
    cases y' with
    | none => rfl
    | some y' => exact absurd (hlast _ body' y' hi) (by omega)
  have hsplit : yields = yields.take id ++ (body, none) :: yields.drop (id + 1) := by
    rw [← hget, List.getElem_cons_drop, List.take_append_drop]
  have hbefore : carriedOut yields = carriedOut (yields.take id) := by
    conv_lhs => rw [hsplit]
    rw [carriedOut, List.filterMap_append]
    change carriedOut (yields.take id) ++ carriedOut (yields.drop (id + 1)) = _
    rw [hnone, List.append_nil]
  rw [List.set_eq_take_append_cons_drop, if_pos hlt, carriedOut, List.filterMap_append]
  change carriedOut (yields.take id) ++ (body, y) :: carriedOut (yields.drop (id + 1)) = _
  rw [hnone, hbefore]

/-- A job that was submitted has not come to anything. -/
theorem carriedOut_concat_none (yields : List (Body σ ω × Option (Yield ω))) (body : Body σ ω) :
    carriedOut (yields ++ [(body, none)]) = carriedOut yields := by
  rw [carriedOut, List.filterMap_append]
  exact List.append_nil _

/-- What holds of the history and the outline of a run with one worker. -/
theorem new_run_turns (s₀ : σ) (limit : Option Duration) (events : List (Event σ ω)) :
    Outline.Turns ((new [s₀] limit).history events) ((new [s₀] limit).run events).outline := by
  apply new_run_outline (I := Outline.Turns)
  · rw [outline_new]
    exact Outline.turns_new
  · exact fun h hn => h.next hn

/-- The last body that was carried out is that of the job that the worker has. -/
theorem lt_of_yield {s₀ : σ} {limit : Option Duration} {events : List (Event σ ω)} {w id id' : Nat}
    {x : Worker σ} {t : Ticket σ ω} {body : Body σ ω} {y : Yield ω}
    (h : ((new [s₀] limit).run events).Holds w x id t) (hpending : t.yield? = none)
    (hid' : ((new [s₀] limit).run events).yields[id']? = some (body, some y)) : id' < id := by
  have hreachable : ((new [s₀] limit).run events).Reachable := ⟨[s₀], limit, events, rfl⟩
  rw [yields, List.getElem?_map] at hid'
  obtain ⟨t', ht', heq⟩ := Option.map_eq_some_iff.mp hid'
  obtain ⟨rfl, hyield⟩ := Prod.mk.inj heq
  have hbegun := ((hreachable.yield?_isSome ht').mp (by rw [hyield]; rfl)).1
  have hphase : ((new [s₀] limit).run events).outline.phases[id']? = some t'.phase := by
    simp [outline, ht']
  obtain ⟨-, hpast⟩ := (new_run_turns s₀ limit events).inTurn.past id' t'.phase hphase hbegun
  have hle := hpast w id h.activity
  refine Nat.lt_of_le_of_ne hle ?_
  rintro rfl
  cases h.job.symm.trans ht'
  cases hpending.symm.trans hyield

/-- Nothing but the workers changes what the connections show. -/
def Event.isInside : Event σ ω → Bool
  | .outside _ _ => false
  | _ => true

theorem serial_new (s₀ : σ) (limit : Option Duration) : (new [s₀] limit : Pool σ ω).Serial s₀ :=
  ⟨s₀, rfl, rfl⟩

theorem new_run_serial (s₀ : σ) (limit : Option Duration) {events : List (Event σ ω)}
    (hinside : ∀ e ∈ events, e.isInside = true) : ((new [s₀] limit).run events).Serial s₀ := by
  -- The induction takes the last step off: a body that is carried out then comes after all others.
  induction events using List.reverseRecOn with
  | nil => exact serial_new s₀ limit
  | append_singleton events e ih =>
    have hreachable : ((new [s₀] limit).run events).Reachable := ⟨[s₀], limit, events, rfl⟩
    obtain ⟨s, hs, hserial⟩ := ih fun e' he' => hinside e' (List.mem_append_left _ he')
    have hadvances := hreachable.step_advances e
    rw [run_append, run_cons, run_nil]
    generalize ((new [s₀] limit).run events).step e = p' at hadvances ⊢
    cases hadvances with
    | same yields connections => exact ⟨s, connections.trans hs, by rw [yields, hserial]⟩
    | submit yields connections =>
      refine ⟨s, connections.trans hs, ?_⟩
      rw [yields, carriedOut_concat_none, hserial]
    | @carryOut w id x t _ holds pending yields connections =>
      have hid : ((new [s₀] limit).run events).yields[id]? = some (t.body, none) := by
        simp [Pool.yields, holds.job, pending]
      have hx : ((new [s₀] limit).run events).connections[w]? = some x.connection := by
        simp [Pool.connections, holds.worker]
      rw [hs, List.getElem?_singleton] at hx
      split at hx
      case isFalse => cases hx
      case isTrue hw =>
        cases hx
        subst hw
        refine ⟨(t.body.onTheSpot x.connection).2, by rw [connections, hs]; rfl, ?_⟩
        rw [yields, carriedOut_set hid fun id' body' y' => lt_of_yield holds pending,
          List.map_append, List.map_append, serially_append, hserial, List.map_singleton,
          List.map_singleton, serially_singleton]
    | outside => cases hinside _ (List.mem_append_right _ List.mem_cons_self)

/-! ### One connection -/

/-- Runs operations directly, one after the other, whatever each of them answers. -/
def directly (ops : List (BuiltJob σ ω)) : StateM (Session σ) (List (Except Error (List ω))) :=
  ops.mapM fun op => op.direct.run

theorem directly_cons (op : BuiltJob σ ω) (ops : List (BuiltJob σ ω)) (s : Session σ) :
    directly (op :: ops) s =
      ((op.direct s).1 :: (directly ops (op.direct s).2).1, (directly ops (op.direct s).2).2) := by
  rw [directly, List.mapM_cons]
  rfl

/-- Operations that are run directly answer what a caller collects of what their bodies come to on
the spot. -/
theorem directly_serially (ops : List (BuiltJob σ ω)) (statements : StatementCache) (s : σ) :
    ∃ results, directly ops ⟨statements, s⟩ =
      (results, ⟨statements, (serially (ops.map BuiltJob.body) s).2⟩) ∧
      List.Forall₂ (fun (y : Yield ω) r => ∀ received, y.Received false received →
        drained received = r)
        (serially (ops.map BuiltJob.body) s).1 results := by
  induction ops generalizing s with
  | nil => exact ⟨[], rfl, .nil⟩
  | cons op ops ih =>
    obtain ⟨results, hdirectly, hresults⟩ := ih (op.body.onTheSpot s).2
    have hserially : serially ((op :: ops).map BuiltJob.body) s =
        ((op.body.onTheSpot s).1 :: (serially (ops.map BuiltJob.body) (op.body.onTheSpot s).2).1,
          (serially (ops.map BuiltJob.body) (op.body.onTheSpot s).2).2) := by
      have happend := serially_append [op.body] (ops.map BuiltJob.body) s
      rwa [serially_singleton] at happend
    have hdirect : ∀ received, (op.body.onTheSpot s).1.Received false received →
        op.direct ⟨statements, s⟩ = (drained received, ⟨statements, (op.body.onTheSpot s).2⟩) :=
      fun received hreceived => op.direct_eq_drained hreceived
    obtain ⟨received, hreceived⟩ := op.exists_received s
    rw [directly_cons, hserially, hdirect received hreceived, hdirectly]
    refine ⟨_, rfl, .cons (fun received' hreceived' => ?_) hresults⟩
    exact congrArg Prod.fst ((hdirect received' hreceived').symm.trans (hdirect received hreceived))

/-- The jobs whose bodies were carried out, in the order of submission. -/
def carried (p : Pool σ ω) : List (Ticket σ ω) := p.tickets.filter fun t => t.yield?.isSome

theorem map_carried (p : Pool σ ω) : (p.carried.map fun t => (t.body, t.yield?)) =
    (carriedOut p.yields).map fun (body, y) => (body, some y) := by
  rw [carried, yields]
  generalize p.tickets = tickets
  induction tickets with
  | nil => rfl
  | cons t tickets ih =>
    cases hyield : t.yield? with
    | none => simpa [carriedOut, List.filter_cons, hyield] using ih
    | some y => simpa [carriedOut, List.filter_cons, hyield] using ih

/-- What holds of a pool with one worker whose connection was `s₀` at first: whoever submits jobs
sees one connection, on which the jobs that are not turned away follow one another. -/
structure Serializes (s₀ : σ) (deeds : List Deed) (p : Pool σ ω) : Prop where
  /-- Bodies are begun in the order of submission. -/
  order : (begun deeds).Pairwise (· < ·)
  /-- None is begun twice. -/
  once : ∀ (id : Nat) (t : Ticket σ ω), p.tickets[id]? = some t →
    t.begun = if id ∈ begun deeds then 1 else 0
  /-- No two bodies are being run at the same time. -/
  alone : ∀ (id id' : Nat) (t t' : Ticket σ ω), p.tickets[id]? = some t →
    p.tickets[id']? = some t' →
    t.begun = 1 → t.isOver = false → t'.begun = 1 → t'.isOver = false → id = id'
  /-- The caller of a job that was not run is told why not, and nothing else. -/
  told : ∀ t ∈ p.tickets, t.begun = 0 →
    (t.finished = true → ∃ e, e.isRefusal = true ∧ t.received = [.error e]) ∧
      (t.phase = .refused → t.isHeld = true → t.received = [] ∧ ∃ e, e.isRefusal = true ∧
        t.channel = [.error e])
  /-- The connection, and what the jobs have come to, are as if their bodies had been run on the
  spot. -/
  serial : ∃ ys s, p.connections = [s] ∧ serially (p.carried.map Ticket.body) s₀ = (ys, s) ∧
    p.carried.map Ticket.yield? = ys.map some
  /-- The caller of a job that was run receives what it has come to, if the caller waits for all of
  it. -/
  received : ∀ t ∈ p.tickets, t.begun = 1 → t.finished = true →
    ∃ y, t.yield? = some y ∧ y.Received t.truncated t.received
  /-- Rows are cut short only when the pool is shut down. -/
  whole : p.closing = false → ∀ t ∈ p.tickets, t.truncated = false
  /-- If all these jobs come from operations, the connection and the results are those of running
  just these operations directly, in the order of submission. -/
  direct : ∀ (ops : List (BuiltJob σ ω)) (statements : StatementCache),
    p.carried.map Ticket.body = ops.map BuiltJob.body →
      ∃ results s, p.connections = [s] ∧
        directly ops ⟨statements, s₀⟩ = (results, ⟨statements, s⟩) ∧
        List.Forall₂ (fun (t : Ticket σ ω) r => t.finished = true → t.truncated = false →
          drained t.received = r)
          p.carried results
  /-- When nothing is left to do, each job was run to its end or turned away, and those that were
  carried out are those that were begun. -/
  ended : p.queue = [] → (∀ x ∈ p.workers, x.activity.isBusy = false) →
    p.carried = p.tickets.filter (fun t => t.begun = 1) ∧
      ∀ t ∈ p.tickets, t.phase = .done ∧ t.begun = 1 ∨ t.phase = .refused ∧ t.begun = 0

/-- The jobs that are carried out come to what they come to on the spot, one after the other. -/
theorem Serial.carried {s₀ : σ} {p : Pool σ ω} (h : p.Serial s₀) :
    ∃ ys s, p.connections = [s] ∧ serially (p.carried.map Ticket.body) s₀ = (ys, s) ∧
      p.carried.map Ticket.yield? = ys.map some := by
  obtain ⟨s, hs, hserial⟩ := h
  have hbodies := congrArg (List.map Prod.fst) p.map_carried
  have hyields := congrArg (List.map Prod.snd) p.map_carried
  rw [List.map_map, List.map_map] at hbodies hyields
  refine ⟨(carriedOut p.yields).map Prod.snd, s, hs, ?_, ?_⟩
  · rw [show p.carried.map Ticket.body = (carriedOut p.yields).map Prod.fst from hbodies, hserial]
  · rw [List.map_map]
    exact hyields

/-- What the callers of these jobs collect is what the operations answer directly, one after the
other. -/
theorem Serial.direct {s₀ : σ} {p : Pool σ ω} (h : p.Serial s₀) {ops : List (BuiltJob σ ω)}
    (hops : p.carried.map Ticket.body = ops.map BuiltJob.body)
    (hreceived : ∀ t ∈ p.carried, t.finished = true →
      ∃ y, t.yield? = some y ∧ y.Received t.truncated t.received) (statements : StatementCache) :
    ∃ results s, p.connections = [s] ∧ directly ops ⟨statements, s₀⟩ = (results, ⟨statements, s⟩) ∧
      List.Forall₂ (fun (t : Ticket σ ω) r => t.finished = true → t.truncated = false →
        drained t.received = r)
        p.carried results := by
  obtain ⟨ys, s, hs, hserially, hyields⟩ := h.carried
  obtain ⟨results, hdirectly, hresults⟩ := directly_serially ops statements s₀
  rw [hops] at hserially
  rw [hserially] at hdirectly hresults
  have hpairs : List.Forall₂ (fun (y? : Option (Yield ω)) r => ∀ y, y? = some y →
      ∀ received, y.Received false received → drained received = r) (ys.map some) results := by
    refine List.forall₂_map_left_iff.mpr (hresults.imp fun y r hdrained y' heq => ?_)
    cases heq
    exact hdrained
  rw [← hyields, List.forall₂_map_left_iff] at hpairs
  refine ⟨results, s, hs, hdirectly, List.forall₂_iff_zip.mpr ⟨hpairs.length_eq, ?_⟩⟩
  intro t r hmem hfinished huncut
  obtain ⟨y, hyield, hy⟩ := hreceived t (List.of_mem_zip hmem).1 hfinished
  rw [huncut] at hy
  exact (List.forall₂_iff_zip.mp hpairs).2 hmem y hyield _ hy

/-- Two jobs that are being run by one worker are the same. -/
theorem Attended.eq_of_busy {p : Pool σ ω} (h : p.Attended)
    (hsingle : p.workers.length ≤ 1) {id id' : Nat} {t t' : Ticket σ ω}
    (ht : p.tickets[id]? = some t) (ht' : p.tickets[id']? = some t')
    (hbegun : t.phase.hasBegun = true) (hgoing : t.isOver = false)
    (hbegun' : t'.phase.hasBegun = true) (hgoing' : t'.isOver = false) : id = id' := by
  have hleft : ∀ {phase : Phase}, phase.hasBegun = true → phase ≠ .queued := by
    rintro _ hbegun rfl
    cases hbegun
  obtain ⟨w, x, hx, hbusy⟩ := h id t ht (hleft hbegun) hgoing
  obtain ⟨w', x', hx', hbusy'⟩ := h id' t' ht' (hleft hbegun') hgoing'
  have hw := (List.getElem?_eq_some_iff.mp hx).1
  have hw' := (List.getElem?_eq_some_iff.mp hx').1
  obtain rfl : w = w' := by omega
  cases hx.symm.trans hx'
  exact Activity.busy.inj (hbusy.symm.trans hbusy')

/-- A pool with one worker is one connection to its callers, however submissions, withdrawals and
waits that end too soon interleave. -/
theorem new_run_serializes (s₀ : σ) (limit : Option Duration) {events : List (Event σ ω)}
    (hinside : ∀ e ∈ events, e.isInside = true) :
    Serializes s₀ ((new [s₀] limit).history events) ((new [s₀] limit).run events) := by
  have hreachable : ((new [s₀] limit).run events).Reachable := ⟨[s₀], limit, events, rfl⟩
  have hturns := new_run_turns s₀ limit events
  have hserial := new_run_serial s₀ limit hinside
  have hcourse : ∀ {t}, t ∈ ((new [s₀] limit).run events).tickets →
      t.begun = t.phase.hasBegun.toNat ∧ (t.phase.hasBegun = false → t.Waits) := by
    intro t ht
    obtain ⟨id, hid⟩ := List.getElem?_of_mem ht
    have hcourse := new_run_course hid rfl (Ticket.lasting_yield t.body)
    exact ⟨hcourse.sound.begun, hcourse.waits⟩
  have hattended : ((new [s₀] limit).run events).Attended := (attended_new [s₀] limit).run events
  generalize (new [s₀] limit).history events = deeds at *
  generalize (new [s₀] limit).run events = p at *
  have hbegun : ∀ {t}, t ∈ p.tickets → (t.begun = 1 ↔ t.phase.hasBegun = true) := by
    intro t ht
    rw [(hcourse ht).1]
    exact Bool.toNat_eq_one
  have hcarried : ∀ {t}, t ∈ p.tickets → t.yield?.isSome = true → t.phase.hasBegun = true := by
    intro t ht hsome
    obtain ⟨id, hid⟩ := List.getElem?_of_mem ht
    exact ((hreachable.yield?_isSome hid).mp hsome).1
  have hreceived : ∀ {t}, t ∈ p.tickets → t.begun = 1 → t.finished = true →
      ∃ y, t.yield? = some y ∧ y.Received t.truncated t.received := by
    intro t ht hone hfinished
    obtain ⟨id, hid⟩ := List.getElem?_of_mem ht
    exact hreachable.received_yield hid ((hbegun ht).mp hone) hfinished
  exact {
    order := hturns.order
    once := fun id t ht => by
      have hphase : p.outline.phases[id]? = some t.phase := by simp [outline, ht]
      rw [(hcourse (List.mem_of_getElem? ht)).1]
      split
      case isTrue hid =>
        obtain ⟨phase, hphase', hfar⟩ := hturns.ledger.begun_of_start (mem_begun.mp hid)
        cases hphase.symm.trans hphase'
        rw [hfar]
        rfl
      case isFalse hid =>
        cases hfar : t.phase.hasBegun with
        | false => rfl
        | true => exact absurd (mem_begun.mpr (hturns.ledger.start_mem hphase hfar)) hid
    alone := fun id id' t t' ht ht' hone hgoing hone' hgoing' => by
      have hsingle := hturns.inTurn.single
      rw [outline, List.length_map] at hsingle
      exact hattended.eq_of_busy hsingle ht ht' ((hbegun (List.mem_of_getElem? ht)).mp hone) hgoing
        ((hbegun (List.mem_of_getElem? ht')).mp hone') hgoing'
    told := fun t ht hnone => by
      rw [(hcourse ht).1, Bool.toNat_eq_zero] at hnone
      have hwaits := (hcourse ht).2 hnone
      refine ⟨fun hfinished => (hwaits.told hfinished).2,
        fun hrefused hheld => ⟨?_, hwaits.sent hheld hrefused⟩⟩
      exact hwaits.silent (Ticket.isHeld_iff.mp hheld).1
    serial := hserial.carried
    received := fun t ht => hreceived ht
    whole := fun hopen t ht => by
      obtain ⟨id, hid⟩ := List.getElem?_of_mem ht
      exact hreachable.truncated hopen hid
    direct := fun ops statements hops => by
      refine hserial.direct hops (fun t hmem hfinished => ?_) statements
      obtain ⟨ht, hsome⟩ := List.mem_filter.mp hmem
      exact hreceived ht ((hbegun ht).mpr (hcarried ht hsome)) hfinished
    ended := fun hqueue hidle => by
      have hsettled : ∀ t ∈ p.tickets, t.phase = .done ∧ t.begun = 1 ∨
          t.phase = .refused ∧ t.begun = 0 := by
        intro t ht
        obtain ⟨id, hid⟩ := List.getElem?_of_mem ht
        exact hreachable.done_or_refused hqueue hidle hid
      refine ⟨List.filter_congr fun t ht => ?_, hsettled⟩
      obtain ⟨id, hid⟩ := List.getElem?_of_mem ht
      rw [Bool.eq_iff_iff, hreachable.yield?_isSome hid, decide_eq_true_iff, hbegun ht,
        and_iff_left_iff_imp]
      intro hfar hrunning
      rcases hsettled t ht with ⟨hdone, -⟩ | ⟨hrefused, -⟩
      · cases hdone.symm.trans hrunning
      · cases hrefused.symm.trans hrunning }

/-- Two operations on a counter: one answers it, the other hands out two rows. -/
def countingOperations : List (BuiltJob Nat Nat) :=
  [.single fun s => (.ok s, s + 1), .stream fun _ s => (⟨[s, s + 1], .finished⟩, s + 10)]

/-- Four jobs for one worker: the first one is withdrawn, the fourth one waits too long. -/
def serialRun : List (Event Nat Nat) :=
  [.submit (.reply fun s => (.returned (.ok s), s + 100)) 0] ++
    countingOperations.map (fun op => .submit op.body 0) ++
    [.cancel 0, .take 0, .work 0, .work 0, .take 0, .work 0, .receive 0, .work 0, .work 0, .work 0,
      .submit (.reply fun s => (.returned (.ok s), s + 100)) 0, .take 0, .work 0, .work 0,
        .receive 2, .work 0,
      .work 0, .receive 2, .work 0, .receive 1, .receive 2, .tick 6, .take 0, .work 0,
        .expire 3, .giveUp 3,
      .work 0]

theorem new_run_serializes_countingOperations :
    (∀ e ∈ serialRun, e.isInside = true) ∧
      ((new [0] (some (.ofParts 0 5))).run serialRun).tickets.map Ticket.received =
        [[.error .cancelled], [.ok 0], [.ok 1, .ok 2], [.error (.timeout (.ofParts 0 5))]] ∧
      ∀ statements, (directly countingOperations ⟨statements, 0⟩).2 = ⟨statements, 11⟩ := by
  have hinside : ∀ e ∈ serialRun, e.isInside = true := List.all_eq_true.mp rfl
  have hserializes := new_run_serializes 0 (some (.ofParts 0 5)) hinside
  refine ⟨hinside, by decide +kernel, fun statements => ?_⟩
  obtain ⟨hcarried, -⟩ := hserializes.ended rfl (by decide)
  obtain ⟨_, s, hs, hdirectly, -⟩ :=
    hserializes.direct countingOperations statements (by rw [hcarried]; rfl)
  cases (show ((new [0] (some (.ofParts 0 5))).run serialRun).connections = [11]
    from rfl).symm.trans hs
  rw [hdirectly]

end Pool

end TypedTables
