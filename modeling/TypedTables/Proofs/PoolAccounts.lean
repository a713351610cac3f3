import Mathlib.Data.List.Nodup
import TypedTables.Proofs.PoolHistory

/-!
# The accounts of a pool

A pool loses no job: what its workers took from the queue and what is still there are together the
accepted jobs in the order of submission, and then one order to stop for each worker once the queue
is closed. Each job is settled once: it was rejected, begun, or turned away by a worker.
-/
namespace TypedTables

theorem getElem?_set_eq_some {α : Type} {l : List α} {i j : Nat} {a b : α}
    (h : (l.set i a)[j]? = some b) :
    i = j ∧ b = a ∨ i ≠ j ∧ l[j]? = some b := by
  rw [List.getElem?_set] at h
  split at h
  next hij =>
    split at h <;> cases h
    exact .inl ⟨hij, rfl⟩
  next hij => exact .inr ⟨hij, h⟩

theorem getElem?_set_same {α : Type} {l : List α} {i : Nat} {b : α} (h : l[i]? = some b) (a : α) :
    (l.set i a)[i]? = some a := List.getElem?_set_self (List.getElem?_eq_some_iff.mp h).1

theorem getElem?_append_of_some {α : Type} {l : List α} {i : Nat} {a : α} (h : l[i]? = some a)
    (l' : List α) : (l ++ l')[i]? = some a := by
  rw [List.getElem?_append_left (List.getElem?_eq_some_iff.mp h).1, h]

/-- Whether it is settled what becomes of a job: it was begun, or turned away. -/
def Phase.isDecided : Phase → Bool
  | .refused => true
  | phase => phase.hasBegun

namespace Deed

def submitted? : Deed → Option Nat
  | .accept id | .reject id => some id
  | _ => none

/-- The job that is put into the queue. -/
def accepted? : Deed → Option Nat
  | .accept id => some id
  | _ => none

def taken? : Deed → Option Order
  | .take _ order => some order
  | _ => none

def starts (id : Nat) : Deed → Bool
  | .start i => i = id
  | _ => false

def decides (id : Nat) : Deed → Bool
  | .reject i | .start i | .refuse i _ => i = id
  | _ => false

/-- A worker that took the order to stop takes nothing more. -/
def MayPrecede (d d' : Deed) : Prop := ∀ w order, d = .take w .stop → d' ≠ .take w order

end Deed

def accepted (deeds : List Deed) : List Nat := deeds.filterMap Deed.accepted?

def taken (deeds : List Deed) : List Order := deeds.filterMap Deed.taken?

theorem taken_concat (deeds : List Deed) (d : Deed) :
    taken (deeds ++ [d]) = taken deeds ++ d.taken?.toList := by
  rw [taken, List.filterMap_append, taken]
  cases h : d.taken? <;> simp [h]

theorem accepted_concat (deeds : List Deed) (d : Deed) :
    accepted (deeds ++ [d]) = accepted deeds ++ d.accepted?.toList := by
  rw [accepted, List.filterMap_append, accepted]
  cases h : d.accepted? <;> simp [h]

namespace Outline

variable {o o' : Outline} {d : Option Deed}

/-! ### Where each job is -/

/-- A job that waits is in the queue. A worker that is busy has a job that left the queue and is not
over, and no other worker has it. -/
structure Placed (o : Outline) : Prop where
  queued : ∀ id : Nat, o.phases[id]? = some .queued → .run id ∈ o.queue
  held : ∀ w id : Nat, o.activities[w]? = some (.busy id) →
    ∃ phase, o.phases[id]? = some phase ∧ phase ≠ .queued ∧ phase.isOver = false
  alone : ∀ w w' id : Nat, o.activities[w]? = some (.busy id) →
    o.activities[w']? = some (.busy id) → w = w'

theorem placed_new (n : Nat) : (⟨[], List.replicate n .idle, [], false⟩ : Outline).Placed where
  queued := nofun
  held w id hid := by cases List.eq_of_mem_replicate (List.mem_of_getElem? hid)
  alone w w' id hid := by cases List.eq_of_mem_replicate (List.mem_of_getElem? hid)

/-- A worker changes how far its job has come, and keeps it only if the job is not over. -/
theorem Placed.move (h : o.Placed) {w id : Nat} {phase : Phase} {activity : Activity}
    (busy : o.activities[w]? = some (.busy id)) (hphase : phase ≠ .queued)
    (hbusy : ∀ id', activity = .busy id' → id' = id ∧ phase.isOver = false) :
    ({ o with phases := o.phases.set id phase, activities := o.activities.set w activity } :
      Outline).Placed where
  queued id' hid' := by
    rcases getElem?_set_eq_some hid' with ⟨-, heq⟩ | ⟨-, hold⟩
    · exact absurd heq.symm hphase
    · exact h.queued id' hold
  held w' id' hid' := by
    obtain ⟨old, hold, -⟩ := h.held w id busy
    rcases getElem?_set_eq_some hid' with ⟨-, heq⟩ | ⟨hne, hbusy'⟩
    · obtain ⟨rfl, hover⟩ := hbusy id' heq.symm
      exact ⟨phase, getElem?_set_same hold _, hphase, hover⟩
    · have hid : id ≠ id' := fun heq => hne (h.alone w w' id busy (heq ▸ hbusy'))
      rw [List.getElem?_set_ne hid]
      exact h.held w' id' hbusy'
  alone w₁ w₂ id' h₁ h₂ := by
    have hmine : ∀ w' : Nat, w ≠ w' → o.activities[w']? = some (.busy id') →
        activity ≠ .busy id' := by
      intro w' hne hbusy' heq
      obtain ⟨rfl, -⟩ := hbusy id' heq
      exact hne (h.alone w w' id' busy hbusy')
    rcases getElem?_set_eq_some h₁ with ⟨rfl, heq₁⟩ | ⟨hne₁, hbusy₁⟩ <;>
      rcases getElem?_set_eq_some h₂ with ⟨rfl, heq₂⟩ | ⟨hne₂, hbusy₂⟩
    · rfl
    · exact (hmine w₂ hne₂ hbusy₂ heq₁.symm).elim
    · exact (hmine w₁ hne₁ hbusy₁ heq₂.symm).elim
    · exact h.alone w₁ w₂ id' hbusy₁ hbusy₂

/-- A worker takes a job that waits. -/
theorem Placed.takeJob (h : o.Placed) (w : Nat) {id : Nat} {rest : List Order}
    (queue : o.queue = .run id :: rest) (waiting : o.phases[id]? = some .queued) : ({ o with
      phases := o.phases.set id .taken, activities :=
        o.activities.set w (.busy id), queue := rest } :
      Outline).Placed where
  queued id' hid' := by
    rcases getElem?_set_eq_some hid' with ⟨-, heq⟩ | ⟨hne, hold⟩
    · cases heq
    · have hmem := h.queued id' hold
      rw [queue] at hmem
      exact (List.mem_cons.mp hmem).resolve_left fun heq => hne (Order.run.inj heq).symm
  held w' id' hid' := by
    rcases getElem?_set_eq_some hid' with ⟨-, heq⟩ | ⟨-, hbusy⟩
    · cases heq
      exact ⟨.taken, getElem?_set_same waiting _, nofun, rfl⟩
    · obtain ⟨phase, hphase, hleft, hover⟩ := h.held w' id' hbusy
      have hid : id ≠ id' := by
        rintro rfl
        exact hleft (Option.some.inj (hphase.symm.trans waiting))
      exact ⟨phase, by rwa [List.getElem?_set_ne hid], hleft, hover⟩
  alone w₁ w₂ id' h₁ h₂ := by
    have hother : ∀ w' : Nat, o.activities[w']? = some (.busy id') →
        Activity.busy id' ≠ .busy id := by
      intro w' hbusy heq
      cases heq
      obtain ⟨phase, hphase, hleft, -⟩ := h.held w' id hbusy
      exact hleft (Option.some.inj (hphase.symm.trans waiting))
    rcases getElem?_set_eq_some h₁ with ⟨rfl, heq₁⟩ | ⟨-, hbusy₁⟩ <;>
      rcases getElem?_set_eq_some h₂ with ⟨rfl, heq₂⟩ | ⟨-, hbusy₂⟩
    · rfl
    · exact (hother w₂ hbusy₂ heq₁).elim
    · exact (hother w₁ hbusy₁ heq₂).elim
    · exact h.alone w₁ w₂ id' hbusy₁ hbusy₂

theorem Placed.takeStop (h : o.Placed) {w : Nat} {rest : List Order}
    (queue : o.queue = .stop :: rest) :
    ({ o with activities := o.activities.set w .exited, queue := rest } : Outline).Placed where
  queued id hid := by
    have hmem := h.queued id hid
    rw [queue] at hmem
    exact (List.mem_cons.mp hmem).resolve_left Order.noConfusion
  held w' id hid := by
    rcases getElem?_set_eq_some hid with ⟨-, heq⟩ | ⟨-, hbusy⟩
    · cases heq
    · exact h.held w' id hbusy
  alone w₁ w₂ id h₁ h₂ := by
    rcases getElem?_set_eq_some h₁ with ⟨-, heq₁⟩ | ⟨-, hbusy₁⟩
    · cases heq₁
    rcases getElem?_set_eq_some h₂ with ⟨-, heq₂⟩ | ⟨-, hbusy₂⟩
    · cases heq₂
    exact h.alone w₁ w₂ id hbusy₁ hbusy₂

/-- One more job, and more in the queue. -/
theorem Placed.append (h : o.Placed) (phases : List Phase) (queue : List Order) (closed : Bool)
    (hnew : ∀ id : Nat, (o.phases ++ phases)[id]? = some .queued →
      o.phases.length ≤ id → .run id ∈ queue) :
    ({ o with phases := o.phases ++ phases, queue := o.queue ++ queue, closed } :
      Outline).Placed where
  queued id hid := by
    by_cases hlt : id < o.phases.length
    · have hold : o.phases[id]? = some .queued := by rw [← List.getElem?_append_left hlt]; exact hid
      exact List.mem_append_left _ (h.queued id hold)
    · exact List.mem_append_right _ (hnew id hid (Nat.le_of_not_lt hlt))
  held w id hid := by
    obtain ⟨phase, hphase, hleft, hover⟩ := h.held w id hid
    exact ⟨phase, getElem?_append_of_some hphase _, hleft, hover⟩
  alone := h.alone

theorem Placed.next (h : o.Placed) (hn : o.Next d o') : o'.Placed := by
  cases hn with
  | quiet => exact h
  | accept =>
    refine h.append [.queued] [.run o.phases.length] o.closed fun id hid hle => ?_
    have hlt := (List.getElem?_eq_some_iff.mp hid).1
    simp only [List.length_append, List.length_singleton] at hlt
    obtain rfl : id = o.phases.length := by omega
    exact List.mem_singleton_self _
  | reject =>
    have hrefused := h.append [.refused] [] o.closed fun id hid hle => by
      rw [List.getElem?_append_right hle, List.getElem?_singleton] at hid
      split at hid <;> cases hid
    rwa [List.append_nil] at hrefused
  | @takeJob w id rest idle queue waiting => exact h.takeJob w queue waiting
  | takeStop idle queue => exact h.takeStop queue
  | start busy settled begun goesOn =>
    refine h.move busy (fun heq => ?_) fun id' heq => ⟨(Activity.busy.inj heq).symm, goesOn⟩
    rw [heq] at begun
    cases begun
  | refuse busy => exact h.move busy nofun nofun
  | @goOn w id phase phase' busy _ _ left =>
    refine h.move busy (fun heq => ?_) fun id' heq => ?_
    · rw [heq] at left
      cases left
    · split at heq
      · cases heq
      next hover => exact ⟨(Activity.busy.inj heq).symm, Bool.eq_false_iff.mpr hover⟩
  | close =>
    have hclosed := h.append [] (List.replicate o.activities.length .stop) true fun id hid hle => by
      rw [List.append_nil, List.getElem?_eq_none hle] at hid
      cases hid
    rwa [List.append_nil] at hclosed

/-! ### What was taken, and what was settled -/

/-- What was done with each job agrees with how far it has come. -/
def Tallies (deeds : List Deed) (phases : List Phase) (did : Nat → Deed → Bool)
    (f : Phase → Bool) : Prop :=
  ∀ id : Nat, deeds.countP (did id) = ((phases[id]?).any f).toNat

namespace Tallies

variable {deeds ds : List Deed} {phases : List Phase} {did : Nat → Deed → Bool} {f : Phase → Bool}

/-- One job goes on. -/
theorem set (h : Tallies deeds phases did f) {id : Nat} {old phase : Phase}
    (hold : phases[id]? = some old) (hself : ds.countP (did id) + (f old).toNat = (f phase).toNat)
    (hothers : ∀ id', id' ≠ id → ds.countP (did id') = 0) :
    Tallies (deeds ++ ds) (phases.set id phase) did f := by
  intro id'
  have htally := h id'
  rw [List.countP_append]
  by_cases hid : id' = id
  · subst hid
    rw [getElem?_set_same hold]
    rw [hold] at htally
    simp only [Option.any_some] at htally ⊢
    omega
  · rw [List.getElem?_set_ne (Ne.symm hid), hothers id' hid]
    exact htally

/-- There is one more job. -/
theorem append (h : Tallies deeds phases did f) {phase : Phase}
    (hself : ds.countP (did phases.length) = (f phase).toNat)
    (hothers : ∀ id', id' ≠ phases.length → ds.countP (did id') = 0) :
    Tallies (deeds ++ ds) (phases ++ [phase]) did f := by
  intro id'
  have htally := h id'
  rw [List.countP_append]
  by_cases hid : id' = phases.length
  · subst hid
    rw [List.getElem?_eq_none (Nat.le_refl _)] at htally
    rw [List.getElem?_concat_length, htally, hself]
    exact Nat.zero_add _
  · rw [hothers id' hid, List.getElem?_append]
    by_cases hlt : id' < phases.length
    · rw [if_pos hlt]
      exact htally
    · rw [if_neg hlt, List.getElem?_singleton, if_neg (by omega)]
      rw [List.getElem?_eq_none (Nat.le_of_not_lt hlt)] at htally
      exact htally

end Tallies

structure Ledger (deeds : List Deed) (o : Outline) : Prop where
  submitted : deeds.filterMap Deed.submitted? = List.range o.phases.length
  queue : taken deeds ++ o.queue = (accepted deeds).map .run ++
    if o.closed then List.replicate o.activities.length .stop else []
  stops : ∀ w : Nat, deeds.count (.take w .stop) = if o.activities[w]? = some .exited then 1 else 0
  last : deeds.Pairwise Deed.MayPrecede
  started : Tallies deeds o.phases Deed.starts Phase.hasBegun
  decided : Tallies deeds o.phases Deed.decides Phase.isDecided
  exits : o.queue.count .stop + o.activities.count .exited = if o.closed then o.activities.length
    else 0
  refusals : ∀ id e, .refuse id e ∈ deeds → e.isRefusal = true

theorem ledger_new (n : Nat) : Ledger [] ⟨[], List.replicate n .idle, [], false⟩ where
  submitted := rfl
  queue := rfl
  stops w := by
    rw [if_neg]
    · rfl
    · intro hexited
      cases List.eq_of_mem_replicate (List.mem_of_getElem? hexited)
  last := .nil
  started id := rfl
  decided id := rfl
  exits := by simp [List.count_replicate]
  refusals := nofun

/-- A worker that has not stopped and does not stop now. -/
theorem exited_set {activities : List Activity} {w : Nat} {old activity : Activity}
    (hold : activities[w]? = some old) (h : old ≠ .exited) (h' : activity ≠ .exited) :
    (activities.set w activity).count .exited = activities.count .exited ∧
      ∀ w' : Nat, (activities.set w activity)[w']? = some .exited ↔
      activities[w']? = some .exited := by
  obtain ⟨hlt, hget⟩ := List.getElem?_eq_some_iff.mp hold
  refine ⟨?_, fun w' => ?_⟩
  · rw [List.count_set hlt, hget]
    simp [h, h']
  · by_cases hw : w = w'
    · subst hw
      rw [getElem?_set_same hold, hold]
      simp [h, h']
    · rw [List.getElem?_set_ne hw]

namespace Ledger

variable {deeds : List Deed}

/-- A worker that has not stopped took no order to stop. -/
theorem take_stop_not_mem (h : Ledger deeds o) {w : Nat} {activity : Activity}
    (hw : o.activities[w]? = some activity) (hrunning : activity ≠ .exited) :
    .take w .stop ∉ deeds := by
  have hstops := h.stops w
  rw [hw, if_neg (by simpa using hrunning)] at hstops
  exact List.count_eq_zero.mp hstops

/-- Nothing but the taking of an order follows the taking of an order to stop. -/
theorem last_append (h : Ledger deeds o) {d : Deed} (hd : d.taken? = none) :
    (deeds ++ [d]).Pairwise Deed.MayPrecede := by
  refine List.pairwise_append.mpr ⟨h.last, List.pairwise_singleton _ _,
    fun _ _ d' hd' w order _ heq => ?_⟩
  obtain rfl := List.mem_singleton.mp hd'
  rw [heq] at hd
  cases hd

/-- A worker goes on with its job. -/
theorem goOn (h : Ledger deeds o) {w id : Nat} {old phase : Phase} {activity : Activity}
    (busy : o.activities[w]? = some (.busy id)) (held : o.phases[id]? = some old)
    (hactivity : activity ≠ .exited) (hbegun : old.hasBegun = phase.hasBegun)
    (hdecided : old.isDecided = phase.isDecided) :
    Ledger deeds { o with
      phases := o.phases.set id phase, activities := o.activities.set w activity } := by
  obtain ⟨hcount, hexited⟩ := exited_set busy Activity.noConfusion hactivity
  have htally : ∀ {did : Nat → Deed → Bool} {f : Phase → Bool}, f old = f phase →
      Tallies deeds o.phases did f → Tallies deeds (o.phases.set id phase) did f := by
    intro did f hsame htally
    have hself : ([] : List Deed).countP (did id) + (f old).toNat = (f phase).toNat := by
      rw [hsame]
      exact Nat.zero_add _
    have hset := htally.set held hself fun _ _ => rfl
    rwa [List.append_nil] at hset
  exact {
    submitted := by rw [List.length_set, h.submitted]
    queue := by rw [List.length_set, h.queue]
    stops := fun w' => by rw [h.stops w']; simp only [hexited w']
    last := h.last
    started := htally hbegun h.started
    decided := htally hdecided h.decided
    exits := by rw [hcount, List.length_set, h.exits]
    refusals := h.refusals }

/-- Only a refusal goes down in the history as one. -/
theorem refusals_append (h : Ledger deeds o) {d : Deed}
    (hd : ∀ id e, d = .refuse id e → e.isRefusal = true) (id : Nat) (e : Error)
    (hmem : .refuse id e ∈ deeds ++ [d]) : e.isRefusal = true := by
  rcases List.mem_append.mp hmem with hold | hnew
  · exact h.refusals id e hold
  · exact hd id e (List.mem_singleton.mp hnew).symm

/-- It is settled what becomes of the job that a worker has: it is begun or turned away. -/
theorem settle (h : Ledger deeds o) {w id : Nat} {inTime : Bool} {phase : Phase}
    {activity : Activity} {d : Deed} (busy : o.activities[w]? = some (.busy id))
    (held : o.phases[id]? = some (.settled inTime)) (hactivity : activity ≠ .exited)
    (hphase : d = .start id ∧ phase.hasBegun = true ∨
      ∃ e, d = .refuse id e ∧ e.isRefusal = true ∧ phase = .refused) :
    Ledger (deeds ++ [d])
      { o with phases := o.phases.set id phase, activities := o.activities.set w activity } := by
  obtain ⟨hcount, hexited⟩ := exited_set busy Activity.noConfusion hactivity
  have hplain : d.submitted? = none ∧ d.accepted? = none ∧ d.taken? = none := by
    rcases hphase with ⟨rfl, -⟩ | ⟨e, rfl, -, -⟩ <;> exact ⟨rfl, rfl, rfl⟩
  obtain ⟨hsubmitted, haccepted, htaken⟩ := hplain
  have hstarts :
      ∀ id', [d].countP (Deed.starts id') = if id = id' then phase.hasBegun.toNat else 0 := by
    intro id'
    rcases hphase with ⟨rfl, hbegun⟩ | ⟨e, rfl, -, rfl⟩
    · simp [List.countP_cons, Deed.starts, hbegun]
    · simp [Deed.starts, Phase.hasBegun]
  have hdecides : ∀ id', [d].countP (Deed.decides id') = if id = id' then phase.isDecided.toNat
      else 0 := by
    intro id'
    rcases hphase with ⟨rfl, hbegun⟩ | ⟨e, rfl, -, rfl⟩
    · have hdecided : phase.isDecided = true := by cases phase <;> first | rfl | exact hbegun
      simp [List.countP_cons, Deed.decides, hdecided]
    · simp [List.countP_cons, Deed.decides, Phase.isDecided]
  exact {
    submitted := by simp [hsubmitted, h.submitted]
    queue := by simpa [taken_concat, accepted_concat, htaken, haccepted] using h.queue
    stops := fun w' => by
      have hne : [d].count (.take w' .stop) = 0 :=
        List.count_eq_zero.mpr fun hmem => by
          rw [← List.mem_singleton.mp hmem] at htaken
          cases htaken
      rw [List.count_append, hne, h.stops w']
      simp only [hexited w']
      rfl
    last := h.last_append htaken
    started := h.started.set held (by rw [hstarts id, if_pos rfl]; rfl) fun id' hid => by
      rw [hstarts id', if_neg (Ne.symm hid)]
    decided := h.decided.set held (by rw [hdecides id, if_pos rfl]; rfl) fun id' hid => by
      rw [hdecides id', if_neg (Ne.symm hid)]
    exits := by rw [hcount, List.length_set, h.exits]
    refusals := h.refusals_append fun id e heq => by
      rcases hphase with ⟨rfl, -⟩ | ⟨e', rfl, hrefusal, -⟩ <;> cases heq
      exact hrefusal }

/-- An idle worker that takes an order took no order to stop before. -/
theorem last_take (h : Ledger deeds o) {w : Nat}
    (idle : o.activities[w]? = some .idle) (order : Order) :
    (deeds ++ [Deed.take w order]).Pairwise Deed.MayPrecede := by
  refine List.pairwise_append.mpr ⟨h.last, List.pairwise_singleton _ _, ?_⟩
  intro d hd d' hd' w' order' hstop htake
  cases (List.mem_singleton.mp hd').symm.trans htake
  exact h.take_stop_not_mem idle Activity.noConfusion (hstop ▸ hd)

theorem takeJob (h : Ledger deeds o) {w id : Nat} {rest : List Order}
    (idle : o.activities[w]? = some .idle) (queue : o.queue = .run id :: rest)
    (waiting : o.phases[id]? = some .queued) :
    Ledger (deeds ++ [.take w (.run id)]) { o with
      phases := o.phases.set id .taken, activities :=
        o.activities.set w (.busy id), queue := rest } := by
  have hbusy : Activity.busy id ≠ .exited := Activity.noConfusion
  obtain ⟨hcount, hexited⟩ := exited_set idle Activity.noConfusion hbusy
  have hqueue := h.queue
  have hexits := h.exits
  rw [queue] at hqueue hexits
  exact {
    submitted := by simp [Deed.submitted?, h.submitted]
    queue := by simpa [taken_concat, accepted_concat, Deed.taken?, Deed.accepted?] using hqueue
    stops := fun w' => by
      rw [List.count_append, h.stops w']
      simp [hexited w']
    last := h.last_take idle _
    started := h.started.set waiting rfl fun _ _ => rfl
    decided := h.decided.set waiting rfl fun _ _ => rfl
    exits := by
      rw [hcount, List.length_set, ← hexits, List.count_cons_of_ne Order.noConfusion]
    refusals := h.refusals_append nofun }

theorem takeStop (h : Ledger deeds o) {w : Nat} {rest : List Order}
    (idle : o.activities[w]? = some .idle) (queue : o.queue = .stop :: rest) :
      Ledger (deeds ++ [.take w .stop])
      { o with activities := o.activities.set w .exited, queue := rest } := by
  have hqueue := h.queue
  have hexits := h.exits
  obtain ⟨hlt, hget⟩ := List.getElem?_eq_some_iff.mp idle
  rw [queue] at hqueue hexits
  exact {
    submitted := by simp [Deed.submitted?, h.submitted]
    queue := by simpa [taken_concat, accepted_concat, Deed.taken?, Deed.accepted?] using hqueue
    stops := fun w' => by
      rw [List.count_append, h.stops w', List.getElem?_set]
      by_cases hw : w = w'
      · subst hw
        simp [hlt, hget]
      · simp [hw]
    last := h.last_take idle _
    started := fun id => by simpa [Deed.starts] using h.started id
    decided := fun id => by simpa [Deed.decides] using h.decided id
    exits := by
      rw [List.count_set hlt, hget, List.length_set]
      rw [List.count_cons_self] at hexits
      simp only [beq_self_eq_true, if_true, reduceCtorEq, beq_iff_eq, if_false]
      omega
    refusals := h.refusals_append nofun }

theorem accept (h : Ledger deeds o) (opened : o.closed = false) :
    Ledger (deeds ++ [.accept o.phases.length]) { o with
      phases := o.phases ++ [.queued], queue := o.queue ++ [.run o.phases.length] } := by
  have hqueue := h.queue
  have hexits := h.exits
  rw [opened] at hqueue hexits
  simp only [Bool.false_eq_true, if_false, List.append_nil] at hqueue hexits
  exact {
    submitted := by simp [Deed.submitted?, h.submitted, List.range_succ]
    queue := by simp [taken_concat, accepted_concat, ← hqueue, opened, Deed.taken?, Deed.accepted?]
    stops := fun w => by
      rw [List.count_append, h.stops w]
      simp
    last := h.last_append rfl
    started := h.started.append rfl fun _ _ => rfl
    decided := h.decided.append rfl fun _ _ => rfl
    exits := by simpa [opened] using hexits
    refusals := h.refusals_append nofun }

theorem reject (h : Ledger deeds o) : Ledger (deeds ++ [.reject o.phases.length])
    { o with phases := o.phases ++ [.refused] } where
  submitted := by simp [Deed.submitted?, h.submitted, List.range_succ]
  queue := by simpa [taken_concat, accepted_concat, Deed.taken?, Deed.accepted?] using h.queue
  stops w := by
    rw [List.count_append, h.stops w]
    simp
  last := h.last_append rfl
  started := h.started.append rfl fun _ _ => rfl
  decided := h.decided.append (by simp [Deed.decides, Phase.isDecided]) fun id hid => by
    simp [Deed.decides, Ne.symm hid]
  exits := h.exits
  refusals := h.refusals_append nofun

theorem close (h : Ledger deeds o) (opened : o.closed = false) : Ledger deeds { o with
    closed := true, queue := o.queue ++ List.replicate o.activities.length .stop } := by
  have hqueue := h.queue
  have hexits := h.exits
  rw [opened] at hqueue hexits
  simp only [Bool.false_eq_true, if_false, List.append_nil] at hqueue hexits
  exact { h with
    queue := by rw [← List.append_assoc, hqueue, if_pos rfl]
    exits := by
      rw [List.count_append, List.count_replicate_self, if_pos rfl]
      dsimp only
      omega }

theorem next (h : Ledger deeds o) (hn : o.Next d o') : Ledger (deeds ++ d.toList) o' := by
  cases hn with
  | quiet => rwa [Option.toList_none, List.append_nil]
  | accept opened => exact h.accept opened
  | reject => exact h.reject
  | takeJob idle queue waiting => exact h.takeJob idle queue waiting
  | takeStop idle queue => exact h.takeStop idle queue
  | start busy settled begun => exact h.settle busy settled Activity.noConfusion (.inl ⟨rfl, begun⟩)
  | refuse busy settled refusal =>
    exact h.settle busy settled Activity.noConfusion (.inr ⟨_, rfl, refusal, rfl⟩)
  | @goOn w id phase phase' busy held unfinished _ unrefused same =>
    rw [Option.toList_none, List.append_nil]
    refine h.goOn busy held ?_ same.symm ?_
    · split <;> exact Activity.noConfusion
    · have hphase : phase ≠ .refused := by
        rintro rfl
        cases unfinished
      have hdecided : ∀ {phase : Phase}, phase ≠ .refused → phase.isDecided = phase.hasBegun := by
        intro phase hne
        cases phase <;> first | rfl | exact absurd rfl hne
      rw [hdecided hphase, hdecided unrefused, same]
  | close opened =>
    rw [Option.toList_none, List.append_nil]
    exact h.close opened

theorem mem_accepted {id : Nat} : id ∈ accepted deeds ↔ .accept id ∈ deeds := by
  rw [accepted, List.mem_filterMap]
  constructor
  · rintro ⟨d, hd, hid⟩
    cases d <;> cases hid
    exact hd
  · exact fun hid => ⟨_, hid, rfl⟩

/-- A job that was accepted is there. -/
theorem lt_of_accepted (h : Ledger deeds o) {id : Nat} (hid : id ∈ accepted deeds) :
    id < o.phases.length := by
  rw [← List.mem_range, ← h.submitted]
  exact List.mem_filterMap.mpr ⟨_, mem_accepted.mp hid, rfl⟩

/-- A job that was accepted was not rejected. -/
theorem not_rejected (h : Ledger deeds o) {id : Nat} (hid : id ∈ accepted deeds) :
    .reject id ∉ deeds := by
  obtain ⟨before, after, rfl⟩ := List.append_of_mem (mem_accepted.mp hid)
  have hnodup := h.submitted ▸ List.nodup_range
  have hid : Deed.submitted? (.accept id) = some id := rfl
  rw [List.filterMap_append, List.filterMap_cons_some hid, List.nodup_middle, List.nodup_cons,
    ← List.filterMap_append] at hnodup
  intro hreject
  apply hnodup.1
  rw [List.mem_filterMap]
  refine ⟨.reject id, ?_, rfl⟩
  rcases List.mem_append.mp hreject with hbefore | hafter
  · exact List.mem_append_left _ hbefore
  · exact List.mem_append_right _ ((List.mem_cons.mp hafter).resolve_left Deed.noConfusion)

/-- A job that was begun is said to be so by the history. -/
theorem start_mem (h : Ledger deeds o) {id : Nat} {phase : Phase}
    (hphase : o.phases[id]? = some phase) (hbegun : phase.hasBegun = true) : .start id ∈ deeds := by
  have hstarted := h.started id
  rw [hphase, Option.any_some, hbegun] at hstarted
  have hpos : 0 < deeds.countP (Deed.starts id) := by
    rw [hstarted]
    exact Nat.one_pos
  obtain ⟨d, hd, hstarts⟩ := List.countP_pos_iff.mp hpos
  cases d with
  | start i =>
    obtain rfl : i = id := of_decide_eq_true hstarts
    exact hd
  | _ => cases hstarts

theorem begun_of_start (h : Ledger deeds o) {id : Nat} (hid : .start id ∈ deeds) :
    ∃ phase, o.phases[id]? = some phase ∧ phase.hasBegun = true := by
  have hpos : 0 < deeds.countP (Deed.starts id) :=
    List.countP_pos_iff.mpr ⟨_, hid, decide_eq_true rfl⟩
  have hany : (o.phases[id]?).any Phase.hasBegun = true := by
    refine Bool.ne_false_iff.mp fun hnone => ?_
    rw [h.started id, hnone] at hpos
    cases hpos
  exact (Option.any_eq_true ..).mp hany

/-- An accepted job that was turned away was so by a worker. -/
theorem refuse_mem (h : Ledger deeds o) {id : Nat} (hid : id ∈ accepted deeds)
    (hphase : o.phases[id]? = some .refused) : ∃ e, .refuse id e ∈ deeds ∧ e.isRefusal = true := by
  have hdecided := h.decided id
  have hstarted := h.started id
  rw [hphase] at hdecided hstarted
  have hpos : 0 < deeds.countP (Deed.decides id) := by
    rw [hdecided]
    exact Nat.one_pos
  obtain ⟨d, hd, hdecides⟩ := List.countP_pos_iff.mp hpos
  cases d with
  | reject i =>
    obtain rfl : i = id := of_decide_eq_true hdecides
    exact (h.not_rejected hid hd).elim
  | start i => exact (List.countP_eq_zero.mp hstarted _ hd hdecides).elim
  | refuse i e =>
    obtain rfl : i = id := of_decide_eq_true hdecides
    exact ⟨e, hd, h.refusals i e hd⟩
  | _ => cases hdecides

end Ledger

end Outline

namespace Pool

variable {σ ω : Type}

theorem outline_new (connections : List σ) (limit : Option Duration) :
    (new connections limit : Pool σ ω).outline =
      ⟨[], List.replicate connections.length .idle, [], false⟩ := by
  have hidle : (Worker.activity ∘ fun s => (⟨s, .idle⟩ : Worker σ)) = fun _ => .idle := rfl
  simp [outline, new, hidle, List.map_const']

/-- No worker comes, and none is forgotten. -/
theorem new_run_workers (connections : List σ) (limit : Option Duration)
    (events : List (Event σ ω)) :
    ((new connections limit).run events).workers.length = connections.length := by
  have hlength :
      ((new connections limit).run events).outline.activities.length = connections.length := by
    apply new_run_outline (I := fun _ o => o.activities.length = connections.length)
    · rw [outline_new, List.length_replicate]
    · intro deeds o o' d h hn
      cases hn <;> simpa using h
  rwa [outline, List.length_map] at hlength

/-- At all times the accounts of a pool that started without jobs are in order, and each job is
where it has to be. -/
theorem new_run_ledger (connections : List σ) (limit : Option Duration)
    (events : List (Event σ ω)) :
    Outline.Ledger ((new connections limit).history events)
      ((new connections limit).run events).outline ∧
      ((new connections limit).run events).outline.Placed := by
  apply new_run_outline (I := fun deeds o => Outline.Ledger deeds o ∧ o.Placed)
  · rw [outline_new]
    exact ⟨Outline.ledger_new _, Outline.placed_new _⟩
  · exact fun h hn => ⟨h.1.next hn, h.2.next hn⟩

end Pool

end TypedTables
