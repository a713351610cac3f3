import TypedTables.Proofs.ConnectionTransactions

/-!
# Batches and their items in turn

What an engine has to guarantee so that the items of a batch could as well be run one after the
other. In a transaction of their own they do the same as in the batch. Each by itself is a
transaction, which is committed at once: so a constraint that is checked at the end of a transaction
may refuse an item where it lets the batch pass.
-/
namespace TypedTables.Engine

variable {σ ι D : Type}

def Interface.Commits (E : Interface σ) (s : σ) : Prop :=
  ∃ answer s', E.run "COMMIT" .empty s = (.ok answer, s')

/-- A statement sees a part `db` of a connection and whether a transaction is open. In one that is
open it leaves it open. Without one it is a transaction by itself: it does what it does inside of
one, if a COMMIT is accepted then, and is refused otherwise. -/
structure Interface.Autocommits (E : Interface σ) (db : σ → D) (text : String) : Prop where
  begun : ∀ {s s' answer}, E.run "BEGIN DEFERRED" .empty s = (.ok answer, s') →
    db s' = db s ∧ E.inTransaction s = false ∧ E.inTransaction s' = true
  committed : ∀ {s s' answer}, E.run "COMMIT" .empty s = (.ok answer, s') → db s' = db s
  commits : ∀ {s r}, E.Commits s → E.inTransaction r = true → db r = db s → E.Commits r
  prepared : ∀ s, db (E.prepare text s).2 = db s ∧
    E.inTransaction (E.prepare text s).2 = E.inTransaction s
  preparable : ∀ {s s' params answer}, E.run text params s = (.ok answer, s') →
    ∃ names, (E.prepare text s).1 = .ok names
  ran : ∀ {s s' r params answer}, E.inTransaction s = true →
    E.run text params s = (.ok answer, s') →
    E.inTransaction r = true → db r = db s →
      ∃ r', E.run text params r = (.ok answer, r') ∧ db r' = db s' ∧ E.inTransaction r' = true
  alone : ∀ {s s' r params answer}, E.inTransaction s = true →
    E.run text params s = (.ok answer, s') →
    E.inTransaction r = false → db r = db s →
      (E.Commits s' →
        ∃ r', E.run text params r = (.ok answer, r') ∧ db r' = db s' ∧ E.inTransaction r' = false) ∧
      (¬ E.Commits s' → ∃ fault r', E.run text params r = (.error fault, r'))

namespace Interface

variable {E : Interface σ} {db : σ → D} {text : String} {encode : ι → Except Error Params}

/-- A property of the states behind the items of a batch that run. -/
def Throughout (E : Interface σ) (text : String) (encode : ι → Except Error Params) (K : σ → Prop)
    (s : σ) (items : List ι) : Prop :=
  ∀ before after n s', items = before ++ after → before ≠ [] →
    Ran E text encode s before n s' → K s'

theorem Throughout.head {K : σ → Prop} {s s₁ : σ} {i : ι} {is : List ι} {params : Params}
    {answer : Answer} (h : E.Throughout text encode K s (i :: is)) (hencode : encode i = .ok params)
    (hrun : E.running text params s = (.ok answer, s₁)) : K s₁ :=
  h [i] is _ s₁ rfl (List.cons_ne_nil i []) (.cons hencode hrun (.nil s₁))

/-- A property holds throughout a batch if it holds behind the first item and throughout the
others. -/
theorem throughout_cons {K : σ → Prop} {s s₁ : σ} {i : ι} {is : List ι} {params : Params}
    {answer : Answer} (hencode : encode i = .ok params)
    (hrun : E.running text params s = (.ok answer, s₁)) :
    E.Throughout text encode K s (i :: is) ↔ K s₁ ∧ E.Throughout text encode K s₁ is := by
  constructor
  · intro h
    refine ⟨h.head hencode hrun, fun before after n s' heq _ hran => ?_⟩
    exact h (i :: before) after _ s' (by rw [heq]; rfl) (List.cons_ne_nil i before)
      (.cons hencode hrun hran)
  · rintro ⟨hfirst, hrest⟩ before after n s' heq hne hran
    cases hran with
    | nil => exact absurd rfl hne
    | @cons _ _ _ _ before _ _ _ hencode' hrun' hran =>
      cases heq
      cases hencode.symm.trans hencode'
      cases hrun.symm.trans hrun'
      rcases eq_or_ne before [] with rfl | hbefore
      · cases hran
        exact hfirst
      · exact hrest before after _ s' rfl hbefore hran

theorem running_of_run {params : Params} {answer : Answer} {s s' : σ}
    (h : E.run text params s = (.ok answer, s')) : E.running text params s = (.ok answer, s') := by
  rw [running, h]
  rfl

theorem preparing_of_prepare {names : List String} {s : σ} (h : (E.prepare text s).1 = .ok names) :
    E.preparing text s = (.ok names, (E.prepare text s).2) := by
  rw [preparing]
  dsimp only
  rw [h]
  rfl

/-- A change runs its statement once it is prepared. -/
theorem change_of_run {params : Params} {answer : Answer} {names : List String} {r r' : σ}
    (hnames : (E.prepare text r).1 = .ok names)
    (h : E.run text params (E.prepare text r).2 = (.ok answer, r')) :
    E.change text params r = (.ok answer.changes, r') := by
  rw [Interface.change, stateful_bind, preparing_of_prepare hnames]
  dsimp only
  rw [stateful_bind, running_of_run h]
  rfl

/-- A statement that succeeded in a batch does the same in another transaction where it sees the
same. -/
theorem Autocommits.change (hE : E.Autocommits db text) {params : Params}
    {answer : Answer} {s s' r : σ} (hs : E.inTransaction s = true)
    (h : E.running text params s = (.ok answer, s')) (hr : E.inTransaction r = true)
    (hdb : db r = db s) :
    ∃ r', E.change text params r = (.ok answer.changes, r') ∧ db r' = db s' ∧
      E.inTransaction r' = true := by
  have hrun := running_eq_ok h
  obtain ⟨hsame, hopen⟩ := hE.prepared r
  obtain ⟨_, hthere, -⟩ := hE.ran hs hrun hr hdb
  obtain ⟨names, hnames⟩ := hE.preparable hthere
  obtain ⟨r', hr', hdb', hopen'⟩ := hE.ran hs hrun (hopen.trans hr) (hsame.trans hdb)
  exact ⟨r', change_of_run hnames hr', hdb', hopen'⟩

theorem Autocommits.open_of_running (hE : E.Autocommits db text) {params : Params} {answer : Answer}
    {s s' : σ} (hs : E.inTransaction s = true) (h : E.running text params s = (.ok answer, s')) :
    E.inTransaction s' = true := by
  have hrun := running_eq_ok h
  obtain ⟨r', hr', -, hopen⟩ := hE.ran hs hrun hs rfl
  cases hrun.symm.trans hr'
  exact hopen

/-- By itself it does the same if a COMMIT is accepted behind it. -/
theorem Autocommits.change_alone (hE : E.Autocommits db text) {params : Params} {answer : Answer}
    {s s' r : σ} (hs : E.inTransaction s = true) (h : E.running text params s = (.ok answer, s'))
    (hcommits : E.Commits s') (hr : E.inTransaction r = false) (hdb : db r = db s) :
    ∃ r', E.change text params r = (.ok answer.changes, r') ∧ db r' = db s' ∧
      E.inTransaction r' = false := by
  have hrun := running_eq_ok h
  obtain ⟨hsame, hopen⟩ := hE.prepared r
  obtain ⟨_, hthere, -⟩ := (hE.alone hs hrun hr hdb).1 hcommits
  obtain ⟨names, hnames⟩ := hE.preparable hthere
  obtain ⟨r', hr', hdb', hopen'⟩ := (hE.alone hs hrun (hopen.trans hr) (hsame.trans hdb)).1 hcommits
  exact ⟨r', change_of_run hnames hr', hdb', hopen'⟩

/-- It is refused if a COMMIT is. -/
theorem Autocommits.change_refused (hE : E.Autocommits db text) {params : Params} {answer : Answer}
    {s s' r : σ} (hs : E.inTransaction s = true) (h : E.running text params s = (.ok answer, s'))
    (hcommits : ¬ E.Commits s') (hr : E.inTransaction r = false) (hdb : db r = db s) :
    ∃ e r', E.change text params r = (.error e, r') := by
  obtain ⟨hsame, hopen⟩ := hE.prepared r
  rw [Interface.change, stateful_bind]
  rcases hprepare : E.preparing text r with ⟨prepared, r₁⟩
  cases prepared with
  | error e => exact ⟨e, r₁, rfl⟩
  | ok names =>
    have hstate : (E.prepare text r).2 = r₁ := congrArg Prod.snd hprepare
    obtain ⟨fault, r', hrefused⟩ :=
      (hE.alone hs (running_eq_ok h) (hstate ▸ hopen.trans hr) (hstate ▸ hsame.trans hdb)).2
        hcommits
    refine ⟨.refused text fault, r', ?_⟩
    dsimp only
    rw [stateful_bind, running, hrefused]
    rfl

/-- Where a batch starts its statement sees what was there before, in a transaction. -/
theorem Autocommits.started (hE : E.Autocommits db text) {s s₁ : σ} (h : E.Started text s s₁) :
    ∃ s₀, E.control "BEGIN DEFERRED" s = (.ok (), s₀) ∧ E.inTransaction s = false ∧
      (db s₀ = db s ∧ E.inTransaction s₀ = true) ∧ db s₁ = db s ∧ E.inTransaction s₁ = true := by
  obtain ⟨s₀, names, hbegin, hprepare⟩ := h
  obtain ⟨answer, hrun⟩ := control_eq_ok hbegin
  obtain ⟨hdb, hclosed, hopen⟩ := hE.begun hrun
  obtain ⟨hsame, hkept⟩ := hE.prepared s₀
  have hstate : (E.prepare text s₀).2 = s₁ := congrArg Prod.snd hprepare
  rw [hstate] at hsame hkept
  exact ⟨s₀, hbegin, hclosed, ⟨hdb, hopen⟩, hsame.trans hdb, hkept.trans hopen⟩

/-- A transaction that sees the same can be committed too, and leads to the same. -/
theorem Autocommits.control_commit (hE : E.Autocommits db text) {s s' r : σ}
    (h : E.control "COMMIT" s = (.ok (), s')) (hr : E.inTransaction r = true) (hdb : db r = db s) :
    ∃ r', E.control "COMMIT" r = (.ok (), r') ∧ db r' = db s' := by
  obtain ⟨answer, hrun⟩ := control_eq_ok h
  obtain ⟨answer', r', hrun'⟩ := hE.commits ⟨answer, s', hrun⟩ hr hdb
  refine ⟨r', ?_, (hE.committed hrun').trans (hdb.trans (hE.committed hrun).symm)⟩
  rw [control, hrun']
  rfl

/-- What a batch that succeeded has run, in whatever state it was begun. -/
theorem ran_of_batch {items : List ι} {s s' : σ} {n : Nat}
    (h : E.batch text encode items s = (.ok n, s')) :
    ∃ s₁ s₂, E.Started text s s₁ ∧ Ran E text encode s₁ items n s₂ ∧
    E.control "COMMIT" s₂ = (.ok (), s') := by
  rcases hbegin : E.control "BEGIN DEFERRED" s with ⟨r, s₀⟩
  cases r with
  | error e =>
    rw [batch_of_refused hbegin] at h
    cases h
  | ok _ =>
    rcases hprepare : E.preparing text s₀ with ⟨r, s₁⟩
    cases r with
    | error e =>
      rw [batch_of_unprepared hbegin hprepare] at h
      cases h
    | ok names =>
      have hstarted : E.Started text s s₁ := ⟨s₀, names, hbegin, hprepare⟩
      rcases ran_or_stopped E text encode items s₁ with
          ⟨m, s₂, hran⟩ | ⟨consumed, rest, e, s₂, rfl, hstopped⟩
      · rw [batch_of_ran hstarted hran] at h
        rcases hcommit : E.control "COMMIT" s₂ with ⟨r, s₃⟩
        rw [hcommit] at h
        cases r with
        | error e => cases h
        | ok _ =>
          cases h
          exact ⟨s₁, s₂, hstarted, hran, hcommit⟩
      · rw [batch_of_stopped hstarted hstopped] at h
        cases h

theorem Ran.encoded {s s' : σ} {items : List ι} {n : Nat} (h : Ran E text encode s items n s') :
    ∀ i ∈ items, ∃ params, encode i = .ok params := by
  induction h with
  | nil s => exact fun _ hi => absurd hi List.not_mem_nil
  | cons hparams _ _ ih =>
    intro i hi
    rcases List.mem_cons.mp hi with rfl | hi
    · exact ⟨_, hparams⟩
    · exact ih i hi

/-- An item that cannot be encoded stops a batch behind the items that ran. -/
theorem Ran.stopped {s s' : σ} {before : List ι} {n : Nat}
    (h : Ran E text encode s before n s') {i : ι} {e : Error} (hencode : encode i = .error e) :
    Stopped E text encode s (before ++ [i]) e s' := by
  induction h with
  | nil s => exact .encoding hencode
  | cons hparams hrun _ ih => exact .cons hparams hrun ih

end Interface

namespace Connection

variable {c c' : Connection} {text : String}

/-- A connection without the state that is kept for an open transaction. -/
def outside (c : Connection) : Connection := { c with saved := none }

theorem eq_of_outside {r : Connection} (h : r.outside = c.outside) :
    r = { c with saved := r.saved } := by
  cases r
  cases c
  cases h
  rfl

/-- A change that is made in a transaction does not depend on the kept state. Outside of a
transaction it is refused if it violates references that would have to be settled before the
transaction ends. -/
theorem change_saved {p : Place} {params : String → Stored} {returned : List NamedOutput}
    {f : StoredTable → Changed} {answer : Answer} (hc : c.inTransaction = true)
    (h : c.change p params returned f = (.ok answer, c')) (saved : Option Catalog) :
    c'.inTransaction = true ∧ change { c with saved } p params returned f =
      if saved.isNone && c'.isUnsettled then (.error .foreignKeyFailed, { c with saved })
      else (.ok answer, { c' with saved }) := by
  rw [change] at h ⊢
  dsimp only at h ⊢
  cases htable : c.catalog.table? p with
  | none =>
    rw [htable] at h
    cases h
  | some t =>
    rw [htable] at h
    dsimp only at h ⊢
    split at h
    next hmay =>
      rw [show mayWrite { c with saved } p.database = true from hmay, if_pos rfl]
      rw [settle] at h ⊢
      dsimp only at h ⊢
      generalize c.catalog.setTable p.database ((f t).settle t).table = after at h ⊢
      split at h
      · cases h
      next hforbids =>
        cases hstop : (f t).stop with
        | some refusal =>
          rw [hstop] at h
          cases h
        | none =>
          rw [hstop] at h
          cases h
          have himmediate : (c.settings.foreignKeys &&
              c.catalog.violations false < after.violations false) = false := by
            rw [forbids, hc] at hforbids
            simpa using hforbids
          have hnow : forbids { c with saved } after =
              (saved.isNone && (c.advance after).isUnsettled) := by
            rw [forbids]
            change (c.settings.foreignKeys && _ || !saved.isSome && _) = _
            rw [himmediate, Bool.false_or, Option.not_isSome]
            rfl
          refine ⟨hc, ?_⟩
          rw [hnow]
          rfl
    · cases h

/-- So does a statement that changes rows. -/
theorem run_saved (ht : StartsChange text) {params : Params} {answer : Answer}
    (hc : c.inTransaction = true) (h : c.run text params = (.ok answer, c'))
    (saved : Option Catalog) :
    c'.inTransaction = true ∧ run { c with saved } text params =
      if saved.isNone && c'.isUnsettled then (.error .foreignKeyFailed, { c with saved })
      else (.ok answer, { c' with saved }) := by
  have hplans : plan { c with saved } text = c.plan text := rfl
  rw [run] at h ⊢
  rw [hplans]
  cases hplan : c.plan text with
  | error fault =>
    rw [hplan] at h
    cases h
  | ok plan =>
    rw [hplan] at h
    dsimp only at h ⊢
    cases hbound : bind plan params with
    | error fault =>
      rw [hbound] at h
      cases h
    | ok bound =>
      rw [hbound] at h
      have hchanges := plan_changesRows ht hplan
      cases plan with
      | insert p conflict targets rows returned => exact change_saved hc h saved
      | update p conflict set condition returned => exact change_saved hc h saved
      | _ => cases hchanges

theorem commits_iff : interface.Commits c ↔ c.inTransaction = true ∧ c.isUnsettled = false := by
  have hrun : interface.run "COMMIT" .empty c = _ := run_commit c
  rw [Interface.Commits, hrun]
  cases c.inTransaction <;> cases c.isUnsettled <;> simp

/-- A statement that changes rows sees all of a connection but the state kept for a transaction. -/
theorem autocommits (ht : StartsChange text) : interface.Autocommits outside text where
  begun := by
    intro c c' answer hrun
    change c.run "BEGIN DEFERRED" .empty = (.ok answer, c') at hrun
    rw [run_begin] at hrun
    split at hrun
    · cases hrun
    next hclosed =>
      cases hrun
      exact ⟨rfl, Bool.eq_false_iff.mpr hclosed, rfl⟩
  committed := by
    intro c c' answer hrun
    change c.run "COMMIT" .empty = (.ok answer, c') at hrun
    rw [run_commit] at hrun
    split at hrun
    · cases hrun
    split at hrun
    · cases hrun
    · cases hrun
      rfl
  commits := by
    intro c r hcommits hopen hr
    refine commits_iff.mpr ⟨hopen, ?_⟩
    rw [eq_of_outside hr]
    exact (commits_iff.mp hcommits).2
  prepared := fun _ => ⟨rfl, rfl⟩
  preparable := by
    intro c c' params answer hrun
    change c.run text params = (.ok answer, c') at hrun
    rw [run] at hrun
    change ∃ names, c.prepare text = .ok names
    rw [prepare]
    cases hplan : c.plan text with
    | error fault =>
      rw [hplan] at hrun
      cases hrun
    | ok plan => exact ⟨plan.columnNames, rfl⟩
  ran := by
    intro c c' r params answer hopen hrun hropen hr
    obtain ⟨-, hsame⟩ := run_saved ht hopen hrun r.saved
    rw [← eq_of_outside hr, ← Option.not_isSome, show r.saved.isSome = true from hropen] at hsame
    exact ⟨{ c' with saved := r.saved }, hsame, rfl, hropen⟩
  alone := by
    intro c c' r params answer hopen hrun hclosed hr
    obtain ⟨hopen', hsame⟩ := run_saved ht hopen hrun r.saved
    rw [← eq_of_outside hr, ← Option.not_isSome, show r.saved.isSome = false from hclosed] at hsame
    have hcommits : interface.Commits c' ↔ c'.isUnsettled = false := by
      rw [commits_iff]
      exact and_iff_right hopen'
    rw [hcommits]
    cases hsettled : c'.isUnsettled with
    | false =>
      rw [hsettled] at hsame
      exact ⟨fun _ => ⟨{ c' with saved := r.saved }, hsame, rfl, hclosed⟩,
        fun hno => absurd rfl hno⟩
    | true =>
      rw [hsettled] at hsame
      exact ⟨fun h => absurd h (by decide), fun _ => ⟨_, _, hsame⟩⟩

end Connection

end TypedTables.Engine
