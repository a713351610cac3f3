import TypedTables.Batch
import TypedTables.Proofs.Building

/-!
# Batches inside a transaction

What an engine has to guarantee so that a batch happens as a whole or not at all: a transaction that
is open remembers the database at its start, and whatever a refused statement leaves behind, undoing
the transaction brings that database back.
-/
namespace TypedTables.Engine

variable {σ ι D : Type}

/-- The transaction that began at a database is undone: it is open still, or the engine has rolled
it back. -/
def Interface.Undoable (E : Interface σ) (db : σ → D) (since : σ → D → Prop)
    (s : σ) (d : D) : Prop :=
  since s d ∨ E.inTransaction s = false ∧ db s = d

/-- The usual meaning of transactions, for the text of one statement: `db` is the database as a
connection sees it, and `since s d` says that a transaction is open in `s` which began at the
database `d`. -/
structure Interface.Transactional (E : Interface σ) (db : σ → D)
    (since : σ → D → Prop) (text : String) :
    Prop where
  isOpen : ∀ {s d}, since s d → E.inTransaction s = true
  begun : ∀ {s s' answer}, E.inTransaction s = false →
    E.run "BEGIN DEFERRED" .empty s = (.ok answer, s') → db s' = db s ∧ since s' (db s)
  notBegun : ∀ {s s' fault}, E.inTransaction s = false →
    E.run "BEGIN DEFERRED" .empty s = (.error fault, s') → db s' = db s ∧ E.inTransaction s' = false
  prepared : ∀ {s d}, since s d → db (E.prepare text s).2 = db s ∧ since (E.prepare text s).2 d
  ran : ∀ {s s' d params answer}, since s d → E.run text params s = (.ok answer, s') → since s' d
  refused : ∀ {s s' d params fault}, since s d → E.run text params s = (.error fault, s') →
    E.Undoable db since s' d
  committed : ∀ {s s' d answer}, since s d → E.run "COMMIT" .empty s = (.ok answer, s') →
    db s' = db s ∧ E.inTransaction s' = false
  notCommitted : ∀ {s s' d fault}, since s d → E.run "COMMIT" .empty s = (.error fault, s') →
    E.Undoable db since s' d
  rolledBack : ∀ {s d}, since s d →
    db (E.run "ROLLBACK" .empty s).2 = d ∧ E.inTransaction (E.run "ROLLBACK" .empty s).2 = false

namespace Interface

inductive Ran (E : Interface σ) (text : String) (encode : ι → Except Error Params) :
    σ → List ι → Nat → σ → Prop where
  | nil (s : σ) : Ran E text encode s [] 0 s
  | cons {s s₁ s₂ : σ} {i : ι} {is : List ι} {params : Params} {answer : Answer} {n : Nat}
    (encoded : encode i = .ok params) (executed : E.running text params s = (.ok answer, s₁))
    (rest : Ran E text encode s₁ is n s₂) : Ran E text encode s (i :: is) (answer.changes + n) s₂

/-- Items were consumed, and the last of them was refused: it could not be encoded, or the engine
refused to execute the statement for it. The items before it ran. -/
inductive Stopped (E : Interface σ) (text : String) (encode : ι → Except Error Params) :
    σ → List ι → Error → σ → Prop where
  | encoding {s : σ} {i : ι} {e : Error} (refused : encode i = .error e) :
      Stopped E text encode s [i] e s
  | execution {s s₁ : σ} {i : ι} {params : Params} {e : Error} (encoded : encode i = .ok params)
    (refused : E.running text params s = (.error e, s₁)) : Stopped E text encode s [i] e s₁
  | cons {s s₁ s₂ : σ} {i : ι} {is : List ι} {params : Params} {answer : Answer} {e : Error}
    (encoded : encode i = .ok params) (executed : E.running text params s = (.ok answer, s₁))
    (rest : Stopped E text encode s₁ is e s₂) : Stopped E text encode s (i :: is) e s₂

/-- A transaction was begun, and the statement prepared in it. -/
def Started (E : Interface σ) (text : String) (s s₁ : σ) : Prop :=
  ∃ s₀ names, E.control "BEGIN DEFERRED" s = (.ok (), s₀) ∧ E.preparing text s₀ = (.ok names, s₁)

variable {E : Interface σ} {text : String} {encode : ι → Except Error Params}

theorem forItems_cons (E : Interface σ) (text : String)
    (encode : ι → Except Error Params) (changed : Nat) (i : ι) (is : List ι) (s : σ) :
    E.forItems text encode changed (i :: is) s =
      match encode i with
      | .error e => (.error e, s)
      | .ok params =>
        match E.running text params s with
        | (.error e, s₁) => (.error e, s₁)
        | (.ok answer, s₁) => E.forItems text encode (changed + answer.changes) is s₁ := by
  rw [forItems, stateful_bind]
  cases encode i with
  | error e => rfl
  | ok params =>
    change (E.running text params >>= _) s = _
    rw [stateful_bind]
    dsimp only
    rcases E.running text params s with ⟨r, s₁⟩
    cases r <;> rfl

/-- The items of a statement all run, or the first one that is refused stops them. -/
theorem ran_or_stopped (E : Interface σ) (text : String) (encode : ι → Except Error Params)
    (items : List ι) (s : σ) :
    (∃ n s', Ran E text encode s items n s') ∨
      ∃ consumed rest e s', items = consumed ++ rest ∧ Stopped E text encode s consumed e s' := by
  induction items generalizing s with
  | nil => exact .inl ⟨0, s, .nil s⟩
  | cons i is ih =>
    cases hencode : encode i with
    | error e => exact .inr ⟨[i], is, e, s, rfl, .encoding hencode⟩
    | ok params =>
      rcases hrun : E.running text params s with ⟨r, s₁⟩
      cases r with
      | error e => exact .inr ⟨[i], is, e, s₁, rfl, .execution hencode hrun⟩
      | ok answer =>
        rcases ih s₁ with ⟨n, s', hran⟩ | ⟨consumed, rest, e, s', rfl, hstopped⟩
        · exact .inl ⟨answer.changes + n, s', .cons hencode hrun hran⟩
        · exact .inr ⟨i :: consumed, rest, e, s', rfl, .cons hencode hrun hstopped⟩

theorem forItems_ran {s s' : σ} {items : List ι} {n : Nat} (h : Ran E text encode s items n s')
    (changed : Nat) : E.forItems text encode changed items s = (.ok (changed + n), s') := by
  induction h generalizing changed with
  | nil => rfl
  | cons hencode hrun _ ih =>
    rw [forItems_cons, hencode]
    dsimp only
    rw [hrun]
    dsimp only
    rw [ih, Nat.add_assoc]

/-- Items behind the one that is refused make no difference. -/
theorem forItems_stopped {s s' : σ} {consumed : List ι} {e : Error}
    (h : Stopped E text encode s consumed e s') (changed : Nat) (later : List ι) :
    E.forItems text encode changed (consumed ++ later) s = (.error e, s') := by
  induction h generalizing changed with
  | encoding hencode => rw [List.singleton_append, forItems_cons, hencode]
  | execution hencode hrun =>
    rw [List.singleton_append, forItems_cons, hencode]
    dsimp only
    rw [hrun]
  | cons hencode hrun _ ih =>
    rw [List.cons_append, forItems_cons, hencode]
    dsimp only
    rw [hrun]
    exact ih _

/-- The stages of a batch. -/
theorem batch_eq (E : Interface σ) (text : String)
    (encode : ι → Except Error Params) (items : List ι) (s : σ) :
    E.batch text encode items s =
      match E.control "BEGIN DEFERRED" s with
      | (.error e, s) => (.error e, s)
      | (.ok _, s) =>
        match E.preparing text s with
        | (.error e, s) => (.error e, E.undone s)
        | (.ok _, s) =>
          match E.forItems text encode 0 items s with
          | (.error e, s) => (.error e, E.undone s)
          | (.ok n, s) =>
            match E.control "COMMIT" s with
            | (.ok _, s) => (.ok n, s)
            | (.error e, s) => (.error e, E.undone s) := by
  rw [batch, transaction]
  rcases E.control "BEGIN DEFERRED" s with ⟨r, s⟩
  cases r with
  | error e => rfl
  | ok _ =>
    dsimp only
    rw [stateful_bind]
    rcases E.preparing text s with ⟨r, s⟩
    cases r with
    | error e => rfl
    | ok _ =>
      dsimp only
      rcases E.forItems text encode 0 items s with ⟨r, s⟩
      cases r with
      | error e => rfl
      | ok n => rfl

/-! ### What stays true inside the transaction -/

theorem control_eq_ok {text : String} {s s' : σ} (h : E.control text s = (.ok (), s')) :
    ∃ answer, E.run text .empty s = (.ok answer, s') := by
  obtain ⟨hanswer, hstate⟩ := Prod.mk.inj h
  rw [except_mapError_eq_ok, except_map_eq_ok] at hanswer
  obtain ⟨answer, hanswer, -⟩ := hanswer
  exact ⟨answer, Prod.ext hanswer hstate⟩

theorem control_eq_error {text : String} {s s' : σ} {e : Error}
    (h : E.control text s = (.error e, s')) :
    ∃ fault, E.run text .empty s = (.error fault, s') := by
  obtain ⟨hanswer, hstate⟩ := Prod.mk.inj h
  rw [except_mapError_eq_error] at hanswer
  obtain ⟨fault, hanswer, -⟩ := hanswer
  exact ⟨fault, Prod.ext (except_map_eq_error.mp hanswer) hstate⟩

theorem running_eq_ok {params : Params} {s s' : σ} {answer : Answer}
    (h : E.running text params s = (.ok answer, s')) : E.run text params s = (.ok answer, s') := by
  obtain ⟨hanswer, hstate⟩ := Prod.mk.inj h
  exact Prod.ext (except_mapError_eq_ok.mp hanswer) hstate

theorem running_eq_error {params : Params} {s s' : σ} {e : Error}
    (h : E.running text params s = (.error e, s')) :
    ∃ fault, E.run text params s = (.error fault, s') := by
  obtain ⟨hanswer, hstate⟩ := Prod.mk.inj h
  obtain ⟨fault, hanswer, -⟩ := except_mapError_eq_error.mp hanswer
  exact ⟨fault, Prod.ext hanswer hstate⟩

variable {db : σ → D} {since : σ → D → Prop}

/-- Items that ran leave the transaction open. -/
theorem Transactional.since_ran (hE : E.Transactional db since text) {s s' : σ}
    {items : List ι} {n : Nat} {d : D} (h : Ran E text encode s items n s')
    (hs : since s d) : since s' d := by
  induction h with
  | nil => exact hs
  | cons _ hrun _ ih => exact ih (hE.ran hs (running_eq_ok hrun))

/-- An item that is refused leaves a transaction that can be undone. -/
theorem Transactional.undoable_stopped (hE : E.Transactional db since text)
    {s s' : σ} {consumed : List ι} {e : Error} {d : D}
    (h : Stopped E text encode s consumed e s') (hs : since s d) :
    E.Undoable db since s' d := by
  induction h with
  | encoding => exact .inl hs
  | execution _ hrun =>
    obtain ⟨fault, hfault⟩ := running_eq_error hrun
    exact hE.refused hs hfault
  | cons _ hrun _ ih => exact ih (hE.ran hs (running_eq_ok hrun))

/-- Undoing a transaction brings back the database at its start. -/
theorem Transactional.undone (hE : E.Transactional db since text) {s : σ} {d : D}
    (h : E.Undoable db since s d) : db (E.undone s) = d ∧ E.inTransaction (E.undone s) = false := by
  rw [Interface.undone]
  rcases h with hopen | ⟨hclosed, hdb⟩
  · rw [hE.isOpen hopen, if_pos rfl]
    exact hE.rolledBack hopen
  · rw [hclosed, if_neg Bool.false_ne_true]
    exact ⟨hdb, hclosed⟩

/-- Where a batch starts: the database is as before, and a transaction is open that began at it. -/
theorem Transactional.since_started (hE : E.Transactional db since text) {s s₁ : σ}
    (hs : E.inTransaction s = false) (h : E.Started text s s₁) :
    db s₁ = db s ∧ since s₁ (db s) := by
  obtain ⟨s₀, names, hbegin, hprepare⟩ := h
  obtain ⟨answer, hrun⟩ := control_eq_ok hbegin
  obtain ⟨hdb, hsince⟩ := hE.begun hs hrun
  have hstate : (E.prepare text s₀).2 = s₁ := congrArg Prod.snd hprepare
  obtain ⟨hdb', hsince'⟩ := hE.prepared hsince
  rw [hstate] at hdb' hsince'
  exact ⟨hdb'.trans hdb, hsince'⟩

/-! ### Batches -/

theorem batch_of_refused {s s₀ : σ} {e : Error} (h : E.control "BEGIN DEFERRED" s = (.error e, s₀))
    (items : List ι) : E.batch text encode items s = (.error e, s₀) := by
  rw [batch_eq, h]

theorem batch_of_unprepared {s s₀ s₁ : σ} {e : Error}
    (h : E.control "BEGIN DEFERRED" s = (.ok (), s₀))
    (hprepare : E.preparing text s₀ = (.error e, s₁)) (items : List ι) :
    E.batch text encode items s = (.error e, E.undone s₁) := by
  rw [batch_eq, h]
  dsimp only
  rw [hprepare]

theorem batch_of_started {s s₁ : σ} (h : E.Started text s s₁) (items : List ι) :
    E.batch text encode items s =
      match E.forItems text encode 0 items s₁ with
      | (.error e, s) => (.error e, E.undone s)
      | (.ok n, s) =>
        match E.control "COMMIT" s with
        | (.ok _, s) => (.ok n, s)
        | (.error e, s) => (.error e, E.undone s) := by
  obtain ⟨s₀, names, hbegin, hprepare⟩ := h
  rw [batch_eq, hbegin]
  dsimp only
  rw [hprepare]

/-- A batch that is stopped at an item is undone, whatever items are left. -/
theorem batch_of_stopped {s s₁ s₂ : σ} {consumed : List ι} {e : Error} (h : E.Started text s s₁)
    (hstopped : Stopped E text encode s₁ consumed e s₂) (later : List ι) :
    E.batch text encode (consumed ++ later) s = (.error e, E.undone s₂) := by
  rw [batch_of_started h, forItems_stopped hstopped]

/-- A batch of which all items ran is committed, or else undone. -/
theorem batch_of_ran {s s₁ s₂ : σ} {items : List ι} {n : Nat} (h : E.Started text s s₁)
    (hran : Ran E text encode s₁ items n s₂) :
    E.batch text encode items s =
      match E.control "COMMIT" s₂ with
      | (.ok _, s) => (.ok n, s)
      | (.error e, s) => (.error e, E.undone s) := by
  rw [batch_of_started h, forItems_ran hran, Nat.zero_add]

/-- A batch that succeeded: in a transaction that began at the database of the state `s`, every item
ran once and in order; the rows that they changed are counted, and the database that they left is
committed. -/
structure Completed (E : Interface σ) (db : σ → D) (text : String)
    (encode : ι → Except Error Params) (s : σ) (items : List ι) (n : Nat) (s' : σ) : Prop where
  ran : ∃ s₁ s₂, E.Started text s s₁ ∧ db s₁ = db s ∧ Ran E text encode s₁ items n s₂ ∧
    E.control "COMMIT" s₂ = (.ok (), s') ∧ db s' = db s₂
  isClosed : E.inTransaction s' = false

/-- A batch that failed: the database is what it was before, and no transaction is open. -/
structure Undone (E : Interface σ) (db : σ → D) (s s' : σ) : Prop where
  db_eq : db s' = db s
  isClosed : E.inTransaction s' = false

/-- How a batch of items ends in a state: it has run all of them; it has consumed some of them
before it failed, at its start or at the last of these; or it has run all of them in vain, since the
transaction cannot be committed. -/
inductive Ends (E : Interface σ) (db : σ → D) (text : String) (encode : ι → Except Error Params)
    (s : σ) (items : List ι) : Except Error Nat × σ → Prop where
  | done {n : Nat} {s' : σ} (completed : Completed E db text encode s items n s') :
    Ends E db text encode s items (.ok n, s')
  | stopped {consumed rest : List ι} {e : Error} {s' : σ} (split : items = consumed ++ rest)
    (last : consumed = [] ∨ ∃ s₁ s₂, E.Started text s s₁ ∧ Stopped E text encode s₁ consumed e s₂)
    (same : ∀ later, E.batch text encode (consumed ++ later) s = (.error e, s'))
    (undone : Undone E db s s') : Ends E db text encode s items (.error e, s')
  | uncommitted {s₁ s₂ s₃ s' : σ} {n : Nat} {e : Error} (started : E.Started text s s₁)
    (ran : Ran E text encode s₁ items n s₂) (refused : E.control "COMMIT" s₂ = (.error e, s₃))
    (undone : Undone E db s s') : Ends E db text encode s items (.error e, s')

/-- A batch that starts outside a transaction happens as a whole or not at all. -/
theorem Transactional.batch_ends (hE : E.Transactional db since text) {s : σ}
    (hs : E.inTransaction s = false) (encode : ι → Except Error Params) (items : List ι) :
    Ends E db text encode s items (E.batch text encode items s) := by
  rcases hbegin : E.control "BEGIN DEFERRED" s with ⟨r, s₀⟩
  cases r with
  | error e =>
    have hsame : ∀ items, E.batch text encode items s = (.error e, s₀) := batch_of_refused hbegin
    obtain ⟨fault, hrun⟩ := control_eq_error hbegin
    obtain ⟨hdb, hclosed⟩ := hE.notBegun hs hrun
    rw [hsame]
    exact .stopped rfl (.inl rfl) hsame ⟨hdb, hclosed⟩
  | ok _ =>
    obtain ⟨answer, hrun⟩ := control_eq_ok hbegin
    obtain ⟨hdb, hsince⟩ := hE.begun hs hrun
    rcases hprepare : E.preparing text s₀ with ⟨r, s₁⟩
    have hstate : (E.prepare text s₀).2 = s₁ := congrArg Prod.snd hprepare
    cases r with
    | error e =>
      have hsame : ∀ items, E.batch text encode items s = (.error e, E.undone s₁) :=
        batch_of_unprepared hbegin hprepare
      have hundone := hE.undone (.inl (hstate ▸ (hE.prepared hsince).2))
      rw [hsame]
      exact .stopped rfl (.inl rfl) hsame ⟨hundone.1, hundone.2⟩
    | ok names =>
      have hstarted : E.Started text s s₁ := ⟨s₀, names, hbegin, hprepare⟩
      obtain ⟨hdb₁, hsince₁⟩ := hE.since_started hs hstarted
      rcases ran_or_stopped E text encode items s₁ with
          ⟨n, s₂, hran⟩ | ⟨consumed, rest, e, s₂, rfl, hstopped⟩
      · have hsince₂ := hE.since_ran hran hsince₁
        rw [batch_of_ran hstarted hran]
        rcases hcommit : E.control "COMMIT" s₂ with ⟨r, s'⟩
        cases r with
        | ok _ =>
          obtain ⟨answer, hrun⟩ := control_eq_ok hcommit
          obtain ⟨hdb', hclosed⟩ := hE.committed hsince₂ hrun
          exact .done ⟨⟨s₁, s₂, hstarted, hdb₁, hran, hcommit, hdb'⟩, hclosed⟩
        | error e =>
          obtain ⟨fault, hrun⟩ := control_eq_error hcommit
          have hundone := hE.undone (hE.notCommitted hsince₂ hrun)
          exact .uncommitted hstarted hran hcommit ⟨hundone.1, hundone.2⟩
      · have hundone := hE.undone (hE.undoable_stopped hstopped hsince₁)
        rw [batch_of_stopped hstarted hstopped]
        exact .stopped rfl (.inr ⟨s₁, s₂, hstarted, hstopped⟩) (batch_of_stopped hstarted hstopped)
          ⟨hundone.1, hundone.2⟩

end Interface

end TypedTables.Engine
