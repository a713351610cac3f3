import Mathlib.Control.Monad.Basic
import TypedTables.Engine.Connection
import TypedTables.Proofs.Transactions

/-!
# Transactions of a connection

A statement that starts with INSERT or UPDATE is read as one that changes a table, or it is no
statement. Such a statement keeps the state that a connection saved when its transaction began,
unless it rolls the transaction back; so transactions of a connection have their usual meaning for
it.
-/
namespace TypedTables.Engine

/-! ### What the statement is read as -/

def Command.changesRows : Command → Bool
  | .insert .. | .update .. => true
  | _ => false

def Plan.changesRows : Plan → Bool
  | .insert .. | .update .. => true
  | _ => false

/-- Whatever a reader reads has a property. -/
def TokenReader.Reads {α : Type} (P : α → Prop) (x : TokenReader α) : Prop :=
  ∀ ts a rest, x ts = .ok (a, rest) → P a

namespace TokenReader

variable {α β : Type} {P : β → Prop}

/-- The last of several readers decides what is read. -/
theorem Reads.bind {x : TokenReader α} {f : α → TokenReader β} (h : ∀ a, Reads P (f a)) :
    Reads P (x >>= f) := by
  intro ts b rest hread
  change x ts >>= (fun p => f p.1 p.2) = .ok (b, rest) at hread
  obtain ⟨⟨a, ts'⟩, -, hrest⟩ := except_bind_eq_ok.mp hread
  exact h a ts' b rest hrest

theorem Reads.pure {b : β} (h : P b) : Reads P (Pure.pure b : TokenReader β) := by
  intro ts a rest hread
  cases hread
  exact h

theorem Reads.ite {c : Prop} [Decidable c] {x y : TokenReader β} (hx : Reads P x) (hy : Reads P y) :
    Reads P (if c then x else y) := by
  split
  · exact hx
  · exact hy

theorem insert_changesRows : Reads (Command.changesRows · = true) insert := by
  have hrest : ∀ (conflict : Conflict) (table : ObjectName) (columns : Option (List String)),
      Reads (Command.changesRows · = true) (do
        if ← passesWord "VALUES" then
          let rows ← list valueRow
          let returned ← returning
          return Command.insert conflict table columns rows returned
        else
          word "DEFAULT"
          word "VALUES"
          let returned ← returning
          return Command.insert conflict table (some []) [[]] returned) := by
    intro conflict table columns
    refine .bind fun values => .ite ?_ ?_
    · exact .bind fun rows => .bind fun returned => .pure rfl
    · exact .bind fun _ => .bind fun _ => .bind fun returned => .pure rfl
  refine .bind fun conflict => .bind fun _ => .bind fun table => .bind fun parenthesis => .ite ?_ ?_
  · exact .bind fun names => .bind fun _ => .bind fun columns => hrest conflict table columns
  · exact .bind fun columns => hrest conflict table columns

theorem update_changesRows : Reads (Command.changesRows · = true) update :=
  .bind fun _ => .bind fun _ => .bind fun _ => .bind fun _ => .bind fun _ =>
    .bind fun _ => .pure rfl

end TokenReader

/-- The first word of a text that is followed by a blank is its first token. -/
theorem tokens_insert (cs : List Char) :
    ∃ ts, tokensFrom 0 [] (pieces ("INSERT ".toList ++ cs)) = ⟨.word, "INSERT", 0, ""⟩ :: ts := by
  have hpiece : pieceAfter 'I' ("NSERT ".toList ++ cs) = (.word, 5) := rfl
  change ∃ ts, tokensFrom 0 [] (pieces ('I' :: ("NSERT ".toList ++ cs))) = _
  rw [pieces, hpiece]
  exact ⟨_, rfl⟩

theorem tokens_update (cs : List Char) :
    ∃ ts, tokensFrom 0 [] (pieces ("UPDATE ".toList ++ cs)) = ⟨.word, "UPDATE", 0, ""⟩ :: ts := by
  have hpiece : pieceAfter 'U' ("PDATE ".toList ++ cs) = (.word, 5) := rfl
  change ∃ ts, tokensFrom 0 [] (pieces ('U' :: ("PDATE ".toList ++ cs))) = _
  rw [pieces, hpiece]
  exact ⟨_, rfl⟩

/-- A text that starts with INSERT or UPDATE. -/
def StartsChange (text : String) : Prop :=
  ∃ cs, text.toList = "INSERT ".toList ++ cs ∨ text.toList = "UPDATE ".toList ++ cs

theorem StartsChange.append {text : String} (h : StartsChange text) (more : String) :
    StartsChange (text ++ more) := by
  obtain ⟨cs, h⟩ := h
  refine ⟨cs ++ more.toList, ?_⟩
  rw [String.toList_append]
  rcases h with h | h
  · left
    rw [h, List.append_assoc]
  · right
    rw [h, List.append_assoc]

theorem readStatement_changesRows {text : String} (h : StartsChange text) {command : Command}
    {next : Option Nat} (hread : readStatement text = .ok (command, next)) :
    command.changesRows = true := by
  obtain ⟨w, ts, htokens, hreads⟩ : ∃ w ts, tokens text = ⟨.word, w, 0, ""⟩ :: ts ∧
      TokenReader.Reads (Command.changesRows · = true)
        (fun rest => TokenReader.command (⟨.word, w, 0, ""⟩ :: rest)) := by
    obtain ⟨cs, heq | heq⟩ := h
    · obtain ⟨ts, hts⟩ := tokens_insert cs
      refine ⟨"INSERT", ts, ?_, TokenReader.insert_changesRows⟩
      rw [tokens, heq, hts]
    · obtain ⟨ts, hts⟩ := tokens_update cs
      refine ⟨"UPDATE", ts, ?_, TokenReader.update_changesRows⟩
      rw [tokens, heq, hts]
  have hfirst : (⟨.word, w, 0, ""⟩ :: ts : List Token).dropWhile (fun t => t.isSign ";") =
      ⟨.word, w, 0, ""⟩ :: ts := rfl
  rw [readStatement, htokens, hfirst] at hread
  dsimp only at hread
  cases hcommand : TokenReader.command (⟨.word, w, 0, ""⟩ :: ts) with
  | error c =>
    rw [hcommand] at hread
    cases hread
  | ok read =>
    obtain ⟨c, rest⟩ := read
    have hc : c.changesRows = true := hreads ts c rest hcommand
    rw [hcommand] at hread
    cases rest with
    | nil =>
      cases hread
      exact hc
    | cons u us =>
      dsimp only at hread
      split at hread
      · cases hread
        exact hc
      · cases hread

/-! ### What the statement is planned as -/

/-- Whatever a computation with errors computes has a property. -/
def Computes {ε α : Type} (P : α → Prop) (x : Except ε α) : Prop := ∀ a, x = .ok a → P a

theorem Computes.bind {ε α β : Type} {P : β → Prop} {x : Except ε α} {f : α → Except ε β}
    (h : ∀ a, Computes P (f a)) : Computes P (x >>= f) := by
  intro b hb
  obtain ⟨a, -, ha⟩ := except_bind_eq_ok.mp hb
  exact h a b ha

theorem Computes.pure {ε β : Type} {P : β → Prop} {b : β} (h : P b) :
    Computes P (Pure.pure b : Except ε β) := by
  intro a ha
  cases ha
  exact h

theorem planInsert_changesRows (c : Catalog) (conflict : Conflict) (table : ObjectName)
    (columns : Option (List String)) (rows : List (List (Expr ColumnRef)))
    (returned : List ResultSpec) :
    Computes (Plan.changesRows · = true) (planInsert c conflict table columns rows returned) := by
  rw [planInsert]
  refine .bind fun found => ?_
  obtain ⟨i, t⟩ := found
  dsimp only
  split
  all_goals
    refine .bind fun targets => .bind fun rows => ?_
    split
    · exact .bind fun _ => .bind fun _ => .pure rfl
    · exact .bind fun _ => .pure rfl

theorem planUpdate_changesRows (c : Catalog) (conflict : Conflict) (table : ObjectName)
    (set : List (String × Expr ColumnRef)) (condition : Option (Expr ColumnRef))
    (returned : List ResultSpec) :
    Computes (Plan.changesRows · = true) (planUpdate c conflict table set condition returned) :=
  .bind fun _ => .bind fun _ => .bind fun _ => .bind fun _ => .pure rfl

namespace Connection

variable {c : Connection} {text : String} {command : Command} {p : Plan}

/-- A plan is admitted as it is, or refused. -/
theorem admitted_eq_ok {q : Plan} (h : c.admitted p = .ok q) : q = p := by
  rw [admitted] at h
  split at h <;> cases h
  rfl

/-- What is planned was read, and its names are in the catalog. -/
theorem exists_of_plan (h : c.plan text = .ok p) : ∃ command next,
    readStatement text = .ok (command, next) ∧ Plan.of c.catalog command = .ok p ∧
    c.admitted p = .ok p := by
  rw [plan] at h
  split at h
  · cases h
  next command next hread =>
    obtain ⟨q, hq, hadmitted⟩ := except_bind_eq_ok.mp h
    obtain rfl := admitted_eq_ok hadmitted
    exact ⟨command, next, hread, except_mapError_eq_ok.mp hq, hadmitted⟩

end Connection

/-- A statement that starts with INSERT or UPDATE changes rows, if it can be planned. -/
theorem plan_changesRows {text : String} (h : StartsChange text) {c : Connection} {plan : Plan}
    (hplan : c.plan text = .ok plan) : plan.changesRows = true := by
  obtain ⟨command, next, hread, hof, -⟩ := Connection.exists_of_plan hplan
  have hcommand := readStatement_changesRows h hread
  cases command with
  | insert conflict table columns rows returned =>
    exact planInsert_changesRows c.catalog conflict table columns rows returned plan hof
  | update conflict table set condition returned =>
    exact planUpdate_changesRows c.catalog conflict table set condition returned plan hof
  | _ => cases hcommand

/-! ### What the statement does -/

namespace Connection

/-- A transaction is open that began at a catalog; no database was attached since. -/
def Since (c : Connection) (d : Catalog) : Prop :=
  c.saved = some d ∧ c.catalog.databases.length = d.databases.length

theorem length_setTable (c : Catalog) (i : Nat) (t : StoredTable) :
    (c.setTable i t).databases.length = c.databases.length := by
  rw [Catalog.setTable, Catalog.set, List.length_set]

/-- Undoing a transaction brings back the catalog at its start. -/
theorem undo_since {c : Connection} {d : Catalog} (h : c.Since d) :
    c.undo.inTransaction = false ∧ c.undo.catalog = d := by
  obtain ⟨hsaved, hlength⟩ := h
  have hundo : c.undo = { c with catalog := c.restored d, saved := none, pending := 0 } := by
    rw [undo, hsaved]
  have hrestored : c.restored d = d := by
    rw [restored, ← hlength, List.drop_length, List.append_nil]
  rw [hundo]
  exact ⟨rfl, hrestored⟩

/-- A connection in which the transaction that began at a catalog can be undone. -/
abbrev Undoable (c : Connection) (d : Catalog) : Prop :=
  interface.Undoable Connection.catalog Since c d

/-- What a statement leaves of the transaction: it is open still if the statement succeeded, and it
can be undone otherwise. -/
def Keeps (d : Catalog) : Except Fault Answer × Connection → Prop
  | (.ok _, c) => c.Since d
  | (.error _, c) => c.Undoable d

theorem keeps_change {c : Connection} {d : Catalog} (h : c.Since d) (p : Place)
    (params : String → Stored) (returned : List NamedOutput) (f : StoredTable → Changed) :
    Keeps d (c.change p params returned f) := by
  rw [change]
  split
  · exact .inl h
  next t _ =>
    split
    · have hset : Since (c.advance (c.catalog.setTable p.database ((f t).settle t).table)) d :=
        ⟨h.1, (length_setTable _ _ _).trans h.2⟩
      rw [settle]
      dsimp only
      split
      · exact .inl h
      · split
        · exact hset
        next fault conflict _ =>
          change Undoable (if conflict = .rollback then _ else _) d
          split
          · exact .inr (undo_since hset)
          · exact .inl hset
    · exact .inl h

/-- A statement that changes rows keeps the transaction, or rolls it back if it is refused. -/
theorem keeps_run {text : String} (ht : StartsChange text) {c : Connection}
    {d : Catalog} (h : c.Since d) (params : Params) : Keeps d (c.run text params) := by
  rw [run]
  cases hplan : c.plan text with
  | error fault => exact .inl h
  | ok plan =>
    dsimp only
    cases bind plan params with
    | error fault => exact .inl h
    | ok bound =>
      have hchanges := plan_changesRows ht hplan
      cases plan with
      | insert p conflict targets rows returned => exact keeps_change h p bound returned _
      | update p conflict set condition returned => exact keeps_change h p bound returned _
      | _ => cases hchanges

theorem run_control {text : String} {command : Command} {plan : Plan}
    (hread : readStatement text = .ok (command, none)) (hplan : ∀ c, Plan.of c command = .ok plan)
    (hfree : ∀ c, plan.referenceFault? c = none) (c : Connection) :
    ∃ bound, c.run text .empty = c.execute bound plan := by
  have hplanned : c.plan text = .ok plan := plan_of hread (hplan _) (admitted_of_free (hfree _))
  obtain ⟨bound, hbound⟩ : ∃ bound, bind plan .empty = .ok bound := ⟨_, rfl⟩
  refine ⟨bound, ?_⟩
  rw [run, hplanned]
  dsimp only
  rw [hbound]

theorem run_begin (c : Connection) : c.run "BEGIN DEFERRED" .empty =
    if c.inTransaction then (.error .transactionOpen, c)
    else (.ok (.changed 0), { c with saved := some c.catalog }) := by
  have hread : readStatement "BEGIN DEFERRED" = .ok (.begin, none) := by decide +kernel
  obtain ⟨bound, hrun⟩ := run_control hread (fun _ => rfl) (fun _ => rfl) c
  rw [hrun]
  rfl

theorem run_commit (c : Connection) : c.run "COMMIT" .empty =
    if !c.inTransaction then (.error (.noTransaction "commit"), c)
    else if c.isUnsettled then (.error .foreignKeyFailed, c)
    else (.ok (.changed 0), { c with saved := none }) := by
  have hread : readStatement "COMMIT" = .ok (.commit, none) := by decide +kernel
  obtain ⟨bound, hrun⟩ := run_control hread (fun _ => rfl) (fun _ => rfl) c
  rw [hrun]
  rfl

theorem run_rollback (c : Connection) : c.run "ROLLBACK" .empty =
    if c.inTransaction then (.ok (.changed 0), c.undo)
      else (.error (.noTransaction "rollback"), c) := by
  have hread : readStatement "ROLLBACK" = .ok (.rollback, none) := by decide +kernel
  obtain ⟨bound, hrun⟩ := run_control hread (fun _ => rfl) (fun _ => rfl) c
  rw [hrun]
  rfl

theorem inTransaction_since {c : Connection} {d : Catalog} (h : c.Since d) :
    c.inTransaction = true := by
  rw [inTransaction, h.1]
  rfl

/-- Transactions of a connection have their usual meaning for statements that change rows. -/
theorem transactional {text : String} (h : StartsChange text) :
    interface.Transactional Connection.catalog Since text where
  isOpen := inTransaction_since
  begun := by
    intro c c' answer hc hrun
    change c.inTransaction = false at hc
    change c.run "BEGIN DEFERRED" .empty = (.ok answer, c') at hrun
    rw [run_begin, hc] at hrun
    cases hrun
    exact ⟨rfl, rfl, rfl⟩
  notBegun := by
    intro c c' fault hc hrun
    change c.inTransaction = false at hc
    change c.run "BEGIN DEFERRED" .empty = (.error fault, c') at hrun
    rw [run_begin, hc] at hrun
    cases hrun
  prepared := fun hc => ⟨rfl, hc⟩
  ran := by
    intro c c' d params answer hc hrun
    have hkeeps := keeps_run h hc params
    change c.run text params = (.ok answer, c') at hrun
    rw [hrun] at hkeeps
    exact hkeeps
  refused := by
    intro c c' d params fault hc hrun
    have hkeeps := keeps_run h hc params
    change c.run text params = (.error fault, c') at hrun
    rw [hrun] at hkeeps
    exact hkeeps
  committed := by
    intro c c' d answer hc hrun
    change c.run "COMMIT" .empty = (.ok answer, c') at hrun
    rw [run_commit, inTransaction_since hc, Bool.not_true, if_neg Bool.false_ne_true] at hrun
    split at hrun
    · cases hrun
    · cases hrun
      exact ⟨rfl, rfl⟩
  notCommitted := by
    intro c c' d fault hc hrun
    change c.run "COMMIT" .empty = (.error fault, c') at hrun
    rw [run_commit, inTransaction_since hc, Bool.not_true, if_neg Bool.false_ne_true] at hrun
    split at hrun
    · cases hrun
      exact .inl hc
    · cases hrun
  rolledBack := by
    intro c d hc
    change (c.run "ROLLBACK" .empty).2.catalog = d ∧
      (c.run "ROLLBACK" .empty).2.inTransaction = false
    rw [run_rollback, inTransaction_since hc]
    obtain ⟨hclosed, hcatalog⟩ := undo_since hc
    exact ⟨hcatalog, hclosed⟩

end Connection

end TypedTables.Engine
