import Mathlib.Data.List.Induction
import TypedTables.Proofs.Params

/-!
# What has been pushed into parameters

Parameters grow by pushes and by the entries of other parameters. After any number of such
operations every name stands once, where it was pushed first, with the value that was pushed last.
The entries of other parameters come under their names without the colons in front; that is the same
as pushing them only if no name among them starts with a colon.
-/
namespace TypedTables

namespace Params

inductive Growth where
  | push (name : String) (v : Stored)
  | extend (other : Params)

namespace Growth

def apply (p : Params) : Growth → Params
  | .push name v => p.push name v
  | .extend other => p.extend other

/-- What the operation pushes: the entries of other parameters under their bare names. -/
def pushed : Growth → List (String × Stored)
  | .push name v => [(name, v)]
  | .extend other => other.entries.map fun e => (bareName e.1, e.2)

theorem apply_eq_pushAll (g : Growth) (p : Params) : g.apply p = p.pushAll g.pushed := by
  cases g <;> rfl

end Growth

def grown (gs : List Growth) : Params := gs.foldl (fun p g => g.apply p) empty

theorem pushAll_append (p : Params) (es fs : List (String × Stored)) :
    p.pushAll (es ++ fs) = (p.pushAll es).pushAll fs := List.foldl_append

/-- Operations come to the pushes that they make. -/
theorem grown_eq_pushAll (gs : List Growth) :
    grown gs = empty.pushAll (gs.flatMap Growth.pushed) := by
  induction gs using List.reverseRecOn with
  | nil => rfl
  | append_singleton gs g ih =>
    rw [grown, List.foldl_append, ← grown, ih, List.foldl_cons, List.foldl_nil, g.apply_eq_pushAll,
      List.flatMap_append, List.flatMap_singleton, pushAll_append]

theorem names_push (p : Params) (name : String) (v : Stored) :
    (p.push name v).names = if name ∈ p.names then p.names else p.names ++ [name] := by
  rw [names, entries_push]
  split
  · exact names_replaced name v p.entries
  · exact List.map_append

/-- Each name stands where it was pushed first. -/
theorem names_pushAll_empty (es : List (String × Stored)) :
    (empty.pushAll es).names = (es.map (·.1)).eraseDups := by
  induction es using List.reverseRecOn with
  | nil => rfl
  | append_singleton es e ih =>
    rw [pushAll_append, pushAll_cons, pushAll_nil, names_push, ih, List.map_append,
      List.eraseDups_append]
    split
    next h =>
      have hmem : e.1 ∈ es.map (·.1) := List.mem_eraseDups.mp h
      simp [List.removeAll, hmem]
    next h =>
      have hnot : e.1 ∉ es.map (·.1) := fun hmem => h (List.mem_eraseDups.mpr hmem)
      simp [List.removeAll, hnot, List.eraseDups_cons]

/-- Each name has the value that was pushed last. -/
theorem get?_pushAll_empty (es : List (String × Stored)) (name : String) :
    (empty.pushAll es).get? name = es.reverse.lookup name := by
  induction es using List.reverseRecOn with
  | nil => rfl
  | append_singleton es e ih =>
    rw [pushAll_append, pushAll_cons, pushAll_nil, get?_push, ih, List.reverse_append,
      List.reverse_singleton, List.singleton_append, List.lookup_cons]
    by_cases h : name = e.1
    · rw [if_pos h, beq_iff_eq.mpr h]
    · rw [if_neg h, beq_false_of_ne h]

/-- Parameters are what the pushes of their entries make of none. -/
theorem pushAll_entries (p : Params) : empty.pushAll p.entries = p := by
  have hentries : (empty.pushAll p.entries).entries = p.entries :=
    entries_pushAll empty p.names_nodup
  cases hq : empty.pushAll p.entries
  cases p
  rw [hq] at hentries
  cases hentries
  rfl

theorem bareName_head (name : String) : (bareName name).toList.head? ≠ some ':' := by
  rw [bareName, String.toList_ofList]
  intro h
  have hfirst := List.head?_dropWhile_not (· == ':') name.toList
  rw [h] at hfirst
  exact absurd hfirst (by decide)

/-- Other parameters are taken over under the names that they have there exactly if no such name
starts with a colon. -/
theorem extend_eq_pushAll_iff (other : Params) :
    (∀ p : Params, p.extend other = p.pushAll other.entries) ↔
      ∀ name ∈ other.names, name.toList.head? ≠ some ':' := by
  constructor
  · intro h name hname
    -- Put into none, the names of the entries are all there, and all of them are bare.
    have hall : other = empty.pushAll (other.entries.map fun e => (bareName e.1, e.2)) := by
      rw [← extend, h empty, pushAll_entries]
    rw [hall, names_pushAll_empty, List.mem_eraseDups, List.map_map] at hname
    obtain ⟨e, -, rfl⟩ := List.mem_map.mp hname
    exact bareName_head e.1
  · intro h p
    have hbare : (other.entries.map fun e => (bareName e.1, e.2)) = other.entries := by
      refine (List.map_congr_left fun e he => ?_).trans (List.map_id _)
      rw [bareName_of_head (h e.1 (List.mem_map_of_mem he)), id]
    rw [extend, hbare]

/-- After any pushes and extensions: * the names are those that were pushed, each once and in the
order of their first push; * a name has the value that was pushed for it last, and none if it was
never pushed; * the entries of other parameters count as pushed under their names without the colons
in front, which is under the names that they have there exactly if no such name starts with a
colon. -/
theorem growth_recorded (gs : List Growth) :
    (grown gs).names = ((gs.flatMap Growth.pushed).map (·.1)).eraseDups ∧
    (∀ name, (grown gs).get? name = (gs.flatMap Growth.pushed).reverse.lookup name) ∧
    (∀ name, (grown gs).get? name = none ↔ name ∉ (gs.flatMap Growth.pushed).map (·.1)) ∧
    ∀ other : Params,
      (∀ p : Params, p.extend other = p.pushAll (other.entries.map fun e => (bareName e.1, e.2))) ∧
      ((∀ p : Params, p.extend other = p.pushAll other.entries) ↔
        ∀ name ∈ other.names, name.toList.head? ≠ some ':') := by
  rw [grown_eq_pushAll]
  refine ⟨names_pushAll_empty _, get?_pushAll_empty _, fun name => ?_,
    fun other => ⟨fun _ => rfl, extend_eq_pushAll_iff other⟩⟩
  rw [get?_eq_none_iff, names_pushAll_empty, List.mem_eraseDups]

/-- Two parameters whose names differ by a colon become one when they are taken over. -/
theorem colon_name_merged :
    (empty.extend (empty.pushAll [("x", .integer 1), (":x", .integer 2)])).entries =
      [("x", .integer 2)] ∧
      (empty.pushAll (empty.pushAll [("x", .integer 1), (":x", .integer 2)]).entries).entries =
        [("x", .integer 1), (":x", .integer 2)] := by decide

end Params

end TypedTables
