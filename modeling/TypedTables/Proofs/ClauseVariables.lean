import TypedTables.Example.Tables
import TypedTables.Proofs.ClauseQuotes
import TypedTables.Proofs.SchemaOrder
import TypedTables.Statement.Basic

/-!
# Bind variables of a raw clause

A raw clause is accepted if the names that its scan finds are declared and neither set nor reserved.
The engine reads the same text with its own tokens. Where the scan is outside of quotes both see the
same variables, but for names with characters beyond letters, digits and `_`; where a comment has
left a quote open, the scan sees nothing.
-/
namespace TypedTables

namespace Clause

open Engine

/-- The bind variables that the engine reads in a clause, each with the quote that the scan of the
clause takes to be open there. -/
def bindVariables (clause : String) : List (Option Char × Piece) :=
  (withOpen none (pieces clause.toList)).filter (·.2.kind == .placeholder)

/-- A bind variable is a colon and a declared name that is neither set nor reserved. -/
def Allowed (declared set : List String) (p : Piece) : Prop :=
  ∃ name ∈ declared, p.chars = ':' :: name.toList ∧ name ∉ set ∧ isReserved name = false

/-- The name of a bind variable is made of ASCII letters, digits and `_`; its sign is no `#`. -/
def Plain (p : Piece) : Prop :=
  p.chars.head? ≠ some '#' ∧ ∀ c ∈ p.chars.tail, Text.isNameChar c = true

/-- What the engine reads in an accepted clause: outside of quotes exactly the plain variables are
allowed, and if every comment closes the quotes that it opens, nothing else is there. -/
structure Readings (declared set : List String) (clause : String) : Prop where
  seen_allowed_iff : ∀ v ∈ bindVariables clause, v.1 = none → (Allowed declared set v.2 ↔ Plain v.2)
  all_allowed_iff : (∀ v ∈ bindVariables clause, Allowed declared set v.2) ↔
    (∀ v ∈ bindVariables clause, v.1 = none → Plain v.2) ∧
      ∀ v ∈ bindVariables clause, v.1 ≠ none → Allowed declared set v.2
  all_seen : (∀ p ∈ pieces clause.toList, isComment p = true → openAfter none p.chars = none) →
    ∀ v ∈ bindVariables clause, v.1 = none

theorem isIdChar_of_isNameChar {c : Char} (h : Text.isNameChar c = true) : isIdChar c = true := by
  simp only [Text.isNameChar, Bool.or_eq_true] at h
  simp only [isIdChar, Bool.or_eq_true]
  exact .inl (.inl h)

/-- A name ends where it ends in the text without quotes. -/
theorem takeWhile_unquoted (cs : List Char) :
    (unquoted none cs).takeWhile Text.isNameChar = cs.takeWhile Text.isNameChar := by
  induction cs with
  | nil => rfl
  | cons c cs ih =>
    by_cases hc : Text.isNameChar c = true
    · have hq := closing_of_isIdChar (isIdChar_of_isNameChar hc)
      simp only [unquoted, hq, List.takeWhile_cons, hc, if_true, ih]
    · have hb : Text.isNameChar c = false := by simpa using hc
      have hspace : Text.isNameChar ' ' = false := by decide
      simp only [unquoted]
      split <;> simp [hb, hspace]

/-- If every character of a longest span is of a smaller class, the smaller class has the same
span. -/
theorem takeWhile_eq_of_all {p q : Char → Bool}
    (hqp : ∀ c, q c = true → p c = true) {cs : List Char} (h : ∀ c ∈ cs.takeWhile p, q c = true) :
    cs.takeWhile q = cs.takeWhile p := by
  induction cs with
  | nil => rfl
  | cons c cs ih =>
    by_cases hc : p c = true
    · rw [List.takeWhile_cons_of_pos hc] at h ⊢
      rw [List.takeWhile_cons_of_pos (h c (by simp)),
        ih fun d hd => h d (List.mem_cons_of_mem _ hd)]
    · have hq : ¬ q c = true := fun hq => hc (hqp c hq)
      rw [List.takeWhile_cons_of_neg hc, List.takeWhile_cons_of_neg hq]

/-- What the scan finds behind a character it finds with the character in front. -/
theorem names_tail {c : Char} {cs : List Char} {ns : List String} (h : names (c :: cs) = .ok ns) :
    ∃ ms, names cs = .ok ms ∧ ∀ name ∈ ms, name ∈ ns := by
  rw [names] at h
  split at h
  · simp at h
  split at h
  · simp only at h
    split at h
    · exact ⟨ns, h, fun _ hm => hm⟩
    split at h
    · obtain ⟨ms, hms, heq⟩ := except_bind_eq_ok.mp h
      cases heq
      exact ⟨ms, hms, fun _ hm => List.mem_cons_of_mem _ hm⟩
    · simp at h
  · exact ⟨ns, h, fun _ hm => hm⟩

theorem names_suffix {as bs : List Char} {ns : List String} (h : names (as ++ bs) = .ok ns) :
    ∃ ms, names bs = .ok ms ∧ ∀ name ∈ ms, name ∈ ns := by
  induction as generalizing ns with
  | nil => exact ⟨ns, h, fun _ hm => hm⟩
  | cons c as ih =>
    obtain ⟨ms, hms, hsub⟩ := names_tail h
    obtain ⟨ls, hls, hsub'⟩ := ih hms
    exact ⟨ls, hls, fun name hm => hsub name (hsub' name hm)⟩

/-- The scan takes a name only behind a colon. -/
theorem names_head {c : Char} {cs : List Char} {ns : List String} (h : names (c :: cs) = .ok ns)
    (hc : c = ':' ∨ c = '@' ∨ c = '$') (hname : cs.takeWhile Text.isNameChar ≠ []) :
    c = ':' ∧ String.ofList (cs.takeWhile Text.isNameChar) ∈ ns := by
  have hq : c ≠ '?' := by rcases hc with rfl | rfl | rfl <;> decide
  have hs : (c = ':' || c = '@' || c = '$') = true := by simpa [or_assoc] using hc
  rw [names, if_neg hq, if_pos hs] at h
  simp only at h
  rw [if_neg (by simpa using hname)] at h
  split at h
  next hid =>
    obtain ⟨ms, hms, heq⟩ := except_bind_eq_ok.mp h
    cases heq
    simp only [Bool.and_eq_true, decide_eq_true_eq] at hid
    exact ⟨hid.1, List.mem_cons_self⟩
  · simp at h

theorem names_question (cs : List Char) (ns : List String) : names ('?' :: cs) ≠ .ok ns := by
  simp [names]

/-- A plain bind variable in a text that the scan accepts is a colon and a name that the scan
finds. -/
theorem found_of_plain {c : Char} {cs : List Char} {n : Nat} {ns : List String}
    (h : pieceAfter c cs = (.placeholder, n)) (hplain : Plain ⟨.placeholder, c :: cs.take n⟩)
    (hns : names (unquoted none (c :: cs)) = .ok ns) :
    c = ':' ∧ cs.take n = cs.takeWhile isIdChar ∧
      cs.takeWhile Text.isNameChar = cs.takeWhile isIdChar ∧
      cs.takeWhile isIdChar ≠ [] ∧ String.ofList (cs.takeWhile isIdChar) ∈ ns := by
  obtain ⟨hsign, hname⟩ := hplain
  have hc : closing? c = none := by
    rcases pieceAfter_placeholder h with rfl | ⟨rfl | rfl | rfl | rfl, -⟩ <;> rfl
  rw [unquoted, hc] at hns
  rcases pieceAfter_placeholder h with rfl | ⟨hcs, htake, hne⟩
  · exact absurd hns (names_question _ _)
  rw [List.tail_cons, htake] at hname
  have hspan : cs.takeWhile Text.isNameChar = cs.takeWhile isIdChar :=
    takeWhile_eq_of_all (fun _ => isIdChar_of_isNameChar) hname
  have hc' : c = ':' ∨ c = '@' ∨ c = '$' := by
    have hne : c ≠ '#' := by simpa using hsign
    simpa [hne] using hcs
  obtain ⟨hcolon, hfound⟩ := names_head hns hc' (by rwa [takeWhile_unquoted, hspan])
  rw [takeWhile_unquoted, hspan] at hfound
  exact ⟨hcolon, htake, hspan, hne, hfound⟩

/-- What is checked for each item of a list holds for each. -/
theorem forM_eq_ok {α ε : Type} {f : α → Except ε Unit} {as : List α} (h : as.forM f = .ok ()) :
    ∀ a ∈ as, f a = .ok () := by
  induction as with
  | nil => simp
  | cons a as ih =>
    have hcons : (f a >>= fun _ => as.forM f) = .ok () := h
    obtain ⟨⟨⟩, ha, has⟩ := except_bind_eq_ok.mp hcons
    intro b hb
    rcases List.mem_cons.mp hb with rfl | hb
    · exact ha
    · exact ih has b hb

theorem forM_eq_ok_of_forall {α ε : Type} {f : α → Except ε Unit} {as : List α}
    (h : ∀ a ∈ as, f a = .ok ()) :
    as.forM f = .ok () := by
  induction as with
  | nil => rfl
  | cons a as ih =>
    change (f a >>= fun _ => as.forM f) = .ok ()
    rw [h a List.mem_cons_self, except_ok_bind]
    exact ih fun b hb => h b (List.mem_cons_of_mem a hb)

structure Passed (declared set : List String) (clause : String) (found : List String) : Prop where
  scanned : names (unquoted none clause.toList) = .ok found
  declared_ok : ∀ name ∈ declared, Text.isIdentifier name = true ∧ isReserved name = false
  found_ok : ∀ name ∈ found, name ∈ declared ∧ name ∉ set
  declared_found : ∀ name ∈ declared, name ∈ found

theorem passed_of_check {declared set : List String} {clause : String}
    (h : check clause declared set = .ok ()) : ∃ found, Passed declared set clause found := by
  obtain ⟨⟨⟩, hdeclared, h⟩ := except_bind_eq_ok.mp h
  obtain ⟨referenced, hreferenced, h⟩ := except_bind_eq_ok.mp h
  obtain ⟨⟨⟩, hall, h⟩ := except_bind_eq_ok.mp h
  obtain ⟨found, hfound, rfl⟩ := except_map_eq_ok.mp hreferenced
  refine ⟨found, hfound, ?_, ?_, ?_⟩
  · intro name hm
    have hname := forM_eq_ok hdeclared name hm
    simp only [checkDeclared] at hname
    split at hname
    · simp at hname
    split at hname
    · simp at hname
    simp_all
  · intro name hm
    have hname := forM_eq_ok hall name (List.mem_eraseDups.mpr hm)
    simp only [checkReferenced] at hname
    split at hname
    · simp at hname
    split at hname
    · simp at hname
    simp_all
  · intro name hm
    split at h
    · cases h
    next hnone =>
      have hreferenced := List.find?_eq_none.mp hnone name hm
      rw [Bool.not_eq_true, Bool.not_eq_false', List.contains_iff_mem] at hreferenced
      exact List.mem_eraseDups.mp hreferenced

section Seen

variable {declared set found : List String} {clause : String}

/-- A variable outside of quotes, in the text without quotes that the scan goes through. -/
theorem seen_scanned (hp : Passed declared set clause found) {p : Piece}
    (hv : (none, p) ∈ bindVariables clause) :
    ∃ c rest n ns, p = ⟨.placeholder, c :: rest.take n⟩ ∧ pieceAfter c rest = (.placeholder, n) ∧
      names (unquoted none (c :: rest)) = .ok ns ∧ ∀ name ∈ ns, name ∈ found := by
  obtain ⟨hmem, hkind⟩ := List.mem_filter.mp hv
  obtain ⟨pre, c, rest, kind, n, heq, hpiece, hx⟩ := mem_withOpen_pieces hmem
  obtain ⟨hopen, rfl⟩ := Prod.mk.inj hx
  have hk : kind = .placeholder := by simpa using hkind
  subst hk
  have hscan := hp.scanned
  rw [heq, unquoted_append, ← hopen] at hscan
  obtain ⟨ns, hns, hsub⟩ := names_suffix hscan
  exact ⟨c, rest, n, ns, rfl, hpiece, hns, hsub⟩

/-- The name of an allowed variable is an identifier. -/
theorem Allowed.isIdentifier (hp : Passed declared set clause found) {p : Piece}
    (h : Allowed declared set p) :
    ∃ cs, p.chars = ':' :: cs ∧ Text.isIdentifierChars cs = true := by
  obtain ⟨name, hd, hchars, -, -⟩ := h
  exact ⟨name.toList, hchars, (hp.declared_ok name hd).1⟩

/-- Allowed variables are plain, wherever they stand. -/
theorem Allowed.plain (hp : Passed declared set clause found) {p : Piece}
    (h : Allowed declared set p) : Plain p := by
  obtain ⟨cs, hchars, hid⟩ := h.isIdentifier hp
  rw [Plain, hchars]
  exact ⟨by simp, fun c hc => List.all_eq_true.mp (Text.all_isNameChar hid) c hc⟩

/-- A plain variable outside of quotes is one of the names that the scan finds. -/
theorem Plain.allowed (hp : Passed declared set clause found) {p : Piece}
    (hv : (none, p) ∈ bindVariables clause) (h : Plain p) : Allowed declared set p := by
  obtain ⟨c, rest, n, ns, rfl, hpiece, hns, hsub⟩ := seen_scanned hp hv
  obtain ⟨rfl, htake, -, -, hfound⟩ := found_of_plain hpiece h hns
  obtain ⟨hd, hs⟩ := hp.found_ok _ (hsub _ hfound)
  refine ⟨_, hd, ?_, hs, (hp.declared_ok _ hd).2⟩
  simp only [htake, String.toList_ofList]

/-- What the engine reads in a clause that was accepted. -/
theorem readings_of_passed (hp : Passed declared set clause found) :
    Readings declared set clause := by
  have hseen : ∀ v ∈ bindVariables clause, v.1 = none → (Allowed declared set v.2 ↔ Plain v.2) := by
    rintro ⟨open?, p⟩ hv rfl
    exact ⟨fun h => h.plain hp, fun h => h.allowed hp hv⟩
  refine ⟨hseen, ⟨?_, ?_⟩, ?_⟩
  · intro h
    exact ⟨fun v hv hopen => (hseen v hv hopen).mp (h v hv), fun v hv _ => h v hv⟩
  · rintro ⟨hplain, hrest⟩ v hv
    by_cases hopen : v.1 = none
    · exact (hseen v hv hopen).mpr (hplain v hv hopen)
    · exact hrest v hv hopen
  · intro h v hv
    exact withOpen_none_of_comments h v (List.mem_filter.mp hv).1

end Seen

end Clause

def Shape.predicate? : Shape → Option Predicate
  | .select shape => some shape.predicate
  | .update shape => some shape.predicate
  | .delete shape => some shape.predicate
  | _ => none

def Shape.setColumns : Shape → List String
  | .update shape => shape.set
  | _ => []

def Statement.condition? : Statement → Option Condition
  | .select _ _ _ condition _ _ => some condition
  | .update _ _ _ condition => some condition
  | .delete _ condition _ => some condition
  | _ => none

/-- A raw clause that was accepted is used without the blanks around it, and has passed its
check. -/
theorem condition_raw {s : Schema} {set params : List String} {clause : String}
    {condition : Condition} (h : s.condition set (.raw clause params) = .ok condition) :
    condition = .clause (Text.trim clause) ∧ ∃ found,
    Clause.Passed params set (Text.trim clause) found := by
  simp only [Schema.condition] at h
  split at h
  · simp at h
  · obtain ⟨⟨⟩, hcheck, heq⟩ := except_bind_eq_ok.mp h
    cases heq
    exact ⟨rfl, Clause.passed_of_check (except_mapError_eq_ok.mp hcheck)⟩

theorem passed_of_shape {s : Schema} {table : TableName} {shape : Shape} {statement : Statement}
    {clause : String} {params : List String} (h : Statement.ofShape s table shape = .ok statement)
    (hp : shape.predicate? = some (.raw clause params)) :
    statement.condition? = some (.clause (Text.trim clause)) ∧
      ∃ found, Clause.Passed params shape.setColumns (Text.trim clause) found := by
  cases shape with
  | select shape =>
    obtain ⟨_, _, h⟩ := except_bind_eq_ok.mp h
    obtain ⟨condition, hcondition, h⟩ := except_bind_eq_ok.mp h
    obtain ⟨_, _, heq⟩ := except_bind_eq_ok.mp h
    cases heq
    rw [Option.some.inj hp] at hcondition
    obtain ⟨rfl, hpassed⟩ := condition_raw hcondition
    exact ⟨rfl, hpassed⟩
  | delete shape =>
    obtain ⟨condition, hcondition, h⟩ := except_bind_eq_ok.mp h
    obtain ⟨_, _, heq⟩ := except_bind_eq_ok.mp h
    cases heq
    rw [Option.some.inj hp] at hcondition
    obtain ⟨rfl, hpassed⟩ := condition_raw hcondition
    exact ⟨rfl, hpassed⟩
  | update shape =>
    obtain ⟨set, hset, h⟩ := except_bind_eq_ok.mp h
    split at h
    · simp at h
    obtain ⟨condition, hcondition, heq⟩ := except_bind_eq_ok.mp h
    cases heq
    rw [Option.some.inj hp] at hcondition
    obtain ⟨rfl, found, hpassed⟩ := condition_raw hcondition
    refine ⟨rfl, found, hpassed.scanned, hpassed.declared_ok, ?_, hpassed.declared_found⟩
    intro name hm
    obtain ⟨hd, hs⟩ := hpassed.found_ok name hm
    exact ⟨hd, fun hset' => hs ((Schema.mem_ordered_iff hset).mpr hset')⟩
  | _ => simp [Shape.predicate?] at hp

/-- A raw clause stands in an accepted statement without the blanks around it. The bind variables
that the engine reads in it are declared names that are neither set nor reserved exactly if those
outside of quotes are plain and those behind a quote that a comment leaves open happen to be;
without such a comment there are none of the latter. -/
theorem raw_clause_readings {s : Schema} {table : TableName} {shape : Shape} {statement : Statement}
    {clause : String} {params : List String} (h : Statement.ofShape s table shape = .ok statement)
    (hp : shape.predicate? = some (.raw clause params)) :
    statement.condition? = some (.clause (Text.trim clause)) ∧
      Clause.Readings params shape.setColumns (Text.trim clause) := by
  obtain ⟨hcondition, found, hpassed⟩ := passed_of_shape h hp
  exact ⟨hcondition, Clause.readings_of_passed hpassed⟩

open Example

/-- A clause with a quoted colon, a comment and a variable, in an update. -/
theorem raw_clause_readings_of_update :
    ∃ statement, Statement.ofShape entries entriesName
        (.update ⟨["kind"], .raw " kind <> ':a' /* old */ AND id = :key" ["key"], none⟩) =
          .ok statement ∧
      statement.condition? = some (.clause (Text.trim " kind <> ':a' /* old */ AND id = :key")) ∧
      Clause.Readings ["key"] ["kind"] (Text.trim " kind <> ':a' /* old */ AND id = :key") := by
  obtain ⟨statement, h⟩ : ∃ statement, Statement.ofShape entries entriesName
      (.update ⟨["kind"], .raw " kind <> ':a' /* old */ AND id = :key" ["key"], none⟩) =
        .ok statement :=
    ⟨_, rfl⟩
  exact ⟨statement, h, raw_clause_readings h rfl⟩

/-- A quote in a comment hides `:kind`, which is set and not declared, from the scan; and a name
with a letter beyond ASCII is none for the scan. Both clauses are accepted. -/
theorem clause_variables_overlooked :
    (∃ statement, Statement.ofShape entries entriesName
        (.update ⟨["kind"], .raw "id > 0 -- '\n AND kind = :kind" [], none⟩) = .ok statement) ∧
      (Clause.bindVariables "id > 0 -- '\n AND kind = :kind").map
        (fun v => (v.1, String.ofList v.2.chars)) =
        [(some '\'', ":kind")] ∧
      (∃ statement, Statement.ofShape entries entriesName
        (.update ⟨["kind"], .raw "id = :é" [], none⟩) = .ok statement) ∧
      (Clause.bindVariables "id = :é").map (fun v => (v.1, String.ofList v.2.chars)) =
        [(none, ":é")] ∧
      ∀ p : Engine.Piece, ¬ Clause.Allowed [] ["kind"] p := by
  refine ⟨⟨_, rfl⟩, by decide +kernel, ⟨_, rfl⟩, by decide +kernel, ?_⟩
  rintro p ⟨name, hd, -⟩
  simp at hd

end TypedTables
