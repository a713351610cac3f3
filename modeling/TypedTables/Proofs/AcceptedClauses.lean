import Mathlib.Data.List.Induction
import TypedTables.Proofs.ClauseBytes

/-!
# Which clauses are accepted

A clause is accepted exactly if it refers to the declared parameters and to no others, said without
a scan: a place is outside of quotes if every quote in front of it is closed, and what stands behind
a sign is the longest word there.
-/
namespace TypedTables

namespace Clause

/-- Every quote in a text is closed again, by the next character that closes it. -/
inductive Closed : List Char → Prop where
  | nil : Closed []
  | plain {cs : List Char} {c : Char} (h : Closed cs) (hc : closing? c = none) : Closed (cs ++ [c])
  | quoted {cs body : List Char} {c q : Char} (h : Closed cs) (hc : closing? c = some q)
      (hbody : q ∉ body) :
    Closed (cs ++ c :: (body ++ [q]))

/-- A character stands in a text outside of quotes, with `post` behind it. -/
def Outside (cs : List Char) (c : Char) (post : List Char) : Prop :=
  ∃ pre, cs = pre ++ c :: post ∧ Closed pre

def word (cs : List Char) : List Char := cs.takeWhile Text.isNameChar

/-- A text refers to a name: it stands behind a colon outside of quotes. -/
def Refers (cs : List Char) (name : String) : Prop :=
  name.toList ≠ [] ∧ ∃ post, Outside cs ':' post ∧ word post = name.toList

structure Acceptable (declared set : List String) (clause : String) : Prop where
  declared_ok : ∀ name ∈ declared, Text.isIdentifier name = true ∧ ¬ ['_', '_'] <+: name.toList
  no_question : ∀ post, ¬ Outside clause.toList '?' post
  no_other_sign : ∀ c post, Outside clause.toList c post → c = '@' ∨ c = '$' → word post = []
  identifiers : ∀ name, Refers clause.toList name → Text.isIdentifier name = true
  refers_iff_declared : ∀ name, Refers clause.toList name ↔ name ∈ declared
  none_set : ∀ name, Refers clause.toList name → name ∉ set

/-! ### Closed quotes -/

/-- What the scan knows behind characters: that every quote is closed, or where the open one was
opened. -/
theorem closed_or_open (cs : List Char) :
    (openAfter none cs = none → Closed cs) ∧
      ∀ q, openAfter none cs = some q →
        ∃ pre c body, cs = pre ++ c :: body ∧ Closed pre ∧ closing? c = some q ∧ q ∉ body := by
  induction cs using List.reverseRecOn with
  | nil =>
    refine ⟨fun _ => .nil, fun q hq => ?_⟩
    cases hq
  | append_singleton cs d ih =>
    obtain ⟨hclosed, hopen⟩ := ih
    rw [openAfter_append, openAfter_cons, openAfter_nil]
    cases hcs : openAfter none cs with
    | none =>
      rw [quoteAfter]
      exact ⟨fun hd => .plain (hclosed hcs) hd,
        fun q hd => ⟨cs, d, [], rfl, hclosed hcs, hd, List.not_mem_nil⟩⟩
    | some r =>
      obtain ⟨pre, c, body, rfl, hpre, hc, hbody⟩ := hopen r hcs
      rw [quoteAfter]
      by_cases hd : d = r
      · rw [if_pos hd, hd, List.append_assoc, List.cons_append]
        refine ⟨fun _ => .quoted hpre hc hbody, fun q hq => ?_⟩
        cases hq
      · rw [if_neg hd]
        refine ⟨fun h => ?_, fun q hq => ⟨pre, c, body ++ [d], ?_, hpre, hc.trans hq, ?_⟩⟩
        · cases h
        · rw [List.append_assoc, List.cons_append]
        · cases hq
          simp [hbody, Ne.symm hd]

theorem closed_iff (cs : List Char) : Closed cs ↔ openAfter none cs = none := by
  refine ⟨fun h => ?_, (closed_or_open cs).1⟩
  induction h with
  | nil => rfl
  | plain _ hc ih => rw [openAfter_append, ih, openAfter_cons, quoteAfter, hc, openAfter_nil]
  | quoted _ hc hbody ih =>
    rw [openAfter_append, ih, openAfter_cons, quoteAfter, hc]
    refine (closed_append ?_).1
    rintro d hd rfl
    exact hbody hd

/-! ### Places outside of quotes -/

/-- The characters outside of quotes, each with what is behind it. -/
def places : Option Char → List Char → List (Char × List Char)
  | _, [] => []
  | some q, c :: cs => places (quoteAfter (some q) c) cs
  | none, c :: cs => (c, cs) :: places (quoteAfter none c) cs

theorem mem_places {open? : Option Char} {cs : List Char} {c : Char} {post : List Char} :
    (c, post) ∈ places open? cs ↔ ∃ pre, cs = pre ++ c :: post ∧ openAfter open? pre = none := by
  induction cs generalizing open? with
  | nil => cases open? <;> simp [places]
  | cons d cs ih =>
    have hbehind : (c, post) ∈ places (quoteAfter open? d) cs ↔
        ∃ pre, d :: cs = (d :: pre) ++ c :: post ∧ openAfter open? (d :: pre) = none := by
      simp only [ih, List.cons_append, List.cons.injEq, true_and, openAfter_cons]
    cases open? with
    | some q =>
      rw [places, hbehind]
      constructor
      · rintro ⟨pre, h⟩
        exact ⟨d :: pre, h⟩
      · rintro ⟨pre, heq, hopen⟩
        cases pre with
        | nil => cases hopen
        | cons e pre => cases heq; exact ⟨pre, rfl, hopen⟩
    | none =>
      rw [places, List.mem_cons, hbehind]
      constructor
      · rintro (heq | ⟨pre, h⟩)
        · cases heq
          exact ⟨[], rfl, rfl⟩
        · exact ⟨d :: pre, h⟩
      · rintro ⟨pre, heq, hopen⟩
        cases pre with
        | nil => cases heq; exact .inl rfl
        | cons e pre => cases heq; exact .inr ⟨pre, rfl, hopen⟩

theorem mem_places_iff {cs : List Char} {c : Char} {post : List Char} :
    (c, post) ∈ places none cs ↔ Outside cs c post := by
  simp only [mem_places, Outside, closed_iff]

/-- A place is no fault: there is no `?`, and a sign has a name behind it only if it is a colon and
the name an identifier. -/
def Fine (x : Char × List Char) : Prop :=
  x.1 ≠ '?' ∧ (x.1 = '@' ∨ x.1 = '$' → word x.2 = []) ∧
    (x.1 = ':' → word x.2 ≠ [] → Text.isIdentifierChars (word x.2) = true)

/-- The name that stands behind a place, if it is that of a colon. -/
def named? (x : Char × List Char) : Option String :=
  if x.1 = ':' ∧ word x.2 ≠ [] then some (String.ofList (word x.2)) else none

/-- What opens a quote is no sign. -/
theorem ne_sign_of_closing {c q : Char} (h : closing? c = some q) :
    c ≠ '?' ∧ c ≠ ':' ∧ c ≠ '@' ∧ c ≠ '$' := by
  refine ⟨?_, ?_, ?_, ?_⟩ <;> rintro rfl <;> cases h

/-- A place that is no sign is fine, and no name stands behind it. -/
theorem fine_of_ne {c : Char} (cs : List Char) (hquestion : c ≠ '?')
    (hcolon : c ≠ ':') (hat : c ≠ '@') (hdollar : c ≠ '$') :
    Fine (c, cs) ∧ named? (c, cs) = none := by
  simp [Fine, named?, hquestion, hcolon, hat, hdollar]

/-- The scan succeeds exactly if every place outside of quotes is fine, and it finds the names
there. -/
theorem names_eq_ok_iff {open? : Option Char} {cs : List Char} {ns : List String} :
    names (unquoted open? cs) = .ok ns ↔
      (∀ x ∈ places open? cs, Fine x) ∧ (places open? cs).filterMap named? = ns := by
  induction cs generalizing open? ns with
  | nil => cases open? <;> simp [unquoted, names, places]
  | cons c cs ih =>
  cases open? with
  | some q => exact (congrArg (· = .ok ns) (names_blank _)).to_iff.trans ih
  | none =>
  rw [places, List.forall_mem_cons, List.filterMap_cons, quoteAfter]
  cases hquote : closing? c with
  | some q =>
    obtain ⟨hquestion, hcolon, hat, hdollar⟩ := ne_sign_of_closing hquote
    obtain ⟨hfine, hnamed⟩ := fine_of_ne cs hquestion hcolon hat hdollar
    rw [unquoted, hquote, names_blank, ih, hnamed]
    simp only [hfine, true_and]
  | none =>
  rw [names_unquoted_cons hquote]
  by_cases hquestion : c = '?'
  · rw [if_pos hquestion]
    refine iff_of_false (fun h => ?_) fun h => h.1.1.1 hquestion
    cases h
  rw [if_neg hquestion]
  by_cases hsign : (c = ':' || c = '@' || c = '$') = true
  · rw [if_pos hsign]
    dsimp only
    rw [← word]
    by_cases hword : word cs = []
    · have hfine : Fine (c, cs) := ⟨hquestion, fun _ => hword, fun _ h => absurd hword h⟩
      have hnamed : named? (c, cs) = none := if_neg fun h => h.2 hword
      rw [if_pos hword, ih, hnamed]
      simp only [hfine, true_and]
    rw [if_neg hword]
    by_cases hidentifier : (c = ':' && Text.isIdentifierChars (word cs)) = true
    · obtain ⟨hcolon, hchars⟩ := Bool.and_eq_true_iff.mp hidentifier
      have hcolon : c = ':' := of_decide_eq_true hcolon
      subst hcolon
      have hfine : Fine (':', cs) := ⟨hquestion, (by rintro (h | h) <;> cases h), fun _ _ => hchars⟩
      have hnamed : named? (':', cs) = some (String.ofList (word cs)) := if_pos ⟨rfl, hword⟩
      rw [if_pos hidentifier, hnamed, except_map_eq_ok]
      simp only [ih, hfine, true_and]
      constructor
      · rintro ⟨found, ⟨hall, rfl⟩, heq⟩
        exact ⟨hall, heq⟩
      · rintro ⟨hall, heq⟩
        exact ⟨_, ⟨hall, rfl⟩, heq⟩
    · rw [if_neg hidentifier]
      refine iff_of_false (fun h => ?_) ?_
      · cases h
      rintro ⟨⟨⟨-, hother, hchars⟩, -⟩, -⟩
      refine hidentifier ?_
      simp only [Bool.or_eq_true, decide_eq_true_eq] at hsign
      rcases hsign with (rfl | hat) | hdollar
      · exact hchars rfl hword
      · exact absurd (hother (.inl hat)) hword
      · exact absurd (hother (.inr hdollar)) hword
  · rw [if_neg hsign, ih]
    simp only [Bool.or_eq_true, decide_eq_true_eq, not_or] at hsign
    obtain ⟨hfine, hnamed⟩ := fine_of_ne cs hquestion hsign.1.1 hsign.1.2 hsign.2
    rw [hnamed]
    simp only [hfine, true_and]

/-! ### Acceptance -/

variable {declared set : List String} {clause : String}

theorem refers_iff {cs : List Char} {name : String} :
    Refers cs name ↔ name ∈ (places none cs).filterMap named? := by
  rw [List.mem_filterMap]
  constructor
  · rintro ⟨hname, post, hplace, hword⟩
    refine ⟨(':', post), mem_places_iff.mpr hplace, ?_⟩
    rw [named?, if_pos ⟨rfl, hword ▸ hname⟩, hword, String.ofList_toList]
  · rintro ⟨⟨c, post⟩, hmem, hnamed⟩
    rw [named?] at hnamed
    split at hnamed
    next h =>
      cases hnamed
      obtain ⟨rfl, hword⟩ := h
      rw [Refers, String.toList_ofList]
      exact ⟨hword, post, mem_places_iff.mp hmem, rfl⟩
    next => cases hnamed

theorem isReserved_eq_false_iff {name : String} :
    isReserved name = false ↔ ¬ ['_', '_'] <+: name.toList := by
  rw [← List.isPrefixOf_iff_prefix, Bool.not_eq_true]
  rfl

theorem check_of_passed {found : List String} (h : Passed declared set clause found) :
    check clause declared set = .ok () := by
  refine except_bind_eq_ok.mpr ⟨(), forM_eq_ok_of_forall fun name hname => ?_, ?_⟩
  · obtain ⟨hidentifier, hreserved⟩ := h.declared_ok name hname
    simp [checkDeclared, hidentifier, hreserved]
  refine except_bind_eq_ok.mpr ⟨found.eraseDups, except_map_eq_ok.mpr ⟨found, h.scanned, rfl⟩, ?_⟩
  refine except_bind_eq_ok.mpr ⟨(), forM_eq_ok_of_forall fun name hname => ?_, ?_⟩
  · obtain ⟨hdeclared, hset⟩ := h.found_ok name (List.mem_eraseDups.mp hname)
    simp [checkReferenced, hdeclared, hset]
  · have hused : declared.find? (!found.eraseDups.contains ·) = none := by
      rw [List.find?_eq_none]
      intro name hname
      simpa using h.declared_found name hname
    rw [hused]

/-- The names that the scan finds are the declared ones and none of them is set, exactly if the
clause is acceptable. -/
theorem passed_iff_acceptable : (∃ found, Passed declared set clause found) ↔
    Acceptable declared set clause := by
  constructor
  · rintro ⟨found, hscanned, hdeclared, hfound, hused⟩
    obtain ⟨hfine, rfl⟩ := names_eq_ok_iff.mp hscanned
    refine ⟨?_, ?_, ?_, ?_, ?_, ?_⟩
    · exact fun name hname =>
        ⟨(hdeclared name hname).1, isReserved_eq_false_iff.mp (hdeclared name hname).2⟩
    · exact fun post hplace => (hfine _ (mem_places_iff.mpr hplace)).1 rfl
    · exact fun c post hplace => (hfine _ (mem_places_iff.mpr hplace)).2.1
    · rintro name ⟨hname, post, hplace, hword⟩
      rw [Text.isIdentifier, ← hword]
      exact (hfine _ (mem_places_iff.mpr hplace)).2.2 rfl (hword ▸ hname)
    · exact fun name =>
        ⟨fun h => (hfound name (refers_iff.mp h)).1, fun h => refers_iff.mpr (hused name h)⟩
    · exact fun name h => (hfound name (refers_iff.mp h)).2
  · intro h
    have hfine : ∀ x ∈ places none clause.toList, Fine x := by
      rintro ⟨c, post⟩ hmem
      have hplace := mem_places_iff.mp hmem
      refine ⟨?_, h.no_other_sign c post hplace, ?_⟩
      · rintro rfl
        exact h.no_question post hplace
      · rintro rfl hword
        have hname := String.toList_ofList (l := word post)
        have hidentifier := h.identifiers _ ⟨hname.symm ▸ hword, post, hplace, hname.symm⟩
        rwa [Text.isIdentifier, hname] at hidentifier
    refine ⟨_, names_eq_ok_iff.mpr ⟨hfine, rfl⟩, ?_, ?_, ?_⟩
    · exact fun name hname =>
        ⟨(h.declared_ok name hname).1, isReserved_eq_false_iff.mpr (h.declared_ok name hname).2⟩
    · intro name hname
      have hrefers := refers_iff.mpr hname
      exact ⟨(h.refers_iff_declared name).mp hrefers, h.none_set name hrefers⟩
    · exact fun name hname => refers_iff.mp ((h.refers_iff_declared name).mpr hname)

end Clause

/-- A raw clause is accepted exactly if something is left of it without the blanks around it, and
that is acceptable; the scan for its parameters, byte by byte, comes to its end and cuts no
character in two. -/
theorem raw_clause_accepted_iff (s : Schema) (set declared : List String) (clause : String) :
    ((∃ condition, s.condition set (.raw clause declared) = .ok condition) ↔
      (Text.trim clause).isEmpty = false ∧ Clause.Acceptable declared set (Text.trim clause)) ∧
    Clause.ByteScan.run (Text.trim clause) ((Clause.bytes (Text.trim clause)).length + 1) .start =
      .ended (Clause.placeholders (Text.trim clause)) := by
  refine ⟨?_, Clause.ByteScan.run_start _⟩
  rw [← Clause.passed_iff_acceptable]
  constructor
  · rintro ⟨condition, h⟩
    refine ⟨?_, (condition_raw h).2⟩
    cases hempty : (Text.trim clause).isEmpty with
    | false => rfl
    | true => simp [Schema.condition, hempty] at h
  · rintro ⟨hempty, found, hpassed⟩
    refine ⟨.clause (Text.trim clause), ?_⟩
    simp [Schema.condition, hempty, Clause.check_of_passed hpassed,
      except_mapError_ok, except_ok_bind]

end TypedTables
