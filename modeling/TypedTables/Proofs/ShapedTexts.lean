import TypedTables.Config.Json
import TypedTables.Proofs.JsonDepth

/-!
# JSON texts of known shapes read back

A reader recovers a value from a tree if it reads the text of the tree as the value, whatever closes
behind it. Truth values, strings, numbers, words, lists and pairs are recovered, and so is a record
of which every field is written, in the order of its fields. What holds of all that the fields of a
record read holds of every record that is read, from whichever text.
-/
namespace TypedTables.Json

section Readers

variable {α β γ : Type} {read : Reader α} {t : Tree} {a : α}

/-- A reader reads the text of a tree as a value, whatever closes behind it. -/
def Recovers (read : Reader α) (t : Tree) (a : α) : Prop :=
  ∀ rest, Closes rest → read (t.chars ++ rest) = .ok (a, rest)

/-- The text of a tree from which a value is recovered is read as the value. -/
theorem Recovers.parseAs_text (h : Recovers read t a) : parseAs read t.text = .ok a := by
  have hread : read t.chars = .ok (a, []) := by simpa using h [] nofun
  rw [parseAs, Tree.text, String.toList_ofList, hread]
  rfl

theorem Recovers.map (h : Recovers read t a) (f : α → β) :
    Recovers (fun cs => (read cs).map fun (a, rest) => (f a, rest)) t (f a) := by
  intro rest hrest
  dsimp only
  rw [h rest hrest]
  rfl

/-! ### Values without parts -/

theorem recovers_bool (b : Bool) : Recovers readBool (.bool b) b := by
  cases b with
  | false => exact fun _ _ => rfl
  | true => exact fun _ _ => rfl

theorem chars_string (s : String) (rest : List Char) :
    (Tree.string s).chars ++ rest = '"' :: (s.toList.flatMap escaped ++ '"' :: rest) := by
  rw [Tree.chars, stringChars, List.cons_append, List.cons_append, List.append_assoc,
    List.singleton_append]

theorem recovers_string (s : String) : Recovers readString (.string s) s := by
  intro rest _
  have hquote (cs : List Char) : readString ('"' :: cs) = string cs := rfl
  rw [chars_string, hquote, string_chars]

theorem chars_natural (n : UInt64) : (natural n).chars = Nat.toDigits 10 n.toNat := by
  change integerChars n.toNat = _
  rw [integerChars, if_neg (by omega), Int.toNat_natCast]

/-- A number without sign is read as the integer that it is. -/
theorem readNatural_digit {expected : String} {c : Char} {cs rest : List Char} {i : Whole}
    (hc : c.isDigit = true) (hread : number false (c :: cs) = .ok (.whole i, rest)) (hi : 0 ≤ i.1) :
    readNatural expected (c :: cs) = .ok (i.1.toNat, rest) := by
  rw [readNatural, fromFirst, skipBlanks_cons (isBlank_of_isDigit hc)]
  dsimp only
  split
  next h => exact absurd (List.cons.inj h).1 (ne_of_isDigit hc rfl)
  next h =>
    obtain ⟨rfl, rfl⟩ := List.cons.inj h
    rw [if_pos hc, hread]
    exact if_pos hi
  next h => cases h

theorem recovers_natural (expected : String) (n : UInt64) :
    Recovers (readNatural expected) (natural n) n.toNat := by
  intro rest hrest
  have hread := number_natural n.toNat_lt hrest
  obtain ⟨c, r, hchars, hc⟩ := number_head hread
  rw [chars_natural, hchars]
  rw [hchars] at hread
  exact readNatural_digit hc hread (Int.natCast_nonneg _)

theorem recovers_natural64 (expected : String) (n : UInt64) :
    Recovers (readNatural64 expected) (natural n) n := by
  have h := (recovers_natural expected n).map UInt64.ofNat
  rwa [UInt64.ofNat_toNat] at h

theorem recovers_word {words : List (String × α)} {w : String}
    (h : words.find? (·.1 == w) = some (w, a)) :
    Recovers (readWord words) (.string w) a := by
  intro rest _
  rw [chars_string, readWord]
  have hquote : skipBlanks ('"' :: (w.toList.flatMap escaped ++ '"' :: rest)) =
      '"' :: (w.toList.flatMap escaped ++ '"' :: rest) := skipBlanks_cons rfl _
  simp only [hquote, fromFirst, string_chars, except_ok_bind, h]

/-! ### Values that may be null -/

theorem Recovers.some (h : Recovers read t a) (hnull : t.chars.head? ≠ some 'n') :
    Recovers (readOption read) t (some a) := by
  intro rest hrest
  have hread := h rest hrest
  obtain ⟨c, r, hchars, hblank, -⟩ := chars_head t
  rw [hchars, List.cons_append] at hread ⊢
  rw [hchars, List.head?_cons, ne_eq, Option.some.injEq] at hnull
  rw [readOption, skipBlanks_cons hblank]
  split
  next heq => exact absurd (List.cons.inj heq).1 hnull
  · rw [hread]
    rfl

/-- A value that may be missing is recovered if its text does not start like null. -/
theorem recovers_orNull {f : γ → Tree} {g : γ → α} (h : ∀ x, Recovers read (f x) (g x))
    (hnull : ∀ x, (f x).chars.head? ≠ some 'n') (o : Option γ) :
    Recovers (readOption read) (orNull f o) (o.map g) := by
  cases o with
  | none => exact fun _ _ => rfl
  | some x => exact (h x).some (hnull x)

theorem head?_natural (n : UInt64) : (natural n).chars.head? ≠ some 'n' := by
  rw [chars_natural]
  intro h
  have hdigit := digits_toDigits n.toNat 'n' (List.mem_of_head? h)
  cases hdigit

/-! ### Lists and pairs -/

theorem closes_moreItems (ts : List Tree) (rest : List Char) :
    Closes (Tree.moreItems ts ++ rest) := by
  cases ts <;> rintro c ⟨⟩ <;> simp

theorem nextItem_first (t : Tree) (rest : List Char) :
    nextItem true (t.chars ++ rest) = .ok (some (t.chars ++ rest)) := by
  obtain ⟨c, r, hchars, hblank, hbracket⟩ := chars_head t
  rw [hchars, List.cons_append, nextItem, skipBlanks_cons hblank]
  split
  next h => cases h
  next h => exact absurd (List.cons.inj h).1 hbracket
  next h =>
    obtain ⟨rfl, rfl⟩ := List.cons.inj h
    exact if_pos rfl

theorem nextItem_next (t : Tree) (rest : List Char) :
    nextItem false (',' :: (t.chars ++ rest)) = .ok (some (t.chars ++ rest)) := by
  obtain ⟨c, r, hchars, hblank, hbracket⟩ := chars_head t
  rw [hchars, List.cons_append, nextItem, skipBlanks_cons (show isBlank ',' = false from rfl)]
  split
  next h => cases h
  next h => cases h
  next h =>
    cases h
    rw [if_neg Bool.false_ne_true, if_pos rfl, skipBlanks_cons hblank]
    split
    next h => cases h
    next h => exact absurd (List.cons.inj h).1 hbracket
    · rfl

theorem readItems_more {ts : List Tree} {as : List α}
    (h : List.Forall₂ (Recovers read) ts as) {fuel : Nat} (hfuel : ts.length < fuel)
    (rest : List Char) :
    readItems read fuel false (Tree.moreItems ts ++ rest) = .ok (as, ']' :: rest) := by
  induction h generalizing fuel with
  | nil =>
    obtain ⟨fuel, rfl⟩ := Nat.exists_eq_succ_of_ne_zero (Nat.ne_zero_of_lt hfuel)
    rfl
  | @cons t a ts as ht hts ih =>
    obtain ⟨fuel, rfl⟩ := Nat.exists_eq_succ_of_ne_zero (Nat.ne_zero_of_lt hfuel)
    rw [Tree.moreItems, List.cons_append, List.cons_append, List.append_assoc,
      readItems, nextItem_next, except_ok_bind]
    dsimp only
    rw [ht _ (closes_moreItems ts rest), except_ok_bind]
    dsimp only
    rw [ih (Nat.lt_of_succ_lt_succ hfuel), except_ok_bind]

theorem recovers_list {ts : List Tree} {as : List α} (h : List.Forall₂ (Recovers read) ts as) :
    Recovers (readList read) (.array ts) as := by
  intro rest _
  cases h with
  | nil => rfl
  | @cons t a ts as ht hts =>
    have hbracket (cs : List Char) : readList read ('[' :: cs) =
        readItems read (cs.length + 1) true cs >>= fun items =>
          endItems items.2 >>= fun rest => .ok (items.1, rest) := rfl
    have hfuel : ts.length < (t.chars ++ (Tree.moreItems ts ++ rest)).length := by
      have := length_lt_moreItems ts
      rw [List.length_append, List.length_append]
      omega
    rw [Tree.chars, List.cons_append, List.cons_append, List.append_assoc, hbracket,
      readItems, nextItem_first, except_ok_bind]
    dsimp only
    rw [ht _ (closes_moreItems ts rest), except_ok_bind]
    dsimp only
    rw [readItems_more hts hfuel, except_ok_bind]
    rfl

theorem recovers_pair {readFirst : Reader α} {readSecond : Reader β} {t u : Tree} {a : α} {b : β}
    (ht : Recovers readFirst t a) (hu : Recovers readSecond u b) :
    Recovers (readPair readFirst readSecond) (.array [t, u]) (a, b) := by
  intro rest _
  have hchars :
      (Tree.array [t, u]).chars ++ rest = '[' :: (t.chars ++ ',' :: (u.chars ++ ']' :: rest)) := by
    simp only [Tree.chars, Tree.moreItems, List.cons_append, List.append_assoc, List.nil_append]
  have hcomma : Closes (',' :: (u.chars ++ ']' :: rest)) := by rintro c ⟨⟩; simp
  have hbracket : Closes (']' :: rest) := by rintro c ⟨⟩; simp
  have hopen : skipBlanks ('[' :: (t.chars ++ ',' :: (u.chars ++ ']' :: rest))) =
      '[' :: (t.chars ++ ',' :: (u.chars ++ ']' :: rest)) := skipBlanks_cons rfl _
  rw [hchars, readPair, fromFirst, hopen]
  dsimp only
  split
  next h =>
    rw [← (List.cons.inj h).2, nextItem_first, except_ok_bind]
    dsimp only
    rw [ht _ hcomma, except_ok_bind]
    dsimp only
    rw [nextItem_next, except_ok_bind]
    dsimp only
    rw [hu _ hbracket, except_ok_bind]
    rfl
  next h => exact (h _ rfl).elim

/-! ### What all that is read has in common -/

def Yields (read : Reader α) (P : α → Prop) : Prop := ∀ cs a rest, read cs = .ok (a, rest) → P a

theorem yields_any (read : Reader α) : Yields read fun _ => True := fun _ _ _ _ => trivial

theorem Yields.of_parseAs {P : α → Prop} (h : Yields read P) {s : String}
    (hs : parseAs read s = .ok a) : P a := by
  obtain ⟨⟨a', rest⟩, hread, hend⟩ := except_bind_eq_ok.mp (except_mapError_eq_ok.mp hs)
  obtain ⟨⟨⟩, -, heq⟩ := except_bind_eq_ok.mp hend
  cases heq
  exact h _ _ _ hread

theorem Yields.map {P : α → Prop} {Q : β → Prop} (h : Yields read P) {f : α → β}
    (hf : ∀ a, P a → Q (f a)) :
    Yields (fun cs => (read cs).map fun (a, rest) => (f a, rest)) Q := by
  intro cs b rest hread
  obtain ⟨⟨a, rest'⟩, ha, heq⟩ := except_map_eq_ok.mp hread
  cases heq
  exact hf a (h _ _ _ ha)

theorem yields_natural (expected : String) : Yields (readNatural expected) (· < 2 ^ 64) := by
  intro cs n rest hread
  rw [readNatural, fromFirst] at hread
  split at hread
  · cases hread
  dsimp only at hread
  -- Whether there is a sign or not, an integer that is accepted fits.
  have hfits : ∀ {x : Except Fault (Number × List Char)} {f : Number × List Char →
      Except Fault (Nat × List Char)},
      (∀ i rest', f (.whole i, rest') = .ok (n, rest) → n = i.1.toNat) →
      (∀ y hy rest', f (.real y hy, rest') ≠ .ok (n, rest)) →
      x >>= f = .ok (n, rest) → n < 2 ^ 64 := by
    intro x f hwhole hreal hbind
    obtain ⟨⟨i, rest'⟩, -, hi⟩ := except_bind_eq_ok.mp hbind
    cases i with
    | whole i =>
      have hlt := i.2.2
      rw [hwhole i rest' hi]
      omega
    | real y hy => exact absurd hi (hreal y hy rest')
  have hwhole : ∀ (i : Whole) (rest' : List Char) (fault : Fault),
      (if 0 ≤ i.1 then (.ok (i.1.toNat, rest') : Except Fault (Nat × List Char))
        else .error fault) = .ok (n, rest) →
        n = i.1.toNat := by
    intro i rest' fault hi
    split at hi
    · cases hi
      rfl
    · cases hi
  split at hread
  · exact hfits (fun i rest' => hwhole i rest' _) (fun _ _ _ h => by cases h) hread
  · split at hread
    · exact hfits (fun i rest' => hwhole i rest' _) (fun _ _ _ h => by cases h) hread
    · cases hread
  · cases hread

theorem yields_option {P : α → Prop} (h : Yields read P) :
    Yields (readOption read) fun o => ∀ a ∈ o, P a := by
  intro cs o rest hread
  rw [readOption] at hread
  split at hread
  · rw [← word_eq hread]
    exact nofun
  · obtain ⟨⟨a, rest'⟩, ha, heq⟩ := except_map_eq_ok.mp hread
    cases heq
    rintro b ⟨⟩
    exact h _ _ _ ha

end Readers

/-! ### Records -/

namespace RecordShape

variable {σ : Type} {shape : RecordShape σ}

/-- Members that are written for fields, in their order, and the change that all of them are read
as. -/
inductive Written {σ : Type} : List (Field σ) → List (String × Tree) → (σ → σ) → Prop where
  | nil : Written [] [] id
  | cons {f : Field σ} {t : Tree} {change changes : σ → σ} {fs : List (Field σ)}
      {ms : List (String × Tree)}
      (head : Recovers f.read t change) (tail : Written fs ms changes) :
      Written (f :: fs) ((f.name, t) :: ms) (changes ∘ change)

section Members

variable {α : Type} {name : String} {read : Reader α} {put : α → σ →
    σ} {t : Tree} {a : α} {fs : List (Field σ)}
  {ms : List (String × Tree)} {changes : σ → σ}

theorem Written.must (head : Recovers read t a) (tail : Written fs ms changes) :
    Written (.must name read put :: fs) ((name, t) :: ms) (changes ∘ put a) :=
  .cons (head.map put) tail

theorem Written.may (head : Recovers read t a) (tail : Written fs ms changes) :
    Written (.may name read put :: fs) ((name, t) :: ms) (changes ∘ put a) :=
  .cons (head.map put) tail

end Members

theorem find?_field {fields : List (Field σ)} (hnodup : (fields.map Field.name).Nodup)
    {f : Field σ} (hf : f ∈ fields) :
    fields.find? (·.name == f.name) = some f := by
  cases hg : fields.find? (·.name == f.name) with
  | none => simpa using List.find?_eq_none.mp hg f hf
  | some g =>
    have hname : g.name = f.name := by simpa using List.find?_some hg
    rw [List.inj_on_of_nodup_map hnodup (List.mem_of_find?_eq_some hg) hf hname]

theorem closes_moreMembers (ms : List (String × Tree)) (rest : List Char) :
    Closes (Tree.moreMembers ms ++ rest) := by
  cases ms <;> rintro c ⟨⟩ <;> simp

/-- A member of a field that was not read yet changes the record. -/
theorem readMembers_member {f : Field σ} {t : Tree} {change : σ → σ} {first : Bool}
    {cs more : List Char} {seen : List String}
    (hnext : nextName first cs = .ok (some (memberChars (f.name, t) ++ more))) (hmore : Closes more)
    (hfind : shape.fields.find? (·.name == f.name) = some f) (hnew : f.name ∉ seen)
    (ht : Recovers f.read t change) (fuel : Nat) (s : σ) :
    shape.readMembers (fuel + 1) first seen s cs =
      shape.readMembers fuel false (f.name :: seen) (change s) more := by
  have hcolon (cs : List Char) : colon (':' :: cs) = .ok cs := rfl
  rw [memberChars, List.append_assoc, List.cons_append, List.cons_append] at hnext
  rw [readMembers, hnext, except_ok_bind]
  dsimp only
  rw [string_chars, except_ok_bind]
  dsimp only
  rw [hfind]
  dsimp only
  rw [if_neg (by simpa using hnew), hcolon, except_ok_bind, ht more hmore, except_ok_bind]

/-- The members behind the first one are read up to the brace if they are those of the fields that
are left. -/
theorem readMembers_more (hnodup : (shape.fields.map Field.name).Nodup) {fs : List (Field σ)}
    {ms : List (String × Tree)} {changes : σ → σ} (h : Written fs ms changes)
    (hfields : ∀ f ∈ fs, f ∈ shape.fields) (hnames : (fs.map Field.name).Nodup) {seen : List String}
    (hnew : ∀ f ∈ fs, f.name ∉ seen) (hall : ∀ f ∈ shape.fields, f.name ∈ seen ∨ f ∈ fs)
    {fuel : Nat} (hfuel : ms.length < fuel) (s : σ) (rest : List Char) :
    shape.readMembers fuel false seen s (Tree.moreMembers ms ++ rest) = .ok (changes s, rest) := by
  induction h generalizing fuel seen s with
  | nil =>
    obtain ⟨fuel, rfl⟩ := Nat.exists_eq_succ_of_ne_zero (Nat.ne_zero_of_lt hfuel)
    have hmissing : (shape.fields.find? fun f => f.required && !seen.contains f.name) = none := by
      rw [List.find?_eq_none]
      intro f hf
      simpa using fun _ => (hall f hf).resolve_right nofun
    have hbrace : nextName false ('\x7d' :: rest) = .ok none := rfl
    rw [Tree.moreMembers, List.singleton_append, readMembers, hbrace, except_ok_bind]
    dsimp only
    rw [hmissing]
    rfl
  | @cons f t change changes fs ms ht _ ih =>
    obtain ⟨fuel, rfl⟩ := Nat.exists_eq_succ_of_ne_zero (Nat.ne_zero_of_lt hfuel)
    obtain ⟨hf, hfs⟩ := List.forall_mem_cons.mp hfields
    obtain ⟨hnew, hnews⟩ := List.forall_mem_cons.mp hnew
    obtain ⟨hname, hnames⟩ := List.nodup_cons.mp hnames
    have hnext : nextName false (Tree.moreMembers ((f.name, t) :: ms) ++ rest) =
        .ok (some (memberChars (f.name, t) ++ (Tree.moreMembers ms ++ rest))) := by
      rw [moreMembers_cons, List.cons_append, List.cons_append, List.append_assoc]
      rfl
    rw [readMembers_member hnext (closes_moreMembers _ rest) (find?_field hnodup hf) hnew ht]
    refine ih hfs hnames (fun g hg => ?_) (fun g hg => ?_) (Nat.lt_of_succ_lt_succ hfuel) _
    · rw [List.mem_cons, not_or]
      exact ⟨fun heq => hname (heq ▸ List.mem_map_of_mem hg), hnews g hg⟩
    · rcases hall g hg with hseen | hleft
      · exact .inl (List.mem_cons_of_mem _ hseen)
      · exact (List.mem_cons.mp hleft).imp_left fun (heq : g = f) => heq ▸ List.mem_cons_self

/-- A record is recovered from the members of its fields. -/
theorem recovers (shape : RecordShape σ) {ms : List (String × Tree)} {changes : σ → σ}
    (h : Written shape.fields ms changes) (hne : shape.fields ≠ [])
    (hnodup : (shape.fields.map Field.name).Nodup) :
    Recovers shape.read (.object ms) (changes shape.start) := by
  intro rest _
  have hbrace (cs : List Char) : shape.read ('\x7b' :: cs) =
      shape.readMembers (cs.length + 1) true [] shape.start cs := rfl
  have hnext (cs : List Char) : nextName true ('"' :: cs) = .ok (some cs) := rfl
  generalize hfields : shape.fields = fields at h
  cases h with
  | nil => exact absurd hfields hne
  | @cons f t change changes fs ms ht hfs =>
    have hmem : ∀ g ∈ f :: fs, g ∈ shape.fields := fun g hg => hfields ▸ hg
    obtain ⟨hf, hmem⟩ := List.forall_mem_cons.mp hmem
    have hnames : ((f :: fs).map Field.name).Nodup := hfields ▸ hnodup
    obtain ⟨hname, hnames⟩ := List.nodup_cons.mp hnames
    have hfuel : ms.length <
        ('"' :: (memberChars (f.name, t) ++ (Tree.moreMembers ms ++ rest))).length := by
      have := length_lt_moreMembers ms
      rw [List.length_cons, List.length_append, List.length_append]
      omega
    rw [chars_object_cons, List.cons_append, List.cons_append, List.append_assoc, hbrace,
      readMembers_member (hnext _) (closes_moreMembers _ rest) (find?_field hnodup hf)
        List.not_mem_nil ht]
    refine readMembers_more hnodup hfs hmem hnames (fun g hg => ?_) (fun g hg => ?_) hfuel _ rest
    · rw [List.mem_singleton]
      exact fun heq => hname (heq ▸ List.mem_map_of_mem hg)
    · rw [hfields] at hg
      exact (List.mem_cons.mp hg).imp_left fun (heq : g = f) => heq ▸ List.mem_cons_self

/-! ### What all records that are read have in common -/

section Invariant

variable {α : Type} {read : Reader α} {Q : α → Prop} {P : σ →
    Prop} {name : String} {put : α → σ → σ}

theorem yields_must (h : Yields read Q) (hput : ∀ a, Q a → ∀ s, P s → P (put a s)) :
    Yields (Field.must name read put).read fun change => ∀ s, P s → P (change s) := h.map hput

theorem yields_may (h : Yields read Q) (hput : ∀ a, Q a → ∀ s, P s → P (put a s)) :
    Yields (Field.may name read put).read fun change => ∀ s, P s → P (change s) := h.map hput

/-- Reading members keeps what every field keeps. -/
theorem yields_members
    (hfields : ∀ f ∈ shape.fields, Yields f.read fun change => ∀ s, P s → P (change s)) {fuel : Nat}
    {first : Bool} {seen : List String} {s : σ} (hs : P s) :
    Yields (shape.readMembers fuel first seen s) P := by
  induction fuel generalizing first seen s with
  | zero => exact fun _ _ _ hread => by cases hread
  | succ fuel ih =>
    intro cs s' rest hread
    obtain ⟨next?, -, hread⟩ := except_bind_eq_ok.mp hread
    cases next? with
    | none =>
      dsimp only at hread
      split at hread
      · cases hread
      · cases hread
        exact hs
    | some next =>
      obtain ⟨⟨name, next⟩, -, hread⟩ := except_bind_eq_ok.mp hread
      dsimp only at hread
      split at hread
      next f hf =>
        split at hread
        · cases hread
        · obtain ⟨next, -, hread⟩ := except_bind_eq_ok.mp hread
          obtain ⟨⟨change, next⟩, hchange, hread⟩ := except_bind_eq_ok.mp hread
          exact ih (hfields f (List.mem_of_find?_eq_some hf) _ _ _ hchange s hs) _ _ _ hread
      next =>
        obtain ⟨next, -, hread⟩ := except_bind_eq_ok.mp hread
        obtain ⟨⟨⟨⟩, next⟩, -, hread⟩ := except_bind_eq_ok.mp hread
        exact ih hs _ _ _ hread

/-- Reading the items of an array keeps what every field keeps. -/
theorem yields_fields {fs : List (Field σ)}
    (hfields : ∀ f ∈ fs, Yields f.read fun change => ∀ s, P s → P (change s)) {count : Nat}
    {first : Bool} {s : σ} (hs : P s) : Yields (shape.readFields count fs first s) P := by
  induction fs generalizing count first s with
  | nil =>
    intro cs s' rest hread
    cases hread
    exact hs
  | cons f fs ih =>
    obtain ⟨hf, hfs⟩ := List.forall_mem_cons.mp hfields
    intro cs s' rest hread
    obtain ⟨next?, -, hread⟩ := except_bind_eq_ok.mp hread
    cases next? with
    | none =>
      dsimp only at hread
      split at hread
      · cases hread
      · exact ih hfs hs _ _ _ hread
    | some next =>
      obtain ⟨⟨change, next⟩, hchange, hread⟩ := except_bind_eq_ok.mp hread
      exact ih hfs (hf _ _ _ hchange s hs) _ _ _ hread

/-- Every record that is read has what the empty record has and every field keeps. -/
theorem yields (hstart : P shape.start)
    (hfields : ∀ f ∈ shape.fields, Yields f.read fun change => ∀ s, P s → P (change s)) :
    Yields shape.read P := by
  intro cs s rest hread
  rw [RecordShape.read, fromFirst] at hread
  split at hread
  · cases hread
  dsimp only at hread
  split at hread
  · obtain ⟨⟨s', next⟩, hs', hread⟩ := except_bind_eq_ok.mp hread
    obtain ⟨next, -, hread⟩ := except_bind_eq_ok.mp hread
    cases hread
    exact yields_fields hfields hstart _ _ _ hs'
  · exact yields_members hfields hstart _ _ _ hread
  · cases hread

end Invariant

end RecordShape

end TypedTables.Json
