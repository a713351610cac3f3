import TypedTables.Json.Parser
import TypedTables.Proofs.JsonReals
import TypedTables.Proofs.JsonStrings
import TypedTables.Proofs.Keyed

/-!
# JSON values read back

The text of a tree is read as a tree exactly if not too many of its brackets are open at once. A
tree without floating point numbers is read as itself.
-/
namespace TypedTables.Json

namespace Tree

mutual

def depth : Tree → Nat
  | .array items => itemsDepth items + 1
  | .object members => membersDepth members + 1
  | _ => 0

def itemsDepth : List Tree → Nat
  | [] => 0
  | t :: ts => max (depth t) (itemsDepth ts)

def membersDepth : List (String × Tree) → Nat
  | [] => 0
  | (_, t) :: ms => max (depth t) (membersDepth ms)

end

mutual

/-- No number is a floating point number. -/
def Exact : Tree → Prop
  | .number (.real ..) => False
  | .array items => ItemsExact items
  | .object members => MembersExact members
  | _ => True

def ItemsExact : List Tree → Prop
  | [] => True
  | t :: ts => Exact t ∧ ItemsExact ts

def MembersExact : List (String × Tree) → Prop
  | [] => True
  | (_, t) :: ms => Exact t ∧ MembersExact ms

end

theorem itemsDepth_le_iff {ts : List Tree} {n : Nat} :
    itemsDepth ts ≤ n ↔ ∀ t ∈ ts, t.depth ≤ n := by
  induction ts with
  | nil => simp [itemsDepth]
  | cons t ts ih => simp [itemsDepth, ih]

theorem membersDepth_le_iff {ms : List (String × Tree)} {n : Nat} :
    membersDepth ms ≤ n ↔ ∀ m ∈ ms, m.2.depth ≤ n := by
  induction ms with
  | nil => simp [membersDepth]
  | cons m ms ih => simp [membersDepth, ih]

theorem itemsExact_iff {ts : List Tree} : ItemsExact ts ↔ ∀ t ∈ ts, t.Exact := by
  induction ts with
  | nil => simp [ItemsExact]
  | cons t ts ih => simp [ItemsExact, ih]

theorem membersExact_iff {ms : List (String × Tree)} : MembersExact ms ↔ ∀ m ∈ ms, m.2.Exact := by
  induction ms with
  | nil => simp [MembersExact]
  | cons m ms ih => simp [MembersExact, ih]

mutual

/-- A tree whose objects are in order is the value that it denotes. -/
theorem sorted_of_ordered : ∀ t : Tree, t.Ordered → t.sorted = t
  | .null, _ => rfl
  | .bool _, _ => rfl
  | .number _, _ => rfl
  | .string _, _ => rfl
  | .array items, h => by
    rw [Ordered] at h
    rw [sorted, sortedItems_of_ordered items h]
  | .object members, h => by
    rw [Ordered] at h
    rw [sorted, sortedMembers_of_ordered members h.2, Keyed.sortEntries_of_increasing h.1]

theorem sortedItems_of_ordered : ∀ ts : List Tree, ItemsOrdered ts → sortedItems ts = ts
  | [], _ => rfl
  | t :: ts, h => by
    rw [ItemsOrdered] at h
    rw [sortedItems, sorted_of_ordered t h.1, sortedItems_of_ordered ts h.2]

theorem sortedMembers_of_ordered : ∀ ms :
    List (String × Tree), MembersOrdered ms → sortedMembers ms = ms
  | [], _ => rfl
  | (name, t) :: ms, h => by
    rw [MembersOrdered] at h
    rw [sortedMembers, sorted_of_ordered t h.1, sortedMembers_of_ordered ms h.2]

end

end Tree

section Lists

variable {α : Type} {one : Reader α} {text : α → List Char}

/-- A reader reads the text of a value, whatever closes behind it; a value that is exact is read as
itself. -/
def Reads (one : Reader α) (text : α → List Char) (exact : α → Prop) (a : α) : Prop :=
  ∀ rest, Closes rest → ∃ a', one (text a ++ rest) = .ok (a', rest) ∧ (exact a → a' = a)

/-- A reader refuses the text of a value, whatever closes behind it. -/
def Refuses (one : Reader α) (text : α → List Char) (a : α) : Prop :=
  ∀ rest, Closes rest → ∃ fault, one (text a ++ rest) = .error fault

def readThen (one : Reader α) (tail : Reader (List α)) (cs : List Char) :
    Except Fault (List α × List Char) := do
  let (a, rest) ← one cs
  let (as, rest) ← tail rest
  .ok (a :: as, rest)

/-- The text behind the first value of a list, with its closing bracket, and the reader of it. -/
structure Listed (one : Reader α) (text : α → List Char) (tail : Nat → Reader (List α))
    (more : List α → List Char) : Prop where
  closed : ∀ fuel rest, tail (fuel + 1) (more [] ++ rest) = .ok ([], rest)
  next : ∀ fuel a as rest,
    tail (fuel + 1) (more (a :: as) ++ rest) =
      readThen one (tail fuel) (text a ++ (more as ++ rest))
  closes : ∀ as rest, Closes (more as ++ rest)

namespace Listed

variable {tail : Nat → Reader (List α)} {more : List α → List Char}

/-- The values of a list are read up to the bracket behind them. -/
theorem reads (h : Listed one text tail more) {exact : α → Prop} {a : α} {as : List α}
    (has : ∀ b ∈ a :: as, Reads one text exact b) {fuel : Nat} (hfuel : as.length < fuel)
    (rest : List Char) :
    ∃ as', readThen one (tail fuel) (text a ++ (more as ++ rest)) = .ok (as', rest) ∧
      ((∀ b ∈ a :: as, exact b) → as' = a :: as) := by
  induction as generalizing a fuel with
  | nil =>
    obtain ⟨fuel, rfl⟩ := Nat.exists_eq_succ_of_ne_zero (Nat.ne_zero_of_lt hfuel)
    obtain ⟨a', ha, hexact⟩ := has a List.mem_cons_self _ (h.closes [] rest)
    refine ⟨[a'], ?_, fun hall => by rw [hexact (hall a List.mem_cons_self)]⟩
    rw [readThen, ha, except_ok_bind]
    dsimp only
    rw [h.closed, except_ok_bind]
  | cons b bs ih =>
    obtain ⟨fuel, rfl⟩ := Nat.exists_eq_succ_of_ne_zero (Nat.ne_zero_of_lt hfuel)
    obtain ⟨a', ha, hexact⟩ := has a List.mem_cons_self _ (h.closes (b :: bs) rest)
    obtain ⟨bs', hbs', hexacts⟩ :=
      ih (fun b hb => has b (List.mem_cons_of_mem _ hb)) (Nat.lt_of_succ_lt_succ hfuel)
    refine ⟨a' :: bs', ?_, fun hall => ?_⟩
    · rw [readThen, ha, except_ok_bind]
      dsimp only
      rw [h.next, hbs', except_ok_bind]
    · rw [hexact (hall a List.mem_cons_self),
        hexacts fun b hb => hall b (List.mem_cons_of_mem _ hb)]

/-- A list is refused with the first of its values that is refused. -/
theorem refuses (h : Listed one text tail more) {exact : α → Prop} {a : α} {as : List α}
    (has : ∀ b ∈ a :: as, Reads one text exact b ∨ Refuses one text b)
    (hsome : ∃ b ∈ a :: as, Refuses one text b) {fuel : Nat} (hfuel : as.length < fuel)
    (rest : List Char) :
    ∃ fault, readThen one (tail fuel) (text a ++ (more as ++ rest)) = .error fault := by
  induction as generalizing a fuel with
  | nil =>
    obtain ⟨b, hb, hrefuses⟩ := hsome
    obtain rfl := List.mem_singleton.mp hb
    obtain ⟨fault, hfault⟩ := hrefuses _ (h.closes [] rest)
    exact ⟨fault, except_bind_eq_error.mpr (.inl hfault)⟩
  | cons b bs ih =>
    obtain ⟨fuel, rfl⟩ := Nat.exists_eq_succ_of_ne_zero (Nat.ne_zero_of_lt hfuel)
    rcases has a List.mem_cons_self with hreads | hrefuses
    · obtain ⟨a', ha, -⟩ := hreads _ (h.closes (b :: bs) rest)
      -- what is read is not refused, so the refused value stands behind it
      have hlater : ∃ c ∈ b :: bs, Refuses one text c := by
        obtain ⟨c, hc, hrefuses⟩ := hsome
        rcases List.mem_cons.mp hc with rfl | hc
        · obtain ⟨fault, hfault⟩ := hrefuses _ (h.closes (b :: bs) rest)
          rw [ha] at hfault
          cases hfault
        · exact ⟨c, hc, hrefuses⟩
      obtain ⟨fault, hfault⟩ :=
        ih (fun b hb => has b (List.mem_cons_of_mem _ hb)) hlater (Nat.lt_of_succ_lt_succ hfuel)
      rw [readThen, ha, except_ok_bind]
      dsimp only
      rw [h.next, hfault]
      exact ⟨fault, rfl⟩
    · obtain ⟨fault, hfault⟩ := hrefuses _ (h.closes (b :: bs) rest)
      exact ⟨fault, except_bind_eq_error.mpr (.inl hfault)⟩

end Listed

end Lists

/-- A reader reads the text of a tree; a tree without floating point numbers is read as itself. -/
abbrev ReadsTree (item : Reader Tree) (t : Tree) : Prop := Reads item Tree.chars Tree.Exact t

/-- A reader refuses the text of a tree. -/
abbrev RefusesTree (item : Reader Tree) (t : Tree) : Prop := Refuses item Tree.chars t

/-! ### Values without parts -/

theorem number_head {neg : Bool} {cs rest : List Char} {i : Number}
    (h : number neg cs = .ok (i, rest)) :
    ∃ c r, cs = c :: r ∧ c.isDigit = true := by
  cases cs with
  | nil => cases h
  | cons c r =>
    refine ⟨c, r, rfl, ?_⟩
    by_contra hc
    rw [number, if_pos (by simpa using hc)] at h
    cases h

/-- A number stands in a text as digits, perhaps behind a sign, that are read as a number: a whole
one as itself. -/
theorem number_chars (i : Number) :
    ∃ neg cs, i.chars = (if neg then '-' :: cs else cs) ∧
      ∀ rest, Closes rest → ∃ j, number neg (cs ++ rest) = .ok (j, rest) ∧
      ((Tree.number i).Exact → j = i) := by
  cases i with
  | whole i =>
    obtain ⟨i, hlow, hhigh⟩ := i
    rcases lt_or_ge i 0 with hneg | hpos
    · refine ⟨true, Nat.toDigits 10 i.natAbs, ?_, fun rest hrest => ?_⟩
      · change integerChars i = _
        rw [integerChars, if_pos hneg, if_pos rfl]
      · refine ⟨_, number_minus (by omega) (by omega) hrest, fun _ => ?_⟩
        have hi : -(i.natAbs : Int) = i := by omega
        simp only [hi]
    · refine ⟨false, Nat.toDigits 10 i.toNat, ?_, fun rest hrest => ?_⟩
      · change integerChars i = _
        rw [integerChars, if_neg (by omega), if_neg Bool.false_ne_true]
      · refine ⟨_, number_natural (by omega) hrest, fun _ => ?_⟩
        have hi : (i.toNat : Int) = i := Int.toNat_of_nonneg hpos
        simp only [hi]
  | real x hx =>
    obtain ⟨neg, cs, htext, hread⟩ := write_finite hx
    refine ⟨neg, cs, htext, fun rest hrest => ?_⟩
    obtain ⟨y, hy, hnumber⟩ := hread rest hrest
    exact ⟨_, hnumber, fun h => by simp [Tree.Exact] at h⟩

theorem ne_of_isDigit {c d : Char} (hc : c.isDigit = true) (hd : d.isDigit = false) : c ≠ d := by
  rintro rfl
  rw [hc] at hd
  cases hd

theorem isBlank_of_isDigit {c : Char} (hc : c.isDigit = true) : isBlank c = false := by
  simp [isBlank, ne_of_isDigit hc]

theorem skipBlanks_cons {c : Char} (hc : isBlank c = false) (cs : List Char) :
    skipBlanks (c :: cs) = c :: cs :=
  List.dropWhile_cons_of_neg (by simp [hc])

theorem valueWith_digit (nested : Option (Reader Tree)) {c : Char}
    (hc : c.isDigit = true) (cs : List Char) :
    valueWith nested (c :: cs) = (number false (c :: cs)).map fun (n, rest) =>
      (.number n, rest) := by
  rw [valueWith, skipBlanks_cons (isBlank_of_isDigit hc)]
  split
  next h => cases h
  next h => exact absurd (List.cons.inj h).1 (ne_of_isDigit hc rfl)
  next h => exact absurd (List.cons.inj h).1 (ne_of_isDigit hc rfl)
  next h => exact absurd (List.cons.inj h).1 (ne_of_isDigit hc rfl)
  next h => exact absurd (List.cons.inj h).1 (ne_of_isDigit hc rfl)
  next h => exact absurd (List.cons.inj h).1 (ne_of_isDigit hc rfl)
  next h => exact absurd (List.cons.inj h).1 (ne_of_isDigit hc rfl)
  next h => exact absurd (List.cons.inj h).1 (ne_of_isDigit hc rfl)
  next h =>
    obtain ⟨rfl, rfl⟩ := List.cons.inj h
    exact if_pos hc

/-- The text of a number is read as one, at every depth. -/
theorem reads_number (nested : Option (Reader Tree)) (i : Number) :
    ReadsTree (valueWith nested) (.number i) := by
  intro rest hrest
  obtain ⟨neg, cs, htext, hread⟩ := number_chars i
  obtain ⟨j, hnumber, hexact⟩ := hread rest hrest
  refine ⟨.number j, ?_, fun h => by rw [hexact h]⟩
  rw [Tree.chars, htext]
  cases neg with
  | true =>
    have hminus : valueWith nested ('-' :: (cs ++ rest)) =
        (number true (cs ++ rest)).map fun (n, rest) => (.number n, rest) := rfl
    rw [if_pos rfl, List.cons_append, hminus, hnumber]
    rfl
  | false =>
    obtain ⟨c, r, hcs, hc⟩ := number_head hnumber
    rw [if_neg Bool.false_ne_true, hcs, valueWith_digit nested hc, ← hcs, hnumber]
    rfl

theorem reads_string (nested : Option (Reader Tree)) (s : String) :
    ReadsTree (valueWith nested) (.string s) := by
  intro rest _
  have hquote : valueWith nested ('"' :: (s.toList.flatMap escaped ++ '"' :: rest)) =
      (string (s.toList.flatMap escaped ++ '"' :: rest)).map fun read => (.string read.1, read.2) :=
        rfl
  refine ⟨.string s, ?_, fun _ => rfl⟩
  rw [Tree.chars, stringChars, List.cons_append, List.cons_append, List.append_assoc,
    List.singleton_append, hquote, string_chars]
  rfl

theorem reads_null (nested : Option (Reader Tree)) : ReadsTree (valueWith nested) .null :=
  fun _ _ => ⟨.null, rfl, fun _ => rfl⟩

theorem reads_bool (nested : Option (Reader Tree)) (b : Bool) :
    ReadsTree (valueWith nested) (.bool b) := by
  cases b with
  | false => exact fun _ _ => ⟨.bool false, rfl, fun _ => rfl⟩
  | true => exact fun _ _ => ⟨.bool true, rfl, fun _ => rfl⟩

/-! ### Arrays -/

/-- The text of a tree starts neither with a blank nor with a bracket that closes. -/
theorem chars_head (t : Tree) : ∃ c r, t.chars = c :: r ∧ isBlank c = false ∧ c ≠ ']' := by
  cases t with
  | null => exact ⟨_, _, rfl, rfl, by decide⟩
  | bool b => cases b <;> exact ⟨_, _, rfl, rfl, by decide⟩
  | number i =>
    obtain ⟨neg, cs, htext, hread⟩ := number_chars i
    obtain ⟨j, hnumber, -⟩ := hread [] nofun
    obtain ⟨c, r, hcs, hc⟩ := number_head hnumber
    rw [List.append_nil] at hcs
    rw [Tree.chars, htext, hcs]
    cases neg with
    | true => exact ⟨'-', c :: r, rfl, rfl, by decide⟩
    | false => exact ⟨c, r, rfl, isBlank_of_isDigit hc, ne_of_isDigit hc rfl⟩
  | string s => exact ⟨_, _, rfl, rfl, by decide⟩
  | array ts => cases ts <;> exact ⟨_, _, rfl, rfl, by decide⟩
  | object ms =>
    cases ms with
    | nil => exact ⟨_, _, rfl, rfl, by decide⟩
    | cons m ms => exact ⟨_, _, rfl, rfl, by decide⟩

section Items

variable {item : Reader Tree}

theorem itemsTail_first (fuel : Nat) (t : Tree) (rest : List Char) :
    itemsTail item (fuel + 1) true (t.chars ++ rest) =
      readThen item (itemsTail item fuel false) (t.chars ++ rest) := by
  obtain ⟨c, r, hcs, hblank, hbracket⟩ := chars_head t
  rw [hcs, List.cons_append, itemsTail, skipBlanks_cons hblank]
  split
  next h => cases h
  next h => exact absurd (List.cons.inj h).1 hbracket
  next h =>
    obtain ⟨rfl, rfl⟩ := List.cons.inj h
    rfl

theorem itemsTail_next (fuel : Nat) (t : Tree) (rest : List Char) :
    itemsTail item (fuel + 1) false (',' :: (t.chars ++ rest)) =
      readThen item (itemsTail item fuel false) (t.chars ++ rest) := by
  obtain ⟨c, r, hcs, hblank, hbracket⟩ := chars_head t
  have hcomma : isBlank ',' = false := by decide
  rw [hcs, List.cons_append, itemsTail, skipBlanks_cons hcomma]
  split
  next h => cases h
  next h => exact absurd (List.cons.inj h).1 (by decide)
  next h =>
    obtain ⟨rfl, rfl⟩ := List.cons.inj h
    rw [if_neg Bool.false_ne_true, if_pos rfl, skipBlanks_cons hblank]
    split
    next h => cases h
    next h => exact absurd (List.cons.inj h).1 hbracket
    next h => rfl

theorem listed_items : Listed item Tree.chars (itemsTail item · false) Tree.moreItems where
  closed _ _ := rfl
  next fuel t ts rest := by
    rw [Tree.moreItems, List.cons_append, List.cons_append, List.append_assoc, itemsTail_next]
  closes ts rest := by
    cases ts <;> rintro c ⟨⟩ <;> simp

theorem length_lt_moreItems (ts : List Tree) : ts.length < (Tree.moreItems ts).length := by
  induction ts with
  | nil => exact Nat.one_pos
  | cons t ts ih =>
    rw [Tree.moreItems, List.length_cons, List.cons_append, List.length_cons, List.length_append]
    omega

/-- An array with an item is read as the list of its items. -/
theorem valueWith_array (item : Reader Tree) (t : Tree) (ts : List Tree) (rest : List Char) :
    ∃ fuel, ts.length < fuel ∧ valueWith (some item) ((Tree.array (t :: ts)).chars ++ rest) =
      (readThen item (itemsTail item fuel false) (t.chars ++ (Tree.moreItems ts ++ rest))).map
        fun (ts, rest) => (.array ts, rest) := by
  refine ⟨(t.chars ++ (Tree.moreItems ts ++ rest)).length, ?_, ?_⟩
  · have := length_lt_moreItems ts
    rw [List.length_append, List.length_append]
    omega
  · have hbracket (cs : List Char) : valueWith (some item) ('[' :: cs) =
        (itemsTail item (cs.length + 1) true cs).map fun (ts, rest) => (.array ts, rest) := rfl
    rw [Tree.chars, List.cons_append, List.cons_append, List.append_assoc,
      hbracket, itemsTail_first]

theorem reads_array {ts : List Tree} (hts : ∀ t ∈ ts, ReadsTree item t) :
    ReadsTree (valueWith (some item)) (.array ts) := by
  intro rest _
  cases ts with
  | nil => exact ⟨.array [], rfl, fun _ => rfl⟩
  | cons t ts =>
    obtain ⟨fuel, hfuel, hvalue⟩ := valueWith_array item t ts rest
    obtain ⟨ts', hts', hexact⟩ := listed_items.reads hts hfuel rest
    refine ⟨.array ts', ?_, fun h => by rw [hexact (Tree.itemsExact_iff.mp h)]⟩
    rw [hvalue, hts']
    rfl

theorem refuses_array {ts : List Tree} (hts : ∀ t ∈ ts, ReadsTree item t ∨ RefusesTree item t)
    (hsome : ∃ t ∈ ts, RefusesTree item t) : RefusesTree (valueWith (some item)) (.array ts) := by
  intro rest _
  cases ts with
  | nil => simp at hsome
  | cons t ts =>
    obtain ⟨fuel, hfuel, hvalue⟩ := valueWith_array item t ts rest
    obtain ⟨fault, hfault⟩ := listed_items.refuses hts hsome hfuel rest
    exact ⟨fault, by rw [hvalue, hfault]; rfl⟩

end Items

/-! ### Objects -/

section Members

variable {item : Reader Tree}

def member (item : Reader Tree) (cs : List Char) : Except Fault ((String × Tree) × List Char) := do
  let (name, rest) ← string cs
  let rest ← colon rest
  let (t, rest) ← item rest
  .ok ((name, t), rest)

def memberChars (m : String × Tree) : List Char :=
  m.1.toList.flatMap escaped ++ '"' :: ':' :: m.2.chars

/-- The name of a member is read, and then its value. -/
theorem member_chars (m : String × Tree) (rest : List Char) :
    member item (memberChars m ++ rest) = (item (m.2.chars ++ rest)).map fun (t, rest) =>
      ((m.1, t), rest) := by
  have hcolon (cs : List Char) : colon (':' :: cs) = .ok cs := rfl
  rw [member, memberChars, List.append_assoc, List.cons_append, List.cons_append,
    string_chars, except_ok_bind]
  dsimp only
  rw [hcolon, except_ok_bind]
  cases item (m.2.chars ++ rest) <;> rfl

theorem reads_member {m : String × Tree} (h : ReadsTree item m.2) :
    Reads (member item) memberChars (·.2.Exact) m := by
  intro rest hrest
  obtain ⟨t, ht, hexact⟩ := h rest hrest
  exact ⟨(m.1, t), by rw [member_chars, ht]; rfl, fun h => by rw [hexact h]⟩

theorem refuses_member {m : String × Tree} (h : RefusesTree item m.2) :
    Refuses (member item) memberChars m := by
  intro rest hrest
  obtain ⟨fault, hfault⟩ := h rest hrest
  exact ⟨fault, by rw [member_chars, hfault]; rfl⟩

/-- Reading a member first is reading its name, its colon and its value first. -/
theorem readThen_member (tail : Reader (List (String × Tree))) (cs : List Char) :
    readThen (member item) tail cs = (do
      let (name, rest) ← string cs
      let rest ← colon rest
      let (t, rest) ← item rest
      let (ms, rest) ← tail rest
      .ok ((name, t) :: ms, rest)) := by
  rw [readThen, member, bind_assoc]
  refine bind_congr fun ⟨name, rest⟩ => ?_
  dsimp only
  rw [bind_assoc]
  refine bind_congr fun rest => ?_
  rw [bind_assoc]
  rfl

theorem membersTail_first (fuel : Nat) (cs : List Char) :
    membersTail item (fuel + 1) true ('"' :: cs) =
      readThen (member item) (membersTail item fuel false) cs := by
  rw [readThen_member]
  rfl

theorem membersTail_next (fuel : Nat) (cs : List Char) :
    membersTail item (fuel + 1) false (',' :: '"' :: cs) =
      readThen (member item) (membersTail item fuel false) cs := by
  rw [readThen_member]
  rfl

theorem moreMembers_cons (m : String × Tree) (ms : List (String × Tree)) :
    Tree.moreMembers (m :: ms) = ',' :: '"' :: (memberChars m ++ Tree.moreMembers ms) := by
  rw [Tree.moreMembers, stringChars, memberChars]
  simp only [List.cons_append, List.append_assoc, List.nil_append]

theorem chars_object_cons (m : String × Tree) (ms : List (String × Tree)) :
    (Tree.object (m :: ms)).chars = '\x7b' :: '"' :: (memberChars m ++ Tree.moreMembers ms) := by
  rw [Tree.chars, stringChars, memberChars]
  simp only [List.cons_append, List.append_assoc, List.nil_append]

theorem listed_members :
    Listed (member item) memberChars (membersTail item · false) Tree.moreMembers where
  closed _ _ := rfl
  next fuel m ms rest := by
    rw [moreMembers_cons, List.cons_append, List.cons_append, List.append_assoc, membersTail_next]
  closes ms rest := by
    cases ms <;> rintro c ⟨⟩ <;> simp

theorem length_lt_moreMembers (ms : List (String × Tree)) :
    ms.length < (Tree.moreMembers ms).length := by
  induction ms with
  | nil => exact Nat.one_pos
  | cons m ms ih =>
    rw [moreMembers_cons, List.length_cons, List.length_cons, List.length_cons, List.length_append]
    omega

/-- An object with a member is read as the list of its members. -/
theorem valueWith_object (item : Reader Tree) (m : String × Tree) (ms : List (String × Tree))
    (rest : List Char) :
    ∃ fuel, ms.length < fuel ∧ valueWith (some item) ((Tree.object (m :: ms)).chars ++ rest) =
      (readThen (member item) (membersTail item fuel false)
        (memberChars m ++ (Tree.moreMembers ms ++ rest))).map
        fun (ms, rest) => (.object ms, rest) := by
  refine ⟨('"' :: (memberChars m ++ (Tree.moreMembers ms ++ rest))).length, ?_, ?_⟩
  · have := length_lt_moreMembers ms
    rw [List.length_cons, List.length_append, List.length_append]
    omega
  · have hbrace (cs : List Char) : valueWith (some item) ('\x7b' :: cs) =
        (membersTail item (cs.length + 1) true cs).map fun (ms, rest) => (.object ms, rest) := rfl
    rw [chars_object_cons, List.cons_append, List.cons_append, List.append_assoc,
      hbrace, membersTail_first]

theorem reads_object {ms : List (String × Tree)} (hms : ∀ m ∈ ms, ReadsTree item m.2) :
    ReadsTree (valueWith (some item)) (.object ms) := by
  intro rest _
  cases ms with
  | nil => exact ⟨.object [], rfl, fun _ => rfl⟩
  | cons m ms =>
    obtain ⟨fuel, hfuel, hvalue⟩ := valueWith_object item m ms rest
    obtain ⟨ms', hms', hexact⟩ :=
      listed_members.reads (fun m hm => reads_member (hms m hm)) hfuel rest
    refine ⟨.object ms', ?_, fun h => by rw [hexact (Tree.membersExact_iff.mp h)]⟩
    rw [hvalue, hms']
    rfl

theorem refuses_object {ms : List (String × Tree)}
    (hms : ∀ m ∈ ms, ReadsTree item m.2 ∨ RefusesTree item m.2)
    (hsome : ∃ m ∈ ms, RefusesTree item m.2) :
    RefusesTree (valueWith (some item)) (.object ms) := by
  intro rest _
  cases ms with
  | nil => simp at hsome
  | cons m ms =>
    obtain ⟨fuel, hfuel, hvalue⟩ := valueWith_object item m ms rest
    obtain ⟨fault, hfault⟩ :=
      listed_members.refuses (fun m hm => (hms m hm).imp reads_member refuses_member)
      (hsome.imp fun _ h => ⟨h.1, refuses_member h.2⟩) hfuel rest
    exact ⟨fault, by rw [hvalue, hfault]; rfl⟩

end Members

/-! ### Whole texts -/

/-- A reader that may still open `n` brackets reads the trees that are no deeper. -/
theorem reads_value {n : Nat} {t : Tree} (h : t.depth ≤ n) : ReadsTree (value n) t := by
  induction n generalizing t with
  | zero =>
    cases t with
    | null => exact reads_null none
    | bool b => exact reads_bool none b
    | number i => exact reads_number none i
    | string s => exact reads_string none s
    | array ts => simp [Tree.depth] at h
    | object ms => simp [Tree.depth] at h
  | succ n ih =>
    cases t with
    | null => exact reads_null _
    | bool b => exact reads_bool _ b
    | number i => exact reads_number _ i
    | string s => exact reads_string _ s
    | array ts =>
      rw [Tree.depth, Nat.succ_le_succ_iff, Tree.itemsDepth_le_iff] at h
      exact reads_array fun t ht => ih (h t ht)
    | object ms =>
      rw [Tree.depth, Nat.succ_le_succ_iff, Tree.membersDepth_le_iff] at h
      exact reads_object fun m hm => ih (h m hm)

/-- A reader that may still open `n` brackets refuses the trees that are deeper. -/
theorem refuses_value {n : Nat} {t : Tree} (h : n < t.depth) : RefusesTree (value n) t := by
  induction n generalizing t with
  | zero =>
    intro rest _
    cases t with
    | array ts => cases ts <;> exact ⟨_, rfl⟩
    | object ms => cases ms <;> exact ⟨_, rfl⟩
    | _ => simp [Tree.depth] at h
  | succ n ih =>
    cases t with
    | array ts =>
      rw [Tree.depth, Nat.succ_lt_succ_iff, ← Nat.not_le, Tree.itemsDepth_le_iff] at h
      push Not at h
      obtain ⟨t, ht, hdeep⟩ := h
      exact refuses_array (fun t _ => (Nat.lt_or_ge n t.depth).symm.imp reads_value ih)
        ⟨t, ht, ih hdeep⟩
    | object ms =>
      rw [Tree.depth, Nat.succ_lt_succ_iff, ← Nat.not_le, Tree.membersDepth_le_iff] at h
      push Not at h
      obtain ⟨m, hm, hdeep⟩ := h
      exact refuses_object (fun m _ => (Nat.lt_or_ge n m.2.depth).symm.imp reads_value ih)
        ⟨m, hm, ih hdeep⟩
    | _ => simp [Tree.depth] at h

/-- The text of a tree is read if it is not too deep, and then as the tree itself if that has no
floating point numbers. -/
theorem tree?_chars {t : Tree} (h : t.depth ≤ nestingLimit) :
    ∃ t', tree? t.chars = .ok t' ∧ (t.Exact → t' = t) := by
  obtain ⟨t', hvalue, hexact⟩ := reads_value h [] nofun
  rw [List.append_nil] at hvalue
  refine ⟨t', ?_, hexact⟩
  rw [tree?, hvalue, except_ok_bind]
  rfl

theorem tree?_chars_deep {t : Tree} (h : nestingLimit < t.depth) :
    ∃ fault, tree? t.chars = .error fault := by
  obtain ⟨fault, hvalue⟩ := refuses_value h [] nofun
  rw [List.append_nil] at hvalue
  exact ⟨fault, by rw [tree?, hvalue]; rfl⟩

/-- The text of a value is read back exactly if the value is not too deep. -/
theorem exists_parse_text_iff (j : Json) :
    (∃ j', parse j.text = .ok j') ↔ j.tree.depth ≤ nestingLimit := by
  rw [parse, text, Tree.text, String.toList_ofList]
  constructor
  · rintro ⟨j', hj⟩
    by_contra hdeep
    obtain ⟨fault, hfault⟩ := tree?_chars_deep (Nat.lt_of_not_le hdeep)
    rw [hfault] at hj
    cases hj
  · intro h
    obtain ⟨t', ht, -⟩ := tree?_chars h
    exact ⟨ofTree t', by rw [ht]⟩

/-- A value without floating point numbers that is not too deep is read back as itself. -/
theorem parse_text {j : Json} (hexact : j.tree.Exact) (hdepth : j.tree.depth ≤ nestingLimit) :
    parse j.text = .ok j := by
  obtain ⟨t, ht, hself⟩ := tree?_chars hdepth
  have hsorted : ofTree j.tree = j := Subtype.ext (j.tree.sorted_of_ordered j.2)
  rw [parse, text, Tree.text, String.toList_ofList, ht, hself hexact]
  exact congrArg Except.ok hsorted

end TypedTables.Json
