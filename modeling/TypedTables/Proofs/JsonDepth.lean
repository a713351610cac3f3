import TypedTables.Proofs.JsonTexts

/-!
# The depth of JSON as it is read

A reader that may open `n` brackets answers trees that are no deeper, and putting the members of
objects in order makes no tree deeper. So every value that is read can be written and read again.
-/
namespace TypedTables.Json

section Lists

variable {α : Type} {one : Reader α} {tail : Nat → Bool → Reader (List α)}

structure ListedBy (one : Reader α) (tail : Nat → Bool → Reader (List α)) : Prop where
  zero : ∀ first cs read, tail 0 first cs ≠ .ok read
  succ : ∀ fuel first cs as rest, tail (fuel + 1) first cs = .ok (as, rest) →
    as = [] ∨ ∃ next, readThen one (tail fuel false) next = .ok (as, rest)

/-- Whatever holds of all that `one` reads holds of every value of a list. -/
theorem ListedBy.forall_mem (h : ListedBy one tail) {P : α → Prop}
    (hone : ∀ cs a rest, one cs = .ok (a, rest) → P a) {fuel : Nat} {first : Bool}
    {cs : List Char} {as : List α} {rest : List Char}
    (hread : tail fuel first cs = .ok (as, rest)) : ∀ a ∈ as, P a := by
  induction fuel generalizing first cs as rest with
  | zero => exact absurd hread (h.zero _ _ _)
  | succ fuel ih =>
    -- behind the first value the reader is the one with less fuel
    rcases h.succ _ _ _ _ _ hread with rfl | ⟨next, hnext⟩
    · exact nofun
    · obtain ⟨⟨a, rest'⟩, ha, hmore⟩ := except_bind_eq_ok.mp hnext
      obtain ⟨⟨as', rest''⟩, has, heq⟩ := except_bind_eq_ok.mp hmore
      cases heq
      intro b hb
      rcases List.mem_cons.mp hb with rfl | hb
      · exact hone _ _ _ ha
      · exact ih has b hb

end Lists

variable {item : Reader Tree}

theorem itemsTail_listedBy (item : Reader Tree) : ListedBy item (itemsTail item) where
  zero _ _ _ := nofun
  succ fuel first cs ts rest h := by
    rw [itemsTail] at h
    dsimp only at h
    split at h
    · cases h
    · cases h
      exact .inl rfl
    next c cs _ _ =>
      split at h
      · exact .inr ⟨_, h⟩
      split at h
      · split at h
        · cases h
        · cases h
        · exact .inr ⟨_, h⟩
      · cases h

theorem membersTail_listedBy (item : Reader Tree) : ListedBy (member item) (membersTail item) where
  zero _ _ _ := nofun
  succ fuel first cs ms rest h := by
    rw [membersTail] at h
    dsimp only at h
    split at h
    · cases h
    · cases h
      exact .inl rfl
    next c cs _ _ =>
      split at h
      · split at h
        · exact .inr ⟨_, by rw [readThen_member]; exact h⟩
        · cases h
      split at h
      · split at h
        · cases h
        · cases h
        · exact .inr ⟨_, by rw [readThen_member]; exact h⟩
        · cases h
      · cases h

/-- The value of a member is read as an item is. -/
theorem exists_item_of_member {cs rest : List Char} {m : String × Tree}
    (h : member item cs = .ok (m, rest)) :
    ∃ cs rest', item cs = .ok (m.2, rest') := by
  obtain ⟨⟨name, cs⟩, -, h⟩ := except_bind_eq_ok.mp h
  obtain ⟨cs, -, h⟩ := except_bind_eq_ok.mp h
  obtain ⟨⟨t, rest'⟩, ht, h⟩ := except_bind_eq_ok.mp h
  cases h
  exact ⟨cs, _, ht⟩

theorem word_eq {α : Type} {a b : α} {ws cs rest : List Char} (h : word a ws cs = .ok (b, rest)) :
    a = b := by
  induction ws generalizing cs with
  | nil =>
    cases h
    rfl
  | cons w ws ih =>
    cases cs with
    | nil => cases h
    | cons c cs =>
      rw [word] at h
      split at h
      · exact ih h
      · cases h

/-- What is read has no parts, or its parts were read inside its brackets. -/
theorem valueWith_cases {nested : Option (Reader Tree)} {cs rest : List Char} {t : Tree}
    (h : valueWith nested cs = .ok (t, rest)) :
    t.depth = 0 ∨ ∃ item ∈ nested, ∃ fuel inner,
      (∃ ts, itemsTail item fuel true inner = .ok (ts, rest) ∧ t = .array ts) ∨
        ∃ ms, membersTail item fuel true inner = .ok (ms, rest) ∧ t = .object ms := by
  rw [valueWith] at h
  split at h
  · cases h
  · exact .inl (word_eq h ▸ rfl)
  · exact .inl (word_eq h ▸ rfl)
  · exact .inl (word_eq h ▸ rfl)
  · obtain ⟨⟨n, rest'⟩, -, heq⟩ := except_map_eq_ok.mp h
    cases heq
    exact .inl rfl
  · obtain ⟨⟨s, rest'⟩, -, heq⟩ := except_map_eq_ok.mp h
    cases heq
    exact .inl rfl
  · split at h
    · cases h
    next item =>
      obtain ⟨⟨ts, rest'⟩, hread, heq⟩ := except_map_eq_ok.mp h
      cases heq
      exact .inr ⟨item, rfl, _, _, .inl ⟨ts, hread, rfl⟩⟩
  · split at h
    · cases h
    next item =>
      obtain ⟨⟨ms, rest'⟩, hread, heq⟩ := except_map_eq_ok.mp h
      cases heq
      exact .inr ⟨item, rfl, _, _, .inr ⟨ms, hread, rfl⟩⟩
  · split at h
    · obtain ⟨⟨n, rest'⟩, -, heq⟩ := except_map_eq_ok.mp h
      cases heq
      exact .inl rfl
    · cases h

/-- A reader that may still open `n` brackets reads no deeper tree. -/
theorem depth_of_value {n : Nat} {cs rest : List Char} {t : Tree} (h : value n cs = .ok (t, rest)) :
    t.depth ≤ n := by
  induction n generalizing cs rest t with
  | zero =>
    rcases valueWith_cases h with hzero | ⟨item, hitem, -⟩
    · exact hzero.le
    · cases hitem
  | succ n ih =>
    rcases valueWith_cases h with hzero | ⟨item, hitem, fuel, inner,
      ⟨ts, hread, rfl⟩ | ⟨ms, hread, rfl⟩⟩
    · omega
    · cases hitem
      rw [Tree.depth, Nat.succ_le_succ_iff, Tree.itemsDepth_le_iff]
      exact (itemsTail_listedBy _).forall_mem (fun _ _ _ ht => ih ht) hread
    · cases hitem
      rw [Tree.depth, Nat.succ_le_succ_iff, Tree.membersDepth_le_iff]
      refine (membersTail_listedBy _).forall_mem (fun _ m _ hm => ?_) hread
      obtain ⟨_, _, ht⟩ := exists_item_of_member hm
      exact ih ht

namespace Tree

mutual

/-- A tree is no deeper for having its objects in order. -/
theorem depth_sorted_le : ∀ t : Tree, t.sorted.depth ≤ t.depth
  | .null => Nat.le_refl _
  | .bool _ => Nat.le_refl _
  | .number _ => Nat.le_refl _
  | .string _ => Nat.le_refl _
  | .array items => by
    rw [sorted, depth, depth]
    exact Nat.succ_le_succ (itemsDepth_sorted_le items)
  | .object members => by
    have hmembers := membersDepth_le_iff.mp (membersDepth_sorted_le members)
    rw [sorted, depth, depth, Nat.succ_le_succ_iff, membersDepth_le_iff]
    exact fun m hm => hmembers m (mem_of_mem_sortEntries hm)

theorem itemsDepth_sorted_le : ∀ ts : List Tree, itemsDepth (sortedItems ts) ≤ itemsDepth ts
  | [] => Nat.le_refl _
  | t :: ts => by
    rw [sortedItems, itemsDepth, itemsDepth]
    exact max_le_max (depth_sorted_le t) (itemsDepth_sorted_le ts)

theorem membersDepth_sorted_le : ∀ ms :
    List (String × Tree), membersDepth (sortedMembers ms) ≤ membersDepth ms
  | [] => Nat.le_refl _
  | (name, t) :: ms => by
    rw [sortedMembers, membersDepth, membersDepth]
    exact max_le_max (depth_sorted_le t) (membersDepth_sorted_le ms)

end

end Tree

theorem depth_of_parse {s : String} {j : Json} (h : parse s = .ok j) :
    j.tree.depth ≤ nestingLimit := by
  rw [parse] at h
  cases htree : tree? s.toList with
  | error fault =>
    rw [htree] at h
    cases h
  | ok t =>
    rw [htree] at h
    cases h
    obtain ⟨⟨t', rest⟩, hvalue, hfinished⟩ := except_bind_eq_ok.mp htree
    obtain ⟨-, -, heq⟩ := except_bind_eq_ok.mp hfinished
    cases heq
    exact t.depth_sorted_le.trans (depth_of_value hvalue)

end TypedTables.Json
