import TypedTables.Proofs.Paging
import TypedTables.Proofs.RecordedRequests

/-!
# The queries of a walk

A walk through a table asks for one page after the other, and each starts behind the last row of the
one before. So where the pages start depends on the rows alone; on the consumer depends how many of
them are asked for: those that hold the rows that were handed out, and at the end of the table an
empty one. Since the rowids rise, a walk ends before it runs out of pages.
-/
namespace TypedTables

/-! ### Handing out rows -/

section Served

variable {α ρ : Type}

/-- What comes of handing out rows. Those at the front are decoded, up to one that the consumer
wants to be the last or to one that cannot be decoded. -/
structure Served (decode : α → Except Error ρ) (wants : Demand ρ) (as given : List α)
    (e : Emitted ρ) : Prop where
  front : given <+: as
  decoded : given.map decode = e.rows.map .ok
  wanted : ∀ n, 0 < n → n < e.rows.length → wants (e.rows.take n) = true
  stopped : e.ending = .stopped ↔ e.rows ≠ [] ∧ wants e.rows = false
  finished : e.ending = .finished → given = as
  failed : ∀ fault, e.ending = .failed fault → ∃ a, given ++ [a] <+: as ∧ decode a = .error fault
  uncut : e.ending ≠ .cut

variable {decode : α → Except Error ρ} {wants : Demand ρ} {as given : List α} {e : Emitted ρ}

/-- Rows that were handed out before stay in front, and count for the consumer. -/
theorem handOut_eq_append (decode : α → Except Error ρ) (wants : Demand ρ)
    (before rows : List ρ) (as : List α) :
    handOut decode wants (before ++ rows) as =
      ⟨before ++ (handOut decode (fun more => wants (before ++ more)) rows as).rows,
        (handOut decode (fun more => wants (before ++ more)) rows as).ending⟩ := by
  induction as generalizing rows with
  | nil => rfl
  | cons a as ih =>
    rw [handOut, handOut]
    cases decode a with
    | error fault => rfl
    | ok r =>
      dsimp only
      rw [List.append_assoc]
      split
      · exact ih (rows ++ [r])
      · rfl

theorem Served.length_eq (h : Served decode wants as given e) : given.length = e.rows.length := by
  simpa using congrArg List.length h.decoded

/-- One more row in front, after which the consumer wants more. -/
theorem Served.cons {a : α} {r : ρ} (h : Served decode (fun more => wants (r :: more)) as given e)
    (hdecode : decode a = .ok r) (hwants : wants [r] = true) :
    Served decode wants (a :: as) (a :: given) ⟨r :: e.rows, e.ending⟩ where
  front := List.cons_prefix_cons.mpr ⟨rfl, h.front⟩
  decoded := by rw [List.map_cons, hdecode, h.decoded, List.map_cons]
  wanted n hn hlength := by
    obtain _ | _ | n := n
    · exact absurd hn (Nat.lt_irrefl 0)
    · exact hwants
    · exact h.wanted (n + 1) n.succ_pos (by simpa using hlength)
  stopped := by
    rw [h.stopped]
    constructor
    · exact fun hstop => ⟨List.cons_ne_nil _ _, hstop.2⟩
    · rintro ⟨-, hstop⟩
      refine ⟨fun hnone => ?_, hstop⟩
      have hsecond : wants [r] = false := by rw [← hnone]; exact hstop
      rw [hwants] at hsecond
      cases hsecond
  finished hend := by rw [h.finished hend]
  failed fault hend := by
    obtain ⟨b, hb, hfault⟩ := h.failed fault hend
    exact ⟨b, List.cons_prefix_cons.mpr ⟨rfl, hb⟩, hfault⟩
  uncut := h.uncut

theorem served_nil : Served decode wants [] [] ⟨[], .finished⟩ where
  front := List.prefix_rfl
  decoded := rfl
  wanted n _ hlength := absurd hlength (Nat.not_lt_zero n)
  stopped := by simp
  finished _ := rfl
  failed fault hend := by cases hend
  uncut hend := by cases hend

/-- A first row that cannot be decoded ends the handing out. -/
theorem served_failed {a : α} {fault : Error} (hdecode : decode a = .error fault) :
    Served decode wants (a :: as) [] ⟨[], .failed fault⟩ where
  front := List.nil_prefix
  decoded := rfl
  wanted n _ hlength := absurd hlength (Nat.not_lt_zero n)
  stopped := by simp
  finished hend := by cases hend
  failed other hend := by
    cases hend
    exact ⟨a, List.prefix_append [a] as, hdecode⟩
  uncut hend := by cases hend

/-- A first row that the consumer wants to be the last ends the handing out. -/
theorem served_stopped {a : α} {r : ρ} (hdecode : decode a = .ok r) (hwants : wants [r] = false) :
    Served decode wants (a :: as) [a] ⟨[r], .stopped⟩ where
  front := List.prefix_append [a] as
  decoded := by rw [List.map_singleton, hdecode, List.map_singleton]
  wanted n hn hlength := by
    rw [List.length_singleton] at hlength
    omega
  stopped := by simpa using hwants
  finished hend := by cases hend
  failed fault hend := by cases hend
  uncut hend := by cases hend

theorem exists_served (decode : α → Except Error ρ) (wants : Demand ρ) (as : List α) :
    ∃ given, Served decode wants as given (handOut decode wants [] as) := by
  induction as generalizing wants with
  | nil => exact ⟨[], served_nil⟩
  | cons a as ih =>
    rw [handOut]
    cases hdecode : decode a with
    | error fault => exact ⟨[], served_failed hdecode⟩
    | ok r =>
      dsimp only
      rw [List.nil_append]
      split
      next hwants =>
        obtain ⟨given, hgiven⟩ := ih fun more => wants (r :: more)
        have happend := handOut_eq_append decode wants [r] [] as
        rw [List.append_nil] at happend
        rw [happend]
        exact ⟨a :: given, hgiven.cons hdecode hwants⟩
      next hwants => exact ⟨[a], served_stopped hdecode (by simpa using hwants)⟩

theorem handOut_map {β : Type} (f : β → α) (decode : α → Except Error ρ)
    (wants : Demand ρ) (rows : List ρ) (bs : List β) :
    handOut decode wants rows (bs.map f) = handOut (fun b => decode (f b)) wants rows bs := by
  induction bs generalizing rows with
  | nil => rfl
  | cons b bs ih =>
    rw [List.map_cons, handOut, handOut]
    cases decode (f b) with
    | error fault => rfl
    | ok r =>
      dsimp only
      rw [ih]

/-- How many rows can be handed out, by how that ends. -/
theorem length_of_handOut (decode : α → Except Error ρ) (wants : Demand ρ)
    (rows : List ρ) (as : List α) :
    ∃ n, (handOut decode wants rows as).rows.length = rows.length + n ∧ n ≤ as.length ∧
      ((handOut decode wants rows as).ending = .finished → n = as.length) ∧
      ((handOut decode wants rows as).ending = .stopped → 0 < n) ∧
      (∀ fault, (handOut decode wants rows as).ending = .failed fault → n < as.length) ∧
      (handOut decode wants rows as).ending ≠ .cut := by
  have happend := handOut_eq_append decode wants rows [] as
  rw [List.append_nil] at happend
  rw [happend]
  obtain ⟨given, h⟩ := exists_served decode (fun more => wants (rows ++ more)) as
  refine ⟨given.length, by rw [List.length_append, h.length_eq], h.front.length_le,
    ?_, ?_, ?_, h.uncut⟩
  · intro hend
    rw [h.finished hend]
  · intro hend
    rw [h.length_eq]
    exact List.length_pos_iff.mpr (h.stopped.mp hend).1
  · intro fault hend
    obtain ⟨a, ha, -⟩ := h.failed fault hend
    have hle := ha.length_le
    rw [List.length_append, List.length_singleton] at hle
    omega

end Served

/-- How many pages are asked for, to hand out so many rows and end like this. -/
def Ending.pagesAsked (limit given : Nat) : Ending → Nat
  | .finished => (given + limit - 1) / limit + 1
  | .stopped => (given + limit - 1) / limit
  | .failed _ => given / limit + 1
  | .cut => 0

theorem Ending.pagesAsked_add {ending : Ending} (h : ending ≠ .cut) {limit : Nat}
    (hlimit : 0 < limit) (given : Nat) :
    ending.pagesAsked limit (limit + given) = ending.pagesAsked limit given + 1 := by
  have hceil : (limit + given + limit - 1) / limit = (given + limit - 1) / limit + 1 := by
    rw [show limit + given + limit - 1 =
      given + limit - 1 + limit by omega, Nat.add_div_right _ hlimit]
  cases ending with
  | finished => rw [pagesAsked, pagesAsked, hceil]
  | stopped => rw [pagesAsked, pagesAsked, hceil]
  | failed fault => rw [pagesAsked, pagesAsked, Nat.add_div_left _ hlimit]
  | cut => exact absurd rfl h

/-- The first page is asked for besides those of the other rows, if there are other rows. -/
theorem Ending.pagesAsked_min_add {ending : Ending} (h : ending ≠ .cut) {limit total given : Nat}
    (hlimit : 0 < limit) (htotal : 0 < total)
    (hlast : total ≤ limit → ending = .finished ∧ given = 0) :
    ending.pagesAsked limit (min limit total + given) = ending.pagesAsked limit given + 1 := by
  by_cases hle : total ≤ limit
  · obtain ⟨rfl, rfl⟩ := hlast hle
    have hone : (total + limit - 1) / limit = 1 := Nat.div_eq_of_lt_le (by omega) (by omega)
    have hnone : (0 + limit - 1) / limit = 0 := Nat.div_eq_of_lt (by omega)
    rw [Nat.min_eq_right hle, Nat.add_zero, pagesAsked, pagesAsked, hone, hnone]
  · rw [Nat.min_eq_left (by omega), pagesAsked_add h hlimit]

/-- If the handing out ends within a page, no other page is asked for. -/
theorem Ending.pagesAsked_of_ne_finished {ending : Ending} (hfinished : ending ≠ .finished)
    (hcut : ending ≠ .cut) {limit given : Nat} (hle : given ≤ limit)
    (hstopped : ending = .stopped → 0 < given)
    (hfailed : ∀ fault, ending = .failed fault → given < limit) :
    ending.pagesAsked limit given = 1 := by
  cases ending with
  | finished => exact absurd rfl hfinished
  | stopped =>
    have hpos := hstopped rfl
    exact Nat.div_eq_of_lt_le (by omega) (by omega)
  | failed fault => rw [pagesAsked, Nat.div_eq_of_lt (hfailed fault rfl)]
  | cut => exact absurd rfl hcut

/-- There are no more pages with rows than there are rows. -/
theorem Ending.pagesAsked_le (ending : Ending) {limit : Nat} (hlimit : 0 < limit) (given : Nat) :
    ending.pagesAsked limit given ≤ given + 1 := by
  have hceil : (given + limit - 1) / limit ≤ given := by
    refine Nat.lt_succ_iff.mp ((Nat.div_lt_iff_lt_mul hlimit).mpr ?_)
    have := Nat.le_mul_of_pos_right given hlimit
    rw [Nat.succ_mul]
    omega
  cases ending with
  | finished => exact Nat.succ_le_succ hceil
  | stopped => exact Nat.le_succ_of_le hceil
  | failed fault => exact Nat.succ_le_succ (Nat.div_le_self given limit)
  | cut => exact Nat.zero_le _

namespace Paging

open Engine (StoredRow)

/-- Where so many pages of a content start: the first one at a given place, and each other one
behind the last row of the one before. Behind an empty page there is no other one. -/
def pageStarts (content : List StoredRow) (limit : Nat) : Nat → Int64 → List Int64
  | 0, _ => []
  | n + 1, notBefore =>
    notBefore :: match ((behind content notBefore).take limit).getLast? with
      | some last => pageStarts content limit n last.rowid
      | none => []

/-- Each page starts behind the one before. -/
theorem pageStarts_rising {content : List StoredRow}
    (hc : content.Pairwise fun r r' => r.rowid < r'.rowid) (limit n : Nat) (notBefore : Int64) :
    (pageStarts content limit n notBefore).Pairwise (· < ·) ∧
      ∀ i ∈ pageStarts content limit n notBefore, notBefore ≤ i := by
  induction n generalizing notBefore with
  | zero => exact ⟨List.Pairwise.nil, by simp [pageStarts]⟩
  | succ n ih =>
    rw [pageStarts]
    cases hlast : ((behind content notBefore).take limit).getLast? with
    | none => exact ⟨List.pairwise_singleton _ _, by simp⟩
    | some last =>
      obtain ⟨hbefore, -⟩ := behind_page hc hlast
      obtain ⟨hpairwise, hfrom⟩ := ih last.rowid
      have hall : ∀ i ∈ pageStarts content limit n last.rowid, notBefore < i := by
        intro i hi
        exact Int64.lt_of_lt_of_le hbefore (hfrom i hi)
      refine ⟨List.pairwise_cons.mpr ⟨hall, hpairwise⟩, ?_⟩
      intro i hi
      rcases List.mem_cons.mp hi with rfl | hi
      · exact Int64.le_refl i
      · exact Int64.le_of_lt (hall i hi)

/-! ### Which pages are asked for -/

/-- The pages that are asked for from a place on, while rows are handed out besides so many others:
the first ones, as many as are needed. -/
structure Asks {ρ : Type} (content : List StoredRow) (limit : Nat)
    (notBefore : Int64) (before : Nat) (emitted : Emitted ρ) (starts : List Int64) : Prop where
  places : starts = pageStarts content limit starts.length notBefore
  number : starts.length = emitted.ending.pagesAsked limit (emitted.rows.length - before)

section Asks

variable {ρ : Type} {content : List StoredRow} {limit : Nat} {notBefore : Int64}
  {decode : List Stored → Except Error ρ} {wants : Demand ρ} {rows : List ρ} {last : StoredRow}

/-- An empty page is the last one. -/
theorem asks_empty (hlimit : 0 < limit) (hnone : behind content notBefore = []) :
    Asks content limit notBefore rows.length ⟨rows, .finished⟩ [notBefore] where
  places := by rw [List.length_singleton, pageStarts, hnone, List.take_nil]; rfl
  number := by
    rw [Nat.sub_self, Ending.pagesAsked, Nat.div_eq_of_lt (by omega)]
    rfl

/-- No page is asked for behind one within which the handing out ends. -/
theorem asks_ended (hend : (handOut decode wants rows
      (((behind content notBefore).take limit).map shown)).ending ≠ .finished) :
    Asks content limit notBefore rows.length
      (handOut decode wants rows (((behind content notBefore).take limit).map shown))
      [notBefore] where
  places := by
    rw [List.length_singleton, pageStarts]
    cases ((behind content notBefore).take limit).getLast? <;> rfl
  number := by
    obtain ⟨n, hn, hle, -, hstopped, hfailed, hcut⟩ := length_of_handOut decode wants rows
      (((behind content notBefore).take limit).map shown)
    rw [List.length_map, List.length_take] at hle hfailed
    rw [hn, Nat.add_sub_cancel_left]
    symm
    refine Ending.pagesAsked_of_ne_finished hend hcut (by omega) hstopped fun fault hfault => ?_
    have := hfailed fault hfault
    omega

/-- Behind a page that was handed out the next one is asked for. -/
theorem Asks.next {starts : List Int64} (hlimit : 0 < limit)
    (hlast : ((behind content notBefore).take limit).getLast? = some last)
    (hrest : behind content last.rowid = (behind content notBefore).drop limit)
    {page : Emitted ρ}
    (hpage : handOut decode wants rows (((behind content notBefore).take limit).map shown) = page)
    (hend : page.ending = .finished) (h : Asks content limit last.rowid page.rows.length
      (handOut decode wants page.rows ((behind content last.rowid).map shown)) starts) :
    Asks content limit notBefore rows.length
      (handOut decode wants page.rows ((behind content last.rowid).map shown))
        (notBefore :: starts) where
  places := by
    rw [List.length_cons, pageStarts, hlast]
    dsimp only
    rw [← h.places]
  number := by
    obtain ⟨n, hn, -, hfinished, -⟩ := length_of_handOut decode wants rows
      (((behind content notBefore).take limit).map shown)
    rw [hpage, List.length_map, List.length_take] at hfinished
    rw [hpage, hfinished hend] at hn
    obtain ⟨given, hgiven, -, -, -, -, hcut⟩ := length_of_handOut decode wants page.rows
      ((behind content last.rowid).map shown)
    have hsome : 0 < (behind content notBefore).length :=
      List.length_pos_of_mem (List.mem_of_mem_take (List.mem_of_getLast? hlast))
    have hlength := h.number
    rw [hgiven, Nat.add_sub_cancel_left] at hlength
    rw [List.length_cons, hlength, hgiven, hn, Nat.add_assoc, Nat.add_sub_cancel_left]
    refine (Ending.pagesAsked_min_add hcut hlimit hsome fun htotal => ?_).symm
    have hnone : behind content last.rowid = [] := by rw [hrest, List.drop_eq_nil_of_le htotal]
    rw [hnone] at hgiven ⊢
    exact ⟨rfl, by simpa [handOut] using hgiven.symm⟩

end Asks

theorem toNat_pos {limit : Int64} (h : 0 < limit) : 0 < limit.toInt.toNat := by
  have hpositive := Int64.lt_iff_toInt_lt.mp h
  rw [Int64.toInt_zero] at hpositive
  omega

section Recorded

variable {σ ρ : Type} {E : Engine.Interface σ} {t : Table ρ} {text : String} {names : List String}
  {content : List StoredRow} {holds : σ → Prop}

/-- A page is asked for and answered. -/
theorem recorded_page (hE : Answers E text names content holds) {s : σ} (hs : holds s)
    (log : List Engine.Request) {limit : Int64} (hlimit : 0 < limit) (notBefore : Int64) :
      ∃ changes s', holds s' ∧
      E.recorded.run text (pageParams limit notBefore) (s, log) =
        (.ok ⟨((behind content notBefore).take limit.toInt.toNat).map shown, changes⟩,
          (s', log ++ [.run text (pageParams limit notBefore)])) := by
  obtain ⟨changes, s', hrun, hs'⟩ := hE.page s limit notBefore hs hlimit
  refine ⟨changes, s', hs', ?_⟩
  dsimp only [Engine.Interface.recorded]
  rw [hrun]

/-- A walk hands out the rows behind its start and asks for the pages that are needed for that, if
there may be more pages than there are rowids. -/
theorem recorded_pages_eq (t : Table ρ) (hE : Answers E text names content holds)
    {s : σ} (hs : holds s) (log : List Engine.Request) {limit : Int64}
    (hlimit : 0 < limit) {params : Params}
    (hparams : ∀ i, params.push Table.pageStart (.integer i) = pageParams limit i)
    (wants : Demand ρ) {fuel : Nat} {notBefore : Int64}
    (hfuel : Int64.maxValue.toInt - notBefore.toInt < fuel) (rows : List ρ) :
    ∃ s' starts, holds s' ∧
      t.pages E.recorded text names params wants fuel notBefore rows (s, log) =
        (handOut (t.decodePaged names) wants rows ((behind content notBefore).map shown),
          (s', log ++ starts.map fun i => .run text (pageParams limit i))) ∧
      Asks content limit.toInt.toNat notBefore rows.length
        (handOut (t.decodePaged names) wants rows ((behind content notBefore).map shown))
        starts := by
  have hpositive := toNat_pos hlimit
  induction fuel generalizing notBefore s log params rows with
  | zero =>
    have := Int64.toInt_le notBefore
    omega
  | succ fuel ih =>
    obtain ⟨changes, s', hs', hrun⟩ := recorded_page hE hs log hlimit notBefore
    rw [pages_of_run t (hparams notBefore) hrun wants fuel rows]
    dsimp only
    cases hlast : ((behind content notBefore).take limit.toInt.toNat).getLast? with
    | none =>
      have hnone : behind content notBefore = [] := by
        have hpage := List.getLast?_eq_none_iff.mp hlast
        rw [List.take_eq_nil_iff] at hpage
        exact hpage.resolve_left (by omega)
      refine ⟨s', [notBefore], hs', ?_, ?_⟩
      · rw [hnone, List.take_nil]
        rfl
      · rw [hnone]
        exact asks_empty hpositive hnone
    | some last =>
      obtain ⟨hbefore, hrest⟩ := behind_page hE.rising hlast
      have hall := handOut_append (t.decodePaged names) wants rows
        (((behind content notBefore).take limit.toInt.toNat).map shown)
          ((behind content last.rowid).map shown)
      rw [← List.map_append, hrest, List.take_append_drop, ← hrest] at hall
      rw [hall]
      generalize hpage : handOut (t.decodePaged names) wants rows
        (((behind content notBefore).take limit.toInt.toNat).map shown) = page
      obtain ⟨pageRows, ending⟩ := page
      dsimp only
      by_cases hend : ending = .finished
      · subst hend
        have hbound : Int64.maxValue.toInt - last.rowid.toInt < fuel := by
          have := Int64.lt_iff_toInt_lt.mp hbefore
          omega
        have hagain : ∀ i, (pageParams limit notBefore).push Table.pageStart (.integer i) =
            pageParams limit i :=
          fun i => Params.push_push _ _ _ _
        obtain ⟨s'', starts, hs'', hpages, hasks⟩ :=
          ih hs' (log ++ [.run text (pageParams limit notBefore)]) hagain hbound pageRows
        rw [if_pos rfl]
        refine ⟨s'', notBefore :: starts, hs'', hpages.trans ?_,
          hasks.next hpositive hlast hrest hpage rfl⟩
        rw [List.append_assoc]
        rfl
      · rw [if_neg hend]
        refine ⟨s', [notBefore], hs', ?_, ?_⟩
        · cases ending <;> first | rfl | exact absurd rfl hend
        · rw [← hpage]
          exact asks_ended (by rw [hpage]; exact hend)

/-- A walk prepares its statement and asks for the pages that are needed. -/
theorem recorded_walk_eq (hE : Answers E (pageText t.name) names content holds)
    {size : UInt64} (h : size ≠ 0) (wants : Demand ρ) {s : σ} (hs : holds s)
    (log : List Engine.Request) :
    ∃ s' starts, holds s' ∧ walk t E.recorded size wants (s, log) =
        (handOut (t.decodePaged names) wants [] ((behind content 0).map shown),
          (s', log ++ .prepare (pageText t.name) ::
            starts.map fun i => .run (pageText t.name) (pageParams (pageLimit size) i))) ∧
      Asks content (pageLimit size).toInt.toNat 0 0
        (handOut (t.decodePaged names) wants [] ((behind content 0).map shown)) starts := by
  obtain ⟨s₁, hprepare, hs₁⟩ := hE.prepared s hs
  have hbound : Int64.maxValue.toInt - (0 : Int64).toInt < (Table.pageBound : Nat) := by decide
  obtain ⟨s₂, starts, hs₂, hpages, hasks⟩ :=
    recorded_pages_eq t hE hs₁ (log ++ [.prepare (pageText t.name)])
    (pageLimit_pos h) (fun _ => rfl) wants hbound []
  refine ⟨s₂, starts, hs₂, ?_, hasks⟩
  rw [walk, Engine.Interface.preparing]
  dsimp only [Engine.Interface.recorded]
  rw [hprepare]
  refine hpages.trans ?_
  rw [List.append_assoc]
  rfl

/-- A walk through a content hands out the rows with positive rowids. -/
theorem walk_eq (hE : Answers E (pageText t.name) names content holds)
    {size : UInt64} (h : size ≠ 0) (wants : Demand ρ) {s : σ} (hs : holds s) :
    ∃ s', holds s' ∧ walk t E size wants s =
      (handOut (t.decodePaged names) wants [] ((behind content 0).map shown), s') := by
  obtain ⟨s', starts, hs', hwalk, -⟩ := recorded_walk_eq hE h wants hs []
  have htracks : walk t E size wants s = _ := RowJob.tracks_paginated t (pageText t.name)
    (Params.empty.push limitPlaceholder (.integer (pageLimit size))) wants s []
  refine ⟨s', hs', htracks.trans ?_⟩
  exact congrArg (fun r => (r.1, r.2.1)) hwalk

end Recorded

end Paging

end TypedTables
