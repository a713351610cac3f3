import TypedTables.Proofs.CallerWaits
import TypedTables.Proofs.JobCourses

/-!
# What the caller of a job with rows receives

The rows of a job that is begun reach its caller in their order, none twice and none left out. What
the caller has received and what is still on its way are together all that was sent, so that a
caller that reads to the end knows what became of the job: without an error it has all rows, and a
stream that was cut short when the pool was closed ends in `Error.poolClosed`.
-/
namespace TypedTables

variable {σ ω : Type}

def Source.first (source : Source ω) : Nat → List ω
  | 0 => []
  | n + 1 => source.first n ++ (source.item n).toList

theorem Source.first_succ {source : Source ω} {n : Nat} {row : ω} (h : source.item n = some row) :
    source.first (n + 1) = source.first n ++ [row] := by
  rw [first, h]
  rfl

theorem Source.length_first {source : Source ω} {n : Nat} (h : ∀ i < n, (source.item i).isSome) :
    (source.first n).length = n := by
  induction n with
  | zero => rfl
  | succ n ih =>
    obtain ⟨row, hrow⟩ := Option.isSome_iff_exists.mp (h n (Nat.lt_succ_self n))
    rw [first_succ hrow, List.length_append, ih fun i hi => h i (Nat.lt_succ_of_lt hi)]
    rfl

theorem Source.getElem?_first {source : Source ω} {n : Nat} (h : ∀ i < n, (source.item i).isSome) :
    ∀ i < n, (source.first n)[i]? = source.item i := by
  induction n with
  | zero => exact nofun
  | succ n ih =>
    intro i hi
    have hlt : ∀ j < n, (source.item j).isSome := fun j hj => h j (Nat.lt_succ_of_lt hj)
    have hlength := Source.length_first hlt
    obtain ⟨row, hrow⟩ := Option.isSome_iff_exists.mp (h n (Nat.lt_succ_self n))
    rw [first_succ hrow]
    rcases Nat.lt_succ_iff_lt_or_eq.mp hi with hold | rfl
    · rw [List.getElem?_append_left (hlength.symm ▸ hold)]
      exact ih hlt i hold
    · rw [List.getElem?_append_right (Nat.le_of_eq hlength), hlength, Nat.sub_self, hrow]
      rfl

def transcript (rows : List ω) (last : Option Error) : List (Except Error ω) :=
  rows.map .ok ++ last.toList.map .error

@[simp] theorem transcript_none (rows : List ω) : transcript rows none = rows.map .ok :=
  List.append_nil _

/-- Another row of a transcript comes from its rows. -/
theorem ok_of_transcript {rows all : List ω} {row : ω} {rest : List (Except Error ω)}
    {last : Option Error} (h : rows.map .ok ++ .ok row :: rest = transcript all last) :
    rows ++ [row] <+: all := by
  induction rows generalizing all with
  | nil =>
    cases all with
    | nil => cases last <;> cases h
    | cons r all =>
      cases h
      exact ⟨all, rfl⟩
  | cons r rows ih =>
    cases all with
    | nil => cases last <;> cases h
    | cons r' all =>
      obtain ⟨hr, htail⟩ := List.cons.inj h
      cases hr
      exact List.cons_prefix_cons.mpr ⟨rfl, ih htail⟩

/-- An error of a transcript is at its end. -/
theorem error_of_transcript {rows all : List ω} {e : Error} {rest : List (Except Error ω)}
    {last : Option Error} (h : rows.map .ok ++ .error e :: rest = transcript all last) :
    rows = all ∧ last = some e ∧ rest = [] := by
  induction rows generalizing all with
  | nil =>
    cases all with
    | nil =>
      cases last with
      | none => cases h
      | some e' =>
        cases h
        exact ⟨rfl, rfl, rfl⟩
    | cons r all => cases h
  | cons r rows ih =>
    cases all with
    | nil => cases last <;> cases h
    | cons r' all =>
      obtain ⟨hr, htail⟩ := List.cons.inj h
      cases hr
      obtain ⟨rfl, hlast, hrest⟩ := ih htail
      exact ⟨rfl, hlast, hrest⟩

/-- How a job ends that has sent so many rows to a caller who kept the handle, and the error that
the caller gets of it. -/
inductive Source.Ends (source : Source ω) (produced : Nat) :
    (truncated : Bool) → Option Error → Prop where
  | complete (all : source.item produced = none) (ending : source.ending.guarded = .ok ()) :
    Ends source produced false none
  | failure {e : Error} (all : source.item produced = none)
      (ending : source.ending.guarded = .error e) :
    Ends source produced false (some e)
  | cut : Ends source produced true (some .poolClosed)

namespace Ticket

variable {t t' : Ticket σ ω} {source : Source ω} {produce : σ → Source ω × σ}

/-- What the caller of a job with rows will still receive, as far as it was sent. -/
def remaining (t : Ticket σ ω) : List (Except Error ω) :=
  t.channel ++ if t.truncated then [.error .poolClosed] else []

theorem remaining_uncut (huncut : t.truncated = false) : t.remaining = t.channel := by
  rw [remaining, huncut]
  exact List.append_nil _

/-- A job with rows that is begun: what was received and what remains are all the rows that were
sent, in their order, and then the error at the end, if there is one. -/
structure Streams (source : Source ω) (t : Ticket σ ω) : Prop where
  known : t.source = some source
  outcome : t.outcome = none
  items : ∀ i < t.produced, (source.item i).isSome
  working : t.phase ≠ .done → t.finished = false ∧ t.truncated = false
  plain : t.finished = false → ∃ rows, rows <+: source.first t.produced ∧ t.received = rows.map .ok
  held : t.isHeld = true → ∃ last,
    t.received ++ t.remaining = transcript (source.first t.produced) last ∧
    (t.phase ≠ .done → last = none) ∧ (t.phase = .done → source.Ends t.produced t.truncated last)
  read : t.finished = true → ∃ last, t.received = transcript (source.first t.produced) last ∧
    source.Ends t.produced t.truncated last

theorem finished_deliver_ok (hbody : t.body = .rows produce) (row : ω)
    (rest : List (Except Error ω)) : (t.deliver (.ok row) rest).finished = false := by
  simp [deliver, isReply, hbody, Except.isOk, Except.toBool]

/-- A row that a caller takes from the channel is the next one. -/
theorem Streams.receive_ok (h : t.Streams source) (hbody : t.body = .rows produce)
    (hheld : t.isHeld = true) {row : ω} {rest : List (Except Error ω)}
    (hchannel : t.channel = .ok row :: rest) : (t.deliver (.ok row) rest).Streams source := by
  have hfinished := finished_deliver_ok hbody row rest
  obtain ⟨rows, -, hreceived⟩ := h.plain (isHeld_iff.mp hheld).1
  obtain ⟨last, hall, hends⟩ := h.held hheld
  have hsplit : t.received ++ t.remaining =
      rows.map .ok ++ .ok row :: (t.deliver (.ok row) rest).remaining := by
    rw [hreceived, remaining, hchannel]
    rfl
  have hreceived' : (t.deliver (.ok row) rest).received = rows.map .ok ++ [.ok row] := by
    rw [← hreceived]
    rfl
  refine { h with
    working := fun hphase => ⟨hfinished, (h.working hphase).2⟩
    plain := fun _ => ⟨rows ++ [row], ok_of_transcript (hsplit.symm.trans hall), ?_⟩
    held := fun _ => ⟨last, ?_, hends⟩
    read := fun hf => ?_ }
  · rw [hreceived', List.map_append]
    rfl
  · rw [hreceived', List.append_assoc]
    exact hsplit.symm.trans hall
  · rw [hfinished] at hf
    cases hf

/-- An error that a caller takes from the channel is the last thing that was sent. -/
theorem Streams.receive_error (h : t.Streams source) (hheld : t.isHeld = true) {e : Error}
    {rest : List (Except Error ω)} (hchannel : t.channel = .error e :: rest) :
    (t.deliver (.error e) rest).Streams source := by
  have hfinished := t.finished_deliver_error e rest
  obtain ⟨rows, -, hreceived⟩ := h.plain (isHeld_iff.mp hheld).1
  obtain ⟨last, hall, hworking, hdone⟩ := h.held hheld
  have hsplit : t.received ++ t.remaining =
      rows.map .ok ++ .error e :: (t.deliver (.error e) rest).remaining := by
    rw [hreceived, remaining, hchannel]
    rfl
  obtain ⟨hrows, rfl, -⟩ := error_of_transcript (hsplit.symm.trans hall)
  have hphase : t.phase = .done := by
    refine Decidable.byContradiction fun hne => ?_
    cases hworking hne
  have hread : (t.deliver (.error e) rest).received =
      transcript (source.first t.produced) (some e) := by
    rw [← hrows, transcript, ← hreceived]
    rfl
  refine { h with
    working := fun hne => absurd hphase hne
    plain := fun hf => ?_
    held := fun hheld' => ?_
    read := fun _ => ⟨some e, hread, hdone hphase⟩ }
  · rw [hfinished] at hf
    cases hf
  · rw [(isHeld_iff.mp hheld').1] at hfinished
    cases hfinished

theorem receive_over (hheld : t.isHeld = true) (hchannel : t.channel = []) (hover : t.isOver = true)
    (hreply : t.isReply = false) :
    t.receive = if t.truncated then t.deliver (.error .poolClosed) []
      else { t with finished := true } := by
  simp [Ticket.receive, hheld, hchannel, hover, hreply]

/-- At the end of the channel the caller learns whether the rows were cut short. -/
theorem Streams.receive_end (h : t.Streams source) (hbody : t.body = .rows produce)
    (hheld : t.isHeld = true) (hchannel : t.channel = []) (hphase : t.phase = .done) :
    t.receive.Streams source := by
  obtain ⟨last, hall, -, hdone⟩ := h.held hheld
  rw [receive_over hheld hchannel (by simp [isOver, hphase]) (by simp [isReply, hbody])]
  split
  next htruncated =>
    have hfinished := t.finished_deliver_error .poolClosed []
    refine { h with
      working := fun hne => absurd hphase hne
      plain := fun hf => ?_
      held := fun hheld' => ?_
      read := fun _ => ⟨last, ?_, hdone hphase⟩ }
    · rw [hfinished] at hf
      cases hf
    · rw [(isHeld_iff.mp hheld').1] at hfinished
      cases hfinished
    · rw [remaining, hchannel, htruncated] at hall
      exact hall
  next huncut =>
    refine { h with
      working := fun hne => absurd hphase hne
      plain := fun hf => by cases hf
      held := fun hheld' => by cases hheld'
      read := fun _ => ⟨last, ?_, hdone hphase⟩ }
    rw [remaining, hchannel, if_neg huncut, List.append_nil, List.append_nil] at hall
    exact hall

/-- A look at a job with rows that was begun. -/
theorem Streams.receive (h : t.Streams source) (hbody : t.body = .rows produce)
    (hbegun : t.phase.hasBegun = true) : t.receive.Streams source := by
  cases hheld : t.isHeld with
  | false => rwa [receive_of_not_held hheld]
  | true =>
    cases hchannel : t.channel with
    | cons x rest =>
      rw [receive_cons hheld hchannel]
      cases x with
      | ok row => exact h.receive_ok hbody hheld hchannel
      | error e => exact h.receive_error hheld hchannel
    | nil =>
      by_cases hphase : t.phase = .done
      · exact h.receive_end hbody hheld hchannel hphase
      · rwa [receive_nil hchannel (isOver_eq_false hphase (Phase.ne_refused hbegun))]

theorem transcript_some (rows : List ω) (e : Error) :
    transcript rows (some e) = rows.map .ok ++ [.error e] := rfl

/-- What a begun job with rows sends extends what it sent before. -/
theorem Streams.produces (h : t.Streams source) (hphase : t.phase ≠ .done)
    (hp : Produces source t t') :
    t'.Streams source := by
  obtain ⟨hfinished, huncut⟩ := h.working hphase
  obtain ⟨rows, hrows, hreceived⟩ := h.plain hfinished
  have hsent : t.isHeld = true → t.received ++ t.channel = (source.first t.produced).map .ok := by
    intro hheld
    obtain ⟨last, hall, hworking, -⟩ := h.held hheld
    rwa [remaining_uncut huncut, hworking hphase, transcript_none] at hall
  have hunread : t.finished ≠ true := by simp [hfinished]
  cases hp with
  | @row row kept item =>
    have hfirst := Source.first_succ item
    refine { h with
      items := fun i hi => ?_
      working := fun _ => ⟨hfinished, huncut⟩
      plain := fun _ => ⟨rows, hfirst ▸ hrows.trans (List.prefix_append _ _), hreceived⟩
      held := fun hheld => ⟨none, ?_, fun _ => rfl, nofun⟩
      read := fun hf => absurd hf hunread }
    · rcases Nat.lt_succ_iff_lt_or_eq.mp hi with hold | rfl
      · exact h.items i hold
      · exact Option.isSome_iff_exists.mpr ⟨row, item⟩
    · rw [remaining_uncut, transcript_none, hfirst,
        List.map_append, ← hsent hheld, List.append_assoc]
      · rfl
      · exact huncut
  | @failure e kept item ending =>
    refine { h with
      working := fun hne => absurd rfl hne
      held := fun hheld => ⟨some e, ?_, fun hne => absurd rfl hne, fun _ => ?_⟩
      read := fun hf => absurd hf hunread }
    · rw [remaining_uncut, transcript_some, ← hsent hheld, List.append_assoc]
      exact huncut
    · rw [huncut]
      exact .failure item ending
  | complete item ending =>
    refine { h with
      working := fun hne => absurd rfl hne
      held := fun hheld => ⟨none, ?_, fun _ => rfl, fun _ => ?_⟩
      read := fun hf => absurd hf hunread }
    · rw [remaining_uncut, transcript_none, ← hsent hheld]
      exact huncut
    · rw [huncut]
      exact .complete item ending
  | unheard dropped =>
    refine { h with
      working := fun hne => absurd rfl hne
      held := fun hheld => ?_
      read := fun hf => absurd hf hunread }
    cases dropped.symm.trans (isHeld_iff.mp hheld).2
  | waiting full =>
    refine { h with
      working := fun _ => ⟨hfinished, huncut⟩
      held := fun hheld => ⟨none, ?_, fun _ => rfl, nofun⟩
      read := fun hf => absurd hf hunread }
    rw [remaining_uncut, transcript_none, ← hsent hheld]
    exact huncut
  | cut =>
    refine { h with
      working := fun hne => absurd rfl hne
      held := fun hheld => ⟨some .poolClosed, ?_, fun hne => absurd rfl hne, fun _ => .cut⟩
      read := fun hf => absurd hf hunread }
    rw [transcript_some, ← hsent hheld, List.append_assoc]
    rfl

/-- When a job with rows is begun, nothing was sent yet. -/
theorem Waits.streams (h : t.Waits) (hfinished : t.finished = false) (hphase : t.phase ≠ .refused)
    (source : Source ω) : (t.beginRows source).Streams source where
  known := rfl
  outcome := h.outcome
  items i hi := by
    change i < t.produced at hi
    rw [h.produced] at hi
    cases hi
  working _ := ⟨hfinished, h.truncated⟩
  plain _ := ⟨[], List.nil_prefix, h.silent hfinished⟩
  held hheld := by
    refine ⟨none, ?_, fun _ => rfl, nofun⟩
    rw [remaining_uncut (show (t.beginRows source).truncated = false from h.truncated)]
    change t.received ++ t.channel = transcript (source.first t.produced) none
    rw [h.silent hfinished, h.unsent hheld hphase, h.produced]
    rfl
  read hf := by cases hfinished.symm.trans hf

theorem lasting_streams (produce : σ → Source ω × σ) :
    Lasting (.rows produce) fun t => ∃ s, t.Streams (produce s).1 where
  begins hbody hwaits hfinished hphase hbegins := by
    cases hbegins with
    | reply hreply => cases hbody.symm.trans hreply
    | rows hrows s =>
      cases hbody.symm.trans hrows
      exact ⟨s, hwaits.streams hfinished hphase _⟩
  goes hbody hbegun h hgoes := by
    obtain ⟨s, hs⟩ := h
    refine ⟨s, ?_⟩
    cases hgoes with
    | stay => exact hs
    | cancel => exact { hs with }
    | drop => exact { hs with held := fun hheld => nomatch (isHeld_iff.mp hheld).2 }
    | receive => exact hs.receive hbody hbegun
    | settle => exact { hs with }
    | endReply _ reply => cases hbody.symm.trans reply
    | answer _ known => cases hs.outcome.symm.trans known
    | produce producing known produces =>
      cases hs.known.symm.trans known
      exact hs.produces (producing ▸ Phase.noConfusion) produces

/-- The rows that a caller received are the first ones of the job; at the end they are all that were
sent. -/
theorem Streams.received (h : t.Streams source) :
    ∃ rows last, t.received = transcript rows last ∧ (t.finished = false → last = none) ∧
      (∀ i < rows.length, source.item i = rows[i]?) ∧
      (t.finished = true → source.Ends rows.length t.truncated last) := by
  have hlength := Source.length_first h.items
  have hitem := Source.getElem?_first h.items
  cases hf : t.finished with
  | false =>
    obtain ⟨rows, hprefix, hreceived⟩ := h.plain hf
    refine ⟨rows, none, by rw [hreceived, transcript_none], fun _ => rfl, fun i hi => ?_, nofun⟩
    have hproduced : i < t.produced := Nat.lt_of_lt_of_le hi (hlength ▸ hprefix.length_le)
    obtain ⟨rest, hsplit⟩ := hprefix
    rw [← hitem i hproduced, ← hsplit, List.getElem?_append_left hi]
  | true =>
    obtain ⟨last, hreceived, hends⟩ := h.read hf
    refine ⟨source.first t.produced, last, hreceived, nofun, fun i hi => ?_,
      fun _ => hlength.symm ▸ hends⟩
    exact (hitem i (hlength ▸ hi)).symm

theorem Waits.received (h : t.Waits) :
    ∃ last, t.received = transcript [] last ∧ (t.finished = false → last = none) ∧
      (t.finished = true → ∃ e, e.isRefusal = true ∧ last = some e) := by
  cases hf : t.finished with
  | false => exact ⟨none, h.silent hf, fun _ => rfl, nofun⟩
  | true =>
    obtain ⟨-, e, he, hreceived⟩ := h.told hf
    exact ⟨some e, hreceived, nofun, fun _ => ⟨e, he, rfl⟩⟩

end Ticket

namespace Pool

/-- The caller of a job with rows receives its first rows in their order, none twice and none left
out. A caller that has read to the end knows how the job ended: without an error it has all rows,
after the error of the job it has all rows before that, and if the rows were cut short the last
thing is `Error.poolClosed`; a job that was not begun ends in a refusal at once. After the end the
caller gets nothing more, in whichever way it waits. -/
theorem run_rows_received {connections : List σ} {limit : Option Duration}
    {events : List (Event σ ω)} {id : Nat} {t : Ticket σ ω} {produce : σ → Source ω × σ}
    (ht : ((new connections limit).run events).tickets[id]? = some t)
    (hbody : t.body = .rows produce) :
    ∃ rows last, t.received = transcript rows last ∧ (t.finished = false → last = none) ∧
      (t.source = none → rows = [] ∧
        (t.finished = true → ∃ e, e.isRefusal = true ∧ last = some e)) ∧
      (∀ source, t.source = some source → (∃ s, source = (produce s).1) ∧
        (∀ i < rows.length, source.item i = rows[i]?) ∧
        (t.finished = true → source.Ends rows.length t.truncated last)) ∧
      (t.finished = true → ∀ later,
        (∃ t', ((new connections limit).run (events ++ later)).tickets[id]? = some t' ∧
          t'.received = t.received) ∧
        ∀ patience held,
          (((new connections limit).run (events ++ later)).next patience held id).1 = none) := by
  have h := new_run_course ht hbody (Ticket.lasting_streams produce)
  have horderly :=
    (orderly_new connections limit : (new connections limit : Pool σ ω).Orderly).run events
  have hafter : t.finished = true → ∀ later,
      (∃ t', ((new connections limit).run (events ++ later)).tickets[id]? = some t' ∧
        t'.received = t.received) ∧
      ∀ patience held,
      (((new connections limit).run (events ++ later)).next patience held id).1 = none := by
    intro hf later
    obtain ⟨t', ht', hbecomes'⟩ := horderly.run_becomes ht later
    obtain ⟨hf', hreceived⟩ := hbecomes'.finished hf
    rw [run_append]
    exact ⟨⟨t', ht', hreceived⟩, (horderly.run later).next_finished ht' hf'⟩
  cases hbegun : t.phase.hasBegun with
  | false =>
    have hwaits := h.waits hbegun
    obtain ⟨last, hreceived, hopen, hover⟩ := hwaits.received
    refine ⟨[], last, hreceived, hopen, fun _ => ⟨rfl, hover⟩, fun source hsource => ?_, hafter⟩
    cases hwaits.source.symm.trans hsource
  | true =>
    obtain ⟨s, hstreams⟩ := h.begun hbegun
    obtain ⟨rows, last, hreceived, hopen, hfirst, hends⟩ := hstreams.received
    refine ⟨rows, last, hreceived, hopen, fun hnone => ?_, fun source hsource => ?_, hafter⟩
    · cases hstreams.known.symm.trans hnone
    · cases hstreams.known.symm.trans hsource
      exact ⟨⟨s, rfl⟩, hfirst, hends⟩

/-- A job produces two rows and then panics. -/
def twoRows : Source Nat := ⟨fun i => if i < 2 then some (10 * i) else none, .panicked "overflow"⟩

/-- Its caller reads while the job sends, and once before anything was sent. -/
def twoRowsRun : List (Event Nat Nat) :=
  [.submit (.rows fun s => (twoRows, s + 1)) 0, .receive 0, .take 0, .work 0, .work 0,
    .work 0, .receive 0,
    .work 0, .beginClosing, .work 0, .receive 0, .receive 0]

theorem run_rows_received_panicked :
    ∃ t, ((new [0] none).run twoRowsRun).tickets[0]? = some t ∧
      t.received = [.ok 0, .ok 10, .error (.workerPanic "overflow")] ∧
      (∃ rows last, t.received = transcript rows last ∧ twoRows.Ends rows.length false last) ∧
      ∀ later patience held,
      (((new [0] none).run (twoRowsRun ++ later)).next patience held 0).1 = none := by
  have ht : ((new [0] none).run twoRowsRun).tickets[0]? = some _ := rfl
  obtain ⟨rows, last, hreceived, -, -, hbegun, hover⟩ := run_rows_received ht rfl
  obtain ⟨-, -, hends⟩ := hbegun twoRows rfl
  exact ⟨_, ht, rfl, ⟨rows, last, hreceived, hends rfl⟩, fun later => (hover rfl later).2⟩

end Pool

end TypedTables
