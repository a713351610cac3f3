import TypedTables.Example.Tables
import TypedTables.Proofs.Building
import TypedTables.Proofs.Errands
import TypedTables.Statement.Requests

/-!
# Requests that a cache serves at the same time

Between the steps of one request others may take theirs, in any order. A cache only gains
statements, so what a request found or built stays true while it waits; and storing looks once more
before it counts. So every request comes back with what would be built without the cache, and the
counter stays right.
-/
namespace TypedTables

namespace StatementCache

variable {c c' c'' : StatementCache} {shape : Shape} {text : String} {object : Shared String}

structure Kept (c c' : StatementCache) : Prop where
  schema : c'.schema = c.schema
  table : c'.table = c.table
  entries : c.statements.entries <+: c'.statements.entries

theorem Kept.refl (c : StatementCache) : c.Kept c := ⟨rfl, rfl, List.prefix_rfl⟩

theorem Kept.trans (h : c.Kept c') (h' : c'.Kept c'') : c.Kept c'' :=
  ⟨h'.schema.trans h.schema, h'.table.trans h.table, h.entries.trans h'.entries⟩

theorem Kept.build (h : c.Kept c') (shape : Shape) : c'.build shape = c.build shape := by
  rw [StatementCache.build, StatementCache.build, h.schema, h.table]

theorem Kept.find? (h : c.Kept c') (hfind : c.find? shape = some object) :
    c'.find? shape = some object :=
  SharedMap.find?_of_grown h.entries hfind

/-- The cache after it gave out a serial number. -/
def issued (c : StatementCache) : StatementCache :=
  { c with statements := { c.statements with issued := c.statements.issued + 1 } }

/-- The object with the next serial number. -/
def fresh (c : StatementCache) (text : String) : Shared String := ⟨c.statements.issued, text⟩

/-- Nothing else changes. -/
theorem kept_issued (c : StatementCache) : c.Kept c.issued := ⟨rfl, rfl, List.prefix_rfl⟩

def extended (c : StatementCache) (shape : Shape) (object : Shared String) : StatementCache :=
  { c with
    statements := { c.statements with entries := c.statements.entries ++ [(shape, object)] }
    raw := if shape.isRaw then c.raw + 1 else c.raw }

theorem kept_extended (c : StatementCache) (shape : Shape) (object : Shared String) :
    c.Kept (c.extended shape object) :=
  ⟨rfl, rfl, List.prefix_append ..⟩

theorem find?_extended (hnew : c.find? shape = none) :
    (c.extended shape object).find? shape = some object :=
  SharedMap.find?_added hnew

/-- Whether a cache has no room for a shape. -/
def refuses (c : StatementCache) (shape : Shape) : Bool := shape.isRaw && rawCapacity ≤ c.raw

/-- What storing does: a shape that is there already keeps its object, one without room is not
kept. -/
theorem store_eq (c : StatementCache) (shape : Shape) (text : String) :
    c.store shape text =
      match c.find? shape with
      | some object => (object, c.issued)
      | none =>
        if c.refuses shape then (c.fresh text, c.issued)
        else (c.fresh text, c.issued.extended shape (c.fresh text)) := by
  cases hfind : c.find? shape with
  | some object =>
    have hissued :
        SharedMap.find? ⟨c.statements.entries, c.statements.issued + 1⟩ shape = some object := hfind
    simp only [store, SharedMap.issue, find?, hissued]
    rfl
  | none =>
    have hissued : SharedMap.find? ⟨c.statements.entries, c.statements.issued + 1⟩ shape = none :=
      hfind
    simp only [store, SharedMap.issue, find?, hissued, SharedMap.insertIfAbsent]
    by_cases hroom : c.refuses shape = true
    · rw [if_pos hroom,
        if_pos (show (shape.isRaw && decide (rawCapacity ≤ c.raw)) = true from hroom)]
      rfl
    · rw [if_neg hroom,
        if_neg (show ¬(shape.isRaw && decide (rawCapacity ≤ c.raw)) = true from hroom)]
      rfl

structure Counted (c : StatementCache) : Prop where
  faithful : c.Faithful
  distinct : (c.statements.entries.map Prod.fst).Nodup
  raw : c.statements.entries.countP (·.1.isRaw) = c.raw
  room : c.raw ≤ rawCapacity

theorem counted_new (s : Schema) (table : TableName) : (new s table).Counted :=
  ⟨faithful_new s table, List.nodup_nil, rfl, Nat.zero_le _⟩

/-- One more statement that would be built, of a shape that is new and has room. -/
theorem Counted.extended (h : c.Counted) (hnew : c.find? shape = none)
    (hroom : c.refuses shape = false) (hbuild : c.build shape = .ok object.content) :
    (c.extended shape object).Counted := by
  refine ⟨?_, ?_, ?_, ?_⟩
  · exact h.faithful.added rfl (fun _ => rfl) hbuild
  · exact SharedMap.nodup_added h.distinct hnew
  · rw [StatementCache.extended, List.countP_append, h.raw, List.countP_singleton]
    split <;> rfl
  · rw [refuses, Bool.and_eq_false_iff, decide_eq_false_iff_not] at hroom
    show (if shape.isRaw then c.raw + 1 else c.raw) ≤ rawCapacity
    split
    next hraw =>
      have := hroom.resolve_left (by rw [hraw]; exact nofun)
      omega
    · exact h.room

structure Stores (c : StatementCache) (shape : Shape) (text : String) : Prop where
  counted : (c.store shape text).2.Counted
  kept : c.Kept (c.store shape text).2
  content : (c.store shape text).1.content = text
  found : shape.isRaw = false → (c.store shape text).2.find? shape = some (c.store shape text).1
  same : ∀ object, c.find? shape = some object → (c.store shape text).1 = object

theorem Counted.stores (h : c.Counted) (hbuild : c.build shape = .ok text) :
    c.Stores shape text := by
  have hissued : c.issued.Counted := ⟨h.faithful, h.distinct, h.raw, h.room⟩
  cases hfind : c.find? shape with
  | some object =>
    have hstore : c.store shape text = (object, c.issued) := by rw [store_eq, hfind]
    constructor <;> rw [hstore]
    · exact hissued
    · exact c.kept_issued
    · exact Except.ok.inj ((h.faithful shape object hfind).symm.trans hbuild)
    · exact fun _ => hfind
    · exact fun _ hobject => Option.some.inj (hfind.symm.trans hobject)
  | none =>
    cases hroom : c.refuses shape with
    | true =>
      have hstore : c.store shape text = (c.fresh text, c.issued) := by
        rw [store_eq, hfind, hroom]; rfl
      constructor <;> rw [hstore]
      · exact hissued
      · exact c.kept_issued
      · rfl
      · intro hraw
        rw [refuses, hraw] at hroom
        exact absurd hroom nofun
      · exact fun _ hobject => absurd (hfind.symm.trans hobject) nofun
    | false =>
      have hstore :
          c.store shape text = (c.fresh text, c.issued.extended shape (c.fresh text)) := by
        rw [store_eq, hfind, hroom]; rfl
      constructor <;> rw [hstore]
      · exact hissued.extended hfind hroom hbuild
      · exact c.kept_issued.trans (kept_extended ..)
      · rfl
      · exact fun _ => find?_extended hfind
      · exact fun _ hobject => absurd (hfind.symm.trans hobject) nofun

end StatementCache

namespace StatementRequest

variable {c c' : StatementCache} {r : StatementRequest} {shape : Shape}
    {answer : Except Error (Shared String)}

/-- What a request knows is what would be built; and its statement is kept if it does not hold text
of the caller. -/
def Sound (r : StatementRequest) (c : StatementCache) : Prop :=
  match r.stage with
  | .asking => True
  | .missing => True
  | .holding text => c.build r.shape = .ok text
  | .answered answer => answer.map Shared.content = c.build r.shape ∧
      ∀ object, answer = .ok object → r.shape.isRaw = false → c.find? r.shape = some object

/-- What others do does not concern it. -/
theorem Sound.kept (h : r.Sound c) (hk : c.Kept c') : r.Sound c' := by
  obtain ⟨shape, stage⟩ := r
  cases stage with
  | asking => trivial
  | missing => trivial
  | holding text => exact (hk.build shape).trans h
  | answered answer =>
    exact ⟨h.1.trans (hk.build shape).symm,
      fun object hanswer hraw => hk.find? (h.2 object hanswer hraw)⟩

structure Steps (r : StatementRequest) (c : StatementCache) : Prop where
  counted : (r.step c).2.Counted
  kept : c.Kept (r.step c).2
  sound : (r.step c).1.Sound (r.step c).2

theorem Sound.steps (h : r.Sound c) (hc : c.Counted) : r.Steps c := by
  obtain ⟨shape, stage⟩ := r
  cases stage with
  | asking =>
    cases hfind : c.find? shape with
    | some object =>
      have hstep : step ⟨shape, .asking⟩ c = (⟨shape, .answered (.ok object)⟩, c) := by
        simp [step, hfind]
      constructor <;> rw [hstep]
      · exact hc
      · exact .refl c
      · refine ⟨(hc.faithful shape object hfind).symm, fun other hother _ => ?_⟩
        cases hother
        exact hfind
    | none =>
      have hstep : step ⟨shape, .asking⟩ c = (⟨shape, .missing⟩, c) := by simp [step, hfind]
      constructor <;> rw [hstep]
      · exact hc
      · exact .refl c
      · trivial
  | missing =>
    cases hbuild : c.build shape with
    | ok text =>
      have hstep : step ⟨shape, .missing⟩ c = (⟨shape, .holding text⟩, c) := by simp [step, hbuild]
      constructor <;> rw [hstep]
      · exact hc
      · exact .refl c
      · exact hbuild
    | error e =>
      have hstep : step ⟨shape, .missing⟩ c = (⟨shape, .answered (.error e)⟩, c) := by
        simp [step, hbuild]
      constructor <;> rw [hstep]
      · exact hc
      · exact .refl c
      · exact ⟨hbuild.symm, fun _ hanswer => absurd hanswer nofun⟩
  | holding text =>
    have hbuild : c.build shape = .ok text := h
    have hs := hc.stores hbuild
    refine ⟨hs.counted, hs.kept, ?_, ?_⟩
    · exact (congrArg Except.ok hs.content).trans (((hs.kept.build shape).trans hbuild).symm)
    · intro object hanswer hraw
      cases hanswer
      exact hs.found hraw
  | answered answer => exact ⟨hc, .refl c, h⟩

/-- A request whose text cannot be built leaves the cache as it is. -/
theorem Sound.step_error (h : r.Sound c) {e : Error} (hbuild : c.build r.shape = .error e) :
    (r.step c).2 = c := by
  obtain ⟨shape, stage⟩ := r
  cases stage with
  | asking => cases hfind : c.find? shape <;> simp [step, hfind]
  | missing =>
    simp only at hbuild
    simp [step, hbuild]
  | holding text => exact absurd (hbuild.symm.trans h) nofun
  | answered answer => rfl

/-- A request for a kept statement comes back with nothing but that statement. -/
theorem step_of_find? (hc : c.Counted) (hr : r.Sound c) {object : Shared String}
    (hfind : c.find? r.shape = some object) (h : (r.step c).1.stage = .answered answer) :
    r.stage = .answered answer ∨ answer = .ok object := by
  obtain ⟨shape, stage⟩ := r
  cases stage with
  | asking =>
    simp only at hfind
    simp only [step, hfind, RequestStage.answered.injEq] at h
    exact .inr h.symm
  | missing =>
    have hbuild := hc.faithful shape object hfind
    simp [step, hbuild] at h
  | holding text =>
    have hs := hc.stores (show c.build shape = .ok text from hr)
    cases h
    exact .inr (congrArg Except.ok (hs.same object hfind))
  | answered other => exact .inl h

/-! ### Requests as errands -/

def errand (r : StatementRequest) : Errand Shape String (Except Error (Shared String)) :=
  ⟨r.shape,
    match r.stage with
    | .asking => .probing
    | .missing => .missing
    | .holding text => .holding text
    | .answered answer => .answered answer⟩

theorem errand_injective : Function.Injective errand := by
  rintro ⟨shape, stage⟩ ⟨shape', stage'⟩ h
  cases stage <;> cases stage' <;> cases h <;> rfl

def scheme : Scheme Shape StatementCache String (Except Error (Shared String)) where
  probe shape c := (c.find? shape).map .ok
  make shape c := ((c.build shape).mapError .error, c)
  store shape text c := (.ok (c.store shape text).1, (c.store shape text).2)

theorem errand_step (r : StatementRequest) (c : StatementCache) :
    r.errand.step scheme c = ((r.step c).1.errand, (r.step c).2) := by
  obtain ⟨shape, stage⟩ := r
  cases stage with
  | asking => cases hfind : c.find? shape <;> simp [step, errand, Errand.step, scheme, hfind]
  | missing =>
    cases hbuild : c.build shape <;>
      simp [step, errand, Errand.step, scheme, hbuild, except_mapError_ok, except_mapError_error]
  | holding text => rfl
  | answered answer => rfl

/-- Serving a shape at one go is a request to the cache alone. -/
theorem serve_eq (shape : Shape) (c : StatementCache) : scheme.serve shape c = c.get shape := by
  rw [Scheme.serve, StatementCache.get]
  cases hfind : c.find? shape with
  | some object => simp [scheme, hfind]
  | none =>
    cases hbuild : c.build shape <;>
      simp [scheme, hfind, hbuild, except_mapError_ok, except_mapError_error]

theorem shape_step (r : StatementRequest) (c : StatementCache) : (r.step c).1.shape = r.shape := by
  have hkey := (r.errand.step_nearer scheme c).1
  rwa [errand_step] at hkey

end StatementRequest

def CacheEvent.turn : CacheEvent → Turn Shape
  | .ask shape => .send shape
  | .go place => .go place

namespace SharedCache

variable {c : SharedCache} {r : StatementRequest} {place : Nat}

def errands (c : SharedCache) :
    Errands Shape StatementCache String (Except Error (Shared String)) :=
  ⟨c.cache, c.requests.map StatementRequest.errand⟩

theorem errands_injective : Function.Injective errands := by
  rintro ⟨cache, requests⟩ ⟨cache', requests'⟩ h
  obtain ⟨hcache, hrequests⟩ := Errands.mk.inj h
  rw [mk.injEq]
  exact ⟨hcache, (List.map_inj_right fun _ _ h => StatementRequest.errand_injective h).mp hrequests⟩

theorem getElem?_errands :
    c.errands.sent[place]? = some r.errand ↔ c.requests[place]? = some r := by
  rw [errands, List.getElem?_map, Option.map_eq_some_iff]
  exact ⟨fun ⟨_, hget, heq⟩ => StatementRequest.errand_injective heq ▸ hget,
    fun hget => ⟨r, hget, rfl⟩⟩

theorem errands_step (c : SharedCache) (event : CacheEvent) :
    (c.step event).errands = c.errands.step StatementRequest.scheme event.turn := by
  cases event with
  | ask shape =>
    simp [step, errands, CacheEvent.turn, Errands.step, StatementRequest.new,
      StatementRequest.errand]
  | go place =>
    cases hget : c.requests[place]? with
    | none =>
      rw [CacheEvent.turn, Errands.step_go_none _ (by simp [errands, hget]), step, hget]
    | some r =>
      rw [CacheEvent.turn, Errands.step_go _ (getElem?_errands.mpr hget),
        StatementRequest.errand_step, step, hget]
      simp [errands]

theorem errands_run (c : SharedCache) (events : List CacheEvent) :
    (c.run events).errands = c.errands.run StatementRequest.scheme (events.map CacheEvent.turn) :=
  Errands.run_of_steps errands_step c events

/-! ### Runs -/

structure Sound (c : SharedCache) : Prop where
  counted : c.cache.Counted
  requests : ∀ r ∈ c.requests, r.Sound c.cache

theorem sound_new (s : Schema) (table : TableName) : (new s table).Sound :=
  ⟨StatementCache.counted_new s table, nofun⟩

/-- What an event leaves of a cache. -/
theorem Sound.step (h : c.Sound) (event : CacheEvent) :
    (c.step event).Sound ∧ c.cache.Kept (c.step event).cache := by
  cases event with
  | ask shape =>
    refine ⟨⟨h.counted, fun r hr => ?_⟩, .refl _⟩
    rcases List.mem_append.mp hr with hold | hnew
    · exact h.requests r hold
    · rw [List.mem_singleton.mp hnew]
      trivial
  | go place =>
    cases hget : c.requests[place]? with
    | none =>
      rw [SharedCache.step, hget]
      exact ⟨h, .refl _⟩
    | some r =>
      have hsteps := (h.requests r (List.mem_of_getElem? hget)).steps h.counted
      rw [SharedCache.step, hget]
      refine ⟨⟨hsteps.counted, fun other hother => ?_⟩, hsteps.kept⟩
      rcases List.mem_or_eq_of_mem_set hother with hold | rfl
      · exact (h.requests other hold).kept hsteps.kept
      · exact hsteps.sound

theorem Sound.run (h : c.Sound) (events : List CacheEvent) :
    (c.run events).Sound ∧ c.cache.Kept (c.run events).cache := by
  induction events generalizing c with
  | nil => exact ⟨h, .refl _⟩
  | cons event events ih =>
    obtain ⟨hsound, hkept⟩ := h.step event
    obtain ⟨hsound', hkept'⟩ := ih hsound
    exact ⟨hsound', hkept.trans hkept'⟩

/-- An event moves the request that it names, and no other one. -/
theorem step_request (hget : c.requests[place]? = some r) (event : CacheEvent) :
    (c.step event).requests[place]? =
      some (if event = .go place then (r.step c.cache).1 else r) := by
  have hturn : event.turn = .go place ↔ event = .go place := by
    cases event <;> simp [CacheEvent.turn]
  have hsent := Errands.step_sent StatementRequest.scheme (getElem?_errands.mpr hget) event.turn
  rw [← errands_step, show c.errands.state = c.cache from rfl,
    StatementRequest.errand_step] at hsent
  refine getElem?_errands.mp (hsent.trans ?_)
  by_cases heq : event = .go place
  · rw [if_pos heq, if_pos (hturn.mpr heq)]
  · rw [if_neg heq, if_neg (mt hturn.mp heq)]

/-- Three steps of its own are enough for an answer. -/
theorem run_ends {later : List CacheEvent} (hget : c.requests[place]? = some r)
    (hcount : 3 ≤ later.count (.go place)) :
    ∃ answer, (c.run later).requests[place]? = some ⟨r.shape, .answered answer⟩ := by
  have hturns :
      later.count (.go place) ≤ (later.map CacheEvent.turn).count (CacheEvent.turn (.go place)) :=
    List.count_le_count_map
  obtain ⟨answer, hanswer⟩ := Errands.run_ends StatementRequest.scheme (getElem?_errands.mpr hget)
    (Nat.le_trans hcount hturns)
  rw [← errands_run] at hanswer
  exact ⟨answer, getElem?_errands.mp hanswer⟩

/-- A request that an event makes has not begun. -/
theorem step_request_none (hget : c.requests[place]? = none) (event : CacheEvent)
    (r : StatementRequest) (hr : (c.step event).requests[place]? = some r) : r.stage = .asking := by
  cases event with
  | ask shape =>
    rw [step, List.getElem?_append_right (List.getElem?_eq_none_iff.mp hget)] at hr
    rw [List.mem_singleton.mp (List.mem_of_getElem? hr)]
    rfl
  | go other =>
    rw [step] at hr
    split at hr
    · rw [List.getElem?_eq_none_iff] at hget
      rw [List.getElem?_eq_none_iff.mpr (List.length_set.symm ▸ hget)] at hr
      cases hr
    · exact absurd (hget.symm.trans hr) nofun

/-- Once a statement is kept, a request that still waits for it comes back with the kept object. -/
theorem run_answer (h : c.Sound) {shape : Shape} {object : Shared String}
    (hfind : c.cache.find? shape = some object) (events : List CacheEvent)
    {answer : Except Error (Shared String)}
    (hanswer : (c.run events).requests[place]? = some ⟨shape, .answered answer⟩) :
    c.requests[place]? = some ⟨shape, .answered answer⟩ ∨ answer = .ok object := by
  induction events generalizing c with
  | nil => exact .inl hanswer
  | cons event events ih =>
    obtain ⟨hsound, hkept⟩ := h.step event
    rcases ih hsound (hkept.find? hfind) hanswer with hbefore | hobject
    · cases hget : c.requests[place]? with
      | none => exact absurd (step_request_none hget event _ hbefore) nofun
      | some r =>
        have hnext := Option.some.inj ((step_request hget event).symm.trans hbefore)
        by_cases heq : event = .go place
        · rw [if_pos heq] at hnext
          have hr := h.requests r (List.mem_of_getElem? hget)
          have hshape : shape = r.shape :=
            (congrArg StatementRequest.shape hnext).symm.trans (r.shape_step c.cache)
          rcases StatementRequest.step_of_find? h.counted hr (hshape ▸ hfind)
            (congrArg StatementRequest.stage hnext) with hstage | hobject
          · rw [hshape, ← hstage]
            exact .inl rfl
          · exact .inr hobject
        · rw [if_neg heq] at hnext
          exact .inl (congrArg some hnext)
    · exact .inr hobject

/-- The events of a request that nothing comes between. -/
def alone (c : SharedCache) (shape : Shape) : List CacheEvent :=
  [.ask shape, .go c.requests.length, .go c.requests.length, .go c.requests.length]

/-- A request that nothing comes between is a request to the cache alone. -/
theorem run_alone (c : SharedCache) (shape : Shape) :
    c.run (c.alone shape) =
      ⟨(c.cache.get shape).2, c.requests ++ [⟨shape, .answered (c.cache.get shape).1⟩]⟩ := by
  refine errands_injective ?_
  have hlength : c.requests.length = c.errands.sent.length := (List.length_map _).symm
  rw [errands_run, alone, hlength]
  refine (Errands.run_alone _ c.errands shape).trans ?_
  rw [StatementRequest.serve_eq]
  simp [errands, StatementRequest.errand]

structure Coherent (c : SharedCache) (s : Schema) (table : TableName) : Prop where
  /-- A request that nothing comes between is a request to the cache alone. -/
  alone : ∀ shape, c.run (c.alone shape) =
    ⟨(c.cache.get shape).2, c.requests ++ [⟨shape, .answered (c.cache.get shape).1⟩]⟩
  /-- Every answer is what would be built without the cache. -/
  answer : ∀ (place : Nat) (shape : Shape) (answer : Except Error (Shared String)),
    c.requests[place]? = some ⟨shape, .answered answer⟩ →
    answer.map Shared.content = s.statementText table shape
  /-- A request is answered when it has taken three steps. -/
  ends : ∀ (place : Nat) (r : StatementRequest) (later : List CacheEvent),
    c.requests[place]? = some r →
    3 ≤ later.count (.go place) → ∃ answer,
    (c.run later).requests[place]? = some ⟨r.shape, .answered answer⟩
  /-- What is kept stays kept, as the same object. -/
  stays : ∀ (shape : Shape) (object : Shared String) (later : List CacheEvent),
    c.cache.find? shape = some object → (c.run later).cache.find? shape = some object
  /-- A request for what is kept gets the kept object, if it was not answered before. -/
  shares : ∀ (shape : Shape) (object : Shared String) (later : List CacheEvent) (place : Nat)
    (answer : Except Error (Shared String)), c.cache.find? shape = some object →
    (c.run later).requests[place]? = some ⟨shape, .answered answer⟩ →
    c.requests[place]? = some ⟨shape, .answered answer⟩ ∨ answer = .ok object
  /-- A shape that cannot be built is not kept. -/
  fails : ∀ (shape : Shape) (e : Error), s.statementText table shape = .error e →
    c.cache.find? shape = none
  /-- A request that cannot be built leaves the cache as it is. -/
  leaves : ∀ (place : Nat) (r : StatementRequest) (e : Error), c.requests[place]? = some r →
    s.statementText table r.shape = .error e → (c.step (.go place)).cache = c.cache
  /-- A shape without text of the caller is kept once a request for it was answered. -/
  keeps : ∀ (place : Nat) (shape : Shape) (object : Shared String),
    c.requests[place]? = some ⟨shape, .answered (.ok object)⟩ → shape.isRaw = false →
    c.cache.find? shape = some object
  /-- No shape is kept twice. -/
  distinct : (c.cache.statements.entries.map Prod.fst).Nodup
  /-- The kept shapes with text of the caller are counted. -/
  raw : c.cache.statements.entries.countP (·.1.isRaw) = c.cache.raw
  /-- There are not more of them than there is room for. -/
  room : c.cache.raw ≤ rawCapacity

/-- However the steps of requests to a cache come after each other, the cache is coherent. -/
theorem run_coherent (s : Schema) (table : TableName) (events : List CacheEvent) :
    ((new s table).run events).Coherent s table := by
  obtain ⟨hsound, hkept⟩ := (sound_new s table).run events
  generalize (new s table).run events = c at *
  have hbuild : ∀ shape, c.cache.build shape = s.statementText table shape := hkept.build
  refine ⟨run_alone c, ?_, ?_, ?_, ?_, ?_, ?_, ?_, hsound.counted.distinct, hsound.counted.raw,
    hsound.counted.room⟩
  · intro place shape answer hget
    exact (hsound.requests _ (List.mem_of_getElem? hget)).1.trans (hbuild shape)
  · exact fun place r later hget hcount => run_ends hget hcount
  · exact fun shape object later => (hsound.run later).2.find?
  · exact fun shape object later place answer hfind => run_answer hsound hfind later
  · intro shape e herror
    cases hfind : c.cache.find? shape with
    | none => rfl
    | some object =>
      have hkeeps := (hbuild shape).symm.trans (hsound.counted.faithful shape object hfind)
      exact absurd (hkeeps.symm.trans herror) nofun
  · intro place r e hget herror
    rw [step, hget]
    exact (hsound.requests r (List.mem_of_getElem? hget)).step_error ((hbuild r.shape).trans herror)
  · intro place shape object hget hraw
    exact (hsound.requests _ (List.mem_of_getElem? hget)).2 object rfl hraw

open Example in
/-- Two requests that both built the statement come back with one object. -/
example :
    ((new entries entriesName).run [.ask (.delete ⟨.all, none⟩), .ask (.delete ⟨.all, none⟩),
      .go 0, .go 1, .go 0, .go 1, .go 1, .go 0]).requests =
    [⟨.delete ⟨.all, none⟩, .answered (.ok ⟨0, "DELETE FROM entries"⟩)⟩,
      ⟨.delete ⟨.all, none⟩, .answered (.ok ⟨0, "DELETE FROM entries"⟩)⟩] := by rfl

end SharedCache

end TypedTables
