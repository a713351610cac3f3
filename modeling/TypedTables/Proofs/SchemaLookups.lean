import Mathlib.Data.List.Nodup
import TypedTables.Example.Records
import TypedTables.Proofs.Errands
import TypedTables.Schema.Lookups

/-!
# Look-ups that a registry serves at the same time

Between the steps of one look-up others may take theirs, in any order. What a look-up can do to a
registry is said once, by `SchemaLookup.Moves`. Entries are only added, each for a type without one,
so every look-up that finds a schema comes back with the entry of its type; and objects have serial
numbers of their own, wherever they are, so that the entries of different types are different
objects.
-/
namespace TypedTables

variable {κ : Type} {declarations : κ → List Declaration}

/-! ### Entries -/

namespace Registry

structure Faithful (declarations : κ → List Declaration) (r : Registry κ) : Prop where
  extracted : ∀ entry ∈ r.entries,
    Schema.ofDeclarations (declarations entry.1) = .ok entry.2.content
  distinct : (r.entries.map Prod.fst).Nodup

theorem faithful_empty : Faithful declarations SharedMap.empty := ⟨nofun, List.nodup_nil⟩

/-- One more entry, for a type without one. -/
theorem Faithful.added [DecidableEq κ] {r : Registry κ} {type : κ} {object : Shared Schema}
    (h : r.Faithful declarations) (hnew : SharedMap.find? r type = none)
    (hschema : Schema.ofDeclarations (declarations type) = .ok object.content) :
    Faithful declarations { r with entries := r.entries ++ [(type, object)] } := by
  refine ⟨fun entry hentry => ?_, SharedMap.nodup_added h.distinct hnew⟩
  rcases List.mem_append.mp hentry with hold | hadded
  · exact h.extracted entry hold
  · rw [List.mem_singleton.mp hadded]
    exact hschema

end Registry

/-! ### Serial numbers -/

/-- The serial number of the object that a look-up is about to store. -/
def SchemaLookup.serial? (l : SchemaLookup κ) : Option Nat :=
  match l.stage with
  | .holding object => some object.serial
  | _ => none

namespace Registry

variable {r : Registry κ} {l : SchemaLookup κ} {lookups before after : List (SchemaLookup κ)}

/-- The serial numbers of the objects in a registry and of those that look-ups are about to
store. -/
def serials (r : Registry κ) (lookups : List (SchemaLookup κ)) : List Nat :=
  r.entries.map (·.2.serial) ++ lookups.filterMap SchemaLookup.serial?

/-- A look-up adds what it holds, wherever it stands among the others. -/
theorem serials_perm (r : Registry κ) (l : SchemaLookup κ) (before after : List (SchemaLookup κ)) :
    (r.serials (before ++ l :: after)).Perm (l.serial?.toList ++ r.serials (before ++ after)) := by
  have hsplit : (before ++ l :: after).filterMap SchemaLookup.serial? =
      before.filterMap SchemaLookup.serial? ++
        (l.serial?.toList ++ after.filterMap SchemaLookup.serial?) := by
    rw [List.filterMap_append, List.filterMap_cons]
    cases l.serial? <;> rfl
  rw [serials, serials, hsplit, List.filterMap_append]
  exact ((List.perm_append_comm_assoc ..).append_left _).trans (List.perm_append_comm_assoc ..)

theorem serials_new (r : Registry κ) (lookups : List (SchemaLookup κ)) (type : κ) :
    r.serials (lookups ++ [.new type]) = r.serials lookups := by
  rw [serials, List.filterMap_append]
  exact congrArg _ (List.append_nil _)

/-- An object that becomes an entry keeps its serial number. -/
theorem serials_added (r : Registry κ) (type : κ) (object : Shared Schema)
    (lookups : List (SchemaLookup κ)) :
      (serials { r with entries := r.entries ++ [(type, object)] } lookups).Perm
      (object.serial :: r.serials lookups) := by
  rw [serials, List.map_append, List.append_assoc]
  exact List.perm_middle

structure Numbered (r : Registry κ) (lookups : List (SchemaLookup κ)) : Prop where
  distinct : (r.serials lookups).Nodup
  issued : ∀ n ∈ r.serials lookups, n < r.issued

theorem Numbered.look (h : r.Numbered lookups) (type : κ) :
    r.Numbered (lookups ++ [.new type]) := by
  constructor
  · rw [serials_new]
    exact h.distinct
  · rw [serials_new]
    exact h.issued

theorem numbered_iff : r.Numbered (before ++ l :: after) ↔
    (l.serial?.toList ++ r.serials (before ++ after)).Nodup ∧
      ∀ n ∈ l.serial?.toList ++ r.serials (before ++ after), n < r.issued := by
  have hperm := r.serials_perm l before after
  refine ⟨fun h => ⟨hperm.nodup_iff.mp h.distinct, fun n hn => h.issued n (hperm.mem_iff.mpr hn)⟩,
    fun h => ?_⟩
  exact ⟨hperm.nodup_iff.mpr h.1, fun n hn => h.2 n (hperm.mem_iff.mp hn)⟩

theorem numbered_empty : Numbered (SharedMap.empty : Registry κ) [] := ⟨List.nodup_nil, nofun⟩

/-- Entries of different types are different objects. -/
theorem Numbered.type_eq (h : r.Numbered lookups) {type type' : κ} {object object' : Shared Schema}
    (hmem : (type, object) ∈ r.entries) (hmem' : (type', object') ∈ r.entries)
    (hserial : object.serial = object'.serial) : type = type' := by
  have hdistinct := (List.nodup_append.mp h.distinct).1
  exact congrArg Prod.fst (List.inj_on_of_nodup_map hdistinct hmem hmem' hserial)

end Registry

/-! ### Look-ups as errands -/

namespace SchemaLookup

def errand (l : SchemaLookup κ) : Errand κ (Shared Schema) (Except Error (Shared Schema)) :=
  ⟨l.type,
    match l.stage with
    | .probing => .probing
    | .missing => .missing
    | .holding object => .holding object
    | .answered answer => .answered answer⟩

theorem errand_injective : Function.Injective (errand : SchemaLookup κ → Errand κ _ _) := by
  rintro ⟨type, stage⟩ ⟨type', stage'⟩ h
  cases stage <;> cases stage' <;> cases h <;> rfl

end SchemaLookup

def RegistryEvent.turn : RegistryEvent κ → Turn κ
  | .look type => .send type
  | .go place => .go place

namespace SharedRegistry

variable {s : SharedRegistry κ} {l : SchemaLookup κ} {place : Nat}

def errands (s : SharedRegistry κ) :
    Errands κ (Registry κ) (Shared Schema) (Except Error (Shared Schema)) :=
  ⟨s.registry, s.lookups.map SchemaLookup.errand⟩

theorem errands_injective : Function.Injective (errands : SharedRegistry κ → Errands κ _ _ _) := by
  rintro ⟨registry, lookups⟩ ⟨registry', lookups'⟩ h
  obtain ⟨hregistry, hlookups⟩ := Errands.mk.inj h
  rw [mk.injEq]
  exact ⟨hregistry, (List.map_inj_right fun _ _ h => SchemaLookup.errand_injective h).mp hlookups⟩

theorem getElem?_errands : s.errands.sent[place]? = some l.errand ↔ s.lookups[place]? = some l := by
  rw [errands, List.getElem?_map, Option.map_eq_some_iff]
  exact ⟨fun ⟨_, hget, heq⟩ => SchemaLookup.errand_injective heq ▸ hget, fun hget => ⟨l, hget, rfl⟩⟩

end SharedRegistry

variable [DecidableEq κ]

/-! ### What a step of a look-up can do -/

namespace SchemaLookup

inductive Moves (declarations : κ → List Declaration) :
    SchemaLookup κ → Registry κ → SchemaLookup κ → Registry κ → Prop where
  /-- The type has an entry. -/
  | found {type : κ} {r : Registry κ} {object : Shared Schema}
      (h : SharedMap.find? r type = some object) :
      Moves declarations ⟨type, .probing⟩ r ⟨type, .answered (.ok object)⟩ r
  /-- The type has no entry yet. -/
  | missed {type : κ} {r : Registry κ} (h : SharedMap.find? r type = none) :
      Moves declarations ⟨type, .probing⟩ r ⟨type, .missing⟩ r
  /-- The declarations make no schema. -/
  | refused {type : κ} {r : Registry κ} {e : Error}
      (h : Schema.ofDeclarations (declarations type) = .error e) :
      Moves declarations ⟨type, .missing⟩ r ⟨type, .answered (.error e)⟩ r
  /-- The declarations make a schema, and an object is made of it. -/
  | made {type : κ} {r : Registry κ} {schema : Schema}
      (h : Schema.ofDeclarations (declarations type) = .ok schema) :
      Moves declarations ⟨type, .missing⟩ r ⟨type, .holding ⟨r.issued, schema⟩⟩
        { r with issued := r.issued + 1 }
  /-- Another look-up was faster. -/
  | yielded {type : κ} {r : Registry κ} {object kept : Shared Schema}
      (h : SharedMap.find? r type = some kept) :
      Moves declarations ⟨type, .holding object⟩ r ⟨type, .answered (.ok kept)⟩ r
  /-- The object becomes the entry of the type. -/
  | stored {type : κ} {r : Registry κ} {object : Shared Schema}
      (h : SharedMap.find? r type = none) :
      Moves declarations ⟨type, .holding object⟩ r ⟨type, .answered (.ok object)⟩
        { r with entries := r.entries ++ [(type, object)] }
  /-- It came back to its caller before. -/
  | rested {type : κ} {r : Registry κ} {answer : Except Error (Shared Schema)} :
      Moves declarations ⟨type, .answered answer⟩ r ⟨type, .answered answer⟩ r

theorem moves_step (l : SchemaLookup κ) (r : Registry κ) :
    l.Moves declarations r (l.step declarations r).1 (l.step declarations r).2 := by
  obtain ⟨type, stage⟩ := l
  cases stage with
  | probing =>
    cases hfind : SharedMap.find? r type with
    | some object =>
      simp only [step, hfind]
      exact .found hfind
    | none =>
      simp only [step, hfind]
      exact .missed hfind
  | missing =>
    cases hschema : Schema.ofDeclarations (declarations type) with
    | error e =>
      simp only [step, hschema]
      exact .refused hschema
    | ok schema =>
      simp only [step, hschema, SharedMap.issue]
      exact .made hschema
  | holding object =>
    cases hfind : SharedMap.find? r type with
    | some kept =>
      simp only [step, SharedMap.insertIfAbsent, hfind]
      exact .yielded hfind
    | none =>
      simp only [step, SharedMap.insertIfAbsent, hfind]
      exact .stored hfind
  | answered answer => exact .rested

variable {l l' : SchemaLookup κ} {r r' : Registry κ}

/-- Entries are only added. -/
theorem Moves.entries_grow (h : l.Moves declarations r l' r') : r.entries <+: r'.entries := by
  cases h with
  | stored => exact List.prefix_append ..
  | _ => exact List.prefix_rfl

end SchemaLookup

/-! ### What a step keeps -/

namespace SchemaLookup

variable {l l' : SchemaLookup κ} {r r' : Registry κ}

/-- What a look-up holds is made of the declarations of its type, and what it answered is the entry
of its type, or the error for the declarations. -/
def Sound (declarations : κ → List Declaration) (l : SchemaLookup κ) (r : Registry κ) : Prop :=
  match l.stage with
  | .probing => True
  | .missing => True
  | .holding object => Schema.ofDeclarations (declarations l.type) = .ok object.content
  | .answered (.ok object) => SharedMap.find? r l.type = some object
  | .answered (.error e) => Schema.ofDeclarations (declarations l.type) = .error e

/-- What others do does not concern it. -/
theorem Sound.of_grown (h : l.Sound declarations r) (hentries : r.entries <+: r'.entries) :
    l.Sound declarations r' := by
  obtain ⟨type, stage⟩ := l
  cases stage with
  | probing => trivial
  | missing => trivial
  | holding object => exact h
  | answered answer =>
    cases answer with
    | ok object => exact SharedMap.find?_of_grown hentries h
    | error e => exact h

theorem Moves.sound (h : l.Moves declarations r l' r') (hl : l.Sound declarations r) :
    l'.Sound declarations r' := by
  cases h with
  | found hfind => exact hfind
  | missed => trivial
  | refused hschema => exact hschema
  | made hschema => exact hschema
  | yielded hfind => exact hfind
  | stored hfind => exact SharedMap.find?_added hfind
  | rested => exact hl

theorem Moves.faithful (h : l.Moves declarations r l' r') (hl : l.Sound declarations r)
    (hr : r.Faithful declarations) : r'.Faithful declarations := by
  cases h with
  | stored hfind => exact hr.added hfind hl
  | made => exact ⟨hr.extracted, hr.distinct⟩
  | _ => exact hr

/-- A look-up whose declarations make no schema leaves the registry as it is. -/
theorem Moves.eq_of_error (h : l.Moves declarations r l' r')
    (hl : l.Sound declarations r) {e : Error}
    (herror : Schema.ofDeclarations (declarations l.type) = .error e) : r' = r := by
  cases h with
  | made hschema => exact absurd (hschema.symm.trans herror) nofun
  | stored => exact absurd (Eq.trans (Eq.symm hl) herror) nofun
  | _ => rfl

theorem Moves.numbered {before after : List (SchemaLookup κ)} (h : l.Moves declarations r l' r')
    (hn : r.Numbered (before ++ l :: after)) : r'.Numbered (before ++ l' :: after) := by
  rw [Registry.numbered_iff] at hn ⊢
  obtain ⟨hdistinct, hissued⟩ := hn
  cases h with
  | made =>
    refine ⟨List.nodup_cons.mpr ⟨fun hmem => Nat.lt_irrefl _ (hissued _ hmem), hdistinct⟩,
      fun n hn => ?_⟩
    rcases List.mem_cons.mp hn with rfl | hold
    · exact Nat.lt_succ_self _
    · exact Nat.lt_succ_of_lt (hissued n hold)
  -- nobody keeps the object that came too late
  | yielded => exact ⟨hdistinct.of_cons, fun n hn => hissued n (List.mem_cons_of_mem _ hn)⟩
  | @stored type r object =>
    have hperm := r.serials_added type object (before ++ after)
    exact ⟨hperm.nodup_iff.mpr hdistinct, fun n hn => hissued n (hperm.mem_iff.mp hn)⟩
  | _ => exact ⟨hdistinct, hissued⟩

end SchemaLookup

/-! ### Runs -/

namespace SharedRegistry

variable {s : SharedRegistry κ} {l : SchemaLookup κ} {place : Nat}

structure Sound (declarations : κ → List Declaration) (s : SharedRegistry κ) : Prop where
  faithful : s.registry.Faithful declarations
  numbered : s.registry.Numbered s.lookups
  lookups : ∀ l ∈ s.lookups, l.Sound declarations s.registry

theorem sound_new (declarations : κ → List Declaration) : new.Sound declarations :=
  ⟨Registry.faithful_empty, Registry.numbered_empty, nofun⟩

/-- The look-up at a place takes a step and the others stay as they are. -/
theorem step_go (declarations : κ → List Declaration) (hget : s.lookups[place]? = some l) :
    ∃ l' r', l.Moves declarations s.registry l' r' ∧
      s.step declarations (.go place) = ⟨r', s.lookups.set place l'⟩ := by
  refine ⟨_, _, l.moves_step s.registry, ?_⟩
  rw [step, hget]

theorem step_go_none (hget : s.lookups[place]? = none) : s.step declarations (.go place) = s := by
  rw [step, hget]

/-- What an event leaves of a registry. -/
theorem Sound.step (h : s.Sound declarations) (event : RegistryEvent κ) :
    (s.step declarations event).Sound declarations ∧
      s.registry.entries <+: (s.step declarations event).registry.entries := by
  cases event with
  | look type =>
    refine ⟨⟨h.faithful, ?_, fun l hl => ?_⟩, List.prefix_rfl⟩
    · exact h.numbered.look type
    · rcases List.mem_append.mp hl with hold | hnew
      · exact h.lookups l hold
      · rw [List.mem_singleton.mp hnew]
        trivial
  | go place =>
    cases hget : s.lookups[place]? with
    | none =>
      rw [step_go_none hget]
      exact ⟨h, List.prefix_rfl⟩
    | some l =>
      obtain ⟨l', r', hmoves, hstep⟩ := step_go declarations hget
      have hl := h.lookups l (List.mem_of_getElem? hget)
      -- the serial numbers are told of the whole list, so it is taken apart at the look-up that
      -- moves
      have hsplit : ∃ before after, s.lookups = before ++ l :: after ∧
          s.lookups.set place l' = before ++ l' :: after := by
        obtain ⟨hlt, rfl⟩ := List.getElem?_eq_some_iff.mp hget
        obtain ⟨before, after, hbefore, -, hafter⟩ := List.exists_of_set hlt
        exact ⟨before, after, hbefore, hafter⟩
      obtain ⟨before, after, hbefore, hafter⟩ := hsplit
      rw [hstep]
      refine ⟨⟨hmoves.faithful hl h.faithful, ?_, fun other hother => ?_⟩, hmoves.entries_grow⟩
      · exact hafter ▸ hmoves.numbered (hbefore ▸ h.numbered)
      · rcases List.mem_or_eq_of_mem_set hother with hold | rfl
        · exact (h.lookups other hold).of_grown hmoves.entries_grow
        · exact hmoves.sound hl

theorem Sound.run (h : s.Sound declarations) (events : List (RegistryEvent κ)) :
    (s.run declarations events).Sound declarations ∧
      s.registry.entries <+: (s.run declarations events).registry.entries := by
  induction events generalizing s with
  | nil => exact ⟨h, List.prefix_rfl⟩
  | cons event events ih =>
    obtain ⟨hsound, hentries⟩ := h.step event
    obtain ⟨hsound', hentries'⟩ := ih hsound
    exact ⟨hsound', hentries.trans hentries'⟩

/-- A look-up that finds an object comes back with the entry of its type. -/
theorem Sound.entry (h : s.Sound declarations) {type : κ} {object : Shared Schema}
    (hget : s.lookups[place]? = some ⟨type, .answered (.ok object)⟩) :
    SharedMap.find? s.registry type = some object :=
  h.lookups _ (List.mem_of_getElem? hget)

theorem Sound.extracted (h : s.Sound declarations) {type : κ} {object : Shared Schema}
    (hfind : SharedMap.find? s.registry type = some object) :
    Schema.ofDeclarations (declarations type) = .ok object.content :=
  h.faithful.extracted _ (SharedMap.mem_of_find? hfind)

theorem Sound.answer (h : s.Sound declarations) {type : κ} {answer : Except Error (Shared Schema)}
    (hget : s.lookups[place]? = some ⟨type, .answered answer⟩) :
    answer.map Shared.content = Schema.ofDeclarations (declarations type) := by
  cases answer with
  | ok object => exact (h.extracted (h.entry hget)).symm
  | error e => exact (h.lookups _ (List.mem_of_getElem? hget)).symm

end SharedRegistry

/-! ### Turns of look-ups -/

namespace SchemaLookup

def scheme (declarations : κ → List Declaration) :
    Scheme κ (Registry κ) (Shared Schema) (Except Error (Shared Schema)) where
  probe type r := (SharedMap.find? r type).map .ok
  make type r :=
    match Schema.ofDeclarations (declarations type) with
    | .error e => (.error (.error e), r)
    | .ok schema => (.ok (r.issue schema).1, (r.issue schema).2)
  store type object r :=
    (.ok (SharedMap.insertIfAbsent r type object).1, (SharedMap.insertIfAbsent r type object).2)

theorem errand_step (l : SchemaLookup κ) (r : Registry κ) : l.errand.step (scheme declarations) r =
    ((l.step declarations r).1.errand, (l.step declarations r).2) := by
  obtain ⟨type, stage⟩ := l
  cases stage with
  | probing => cases hfind : SharedMap.find? r type <;>
      simp [step, errand, Errand.step, scheme, hfind]
  | missing =>
    cases hschema : Schema.ofDeclarations (declarations type) <;>
      simp [step, errand, Errand.step, scheme, hschema]
  | holding object => rfl
  | answered answer => rfl

/-- Serving a type at one go is a look-up in the registry alone. -/
theorem serve_eq (type : κ) (r : Registry κ) :
    (scheme declarations).serve type r = r.schemaOf type (declarations type) := by
  rw [Scheme.serve, Registry.schemaOf]
  cases hfind : SharedMap.find? r type with
  | some object => simp [scheme, hfind]
  | none => cases hschema : Schema.ofDeclarations (declarations type) <;>
      simp [scheme, hfind, hschema, Registry.store]

end SchemaLookup

namespace SharedRegistry

variable {s : SharedRegistry κ} {l : SchemaLookup κ} {place : Nat}

theorem errands_step (s : SharedRegistry κ) (event : RegistryEvent κ) :
    (s.step declarations event).errands =
      s.errands.step (SchemaLookup.scheme declarations) event.turn := by
  cases event with
  | look type =>
    simp [step, errands, RegistryEvent.turn, Errands.step, SchemaLookup.new, SchemaLookup.errand]
  | go place =>
    cases hget : s.lookups[place]? with
    | none =>
      rw [step_go_none hget, RegistryEvent.turn, Errands.step_go_none]
      simp [errands, hget]
    | some l =>
      rw [RegistryEvent.turn, Errands.step_go _ (getElem?_errands.mpr hget),
        SchemaLookup.errand_step, step, hget]
      simp [errands]

theorem errands_run (s : SharedRegistry κ) (events : List (RegistryEvent κ)) :
    (s.run declarations events).errands =
      s.errands.run (SchemaLookup.scheme declarations) (events.map RegistryEvent.turn) :=
  Errands.run_of_steps errands_step s events

/-- Three steps of its own are enough for an answer. -/
theorem run_ends {later : List (RegistryEvent κ)} (hget : s.lookups[place]? = some l)
    (hcount : 3 ≤ later.count (.go place)) :
    ∃ answer, (s.run declarations later).lookups[place]? = some ⟨l.type, .answered answer⟩ := by
  have hturns :
      later.count (.go place) ≤
        (later.map RegistryEvent.turn).count (RegistryEvent.turn (.go place)) :=
    List.count_le_count_map
  obtain ⟨answer, hanswer⟩ :=
    Errands.run_ends (SchemaLookup.scheme declarations) (getElem?_errands.mpr hget)
    (Nat.le_trans hcount hturns)
  rw [← errands_run] at hanswer
  exact ⟨answer, getElem?_errands.mp hanswer⟩

/-- An answer is final, whatever comes later. -/
theorem run_answered {type : κ} {answer : Except Error (Shared Schema)}
    (hget : s.lookups[place]? = some ⟨type, .answered answer⟩) (events : List (RegistryEvent κ)) :
    (s.run declarations events).lookups[place]? = some ⟨type, .answered answer⟩ := by
  refine getElem?_errands.mp ?_
  rw [errands_run]
  exact Errands.run_answered _ (getElem?_errands.mpr hget) _

/-- The events of a look-up that nothing comes between. -/
def alone (s : SharedRegistry κ) (type : κ) : List (RegistryEvent κ) :=
  [.look type, .go s.lookups.length, .go s.lookups.length, .go s.lookups.length]

/-- A look-up that nothing comes between is a look-up in the registry alone. -/
theorem run_alone (s : SharedRegistry κ) (type : κ) :
    s.run declarations (s.alone type) =
      ⟨(s.registry.schemaOf type (declarations type)).2,
        s.lookups ++ [⟨type, .answered (s.registry.schemaOf type (declarations type)).1⟩]⟩ := by
  refine errands_injective ?_
  have hlength : s.lookups.length = s.errands.sent.length := (List.length_map _).symm
  rw [errands_run, alone, hlength]
  refine (Errands.run_alone _ s.errands type).trans ?_
  rw [SchemaLookup.serve_eq]
  simp [errands, SchemaLookup.errand]

/-- What can be told of a registry with the look-ups that were made in it, whatever comes later. -/
structure Agreed (declarations : κ → List Declaration) (s : SharedRegistry κ) : Prop where
  /-- A look-up that nothing comes between is a look-up in the registry alone. -/
  alone : ∀ type, s.run declarations (s.alone type) =
    ⟨(s.registry.schemaOf type (declarations type)).2,
      s.lookups ++ [⟨type, .answered (s.registry.schemaOf type (declarations type)).1⟩]⟩
  /-- A look-up is answered when it has taken three steps. -/
  ends : ∀ (place : Nat) (l : SchemaLookup κ) (later : List (RegistryEvent κ)),
    s.lookups[place]? = some l →
    3 ≤ later.count (.go place) →
    ∃ answer, (s.run declarations later).lookups[place]? = some ⟨l.type, .answered answer⟩
  /-- An answer stays as it is. -/
  final : ∀ (place : Nat) (type : κ) (answer : Except Error (Shared Schema))
    (later : List (RegistryEvent κ)), s.lookups[place]? = some ⟨type, .answered answer⟩ →
    (s.run declarations later).lookups[place]? = some ⟨type, .answered answer⟩
  /-- Every answer is what the declarations of its type make. -/
  answer : ∀ (place : Nat) (type : κ) (answer : Except Error (Shared Schema)),
    s.lookups[place]? = some ⟨type, .answered answer⟩ →
    answer.map Shared.content = Schema.ofDeclarations (declarations type)
  /-- Look-ups for one type find one object. -/
  shares : ∀ (place place' : Nat) (type : κ) (object object' : Shared Schema),
    s.lookups[place]? = some ⟨type, .answered (.ok object)⟩ →
    s.lookups[place']? = some ⟨type, .answered (.ok object')⟩ → object = object'
  /-- Look-ups for different types find different objects. -/
  apart : ∀ (place place' : Nat) (type type' : κ) (object object' : Shared Schema),
    s.lookups[place]? = some ⟨type, .answered (.ok object)⟩ →
    s.lookups[place']? = some ⟨type', .answered (.ok object')⟩ →
    object.serial = object'.serial → type = type'
  /-- A look-up that finds an object comes back with the entry of its type. -/
  entry : ∀ (place : Nat) (type : κ) (object : Shared Schema),
    s.lookups[place]? = some ⟨type, .answered (.ok object)⟩ →
    SharedMap.find? s.registry type = some object
  /-- An entry is what the declarations of its type make. -/
  extracted : ∀ (type : κ) (object : Shared Schema), SharedMap.find? s.registry type = some object →
    Schema.ofDeclarations (declarations type) = .ok object.content
  /-- An entry is never replaced. -/
  stays : ∀ (type : κ) (object : Shared Schema) (later : List (RegistryEvent κ)),
    SharedMap.find? s.registry type = some object →
    SharedMap.find? (s.run declarations later).registry type = some object
  /-- No type has two entries. -/
  distinct : (s.registry.entries.map Prod.fst).Nodup
  /-- A type whose declarations make no schema has no entry. -/
  fails : ∀ (type : κ) (e : Error), Schema.ofDeclarations (declarations type) = .error e →
    SharedMap.find? s.registry type = none
  /-- A look-up whose declarations make no schema leaves the registry as it is. -/
  leaves : ∀ (place : Nat) (l : SchemaLookup κ) (e : Error), s.lookups[place]? = some l →
    Schema.ofDeclarations (declarations l.type) = .error e →
    (s.step declarations (.go place)).registry = s.registry

/-- However the steps of look-ups come after each other, all of them agree. -/
theorem run_agreed (declarations : κ → List Declaration) (events : List (RegistryEvent κ)) :
    (new.run declarations events).Agreed declarations := by
  obtain ⟨hsound, -⟩ := (sound_new declarations).run events
  generalize new.run declarations events = s at *
  exact {
    alone := run_alone s
    ends := fun place l later hget hcount => run_ends hget hcount
    final := fun place type answer later hget => run_answered hget later
    answer := fun place type answer hget => hsound.answer hget
    shares := by
      intro place place' type object object' hget hget'
      exact Option.some.inj ((hsound.entry hget).symm.trans (hsound.entry hget'))
    apart := by
      intro place place' type type' object object' hget hget' hserial
      exact hsound.numbered.type_eq (SharedMap.mem_of_find? (hsound.entry hget))
        (SharedMap.mem_of_find? (hsound.entry hget')) hserial
    entry := fun place type object hget => hsound.entry hget
    extracted := fun type object hfind => hsound.extracted hfind
    stays := fun type object later hfind => SharedMap.find?_of_grown (hsound.run later).2 hfind
    distinct := hsound.faithful.distinct
    fails := by
      intro type e herror
      cases hfind : SharedMap.find? s.registry type with
      | none => rfl
      | some object => exact absurd ((hsound.extracted hfind).symm.trans herror) nofun
    leaves := by
      intro place l e hget herror
      obtain ⟨l', r', hmoves, hstep⟩ := step_go declarations hget
      rw [hstep]
      exact hmoves.eq_of_error (hsound.lookups l (List.mem_of_getElem? hget)) herror }

open Example in
/-- Of two look-ups that both made an object, the first one comes back with the object of the second
one, which was stored before; declarations that make no schema leave no entry. -/
example :
    let s := new.run (fun valid => if valid then item.declarations else noColumns.declarations)
      [.look true, .look false, .look true, .go 0, .go 2, .go 1, .go 0, .go 2, .go 2, .go 0, .go 1]
    s.lookups[0]? = s.lookups[2]? ∧
      s.registry.entries.map (fun entry => (entry.1, entry.2.serial)) = [(true, 1)] := ⟨rfl, rfl⟩

end SharedRegistry

end TypedTables
