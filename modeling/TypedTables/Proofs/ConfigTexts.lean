import TypedTables.Proofs.ShapedTexts

/-!
# Configuration read back

Every configuration is read from the text that is written for it. Only a timeout may come back
shorter: it is written in whole milliseconds, as many as fit sixty-four bits, and a timeout that was
read is made of these already.
-/
namespace TypedTables

/-! ### Whole milliseconds -/

namespace Duration

variable {n : Nat}

/-- The part of a duration that is written. -/
def wholeMillis (d : Duration) : Duration := ofMillis d.toMillis

theorem toMillis_lt (d : Duration) : d.toMillis < 2 ^ 64 := by
  rw [toMillis]
  omega

theorem toNanos_ofMillis (hn : n < 2 ^ 64) : (ofMillis n).toNanos = n * 1000000 := by
  have hseconds : (n / 1000 + n % 1000 * 1000000 / 1000000000) % 2 ^ 64 = n / 1000 := by omega
  rw [toNanos, ofMillis, ofParts, UInt64.toNat_ofNat', hseconds]
  dsimp only
  omega

theorem toMillis_ofMillis (hn : n < 2 ^ 64) : (ofMillis n).toMillis = n := by
  rw [toMillis, toNanos_ofMillis hn]
  omega

theorem toNanos_injective {d e : Duration} (h : d.toNanos = e.toNanos) : d = e := by
  obtain ⟨s, n, hn⟩ := d
  obtain ⟨t, m, hm⟩ := e
  simp only [toNanos] at h
  obtain rfl : s = t := UInt64.toNat_inj.mp (by omega)
  obtain rfl : n = m := by omega
  rfl

/-- What is written is the whole milliseconds of the duration, at most `2 ^ 64 - 1`. -/
theorem eq_wholeMillis_iff {d e : Duration} :
    e = d.wholeMillis ↔ e.toNanos = min (d.toNanos / 1000000) (2 ^ 64 - 1) * 1000000 := by
  have hwhole : d.wholeMillis.toNanos = min (d.toNanos / 1000000) (2 ^ 64 - 1) * 1000000 :=
    toNanos_ofMillis d.toMillis_lt
  constructor
  · rintro rfl
    exact hwhole
  · exact fun h => toNanos_injective (h.trans hwhole.symm)

theorem wholeMillis_ofMillis (hn : n < 2 ^ 64) : (ofMillis n).wholeMillis = ofMillis n := by
  rw [wholeMillis, toMillis_ofMillis hn]

/-- Only whole milliseconds, as many as fit sixty-four bits. -/
def Whole (d : Duration) : Prop := d.wholeMillis = d

theorem map_wholeMillis {o : Option Duration} (h : ∀ d ∈ o, d.Whole) : o.map wholeMillis = o := by
  cases o with
  | none => rfl
  | some d => exact congrArg some (h d rfl)

end Duration

open Json

namespace Json

theorem recovers_millis (o : Option Duration) :
    Recovers readMillis (orNull millis o) (o.map Duration.wholeMillis) := by
  have h := (recovers_orNull (fun d : Duration => recovers_natural "u64" (UInt64.ofNat d.toMillis))
    (fun d => head?_natural _) o).map (Option.map Duration.ofMillis)
  rw [Option.map_map] at h
  have hchange : (Duration.ofMillis ∘ fun d : Duration => (UInt64.ofNat d.toMillis).toNat) =
      Duration.wholeMillis := by
    funext d
    rw [Function.comp_apply, UInt64.toNat_ofNat_of_lt' d.toMillis_lt, Duration.wholeMillis]
  rw [hchange] at h
  exact h

theorem yields_millis : Yields readMillis fun o => ∀ d ∈ o, d.Whole := by
  refine (yields_option (yields_natural "u64")).map fun o h => ?_
  rintro d hd
  obtain ⟨n, hn, rfl⟩ := Option.mem_map.mp hd
  exact Duration.wholeMillis_ofMillis (h n hn)

end Json

/-! ### Tables and indexes -/

theorem Direction.recovers_orNull (d : Option Direction) :
    Recovers (readOption (readWord Direction.words)) (orNull Direction.toJson d) d := by
  have hword (d : Direction) : Recovers (readWord Direction.words) d.toJson d := by
    refine recovers_word ?_
    cases d <;> rfl
  have h := Json.recovers_orNull hword (fun d => by cases d <;> decide) d
  rwa [Option.map_id'] at h

theorem TableOptions.recovers (o : TableOptions) : Recovers TableOptions.shape.read o.toJson o :=
  TableOptions.shape.recovers
    (.may (recovers_bool o.temporary)
      (.may (recovers_bool o.ifNotExists) (.may (recovers_bool o.withoutRowid)
      (.may (recovers_bool o.strict) .nil)))) nofun (by decide)

theorem IndexShape.recovers (i : IndexShape) : Recovers IndexShape.shape.read i.toJson i := by
  have hcolumns := recovers_list (List.forall₂_map_left_iff.mpr (List.forall₂_same.mpr
    fun (c : String × Option Direction) (_ : c ∈ i.columns) =>
      recovers_pair (recovers_string c.1) (Direction.recovers_orNull c.2)))
  exact IndexShape.shape.recovers
    (.must (recovers_string i.name) (.must hcolumns (.may (recovers_bool i.unique)
      (.may (recovers_bool i.ifNotExists) .nil)))) nofun (by decide)

theorem Bootstrap.recovers (b : Bootstrap) : Recovers Bootstrap.shape.read b.toJson b := by
  have hindexes := recovers_list (List.forall₂_map_left_iff.mpr (List.forall₂_same.mpr
    fun (i : IndexShape) (_ : i ∈ b.indexes) => i.recovers))
  exact Bootstrap.shape.recovers
    (.must (recovers_string b.tableName) (.may b.table.recovers (.may hindexes .nil))) nofun
      (by decide)

/-! ### Connections and pools -/

namespace ConnectOptions

/-- The options with the part of the timeout that is written. -/
def rounded (o : ConnectOptions) : ConnectOptions :=
  { o with busyTimeout := o.busyTimeout.map Duration.wholeMillis }

theorem recovers (o : ConnectOptions) : Recovers shape.read o.toJson o.rounded := by
  have hsize : Recovers (readOption (readNatural64 "u64"))
      (orNull natural o.mapSize) o.mapSize := by
    have h := recovers_orNull (recovers_natural64 "u64") head?_natural o.mapSize
    rwa [Option.map_id'] at h
  exact shape.recovers
    (.must (recovers_string o.path)
      (.may (recovers_bool o.wal) (.may (recovers_millis o.busyTimeout)
      (.may (recovers_bool o.foreignKeys) (.may (recovers_bool o.temporaryInMemory) (.may hsize
        (.may (recovers_bool o.readOnly) .nil))))))) nofun (by decide)

/-- A timeout that is read is written as it is. -/
theorem yields_whole : Yields shape.read fun o => ∀ d ∈ o.busyTimeout, d.Whole := by
  refine RecordShape.yields nofun (List.forall_iff_forall_mem.mp ⟨?_, ?_, ?_, ?_, ?_, ?_, ?_⟩)
  case refine_3 => exact RecordShape.yields_may yields_millis fun _ h _ _ => h
  case refine_1 => exact RecordShape.yields_must (yields_any _) fun _ _ _ h => h
  all_goals exact RecordShape.yields_may (yields_any _) fun _ _ _ h => h

end ConnectOptions

namespace PoolOptions

def rounded (o : PoolOptions) : PoolOptions :=
  { o with acquireTimeout := o.acquireTimeout.map Duration.wholeMillis }

theorem recovers (o : PoolOptions) : Recovers shape.read o.toJson o.rounded :=
  shape.recovers
    (.must (recovers_natural64 "usize" o.workers) (.may (recovers_string o.threadPrefix)
      (.may (recovers_millis o.acquireTimeout) .nil))) nofun (by decide)

/-- A timeout that is read is written as it is. -/
theorem yields_whole : Yields shape.read fun o => ∀ d ∈ o.acquireTimeout, d.Whole := by
  refine RecordShape.yields nofun (List.forall_iff_forall_mem.mp ⟨?_, ?_, ?_⟩)
  · exact RecordShape.yields_must (yields_any _) fun _ _ _ h => h
  · exact RecordShape.yields_may (yields_any _) fun _ _ _ h => h
  · exact RecordShape.yields_may yields_millis fun _ h _ _ => h

end PoolOptions

/-! ### Every configuration -/

/-- What is read from any text is read again from the text that is written for it. -/
def Reread {α : Type} (read : Reader α) (write : α → Tree) : Prop :=
  ∀ s a, parseAs read s = .ok a → parseAs read (write a).text = .ok a

/-- A table with its indexes, the options of a table and an index are read from their texts as they
are; a connection and a pool with the whole milliseconds of their timeouts, as many as fit
sixty-four bits. Whatever was read from a text, however it was written, comes back from its own text
as it is. -/
theorem configuration_read_back :
    (∀ b : Bootstrap, parseAs Bootstrap.shape.read b.toJson.text = .ok b) ∧
      (∀ o : TableOptions, parseAs TableOptions.shape.read o.toJson.text = .ok o) ∧
      (∀ i : IndexShape, parseAs IndexShape.shape.read i.toJson.text = .ok i) ∧
      (∀ o : ConnectOptions, parseAs ConnectOptions.shape.read o.toJson.text =
        .ok { o with busyTimeout := o.busyTimeout.map Duration.wholeMillis }) ∧
      (∀ o : PoolOptions, parseAs PoolOptions.shape.read o.toJson.text =
        .ok { o with acquireTimeout := o.acquireTimeout.map Duration.wholeMillis }) ∧
      (∀ d e : Duration, e = d.wholeMillis ↔
        e.toNanos = min (d.toNanos / 1000000) (2 ^ 64 - 1) * 1000000) ∧
      Reread Bootstrap.shape.read Bootstrap.toJson ∧
      Reread TableOptions.shape.read TableOptions.toJson ∧
      Reread IndexShape.shape.read IndexShape.toJson ∧
      Reread ConnectOptions.shape.read ConnectOptions.toJson ∧
      Reread PoolOptions.shape.read PoolOptions.toJson := by
  refine ⟨fun b => b.recovers.parseAs_text, fun o => o.recovers.parseAs_text,
    fun i => i.recovers.parseAs_text,
    fun o => o.recovers.parseAs_text, fun o => o.recovers.parseAs_text,
      fun _ _ => Duration.eq_wholeMillis_iff,
    fun _ b _ => b.recovers.parseAs_text, fun _ o _ => o.recovers.parseAs_text,
    fun _ i _ => i.recovers.parseAs_text, fun s o hread => ?_, fun s o hread => ?_⟩
  · rw [o.recovers.parseAs_text, ConnectOptions.rounded,
      Duration.map_wholeMillis (ConnectOptions.yields_whole.of_parseAs hread)]
  · rw [o.recovers.parseAs_text, PoolOptions.rounded,
      Duration.map_wholeMillis (PoolOptions.yields_whole.of_parseAs hread)]

end TypedTables
