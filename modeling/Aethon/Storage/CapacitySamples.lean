import Aethon.Storage.CapacityForecast
import Aethon.Storage.CatalogStates

/-!
# The samples of a catalog

The totals grow in the order of a catalog, which is that of the first capture times, and the samples
are sorted by the last ones. An archive that does not end behind those in front of it puts its
larger totals before theirs: `samples_cumulative_iff` says of which catalogs the samples are
cumulative all the same.
-/

namespace Aethon.Storage

open StableSort

open scoped Words

/-! ## Totals -/

/-- The payload of an archive, by its manifest. -/
def payloadOf (manifest : ArchiveManifest) : ℕ :=
  (manifest.devices.map fun device => device.totalPayloadBytes.toNat).sum

/-- The records of all entries. -/
def catalogRecords (entries : List CatalogEntry) : ℕ :=
  (entries.map fun entry => entry.manifest.summary.recordCount.toNat).sum

/-- The bytes of all entries. -/
def catalogPayload (entries : List CatalogEntry) : ℕ :=
  (entries.map fun entry => payloadOf entry.manifest).sum

theorem catalog_records_append (front behind : List CatalogEntry) :
    catalogRecords (front ++ behind) = catalogRecords front + catalogRecords behind := by
  simp [catalogRecords]

theorem catalog_payload_append (front behind : List CatalogEntry) :
    catalogPayload (front ++ behind) = catalogPayload front + catalogPayload behind := by
  simp [catalogPayload]

/-- The bytes of a manifest are counted in 64 bits. -/
theorem toNat_manifest_payload (manifest : ArchiveManifest) :
    (manifestPayload manifest).toNat = payloadOf manifest % 2 ^ 64 := by
  have hfold : ∀ (devices : List DeviceArchiveSummary) (total : UInt64),
      (devices.foldl (fun total device => total + device.totalPayloadBytes) total).toNat =
        (total.toNat + (devices.map fun device => device.totalPayloadBytes.toNat).sum) %
          2 ^ 64 := by
    intro devices
    induction devices with
    | nil => exact fun total => (Nat.mod_eq_of_lt total.toNat_lt).symm
    | cons device devices ih =>
      intro total
      rw [List.foldl_cons, ih, UInt64.toNat_add, Nat.mod_add_mod, List.map_cons, List.sum_cons,
        Nat.add_assoc]
  rw [manifestPayload, hfold, payloadOf]
  simp

/-! ## The samples in the order of the catalog -/

@[simp] theorem length_cumulative (records payload : UInt64) (entries : List CatalogEntry) :
    (cumulativeSamples records payload entries).length = entries.length := by
  induction entries generalizing records payload with
  | nil => rfl
  | cons entry entries ih => rw [cumulativeSamples, List.length_cons, ih, List.length_cons]

/-- A sample has the totals of the archives up to its own. -/
theorem getElem_cumulative (records payload : UInt64) {entries : List CatalogEntry} {i : ℕ}
    (hi : i < entries.length) :
    ∃ sample, (cumulativeSamples records payload entries)[i]? = some sample ∧
      sample.timeNs = entries[i].manifest.summary.lastTimeNs ∧
      sample.recordCount.toNat =
        (records.toNat + catalogRecords (entries.take (i + 1))) % 2 ^ 64 ∧
      sample.payloadBytes.toNat =
        (payload.toNat + catalogPayload (entries.take (i + 1))) % 2 ^ 64 := by
  induction entries generalizing records payload i with
  | nil => exact absurd hi (Nat.not_lt_zero i)
  | cons entry entries ih =>
    rw [cumulativeSamples]
    cases i with
    | zero =>
      refine ⟨_, rfl, rfl, ?_, ?_⟩
      · simp [catalogRecords]
      · simp [catalogPayload, toNat_manifest_payload]
    | succ i =>
      obtain ⟨sample, hsample, htime, hrecords, hpayload⟩ :=
        ih (records + entry.manifest.summary.recordCount)
          (payload + manifestPayload entry.manifest) (Nat.lt_of_succ_lt_succ hi)
      refine ⟨sample, hsample, htime, ?_, ?_⟩
      · rw [hrecords, UInt64.toNat_add, Nat.mod_add_mod, List.take_succ_cons]
        simp [catalogRecords, Nat.add_assoc]
      · rw [hpayload, UInt64.toNat_add, Nat.mod_add_mod, toNat_manifest_payload,
          List.take_succ_cons]
        simp [catalogPayload, ← Nat.add_assoc, Nat.add_mod]

/-! ## Catalogs with cumulative samples -/

/-- The later sample has no smaller total. -/
def CapacitySample.Below (left right : CapacitySample) : Prop :=
  left.recordCount ≤ right.recordCount ∧ left.payloadBytes ≤ right.payloadBytes

/-- The archives behind the one place of a catalog up to the other. -/
def between (entries : List CatalogEntry) (i j : ℕ) : List CatalogEntry :=
  (entries.take (j + 1)).drop (i + 1)

/-- The records between the two places wrap the 64-bit total. -/
def Wraps (entries : List CatalogEntry) (i j : ℕ) : Prop :=
  2 ^ 64 ≤
    catalogRecords (entries.take (i + 1)) % 2 ^ 64 + catalogRecords (between entries i j) % 2 ^ 64

/-- Behind an archive up to one that does not end behind it there is no payload and there are no
records, or so many that their total wraps. Up to one that does not end before it their total does
not wrap. -/
def InPlace (entries : List CatalogEntry) : Prop :=
  ∀ i j (_ : i < j) (_ : j < entries.length),
    (entries[i].manifest.summary.lastTimeNs ≤ entries[j].manifest.summary.lastTimeNs →
      ¬Wraps entries i j) ∧
    (entries[j].manifest.summary.lastTimeNs ≤ entries[i].manifest.summary.lastTimeNs →
      catalogPayload (between entries i j) = 0 ∧
        (catalogRecords (between entries i j) % 2 ^ 64 = 0 ∨ Wraps entries i j))

section InPlace

variable {entries : List CatalogEntry} {i j : ℕ}

theorem take_between (entries : List CatalogEntry) (hij : i < j) :
    entries.take (j + 1) = entries.take (i + 1) ++ between entries i j := by
  have hfront : (entries.take (j + 1)).take (i + 1) = entries.take (i + 1) := by
    rw [List.take_take, min_eq_left (by omega)]
  rw [between, ← hfront, List.take_append_drop]

theorem catalog_records_take_le (entries : List CatalogEntry) (i : ℕ) :
    catalogRecords (entries.take i) ≤ catalogRecords entries := by
  conv_rhs => rw [← List.take_append_drop i entries, catalog_records_append]
  exact Nat.le_add_right _ _

theorem catalog_payload_take_le (entries : List CatalogEntry) (i : ℕ) :
    catalogPayload (entries.take i) ≤ catalogPayload entries := by
  conv_rhs => rw [← List.take_append_drop i entries, catalog_payload_append]
  exact Nat.le_add_right _ _

/-- With fewer than `2 ^ 64` records nothing wraps. -/
theorem in_place_iff (h : catalogRecords entries < 2 ^ 64) :
    InPlace entries ↔ ∀ i j (_ : i < j) (_ : j < entries.length),
      entries[j].manifest.summary.lastTimeNs ≤ entries[i].manifest.summary.lastTimeNs →
        catalogPayload (between entries i j) = 0 ∧ catalogRecords (between entries i j) = 0 := by
  have hfits {i j : ℕ} (hij : i < j) : catalogRecords (entries.take (i + 1)) +
      catalogRecords (between entries i j) < 2 ^ 64 := by
    rw [← catalog_records_append, ← take_between entries hij]
    exact (catalog_records_take_le entries _).trans_lt h
  have hwraps {i j : ℕ} (hij : i < j) : ¬Wraps entries i j := by
    have := hfits hij
    unfold Wraps
    omega
  refine forall₄_congr fun i j hij hj => ?_
  have := hfits hij
  constructor
  · rintro ⟨-, hbehind⟩ hle
    obtain ⟨hpayload, hrecords⟩ := hbehind hle
    exact ⟨hpayload, by have := hrecords.resolve_right (hwraps hij); omega⟩
  · refine fun hbehind => ⟨fun _ => hwraps hij, fun hle => ?_⟩
    obtain ⟨hpayload, hrecords⟩ := hbehind hle
    exact ⟨hpayload, .inl (by omega)⟩

/-- A total is at most the later one unless the words wrap. -/
theorem mod_le_mod_add_iff (a b : ℕ) :
    a % 2 ^ 64 ≤ (a + b) % 2 ^ 64 ↔ ¬2 ^ 64 ≤ a % 2 ^ 64 + b % 2 ^ 64 := by
  omega

theorem mod_add_le_mod_iff (a b : ℕ) :
    (a + b) % 2 ^ 64 ≤ a % 2 ^ 64 ↔ b % 2 ^ 64 = 0 ∨ 2 ^ 64 ≤ a % 2 ^ 64 + b % 2 ^ 64 := by
  omega

theorem le_add_mod_of_fits {a b : ℕ} (h : a + b < 2 ^ 64) :
    a % 2 ^ 64 ≤ (a + b) % 2 ^ 64 ∧ ((a + b) % 2 ^ 64 ≤ a % 2 ^ 64 ↔ b = 0) := by
  rw [Nat.mod_eq_of_lt h, Nat.mod_eq_of_lt (by omega)]
  omega

/-- Any two samples of a catalog whose payload fits are in order exactly where their archives are in
place. -/
theorem cumulative_pairwise_iff (h : catalogPayload entries < 2 ^ 64) :
    ((cumulativeSamples 0 0 entries).Pairwise fun left right =>
      (left.timeNs ≤ right.timeNs → left.Below right) ∧
        (right.timeNs ≤ left.timeNs → right.Below left)) ↔ InPlace entries := by
  rw [List.pairwise_iff_getElem]
  have hpair {i j : ℕ} (hij : i < j) (hj : j < entries.length)
      (hi' : i < (cumulativeSamples 0 0 entries).length)
      (hj' : j < (cumulativeSamples 0 0 entries).length) :
      (cumulativeSamples 0 0 entries)[i].timeNs = entries[i].manifest.summary.lastTimeNs ∧
        (cumulativeSamples 0 0 entries)[j].timeNs = entries[j].manifest.summary.lastTimeNs ∧
        ((cumulativeSamples 0 0 entries)[i].Below (cumulativeSamples 0 0 entries)[j] ↔
          ¬Wraps entries i j) ∧
        ((cumulativeSamples 0 0 entries)[j].Below (cumulativeSamples 0 0 entries)[i] ↔
          catalogPayload (between entries i j) = 0 ∧
            (catalogRecords (between entries i j) % 2 ^ 64 = 0 ∨ Wraps entries i j)) := by
    obtain ⟨left, hleft, htime, hrecords, hpayload⟩ :=
      getElem_cumulative 0 0 (hij.trans hj)
    obtain ⟨right, hright, htime', hrecords', hpayload'⟩ :=
      getElem_cumulative 0 0 hj
    obtain ⟨_, hleft⟩ := List.getElem?_eq_some_iff.mp hleft
    obtain ⟨_, hright⟩ := List.getElem?_eq_some_iff.mp hright
    have hfits : catalogPayload (entries.take (i + 1)) + catalogPayload (between entries i j) <
        2 ^ 64 := by
      rw [← catalog_payload_append, ← take_between entries hij]
      exact (catalog_payload_take_le entries _).trans_lt h
    rw [hleft, hright]
    rw [take_between entries hij, catalog_records_append] at hrecords'
    rw [take_between entries hij, catalog_payload_append] at hpayload'
    obtain ⟨hgrows, hfalls⟩ := le_add_mod_of_fits hfits
    refine ⟨htime, htime', ?_, ?_⟩
    · simp only [CapacitySample.Below, UInt64.le_iff_toNat_le, hrecords, hrecords', hpayload,
        hpayload', Wraps, UInt64.toNat_zero, Nat.zero_add]
      exact (and_iff_left hgrows).trans (mod_le_mod_add_iff _ _)
    · simp only [CapacitySample.Below, UInt64.le_iff_toNat_le, hrecords, hrecords', hpayload,
        hpayload', Wraps, UInt64.toNat_zero, Nat.zero_add]
      exact and_comm.trans (and_congr hfalls (mod_add_le_mod_iff _ _))
  constructor
  · intro hall i j hij hj
    obtain ⟨htime, htime', hbelow, habove⟩ :=
      hpair hij hj (by simpa using hij.trans hj) (by simpa using hj)
    rw [← htime, ← htime', ← hbelow, ← habove]
    exact hall i j _ _ hij
  · intro hall i j hi' hj' hij
    have hj : j < entries.length := by simpa using hj'
    obtain ⟨htime, htime', hbelow, habove⟩ := hpair hij hj hi' hj'
    rw [htime, htime', hbelow, habove]
    exact hall i j hij hj

end InPlace

/-! ## The forecast -/

/-- The current bytes are those of the last sample. -/
theorem current_payload_forecast (sort : List CapacitySample → List CapacitySample)
    (input : List CapacitySample) (options : CapacityForecastOptions) :
    (forecastCapacity sort input options).currentPayloadBytes =
      ((sort input).getLast?.map CapacitySample.payloadBytes).getD 0 := by
  unfold forecastCapacity
  cases hlast : (sort input).getLast? with
  | none =>
    rw [List.getLast?_eq_none_iff.mp hlast]
    rfl
  | some last =>
    have hne : sort input ≠ [] := List.ne_nil_of_mem (List.mem_of_getLast? hlast)
    simp only [List.head?_eq_some_head hne, hlast]
    rfl

/-- Sorted samples that are in order end with the whole payload. -/
theorem last_payload {entries : List CatalogEntry} (h : catalogPayload entries < 2 ^ 64)
    {samples : List CapacitySample} (hperm : samples.Perm (cumulativeSamples 0 0 entries))
    (hbelow : samples.Pairwise CapacitySample.Below) :
    ((samples.getLast?.map CapacitySample.payloadBytes).getD 0).toNat = catalogPayload entries := by
  rcases List.eq_nil_or_concat samples with rfl | ⟨front, last, rfl⟩
  · have hnone : entries = [] := by
      simpa using congrArg List.length hperm.nil_eq.symm
    rw [hnone]
    rfl
  · rw [List.concat_eq_append] at hperm hbelow ⊢
    rw [List.getLast?_concat]
    show last.payloadBytes.toNat = catalogPayload entries
    have hlength : 0 < entries.length := by
      rw [← length_cumulative 0 0 entries, ← hperm.length_eq, List.length_append]
      exact Nat.succ_pos _
    -- no sample has more than the whole payload
    have hle : last.payloadBytes.toNat ≤ catalogPayload entries := by
      have hmem := hperm.mem_iff.mp (List.mem_append_right front (List.mem_singleton_self last))
      obtain ⟨i, hi, hlast⟩ := List.getElem_of_mem hmem
      obtain ⟨sample, hsample, -, -, hpayload⟩ :=
        getElem_cumulative 0 0 (length_cumulative 0 0 entries ▸ hi)
      obtain ⟨_, hsample⟩ := List.getElem?_eq_some_iff.mp hsample
      rw [← hlast, hsample, hpayload, UInt64.toNat_zero, Nat.zero_add]
      exact (Nat.mod_le _ _).trans (catalog_payload_take_le entries _)
    -- the sample of the last archive has all of it
    obtain ⟨whole, hwhole, -, -, hpayload⟩ := getElem_cumulative 0 0
      (Nat.sub_one_lt_of_lt hlength)
    rw [Nat.sub_add_cancel hlength, List.take_length, UInt64.toNat_zero, Nat.zero_add,
      Nat.mod_eq_of_lt h] at hpayload
    refine hle.antisymm ?_
    rw [← hpayload, ← UInt64.le_iff_toNat_le]
    rcases List.mem_append.mp (hperm.mem_iff.mpr (List.mem_of_getElem? hwhole)) with hfront | hlast
    · exact ((List.pairwise_append.mp hbelow).2.2 whole hfront last
        (List.mem_singleton_self last)).2
    · rw [List.mem_singleton.mp hlast]

theorem before_compares : Compares CapacitySample.before CapacitySample.timeNs :=
  fun _ _ => decide_eq_true_iff

/-- Whatever the sorts do with equal times: along the samples of a catalog the times and both totals
grow, and a forecast over them starts from the payload of all archives, exactly when that payload
fits in 64 bits and the archives are in place. -/
theorem samples_cumulative_iff (catalog : ArchiveCatalog) :
    (∀ sort sort', Sorts CapacitySample.before sort → Sorts CapacitySample.before sort' →
      ((samplesFromCatalog sort catalog).Pairwise fun left right =>
        left.timeNs ≤ right.timeNs ∧ left.Below right) ∧
      ∀ options, (forecastCapacity sort' (samplesFromCatalog sort catalog)
        options).currentPayloadBytes.toNat = catalogPayload catalog.entries) ↔
    catalogPayload catalog.entries < 2 ^ 64 ∧ InPlace catalog.entries := by
  constructor
  · intro hall
    have hstable := before_compares.stable_sort_sorts
    have hfits : catalogPayload catalog.entries < 2 ^ 64 := by
      rw [← (hall _ _ hstable hstable).2 {}]
      exact UInt64.toNat_lt _
    refine ⟨hfits, (cumulative_pairwise_iff hfits).mp (before_compares.forall_sorts_iff.mp ?_)⟩
    exact fun sort hsort => (hall sort _ hsort hstable).1.imp And.right
  · rintro ⟨hfits, hplace⟩ sort sort' hsort hsort'
    have hsorted :=
      before_compares.forall_sorts_iff.mpr ((cumulative_pairwise_iff hfits).mpr hplace)
    refine ⟨((hsort.pairwise _).imp before_compares.not_less_iff.mp).and (hsorted sort hsort),
      fun options => ?_⟩
    have htwice := hsort.comp hsort'
    rw [current_payload_forecast]
    exact last_payload hfits (htwice.perm _) (hsorted _ htwice)

/-! ## An archive inside another one -/

/-- The entry of an archive of one device. -/
def deviceEntry (path : String) (firstTimeNs lastTimeNs recordCount totalPayloadBytes : UInt64) :
    CatalogEntry where
  path := ⟨path⟩
  manifest :=
    { summary := { firstTimeNs, lastTimeNs, recordCount }
      devices := [{ device := 1, recordCount, firstTimeNs, lastTimeNs, totalPayloadBytes }] }

/-- An archive of the times from 0 to 100, to which one from 10 to 50 is added. -/
def nestedCatalog : ArchiveCatalog :=
  Runs.run ArchiveCatalog.apply {}
    [.add (deviceEntry "outer" 0 100 2 10), .add (deviceEntry "inner" 10 50 1 5)]

/-- Both archives are in the catalog, by time. -/
theorem nested_entries : nestedCatalog.entries =
    [deviceEntry "outer" 0 100 2 10, deviceEntry "inner" 10 50 1 5] := by
  have hsorted : ∀ entries : List CatalogEntry,
      entries.Pairwise (fun left right => (!right.less left) = true) →
        sortEntries entries = entries := fun _ => List.mergeSort_of_pairwise
  show sortEntries ((sortEntries [deviceEntry "outer" 0 100 2 10]).filter
    (fun entry => !entry.path.same ⟨"inner"⟩) ++ [deviceEntry "inner" 10 50 1 5]) = _
  rw [hsorted [deviceEntry "outer" 0 100 2 10] (List.pairwise_singleton _ _)]
  exact hsorted [deviceEntry "outer" 0 100 2 10, deviceEntry "inner" 10 50 1 5] (by decide)

/-- The larger totals of the archive inside come before those of the other one, and the forecast
starts without the payload of the archive inside. -/
theorem nested_not_cumulative :
    let sort := stableSort CapacitySample.before
    let samples := samplesFromCatalog sort nestedCatalog
    Sorts CapacitySample.before sort ∧ samples = [⟨50, 3, 15⟩, ⟨100, 2, 10⟩] ∧
      ¬samples.Pairwise CapacitySample.Below ∧
      ∀ options, (forecastCapacity sort samples options).currentPayloadBytes = 10 ∧
        catalogPayload nestedCatalog.entries = 15 := by
  intro sort samples
  have hsorts : Sorts CapacitySample.before sort := before_compares.stable_sort_sorts
  have hcumulative : cumulativeSamples 0 0 nestedCatalog.entries =
      [⟨100, 2, 10⟩, ⟨50, 3, 15⟩] := by
    rw [nested_entries]
    rfl
  have hsamples : samples = [⟨50, 3, 15⟩, ⟨100, 2, 10⟩] := by
    show stableSort CapacitySample.before (cumulativeSamples 0 0 nestedCatalog.entries) = _
    rw [hcumulative]
    simp [stableSort, List.mergeSort, CapacitySample.before]
  refine ⟨hsorts, hsamples, ?_, fun options => ⟨?_, ?_⟩⟩
  · rw [hsamples, List.pairwise_pair]
    exact fun hbelow => absurd hbelow.1 (by decide)
  · rw [current_payload_forecast, hsamples]
    show (((stableSort CapacitySample.before [⟨50, 3, 15⟩, ⟨100, 2, 10⟩]).getLast?).map
      CapacitySample.payloadBytes).getD 0 = 10
    rw [stable_sort_of_pairwise before_compares (by decide)]
    rfl
  · rw [nested_entries]
    rfl

end Aethon.Storage
