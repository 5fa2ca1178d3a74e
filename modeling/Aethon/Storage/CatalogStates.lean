import Aethon.Foundation.Runs
import Aethon.Foundation.StableSort
import Aethon.Foundation.Words
import Aethon.Storage.Catalog
import Mathlib.Data.Char
import Mathlib.Data.List.Lex
import Mathlib.Data.List.Pairwise

/-!
# The states of a catalog

Whatever is added to a catalog and removed from it, its entries are of different paths and stand in
the order of the first capture times: `catalog_states`. A catalog that `build_catalog` makes is one
of these, and no archive in it ends before it starts: `build_catalog_reached`.
-/

namespace Aethon.Storage

open FileSystem StableSort Runs

open scoped Words

/-- The calls that change a catalog. -/
inductive CatalogOperation where
  | add (entry : CatalogEntry)
  | remove (path : Path)
  | clear

namespace ArchiveCatalog

/-- What an operation makes of a catalog. -/
def apply (catalog : ArchiveCatalog) : CatalogOperation → ArchiveCatalog
  | .add entry => catalog.add entry
  | .remove path => catalog.remove path
  | .clear => {}

/-- No two entries are of one path. -/
def Distinct (catalog : ArchiveCatalog) : Prop :=
  catalog.entries.Pairwise fun left right => left.path.same right.path = false

/-- The entries stand in the order of the first capture times. -/
def InOrder (catalog : ArchiveCatalog) : Prop :=
  catalog.entries.Pairwise fun left right =>
    left.manifest.summary.firstTimeNs ≤ right.manifest.summary.firstTimeNs

variable {catalog : ArchiveCatalog}

/-- Different entries have different paths. -/
theorem Distinct.path_ne (h : catalog.Distinct) {left right : CatalogEntry}
    (hleft : left ∈ catalog.entries) (hright : right ∈ catalog.entries) (hne : left ≠ right) :
    left.path ≠ right.path := by
  have hsymm : Std.Symm fun left right : CatalogEntry => left.path.same right.path = false :=
    ⟨fun _ _ hapart => by rwa [Path.same_comm]⟩
  have hapart := h.forall hleft hright hne
  intro hsame
  rw [hsame, Path.same_self] at hapart
  cases hapart

theorem Distinct.nodup (h : catalog.Distinct) : catalog.entries.Nodup := by
  refine h.imp fun {left right} hapart hsame => ?_
  rw [hsame, Path.same_self] at hapart
  cases hapart

theorem Distinct.remove (h : catalog.Distinct) (path : Path) : (catalog.remove path).Distinct :=
  h.filter _

/-- Adding an entry keeps the paths distinct. -/
theorem Distinct.add (h : catalog.Distinct) (entry : CatalogEntry) :
    (catalog.add entry).Distinct := by
  have hall : (catalog.remove entry.path).Distinct := h.remove entry.path
  refine ((List.mergeSort_perm _ _).pairwise_iff fun {left right} hother => ?_).mpr
    (List.pairwise_append.mpr
      ⟨hall, List.pairwise_singleton _ _, fun held hheld other hother => ?_⟩)
  · rwa [Path.same_comm]
  · rw [List.mem_singleton.mp hother]
    simpa using (List.mem_filter.mp hheld).2

/-- The comparison of `sort_entries` compares the first times and then the paths. -/
theorem less_compares : Compares CatalogEntry.less fun entry =>
    toLex (entry.manifest.summary.firstTimeNs, entry.path.chars) := by
  refine compares_lex fun left right => ?_
  unfold CatalogEntry.less Before
  split
  · next hne => simp [hne]
  · next heq =>
    rw [not_not] at heq
    simp [heq]

theorem InOrder.remove (h : catalog.InOrder) (path : Path) : (catalog.remove path).InOrder :=
  h.filter _

/-- Adding an entry puts the catalog in order. -/
theorem in_order_add (catalog : ArchiveCatalog) (entry : CatalogEntry) :
    (catalog.add entry).InOrder := by
  refine (pairwise_key less_compares _).imp fun {left right} hle => ?_
  rcases Prod.Lex.toLex_le_toLex.mp hle with hless | ⟨heq, -⟩
  · exact hless.le
  · exact heq.le

/-- After any operations the paths are distinct, and the entries in order. -/
theorem catalog_states (ops : List CatalogOperation) :
    (run apply {} ops).Distinct ∧ (run apply {} ops).InOrder := by
  have hstep : ∀ (catalog : ArchiveCatalog) op, catalog.Distinct ∧ catalog.InOrder →
      (catalog.apply op).Distinct ∧ (catalog.apply op).InOrder := by
    intro catalog op h
    cases op with
    | add entry => exact ⟨h.1.add entry, in_order_add catalog entry⟩
    | remove path => exact ⟨h.1.remove path, h.2.remove path⟩
    | clear => exact ⟨List.Pairwise.nil, List.Pairwise.nil⟩
  exact run_invariant hstep ⟨List.Pairwise.nil, List.Pairwise.nil⟩ ops

end ArchiveCatalog

/-! ## Catalogs of archives -/

/-- The last time that a manifest finds in records is never before the first one. -/
theorem manifest_times_le (header : ArchiveSummary) (records : List ArchiveRecord) :
    (manifestOf header records).summary.firstTimeNs ≤
      (manifestOf header records).summary.lastTimeNs := by
  have hscan : ∀ scan : ManifestScan, scan.firstObserved ≤ scan.lastObserved →
      (records.foldl ManifestScan.observe scan).firstObserved ≤
        (records.foldl ManifestScan.observe scan).lastObserved := by
    induction records with
    | nil => exact fun _ hle => hle
    | cons record records ih =>
      refine fun scan hle => ih _ ?_
      unfold ManifestScan.observe
      split
      · exact le_rfl
      · exact (min_le_right _ _).trans (le_max_right _ _)
  exact hscan _ le_rfl

/-- A catalog that was built is one that operations reach. -/
theorem build_catalog_reached {κ : Type} {disk : Disk Path κ} {paths : List Path}
    {catalog : ArchiveCatalog} (h : buildCatalog disk paths = .ok catalog) :
    (∃ ops, run ArchiveCatalog.apply {} ops = catalog) ∧
      ∀ entry ∈ catalog.entries,
        entry.manifest.summary.firstTimeNs ≤ entry.manifest.summary.lastTimeNs := by
  have hfold : ∀ (paths : List Path) (ops : List CatalogOperation),
      (∀ entry ∈ (run ArchiveCatalog.apply {} ops).entries,
        entry.manifest.summary.firstTimeNs ≤ entry.manifest.summary.lastTimeNs) →
      paths.foldlM (fun catalog path => do
          let manifest ← buildArchiveManifest (disk.read path)
          pure (catalog.add { path, manifest })) (run ArchiveCatalog.apply {} ops) = .ok catalog →
      (∃ ops, run ArchiveCatalog.apply {} ops = catalog) ∧
        ∀ entry ∈ catalog.entries,
          entry.manifest.summary.firstTimeNs ≤ entry.manifest.summary.lastTimeNs := by
    intro paths
    induction paths with
    | nil =>
      intro ops hall hfold
      have hsame := Except.ok.inj hfold
      exact ⟨⟨ops, hsame⟩, hsame ▸ hall⟩
    | cons path paths ih =>
      intro ops hall hfold
      rw [List.foldlM_cons] at hfold
      unfold buildArchiveManifest at hfold
      cases hread : readArchive (disk.read path) with
      | error message =>
        rw [hread] at hfold
        cases hfold
      | ok archive =>
        obtain ⟨header, records⟩ := archive
        rw [hread] at hfold
        refine ih (ops ++ [.add { path, manifest := manifestOf header records }]) ?_ ?_
        · intro entry hentry
          rw [run_concat] at hentry
          have hmem := (List.mergeSort_perm _ _).mem_iff.mp hentry
          rcases List.mem_append.mp hmem with hold | hnew
          · exact hall entry (List.mem_filter.mp hold).1
          · rw [List.mem_singleton.mp hnew]
            exact manifest_times_le header records
        · rw [run_concat]
          exact hfold
  exact hfold paths [] (fun _ hnone => absurd hnone List.not_mem_nil) h

end Aethon.Storage
