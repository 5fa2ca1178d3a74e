import Aethon.Storage.ArchiveRecords
import Aethon.Storage.Manifest
import Aethon.Storage.Query

/-!
# Archive catalogs

A catalog keeps one entry for each path, with the manifest of the archive, in the order of the first
capture times, after `storage/catalog.cpp`. `select` picks the archives for a query by their
manifests.
-/

namespace Aethon.Storage

open FileSystem Limits Protocol

/-- An archive and its manifest. -/
structure CatalogEntry where
  path : Path
  manifest : ArchiveManifest := {}
  deriving DecidableEq, Repr

/-- The archives of a catalog, by time. -/
structure ArchiveCatalog where
  entries : List CatalogEntry := []
  deriving DecidableEq, Repr

/-- Whether the period of an archive meets that of a query. -/
def overlapsQueryTime (manifest : ArchiveManifest) (query : ArchiveQuery) : Bool :=
  if query.startTimeNs.any (manifest.summary.lastTimeNs < ·) then false
  else if query.endTimeNs.any (manifest.summary.firstTimeNs > ·) then false
  else true

/-- Whether an archive has packets of a device. -/
def containsDevice (manifest : ArchiveManifest) (device : DeviceId) : Bool :=
  manifest.devices.any fun summary => summary.device = device

/-- Whether an archive has packets of a kind. -/
def containsKind (manifest : ArchiveManifest) (kind : PacketKind) : Bool :=
  manifest.packetKinds.any fun count => count.kind = kind

/-- The comparison of `sort_entries`. -/
def CatalogEntry.less (left right : CatalogEntry) : Bool :=
  if left.manifest.summary.firstTimeNs ≠ right.manifest.summary.firstTimeNs then
    left.manifest.summary.firstTimeNs < right.manifest.summary.firstTimeNs
  else left.path.chars < right.path.chars

/-- Sort the entries by time. -/
def sortEntries (entries : List CatalogEntry) : List CatalogEntry :=
  entries.mergeSort fun left right => !right.less left

namespace ArchiveCatalog

/-- Paths that compare equal are one archive. -/
def remove (catalog : ArchiveCatalog) (path : Path) : ArchiveCatalog :=
  { entries := catalog.entries.filter fun entry => !entry.path.same path }

/-- Put an entry in the place of the one at its path. -/
def add (catalog : ArchiveCatalog) (entry : CatalogEntry) : ArchiveCatalog :=
  { entries := sortEntries ((catalog.remove entry.path).entries ++ [entry]) }

/-- An entry of a new path that belongs at the end is put there. -/
theorem add_last {catalog : ArchiveCatalog} {entry : CatalogEntry}
    (hnew : ∀ other ∈ catalog.entries, other.path.same entry.path = false)
    (hsorted : (catalog.entries ++ [entry]).Pairwise fun left right =>
      (!right.less left) = true) : catalog.add entry = ⟨catalog.entries ++ [entry]⟩ := by
  have hkept : (catalog.remove entry.path).entries = catalog.entries :=
    List.filter_eq_self.mpr fun other hother => by rw [hnew other hother]; rfl
  rw [add, hkept, sortEntries, List.mergeSort_of_pairwise hsorted]

/-- The filters of `select` on the manifest of an archive. -/
def candidate (query : ArchiveQuery) (entry : CatalogEntry) : Bool :=
  overlapsQueryTime entry.manifest query && query.device.all (containsDevice entry.manifest ·) &&
    query.kind.all (containsKind entry.manifest ·)

/-- The limit of the query is compared with the number of archives. -/
def select (catalog : ArchiveCatalog) (query : ArchiveQuery) : List CatalogEntry :=
  collect (candidate query) query.limit.toNat catalog.entries []

end ArchiveCatalog

/-- A catalog of the archives at the paths. -/
def buildCatalog {κ : Type} (disk : Disk Path κ) (paths : List Path) :
    Except Error ArchiveCatalog :=
  paths.foldlM
    (fun catalog path => do
      let manifest ← buildArchiveManifest (disk.read path)
      pure (catalog.add { path, manifest }))
    {}

end Aethon.Storage
