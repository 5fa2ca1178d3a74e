import Aethon.Common.Text
import Aethon.Foundation.Grouping
import Aethon.Storage.CatalogStates

/-!
# Segments of time

The times are cut into segments of one width, and a plan lists for each segment the archives of a
catalog that have to do with it, after `storage/segment.cpp`. The loop over the segments of an
archive takes fuel, and a plan is made whenever the fuel is enough: `segmentation_spec`.
-/

namespace Aethon.Storage

open Grouping

/-! ## The plan -/

/-- How segments are named, and how long they are. -/
structure SegmentNaming where
  namePrefix : Text := "aethon".toList
  extension : Text := ".ath".toList
  segmentWidthNs : UInt64 := 3600000000000
  deriving DecidableEq, Repr

/-- A segment of time, both ends included. -/
structure SegmentRange where
  startTimeNs : UInt64 := 0
  endTimeNs : UInt64 := 0
  deriving DecidableEq, Repr

/-- A segment, and the archives that have records in it. -/
structure SegmentPlanEntry where
  range : SegmentRange
  path : Path
  sourceArchives : List Path := []
  deriving DecidableEq, Repr

/-- The segments of some archives. -/
structure SegmentPlan where
  entries : List SegmentPlanEntry := []
  deriving DecidableEq, Repr

/-- `std::setw(20)` with zeros. -/
def paddedTime (timeNs : UInt64) : Text :=
  (Text.decimal timeNs.toNat).leftpad 20 '0'

/-- A width of zero is one. -/
def SegmentNaming.width (naming : SegmentNaming) : UInt64 :=
  if naming.segmentWidthNs = 0 then 1 else naming.segmentWidthNs

/-- The segment that a time is in. -/
def segmentForTime (timeNs : UInt64) (naming : SegmentNaming) : SegmentRange :=
  let start := timeNs / naming.width * naming.width
  ⟨start, start + naming.width - 1⟩

/-- The path of a segment, with its ends in the name. -/
def segmentPath (directory : Path) (range : SegmentRange) (naming : SegmentNaming) : Path :=
  directory.append <| Path.ofChars <|
    naming.namePrefix ++ "-".toList ++ paddedTime range.startTimeNs ++ "-".toList
      ++ paddedTime range.endTimeNs ++ naming.extension

/-- `find_entry` by both ends, the entry that is planned where it finds none, and the source that is
put to it. -/
def bySegment (directory : Path) (naming : SegmentNaming) :
    Summary (SegmentRange × Path) SegmentPlanEntry SegmentRange where
  key visit := visit.1
  groupKey := SegmentPlanEntry.range
  fresh range := { range, path := segmentPath directory range naming }
  update entry visit := { entry with sourceArchives := entry.sourceArchives ++ [visit.2] }
  groupKey_fresh _ := rfl
  groupKey_update _ _ := rfl

section Plans

variable (directory : Path) (naming : SegmentNaming)

/-- The loop over the starts of the segments of an archive. -/
def planArchive (source : Path) (lastStart : UInt64) :
    ℕ → UInt64 → List SegmentPlanEntry → Option (List SegmentPlanEntry)
  | 0, _, _ => none
  | fuel + 1, start, entries =>
      if start ≤ lastStart then
        let range := segmentForTime start naming
        let entries := (bySegment directory naming).add (range, source) entries
        if start = lastStart then some entries
        else planArchive source lastStart fuel (start + naming.width) entries
      else some entries

/-- The body of the loop over the catalog. An archive without records has no time. -/
def planEntry (fuel : ℕ) (entries : List SegmentPlanEntry) (entry : CatalogEntry) :
    Option (List SegmentPlanEntry) :=
  if entry.manifest.summary.recordCount = 0 then some entries
  else
    let first := segmentForTime entry.manifest.summary.firstTimeNs naming
    let last := segmentForTime entry.manifest.summary.lastTimeNs naming
    planArchive directory naming entry.path last.startTimeNs fuel first.startTimeNs entries

/-- The order of the segments, by their starts. -/
def SegmentPlanEntry.startsBefore (left right : SegmentPlanEntry) : Bool :=
  left.range.startTimeNs < right.range.startTimeNs

/-- `sort` is `std::sort`, which may leave entries of one start in any order. -/
def planSegments (sort : List SegmentPlanEntry → List SegmentPlanEntry) (fuel : ℕ)
    (catalog : ArchiveCatalog) : Option SegmentPlan := do
  let entries ← catalog.entries.foldlM (planEntry directory naming fuel) []
  some ⟨sort entries⟩

end Plans

/-- How often an archive is listed as a source of a segment. -/
def SegmentPlan.timesListed (plan : SegmentPlan) (range : SegmentRange) (source : Path) : ℕ :=
  ((plan.entries.filter (·.range = range)).flatMap SegmentPlanEntry.sourceArchives).count source

end Aethon.Storage
