import Aethon.Foundation.Tiling
import Aethon.Rf.SweepPlanner

/-!
# Segments of a sweep

`segment_range` cuts a range at edges that are limited by the span and then aligned to the bins.
Where the alignment cannot wrap, the segments tile the range (`segments_tile`). Aligning goes
up, so a segment can get wider than the span; `segments_fit_iff` says when none does.
-/

namespace Aethon.Rf

open FrequencyRange Sweeping Tiling

/-! ## Edges -/

/-- The upper edge as numbers: the end of the range where the span reaches it, and otherwise the
aligned end of the span, modulo the words and not behind the end of the range. -/
theorem toNat_aligned_upper (upperHz span binWidth cursor : UInt64) :
    (alignedUpper upperHz span binWidth cursor).toNat =
      if upperHz.toNat ≤ cursor.toNat + span.toNat then upperHz.toNat
      else min (alignUp (cursor + span) binWidth).toNat upperHz.toNat := by
  have hupper := upperHz.toNat_lt
  have hsum := toNat_safe_add cursor span
  unfold alignedUpper
  dsimp only
  rw [Words.toNat_min]
  by_cases hend : upperHz.toNat ≤ cursor.toNat + span.toNat
  · have hmin : (min upperHz (safeAdd cursor span)).toNat = upperHz.toNat := by
      rw [Words.toNat_min]
      omega
    rw [if_pos hend, if_neg (by rw [UInt64.lt_iff_toNat_lt]; omega)]
    omega
  · have hexact : safeAdd cursor span = cursor + span := by
      rw [← UInt64.toNat_inj, hsum, Words.toNat_add_of_lt (by omega)]
      omega
    have hless : cursor + span < upperHz := by
      rw [UInt64.lt_iff_toNat_lt, ← hexact, hsum]
      omega
    have hmin : min upperHz (safeAdd cursor span) = cursor + span := by
      rw [← UInt64.toNat_inj, Words.toNat_min, hexact]
      exact Nat.min_eq_right (UInt64.le_iff_toNat_le.mp (UInt64.le_of_lt hless))
    rw [if_neg hend, hmin, if_pos hless]

/-- The end of the bin of a value. -/
def binEnd (bin value : Nat) : Nat :=
  value / bin * bin + bin

/-- A value inside its bin stands between the ends of it. -/
theorem bin_end_bounds {bin value : Nat} (hinside : ¬(bin = 0 ∨ bin ∣ value)) :
    binEnd bin value - bin < value ∧ value < binEnd bin value ∧ binEnd bin value ≤ value + bin := by
  obtain ⟨hbin, hdvd⟩ := not_or.mp hinside
  have hdiv := Nat.div_add_mod' value bin
  have hmod := Nat.mod_lt value (Nat.pos_of_ne_zero hbin)
  have hpos : value % bin ≠ 0 := fun hzero => hdvd (Nat.dvd_of_mod_eq_zero hzero)
  unfold binEnd
  omega

/-- Two values in one bin have the same end. -/
theorem bin_end_eq {bin value other : Nat} (hlow : value ≤ other)
    (hhigh : other < binEnd bin value) : binEnd bin other = binEnd bin value := by
  have hsame : other / bin = value / bin := by
    refine Nat.le_antisymm (Nat.le_of_lt_succ ?_) (Nat.div_le_div_right hlow)
    refine Nat.div_lt_of_lt_mul ?_
    rw [Nat.mul_succ, Nat.mul_comm]
    exact hhigh
  rw [binEnd, hsame, binEnd]

section Edges

variable {upperHz span binWidth cursor : UInt64}

theorem edge_le : (alignedUpper upperHz span binWidth cursor).toNat ≤ upperHz.toNat := by
  rw [toNat_aligned_upper]
  split
  · exact Nat.le_refl _
  · exact Nat.min_le_right _ _

theorem edge_of_end (h : upperHz.toNat ≤ cursor.toNat + span.toNat) :
    (alignedUpper upperHz span binWidth cursor).toNat = upperHz.toNat := by
  rw [toNat_aligned_upper, if_pos h]

variable (h : cursor.toNat + span.toNat < upperHz.toNat)

include h

/-- The edge behind a cursor from which the span does not reach the end. -/
theorem edge_of_short :
    (alignedUpper upperHz span binWidth cursor).toNat =
      min (if binWidth.toNat = 0 ∨ binWidth.toNat ∣ cursor.toNat + span.toNat then
          cursor.toNat + span.toNat
        else binEnd binWidth.toNat (cursor.toNat + span.toNat) % 2 ^ 64) upperHz.toNat := by
  have hupper := upperHz.toNat_lt
  have hdiv := Nat.div_add_mod' (cursor.toNat + span.toNat) binWidth.toNat
  have hstart : cursor.toNat + span.toNat - (cursor.toNat + span.toNat) % binWidth.toNat =
      (cursor.toNat + span.toNat) / binWidth.toNat * binWidth.toNat := by
    omega
  rw [toNat_aligned_upper, if_neg (Nat.not_le.mpr h), toNat_align_up,
    Words.toNat_add_of_lt (by omega), hstart]
  simp only [Nat.dvd_iff_mod_eq_zero, binEnd]

theorem edge_of_exact
    (hexact : binWidth.toNat = 0 ∨ binWidth.toNat ∣ cursor.toNat + span.toNat) :
    (alignedUpper upperHz span binWidth cursor).toNat = cursor.toNat + span.toNat := by
  rw [edge_of_short h, if_pos hexact]
  exact Nat.min_eq_left h.le

variable (hinside : ¬(binWidth.toNat = 0 ∨ binWidth.toNat ∣ cursor.toNat + span.toNat))

include hinside

/-- Aligning goes up, where it does not wrap. -/
theorem edge_of_inside
    (hfits : binEnd binWidth.toNat (cursor.toNat + span.toNat) < 2 ^ 64) :
    cursor.toNat + span.toNat < (alignedUpper upperHz span binWidth cursor).toNat := by
  rw [edge_of_short h, if_neg hinside, Nat.mod_eq_of_lt hfits]
  exact Nat.lt_min.mpr ⟨(bin_end_bounds hinside).2.1, h⟩

/-- Where it wraps, the edge is in front of the end of the span. -/
theorem edge_of_wrap
    (hwrap : 2 ^ 64 ≤ binEnd binWidth.toNat (cursor.toNat + span.toNat)) :
    (alignedUpper upperHz span binWidth cursor).toNat =
        binEnd binWidth.toNat (cursor.toNat + span.toNat) - 2 ^ 64 ∧
      (alignedUpper upperHz span binWidth cursor).toNat < cursor.toNat + span.toNat := by
  have hbin := binWidth.toNat_lt
  have hupper := upperHz.toNat_lt
  obtain ⟨-, -, hhigh⟩ := bin_end_bounds hinside
  rw [edge_of_short h, if_neg hinside]
  omega

end Edges

/-- Where the alignment cannot wrap, every round gets on. -/
theorem edge_gt {upperHz span binWidth cursor : UInt64} (hspan : 1 ≤ span)
    (hfits : upperHz.toNat + binWidth.toNat < 2 ^ 64) (hcursor : cursor < upperHz) :
    cursor.toNat < (alignedUpper upperHz span binWidth cursor).toNat := by
  have hspan : 1 ≤ span.toNat := UInt64.le_iff_toNat_le.mp hspan
  by_cases hend : upperHz.toNat ≤ cursor.toNat + span.toNat
  · rw [edge_of_end hend]
    exact UInt64.lt_iff_toNat_lt.mp hcursor
  · have hshort := Nat.not_le.mp hend
    by_cases hexact : binWidth.toNat = 0 ∨ binWidth.toNat ∣ cursor.toNat + span.toNat
    · rw [edge_of_exact hshort hexact]
      omega
    · have hbounds := bin_end_bounds hexact
      have hedge := edge_of_inside hshort hexact (by omega)
      omega

/-! ## Tiling -/

/-- The ends of a segment as numbers. -/
def SweepSegment.lower (segment : SweepSegment) : Nat :=
  segment.range.lowerHz.toNat

/-- Where a segment ends. -/
def SweepSegment.upper (segment : SweepSegment) : Nat :=
  segment.range.upperHz.toNat

section Loop

variable {segment : FrequencyRange → SweepSegment} (hsegment : ∀ part, (segment part).range = part)
  {upperHz span binWidth cursor : UInt64}

include hsegment

/-- The loop tiles what is left of the range. -/
theorem tiles_segment_loop (hspan : 1 ≤ span)
    (hfits : upperHz.toNat + binWidth.toNat < 2 ^ 64) (hcursor : cursor ≤ upperHz) :
    Tiles SweepSegment.lower SweepSegment.upper cursor.toNat upperHz.toNat
      (segmentLoop segment upperHz span binWidth cursor) := by
  fun_induction segmentLoop segment upperHz span binWidth cursor with
  | case1 cursor hmore ih =>
      have hedge := edge_gt hspan hfits hmore
      have hstuck : ¬ alignedUpper upperHz span binWidth cursor ≤ cursor :=
        UInt64.not_le.mpr (UInt64.lt_iff_toNat_lt.mpr hedge)
      rw [if_neg hstuck]
      have hrange := hsegment ⟨cursor, alignedUpper upperHz span binWidth cursor⟩
      refine Tiles.cons ?_ ?_ ?_
      · rw [SweepSegment.lower, hrange]
      · rw [SweepSegment.lower, SweepSegment.upper, hrange]
        exact hedge
      · rw [SweepSegment.upper, hrange]
        exact ih hstuck (UInt64.le_iff_toNat_le.mpr edge_le)
  | case2 cursor hend =>
      rw [UInt64.le_antisymm hcursor (UInt64.not_lt.mp hend)]
      exact Tiles.nil _

end Loop

/-- For every range whose clipped end and the bin width add up to less than `2 ^ 64`, and every span
of at least one, the loop ends and its segments tile the clipped range. -/
theorem segments_tile (span : UInt64) (range : FrequencyRange) (receiver : ReceiverProfile)
    (resolutionHz dwellUs : UInt64) (priority : SweepPriority) (intent : SweepIntent)
    (hspan : 1 ≤ span)
    (hfits : (receiverClip range receiver).upperHz.toNat +
      (binWidth receiver resolutionHz).toNat < 2 ^ 64) :
    let clipped := receiverClip range receiver
    let segments := segmentRange span range receiver resolutionHz dwellUs priority intent
    (clipped.empty = true → segments = []) ∧
    (clipped.empty = false → segments ≠ []) ∧
    (∀ segment ∈ segments, segment.range.empty = false) ∧
    segments.IsChain (fun left right => left.range.upperHz = right.range.lowerHz) ∧
    segments.Pairwise (fun left right => left.range.upperHz ≤ right.range.lowerHz) ∧
    (∀ first ∈ segments.head?, first.range.lowerHz = clipped.lowerHz) ∧
    (∀ last ∈ segments.getLast?, last.range.upperHz = clipped.upperHz) ∧
    segments.length ≤ clipped.widthHz.toNat := by
  intro clipped segments
  cases hempty : clipped.empty with
  | true =>
      have hnone : segments = [] := if_pos hempty
      rw [hnone]
      refine ⟨fun _ => rfl, fun hfalse => absurd hfalse (by decide), List.forall_mem_nil _,
        List.isChain_nil, List.Pairwise.nil, ?_, ?_, Nat.zero_le _⟩
      all_goals exact fun _ hmem => absurd hmem (Option.not_mem_none _)
  | false =>
      have hlt := not_empty_iff.mp hempty
      have htiles : Tiles SweepSegment.lower SweepSegment.upper clipped.lowerHz.toNat
          clipped.upperHz.toNat segments := by
        show Tiles _ _ _ _ (if clipped.empty then [] else segmentLoop _ _ _ _ _)
        rw [hempty, if_neg Bool.false_ne_true]
        exact tiles_segment_loop (fun _ => rfl) hspan hfits
          (UInt64.le_iff_toNat_le.mpr hlt.le)
      refine ⟨fun htrue => absurd htrue (by decide), fun _ => htiles.ne_nil hlt,
        fun segment hmem => not_empty_iff.mpr (htiles.pieces_lt segment hmem),
        htiles.isChain.imp fun _ _ heq => UInt64.toNat_inj.mp heq,
        htiles.pairwise.imp fun hle => UInt64.le_iff_toNat_le.mpr hle,
        fun first hfirst => UInt64.toNat_inj.mp (htiles.head first hfirst),
        fun last hlast => UInt64.toNat_inj.mp (htiles.getLast last hlast), ?_⟩
      rw [toNat_width_hz]
      exact length_le htiles

/-- The FM band is swept to its end. -/
theorem segments_tile_fm :
    let segments := segmentRange 16000000 ⟨87500000, 108000000⟩ {} 25000 20000 .normal .survey
    segments.getLast?.map (fun last => last.range.upperHz) = some 108000000 := by
  intro segments
  obtain ⟨-, hne, -, -, -, -, hupper, -⟩ := segments_tile 16000000 ⟨87500000, 108000000⟩ {} 25000
    20000 .normal .survey (by decide) (by decide)
  have hlast : segments.getLast? = some (segments.getLast (hne (by decide))) :=
    List.getLast?_eq_some_getLast _
  rw [hlast, Option.map_some]
  exact congrArg some (hupper _ hlast)

/-! ## Widths -/

/-- No segment is wider than the span. -/
def Fits (span : UInt64) (segments : List SweepSegment) : Prop :=
  ∀ segment ∈ segments, segment.range.widthHz ≤ span

/-- The span from the cursor ends at a bin, or aligning its end wraps. -/
def Tight (span bin cursor : Nat) : Prop :=
  (bin = 0 ∨ bin ∣ cursor + span) ∨ 2 ^ 64 ≤ binEnd bin (cursor + span)

section Widths

variable {segment : FrequencyRange → SweepSegment} (hsegment : ∀ part, (segment part).range = part)
  {upperHz span binWidth cursor : UInt64}

theorem fits_nil : Fits span [] :=
  List.forall_mem_nil _

theorem fits_loop_end (h : upperHz.toNat ≤ cursor.toNat) :
    Fits span (segmentLoop segment upperHz span binWidth cursor) := by
  rw [segmentLoop, if_neg (UInt64.not_lt.mpr (UInt64.le_iff_toNat_le.mpr h))]
  exact fits_nil

/-- The first segment is no wider than the span where that reaches the end or is tight. -/
theorem first_fits_iff :
    (alignedUpper upperHz span binWidth cursor).toNat ≤ cursor.toNat + span.toNat ↔
      (cursor.toNat + span.toNat < upperHz.toNat →
        Tight span.toNat binWidth.toNat cursor.toNat) := by
  by_cases hend : upperHz.toNat ≤ cursor.toNat + span.toNat
  · rw [edge_of_end hend]
    exact iff_of_true hend fun hshort => absurd hend (Nat.not_le.mpr hshort)
  · have hshort := Nat.not_le.mp hend
    by_cases hexact : binWidth.toNat = 0 ∨ binWidth.toNat ∣ cursor.toNat + span.toNat
    · exact iff_of_true (edge_of_exact hshort hexact).le fun _ => Or.inl hexact
    · by_cases hwrap : 2 ^ 64 ≤ binEnd binWidth.toNat (cursor.toNat + span.toNat)
      · exact iff_of_true (edge_of_wrap hshort hexact hwrap).2.le fun _ => Or.inr hwrap
      · refine iff_of_false ?_ fun htight => (htight hshort).elim hexact hwrap
        exact Nat.not_le.mpr (edge_of_inside hshort hexact (Nat.not_le.mp hwrap))

include hsegment

/-- The widths of the loop are that of its first segment and, if that gets on, those behind it. -/
theorem fits_loop_iff (hmore : cursor.toNat < upperHz.toNat) :
    Fits span (segmentLoop segment upperHz span binWidth cursor) ↔
      (alignedUpper upperHz span binWidth cursor).toNat ≤ cursor.toNat + span.toNat ∧
        (cursor.toNat < (alignedUpper upperHz span binWidth cursor).toNat →
          Fits span (segmentLoop segment upperHz span binWidth
            (alignedUpper upperHz span binWidth cursor))) := by
  rw [segmentLoop, if_pos (UInt64.lt_iff_toNat_lt.mpr hmore), Fits, List.forall_mem_cons,
    hsegment, UInt64.le_iff_toNat_le, toNat_width_hz]
  refine and_congr ⟨fun h => ?_, fun h => ?_⟩ ?_
  · dsimp only at h
    omega
  · dsimp only
    omega
  · by_cases hstuck : alignedUpper upperHz span binWidth cursor ≤ cursor
    · rw [if_pos hstuck]
      refine iff_of_true fits_nil fun hlt => ?_
      exact absurd (UInt64.le_iff_toNat_le.mp hstuck) (Nat.not_le.mpr hlt)
    · rw [if_neg hstuck]
      have hlt := UInt64.lt_iff_toNat_lt.mp (UInt64.not_le.mp hstuck)
      exact ⟨fun hrest _ => hrest, fun hrest => hrest hlt⟩

/-- Where the span reaches the end, one segment is left. -/
theorem fits_loop_last (hend : upperHz.toNat ≤ cursor.toNat + span.toNat) :
    Fits span (segmentLoop segment upperHz span binWidth cursor) := by
  by_cases hmore : cursor.toNat < upperHz.toNat
  · have hedge : (alignedUpper upperHz span binWidth cursor).toNat = upperHz.toNat :=
      edge_of_end hend
    refine (fits_loop_iff hsegment hmore).mpr ⟨hedge.trans_le hend, fun _ => ?_⟩
    exact fits_loop_end hedge.ge
  · exact fits_loop_end (Nat.not_lt.mp hmore)

/-- Behind an edge that wrapped, the loop ends or stays where it is. -/
theorem fits_loop_of_wrap (hshort : cursor.toNat + span.toNat < upperHz.toNat)
    (hinside : ¬(binWidth.toNat = 0 ∨ binWidth.toNat ∣ cursor.toNat + span.toNat))
    (hwrap : 2 ^ 64 ≤ binEnd binWidth.toNat (cursor.toNat + span.toNat)) :
    Fits span (segmentLoop segment upperHz span binWidth cursor) := by
  have hwidth := upperHz.toNat_lt
  obtain ⟨hedge, hback⟩ := edge_of_wrap hshort hinside hwrap
  refine (fits_loop_iff hsegment (by omega)).mpr ⟨hback.le, fun hlt => ?_⟩
  generalize alignedUpper upperHz span binWidth cursor = next at hedge hback hlt ⊢
  by_cases hend : upperHz.toNat ≤ next.toNat + span.toNat
  · exact fits_loop_last hsegment hend
  · -- the end of the span has moved on in the same bin, so its end wraps to the same edge
    have hshort' := Nat.not_le.mp hend
    have hsame : binEnd binWidth.toNat (next.toNat + span.toNat) =
        binEnd binWidth.toNat (cursor.toNat + span.toNat) := bin_end_eq (by omega) (by omega)
    have hinside' : ¬(binWidth.toNat = 0 ∨ binWidth.toNat ∣ next.toNat + span.toNat) := by
      rintro (hzero | hdvd)
      · exact hinside (Or.inl hzero)
      · have hstart := Nat.div_mul_cancel hdvd
        have hbounds := (bin_end_bounds hinside).1
        rw [← hsame, binEnd, hstart] at hbounds
        omega
    have hwrap' := hsame ▸ hwrap
    obtain ⟨hedge', hback'⟩ := edge_of_wrap hshort' hinside' hwrap'
    refine (fits_loop_iff hsegment (by omega)).mpr ⟨hback'.le, fun hlt' => ?_⟩
    omega

/-- From a multiple of the bin width on, spans that are multiples of it fit. -/
theorem fits_loop_of_exact
    (hexact : binWidth.toNat = 0 ∨ binWidth.toNat ∣ cursor.toNat ∧ binWidth.toNat ∣ span.toNat) :
    Fits span (segmentLoop segment upperHz span binWidth cursor) := by
  induction hrest : upperHz.toNat - cursor.toNat using Nat.strong_induction_on
    generalizing cursor with
  | _ rest ih =>
      by_cases hend : upperHz.toNat ≤ cursor.toNat + span.toNat
      · exact fits_loop_last hsegment hend
      · have hedge := edge_of_exact (Nat.not_le.mp hend)
          (hexact.imp_right fun hboth => Nat.dvd_add hboth.1 hboth.2)
        refine (fits_loop_iff hsegment (by omega)).mpr ⟨hedge.le, fun hlt => ?_⟩
        refine ih _ (by omega) ?_ rfl
        rw [hedge]
        exact hexact.imp_right fun hboth => ⟨Nat.dvd_add hboth.1 hboth.2, hboth.2⟩

/-- The span fits all along when it does so at the first edge and, from a multiple of the bin width,
at the second. -/
theorem fits_loop_iff_tight :
    Fits span (segmentLoop segment upperHz span binWidth cursor) ↔
      (cursor.toNat + span.toNat < upperHz.toNat →
        Tight span.toNat binWidth.toNat cursor.toNat) ∧
      (cursor.toNat + 2 * span.toNat < upperHz.toNat →
        binWidth.toNat ∣ cursor.toNat + span.toNat →
          Tight span.toNat binWidth.toNat (cursor.toNat + span.toNat)) := by
  by_cases hend : upperHz.toNat ≤ cursor.toNat + span.toNat
  · exact iff_of_true (fits_loop_last hsegment hend) ⟨fun _ => by omega, fun _ => by omega⟩
  have hshort := Nat.not_le.mp hend
  have hmore : cursor.toNat < upperHz.toNat := by omega
  by_cases hexact : binWidth.toNat = 0 ∨ binWidth.toNat ∣ cursor.toNat + span.toNat
  · rw [fits_loop_iff hsegment hmore, first_fits_iff]
    refine and_congr_right fun _ => ?_
    have hedge := edge_of_exact hshort hexact
    generalize alignedUpper upperHz span binWidth cursor = next at hedge ⊢
    rw [← hedge] at hexact ⊢
    constructor
    · intro hrest hlong hdvd
      by_cases hspan : span.toNat = 0
      · rw [hspan]
        exact Or.inl (Or.inr hdvd)
      · have hfits := (fits_loop_iff hsegment (by omega)).mp (hrest (by omega))
        exact first_fits_iff.mp hfits.1 (by omega)
    · intro htight _
      by_cases hend' : upperHz.toNat ≤ next.toNat + span.toNat
      · exact fits_loop_last hsegment hend'
      · have hshort' := Nat.not_le.mp hend'
        by_cases hexact' : binWidth.toNat = 0 ∨ binWidth.toNat ∣ next.toNat + span.toNat
        · refine fits_loop_of_exact hsegment (or_iff_not_imp_left.mpr fun hbin => ?_)
          have hdvd := hexact.resolve_left hbin
          exact ⟨hdvd, (Nat.dvd_add_right hdvd).mp (hexact'.resolve_left hbin)⟩
        · have hdvd := hexact.resolve_left (not_or.mp hexact').1
          have hwrap := (htight (by omega) hdvd).resolve_left hexact'
          exact fits_loop_of_wrap hsegment hshort' hexact' hwrap
  · have hdvd := (not_or.mp hexact).2
    by_cases hwrap : 2 ^ 64 ≤ binEnd binWidth.toNat (cursor.toNat + span.toNat)
    · exact iff_of_true (fits_loop_of_wrap hsegment hshort hexact hwrap)
        ⟨fun _ => Or.inr hwrap, fun _ hdvd' => absurd hdvd' hdvd⟩
    · refine iff_of_false (fun hfits => ?_) fun htight => (htight.1 hshort).elim hexact hwrap
      have hfirst := first_fits_iff.mp ((fits_loop_iff hsegment hmore).mp hfits).1
      exact (hfirst hshort).elim hexact hwrap

end Widths

/-- For every range, receiver, resolution and span: no segment is wider than the span exactly when
the span fits at the first edge in the clipped range and, if that is a multiple of the bin width, at
the second one. -/
theorem segments_fit_iff (span : UInt64) (range : FrequencyRange) (receiver : ReceiverProfile)
    (resolutionHz dwellUs : UInt64) (priority : SweepPriority) (intent : SweepIntent) :
    let lower := (receiverClip range receiver).lowerHz.toNat
    let upper := (receiverClip range receiver).upperHz.toNat
    let bin := (binWidth receiver resolutionHz).toNat
    (∀ segment ∈ segmentRange span range receiver resolutionHz dwellUs priority intent,
        segment.range.widthHz ≤ span) ↔
      (lower + span.toNat < upper → Tight span.toNat bin lower) ∧
      (lower + 2 * span.toNat < upper → bin ∣ lower + span.toNat →
        Tight span.toNat bin (lower + span.toNat)) := by
  intro lower upper bin
  unfold segmentRange
  dsimp only
  cases hempty : (receiverClip range receiver).empty with
  | true =>
      have hle : upper ≤ lower := UInt64.le_iff_toNat_le.mp (of_decide_eq_true hempty)
      rw [if_pos rfl]
      exact iff_of_true fits_nil ⟨fun _ => by omega, fun _ => by omega⟩
  | false =>
      rw [if_neg Bool.false_ne_true]
      exact fits_loop_iff_tight fun _ => rfl

/-- A range from 87.51 MHz with bins of 25 kHz and a span of 16 MHz: the first edge is aligned from
103.51 MHz to 103.525 MHz. -/
theorem segment_wider_than_span :
    ∃ segment ∈ segmentRange 16000000 ⟨87510000, 108000000⟩ {} 25000 20000 .normal .survey,
      segment.range = ⟨87510000, 103525000⟩ ∧ 16000000 < segment.range.widthHz := by
  have hloop : segmentRange 16000000 ⟨87510000, 108000000⟩ {} 25000 20000 .normal .survey =
      segmentLoop (fun part => makeSegment part 25000 20000 .normal .survey "range survey")
        108000000 16000000 25000 87510000 := rfl
  rw [hloop, segmentLoop, if_pos (by decide)]
  exact ⟨_, List.mem_cons_self, by decide, by decide⟩

end Aethon.Rf
