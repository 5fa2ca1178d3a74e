import Aethon.Compression.Compressor
import Aethon.Foundation.GreedyBlocks

/-!
# Runs of a compression

The compressor divides its input greedily into blocks of equal bytes that the counter of a run can
hold. The blocks come back, and no runs for the same bytes are fewer: `rle_round_trip`.
-/

namespace Aethon.Compression

open GreedyBlocks

/-! ## Blocks -/

/-- A block that one run stands for. -/
def IsRun (block : Bytes) : Prop :=
  block.length ≤ 255 ∧ ∀ first ∈ block, ∀ second ∈ block, first = second

/-- A run ends where another byte follows or its counter is full. -/
def breaksRun (block : Bytes) (byte : UInt8) : Bool :=
  block.length ≥ 255 || block.any (· ≠ byte)

/-- A part of a run is a run. -/
theorem breaks_run_hereditary : Hereditary breaksRun IsRun where
  blocked_iff block byte _ := by
    rw [breaksRun, IsRun, Bool.or_eq_true, decide_eq_true_iff, List.any_eq_true, List.length_append,
      List.length_singleton]
    constructor
    · rintro (hfull | ⟨other, hother, hne⟩) ⟨hlength, hsame⟩
      · omega
      · exact (of_decide_eq_true hne) (hsame other (List.mem_append_left _ hother) byte
          (List.mem_append_right _ (List.mem_singleton_self byte)))
    · intro hnot
      by_contra hgoes
      rw [not_or, not_exists] at hgoes
      obtain ⟨hroom, hall⟩ := hgoes
      have hbyte : ∀ other ∈ block ++ [byte], other = byte := by
        intro other hother
        rcases List.mem_append.mp hother with hother | hother
        · by_contra hne
          exact hall other ⟨hother, decide_eq_true hne⟩
        · exact List.mem_singleton.mp hother
      exact hnot ⟨by omega, fun first hfirst second hsecond =>
        (hbyte first hfirst).trans (hbyte second hsecond).symm⟩
  front front behind h := by
    obtain ⟨hlength, hsame⟩ := h
    rw [List.length_append] at hlength
    exact ⟨by omega, fun first hfirst second hsecond =>
      hsame first (List.mem_append_left _ hfirst) second (List.mem_append_left _ hsecond)⟩
  behind front behind h := by
    obtain ⟨hlength, hsame⟩ := h
    rw [List.length_append] at hlength
    exact ⟨by omega, fun first hfirst second hsecond =>
      hsame first (List.mem_append_right _ hfirst) second (List.mem_append_right _ hsecond)⟩

/-- The blocks of an input. -/
def blocks : Bytes → List Bytes
  | [] => []
  | byte :: rest => split breaksRun [byte] rest

theorem flatten_blocks (input : Bytes) : (blocks input).flatten = input := by
  cases input with
  | nil => rfl
  | cons byte rest => exact flatten_split [byte] rest

/-- Every block is a run, and none is empty. -/
theorem blocks_are_runs (input : Bytes) : ∀ block ∈ blocks input, IsRun block ∧ block ≠ [] := by
  have hsingle (byte : UInt8) : IsRun [byte] ∧ [byte] ≠ [] :=
    ⟨⟨Nat.le_of_ble_eq_true rfl, by simp⟩, List.cons_ne_nil byte []⟩
  cases input with
  | nil => exact fun block hblock => absurd hblock List.not_mem_nil
  | cons byte rest =>
    refine forall_mem_split hsingle (fun block next hblock hnext => ⟨?_, ?_⟩) (hsingle byte)
    · have hgood := (breaks_run_hereditary.blocked_iff block next hblock.2).not.mp
        (Bool.eq_false_iff.mp hnext)
      exact not_not.mp hgood
    · exact List.append_ne_nil_of_left_ne_nil hblock.2 _

/-- The counter stops where the block ends. -/
theorem split_count_run (value : UInt8) {run : UInt8} (hrun : run ≠ 0) (rest : Bytes) :
    run.toNat ≤ (RleCompressor.countRun value run rest).toNat ∧
      split breaksRun (List.replicate run.toNat value) rest =
        List.replicate (RleCompressor.countRun value run rest).toNat value ::
          blocks (rest.drop ((RleCompressor.countRun value run rest).toNat - run.toNat)) := by
  induction rest generalizing run with
  | nil =>
    rw [List.drop_nil]
    exact ⟨Nat.le_refl _, rfl⟩
  | cons next rest ih =>
    have hpositive : run.toNat ≠ 0 := fun hzero => hrun (UInt8.toNat_inj.mp hzero)
    have hbreaks : breaksRun (List.replicate run.toNat value) next = true ↔
        ¬(next = value ∧ run < 255) := by
      have hfull : run.toNat ≥ 255 ↔ ¬run < 255 := by
        rw [UInt8.lt_iff_toNat_lt]
        exact Nat.not_lt.symm
      rw [breaksRun, Bool.or_eq_true, decide_eq_true_iff, List.length_replicate, hfull,
        List.any_replicate, if_neg hpositive, decide_eq_true_iff, not_and_or, or_comm, ne_comm]
    rw [split_cons, RleCompressor.countRun]
    by_cases hgoes : next = value ∧ run < 255
    · rw [if_pos hgoes, if_neg (fun h => hbreaks.mp h hgoes)]
      obtain ⟨rfl, hroom⟩ := hgoes
      have hnext : (run + 1).toNat = run.toNat + 1 := by
        rw [UInt8.lt_iff_toNat_lt] at hroom
        have hroom : run.toNat < 255 := hroom
        rw [UInt8.toNat_add]
        exact Nat.mod_eq_of_lt (Nat.succ_lt_succ hroom)
      have hnonzero : run + 1 ≠ 0 := by
        intro hzero
        rw [hzero] at hnext
        cases hnext
      obtain ⟨hle, hsplit⟩ := ih hnonzero
      rw [hnext] at hle hsplit
      refine ⟨by omega, ?_⟩
      rw [← List.replicate_succ', hsplit]
      obtain ⟨more, hmore⟩ := Nat.exists_eq_add_of_le hle
      rw [hmore, show run.toNat + 1 + more - run.toNat = more + 1 by omega, List.drop_succ_cons,
        Nat.add_sub_cancel_left]
    · rw [if_neg hgoes, if_pos (hbreaks.mpr hgoes), Nat.sub_self, List.drop_zero]
      exact ⟨Nat.le_refl _, rfl⟩

/-- The run that stands for a block. -/
def runOf (block : Bytes) : UInt8 × UInt8 :=
  (UInt8.ofNat block.length, block.headD 0)

/-- A run of equal bytes is a count and the byte. -/
theorem run_of_replicate (value : UInt8) {run : UInt8} (hrun : run ≠ 0) :
    runOf (List.replicate run.toNat value) = (run, value) := by
  obtain ⟨more, hmore⟩ : ∃ more, run.toNat = more + 1 :=
    Nat.exists_eq_succ_of_ne_zero fun hzero => hrun (UInt8.toNat_inj.mp hzero)
  rw [runOf, List.length_replicate, UInt8.ofNat_toNat, hmore]
  rfl

/-- A run stands for the bytes of its block. -/
theorem expand_run_of {block : Bytes} (h : IsRun block) (hnonempty : block ≠ []) :
    (runOf block).1 ≠ 0 ∧ List.replicate (runOf block).1.toNat (runOf block).2 = block := by
  obtain ⟨hlength, hsame⟩ := h
  obtain ⟨value, rest, rfl⟩ := List.exists_cons_of_ne_nil hnonempty
  have hcount : (runOf (value :: rest)).1.toNat = (value :: rest).length :=
    UInt8.toNat_ofNat_of_lt' (Nat.lt_succ_of_le hlength)
  refine ⟨fun hzero => ?_, ?_⟩
  · rw [hzero] at hcount
    cases hcount
  · rw [hcount]
    exact (List.eq_replicate_iff.mpr
      ⟨rfl, fun byte hbyte => hsame byte hbyte value List.mem_cons_self⟩).symm

/-- The compressor writes the runs of the blocks. -/
theorem compress_eq (input : Bytes) :
    RleCompressor.compress input = pairsWire ((blocks input).map runOf) := by
  induction input using RleCompressor.compress.induct with
  | case1 =>
    rw [RleCompressor.compress]
    rfl
  | case2 value rest run ih =>
    obtain ⟨hle, hsplit⟩ := split_count_run value (show (1 : UInt8) ≠ 0 by decide) rest
    have hrun : run ≠ 0 := by
      intro hzero
      have hle : 1 ≤ run.toNat := hle
      rw [hzero] at hle
      cases hle
    have hblocks : blocks (value :: rest) =
        List.replicate run.toNat value :: blocks (rest.drop (run.toNat - 1)) := hsplit
    rw [RleCompressor.compress, hblocks, List.map_cons, run_of_replicate value hrun,
      pairs_wire_cons, ← ih]

/-! ## The round trip -/

/-- Runs that are counted can be expanded again. -/
theorem expand_map_run_of {parts : List Bytes}
    (hparts : ∀ part ∈ parts, IsRun part ∧ part ≠ []) :
    expand (parts.map runOf) = parts.flatten := by
  induction parts with
  | nil => rfl
  | cons part parts ih =>
    obtain ⟨⟨hrun, hnonempty⟩, hparts⟩ := List.forall_mem_cons.mp hparts
    rw [List.map_cons, expand_cons, (expand_run_of hrun hnonempty).2, ih hparts, List.flatten_cons]

/-- Compressed bytes are runs, none of them empty, that stand for the bytes. -/
theorem compress_runs (input : Bytes) :
    ∃ pairs, RleCompressor.compress input = pairsWire pairs ∧ (∀ pair ∈ pairs, pair.1 ≠ 0) ∧
      expand pairs = input := by
  have hruns := blocks_are_runs input
  refine ⟨(blocks input).map runOf, compress_eq input, ?_, ?_⟩
  · intro pair hpair
    obtain ⟨block, hblock, rfl⟩ := List.mem_map.mp hpair
    obtain ⟨hrun, hnonempty⟩ := hruns block hblock
    exact (expand_run_of hrun hnonempty).1
  · rw [expand_map_run_of hruns, flatten_blocks]

/-- No runs for the same bytes are fewer. -/
theorem length_blocks_le (pairs : List (UInt8 × UInt8)) :
    (blocks (expand pairs)).length ≤ pairs.length := by
  have hflatten : (pairs.map fun pair => List.replicate pair.1.toNat pair.2).flatten =
      expand pairs := List.flatMap_def.symm
  have hgood : ∀ part ∈ pairs.map fun pair => List.replicate pair.1.toNat pair.2, IsRun part := by
    intro part hpart
    obtain ⟨pair, -, rfl⟩ := List.mem_map.mp hpart
    refine ⟨?_, fun first hfirst second hsecond => ?_⟩
    · rw [List.length_replicate]
      exact Nat.le_of_lt_succ pair.1.toNat_lt
    · rw [List.eq_of_mem_replicate hfirst, List.eq_of_mem_replicate hsecond]
  rcases hbytes : expand pairs with _ | ⟨byte, rest⟩
  · exact Nat.zero_le _
  · have hle := breaks_run_hereditary.length_split_le (hflatten.trans hbytes) hgood
    rwa [List.length_map] at hle

/-- What was compressed is decompressed under any limit that it keeps, and refused under any other;
and of all lists of runs that are decompressed to it, none is shorter than the compressed one, which
has no empty run. -/
theorem rle_round_trip (input : Bytes) :
    (∀ limit, (input.length ≤ limit →
        Compressor.rle.decompress (Compressor.rle.compress input) limit = .ok input) ∧
      (limit < input.length → ∃ failure,
        Compressor.rle.decompress (Compressor.rle.compress input) limit = .error failure)) ∧
    (∃ pairs, Compressor.rle.compress input = pairsWire pairs ∧ ∀ pair ∈ pairs, pair.1 ≠ 0) ∧
    ∀ pairs limit, Compressor.rle.decompress (pairsWire pairs) limit = .ok input →
      (Compressor.rle.compress input).length ≤ (pairsWire pairs).length := by
  obtain ⟨runs, hcompress, hnonempty, hexpand⟩ := compress_runs input
  have hcompressed : Compressor.rle.compress input = pairsWire runs := hcompress
  have hdecompress (limit : Nat) : Compressor.rle.decompress (Compressor.rle.compress input) limit =
      if input.length > limit then .error ⟨.malformedPacket, "rle output limit exceeded"⟩
      else .ok input := by
    rw [hcompressed, ← hexpand]
    exact decompress_pairs runs limit
  refine ⟨fun limit => ⟨fun hlimit => ?_, fun hlimit => ?_⟩, ⟨runs, hcompressed, hnonempty⟩,
    fun pairs limit hpairs => ?_⟩
  · rw [hdecompress, if_neg (Nat.not_lt.mpr hlimit)]
  · exact ⟨_, (hdecompress limit).trans (if_pos hlimit)⟩
  · obtain ⟨others, hothers, rfl, -⟩ := decompress_ok_iff.mp hpairs
    have hfewest := length_blocks_le others
    have hlength := congrArg List.length hothers
    rw [length_pairs_wire, length_pairs_wire] at hlength
    show (RleCompressor.compress _).length ≤ _
    rw [compress_eq, length_pairs_wire, length_pairs_wire, List.length_map]
    omega

end Aethon.Compression
