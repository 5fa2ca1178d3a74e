import Aethon.Protocol.Types

/-!
# Compressors

The compressors of `compression/compressor.cpp`: one passes its input through, one writes a run of
equal bytes as its length and its value. `decompress_ok_iff` says what the second accepts.
-/

namespace Aethon.Compression

open Protocol

/-! ## Run-length encoding -/

namespace RleCompressor

/-- The inner loop of `RleCompressor::compress`: the run goes on while the value does, up to the
width of its counter. -/
def countRun (value run : UInt8) : Bytes → UInt8
  | [] => run
  | next :: rest => if next = value ∧ run < 255 then countRun value (run + 1) rest else run

/-- Each run of one value becomes its length and the value. -/
def compress : Bytes → Bytes
  | [] => []
  | value :: rest =>
      let run := countRun value 1 rest
      run :: value :: compress (rest.drop (run.toNat - 1))
termination_by input => input.length
decreasing_by
  rw [List.length_drop, List.length_cons]
  omega

/-- The loop of `RleCompressor::decompress`, with the output so far. -/
def expandRuns (maxOutput : Nat) (out : Bytes) : Bytes → Except Error Bytes
  | run :: value :: rest =>
      if out.length + run.toNat > maxOutput then
        .error ⟨.malformedPacket, "rle output limit exceeded"⟩
      else expandRuns maxOutput (out ++ List.replicate run.toNat value) rest
  | _ => .ok out

/-- Expand pairs of a length and a value, up to a limit. -/
def decompress (input : Bytes) (maxOutput : Nat) : Except Error Bytes :=
  if input.length % 2 ≠ 0 then .error ⟨.malformedPacket, "malformed rle stream"⟩
  else expandRuns maxOutput [] input

end RleCompressor

/-! ## The compressors of the modes -/

/-- The implementations of `Compressor`. -/
inductive Compressor where
  | null
  | rle
  deriving DecidableEq, Repr

namespace Compressor

/-- The mode that selects a compressor. -/
def mode : Compressor → CompressionMode
  | null => .none
  | rle => .rle

/-- What a compressor writes for an input. -/
def compress : Compressor → Bytes → Bytes
  | null, input => input
  | rle, input => RleCompressor.compress input

/-- The compressor that passes its input through has no use for the limit. -/
def decompress : Compressor → Bytes → Nat → Except Error Bytes
  | null, input, _ => .ok input
  | rle, input, maxOutput => RleCompressor.decompress input maxOutput

end Compressor

/-- The compressor of a mode, if the mode is known. -/
def makeCompressor (mode : CompressionMode) : Except Error Compressor :=
  if mode = .none then .ok .null
  else if mode = .rle then .ok .rle
  else .error ⟨.invalidArgument, "unsupported compression mode"⟩

/-! ## Runs -/

/-- A list of runs as bytes: each a length and a value. -/
def pairsWire (pairs : List (UInt8 × UInt8)) : Bytes :=
  pairs.flatMap fun pair => [pair.1, pair.2]

/-- The bytes that a list of runs stands for. -/
def expand (pairs : List (UInt8 × UInt8)) : Bytes :=
  pairs.flatMap fun pair => List.replicate pair.1.toNat pair.2

@[simp] theorem pairs_wire_cons (pair : UInt8 × UInt8) (pairs : List (UInt8 × UInt8)) :
    pairsWire (pair :: pairs) = pair.1 :: pair.2 :: pairsWire pairs := rfl

@[simp] theorem expand_cons (pair : UInt8 × UInt8) (pairs : List (UInt8 × UInt8)) :
    expand (pair :: pairs) = List.replicate pair.1.toNat pair.2 ++ expand pairs := rfl

@[simp] theorem length_pairs_wire (pairs : List (UInt8 × UInt8)) :
    (pairsWire pairs).length = 2 * pairs.length := by
  induction pairs with
  | nil => rfl
  | cons pair pairs ih =>
    rw [pairs_wire_cons, List.length_cons, List.length_cons, List.length_cons, ih]
    omega

/-- Bytes of an even number are runs. -/
theorem exists_pairs : ∀ {input : Bytes}, input.length % 2 = 0 → ∃ pairs, input = pairsWire pairs
  | [], _ => ⟨[], rfl⟩
  | [_], h => by cases h
  | run :: value :: rest, h => by
    have hrest : rest.length % 2 = 0 := by
      rw [List.length_cons, List.length_cons] at h
      omega
    obtain ⟨pairs, rfl⟩ := exists_pairs hrest
    exact ⟨(run, value) :: pairs, rfl⟩

/-- The limit is tested before each run, so the loop ends as if it were tested once for all. -/
theorem expand_runs_eq (maxOutput : Nat) (pairs : List (UInt8 × UInt8)) {out : Bytes}
    (hout : out.length ≤ maxOutput) :
    RleCompressor.expandRuns maxOutput out (pairsWire pairs) =
      if out.length + (expand pairs).length > maxOutput then
        .error ⟨.malformedPacket, "rle output limit exceeded"⟩
      else .ok (out ++ expand pairs) := by
  induction pairs generalizing out with
  | nil =>
    show Except.ok out = if out.length > maxOutput then _ else Except.ok (out ++ [])
    rw [if_neg (Nat.not_lt.mpr hout), List.append_nil]
  | cons pair pairs ih =>
    obtain ⟨run, value⟩ := pair
    rw [pairs_wire_cons, RleCompressor.expandRuns, expand_cons, List.length_append,
      List.length_replicate]
    by_cases hrun : out.length + run.toNat > maxOutput
    · rw [if_pos hrun, if_pos (by dsimp only; omega)]
    · rw [if_neg hrun, ih (by simpa using hrun), List.length_append, List.length_replicate,
        Nat.add_assoc, List.append_assoc]

/-- Pairs are expanded, unless they exceed the limit. -/
theorem decompress_pairs (pairs : List (UInt8 × UInt8)) (maxOutput : Nat) :
    RleCompressor.decompress (pairsWire pairs) maxOutput =
      if (expand pairs).length > maxOutput then
        .error ⟨.malformedPacket, "rle output limit exceeded"⟩
      else .ok (expand pairs) := by
  have heven : ¬(pairsWire pairs).length % 2 ≠ 0 := by
    rw [length_pairs_wire]
    omega
  rw [RleCompressor.decompress, if_neg heven, expand_runs_eq maxOutput pairs (Nat.zero_le _),
    List.length_nil, Nat.zero_add, List.nil_append]

/-- The decompressor accepts runs whose bytes are within the limit. -/
theorem decompress_ok_iff {input out : Bytes} {maxOutput : Nat} :
    RleCompressor.decompress input maxOutput = .ok out ↔
      ∃ pairs, input = pairsWire pairs ∧ out = expand pairs ∧ out.length ≤ maxOutput := by
  constructor
  · intro h
    by_cases heven : input.length % 2 = 0
    · obtain ⟨pairs, rfl⟩ := exists_pairs heven
      rw [decompress_pairs] at h
      split at h
      · cases h
      · next hlimit =>
        cases h
        exact ⟨pairs, rfl, rfl, Nat.not_lt.mp hlimit⟩
    · rw [RleCompressor.decompress, if_pos heven] at h
      cases h
  · rintro ⟨pairs, rfl, rfl, hlimit⟩
    rw [decompress_pairs, if_neg (Nat.not_lt.mpr hlimit)]

/-! ## The limit -/

/-- A compressor keeps the limit, unless it passes a longer input through. -/
theorem decompression_limit_iff (mode : CompressionMode) (input : Bytes) (maxOutput : Nat) :
    (∀ compressor out, makeCompressor mode = .ok compressor →
      compressor.decompress input maxOutput = .ok out → out.length ≤ maxOutput) ↔
      mode ≠ .none ∨ input.length ≤ maxOutput := by
  constructor
  · intro h
    by_cases hmode : mode = .none
    · exact .inr (h .null input (if_pos hmode) rfl)
    · exact .inl hmode
  · intro h compressor out hmake hout
    cases compressor with
    | rle =>
      obtain ⟨_, -, -, hlimit⟩ := decompress_ok_iff.mp hout
      exact hlimit
    | null =>
      cases hout
      rcases h with hmode | hlimit
      · unfold makeCompressor at hmake
        rw [if_neg hmode] at hmake
        split at hmake <;> cases hmake
      · exact hlimit

/-- A byte that is passed through where none is allowed. -/
theorem pass_through_exceeds_limit :
    makeCompressor .none = .ok .null ∧ Compressor.null.decompress [7] 0 = .ok [7] ∧
      ¬([7] : Bytes).length ≤ 0 :=
  ⟨rfl, rfl, by decide⟩

end Aethon.Compression
