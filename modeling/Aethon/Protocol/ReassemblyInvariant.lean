import Aethon.Protocol.ReassemblyStreams

/-!
# The reassembler over whole runs

What holds of the table and of the counters after any calls of `push`, `clear` and `clear_all`. A
pending stream is well formed when its flags, its payloads and its two totals agree; one push of a
fragment keeps that of the entry of its key (`stream_push_well_formed`) and raises one of the
counters or stores the fragment (`push_account`).
-/

namespace Aethon.Protocol

/-! ## Pending streams -/

/-- The flags, the payloads and the totals of a pending stream agree, and something is missing. -/
structure PendingStream.WellFormed (limit : Nat) (pending : PendingStream) : Prop where
  nonempty : 0 < pending.fragments.length
  length_present : pending.present.length = pending.fragments.length
  received : pending.received = pending.present.count true
  incomplete : pending.received < pending.fragments.length
  total : pending.totalPayload = (pending.fragments.map List.length).sum
  total_le : pending.totalPayload ≤ limit
  absent : ∀ i : Nat, pending.present[i]? = some false → pending.fragments[i]? = some []

/-- Replacing an empty part adds the length of the new one. -/
theorem sum_length_set {parts : List Bytes} {i : Nat} (h : parts[i]? = some []) (part : Bytes) :
    ((parts.set i part).map List.length).sum = (parts.map List.length).sum + part.length := by
  induction parts generalizing i with
  | nil => exact absurd h.symm (Option.some_ne_none _)
  | cons head tail ih =>
      cases i with
      | zero =>
          obtain rfl : head = [] := Option.some.inj h
          rw [List.set_cons_zero, List.map_cons, List.map_cons, List.sum_cons, List.sum_cons,
            List.length_nil, Nat.zero_add, Nat.add_comm]
      | succ i =>
          rw [List.set_cons_succ, List.map_cons, List.map_cons, List.sum_cons, List.sum_cons,
            ih h, Nat.add_assoc]

/-- A new stream holds nothing of a fragment with valid coordinates. -/
theorem new_stream_well_formed (limit : Nat) (fragment : Packet) {info : FragmentInfo}
    (h : 0 < info.count.toNat) :
    (FragmentReassembler.newStream fragment info).WellFormed limit where
  nonempty := by
    show 0 < (List.replicate _ _).length
    rw [List.length_replicate]
    exact h
  length_present := by
    show (List.replicate _ _).length = (List.replicate _ _).length
    rw [List.length_replicate, List.length_replicate]
  received := by
    show 0 = (List.replicate _ false).count true
    rw [List.count_replicate]
    rfl
  incomplete := by
    show 0 < (List.replicate _ _).length
    rw [List.length_replicate]
    exact h
  total := by
    show 0 = ((List.replicate _ _).map _).sum
    rw [List.map_replicate, List.sum_replicate_nat]
    rfl
  total_le := Nat.zero_le limit
  absent i hi := by
    obtain ⟨hlt, -⟩ := List.getElem?_eq_some_iff.mp hi
    rw [FragmentReassembler.newStream, List.length_replicate] at hlt
    exact List.getElem?_replicate_of_lt hlt

/-- A payload stored at a free position within the limit keeps a stream well formed, unless it
completes the stream. -/
theorem PendingStream.WellFormed.put {limit : Nat} {pending : PendingStream}
    (h : pending.WellFormed limit) {i : Nat} {payload : Bytes}
    (hfree : pending.present[i]? = some false)
    (hlimit : pending.totalPayload + payload.length ≤ limit)
    (hmissing : (pending.put i payload).received ≠ (pending.put i payload).fragments.length) :
    (pending.put i payload).WellFormed limit := by
  have hlength : (pending.put i payload).fragments.length = pending.fragments.length :=
    List.length_set
  have hincomplete := h.incomplete
  refine ⟨?_, ?_, ?_, ?_, ?_, hlimit, ?_⟩
  · rw [hlength]
    exact h.nonempty
  · rw [hlength, ← h.length_present]
    exact List.length_set
  · show pending.received + 1 = (pending.present.set i true).count true
    obtain ⟨hlt, hvalue⟩ := List.getElem?_eq_some_iff.mp hfree
    rw [List.count_set hlt, hvalue, h.received]
    rfl
  · have hreceived : (pending.put i payload).received = pending.received + 1 := rfl
    omega
  · show pending.totalPayload + payload.length = ((pending.fragments.set i payload).map _).sum
    rw [sum_length_set (h.absent i hfree), h.total]
  · intro j hj
    have hset : (pending.present.set i true)[j]? = some false := hj
    rw [List.getElem?_set] at hset
    show (pending.fragments.set i payload)[j]? = some []
    by_cases hsame : i = j
    · rw [if_pos hsame] at hset
      split at hset
      · exact absurd (Option.some.inj hset).symm Bool.false_ne_true
      · exact absurd hset.symm (Option.some_ne_none _)
    · rw [if_neg hsame] at hset
      rw [List.getElem?_set_ne hsame]
      exact h.absent j hset

/-! ## One push -/

/-- Storing a fragment keeps the entry of its key well formed. -/
theorem store_entry_well_formed {limit : Nat} {pending : PendingStream}
    (h : pending.WellFormed limit) {info : FragmentInfo}
    (hsequence : info.sequence.toNat < pending.fragments.length) (payload : Bytes) :
    ∀ after ∈ (storeEntry limit pending info payload).2, after.WellFormed limit := by
  have hlt : info.sequence.toNat < pending.present.length := by
    rw [h.length_present]
    exact hsequence
  unfold storeEntry
  rw [List.getD_eq_getElem?_getD, List.getElem?_eq_getElem hlt, Option.getD_some]
  dsimp only
  split_ifs with hpresent hover hmissing
  · exact fun after hafter => Option.some.inj hafter ▸ h
  · exact fun after hafter => absurd hafter.symm (Option.some_ne_none _)
  · have hfree : pending.present[info.sequence.toNat]? = some false := by
      rw [List.getElem?_eq_getElem hlt, Bool.eq_false_iff.mpr hpresent]
    exact fun after hafter =>
      Option.some.inj hafter ▸ h.put hfree (Nat.le_of_not_gt hover) hmissing
  · exact fun after hafter => absurd hafter.symm (Option.some_ne_none _)

/-- A push of a fragment keeps the entry of its key well formed. -/
theorem stream_push_well_formed {limit : Nat} {entry : Option PendingStream}
    (h : ∀ pending ∈ entry, pending.WellFormed limit) (fragment : Packet) (info : FragmentInfo) :
    ∀ after ∈ (streamPush limit entry fragment info).2, after.WellFormed limit := by
  unfold streamPush
  split_ifs with hcoords
  · exact h
  obtain ⟨hcount, hsequence⟩ := not_or.mp hcoords
  have hlt : info.sequence.toNat < info.count.toNat :=
    UInt16.lt_iff_toNat_lt.mp (UInt16.not_le.mp hsequence)
  cases entry with
  | none =>
      refine store_entry_well_formed (new_stream_well_formed limit fragment (by omega)) ?_ _
      rw [FragmentReassembler.newStream, List.length_replicate]
      exact hlt
  | some pending =>
      dsimp only
      split_ifs with hchanged
      · exact h
      · exact store_entry_well_formed (h pending rfl) (not_not.mp hchanged ▸ hlt) _

/-- A stream that held `before` fragments is complete or holds more. -/
def storedBy (before : Nat) (outcome : PushResult × Option PendingStream) : Bool :=
  match outcome.1 with
  | .ok (some _) => true
  | _ => before < (outcome.2.map PendingStream.received).getD 0

namespace FragmentReassembler

/-- The push completes the stream of its fragment or leaves it with more fragments than it held. -/
def stores (r : FragmentReassembler) (packet : Packet) : Bool :=
  match packet.fragment with
  | none => false
  | some info =>
      let key : ReassemblyKey := ⟨packet.device, info.streamId⟩
      storedBy ((r.pending[key]?.map PendingStream.received).getD 0)
        ((r.push packet).1, (r.push packet).2.pending[key]?)

theorem storedBy_unchanged (entry : Option PendingStream) (failure : Error) :
    storedBy ((entry.map PendingStream.received).getD 0) (.error failure, entry) = false :=
  decide_eq_false (Nat.lt_irrefl _)

theorem storedBy_dropped (before : Nat) (failure : Error) :
    storedBy before (.error failure, none) = false :=
  decide_eq_false (Nat.not_lt_zero before)

/-- One more rejected fragment. -/
theorem rejected_account (stats : ReassemblyStats) :
    stats.rejectedFragments + 1 + stats.duplicateFragments + false.toNat =
      stats.rejectedFragments + stats.duplicateFragments + 1 :=
  Nat.add_right_comm stats.rejectedFragments 1 stats.duplicateFragments

/-- Storing a fragment counts it as a duplicate or as rejected, or stores it. -/
theorem store_account (r : FragmentReassembler) (key : ReassemblyKey) (pending : PendingStream)
    (info : FragmentInfo) (payload : Bytes) :
    let after := (r.store key pending info payload).2.stats
    after.fragmentsSeen = r.stats.fragmentsSeen ∧
      after.rejectedFragments + after.duplicateFragments +
          (storedBy pending.received (storeEntry r.maxPayloadBytes pending info payload)).toNat =
        r.stats.rejectedFragments + r.stats.duplicateFragments + 1 := by
  unfold store storeEntry
  dsimp only
  split_ifs
  · refine ⟨rfl, ?_⟩
    rw [show storedBy pending.received (.ok none, some pending) = false from
      decide_eq_false (Nat.lt_irrefl _)]
    rfl
  · refine ⟨rfl, ?_⟩
    rw [storedBy_dropped]
    exact rejected_account r.stats
  · refine ⟨rfl, ?_⟩
    rw [show storedBy pending.received (.ok none, some (pending.put _ payload)) = true from
      decide_eq_true (Nat.lt_succ_self _)]
    rfl
  · exact ⟨rfl, rfl⟩

/-- Whether a push stores its fragment, on the entry of its key. -/
theorem stores_fragment (r : FragmentReassembler) {fragment : Packet} {info : FragmentInfo}
    (h : fragment.fragment = some info) :
    let entry := r.pending[(⟨fragment.device, info.streamId⟩ : ReassemblyKey)]?
    r.stores fragment = storedBy ((entry.map PendingStream.received).getD 0)
      (streamPush r.maxPayloadBytes entry fragment info) := by
  obtain ⟨hresult, -, hlookup⟩ := r.push_fragment h
  unfold stores
  rw [h]
  dsimp only
  rw [hresult, hlookup, if_pos rfl]

/-- A push is seen, and it is passed through, rejected, a duplicate or stored. -/
theorem push_account (r : FragmentReassembler) (packet : Packet) :
    let after := (r.push packet).2.stats
    after.fragmentsSeen = r.stats.fragmentsSeen + 1 ∧
      packet.fragment.isNone.toNat + after.rejectedFragments + after.duplicateFragments +
          (r.stores packet).toNat =
        r.stats.rejectedFragments + r.stats.duplicateFragments + 1 := by
  cases hinfo : packet.fragment with
  | none =>
      have hstores : r.stores packet = false := by
        unfold stores
        rw [hinfo]
      rw [hstores, push]
      dsimp only
      rw [hinfo]
      refine ⟨rfl, ?_⟩
      show 1 + r.stats.rejectedFragments + r.stats.duplicateFragments + 0 = _
      omega
  | some info =>
      rw [r.stores_fragment hinfo]
      simp only [push, hinfo, streamPush, Option.isNone_some, Bool.toNat_false, Nat.zero_add]
      split_ifs with hcoords
      · rw [storedBy_unchanged]
        exact ⟨rfl, rejected_account r.stats⟩
      · cases hentry : r.pending[(⟨packet.device, info.streamId⟩ : ReassemblyKey)]? with
        | none => exact store_account { r with
            pending := r.pending.insert ⟨packet.device, info.streamId⟩ (newStream packet info)
            stats.fragmentsSeen := r.stats.fragmentsSeen + 1 } _ _ info packet.payload
        | some pending =>
            dsimp only
            split_ifs with hchanged
            · rw [storedBy_unchanged]
              exact ⟨rfl, rejected_account r.stats⟩
            · exact store_account { r with
                stats.fragmentsSeen := r.stats.fragmentsSeen + 1 } _ _ info packet.payload

end FragmentReassembler

/-! ## Whole runs -/

/-- The calls of a reassembler. -/
inductive ReassemblyCall where
  | push (packet : Packet)
  | clear (device : DeviceId) (streamId : UInt32)
  | clearAll

/-- A reassembler with the number of packets that it passed through and of fragments that it
stored. -/
structure ReassemblyHistory where
  reassembler : FragmentReassembler
  passedThrough : Nat := 0
  stored : Nat := 0

namespace ReassemblyHistory

/-- What a call adds to the history. -/
def step (history : ReassemblyHistory) : ReassemblyCall → ReassemblyHistory
  | .push packet => {
      reassembler := (history.reassembler.push packet).2
      passedThrough := history.passedThrough + packet.fragment.isNone.toNat
      stored := history.stored + (history.reassembler.stores packet).toNat }
  | .clear device streamId =>
      { history with reassembler := history.reassembler.clear device streamId }
  | .clearAll => { history with reassembler := history.reassembler.clearAll }

/-- A new reassembler after the calls. -/
def after (maxPayloadBytes : Nat) (calls : List ReassemblyCall) : ReassemblyHistory :=
  Runs.run step ⟨{ maxPayloadBytes }, 0, 0⟩ calls

/-- Every pending stream is well formed, and every packet seen is accounted for. -/
structure Sound (limit : Nat) (history : ReassemblyHistory) : Prop where
  limited : history.reassembler.maxPayloadBytes = limit
  streams : ∀ key : ReassemblyKey, ∀ pending ∈ history.reassembler.pending[key]?,
    pending.WellFormed limit
  account : history.reassembler.stats.fragmentsSeen =
    history.passedThrough + history.reassembler.stats.rejectedFragments +
      history.reassembler.stats.duplicateFragments + history.stored

/-- A push keeps the history sound. -/
theorem sound_push {limit : Nat} {history : ReassemblyHistory} (h : history.Sound limit)
    (packet : Packet) : (history.step (.push packet)).Sound limit := by
  obtain ⟨hseen, haccount⟩ := history.reassembler.push_account packet
  have hbefore := h.account
  have hlimited : (history.reassembler.push packet).2.maxPayloadBytes = limit ∧
      ∀ key : ReassemblyKey, ∀ pending ∈ (history.reassembler.push packet).2.pending[key]?,
        pending.WellFormed limit := by
    cases hinfo : packet.fragment with
    | none =>
        obtain ⟨-, hpending, hsame⟩ := history.reassembler.push_whole hinfo
        rw [hpending]
        exact ⟨hsame.trans h.limited, h.streams⟩
    | some info =>
        obtain ⟨-, hsame, hlookup⟩ := history.reassembler.push_fragment hinfo
        refine ⟨hsame.trans h.limited, fun key => ?_⟩
        rw [hlookup, h.limited]
        split_ifs
        · exact stream_push_well_formed (h.streams _) packet info
        · exact h.streams key
  refine ⟨hlimited.1, hlimited.2, ?_⟩
  show (history.reassembler.push packet).2.stats.fragmentsSeen =
    history.passedThrough + packet.fragment.isNone.toNat +
        (history.reassembler.push packet).2.stats.rejectedFragments +
      (history.reassembler.push packet).2.stats.duplicateFragments +
        (history.stored + (history.reassembler.stores packet).toNat)
  omega

/-- A call keeps the history sound. -/
theorem sound_step {limit : Nat} (history : ReassemblyHistory) (call : ReassemblyCall)
    (h : history.Sound limit) : (history.step call).Sound limit := by
  cases call with
  | push packet => exact sound_push h packet
  | clear device streamId =>
      refine ⟨h.limited, fun key pending hpending => ?_, h.account⟩
      have hlookup : (history.reassembler.pending.erase ⟨device, streamId⟩)[key]? = some pending :=
        hpending
      rw [OrderedMap.getElem?_erase] at hlookup
      split at hlookup
      · exact absurd hlookup.symm (Option.some_ne_none _)
      · exact h.streams key pending hlookup
  | clearAll =>
      refine ⟨h.limited, fun key pending hpending => ?_, h.account⟩
      have hlookup : (∅ : Std.ExtTreeMap ReassemblyKey PendingStream)[key]? = some pending :=
        hpending
      rw [Std.ExtTreeMap.getElem?_empty] at hlookup
      exact absurd hlookup.symm (Option.some_ne_none _)

/-- After any calls the history is sound. -/
theorem sound_after (limit : Nat) (calls : List ReassemblyCall) :
    (after limit calls).Sound limit := by
  have hstart : Sound limit ⟨{ maxPayloadBytes := limit }, 0, 0⟩ := by
    refine ⟨rfl, fun key pending hpending => ?_, rfl⟩
    have hlookup : (∅ : Std.ExtTreeMap ReassemblyKey PendingStream)[key]? = some pending := hpending
    rw [Std.ExtTreeMap.getElem?_empty] at hlookup
    exact absurd hlookup.symm (Option.some_ne_none _)
  exact Runs.run_invariant sound_step hstart calls

end ReassemblyHistory

/-- The reassembler after any calls: every pending stream is well formed, every packet seen was
passed through, rejected, a duplicate or stored, and a push moves the entry of its own stream
alone, whether it returns or throws. -/
theorem reassembler_runs (maxPayloadBytes : Nat) (calls : List ReassemblyCall) :
    let history := ReassemblyHistory.after maxPayloadBytes calls
    let stats := history.reassembler.currentStats
    (∀ key : ReassemblyKey, ∀ pending ∈ history.reassembler.pending[key]?,
      pending.WellFormed maxPayloadBytes) ∧
    stats.fragmentsSeen = history.passedThrough + stats.rejectedFragments +
      stats.duplicateFragments + history.stored ∧
    ∀ (packet : Packet) (key : ReassemblyKey),
      (∀ info ∈ packet.fragment, (⟨packet.device, info.streamId⟩ : ReassemblyKey) ≠ key) →
      (history.reassembler.push packet).2.pending[key]? = history.reassembler.pending[key]? := by
  intro history stats
  have hsound := ReassemblyHistory.sound_after maxPayloadBytes calls
  refine ⟨hsound.streams, hsound.account, fun packet key hother => ?_⟩
  exact (history.reassembler.push_other hother).1

end Aethon.Protocol
