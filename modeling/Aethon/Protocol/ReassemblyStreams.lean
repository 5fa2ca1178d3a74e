import Mathlib.Algebra.GroupWithZero.Nat
import Mathlib.Data.List.Perm.Subperm
import Aethon.Foundation.OrderedMap
import Aethon.Foundation.Runs
import Aethon.Protocol.Reassembler

/-!
# One stream of the reassembler

The table of pending streams is one automaton for each key: a push of a fragment moves the entry of
its key by `streamPush` and no other one (`push_fragment`). For the fragments of one message this
automaton is the machine `Message.accept` over the fragments accepted so far
(`push_part`), whatever other traffic is pushed in between (`trace_own`).
-/

namespace Aethon.Protocol

open Runs

/-- What a push returns or throws. -/
abbrev PushResult := Except Error (Option Packet)

/-! ## The automaton of a key -/

/-- `store` for one entry, with `none` for no entry. -/
def storeEntry (limit : Nat) (pending : PendingStream) (info : FragmentInfo) (payload : Bytes) :
    PushResult × Option PendingStream :=
  if pending.present.getD info.sequence.toNat false then (.ok none, some pending)
  else if pending.totalPayload + payload.length > limit then
    (.error ⟨.malformedPacket, "reassembled payload exceeds configured limit"⟩, none)
  else
    let pending := pending.put info.sequence.toNat payload
    if pending.received ≠ pending.fragments.length then (.ok none, some pending)
    else (.ok (some pending.assemble), none)

/-- `push` of a fragment for the entry of its key. -/
def streamPush (limit : Nat) (entry : Option PendingStream) (fragment : Packet)
    (info : FragmentInfo) : PushResult × Option PendingStream :=
  if info.count = 0 ∨ info.sequence ≥ info.count then
    (.error ⟨.malformedPacket, "invalid fragment coordinates"⟩, entry)
  else match entry with
    | none => storeEntry limit (FragmentReassembler.newStream fragment info) info fragment.payload
    | some pending =>
        if pending.fragments.length ≠ info.count.toNat then
          (.error ⟨.malformedPacket, "fragment count changed within stream"⟩, entry)
        else storeEntry limit pending info fragment.payload

namespace FragmentReassembler

/-- Storing a fragment moves the entry of its key only. -/
theorem store_entry {r : FragmentReassembler} {key : ReassemblyKey} {pending : PendingStream}
    (hentry : r.pending[key]? = some pending) (info : FragmentInfo) (payload : Bytes) :
    (r.store key pending info payload).1 =
        (storeEntry r.maxPayloadBytes pending info payload).1 ∧
      (r.store key pending info payload).2.maxPayloadBytes = r.maxPayloadBytes ∧
      ∀ other, (r.store key pending info payload).2.pending[other]? =
        if other = key then (storeEntry r.maxPayloadBytes pending info payload).2
        else r.pending[other]? := by
  unfold store storeEntry
  dsimp only
  split_ifs
  · refine ⟨rfl, rfl, fun other => ?_⟩
    by_cases hsame : other = key
    · rw [if_pos hsame, hsame]
      exact hentry
    · rw [if_neg hsame]
  · exact ⟨rfl, rfl, fun other => OrderedMap.getElem?_erase r.pending key other⟩
  · exact ⟨rfl, rfl, fun other => OrderedMap.getElem?_insert r.pending key other _⟩
  · exact ⟨rfl, rfl, fun other => OrderedMap.getElem?_erase r.pending key other⟩

/-- An unfragmented packet is returned as it is. -/
theorem push_whole (r : FragmentReassembler) {packet : Packet} (h : packet.fragment = none) :
    (r.push packet).1 = .ok (some packet) ∧ (r.push packet).2.pending = r.pending ∧
      (r.push packet).2.maxPayloadBytes = r.maxPayloadBytes := by
  simp only [push, h, and_self]

/-- A push of a fragment moves the entry of its key by `streamPush` and no other entry. -/
theorem push_fragment (r : FragmentReassembler) {fragment : Packet} {info : FragmentInfo}
    (h : fragment.fragment = some info) :
    let key : ReassemblyKey := ⟨fragment.device, info.streamId⟩
    let outcome := streamPush r.maxPayloadBytes r.pending[key]? fragment info
    (r.push fragment).1 = outcome.1 ∧
      (r.push fragment).2.maxPayloadBytes = r.maxPayloadBytes ∧
      ∀ other, (r.push fragment).2.pending[other]? =
        if other = key then outcome.2 else r.pending[other]? := by
  intro key outcome
  have hunchanged : ∀ other, r.pending[other]? =
      if other = key then r.pending[key]? else r.pending[other]? := by
    intro other
    split
    · rename_i hsame
      rw [hsame]
    · rfl
  simp only [push, h, outcome, streamPush]
  split_ifs with hcoords
  · exact ⟨rfl, rfl, hunchanged⟩
  · cases hentry : r.pending[key]? with
    | none =>
        -- the new entry is in the table before the fragment is stored
        have hnew : (r.pending.insert key (newStream fragment info))[key]? =
            some (newStream fragment info) := Std.ExtTreeMap.getElem?_insert_self
        obtain ⟨hresult, hlimit, hlookup⟩ := store_entry (r := { r with
          pending := r.pending.insert key (newStream fragment info)
          stats.fragmentsSeen := r.stats.fragmentsSeen + 1 }) hnew info fragment.payload
        refine ⟨hresult, hlimit, fun other => (hlookup other).trans ?_⟩
        by_cases hsame : other = key
        · rw [if_pos hsame, if_pos hsame]
        · rw [if_neg hsame, if_neg hsame]
          exact (OrderedMap.getElem?_insert ..).trans (if_neg hsame)
    | some pending =>
        dsimp only
        split_ifs with hcount
        · refine ⟨rfl, rfl, fun other => ?_⟩
          rw [← hentry]
          exact hunchanged other
        · exact store_entry (r := { r with
            stats.fragmentsSeen := r.stats.fragmentsSeen + 1 }) hentry info fragment.payload

/-- A push leaves the entries of other keys alone. -/
theorem push_other (r : FragmentReassembler) {packet : Packet} {key : ReassemblyKey}
    (h : ∀ info ∈ packet.fragment, (⟨packet.device, info.streamId⟩ : ReassemblyKey) ≠ key) :
    (r.push packet).2.pending[key]? = r.pending[key]? ∧
      (r.push packet).2.maxPayloadBytes = r.maxPayloadBytes := by
  cases hinfo : packet.fragment with
  | none =>
      obtain ⟨-, hpending, hlimit⟩ := r.push_whole hinfo
      exact ⟨by rw [hpending], hlimit⟩
  | some info =>
      obtain ⟨-, hlimit, hlookup⟩ := r.push_fragment hinfo
      exact ⟨(hlookup key).trans (if_neg (h info hinfo).symm), hlimit⟩

end FragmentReassembler

/-! ## Messages -/

/-- A message split into the fragments of one stream: the fragment at each position carries the
position and the common count. -/
structure Message where
  device : DeviceId
  streamId : UInt32
  count : UInt16
  parts : List Packet
  length_parts : parts.length = count.toNat
  part_device : ∀ part ∈ parts, part.device = device
  part_fragment : ∀ (i : Nat) (part : Packet), parts[i]? = some part →
    part.fragment = some ⟨streamId, UInt16.ofNat i, count⟩

/-- The payload bytes of some packets. -/
def payloadTotal (packets : List Packet) : Nat :=
  (packets.map fun packet => packet.payload.length).sum

namespace Message

variable (m : Message)

/-- The key of the stream of a message. -/
def key : ReassemblyKey := ⟨m.device, m.streamId⟩

/-- A packet that is no fragment of the stream of the message. -/
def Foreign (packet : Packet) : Prop :=
  ∀ info ∈ packet.fragment, (⟨packet.device, info.streamId⟩ : ReassemblyKey) ≠ m.key

/-- The packet that the message is assembled to, if `first` is its first fragment to arrive. -/
def assembled (first : Packet) : Packet :=
  { first with payload := (m.parts.map Packet.payload).flatten, fragment := none }

/-- The purpose of a stream: collect the fragments in their order of arrival, ignore those it holds,
and give the message when all are there. Above the limit everything collected is dropped. -/
def accept (limit : Nat) (accepted : List Packet) (part : Packet) : PushResult × List Packet :=
  if part ∈ accepted then (.ok none, accepted)
  else if payloadTotal accepted + part.payload.length > limit then
    (.error ⟨.malformedPacket, "reassembled payload exceeds configured limit"⟩, [])
  else if accepted.length + 1 = m.parts.length then
    (.ok (some (m.assembled (accepted.headD part))), [])
  else (.ok none, accepted ++ [part])

/-- The pending stream that holds these fragments, the first of which was `first`. -/
def pendingOf (first : Packet) (accepted : List Packet) : PendingStream where
  firstPacket := { first with payload := [], fragment := none }
  fragments := m.parts.map fun part => if part ∈ accepted then part.payload else []
  present := m.parts.map fun part => decide (part ∈ accepted)
  received := accepted.length
  totalPayload := payloadTotal accepted

/-- The entry of a stream that has accepted these fragments. -/
def entry (accepted : List Packet) : Option PendingStream :=
  accepted.head?.map fun first => m.pendingOf first accepted

/-- Fragments of the message, each at most once. -/
structure Accepted (accepted : List Packet) : Prop where
  nodup : accepted.Nodup
  subset : accepted ⊆ m.parts

variable {m}

/-! ## The automaton of a message -/

/-- A fragment of the message is at the position it carries. -/
theorem exists_position {part : Packet} (h : part ∈ m.parts) {info : FragmentInfo}
    (hinfo : part.fragment = some info) :
    m.parts[info.sequence.toNat]? = some part ∧ info.streamId = m.streamId ∧
      info.count = m.count ∧ info.sequence.toNat < m.count.toNat := by
  obtain ⟨i, hi⟩ := List.mem_iff_getElem?.mp h
  have hlt : i < m.count.toNat := by
    rw [← m.length_parts]
    exact (List.getElem?_eq_some_iff.mp hi).1
  have hcoords := Option.some.inj (hinfo.symm.trans (m.part_fragment i part hi))
  have hwidth := m.count.toNat_lt
  have hsequence : (UInt16.ofNat i).toNat = i := Nat.mod_eq_of_lt (by omega)
  rw [hcoords]
  exact ⟨by rw [hsequence]; exact hi, rfl, rfl, by rw [hsequence]; exact hlt⟩

/-- Two fragments of the message at one position are the same. -/
theorem part_inj {i j : Nat} {part : Packet} (hi : m.parts[i]? = some part)
    (hj : m.parts[j]? = some part) : i = j := by
  have hilt := (List.getElem?_eq_some_iff.mp hi).1
  have hjlt := (List.getElem?_eq_some_iff.mp hj).1
  have hwidth := m.count.toNat_lt
  have hcoords := (m.part_fragment i part hi).symm.trans (m.part_fragment j part hj)
  have hsequence : UInt16.ofNat i = UInt16.ofNat j :=
    congrArg FragmentInfo.sequence (Option.some.inj hcoords)
  rw [m.length_parts] at hilt hjlt
  calc i = (UInt16.ofNat i).toNat := (Nat.mod_eq_of_lt (by omega)).symm
    _ = (UInt16.ofNat j).toNat := congrArg UInt16.toNat hsequence
    _ = j := Nat.mod_eq_of_lt (by omega)

/-- Setting one position of a mapped list is mapping with a function that differs there only. -/
theorem set_map {β : Type} {f g : Packet → β} {parts : List Packet} {i : Nat}
    {part : Packet} (hi : parts[i]? = some part)
    (hothers : ∀ j other, parts[j]? = some other → j ≠ i → g other = f other) :
    (parts.map f).set i (g part) = parts.map g := by
  refine List.ext_getElem? fun j => ?_
  rw [List.getElem?_set, List.getElem?_map, List.length_map]
  by_cases hsame : i = j
  · subst hsame
    have hlt := (List.getElem?_eq_some_iff.mp hi).1
    rw [if_pos rfl, if_pos hlt, List.getElem?_map, hi]
    rfl
  · rw [if_neg hsame, List.getElem?_map]
    cases hj : parts[j]? with
    | none => rfl
    | some other => exact congrArg some (hothers j other hj fun h => hsame h.symm).symm

/-- Storing a fragment at its position is holding one more fragment. -/
theorem pendingOf_append_singleton {first part : Packet} {accepted : List Packet} {i : Nat}
    (hi : m.parts[i]? = some part) :
    (m.pendingOf first accepted).put i part.payload = m.pendingOf first (accepted ++ [part]) := by
  have hmem : part ∈ accepted ++ [part] := List.mem_append_right _ (List.mem_singleton_self _)
  have hothers : ∀ j other, m.parts[j]? = some other → j ≠ i →
      (other ∈ accepted ++ [part] ↔ other ∈ accepted) := by
    intro j other hj hne
    rw [List.mem_append, List.mem_singleton]
    refine or_iff_left fun hsame => hne ?_
    subst hsame
    exact part_inj hj hi
  have hfragments := set_map (f := fun p => if p ∈ accepted then p.payload else [])
    (g := fun p => if p ∈ accepted ++ [part] then p.payload else []) hi
    fun j other hj hne => by simp only [hothers j other hj hne]
  have hpresent := set_map (f := fun p => decide (p ∈ accepted))
    (g := fun p => decide (p ∈ accepted ++ [part])) hi
    fun j other hj hne => by simp only [hothers j other hj hne]
  simp only [hmem, if_true, decide_true] at hfragments hpresent
  simp only [PendingStream.put, pendingOf, hfragments, hpresent, payloadTotal, List.map_append,
    List.sum_append_nat, List.length_append, List.length_singleton, List.map_singleton,
    List.sum_singleton]

/-- A new stream holds nothing yet. -/
theorem newStream_eq {part : Packet} {info : FragmentInfo} (hcount : info.count = m.count) :
    FragmentReassembler.newStream part info = m.pendingOf part [] := by
  have hlength : info.count.toNat = m.parts.length := by rw [hcount, m.length_parts]
  simp only [FragmentReassembler.newStream, pendingOf, hlength, List.not_mem_nil, if_false,
    decide_false, List.map_const']
  rfl

/-- When as many different fragments are held as the message has, all are held. -/
theorem Accepted.mem_of_length {accepted : List Packet} (h : m.Accepted accepted)
    (hlength : accepted.length = m.parts.length) {part : Packet} (hpart : part ∈ m.parts) :
    part ∈ accepted := by
  have hsubperm := h.nodup.subperm h.subset
  have hperm := hsubperm.perm_of_length_le (Nat.le_of_eq hlength.symm)
  exact hperm.mem_iff.mpr hpart

/-- A new part keeps the parts accepted. -/
theorem Accepted.append_singleton {accepted : List Packet} (h : m.Accepted accepted)
    {part : Packet} (hpart : part ∈ m.parts) (hnew : part ∉ accepted) :
    m.Accepted (accepted ++ [part]) := by
  refine ⟨?_, ?_⟩
  · rw [List.nodup_append]
    refine ⟨h.nodup, List.pairwise_singleton _ part, fun first hfirst second hsecond => ?_⟩
    rw [List.mem_singleton.mp hsecond]
    exact fun hsame => hnew (hsame ▸ hfirst)
  · intro other hother
    rcases List.mem_append.mp hother with hold | hlast
    · exact h.subset hold
    · rw [List.mem_singleton.mp hlast]
      exact hpart

/-- The machine keeps holding different fragments of the message. -/
theorem Accepted.accept {accepted : List Packet} (h : m.Accepted accepted) (limit : Nat)
    {part : Packet} (hpart : part ∈ m.parts) : m.Accepted (m.accept limit accepted part).2 := by
  have hnil : m.Accepted [] := ⟨List.nodup_nil, List.nil_subset _⟩
  unfold Message.accept
  split_ifs with hheld
  · exact h
  · exact hnil
  · exact hnil
  · exact h.append_singleton hpart hheld

/-- With every fragment held, the payloads are put together in their order. -/
theorem assemble_pendingOf {first : Packet} {accepted : List Packet}
    (h : ∀ part ∈ m.parts, part ∈ accepted) :
    (m.pendingOf first accepted).assemble = m.assembled first := by
  have hmap : (m.parts.map fun part => if part ∈ accepted then part.payload else []) =
      m.parts.map Packet.payload :=
    List.map_congr_left fun part hpart => if_pos (h part hpart)
  simp only [PendingStream.assemble, assembled, pendingOf, hmap]

/-- Storing a fragment of the message in its entry is accepting it. -/
theorem storeEntry_part (limit : Nat) {accepted : List Packet} (h : m.Accepted accepted)
    {part : Packet} (hpart : part ∈ m.parts) {info : FragmentInfo}
    (hinfo : part.fragment = some info) :
    storeEntry limit (m.pendingOf (accepted.headD part) accepted) info part.payload =
      ((m.accept limit accepted part).1, m.entry (m.accept limit accepted part).2) := by
  obtain ⟨hi, -, -, -⟩ := exists_position hpart hinfo
  have hpresent : (m.pendingOf (accepted.headD part) accepted).present.getD info.sequence.toNat
      false = decide (part ∈ accepted) := by
    rw [List.getD_eq_getElem?_getD, pendingOf, List.getElem?_map, hi]
    rfl
  have hentry : ∀ {held : List Packet}, held ≠ [] →
      m.entry held = some (m.pendingOf (held.headD part) held) := by
    intro held hheld
    cases held with
    | nil => exact absurd rfl hheld
    | cons first rest => rfl
  unfold storeEntry Message.accept
  rw [hpresent]
  simp only [decide_eq_true_eq]
  by_cases hheld : part ∈ accepted
  · rw [if_pos hheld, if_pos hheld, hentry (List.ne_nil_of_mem hheld)]
  rw [if_neg hheld, if_neg hheld]
  -- the cases of the source, in its order: held, above the limit, incomplete, complete
  by_cases hlimit : payloadTotal accepted + part.payload.length > limit
  · rw [if_pos hlimit]
    exact if_pos hlimit
  rw [if_neg hlimit]
  refine (if_neg hlimit).trans ?_
  simp only [pendingOf_append_singleton hi]
  have hfragments : (m.pendingOf (accepted.headD part) (accepted ++ [part])).fragments.length =
      m.parts.length := List.length_map _
  have hreceived : (m.pendingOf (accepted.headD part) (accepted ++ [part])).received =
      accepted.length + 1 := List.length_append
  rw [hfragments, hreceived]
  by_cases hall : accepted.length + 1 = m.parts.length
  · rw [if_neg (not_not.mpr hall), if_pos hall, assemble_pendingOf]
    · rfl
    · intro other hother
      exact (h.append_singleton hpart hheld).mem_of_length (hreceived.trans hall) hother
  · rw [if_pos hall, if_neg hall, hentry (List.append_ne_nil_of_right_ne_nil _ (by simp))]
    cases accepted <;> rfl

/-- A push of a fragment of the message stores it in its entry. -/
theorem streamPush_part (limit : Nat) (accepted : List Packet) {part : Packet}
    (hpart : part ∈ m.parts) {info : FragmentInfo} (hinfo : part.fragment = some info) :
    streamPush limit (m.entry accepted) part info =
      storeEntry limit (m.pendingOf (accepted.headD part) accepted) info part.payload := by
  obtain ⟨-, -, hcount, hlt⟩ := exists_position hpart hinfo
  have hcoords : ¬ (info.count = 0 ∨ info.sequence ≥ info.count) := by
    rw [hcount]
    intro h
    rcases h with hzero | hge
    · rw [hzero] at hlt
      exact absurd hlt (Nat.not_lt_zero _)
    · exact absurd hlt (Nat.not_lt.mpr (UInt16.le_iff_toNat_le.mp hge))
  unfold streamPush
  rw [if_neg hcoords]
  cases accepted with
  | nil =>
      show storeEntry limit (FragmentReassembler.newStream part info) info part.payload = _
      rw [newStream_eq hcount]
      rfl
  | cons first rest =>
      have hlength : (m.pendingOf first (first :: rest)).fragments.length = info.count.toNat := by
        rw [hcount, ← m.length_parts]
        exact List.length_map _
      exact if_neg (not_not.mpr hlength)

/-- A packet of another stream is no fragment of the message. -/
theorem Foreign.not_mem {packet : Packet} (h : m.Foreign packet) : packet ∉ m.parts := by
  intro hpart
  obtain ⟨i, hi⟩ := List.mem_iff_getElem?.mp hpart
  refine h _ (m.part_fragment i packet hi) ?_
  rw [m.part_device packet hpart]
  rfl

/-! ## The reassembler follows the machine of a message -/

variable (m) in
/-- The entry of the message in the table is the one of these accepted fragments. -/
structure Tracks (r : FragmentReassembler) (accepted : List Packet) : Prop where
  distinct : m.Accepted accepted
  entry : r.pending[m.key]? = m.entry accepted

/-- A table without an entry for the message has accepted nothing of it. -/
theorem tracks_nil {r : FragmentReassembler} (h : r.pending[m.key]? = none) : m.Tracks r [] :=
  ⟨⟨List.nodup_nil, List.nil_subset _⟩, h⟩

/-- A push of a fragment of the message is a step of its machine. -/
theorem Tracks.push_part {r : FragmentReassembler} {accepted : List Packet}
    (h : m.Tracks r accepted) {part : Packet} (hpart : part ∈ m.parts) :
    (r.push part).1 = (m.accept r.maxPayloadBytes accepted part).1 ∧
      m.Tracks (r.push part).2 (m.accept r.maxPayloadBytes accepted part).2 ∧
      (r.push part).2.maxPayloadBytes = r.maxPayloadBytes := by
  obtain ⟨i, hi⟩ := List.mem_iff_getElem?.mp hpart
  have hinfo := m.part_fragment i part hi
  have hkey : (⟨part.device, m.streamId⟩ : ReassemblyKey) = m.key := by
    rw [m.part_device part hpart]
    rfl
  obtain ⟨hresult, hlimit, hlookup⟩ := r.push_fragment hinfo
  rw [hkey, h.entry, streamPush_part _ _ hpart hinfo, storeEntry_part _ h.distinct hpart hinfo]
    at hresult hlookup
  exact ⟨hresult, ⟨h.distinct.accept _ hpart, (hlookup m.key).trans (if_pos rfl)⟩, hlimit⟩

/-- A push of anything else leaves the machine of the message alone. -/
theorem Tracks.push_foreign {r : FragmentReassembler} {accepted : List Packet}
    (h : m.Tracks r accepted) {packet : Packet} (hforeign : m.Foreign packet) :
    m.Tracks (r.push packet).2 accepted ∧
      (r.push packet).2.maxPayloadBytes = r.maxPayloadBytes := by
  obtain ⟨hentry, hlimit⟩ := r.push_other hforeign
  exact ⟨⟨h.distinct, hentry.trans h.entry⟩, hlimit⟩

end Message

/-! ## Runs -/

namespace FragmentReassembler

/-- The pushed packets with what each push returned or threw. -/
def trace : FragmentReassembler → List Packet → List (Packet × PushResult)
  | _, [] => []
  | r, packet :: packets => (packet, (r.push packet).1) :: trace (r.push packet).2 packets

/-- The reassembler after the pushes. -/
def after (r : FragmentReassembler) (packets : List Packet) : FragmentReassembler :=
  run (fun r packet => (r.push packet).2) r packets

end FragmentReassembler

namespace Message

variable (m : Message)

/-- The fragments of the message with what its machine answers to each. -/
def acceptTrace (limit : Nat) : List Packet → List Packet → List (Packet × PushResult)
  | _, [] => []
  | accepted, part :: parts =>
      (part, (m.accept limit accepted part).1) ::
        acceptTrace limit (m.accept limit accepted part).2 parts

/-- The fragments accepted after some deliveries. -/
def acceptedAfter (limit : Nat) (accepted : List Packet) (parts : List Packet) : List Packet :=
  run (fun accepted part => (m.accept limit accepted part).2) accepted parts

/-- The deliveries of fragments of the message. -/
def own (packets : List Packet) : List Packet :=
  packets.filter fun packet => packet ∈ m.parts

/-- The part of a trace that belongs to the message. -/
def ownTrace (entries : List (Packet × PushResult)) : List (Packet × PushResult) :=
  entries.filter fun entry => entry.1 ∈ m.parts

variable {m}

/-- Whatever is pushed in between, the pushes of the fragments of a message are answered by its
machine. -/
theorem trace_own {r : FragmentReassembler} {accepted : List Packet} (h : m.Tracks r accepted)
    {arrivals : List Packet}
    (harrivals : ∀ packet ∈ arrivals, packet ∈ m.parts ∨ m.Foreign packet) :
    m.ownTrace (r.trace arrivals) = m.acceptTrace r.maxPayloadBytes accepted (m.own arrivals) ∧
      m.Tracks (r.after arrivals) (m.acceptedAfter r.maxPayloadBytes accepted (m.own arrivals)) ∧
      (r.after arrivals).maxPayloadBytes = r.maxPayloadBytes := by
  induction arrivals generalizing r accepted with
  | nil => exact ⟨rfl, h, rfl⟩
  | cons packet arrivals ih =>
      obtain ⟨hpacket, hrest⟩ := List.forall_mem_cons.mp harrivals
      rcases hpacket with hpart | hforeign
      · obtain ⟨hresult, htracks, hlimit⟩ := h.push_part hpart
        obtain ⟨htrace, hafter, hsame⟩ := ih htracks hrest
        rw [hlimit] at htrace hafter hsame
        have hown : m.own (packet :: arrivals) = packet :: m.own arrivals :=
          List.filter_cons_of_pos (by simpa using hpart)
        have hownTrace : m.ownTrace (r.trace (packet :: arrivals)) =
            (packet, (r.push packet).1) :: m.ownTrace ((r.push packet).2.trace arrivals) :=
          List.filter_cons_of_pos (by simpa using hpart)
        rw [hown, hownTrace, hresult, htrace]
        exact ⟨rfl, hafter, hsame⟩
      · obtain ⟨htracks, hlimit⟩ := h.push_foreign hforeign
        obtain ⟨htrace, hafter, hsame⟩ := ih htracks hrest
        rw [hlimit] at htrace hafter hsame
        have hown : m.own (packet :: arrivals) = m.own arrivals :=
          List.filter_cons_of_neg (by simpa using hforeign.not_mem)
        have hownTrace : m.ownTrace (r.trace (packet :: arrivals)) =
            m.ownTrace ((r.push packet).2.trace arrivals) :=
          List.filter_cons_of_neg (by simpa using hforeign.not_mem)
        rw [hown, hownTrace, htrace]
        exact ⟨rfl, hafter, hsame⟩

end Message

end Aethon.Protocol
