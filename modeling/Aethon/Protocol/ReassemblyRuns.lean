import Mathlib.Data.List.Induction
import Aethon.Protocol.ReassemblyStreams

/-!
# Runs of the reassembler

What becomes of a message whose fragments are delivered in any order among other traffic.
`reassembles_iff` says that it is returned once, with the push of its last missing fragment,
exactly when its payload is within the limit. `duplicates_ignored` says what a repeated fragment
does: nothing while its stream is pending. The reassembler keeps no memory of a completed stream, so
a message can be returned again if all its fragments are delivered again.

The fragments of several messages of different streams can arrive interleaved, with repetitions and
among unfragmented packets. If of each message every fragment arrives, and none again after the last
missing one, then the reassembler returns each message exactly once and each unfragmented packet as
it is, throws nothing, and its table is afterwards as it was before (`traffic_received`,
`after_traffic`).
-/

namespace Aethon.Protocol

open Runs

/-! ## Other streams -/

/-- Two reassemblers with the same limit and the same entries off one key. -/
structure AgreeOff (key : ReassemblyKey) (r r' : FragmentReassembler) : Prop where
  limit : r.maxPayloadBytes = r'.maxPayloadBytes
  others : ∀ other, other ≠ key → r.pending[other]? = r'.pending[other]?

namespace Message

variable {m : Message}

/-- Other packets are answered alike by reassemblers that differ in the entry of the message. -/
theorem push_agrees {r r' : FragmentReassembler} (h : AgreeOff m.key r r') {packet : Packet}
    (hforeign : m.Foreign packet) :
    (r.push packet).1 = (r'.push packet).1 ∧
      AgreeOff m.key (r.push packet).2 (r'.push packet).2 := by
  cases hinfo : packet.fragment with
  | none =>
      obtain ⟨hresult, hpending, hlimit⟩ := r.push_whole hinfo
      obtain ⟨hresult', hpending', hlimit'⟩ := r'.push_whole hinfo
      refine ⟨hresult.trans hresult'.symm, ?_, fun other hother => ?_⟩
      · rw [hlimit, hlimit', h.limit]
      · rw [hpending, hpending', h.others other hother]
  | some info =>
      obtain ⟨hresult, hlimit, hlookup⟩ := r.push_fragment hinfo
      obtain ⟨hresult', hlimit', hlookup'⟩ := r'.push_fragment hinfo
      rw [← h.limit, ← h.others _ (hforeign info hinfo)] at hresult' hlookup'
      refine ⟨hresult.trans hresult'.symm, ?_, fun other hother => ?_⟩
      · rw [hlimit, hlimit', h.limit]
      · rw [hlookup, hlookup', h.others other hother]

/-- A push of a fragment of the message leaves the other entries alone. -/
theorem push_part_agrees {r r' : FragmentReassembler} (h : AgreeOff m.key r r') {part : Packet}
    (hpart : part ∈ m.parts) : AgreeOff m.key (r.push part).2 r' := by
  obtain ⟨i, hi⟩ := List.mem_iff_getElem?.mp hpart
  have hinfo := m.part_fragment i part hi
  obtain ⟨-, hlimit, hlookup⟩ := r.push_fragment hinfo
  refine ⟨hlimit.trans h.limit, fun other hother => ?_⟩
  have hkey : other ≠ (⟨part.device, m.streamId⟩ : ReassemblyKey) := by
    rw [m.part_device part hpart]
    exact hother
  rw [hlookup, if_neg hkey, h.others other hother]

/-- The other packets are answered as if nothing of the message had been pushed. -/
theorem trace_foreign {r r' : FragmentReassembler} (h : AgreeOff m.key r r')
    {arrivals : List Packet}
    (harrivals : ∀ packet ∈ arrivals, packet ∈ m.parts ∨ m.Foreign packet) :
    ((r.trace arrivals).filter fun entry => entry.1 ∉ m.parts) =
      r'.trace (arrivals.filter fun packet => packet ∉ m.parts) := by
  induction arrivals generalizing r r' with
  | nil => rfl
  | cons packet arrivals ih =>
      obtain ⟨hpacket, hrest⟩ := List.forall_mem_cons.mp harrivals
      rw [FragmentReassembler.trace]
      rcases hpacket with hpart | hforeign
      · rw [List.filter_cons_of_neg (by simpa using hpart),
          List.filter_cons_of_neg (by simpa using hpart)]
        exact ih (push_part_agrees h hpart) hrest
      · obtain ⟨hresult, hagree⟩ := push_agrees h hforeign
        rw [List.filter_cons_of_pos (by simpa using hforeign.not_mem),
          List.filter_cons_of_pos (by simpa using hforeign.not_mem), FragmentReassembler.trace,
          hresult, ih hagree hrest]

/-! ## Payloads of held fragments -/

/-- Fewer packets have fewer payload bytes. -/
theorem payloadTotal_le_of_sublist {first second : List Packet} (h : first.Sublist second) :
    payloadTotal first ≤ payloadTotal second := by
  induction h with
  | slnil => exact Nat.le_refl _
  | cons packet _ ih => exact Nat.le_trans ih (Nat.le_add_left _ _)
  | cons_cons packet _ ih => exact Nat.add_le_add_left ih _

/-- Some of the packets have no more bytes than all. -/
theorem payloadTotal_le_of_subset {first second : List Packet} (hnodup : first.Nodup)
    (h : first ⊆ second) : payloadTotal first ≤ payloadTotal second := by
  obtain ⟨middle, hperm, hsublist⟩ := hnodup.subperm h
  have hsame : payloadTotal middle = payloadTotal first := (hperm.map _).sum_nat
  rw [← hsame]
  exact payloadTotal_le_of_sublist hsublist

theorem payloadTotal_append_singleton (packets : List Packet) (packet : Packet) :
    payloadTotal (packets ++ [packet]) = payloadTotal packets + packet.payload.length := by
  simp only [payloadTotal, List.map_append, List.sum_append_nat, List.map_singleton,
    List.sum_singleton]

/-- The fragments of a message are different. -/
theorem nodup_parts (m : Message) : m.parts.Nodup := by
  rw [List.nodup_iff_pairwise_ne, List.pairwise_iff_getElem]
  intro i j hi hj hlt hsame
  have hfirst : m.parts[i]? = some m.parts[j] := by
    rw [← hsame]
    exact List.getElem?_eq_getElem hi
  have hij := part_inj hfirst (List.getElem?_eq_getElem hj)
  omega

/-- When a new fragment completes the held ones to as many as the message has, they are all of its
fragments. -/
theorem Accepted.subset_of_completes {accepted : List Packet} (h : m.Accepted accepted)
    {part : Packet} (hpart : part ∈ m.parts) (hnew : part ∉ accepted)
    (hlength : accepted.length + 1 = m.parts.length) : m.parts ⊆ accepted ++ [part] := by
  intro other hother
  refine (h.append_singleton hpart hnew).mem_of_length ?_ hother
  rw [List.length_append, List.length_singleton, hlength]

/-! ## The machine over whole deliveries -/

/-- What the machine can do with a fragment of the message. -/
inductive AcceptStep (m : Message) (limit : Nat) (accepted : List Packet) (part : Packet) :
    PushResult × List Packet → Prop
  | held : part ∈ accepted → AcceptStep m limit accepted part (.ok none, accepted)
  | exceeds (failure : Error) : part ∉ accepted →
      limit < payloadTotal (accepted ++ [part]) →
      AcceptStep m limit accepted part (.error failure, [])
  | completes : part ∉ accepted → payloadTotal (accepted ++ [part]) ≤ limit →
      m.parts ⊆ accepted ++ [part] →
      AcceptStep m limit accepted part (.ok (some (m.assembled (accepted.headD part))), [])
  | collects : part ∉ accepted → payloadTotal (accepted ++ [part]) ≤ limit →
      ¬ m.parts ⊆ accepted ++ [part] →
      AcceptStep m limit accepted part (.ok none, accepted ++ [part])

/-- One more part is accepted as the message says. -/
theorem accept_step {accepted : List Packet} (h : m.Accepted accepted) (limit : Nat)
    {part : Packet} (hpart : part ∈ m.parts) :
    AcceptStep m limit accepted part (m.accept limit accepted part) := by
  unfold accept
  by_cases hheld : part ∈ accepted
  · rw [if_pos hheld]
    exact .held hheld
  rw [if_neg hheld]
  by_cases hover : payloadTotal accepted + part.payload.length > limit
  · rw [if_pos hover]
    exact .exceeds _ hheld (by rw [payloadTotal_append_singleton]; exact hover)
  rw [if_neg hover]
  have hfits : payloadTotal (accepted ++ [part]) ≤ limit := by
    rw [payloadTotal_append_singleton]
    omega
  by_cases hlength : accepted.length + 1 = m.parts.length
  · rw [if_pos hlength]
    exact .completes hheld hfits (h.subset_of_completes hpart hheld hlength)
  · rw [if_neg hlength]
    refine .collects hheld hfits fun hall => hlength ?_
    have hmore := h.append_singleton hpart hheld
    have hle := (hmore.nodup.subperm hmore.subset).length_le
    have hge := (m.nodup_parts.subperm hall).length_le
    rw [List.length_append, List.length_singleton] at hle hge
    omega

/-- With one fragment missing and the message within the limit, the machine only collects. -/
theorem accept_of_missing {limit : Nat} (hlimit : payloadTotal m.parts ≤ limit)
    {accepted : List Packet} (h : m.Accepted accepted) {missing part : Packet}
    (hmissing : missing ∈ m.parts) (hnot : missing ∉ accepted) (hpart : part ∈ m.parts)
    (hother : missing ≠ part) :
    m.accept limit accepted part =
      (.ok none, if part ∈ accepted then accepted else accepted ++ [part]) := by
  have hstep := accept_step h limit hpart
  generalize m.accept limit accepted part = outcome at hstep ⊢
  cases hstep with
  | held hheld => rw [if_pos hheld]
  | exceeds failure hheld hover =>
      have hmore := h.append_singleton hpart hheld
      have htotal := payloadTotal_le_of_subset hmore.nodup hmore.subset
      omega
  | completes hheld _ hall =>
      rcases List.mem_append.mp (hall hmissing) with hold | hlast
      · exact absurd hold hnot
      · exact absurd (List.mem_singleton.mp hlast) hother
  | collects hheld _ _ => rw [if_neg hheld]

/-- With one fragment missing and the message within the limit, the machine holds what was
delivered, the first delivered fragment first. -/
theorem accept_collects {limit : Nat} (hlimit : payloadTotal m.parts ≤ limit)
    {missing : Packet} (hmissing : missing ∈ m.parts) {accepted : List Packet}
    (h : m.Accepted accepted) (hnot : missing ∉ accepted) {delivered : List Packet}
    (hparts : delivered ⊆ m.parts) (hundelivered : missing ∉ delivered) :
    m.acceptTrace limit accepted delivered = delivered.map (fun part => (part, .ok none)) ∧
      m.Accepted (m.acceptedAfter limit accepted delivered) ∧
      (∀ part, part ∈ m.acceptedAfter limit accepted delivered ↔
        part ∈ accepted ∨ part ∈ delivered) ∧
      (m.acceptedAfter limit accepted delivered).head? = accepted.head?.or delivered.head? := by
  induction delivered generalizing accepted with
  | nil => exact ⟨rfl, h, by simp [acceptedAfter], by simp [acceptedAfter]⟩
  | cons part delivered ih =>
      obtain ⟨hpart, hrest⟩ := List.cons_subset.mp hparts
      have hother : missing ≠ part := fun hsame => hundelivered (hsame ▸ List.mem_cons_self)
      have hlater : missing ∉ delivered := fun hmem => hundelivered (List.mem_cons_of_mem _ hmem)
      have hstep := accept_of_missing hlimit h hmissing hnot hpart hother
      -- a repeated fragment changes nothing, a new one is held behind the others
      let more := if part ∈ accepted then accepted else accepted ++ [part]
      have hmore : m.Accepted more := by
        simp only [more]
        split
        · exact h
        · rename_i hnew
          exact h.append_singleton hpart hnew
      have hmem : ∀ p, p ∈ more ↔ p ∈ accepted ∨ p = part := by
        intro p
        simp only [more]
        split
        · rename_i hheld
          refine (or_iff_left_of_imp fun hsame => ?_).symm
          rw [hsame]
          exact hheld
        · rw [List.mem_append, List.mem_singleton]
      have hhead : more.head? = accepted.head?.or (some part) := by
        simp only [more]
        split
        · rename_i hheld
          cases accepted with
          | nil => cases hheld
          | cons first rest => rfl
        · cases accepted <;> rfl
      have hstill : missing ∉ more := fun hheld => by
        rcases (hmem missing).mp hheld with hold | hlast
        · exact hnot hold
        · exact hother hlast
      obtain ⟨htrace, haccepted, hafter, hfirst⟩ := ih hmore hstill hrest hlater
      have hrun : m.acceptedAfter limit accepted (part :: delivered) =
          m.acceptedAfter limit more delivered := by
        simp only [acceptedAfter, run_cons, hstep, more]
      rw [hrun]
      refine ⟨?_, haccepted, fun p => ?_, ?_⟩
      · rw [acceptTrace, hstep, htrace, List.map_cons]
      · rw [hafter, hmem, List.mem_cons, or_assoc]
      · rw [hfirst, hhead]
        cases accepted <;> rfl

/-- The last missing fragment of a message within the limit completes it. -/
theorem accept_completes {limit : Nat} (hlimit : payloadTotal m.parts ≤ limit)
    {accepted : List Packet} (h : m.Accepted accepted) {last : Packet} (hlast : last ∈ m.parts)
    (hnew : last ∉ accepted) (hothers : ∀ part ∈ m.parts, part = last ∨ part ∈ accepted) :
    m.accept limit accepted last = (.ok (some (m.assembled (accepted.headD last))), []) := by
  have hall : m.parts ⊆ accepted ++ [last] := by
    intro part hpart
    rcases hothers part hpart with hsame | hheld
    · rw [hsame]
      exact List.mem_append_right _ (List.mem_singleton_self last)
    · exact List.mem_append_left _ hheld
  have hstep := accept_step h limit hlast
  generalize m.accept limit accepted last = outcome at hstep ⊢
  cases hstep with
  | held hheld => exact absurd hheld hnew
  | exceeds failure hheld hover =>
      have hmore := h.append_singleton hlast hheld
      have htotal := payloadTotal_le_of_subset hmore.nodup hmore.subset
      omega
  | completes => rfl
  | collects _ _ hmissing => exact absurd hall hmissing

/-- Above the limit the machine never gives the message. -/
theorem acceptTrace_ne_some_of_exceeds {limit : Nat} (hlimit : limit < payloadTotal m.parts)
    {accepted : List Packet} (h : m.Accepted accepted) {delivered : List Packet}
    (hparts : delivered ⊆ m.parts) :
    ∀ entry ∈ m.acceptTrace limit accepted delivered, ∀ packet, entry.2 ≠ .ok (some packet) := by
  induction delivered generalizing accepted with
  | nil => exact fun entry hentry => by cases hentry
  | cons part delivered ih =>
      obtain ⟨hpart, hrest⟩ := List.cons_subset.mp hparts
      have hstep := accept_step h limit hpart
      have hnext := ih (h.accept limit hpart) hrest
      rw [acceptTrace]
      generalize m.accept limit accepted part = outcome at hstep hnext ⊢
      intro entry hentry packet hsome
      rcases List.mem_cons.mp hentry with rfl | hlater
      · cases hstep with
        | completes _ hfits hall =>
            -- all fragments would be held within the limit
            have htotal := payloadTotal_le_of_subset m.nodup_parts hall
            omega
        | held | exceeds | collects => cases hsome
      · exact hnext entry hlater packet hsome

/-- A held fragment adds nothing to what is held or still to come. -/
theorem append_cons_subset_of_mem {accepted delivered : List Packet} {part : Packet}
    (hheld : part ∈ accepted) : accepted ++ part :: delivered ⊆ accepted ++ delivered := by
  intro p hp
  rw [List.mem_append, List.mem_cons] at hp
  rw [List.mem_append]
  rcases hp with hold | hsame | hdelivered
  · exact .inl hold
  · exact .inl (hsame ▸ hheld)
  · exact .inr hdelivered

/-- While nothing is returned or thrown, the machine keeps what it holds. -/
theorem subset_acceptedAfter {limit : Nat} {accepted : List Packet} (h : m.Accepted accepted)
    {delivered : List Packet} (hparts : delivered ⊆ m.parts)
    (hquiet : ∀ entry ∈ m.acceptTrace limit accepted delivered, entry.2 = .ok none) :
    accepted ++ delivered ⊆ m.acceptedAfter limit accepted delivered := by
  induction delivered generalizing accepted with
  | nil =>
      rw [List.append_nil]
      exact List.Subset.refl _
  | cons part delivered ih =>
      obtain ⟨hpart, hrest⟩ := List.cons_subset.mp hparts
      have hstep := accept_step h limit hpart
      have hnext := h.accept limit hpart
      obtain ⟨hfirst, hlater⟩ := List.forall_mem_cons.mp hquiet
      have hrun : m.acceptedAfter limit accepted (part :: delivered) =
          m.acceptedAfter limit (m.accept limit accepted part).2 delivered := rfl
      rw [hrun]
      generalize m.accept limit accepted part = outcome at hstep hnext hfirst hlater ⊢
      cases hstep with
      | held hheld =>
          have hsubset := ih hnext hrest hlater
          exact List.Subset.trans (append_cons_subset_of_mem hheld) hsubset
      | exceeds failure _ _ => cases hfirst
      | completes _ _ _ => cases hfirst
      | collects _ _ _ =>
          have hsubset := ih hnext hrest hlater
          rw [List.append_assoc, List.singleton_append] at hsubset
          exact hsubset

/-- What the machine holds is within the limit. -/
theorem payloadTotal_acceptedAfter_le {limit : Nat} {accepted : List Packet}
    (h : m.Accepted accepted) (htotal : payloadTotal accepted ≤ limit) {delivered : List Packet}
    (hparts : delivered ⊆ m.parts) :
    payloadTotal (m.acceptedAfter limit accepted delivered) ≤ limit := by
  induction delivered generalizing accepted with
  | nil => exact htotal
  | cons part delivered ih =>
      obtain ⟨hpart, hrest⟩ := List.cons_subset.mp hparts
      have hstep := accept_step h limit hpart
      have hfits : payloadTotal (m.accept limit accepted part).2 ≤ limit := by
        generalize m.accept limit accepted part = outcome at hstep ⊢
        cases hstep with
        | held => exact htotal
        | exceeds => exact Nat.zero_le limit
        | completes => exact Nat.zero_le limit
        | collects _ hfits _ => exact hfits
      exact ih (h.accept limit hpart) hfits hrest

/-- Above the limit, delivering every fragment makes some push throw. -/
theorem exists_error_of_exceeds {limit : Nat} (hlimit : limit < payloadTotal m.parts)
    {delivered : List Packet} (hparts : delivered ⊆ m.parts) (hall : m.parts ⊆ delivered) :
    ∃ entry ∈ m.acceptTrace limit [] delivered, ∃ failure, entry.2 = .error failure := by
  by_contra hnone
  have hempty : m.Accepted [] := ⟨List.nodup_nil, List.nil_subset _⟩
  have hquiet : ∀ entry ∈ m.acceptTrace limit [] delivered, entry.2 = .ok none := by
    intro entry hentry
    rcases hresult : entry.2 with failure | _ | packet
    · exact absurd ⟨entry, hentry, failure, hresult⟩ hnone
    · rfl
    · exact absurd hresult
        (acceptTrace_ne_some_of_exceeds hlimit hempty hparts entry hentry packet)
  -- so all fragments are held, and they are within the limit
  have hsubset := subset_acceptedAfter hempty hparts hquiet
  have hfits := payloadTotal_acceptedAfter_le hempty (Nat.zero_le limit) hparts
  have htotal := payloadTotal_le_of_subset m.nodup_parts (List.Subset.trans hall hsubset)
  omega

/-! ## Delivery of a message -/

/-- A delivery of a message among other traffic: `last` is the fragment whose first arrival is the
latest. Fragments may be repeated before it, and afterwards too if the message never completes. -/
structure Delivery (m : Message) (limit : Nat) (before : List Packet) (last : Packet)
    (rest : List Packet) : Prop where
  traffic : ∀ packet ∈ before, packet ∈ m.parts ∨ m.Foreign packet
  part : last ∈ m.parts
  missing : last ∉ before
  others : ∀ other ∈ m.parts, other = last ∨ other ∈ before
  later : ∀ packet ∈ rest,
    m.Foreign packet ∨ (limit < payloadTotal m.parts ∧ packet ∈ m.parts)

/-- The pushes of the fragments return nothing until the last missing one, which returns the
message with the fields of the first fragment that arrived. -/
def Completes (m : Message) (before : List Packet) (last : Packet)
    (entries : List (Packet × PushResult)) : Prop :=
  entries = (m.own before).map (fun part => (part, .ok none)) ++
    [(last, .ok (some (m.assembled ((m.own before).headD last))))]

/-- No push of a fragment returns a packet, and some push throws. -/
def Fails (entries : List (Packet × PushResult)) : Prop :=
  (∀ entry ∈ entries, ∀ packet, entry.2 ≠ .ok (some packet)) ∧
    ∃ entry ∈ entries, ∃ failure, entry.2 = .error failure

theorem mem_own {packets : List Packet} {packet : Packet} :
    packet ∈ m.own packets ↔ packet ∈ packets ∧ packet ∈ m.parts := by
  unfold own
  rw [List.mem_filter, decide_eq_true_eq]

/-- The fragments of the message in a delivery. -/
theorem Delivery.own_eq {limit : Nat} {before rest : List Packet} {last : Packet}
    (h : m.Delivery limit before last rest) :
    m.own (before ++ last :: rest) = m.own before ++ last :: m.own rest := by
  unfold own
  rw [List.filter_append, List.filter_cons_of_pos (by simpa using h.part)]

/-- Over several deliveries the machine goes on from where it was. -/
theorem acceptTrace_append (limit : Nat) (accepted first second : List Packet) :
    m.acceptTrace limit accepted (first ++ second) = m.acceptTrace limit accepted first ++
      m.acceptTrace limit (m.acceptedAfter limit accepted first) second := by
  induction first generalizing accepted with
  | nil => rfl
  | cons part first ih =>
      rw [List.cons_append, acceptTrace, ih]
      rfl

/-- A message within the limit completes. -/
theorem Delivery.completes {limit : Nat} {before rest : List Packet} {last : Packet}
    (h : m.Delivery limit before last rest) (hlimit : payloadTotal m.parts ≤ limit) :
    m.Completes before last (m.acceptTrace limit [] (m.own (before ++ last :: rest))) := by
  have hnil : m.Accepted [] := ⟨List.nodup_nil, List.nil_subset _⟩
  have hrest : m.own rest = [] := by
    refine List.filter_eq_nil_iff.mpr fun packet hpacket => ?_
    rcases h.later packet hpacket with hforeign | ⟨hover, -⟩
    · simpa using hforeign.not_mem
    · omega
  obtain ⟨htrace, haccepted, hheld, hhead⟩ := accept_collects hlimit h.part hnil List.not_mem_nil
    (fun part hpart => (mem_own.mp hpart).2) (fun hlast => h.missing (mem_own.mp hlast).1)
  simp only [List.not_mem_nil, false_or, List.head?_nil, Option.none_or] at hheld hhead
  have hcompletes := accept_completes hlimit haccepted h.part
    (fun hlast => h.missing (mem_own.mp ((hheld last).mp hlast)).1) fun part hpart =>
      (h.others part hpart).imp_right fun hbefore => (hheld part).mpr (mem_own.mpr ⟨hbefore, hpart⟩)
  rw [List.headD_eq_head?_getD, hhead, ← List.headD_eq_head?_getD] at hcompletes
  unfold Completes
  rw [h.own_eq, hrest, acceptTrace_append, htrace, acceptTrace, hcompletes]
  rfl

/-- A message above the limit fails. -/
theorem Delivery.fails {limit : Nat} {before rest : List Packet} {last : Packet}
    (h : m.Delivery limit before last rest) (hlimit : limit < payloadTotal m.parts) :
    Fails (m.acceptTrace limit [] (m.own (before ++ last :: rest))) := by
  have hparts : m.own (before ++ last :: rest) ⊆ m.parts := fun part hpart => (mem_own.mp hpart).2
  refine ⟨acceptTrace_ne_some_of_exceeds hlimit ⟨List.nodup_nil, List.nil_subset _⟩ hparts,
    exists_error_of_exceeds hlimit hparts fun part hpart => mem_own.mpr ⟨?_, hpart⟩⟩
  rcases h.others part hpart with hsame | hbefore
  · rw [hsame]
    exact List.mem_append_right _ List.mem_cons_self
  · exact List.mem_append_left _ hbefore

/-- A fragment of device 0 and stream 7 with its position as payload. -/
def sampleFragment (sequence count : UInt16) : Packet where
  fragment := some ⟨7, sequence, count⟩
  payload := [sequence.toUInt8]

/-- A message of one fragment. -/
def onlyFragment : Packet := sampleFragment 0 1

/-- The first fragment of two. -/
def firstOfTwo : Packet := sampleFragment 0 2

/-- The second fragment of two. -/
def secondOfTwo : Packet := sampleFragment 1 2

/-- A message of two fragments. -/
def pair : Message where
  device := 0
  streamId := 7
  count := 2
  parts := [firstOfTwo, secondOfTwo]
  length_parts := rfl
  part_device := by decide
  part_fragment := by
    intro i part hi
    match i with
    | 0 | 1 =>
        cases hi
        rfl
    | i + 2 => cases hi

/-- **Fragment reassembly.** Take any reassembler without an entry for the stream and any delivery
of the message among other traffic. The message completes exactly if its payload is within the
limit; above it no push of a fragment returns a packet and some push throws. The other packets are
answered as if nothing of the message had been pushed. -/
theorem reassembles_iff (m : Message) (r : FragmentReassembler) (before : List Packet)
    (last : Packet) (rest : List Packet) (hfree : r.pending[m.key]? = none)
    (h : m.Delivery r.maxPayloadBytes before last rest) :
    (m.Completes before last (m.ownTrace (r.trace (before ++ last :: rest))) ↔
        payloadTotal m.parts ≤ r.maxPayloadBytes) ∧
      (¬ payloadTotal m.parts ≤ r.maxPayloadBytes →
        Fails (m.ownTrace (r.trace (before ++ last :: rest)))) ∧
      ((r.trace (before ++ last :: rest)).filter fun entry => entry.1 ∉ m.parts) =
        r.trace ((before ++ last :: rest).filter fun packet => packet ∉ m.parts) := by
  have htraffic : ∀ packet ∈ before ++ last :: rest, packet ∈ m.parts ∨ m.Foreign packet := by
    intro packet hpacket
    rcases List.mem_append.mp hpacket with hbefore | hlater
    · exact h.traffic packet hbefore
    · rcases List.mem_cons.mp hlater with rfl | hrest
      · exact .inl h.part
      · rcases h.later packet hrest with hforeign | ⟨-, hpart⟩
        · exact .inr hforeign
        · exact .inl hpart
  rw [(trace_own (tracks_nil hfree) htraffic).1]
  refine ⟨⟨fun hcompletes => ?_, h.completes⟩, fun hover => h.fails (Nat.not_le.mp hover),
    trace_foreign ⟨rfl, fun _ _ => rfl⟩ htraffic⟩
  by_contra hover
  obtain ⟨hnone, -⟩ := h.fails (Nat.not_le.mp hover)
  rw [hcompletes] at hnone
  exact hnone _ (List.mem_append_right _ List.mem_cons_self) _ rfl

/-- Two fragments in reverse order, the first to arrive repeated, make one message. -/
theorem pair_reassembled :
    pair.Completes [secondOfTwo, secondOfTwo] firstOfTwo
      (pair.ownTrace (FragmentReassembler.trace {} ([secondOfTwo, secondOfTwo] ++ [firstOfTwo]))) :=
  (reassembles_iff pair {} [secondOfTwo, secondOfTwo] firstOfTwo [] Std.ExtTreeMap.getElem?_empty
    ⟨fun packet hpacket => .inl (by revert packet; decide), by decide, by decide, by decide,
      List.forall_mem_nil _⟩).1.mpr (by decide)

/-! ## Repeated fragments -/

/-- Whether a push returned a packet. -/
def returned (entry : Packet × PushResult) : Bool :=
  match entry.2 with
  | .ok (some _) => true
  | _ => false

/-- Each time the message is returned, each of its fragments has been delivered once more. A held
fragment counts as one delivery. -/
theorem countP_returned_le (limit : Nat) {accepted : List Packet} (h : m.Accepted accepted)
    {delivered : List Packet} (hparts : delivered ⊆ m.parts) {part : Packet}
    (hpart : part ∈ m.parts) :
    (m.acceptTrace limit accepted delivered).countP returned ≤
      delivered.count part + if part ∈ accepted then 1 else 0 := by
  induction delivered generalizing accepted with
  | nil => exact Nat.zero_le _
  | cons first delivered ih =>
      obtain ⟨hfirst, hrest⟩ := List.cons_subset.mp hparts
      have hstep := accept_step h limit hfirst
      have hnext := ih (h.accept limit hfirst) hrest
      rw [acceptTrace, List.countP_cons, List.count_cons]
      simp only [beq_iff_eq]
      generalize m.accept limit accepted first = outcome at hstep hnext ⊢
      cases hstep with
      | held =>
          simp only [returned, Bool.false_eq_true, if_false] at hnext ⊢
          omega
      | exceeds =>
          simp only [returned, Bool.false_eq_true, if_false, List.not_mem_nil] at hnext ⊢
          omega
      | completes _ _ hall =>
          -- the fragment was held, or it is the one that completes the message
          simp only [returned, if_true, List.not_mem_nil, if_false] at hnext ⊢
          rcases List.mem_append.mp (hall hpart) with hold | hlast
          · rw [if_pos hold]
            omega
          · rw [if_pos (List.mem_singleton.mp hlast).symm]
            omega
      | collects =>
          simp only [returned, Bool.false_eq_true, if_false, List.mem_append,
            List.mem_singleton] at hnext ⊢
          by_cases hold : part ∈ accepted
          · rw [if_pos hold]
            rw [if_pos (.inl hold)] at hnext
            omega
          · by_cases hsame : first = part
            · rw [if_pos hsame]
              rw [if_pos (.inr hsame.symm)] at hnext
              omega
            · rw [if_neg (not_or.mpr ⟨hold, fun h => hsame h.symm⟩)] at hnext
              omega

/-- The traffic of a run cut in two. -/
theorem after_append (r : FragmentReassembler) (first second : List Packet) :
    r.after (first ++ second) = (r.after first).after second :=
  List.foldl_append

/-- A push of a held fragment returns nothing and leaves the table alone. -/
theorem Tracks.push_held {r : FragmentReassembler} {accepted : List Packet}
    (h : m.Tracks r accepted) {part : Packet} (hpart : part ∈ m.parts) (hheld : part ∈ accepted) :
    (r.push part).1 = .ok none ∧ (r.push part).2.pending = r.pending := by
  obtain ⟨hresult, htracks, -⟩ := h.push_part hpart
  have haccept : m.accept r.maxPayloadBytes accepted part = (.ok none, accepted) := if_pos hheld
  rw [haccept] at hresult htracks
  refine ⟨hresult, Std.ExtTreeMap.ext_getElem? fun other => ?_⟩
  by_cases hsame : other = m.key
  · rw [hsame, htracks.entry, h.entry]
  · have hagree : AgreeOff m.key r r := ⟨rfl, fun _ _ => rfl⟩
    exact (push_part_agrees hagree hpart).others other hsame

/-- **Repeated fragments.** In any run among other traffic, a fragment that is delivered again
returns nothing and leaves the table of pending streams alone if since a delivery of it no push of
its stream has returned a packet or thrown. The message is returned at most as often as each of its
fragments is delivered. -/
theorem duplicates_ignored (m : Message) (r : FragmentReassembler)
    (hfree : r.pending[m.key]? = none) (arrivals : List Packet)
    (htraffic : ∀ packet ∈ arrivals, packet ∈ m.parts ∨ m.Foreign packet) :
    (∀ before part since, part ∈ m.parts → arrivals = before ++ part :: since →
        (∀ entry ∈ m.ownTrace ((r.after before).trace (part :: since)), entry.2 = .ok none) →
        ((r.after arrivals).push part).1 = .ok none ∧
          ((r.after arrivals).push part).2.pending = (r.after arrivals).pending) ∧
      ∀ part ∈ m.parts,
        (m.ownTrace (r.trace arrivals)).countP returned ≤ arrivals.count part := by
  constructor
  · intro before part since hpart hsplit hquiet
    rw [hsplit] at htraffic ⊢
    obtain ⟨hbefore, hsince⟩ := List.forall_mem_append.mp htraffic
    obtain ⟨-, hfirst, -⟩ := trace_own (tracks_nil hfree) hbefore
    obtain ⟨htrace, hsecond, -⟩ := trace_own hfirst hsince
    rw [htrace] at hquiet
    have hsubset := subset_acceptedAfter hfirst.distinct
      (fun p hp => (mem_own.mp hp).2) hquiet
    rw [after_append]
    refine hsecond.push_held hpart (hsubset (List.mem_append_right _ (mem_own.mpr ⟨?_, hpart⟩)))
    exact List.mem_cons_self
  · intro part hpart
    obtain ⟨htrace, -, -⟩ := trace_own (tracks_nil hfree) htraffic
    have hparts : m.own arrivals ⊆ m.parts := fun p hp => (mem_own.mp hp).2
    have hle := countP_returned_le r.maxPayloadBytes ⟨List.nodup_nil, List.nil_subset m.parts⟩
      hparts hpart
    rw [htrace]
    refine Nat.le_trans hle ?_
    rw [if_neg List.not_mem_nil, Nat.add_zero]
    exact (List.filter_sublist).count_le part

/-- A repeat before completion is ignored, and the message is returned once. -/
theorem duplicates_ignored_pair :
    ((FragmentReassembler.after {} [secondOfTwo]).push secondOfTwo).1 = .ok none ∧
      (pair.ownTrace (FragmentReassembler.trace {} [secondOfTwo, firstOfTwo])).countP returned ≤
        1 := by
  have htraffic : ∀ packet ∈ [secondOfTwo], packet ∈ pair.parts ∨ pair.Foreign packet := by
    intro packet hpacket
    rw [List.mem_singleton.mp hpacket]
    exact .inl (by decide)
  have htraffic' : ∀ packet ∈ [secondOfTwo, firstOfTwo],
      packet ∈ pair.parts ∨ pair.Foreign packet := by
    intro packet hpacket
    exact .inl (by revert packet; decide)
  have hfirst := (duplicates_ignored pair {} Std.ExtTreeMap.getElem?_empty [secondOfTwo]
    htraffic).1 [] secondOfTwo [] (by decide) rfl (by decide)
  have hsecond := (duplicates_ignored pair {} Std.ExtTreeMap.getElem?_empty
    [secondOfTwo, firstOfTwo] htraffic').2 firstOfTwo (by decide)
  exact ⟨hfirst.1, hsecond⟩

/-- The reassembler forgets a completed stream: a fragment of one is returned each time it is
delivered, and a late repeat of a fragment of two opens a new pending stream. -/
theorem completed_streams_forgotten :
    (FragmentReassembler.trace {} [onlyFragment, onlyFragment]).countP returned = 2 ∧
      (FragmentReassembler.after {} [firstOfTwo, secondOfTwo]).currentStats.pendingStreams = 0 ∧
      (FragmentReassembler.after {}
        [firstOfTwo, secondOfTwo, firstOfTwo]).currentStats.pendingStreams = 1 := by
  decide

end Message

/-! ## Several messages at once -/

/-- The packets that the pushes returned. -/
def received (entries : List (Packet × PushResult)) : List Packet :=
  entries.filterMap fun entry => entry.2.toOption.join

namespace Message

/-- All fragments of the message arrive, and none of them arrives again after the last missing
one. -/
def ArrivesIn (m : Message) (arrivals : List Packet) : Prop :=
  m.parts ⊆ arrivals ∧ ∃ front last, m.own arrivals = front ++ [last] ∧ last ∉ front

/-- What the message is returned as: it has the fields of its fragment that arrived first. -/
def delivered (m : Message) (arrivals : List Packet) : Packet :=
  m.assembled ((m.own arrivals).headD {})

variable {m : Message} {arrivals : List Packet}

/-- The machine of a message within the limit that arrives: it gives the message with the last
fragment, and holds nothing afterwards. -/
theorem ArrivesIn.accept {limit : Nat} (h : m.ArrivesIn arrivals)
    (hlimit : payloadTotal m.parts ≤ limit) :
    (∀ entry ∈ m.acceptTrace limit [] (m.own arrivals), ∃ result, entry.2 = .ok result) ∧
      received (m.acceptTrace limit [] (m.own arrivals)) = [m.delivered arrivals] ∧
      m.acceptedAfter limit [] (m.own arrivals) = [] := by
  obtain ⟨hall, front, last, hown, hnew⟩ := h
  have hmem : ∀ part ∈ front ++ [last], part ∈ m.parts := fun part hpart =>
    (mem_own.mp (hown ▸ hpart)).2
  have hlast := hmem last (List.mem_append_right _ (List.mem_singleton_self last))
  obtain ⟨htrace, haccepted, hheld, hhead⟩ := accept_collects hlimit hlast
    ⟨List.nodup_nil, List.nil_subset _⟩ List.not_mem_nil
    (fun part hpart => hmem part (List.mem_append_left _ hpart)) hnew
  simp only [List.not_mem_nil, false_or, List.head?_nil, Option.none_or] at hheld hhead
  have hcompletes := accept_completes hlimit haccepted hlast
    (fun hmem => hnew ((hheld last).mp hmem)) fun part hpart => by
      rw [hheld, or_comm, ← List.mem_singleton, ← List.mem_append, ← hown]
      exact mem_own.mpr ⟨hall hpart, hpart⟩
  have hfirst : (m.own arrivals).headD {} =
      (m.acceptedAfter limit [] front).headD last := by
    rw [hown, List.headD_eq_head?_getD, List.headD_eq_head?_getD, hhead]
    cases front <;> rfl
  have hentries : m.acceptTrace limit [] (m.own arrivals) =
      front.map (fun part => (part, .ok none)) ++ [(last, .ok (some (m.delivered arrivals)))] := by
    rw [hown, acceptTrace_append, htrace, acceptTrace, hcompletes, delivered, hfirst]
    rfl
  rw [hentries]
  refine ⟨fun entry hentry => ?_, ?_, ?_⟩
  · rcases List.mem_append.mp hentry with hfront | hend
    · obtain ⟨part, -, rfl⟩ := List.mem_map.mp hfront
      exact ⟨_, rfl⟩
    · rw [List.mem_singleton.mp hend]
      exact ⟨_, rfl⟩
  · have hquiet : received (front.map fun part => (part, .ok none)) = [] := by
      rw [received, List.filterMap_map]
      exact List.filterMap_eq_nil_iff.mpr fun part _ => rfl
    rw [received, List.filterMap_append, ← received, hquiet]
    rfl
  · rw [hown, acceptedAfter, run_concat]
    exact congrArg Prod.snd hcompletes

/-- A packet is unfragmented or a fragment of one of the messages. -/
def Known (ms : List Message) (packet : Packet) : Prop :=
  packet.fragment = none ∨ ∃ m ∈ ms, packet ∈ m.parts

/-- Fragments of a message of another stream are foreign. -/
theorem foreign_of_key_ne {m m' : Message} (h : m.key ≠ m'.key) {packet : Packet}
    (hpacket : packet ∈ m'.parts) : m.Foreign packet := by
  intro info hinfo hkey
  obtain ⟨i, hi⟩ := List.mem_iff_getElem?.mp hpacket
  have hsame := (m'.part_fragment i packet hi).symm.trans hinfo
  refine h (hkey.symm.trans ?_)
  rw [m'.part_device packet hpacket, ← Option.some.inj hsame]
  rfl

theorem foreign_of_whole {packet : Packet} (h : packet.fragment = none) : m.Foreign packet := by
  intro info hinfo
  rw [h] at hinfo
  cases hinfo

/-- Among known packets, those that are no fragments of a message are foreign to it. -/
theorem part_or_foreign {ms : List Message} (hkeys : ∀ other ∈ ms, m.key ≠ other.key)
    {packet : Packet} (h : Known (m :: ms) packet) :
    packet ∈ m.parts ∨ (m.Foreign packet ∧ Known ms packet) := by
  rcases h with hwhole | ⟨other, hother, hpart⟩
  · exact .inr ⟨foreign_of_whole hwhole, .inl hwhole⟩
  · rcases List.mem_cons.mp hother with rfl | hmem
    · exact .inl hpart
    · exact .inr ⟨foreign_of_key_ne (hkeys other hmem) hpart, .inr ⟨other, hmem, hpart⟩⟩

/-- A message arrives without the fragments of another one too. -/
theorem ArrivesIn.filter {m' : Message} (h : m.ArrivesIn arrivals) (hkey : m'.key ≠ m.key) :
    m.ArrivesIn (arrivals.filter fun packet => packet ∉ m'.parts) ∧
      m.delivered (arrivals.filter fun packet => packet ∉ m'.parts) = m.delivered arrivals := by
  have hother : ∀ part ∈ m.parts, part ∉ m'.parts := fun part hpart =>
    (foreign_of_key_ne hkey hpart).not_mem
  have hown : m.own (arrivals.filter fun packet => packet ∉ m'.parts) = m.own arrivals := by
    rw [own, List.filter_filter]
    refine List.filter_congr fun packet _ => ?_
    by_cases hpart : packet ∈ m.parts
    · simp [hpart, hother packet hpart]
    · simp [hpart]
  refine ⟨⟨fun part hpart => ?_, ?_⟩, ?_⟩
  · exact List.mem_filter.mpr ⟨h.1 hpart, by simpa using hother part hpart⟩
  · rw [hown]
    exact h.2
  · rw [delivered, hown, delivered]

end Message

open Message

namespace FragmentReassembler

/-- Unfragmented packets are returned as they are. -/
theorem trace_whole (r : FragmentReassembler) {arrivals : List Packet}
    (h : ∀ packet ∈ arrivals, packet.fragment = none) :
    r.trace arrivals = arrivals.map fun packet => (packet, .ok (some packet)) := by
  induction arrivals generalizing r with
  | nil => rfl
  | cons packet arrivals ih =>
      obtain ⟨hhead, htail⟩ := List.forall_mem_cons.mp h
      rw [trace, (r.push_whole hhead).1, ih _ htail, List.map_cons]

/-- The packets returned by some pushes are those returned by the pushes that meet a condition and
those returned by the others. -/
theorem received_filter_perm (p : Packet × PushResult → Prop) [DecidablePred p]
    (entries : List (Packet × PushResult)) :
    (received entries).Perm (received (entries.filter fun entry => p entry) ++
      received (entries.filter fun entry => ¬ p entry)) := by
  have hperm := (List.filter_append_perm (fun entry => decide (p entry)) entries).symm
  have hreceived := hperm.filterMap fun entry => entry.2.toOption.join
  rw [List.filterMap_append] at hreceived
  simpa [received] using hreceived

/-- What the reassembler returns for the messages and the unfragmented packets of some traffic. -/
theorem traffic_received (r : FragmentReassembler) {ms : List Message}
    (hkeys : (ms.map Message.key).Nodup)
    (hlimit : ∀ m ∈ ms, payloadTotal m.parts ≤ r.maxPayloadBytes)
    (hfree : ∀ m ∈ ms, r.pending[m.key]? = none) {arrivals : List Packet}
    (hknown : ∀ packet ∈ arrivals, Known ms packet) (harrive : ∀ m ∈ ms, m.ArrivesIn arrivals) :
    (∀ entry ∈ r.trace arrivals, ∃ result, entry.2 = .ok result) ∧
      (received (r.trace arrivals)).Perm
        (ms.map (fun m => m.delivered arrivals) ++
          arrivals.filter fun packet => packet.fragment = none) := by
  induction ms generalizing arrivals with
  | nil =>
      have hwhole : ∀ packet ∈ arrivals, packet.fragment = none := fun packet hpacket => by
        rcases hknown packet hpacket with hnone | ⟨m, hm, -⟩
        · exact hnone
        · cases hm
      rw [r.trace_whole hwhole]
      refine ⟨fun entry hentry => ?_, ?_⟩
      · obtain ⟨packet, -, rfl⟩ := List.mem_map.mp hentry
        exact ⟨_, rfl⟩
      · rw [List.map_nil, List.nil_append, List.filter_eq_self.mpr (by simpa using hwhole),
          received, List.filterMap_map]
        exact List.Perm.of_eq (List.filterMap_some)
  | cons m ms ih =>
      obtain ⟨hnew, hkeys⟩ := List.nodup_cons.mp hkeys
      have hother : ∀ other ∈ ms, m.key ≠ other.key := fun other hmem hsame =>
        hnew (hsame ▸ List.mem_map_of_mem hmem)
      obtain ⟨hfits, hlimit⟩ := List.forall_mem_cons.mp hlimit
      obtain ⟨hnone, hfree⟩ := List.forall_mem_cons.mp hfree
      obtain ⟨harrives, harrive⟩ := List.forall_mem_cons.mp harrive
      have htraffic : ∀ packet ∈ arrivals, packet ∈ m.parts ∨ m.Foreign packet :=
        fun packet hpacket => (part_or_foreign hother (hknown packet hpacket)).imp_right And.left
      obtain ⟨hown, -, -⟩ := trace_own (tracks_nil hnone) htraffic
      have hforeign : ((r.trace arrivals).filter fun entry => entry.1 ∉ m.parts) =
          r.trace (arrivals.filter fun packet => packet ∉ m.parts) :=
        trace_foreign ⟨rfl, fun _ _ => rfl⟩ htraffic
      obtain ⟨hclean, hgives, -⟩ := harrives.accept hfits
      -- without the fragments of the message, the rest is the traffic of the other messages
      obtain ⟨hrest, hperm⟩ := @ih hkeys hlimit hfree
        (arrivals.filter fun packet => packet ∉ m.parts)
        (fun packet hpacket => by
          obtain ⟨hmem, hnot⟩ := List.mem_filter.mp hpacket
          have hfar := part_or_foreign hother (hknown packet hmem)
          exact (hfar.resolve_left (by simpa using hnot)).2)
        fun m' hm' => ((harrive m' hm').filter (hother m' hm')).1
      have hsame : ms.map (fun m' => m'.delivered (arrivals.filter fun packet =>
          packet ∉ m.parts)) = ms.map fun m' => m'.delivered arrivals :=
        List.map_congr_left fun m' hm' => ((harrive m' hm').filter (hother m' hm')).2
      have hwhole : ((arrivals.filter fun packet => packet ∉ m.parts).filter fun packet =>
          packet.fragment = none) = arrivals.filter fun packet => packet.fragment = none := by
        rw [List.filter_filter]
        refine List.filter_congr fun packet _ => ?_
        by_cases hfragment : packet.fragment = none
        · have hforeignPacket : m.Foreign packet := foreign_of_whole hfragment
          simp [hfragment, hforeignPacket.not_mem]
        · simp [hfragment]
      rw [hsame, hwhole] at hperm
      refine ⟨fun entry hentry => ?_, ?_⟩
      · by_cases hpart : entry.1 ∈ m.parts
        · refine hclean entry ?_
          rw [← hown]
          exact List.mem_filter.mpr ⟨hentry, by simpa using hpart⟩
        · refine hrest entry ?_
          rw [← hforeign]
          exact List.mem_filter.mpr ⟨hentry, by simpa using hpart⟩
      · refine (received_filter_perm (fun entry => entry.1 ∈ m.parts) (r.trace arrivals)).trans ?_
        rw [hforeign, show (r.trace arrivals).filter (fun entry => decide (entry.1 ∈ m.parts)) =
          m.ownTrace (r.trace arrivals) from rfl, hown, hgives]
        exact hperm.cons _

/-- Afterwards no message is pending, and the other streams are as they were. -/
theorem after_traffic (r : FragmentReassembler) {ms : List Message}
    (hkeys : (ms.map Message.key).Nodup)
    (hlimit : ∀ m ∈ ms, payloadTotal m.parts ≤ r.maxPayloadBytes)
    (hfree : ∀ m ∈ ms, r.pending[m.key]? = none) {arrivals : List Packet}
    (hknown : ∀ packet ∈ arrivals, Known ms packet) (harrive : ∀ m ∈ ms, m.ArrivesIn arrivals) :
    (r.after arrivals).pending = r.pending := by
  refine Std.ExtTreeMap.ext_getElem? fun {key} => ?_
  by_cases hmessage : ∃ m ∈ ms, m.key = key
  · obtain ⟨m, hm, rfl⟩ := hmessage
    have htraffic : ∀ packet ∈ arrivals, packet ∈ m.parts ∨ m.Foreign packet := by
      intro packet hpacket
      rcases hknown packet hpacket with hwhole | ⟨other, hother, hpart⟩
      · exact .inr (foreign_of_whole hwhole)
      · by_cases hsame : m = other
        · rw [hsame]
          exact .inl hpart
        · exact .inr (foreign_of_key_ne (fun hkey => hsame
            (List.inj_on_of_nodup_map hkeys hm hother hkey)) hpart)
    obtain ⟨-, htracks, -⟩ := trace_own (tracks_nil (hfree m hm)) htraffic
    rw [htracks.entry, ((harrive m hm).accept (hlimit m hm)).2.2, hfree m hm]
    rfl
  · -- no packet is a fragment of this stream
    have hstep : ∀ packet ∈ arrivals, ∀ s : FragmentReassembler,
        (s.push packet).2.pending[key]? = s.pending[key]? := by
      intro packet hpacket s
      refine (s.push_other fun info hinfo hkey => ?_).1
      rcases hknown packet hpacket with hwhole | ⟨m, hm, hpart⟩
      · rw [hwhole] at hinfo
        cases hinfo
      · obtain ⟨i, hi⟩ := List.mem_iff_getElem?.mp hpart
        have hsame := (m.part_fragment i packet hi).symm.trans hinfo
        refine hmessage ⟨m, hm, hkey ▸ ?_⟩
        rw [m.part_device packet hpart, ← Option.some.inj hsame]
        rfl
    exact @run_invariant_along _ _ _ (fun s => s.pending[key]? = r.pending[key]?)
      (fun _ packet => packet ∈ arrivals) (fun s packet hs hmem => (hstep packet hmem s).trans hs)
      r rfl arrivals (along_forall_iff.mpr fun packet hmem => hmem)

end FragmentReassembler

end Aethon.Protocol
