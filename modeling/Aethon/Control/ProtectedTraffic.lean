import Aethon.Control.BackpressureSteps

/-!
# What protected traffic does to the pressure on a device

A protected packet is accepted, and the state of its device is updated as for any accepted packet:
the delay window ends and the downsampling factor goes back to one. Two controllers whose states
differ only in windows that are over answer alike from then on (`answers_of_alike`), so the
protected packet goes unnoticed exactly where there was nothing to lift
(`protected_unnoticed_iff`).
-/

namespace Aethon.Control

open Protocol Runs

/-! ## Two runs -/

/-- The states agree in what decisions depend on at a time and later. -/
structure DevicePressureState.Alike (since : UInt64) (state state' : DevicePressureState) :
    Prop where
  factor : state'.currentDownsampleFactor = state.currentDownsampleFactor
  delayed : state'.delayedPackets = state.delayedPackets
  next : state'.nextAdmitTimeNs = state.nextAdmitTimeNs ∨
    state'.nextAdmitTimeNs ≤ since ∧ state.nextAdmitTimeNs ≤ since

theorem DevicePressureState.Alike.refl (since : UInt64) (state : DevicePressureState) :
    state.Alike since state :=
  ⟨rfl, rfl, .inl rfl⟩

namespace BackpressureController

/-- The controllers agree in what decisions depend on at a time and later. -/
structure Alike (since : UInt64) (c c' : BackpressureController) : Prop where
  config : c'.config = c.config
  states : ∀ device, (c.stateOf device).Alike since (c'.stateOf device)

variable {since : UInt64} {c c' : BackpressureController}

/-- Under the same level the decisions are the same. -/
theorem Alike.decided (h : Alike since c c') (hlevel : c'.level = c.level) (packet : Packet)
    {timeNs : UInt64} (htime : since ≤ timeNs) :
    c'.decided packet timeNs = c.decided packet timeNs := by
  obtain ⟨hfactor, hdelayed, hnext⟩ := h.states packet.device
  have hexempt : c'.exempt packet = c.exempt packet := by
    rw [exempt, isProtected, h.config, hlevel]
    rfl
  have hlevels : c'.decideByLevel packet (c'.seen packet timeNs) =
      c.decideByLevel packet (c.seen packet timeNs) := by
    simp only [decideByLevel, delayFor, downsampleFor, hlevel, h.config, seen_delayed, seen_factor,
      hfactor, hdelayed]
  cases hcase : c.exempt packet with
  | true => rw [decided_of_exempt hcase, decided_of_exempt (hexempt.trans hcase), hlevel]
  | false =>
      rw [BackpressureController.decided, BackpressureController.decided,
        make_decision_of_not_exempt hcase, make_decision_of_not_exempt (hexempt.trans hcase),
        hlevels, hlevel, seen_next, seen_next, seen_factor, seen_factor, hfactor]
      rcases hnext with hsame | ⟨hover', hover⟩
      · rw [hsame]
      · -- both windows are over
        rw [if_neg (UInt64.not_lt.mpr (UInt64.le_trans hover' htime)),
          if_neg (UInt64.not_lt.mpr (UInt64.le_trans hover htime))]

/-- An offer from the time on keeps the controllers alike. -/
theorem Alike.step (h : Alike since c c') {offer : Offer} (htime : since ≤ offer.timeNs) :
    (c'.answer offer).1 = (c.answer offer).1 ∧ Alike since (c.step offer) (c'.step offer) := by
  have hobserved : Alike since (c.observe offer.level) (c'.observe offer.level) :=
    ⟨h.config, h.states⟩
  have hsame := hobserved.decided rfl offer.packet htime
  refine ⟨hsame, h.config, fun device => ?_⟩
  show (((c.observe offer.level).decide offer.packet offer.timeNs).2.stateOf device).Alike since
    (((c'.observe offer.level).decide offer.packet offer.timeNs).2.stateOf device)
  rw [state_of_decide, state_of_decide]
  split_ifs with hdevice
  · obtain ⟨hfactor, hdelayed, -⟩ := hobserved.states offer.packet.device
    refine ⟨?_, ?_, .inl ?_⟩
    · rw [applied_factor, applied_factor, hsame, hfactor]
    · rw [applied_delayed, applied_delayed, hsame, hdelayed]
    · rw [applied_next, applied_next, hsame, hobserved.config]
  · exact hobserved.states device

/-! ## Answers -/

/-- What the packets of a device that are not protected are told in a run. -/
def answers (device : DeviceId) (c : BackpressureController) :
    List Offer → List (AdmissionAction × UInt64 × UInt32)
  | [] => []
  | offer :: offers =>
      if offer.packet.device = device ∧ c.isProtected offer.packet = false then
        let decision := (c.answer offer).1
        (decision.action, decision.delayNs, decision.downsampleFactor) ::
          answers device (c.step offer) offers
      else answers device (c.step offer) offers

/-- Controllers that are alike answer alike. -/
theorem answers_of_alike (h : Alike since c c') {offers : List Offer}
    (htimes : ∀ offer ∈ offers, since ≤ offer.timeNs) (device : DeviceId) :
    answers device c' offers = answers device c offers := by
  induction offers generalizing c c' with
  | nil => rfl
  | cons offer offers ih =>
      obtain ⟨htime, hrest⟩ := List.forall_mem_cons.mp htimes
      obtain ⟨hsame, halike⟩ := h.step htime
      have hprotected : c'.isProtected offer.packet = c.isProtected offer.packet := by
        rw [isProtected, h.config]
        rfl
      rw [answers, answers, hprotected, hsame, ih halike hrest]

/-! ## Protected packets -/

/-- The state of its device behind a protected packet. -/
theorem protected_state {packet : Packet} (hexempt : c.exempt packet = true) (timeNs : UInt64) :
    (c.applied packet timeNs).nextAdmitTimeNs = timeNs ∧
      (c.applied packet timeNs).currentDownsampleFactor = 1 ∧
      (c.applied packet timeNs).delayedPackets = (c.stateOf packet.device).delayedPackets := by
  rw [applied_next, applied_factor, applied_delayed, decided_of_exempt hexempt]
  exact ⟨rfl, rfl, rfl⟩

/-- A packet of the device that is never protected. -/
def observation (device : DeviceId) : Packet where
  kind := .observation
  device := device
  sequence := 0

theorem not_protected_observation (c : BackpressureController) (device : DeviceId) :
    c.isProtected (observation device) = false := by
  unfold isProtected
  rw [Bool.and_eq_false_iff]
  exact .inr rfl

theorem exempt_observation (c : BackpressureController) (device : DeviceId) :
    c.exempt (observation device) = false := by
  rw [exempt, not_protected_observation, Bool.false_and]

/-- The answer to an observation alone. -/
theorem answers_observation (c : BackpressureController) (device : DeviceId)
    (level : PressureLevel) (timeNs : UInt64) :
    answers device c [⟨level, observation device, timeNs⟩] =
      [(((c.observe level).decided (observation device) timeNs).action,
        ((c.observe level).decided (observation device) timeNs).delayNs,
        ((c.observe level).decided (observation device) timeNs).downsampleFactor)] := by
  rw [answers, if_pos ⟨rfl, c.not_protected_observation device⟩]
  rfl

/-- Right behind a protected packet no delay window holds an observation up. -/
theorem decided_behind_protected {packet : Packet} (hexempt : c.exempt packet = true)
    (timeNs : UInt64) (level : PressureLevel) :
    ((c.decide packet timeNs).2.observe level).decided (observation packet.device) timeNs =
      ((c.decide packet timeNs).2.observe level).decideByLevel (observation packet.device)
        (((c.decide packet timeNs).2.observe level).seen (observation packet.device) timeNs) := by
  refine decided_of_level (exempt_observation _ _) ?_
  show ¬timeNs < ((c.decide packet timeNs).2.stateOf packet.device).nextAdmitTimeNs
  rw [state_of_decide, if_pos rfl, (protected_state hexempt timeNs).1]
  exact UInt64.lt_irrefl _

/-- The factor that an observation meets behind a protected packet. -/
theorem seen_behind_protected {packet : Packet} (hexempt : c.exempt packet = true)
    (timeNs : UInt64) (level : PressureLevel) :
    (((c.decide packet timeNs).2.observe level).seen (observation packet.device)
      timeNs).currentDownsampleFactor = 1 := by
  rw [seen_factor]
  show ((c.decide packet timeNs).2.stateOf packet.device).currentDownsampleFactor = 1
  rw [state_of_decide, if_pos rfl, (protected_state hexempt timeNs).2.1]

/-- If an observation at the same time is told the same with and without a protected packet before
it, the delay window is over and the factor is one. -/
theorem nothing_to_lift {packet : Packet} {timeNs : UInt64} (hexempt : c.exempt packet = true)
    (hsame : ∀ level, answers packet.device (c.decide packet timeNs).2
        [⟨level, observation packet.device, timeNs⟩] =
      answers packet.device c [⟨level, observation packet.device, timeNs⟩]) :
    (c.stateOf packet.device).nextAdmitTimeNs ≤ timeNs ∧
      (c.stateOf packet.device).currentDownsampleFactor = 1 := by
  simp only [answers_observation, decided_behind_protected hexempt] at hsame
  have hover : (c.stateOf packet.device).nextAdmitTimeNs ≤ timeNs := by
    by_contra hinside
    have hwindow := @decided_of_window (c.observe .nominal) (observation packet.device) timeNs
      (exempt_observation _ _) (UInt64.not_le.mp hinside)
    have hnominal := hsame .nominal
    rw [hwindow] at hnominal
    have haction := (Prod.mk.inj (List.cons.inj hnominal).1).1
    change AdmissionAction.accept = AdmissionAction.delay at haction
    cases haction
  refine ⟨hover, ?_⟩
  have hlevels := @decided_of_level (c.observe .throttle) (observation packet.device) timeNs
    (exempt_observation _ _) (UInt64.not_lt.mpr hover)
  have hthrottle := hsame .throttle
  rw [hlevels] at hthrottle
  have hfactors := (Prod.mk.inj (Prod.mk.inj (List.cons.inj hthrottle).1).2).2
  change (((c.decide packet timeNs).2.observe .throttle).seen (observation packet.device)
      timeNs).currentDownsampleFactor =
    ((c.observe .throttle).seen (observation packet.device) timeNs).currentDownsampleFactor
    at hfactors
  rw [seen_behind_protected hexempt, seen_factor] at hfactors
  exact hfactors.symm

/-- **Protected traffic.** Under throttling or shedding, what the packets of a device that are not
protected are told from a time on is the same with and without a protected packet of it at that time
if and only if the device's delay window is over and its factor is one. -/
theorem protected_unnoticed_iff (c : BackpressureController) (packet : Packet) (timeNs : UInt64)
    (hpacket : c.isProtected packet = true) (hlevel : c.level = .throttle ∨ c.level = .shed) :
    (∀ offers : List Offer, (∀ offer ∈ offers, timeNs ≤ offer.timeNs) →
      answers packet.device (c.decide packet timeNs).2 offers = answers packet.device c offers) ↔
      (c.stateOf packet.device).nextAdmitTimeNs ≤ timeNs ∧
        (c.stateOf packet.device).currentDownsampleFactor = 1 := by
  have hexempt : c.exempt packet = true := by
    rw [exempt, hpacket]
    rcases hlevel with h | h <;> rw [h] <;> rfl
  constructor
  · exact fun hsame => nothing_to_lift hexempt fun level =>
      hsame [⟨level, observation packet.device, timeNs⟩] (by simp)
  · rintro ⟨hover, hone⟩ offers htimes
    obtain ⟨hnext, hfactor, hdelayed⟩ := protected_state hexempt timeNs
    have halike : Alike timeNs c (c.decide packet timeNs).2 := by
      refine ⟨rfl, fun device => ?_⟩
      rw [state_of_decide]
      split_ifs with hdevice
      · rw [hdevice]
        exact ⟨hfactor.trans hone.symm, hdelayed, .inr ⟨UInt64.le_of_eq hnext, hover⟩⟩
      · exact .refl timeNs _
    exact answers_of_alike halike htimes packet.device

/-- A heartbeat of device seven. -/
def heartbeat : Packet where
  kind := .heartbeat
  device := 7
  sequence := 0

/-- The heartbeat of a device that is not known yet goes unnoticed. -/
theorem protected_unnoticed_of_new :
    answers 7 (({ level := .shed } : BackpressureController).decide heartbeat 100).2
        [⟨.shed, observation 7, 100⟩] =
      answers 7 { level := .shed } [⟨.shed, observation 7, 100⟩] :=
  (protected_unnoticed_iff { level := .shed } heartbeat 100 (by decide) (.inr rfl)).mpr
    (by decide) [⟨.shed, observation 7, 100⟩] (by decide)

/-- A device that is told to wait until the time 100100 sends a heartbeat, and its next observation
is accepted at once. -/
theorem heartbeat_lifts_delay :
    let c := (({ level := .throttle } : BackpressureController).decide (observation 7) 100).2
    c.isProtected heartbeat = true ∧ c.level = .throttle ∧
      answers 7 c [⟨.nominal, observation 7, 200⟩] = [(.delay, 99900, 1)] ∧
      answers 7 (c.decide heartbeat 150).2 [⟨.nominal, observation 7, 200⟩] =
        [(.accept, 0, 1)] := by
  decide +kernel

end BackpressureController

end Aethon.Control
