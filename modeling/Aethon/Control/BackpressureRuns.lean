import Mathlib.Algebra.GroupWithZero.Nat
import Mathlib.Data.UInt
import Aethon.Control.BackpressureSteps

/-!
# What the backpressure controller keeps

Whatever levels are observed, each decision is counted once, for its device; the downsampling factor
of a device stays within its bounds; a delay that throttling assigns is within the bounds of the
configuration; and a packet inside a delay window is told what is left of it (`backpressure_runs`).
A delay that throttling assigns is followed by another one (`told_delay_repeated`).
-/

namespace Aethon.Control

open Protocol Runs

namespace BackpressureController

/-! ## Counts -/

/-- The decisions counted for all devices. -/
def counted (c : BackpressureController) : Nat :=
  c.devices.total DevicePressureState.packets

/-- A call counts one decision, for the device of the packet. -/
theorem counted_decide (c : BackpressureController) (packet : Packet) (timeNs : UInt64) :
    (c.decide packet timeNs).2.counted + (c.stateOf packet.device).packets =
      c.counted + (c.applied packet timeNs).packets := by
  have htotal := c.devices.total_insert packet.device (c.applied packet timeNs)
    DevicePressureState.packets
  have hfound : (c.devices.lookup packet.device).elim 0 DevicePressureState.packets =
      (c.stateOf packet.device).packets := by
    unfold stateOf
    cases c.devices.lookup packet.device <;> rfl
  rw [hfound] at htotal
  exact htotal

/-- The decisions of one device are among those of all. -/
theorem packets_le_counted (c : BackpressureController) (device : DeviceId) :
    (c.stateOf device).packets ≤ c.counted := by
  unfold stateOf counted
  cases hlookup : c.devices.lookup device with
  | none => exact Nat.zero_le _
  | some state =>
      rw [SortedTable.total_of_lookup hlookup]
      exact Nat.le_add_right _ _

/-- After `n` decisions, the counters agree as far as they reach. -/
structure Tallied (n : Nat) (c : BackpressureController) : Prop where
  decisions : c.decisions.toNat = n % 2 ^ 64
  wrapped : c.counted % 2 ^ 64 = n % 2 ^ 64
  exact_count : n < 2 ^ 64 → c.counted = n

/-- A decision keeps the counts right. -/
theorem Tallied.decide {n : Nat} {c : BackpressureController} (h : Tallied n c) (packet : Packet)
    (timeNs : UInt64) : Tallied (n + 1) (c.decide packet timeNs).2 := by
  obtain ⟨hdecisions, hwrapped, hexact⟩ := h
  have hcount := c.counted_decide packet timeNs
  obtain ⟨hmod, hfits⟩ := c.applied_packets packet timeNs
  have hle := c.packets_le_counted packet.device
  refine ⟨?_, by omega, fun hn => ?_⟩
  · show (c.decisions + 1).toNat = (n + 1) % 2 ^ 64
    rw [UInt64.toNat_add, hdecisions]
    show (n % 2 ^ 64 + 1) % 2 ^ 64 = (n + 1) % 2 ^ 64
    omega
  · have hbefore := hexact (by omega)
    have hone := hfits (by omega)
    omega

/-! ## Factors -/

/-- The factor is at least one, and at most the largest one where that is more. -/
def FactorBounded (config : BackpressureConfig) (state : DevicePressureState) : Prop :=
  1 ≤ state.currentDownsampleFactor ∧
    state.currentDownsampleFactor ≤ max 1 config.maxDownsampleFactor

/-- A decision that thins out or rejects does so by at most the largest factor. -/
theorem decided_factor_le (c : BackpressureController) (packet : Packet) (timeNs : UInt64)
    (h : (c.decided packet timeNs).action = .downsample ∨
      (c.decided packet timeNs).action = .reject) :
    (c.decided packet timeNs).downsampleFactor ≤ c.config.maxDownsampleFactor := by
  by_cases hexempt : c.exempt packet = true
  · rw [decided_of_exempt hexempt] at h
    simp at h
  rw [Bool.not_eq_true] at hexempt
  by_cases hwindow : timeNs < (c.stateOf packet.device).nextAdmitTimeNs
  · rw [decided_of_window hexempt hwindow] at h
    simp at h
  rw [decided_of_level hexempt hwindow] at h ⊢
  unfold decideByLevel at h ⊢
  cases hlevel : c.level with
  | nominal | watch | throttle =>
      rw [hlevel] at h
      simp at h
  | shed =>
      show (c.downsampleFor .shed _) ≤ _
      rw [downsampleFor, UInt32.le_iff_toNat_le, UInt32.toNat_min]
      exact Nat.min_le_right _ _
  | stop => exact UInt32.le_refl _

theorem one_le_max (factor : UInt32) : 1 ≤ max 1 factor := by
  rw [UInt32.le_iff_toNat_le, UInt32.toNat_max]
  exact Nat.le_max_left _ _

theorem max_one_le_max {factor largest : UInt32} (h : factor ≤ largest) :
    max 1 factor ≤ max 1 largest := by
  rw [UInt32.le_iff_toNat_le] at h
  rw [UInt32.le_iff_toNat_le, UInt32.toNat_max, UInt32.toNat_max]
  omega

/-- A decision keeps the factor within its bounds. -/
theorem FactorBounded.applied {c : BackpressureController} {packet : Packet}
    (h : FactorBounded c.config (c.stateOf packet.device)) (timeNs : UInt64) :
    FactorBounded c.config (c.applied packet timeNs) := by
  have hle := c.decided_factor_le packet timeNs
  unfold FactorBounded
  rw [applied_factor]
  cases haction : (c.decided packet timeNs).action with
  | accept => exact ⟨UInt32.le_refl 1, one_le_max _⟩
  | delay | shed => exact h
  | downsample => exact ⟨one_le_max _, max_one_le_max (hle (.inl haction))⟩
  | reject => exact ⟨one_le_max _, max_one_le_max (hle (.inr haction))⟩

/-! ## Delays -/

/-- A clamped delay is within bounds that leave room. -/
theorem clamp_delay_within {delay minDelay maxDelay : UInt64} (h : minDelay ≤ maxDelay) :
    minDelay ≤ clampDelay delay minDelay maxDelay ∧
      clampDelay delay minDelay maxDelay ≤ maxDelay := by
  unfold clampDelay
  split_ifs with hless hgreater
  · exact ⟨UInt64.le_refl _, h⟩
  · exact ⟨h, UInt64.le_refl _⟩
  · exact ⟨UInt64.not_lt.mp hless, UInt64.not_lt.mp hgreater⟩

/-- Throttling assigns a delay within the bounds of the configuration: twice a delay below `2 ^ 58`
does not wrap to nothing. -/
theorem throttle_delay_within {c : BackpressureController} (hmin : 0 < c.config.minDelayNs)
    (hbounds : c.config.minDelayNs ≤ c.config.maxDelayNs) (hmax : c.config.maxDelayNs < 2 ^ 58)
    (device : DevicePressureState) :
    c.config.minDelayNs ≤ c.delayFor .throttle device ∧
      c.delayFor .throttle device ≤ c.config.maxDelayNs := by
  have hbase : c.config.minDelayNs * 2 ≠ 0 := by
    intro hzero
    have hnat := congrArg UInt64.toNat hzero
    rw [UInt64.toNat_mul] at hnat
    rw [UInt64.lt_iff_toNat_lt] at hmin hmax
    rw [UInt64.le_iff_toNat_le] at hbounds
    have hlimit : (2 ^ 58 : UInt64).toNat = 2 ^ 58 := by decide
    have htwo : (2 : UInt64).toNat = 2 := rfl
    have hzeroNat : (0 : UInt64).toNat = 0 := rfl
    rw [htwo, hzeroNat] at hnat
    omega
  unfold delayFor
  simp only
  rw [if_neg hbase]
  exact clamp_delay_within hbounds

/-! ## Runs -/

/-- What holds of a controller after `n` offers. -/
structure Kept (config : BackpressureConfig) (n : Nat) (c : BackpressureController) : Prop where
  config_eq : c.config = config
  tallied : Tallied n c
  factors : ∀ device, FactorBounded config (c.stateOf device)

/-- An offer keeps the controller consistent. -/
theorem Kept.step {config : BackpressureConfig} {n : Nat} {c : BackpressureController}
    (h : Kept config n c) (offer : Offer) : Kept config (n + 1) (c.step offer) := by
  obtain ⟨hconfig, htallied, hfactors⟩ := h
  have hobserved : Tallied n (c.observe offer.level) :=
    ⟨htallied.decisions, htallied.wrapped, htallied.exact_count⟩
  refine ⟨hconfig, hobserved.decide offer.packet offer.timeNs, fun device => ?_⟩
  show FactorBounded config (((c.observe offer.level).decide offer.packet offer.timeNs).2.stateOf
    device)
  rw [state_of_decide]
  split_ifs with hdevice
  · subst hconfig
    have hbounded : FactorBounded (c.observe offer.level).config
        ((c.observe offer.level).stateOf offer.packet.device) := hfactors offer.packet.device
    exact hbounded.applied offer.timeNs
  · exact hfactors device

/-- Offers keep the controller consistent. -/
theorem Kept.run {config : BackpressureConfig} {n : Nat} {c : BackpressureController}
    (h : Kept config n c) (offers : List Offer) :
    Kept config (n + offers.length) (Runs.run BackpressureController.step c offers) := by
  induction offers generalizing n c with
  | nil => exact h
  | cons offer offers ih =>
      rw [run_cons, List.length_cons, Nat.add_comm offers.length, ← Nat.add_assoc]
      exact ih (h.step offer)

/-- The next offer, of a packet that is not exempt: inside the delay window of its device it is told
what is left of it and leaves its end, and outside it a throttled one is told a delay within the
bounds. -/
structure NextDelay (c : BackpressureController) (offer : Offer) : Prop where
  window : offer.timeNs < (c.stateOf offer.packet.device).nextAdmitTimeNs →
    (c.answer offer).1.action = .delay ∧
      (c.answer offer).1.delayNs =
        (c.stateOf offer.packet.device).nextAdmitTimeNs - offer.timeNs ∧
      ((c.answer offer).2.stateOf offer.packet.device).nextAdmitTimeNs =
        (c.stateOf offer.packet.device).nextAdmitTimeNs
  throttled : ¬offer.timeNs < (c.stateOf offer.packet.device).nextAdmitTimeNs →
    offer.level = .throttle → 0 < c.config.minDelayNs →
      (c.answer offer).1.action = .delay ∧ c.config.minDelayNs ≤ (c.answer offer).1.delayNs ∧
        (c.answer offer).1.delayNs ≤ c.config.maxDelayNs

/-- The next delay is within its bounds. -/
theorem next_delay {c : BackpressureController} {offer : Offer}
    (hbounds : c.config.minDelayNs ≤ c.config.maxDelayNs) (hmax : c.config.maxDelayNs < 2 ^ 58)
    (hexempt : (c.observe offer.level).exempt offer.packet = false) : NextDelay c offer := by
  constructor
  · intro hwindow
    have hdecided := decided_of_window hexempt hwindow
    have hnext := (c.observe offer.level).applied_next offer.packet offer.timeNs
    rw [hdecided] at hnext
    refine ⟨congrArg AdmissionDecision.action hdecided,
      congrArg AdmissionDecision.delayNs hdecided, ?_⟩
    rw [answer, state_of_decide, if_pos rfl, hnext]
    show offer.timeNs + ((c.stateOf offer.packet.device).nextAdmitTimeNs - offer.timeNs) = _
    rw [UInt64.add_comm, UInt64.sub_add_cancel]
  · intro hwindow hlevel hmin
    have hdecided := decided_of_level hexempt hwindow
    have hthrottle : (c.observe offer.level).decideByLevel offer.packet
        ((c.observe offer.level).seen offer.packet offer.timeNs) =
          ⟨.delay, .throttle, c.delayFor .throttle
            ((c.observe offer.level).seen offer.packet offer.timeNs),
            ((c.observe offer.level).seen offer.packet offer.timeNs).currentDownsampleFactor,
            deviceReason offer.packet "delayed by throttle pressure"⟩ := by
      rw [hlevel]
      rfl
    rw [hthrottle] at hdecided
    have hanswer : (c.answer offer).1 = _ := hdecided
    rw [hanswer]
    exact ⟨rfl, throttle_delay_within hmin hbounds hmax _⟩

/-- **Bookkeeping.** In every run, under any levels, the decisions are those counted for the devices
as far as the counters reach, every factor is within its bounds, and a packet that is not accepted
as protected traffic is told the rest of the delay window it falls into, or under throttling a delay
within the bounds. -/
theorem backpressure_runs (config : BackpressureConfig) (offers : List Offer)
    (hbounds : config.minDelayNs ≤ config.maxDelayNs) (hmax : config.maxDelayNs < 2 ^ 58) :
    let c := run step { config } offers
    c.counted % 2 ^ 64 = c.decisions.toNat ∧
      (offers.length < 2 ^ 64 →
        c.counted = offers.length ∧ c.decisions.toNat = offers.length) ∧
      (∀ device, FactorBounded config (c.stateOf device)) ∧
      ∀ offer, (c.observe offer.level).exempt offer.packet = false → NextDelay c offer := by
  intro c
  have hnew : Kept config 0 { config } :=
    ⟨rfl, ⟨rfl, rfl, fun _ => rfl⟩, fun _ => ⟨UInt32.le_refl 1, one_le_max _⟩⟩
  have hkept := hnew.run offers
  rw [Nat.zero_add] at hkept
  obtain ⟨hconfig, htallied, hfactors⟩ := hkept
  refine ⟨htallied.wrapped.trans htallied.decisions.symm, fun hlength => ?_, hfactors,
    fun offer hexempt => next_delay (hconfig ▸ hbounds) (hconfig ▸ hmax) hexempt⟩
  exact ⟨htallied.exact_count hlength,
    htallied.decisions.trans (Nat.mod_eq_of_lt hlength)⟩

/-- An observation of device seven, offered at a time under a level. -/
def observed (level : PressureLevel) (timeNs : UInt64) : Offer where
  level := level
  packet := { device := 7, sequence := 1 }
  timeNs := timeNs

/-- It is delayed under throttling, and told the rest of its delay when the pressure has gone. -/
theorem backpressure_runs_observed :
    (run step {} [observed .throttle 100]).counted = 1 ∧
      ((run step {} [observed .throttle 100]).answer (observed .nominal 120)).1.delayNs =
        99980 := by
  obtain ⟨-, hcounted, -, hnext⟩ :=
    backpressure_runs {} [observed .throttle 100] (by decide) (by decide)
  have hwindow := (hnext (observed .nominal 120) (by decide)).window (by decide +kernel)
  refine ⟨(hcounted (by decide)).1, hwindow.2.1.trans (by decide +kernel)⟩

/-! ## Throttling -/

/-- Under throttling, a packet that is not protected is delayed. -/
theorem throttled_action {c : BackpressureController} {packet : Packet}
    (hlevel : c.level = .throttle) (hpacket : c.isProtected packet = false) (timeNs : UInt64) :
    (c.decide packet timeNs).1.action = .delay := by
  have hexempt : c.exempt packet = false := by rw [exempt, hpacket, Bool.false_and]
  show (c.decided packet timeNs).action = .delay
  by_cases hwindow : timeNs < (c.stateOf packet.device).nextAdmitTimeNs
  · rw [decided_of_window hexempt hwindow]
  · rw [decided_of_level hexempt hwindow, decideByLevel, hlevel]

/-- Offers under throttling leave the level and the configuration, and offers of other devices leave
the state of a device. -/
theorem throttled_run {c : BackpressureController} (hlevel : c.level = .throttle)
    {offers : List Offer} (hoffers : ∀ offer ∈ offers, offer.level = .throttle) :
    (run step c offers).level = .throttle ∧ (run step c offers).config = c.config ∧
      ∀ device, (∀ offer ∈ offers, offer.packet.device ≠ device) →
        (run step c offers).stateOf device = c.stateOf device := by
  induction offers generalizing c with
  | nil => exact ⟨hlevel, rfl, fun _ _ => rfl⟩
  | cons offer offers ih =>
      obtain ⟨hfirst, hrest⟩ := List.forall_mem_cons.mp hoffers
      obtain ⟨hlast, hconfig, hstates⟩ := @ih (c.step offer) hfirst hrest
      refine ⟨hlast, hconfig, fun device hdevice => ?_⟩
      obtain ⟨hother, hothers⟩ := List.forall_mem_cons.mp hdevice
      rw [run_cons, hstates device hothers]
      show ((c.observe offer.level).decide offer.packet offer.timeNs).2.stateOf device = _
      rw [state_of_decide, if_neg hother.symm]
      rfl

/-- **Delay after delay.** Under constant throttling a packet that is not protected is told a delay;
offered again when it is over, at the admit time of its device, it is told another one; and so it is
at any time, whatever is offered meanwhile. -/
theorem told_delay_repeated (c : BackpressureController) (packet : Packet) (timeNs : UInt64)
    (meanwhile : List Offer) (hlevel : c.level = .throttle)
    (hpacket : c.isProtected packet = false)
    (hmeanwhile : ∀ offer ∈ meanwhile,
      offer.level = .throttle ∧ offer.packet.device ≠ packet.device) :
    let told := c.decide packet timeNs
    let later := run step told.2 meanwhile
    told.1.action = .delay ∧
      (later.stateOf packet.device).nextAdmitTimeNs = timeNs + told.1.delayNs ∧
      (later.decide packet (timeNs + told.1.delayNs)).1.action = .delay ∧
      ∀ offers laterNs, (∀ offer ∈ offers, offer.level = .throttle) →
        ((run step told.2 offers).decide packet laterNs).1.action = .delay := by
  intro told later
  have hdelayed : ∀ offers laterNs, (∀ offer ∈ offers, offer.level = .throttle) →
      ((run step told.2 offers).decide packet laterNs).1.action = .delay := by
    intro offers laterNs hoffers
    have htold : told.2.level = .throttle := hlevel
    obtain ⟨hlast, hconfig, -⟩ := throttled_run htold hoffers
    refine throttled_action hlast ?_ laterNs
    rw [isProtected, hconfig]
    exact hpacket
  have htold : told.1.action = .delay := throttled_action hlevel hpacket timeNs
  have hthrottled : ∀ offer ∈ meanwhile, offer.level = .throttle :=
    fun offer hoffer => (hmeanwhile offer hoffer).1
  refine ⟨htold, ?_, hdelayed meanwhile _ hthrottled, hdelayed⟩
  have hlevel' : told.2.level = .throttle := hlevel
  obtain ⟨-, -, hstates⟩ := throttled_run hlevel' hthrottled
  rw [hstates packet.device fun offer hoffer => (hmeanwhile offer hoffer).2]
  show ((c.decide packet timeNs).2.stateOf packet.device).nextAdmitTimeNs = _
  rw [state_of_decide, if_pos rfl, applied_next]
  have haction : (c.decided packet timeNs).action = .delay := htold
  rw [haction]
  rfl

/-- An observation that is offered again when its delay is over, behind one of another device. -/
theorem told_delay_repeated_observed :
    ((run step (({ level := .throttle } : BackpressureController).decide
      (observed .throttle 100).packet 100).2
        [⟨.throttle, { device := 8, sequence := 1 }, 500⟩]).decide
          (observed .throttle 100).packet
          (100 + (({ level := .throttle } : BackpressureController).decide
            (observed .throttle 100).packet 100).1.delayNs)).1.action = .delay :=
  (told_delay_repeated { level := .throttle } (observed .throttle 100).packet 100
    [⟨.throttle, { device := 8, sequence := 1 }, 500⟩] rfl (by decide) (by decide)).2.2.1

/-- Told to wait until the time 100100, it is told then to wait for twice as long. -/
theorem delay_not_honoured :
    let c : BackpressureController := { level := .throttle }
    let packet := (observed .throttle 100).packet
    (c.decide packet 100).1.action = .delay ∧ (c.decide packet 100).1.delayNs = 100000 ∧
      ((c.decide packet 100).2.decide packet 100100).1.action = .delay ∧
      ((c.decide packet 100).2.decide packet 100100).1.delayNs = 200000 := by
  decide +kernel

end BackpressureController

end Aethon.Control
