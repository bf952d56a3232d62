/- Kista/Tdma/Configuration
   source: src/src/comm_res/buses/tdma_bus.cpp
   digest: The setters of the bus and the completion of its configuration, and exactly when an
   accepted configuration is usable. -/

import Kista.Containers.Fallible
import Kista.Numeric.Binary64
import Kista.Tdma.Divisions
import Kista.Tdma.OverlapCheck

set_option autoImplicit false
set_option relaxedAutoImplicit false

/-!
A time is a count of resolution units in 64 bits. Rates, their products and quotients are doubles,
rounded after each operation. Zero stands for a value that has not been set, and an error ends the
elaboration. A value that does not fit is converted to whatever the platform makes of it.
-/

namespace Kista.Tdma.Configuration

open Containers.Fallible Numeric.Binary64 Delays OffsetDelay SlotAllocation OverlapCheck Divisions

variable {α : Type}

/-- What the code leaves to the platform: the seconds of a unit of time, the double that a time is
converted to, and the conversions of values that do not fit. A quotient by zero is no number. -/
structure Platform where
  resolution : ℚ
  toSeconds : ℕ → ℚ
  unfit : Option ℚ → UInt32
  unfitTime : ℕ → UInt64

/-- `(unsigned int) q` -/
def Platform.counter (platform : Platform) (q : Option ℚ) : UInt32 :=
  (q.bind toUnsigned).getD (platform.unfit q)

def Platform.time (platform : Platform) (n : ℕ) : UInt64 :=
  (toTime n).getD (platform.unfitTime n)

def quotient (a b : ℚ) : Option ℚ := if b = 0 then none else some (rounded (a / b))

structure Bus (α : Type) where
  slots : TdmaBus α
  slotTime : UInt64
  guardTime : UInt64
  cycleTime : UInt64
  initialOffsetTime : UInt64
  channelCapacity : UInt32
  chPayloadBits : UInt32
  chPayloadRate : ℚ
  channelBW : UInt32
  channelEBW : UInt32
  eBW : UInt32

def initBus : Bus α where
  slots := initParams
  slotTime := 0
  guardTime := 0
  cycleTime := 0
  initialOffsetTime := 0
  channelCapacity := 0
  chPayloadBits := 0
  chPayloadRate := 0
  channelBW := 0
  channelEBW := 0
  eBW := 0

inductive Setter where
  | nChannels (n : UInt32)
  | slotTime (time : UInt64)
  | channelCapacity (bits : UInt32)
  | channelPayloadRate (rate : {rate : ℚ // IsDouble rate ∧ 0 < rate})
  | channelPayloadBits (bits : UInt32)
  | guardTime (time : UInt64)
  | cycleTime (time : UInt64)
  | initialOffsetTime (time : UInt64)

def set (bus : Bus α) : Setter → Bus α
  | .nChannels n => { bus with slots := setNChannels bus.slots n }
  | .slotTime time => { bus with slotTime := time }
  | .channelCapacity bits => { bus with channelCapacity := bits }
  | .channelPayloadRate rate => { bus with chPayloadRate := rate }
  | .channelPayloadBits bits => { bus with chPayloadBits := bits }
  | .guardTime time => { bus with guardTime := time }
  | .cycleTime time => { bus with cycleTime := time }
  | .initialOffsetTime time => { bus with initialOffsetTime := time }

/-- The calls before the end of the elaboration: setters and allocations, in any order. -/
inductive Step (α : Type) where
  | set (setter : Setter)
  | allocate (c : Call α)

/-- A rejected allocation leaves what it has written, an undefined one leaves nothing. -/
def step [LinearOrder α] (bus : Bus α) : Step α → Option (Bus α)
  | .set setter => some (set bus setter)
  | .allocate c => (call bus.slots c).bus?.map fun slots => { bus with slots }

def configure [LinearOrder α] (steps : List (Step α)) : Option (Bus α) := steps.foldlM step initBus

inductive Report (α : Type) where
  | channelsNotConfigured
  | slotTimeNotConfigured
  | payloadNotConfigured
  | payloadInconsistent
  | tooManyAllocated (allocated available : UInt32)
  | cycleTimeTooShort (cycleTime : UInt64) (nChannels : UInt32) (slotTime guardTime : UInt64)
  | slotAllocation (report : CheckReport α)

/-- `MAX_TDMA_BUS_CONF_ERROR`, `0.001` -/
def maxConfError : ℚ := rounded (1 / 1000)

def checkMandatory (bus : Bus α) : Except (Report α) Unit :=
  if bus.slots.nChannels = 0 then .error .channelsNotConfigured
  else if bus.slotTime = 0 then .error .slotTimeNotConfigured
  else .ok ()

/-- The deviation of the given payload rate from the rate of the given payload bits. -/
def confError (bus : Bus α) : ℚ :=
  let calcPrate := rounded ((bus.chPayloadBits.toNat : ℚ) / bus.channelCapacity.toNat)
  if calcPrate > bus.chPayloadRate then
    rounded (rounded (calcPrate - bus.chPayloadRate) / bus.chPayloadRate)
  else rounded (rounded (bus.chPayloadRate - calcPrate) / calcPrate)

/-- `channel_capacity*ch_payload_rate` -/
def payloadProduct (bus : Bus α) : ℚ := rounded (bus.channelCapacity.toNat * bus.chPayloadRate)

/-- The payload bits, given directly or by capacity and rate. -/
def completePayload (platform : Platform) (bus : Bus α) : Except (Report α) UInt32 :=
  if bus.chPayloadBits = 0 ∧ (bus.chPayloadRate = 0 ∨ bus.channelCapacity = 0) then
    .error .payloadNotConfigured
  else if bus.chPayloadBits = 0 ∧ bus.chPayloadRate ≠ 0 ∧ bus.channelCapacity ≠ 0 then
    .ok (platform.counter (some (payloadProduct bus)))
  else if bus.chPayloadBits ≠ 0 ∧ bus.chPayloadRate ≠ 0 ∧ bus.channelCapacity ≠ 0 then
    if confError bus > maxConfError then .error .payloadInconsistent
    else .ok bus.chPayloadBits
  else .ok bus.chPayloadBits

/-- `n_channels*(slot_time+guard_time)` -/
def slotsTime (platform : Platform) (bus : Bus α) : UInt64 :=
  platform.time (bus.slots.nChannels.toNat * (bus.slotTime + bus.guardTime).toNat)

def completeCycleTime (platform : Platform) (bus : Bus α) : UInt64 :=
  if bus.cycleTime = 0 then slotsTime platform bus else bus.cycleTime

/-- Bits for each second of the cycle. -/
def bandwidth (platform : Platform) (bits : UInt32) (cycleTime : UInt64) : UInt32 :=
  platform.counter (quotient bits.toNat (platform.toSeconds cycleTime.toNat))

def checkAllocated (bus : Bus α) : Except (Report α) Unit :=
  if bus.slots.nChannels < bus.slots.nAllocatedChannels then
    .error (.tooManyAllocated bus.slots.nAllocatedChannels bus.slots.nChannels)
  else .ok ()

def checkCycleTime (platform : Platform) (bus : Bus α) : Except (Report α) Unit :=
  if bus.cycleTime < slotsTime platform bus then
    .error (.cycleTimeTooShort bus.cycleTime bus.slots.nChannels bus.slotTime bus.guardTime)
  else .ok ()

def checkSlots [LinearOrder α] (bus : Bus α) : Except (Report α) Unit :=
  match checkSlotAllocation bus.slots with
  | .error report => .error (.slotAllocation report)
  | .ok _ => .ok ()

/-- The bandwidths of a channel and of the bus after payload and cycle are known. -/
def complete (platform : Platform) (bus : Bus α) (chPayloadBits : UInt32) : Bus α :=
  let cycleTime := completeCycleTime platform bus
  let channelEBW := bandwidth platform chPayloadBits cycleTime
  { bus with
    chPayloadBits := chPayloadBits
    cycleTime := cycleTime
    channelBW := bandwidth platform bus.channelCapacity cycleTime
    channelEBW := channelEBW
    eBW := channelEBW * bus.slots.nChannels }

def beforeEndOfElaboration [LinearOrder α] (platform : Platform) (bus : Bus α) :
    Except (Report α) (Bus α) := do
  checkMandatory bus
  let chPayloadBits ← completePayload platform bus
  let completed := complete platform bus chPayloadBits
  checkAllocated completed
  checkCycleTime platform completed
  checkSlots completed
  return completed

/-- The times of the bus as the delay functions read them. -/
def clock (bus : Bus α) : BusClock where
  cycleTime := bus.cycleTime
  slotTime := bus.slotTime
  initialOffsetTime := bus.initialOffsetTime

def timing (bus : Bus α) : BusTiming where
  nChannels := bus.slots.nChannels
  slotTime := bus.slotTime.toNat
  guardTime := bus.guardTime.toNat
  cycleTime := bus.cycleTime.toNat
  chPayloadBits := bus.chPayloadBits
  initialOffsetTime := bus.initialOffsetTime.toNat

/-- How far the payload bits are from capacity times rate, as a part of the smaller. -/
def DeviatesBy (bus : Bus α) (part : ℚ) : Prop :=
  |(bus.chPayloadBits.toNat : ℚ) - bus.channelCapacity.toNat * bus.chPayloadRate| ≤
    part * min (bus.chPayloadBits.toNat : ℚ) (bus.channelCapacity.toNat * bus.chPayloadRate)

/-- Payload bits, capacity and rate are all given. -/
def GivenTwice (bus : Bus α) : Prop :=
  bus.chPayloadBits ≠ 0 ∧ bus.channelCapacity ≠ 0 ∧ bus.chPayloadRate ≠ 0

/-- What an accepted configuration is good for, beside the one that was given. -/
structure Usable (given accepted : Bus α) : Prop where
  payload : 1 ≤ accepted.chPayloadBits.toNat
  cycle : 0 < accepted.cycleTime.toNat
  slots : accepted.slots.nChannels.toNat * (accepted.slotTime.toNat + accepted.guardTime.toNat) ≤
    accepted.cycleTime.toNat
  consistent : GivenTwice given → DeviatesBy accepted (1 / 1000)
  delays : NeverDividesByZero (clock accepted) (timing accepted)

/-- The payload bits are given, or capacity and rate make a whole bit that the conversion does not
lose; all slots with their guards do not take longer than a time can be; and the deviation is not
in the band above a thousandth where rounding decides. -/
structure Sound (platform : Platform) (bus : Bus α) : Prop where
  payload : bus.chPayloadBits ≠ 0 ∨ 1 ≤ payloadProduct bus ∧
    (payloadProduct bus < 2 ^ 32 ∨ platform.unfit (some (payloadProduct bus)) ≠ 0)
  slots : bus.slots.nChannels.toNat * (bus.slotTime.toNat + bus.guardTime.toNat) < 2 ^ 64
  consistent : GivenTwice bus →
    ¬ (¬ DeviatesBy bus (1 / 1000) ∧ DeviatesBy bus (1 / 1000 + 1 / 2 ^ 52))

/-! ### Configurations before their completion -/

/-- What holds of every configuration before its completion. -/
structure Unfinished (bus : Bus α) : Prop where
  double : IsDouble bus.chPayloadRate
  rate : 0 ≤ bus.chPayloadRate
  bandwidth : bus.channelEBW = 0

theorem unfinished_init : Unfinished (initBus : Bus α) := ⟨rounded_zero, le_refl 0, rfl⟩

theorem Unfinished.step [LinearOrder α] {bus bus' : Bus α} {s : Step α}
    (unfinished : Unfinished bus) (h : step bus s = some bus') : Unfinished bus' := by
  cases s with
  | set setter =>
    obtain rfl : set bus setter = bus' := Option.some.inj h
    cases setter with
    | channelPayloadRate rate => exact ⟨rate.2.1, rate.2.2.le, unfinished.bandwidth⟩
    | _ => exact ⟨unfinished.double, unfinished.rate, unfinished.bandwidth⟩
  | allocate c =>
    obtain ⟨slots, -, rfl⟩ := Option.map_eq_some_iff.mp h
    exact ⟨unfinished.double, unfinished.rate, unfinished.bandwidth⟩

theorem Unfinished.foldlM [LinearOrder α] {steps : List (Step α)} {bus bus' : Bus α}
    (unfinished : Unfinished bus) (h : steps.foldlM Configuration.step bus = some bus') :
    Unfinished bus' := by
  induction steps generalizing bus with
  | nil =>
    obtain rfl : bus = bus' := Option.some.inj h
    exact unfinished
  | cons s steps ih =>
    rw [List.foldlM_cons] at h
    obtain ⟨next, hnext, hrest⟩ := Option.bind_eq_some_iff.mp h
    exact ih (unfinished.step hnext) hrest

theorem unfinished_of_configure [LinearOrder α] {steps : List (Step α)} {bus : Bus α}
    (h : configure steps = some bus) : Unfinished bus := unfinished_init.foldlM h

/-! ### Conversions -/

section Conversions

variable (platform : Platform)

theorem counter_of_lt {q : ℚ} (fits : ⌊q⌋₊ < 2 ^ 32) :
    (platform.counter (some q)).toNat = ⌊q⌋₊ := by
  obtain ⟨value, exact⟩ := toUnsigned_of_lt fits
  rw [Platform.counter, Option.bind_some, value, Option.getD_some, exact]

theorem counter_of_ge {q : ℚ} (large : ¬ ⌊q⌋₊ < 2 ^ 32) :
    platform.counter (some q) = platform.unfit (some q) := by
  rw [Platform.counter, Option.bind_some, toUnsigned_of_ge large, Option.getD_none]

theorem time_of_lt {n : ℕ} (fits : n < 2 ^ 64) : (platform.time n).toNat = n := by
  obtain ⟨value, exact⟩ := toTime_of_lt fits
  rw [Platform.time, value, Option.getD_some, exact]

/-- What is not truncated to zero, nor converted to it. -/
theorem counter_ne_zero_iff {q : ℚ} : platform.counter (some q) ≠ 0 ↔
    1 ≤ q ∧ (q < 2 ^ 32 ∨ platform.unfit (some q) ≠ 0) := by
  have floor : ∀ n : ℕ, n ≠ 0 → (n ≤ ⌊q⌋₊ ↔ (n : ℚ) ≤ q) := fun n some => Nat.le_floor_iff' some
  by_cases fits : ⌊q⌋₊ < 2 ^ 32
  · have below : ¬ (2 ^ 32 : ℕ) ≤ q := by
      rw [← floor _ (by omega)]
      exact not_le.mpr fits
    rw [← one_le_toNat_iff, counter_of_lt platform fits, floor 1 (by omega), Nat.cast_one]
    push_cast at below
    rw [and_iff_left (.inl (not_le.mp below))]
  · have above : (2 ^ 32 : ℕ) ≤ q := (floor _ (by omega)).mp (not_lt.mp fits)
    push_cast at above
    have least : (1 : ℚ) ≤ q := by linarith
    have large : ¬ q < 2 ^ 32 := by
      apply not_lt.mpr
      linarith
    rw [counter_of_ge platform fits, and_iff_right least, or_iff_right large]

end Conversions

/-! ### What the completion computes -/

section Completion

variable {platform : Platform} {bus bus' : Bus α}

/-- Payload bits are taken over when they are given, and derived otherwise. -/
theorem completePayload_ok {bits : UInt32} (h : completePayload platform bus = .ok bits) :
    (bus.chPayloadBits ≠ 0 ∧ bits = bus.chPayloadBits ∧ (bus.channelCapacity ≠ 0 →
        bus.chPayloadRate ≠ 0 → confError bus ≤ maxConfError)) ∨
      (bus.chPayloadBits = 0 ∧
        bits = platform.counter (some (payloadProduct bus))) := by
  rw [completePayload] at h
  by_cases given : bus.chPayloadBits = 0
  · right
    simp only [given, true_and, ne_eq, not_true_eq_false, false_and, if_false] at h
    split_ifs at h with missing both
    · exact ⟨given, (Except.ok.inj h).symm⟩
    · exact absurd ⟨fun zero => missing (.inl zero), fun zero => missing (.inr zero)⟩ both
  · left
    simp only [given, false_and, if_false, ne_eq, not_false_eq_true, true_and] at h
    refine ⟨given, ?_, ?_⟩
    · split_ifs at h <;> exact (Except.ok.inj h).symm
    · intro capacity rate
      rw [if_pos ⟨rate, capacity⟩] at h
      split_ifs at h with inconsistent
      exact not_lt.mp inconsistent

theorem completePayload_derived (missing : bus.chPayloadBits = 0)
    (rate : bus.chPayloadRate ≠ 0) (capacity : bus.channelCapacity ≠ 0) :
    completePayload platform bus =
      .ok (platform.counter (some (payloadProduct bus))) := by
  rw [completePayload, if_neg, if_pos ⟨missing, rate, capacity⟩]
  rintro ⟨-, zero | zero⟩
  · exact rate zero
  · exact capacity zero

theorem payload_iff {bits : UInt32} (h : completePayload platform bus = .ok bits) :
    1 ≤ bits.toNat ↔ bus.chPayloadBits ≠ 0 ∨
      1 ≤ payloadProduct bus ∧ (payloadProduct bus < 2 ^ 32 ∨
        platform.unfit (some (payloadProduct bus)) ≠ 0) := by
  rcases completePayload_ok h with ⟨given, rfl, -⟩ | ⟨missing, rfl⟩
  · exact iff_of_true (one_le_toNat_iff.mpr given) (.inl given)
  · rw [one_le_toNat_iff, counter_ne_zero_iff, or_iff_right (not_not.mpr missing)]

theorem checkMandatory_ok (h : checkMandatory bus = .ok ()) :
    bus.slots.nChannels ≠ 0 ∧ bus.slotTime ≠ 0 := by
  rw [checkMandatory] at h
  split_ifs at h with channels slot
  exact ⟨channels, slot⟩

theorem toNat_pos {time : UInt64} (h : time ≠ 0) : 0 < time.toNat := by
  rwa [← UInt64.pos_iff_ne_zero, UInt64.lt_iff_toNat_lt, UInt64.toNat_zero] at h

/-- The time of the slots is exact when it fits: then no slot with its guard wraps around. -/
theorem slotsTime_toNat (platform : Platform) (some : bus.slots.nChannels ≠ 0)
    (fits : bus.slots.nChannels.toNat * (bus.slotTime.toNat + bus.guardTime.toNat) < 2 ^ 64) :
    (slotsTime platform bus).toNat =
      bus.slots.nChannels.toNat * (bus.slotTime.toNat + bus.guardTime.toNat) := by
  have slot : bus.slotTime.toNat + bus.guardTime.toNat < 2 ^ 64 :=
    (Nat.le_mul_of_pos_left _ (one_le_toNat_iff.mpr some)).trans_lt fits
  have exact : (bus.slotTime + bus.guardTime).toNat = bus.slotTime.toNat + bus.guardTime.toNat := by
    rw [UInt64.toNat_add, Nat.mod_eq_of_lt slot]
  rw [slotsTime, exact, time_of_lt platform fits]

theorem checkCycleTime_ok (h : checkCycleTime platform bus = .ok ()) :
    (slotsTime platform bus).toNat ≤ bus.cycleTime.toNat := by
  rw [checkCycleTime] at h
  split_ifs at h with short
  rw [UInt64.lt_iff_toNat_lt] at short
  exact not_lt.mp short

/-- A checked cycle has room for all slots with their guards. -/
theorem slots_le_cycle (some : bus.slots.nChannels ≠ 0)
    (fits : bus.slots.nChannels.toNat * (bus.slotTime.toNat + bus.guardTime.toNat) < 2 ^ 64)
    (h : checkCycleTime platform bus = .ok ()) :
    bus.slots.nChannels.toNat * (bus.slotTime.toNat + bus.guardTime.toNat) ≤
      bus.cycleTime.toNat := by
  rw [← slotsTime_toNat platform some fits]
  exact checkCycleTime_ok h

theorem cycle_pos (some : bus.slots.nChannels ≠ 0) (slot : bus.slotTime ≠ 0)
    (fits : bus.slots.nChannels.toNat * (bus.slotTime.toNat + bus.guardTime.toNat) < 2 ^ 64)
    (h : checkCycleTime platform bus = .ok ()) : 0 < bus.cycleTime.toNat := by
  apply lt_of_lt_of_le _ (slots_le_cycle some fits h)
  apply Nat.mul_pos (one_le_toNat_iff.mpr some)
  have positive := toNat_pos slot
  omega

theorem maxConfError_le : maxConfError ≤ 1 / 1000 * (1 + 1 / 2 ^ 53) :=
  rounded_le (by norm_num)

/-- A computed deviation that is accepted is an exact one up to the rounding of its operations. -/
theorem deviation_le {x r : ℚ} (hx : 0 < x) (hr : 0 < r) (double : IsDouble r)
    (h : (if rounded x > r then rounded (rounded (rounded x - r) / r)
      else rounded (rounded (r - rounded x) / rounded x)) ≤ maxConfError) :
    |x - r| ≤ (1 / 1000 + 1 / 2 ^ 52) * min x r := by
  have lower := le_rounded hx.le
  have upper := rounded_le hx.le
  have limit := maxConfError_le
  split_ifs at h with higher
  · have exceeds : r < x := by
      by_contra below
      exact absurd (double.rounded_le hx (not_lt.mp below)) (not_le.mpr higher)
    have computed := relative_difference hr higher.le h
    have bound : maxConfError * r ≤ 1 / 1000 * (1 + 1 / 2 ^ 53) * r :=
      mul_le_mul_of_nonneg_right limit hr.le
    rw [min_eq_right exceeds.le, abs_of_pos (sub_pos.mpr exceeds)]
    linarith
  · have positive := rounded_pos hx
    have computed := relative_difference positive (not_lt.mp higher) h
    have bound : maxConfError * rounded x ≤ 1 / 1000 * (1 + 1 / 2 ^ 53) * rounded x :=
      mul_le_mul_of_nonneg_right limit positive.le
    rcases le_total x r with below | exceeds
    · rw [min_eq_left below, abs_of_nonpos (sub_nonpos.mpr below)]
      linarith
    · rw [min_eq_right exceeds, abs_of_nonneg (sub_nonneg.mpr exceeds)]
      linarith

/-- An accepted configuration deviates by no more than the declared part and the roundings. -/
theorem deviatesBy_of_confError (double : IsDouble bus.chPayloadRate)
    (rate : 0 < bus.chPayloadRate) (given : GivenTwice bus) (h : confError bus ≤ maxConfError) :
    DeviatesBy bus (1 / 1000 + 1 / 2 ^ 52) := by
  have hcapacity : (0 : ℚ) < bus.channelCapacity.toNat := by
    exact_mod_cast one_le_toNat_iff.mpr given.2.1
  have hpayload : (0 : ℚ) < bus.chPayloadBits.toNat := by
    exact_mod_cast one_le_toNat_iff.mpr given.1
  have near := deviation_le (div_pos hpayload hcapacity) rate double h
  have bits : (bus.chPayloadBits.toNat : ℚ) =
      bus.channelCapacity.toNat * (bus.chPayloadBits.toNat / bus.channelCapacity.toNat) :=
    (mul_div_cancel₀ _ hcapacity.ne').symm
  rw [DeviatesBy, bits, ← mul_sub, abs_mul, abs_of_pos hcapacity,
    ← mul_min_of_nonneg _ _ hcapacity.le, mul_left_comm]
  exact mul_le_mul_of_nonneg_left near hcapacity.le

variable [LinearOrder α]

/-- The completed configuration with all that has been checked of it. -/
theorem beforeEndOfElaboration_ok (h : beforeEndOfElaboration platform bus = .ok bus') :
    ∃ bits, bus' = complete platform bus bits ∧ checkMandatory bus = .ok () ∧
      completePayload platform bus = .ok bits ∧ checkCycleTime platform bus' = .ok () := by
  obtain ⟨⟨⟩, mandatory, h⟩ := bind_eq_ok.mp h
  obtain ⟨bits, payload, h⟩ := bind_eq_ok.mp h
  obtain ⟨⟨⟩, -, h⟩ := bind_eq_ok.mp h
  obtain ⟨⟨⟩, checked, h⟩ := bind_eq_ok.mp h
  obtain ⟨⟨⟩, -, h⟩ := bind_eq_ok.mp h
  obtain rfl := Except.ok.inj h
  exact ⟨bits, rfl, mandatory, payload, checked⟩

/-- A configuration that passes every check is accepted. -/
theorem beforeEndOfElaboration_eq {bits : UInt32} (mandatory : checkMandatory bus = .ok ())
    (payload : completePayload platform bus = .ok bits) (allocated : checkAllocated bus = .ok ())
    (long : checkCycleTime platform (complete platform bus bits) = .ok ())
    (disjoint : checkSlots bus = .ok ()) :
    beforeEndOfElaboration platform bus = .ok (complete platform bus bits) := by
  have counted : checkAllocated (complete platform bus bits) = .ok () := allocated
  have slots : checkSlots (complete platform bus bits) = .ok () := disjoint
  simp only [beforeEndOfElaboration, mandatory, payload, bind, Except.bind, counted, long, slots]
  rfl

/-- The delay functions' assumptions hold of the times of a usable bus. -/
theorem Usable.timing_accepted (accepted : beforeEndOfElaboration platform bus = .ok bus')
    (usable : Usable bus bus') : Accepted (timing bus') := by
  obtain ⟨bits, rfl, mandatory, -, -⟩ := beforeEndOfElaboration_ok accepted
  obtain ⟨channels, slot⟩ := checkMandatory_ok mandatory
  constructor
  · exact one_le_toNat_iff.mpr channels
  · exact Nat.cast_pos.mpr (toNat_pos slot)
  · exact Nat.cast_nonneg _
  · exact usable.payload
  · have slots : bus.slots.nChannels.toNat * (bus.slotTime.toNat + bus.guardTime.toNat) ≤
        (completeCycleTime platform bus).toNat := usable.slots
    show (bus.slots.nChannels.toNat : ℚ) * (bus.slotTime.toNat + bus.guardTime.toNat) ≤
      (completeCycleTime platform bus).toNat
    exact_mod_cast slots
  · exact Nat.cast_nonneg _

end Completion

/-- Picoseconds; a value that does not fit becomes zero. -/
def picoseconds : Platform where
  resolution := 1 / 10 ^ 12
  toSeconds n := rounded (rounded n * rounded (1000 * rounded (1 / 10 ^ 15)))
  unfit _ := 0
  unfitTime _ := 0

/-- Two slots of a millisecond, one of them allocated. -/
def twoSlots (setters : List Setter) : List (Step ℕ) :=
  [.set (.nChannels 2), .set (.slotTime 1000000000), .allocate (.automatic 0 1)] ++
    setters.map .set

def twoSlotsBus (setters : List Setter) : Bus ℕ :=
  (configure (twoSlots setters)).getD initBus

/-- One bit in each slot of which half is payload. -/
def halfBit : List Setter := [.channelCapacity 1, .channelPayloadRate ⟨1 / 2, by decide +kernel⟩]

end Kista.Tdma.Configuration
