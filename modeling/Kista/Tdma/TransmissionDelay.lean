/- Kista/Tdma/TransmissionDelay
   source: src/src/comm_res/buses/tdma_bus.cpp, tdma_bus.hpp
   digest: The counters of the transmission delay in closed form, and the delay against the
   timeline of the bus. -/

import Kista.Tdma.Delays
import Kista.Tdma.Timeline
import Mathlib.Tactic.FieldSimp
import Mathlib.Tactic.Positivity

set_option autoImplicit false
set_option relaxedAutoImplicit false

namespace Kista.Tdma.TransmissionDelay

open Kista.Tdma.Delays Kista.Tdma.Timeline

theorem roundedUp_toNat {a b : UInt32} (present : 1 ≤ a.toNat) :
    (roundedUp a b).toNat = (a.toNat - 1) / b.toNat + 1 := by
  have step := Nat.succ_div (a := a.toNat - 1) (b := b.toNat)
  rw [Nat.sub_add_cancel present] at step
  have remainder : a % b ≠ 0 ↔ ¬ b.toNat ∣ a.toNat := by
    rw [Nat.dvd_iff_mod_eq_zero, ← UInt32.toNat_mod, ne_eq, ← UInt32.toNat_inj,
      UInt32.toNat_zero]
  rw [roundedUp]
  by_cases exact : b.toNat ∣ a.toNat
  · rw [if_neg (by rwa [remainder, not_not]), UInt32.toNat_div, step, if_pos exact]
  · rw [if_pos (remainder.mpr exact), UInt32.toNat_add, UInt32.toNat_div, UInt32.toNat_one, step,
      if_neg exact, add_zero, Nat.mod_eq_of_lt]
    have bound := a.toNat_lt
    have := Nat.div_le_self (a.toNat - 1) b.toNat
    omega

/-- The slots that the bits before the last one fill. -/
def fullSlots (bus : BusTiming) (msgSize : UInt32) : ℕ :=
  (msgSize.toNat - 1) / bus.chPayloadBits.toNat

section Counters

variable {bus : BusTiming} {msgSize slotsAllocated : UInt32}

theorem slotsRequired_toNat (size : 1 ≤ msgSize.toNat) :
    (slotsRequired bus msgSize).toNat = fullSlots bus msgSize + 1 :=
  roundedUp_toNat size

theorem slotsRequired_sub_one (size : 1 ≤ msgSize.toNat) :
    (slotsRequired bus msgSize - 1).toNat = fullSlots bus msgSize :=
  toNat_sub_one (slotsRequired_toNat size)

theorem tdmaCyclesRequired_toNat (size : 1 ≤ msgSize.toNat) :
    (tdmaCyclesRequired bus msgSize slotsAllocated).toNat =
      fullSlots bus msgSize / slotsAllocated.toNat + 1 := by
  have required : (slotsRequired bus msgSize).toNat = _ := slotsRequired_toNat size
  have some_slot : 1 ≤ (slotsRequired bus msgSize).toNat := by omega
  rw [tdmaCyclesRequired, roundedUp_toNat some_slot, required, Nat.add_sub_cancel]

theorem tdmaCyclesRequired_sub_one (size : 1 ≤ msgSize.toNat) :
    (tdmaCyclesRequired bus msgSize slotsAllocated - 1).toNat =
      fullSlots bus msgSize / slotsAllocated.toNat :=
  toNat_sub_one (tdmaCyclesRequired_toNat size)

theorem slotsLastPeriod_toNat (size : 1 ≤ msgSize.toNat) :
    (slotsLastPeriod bus msgSize slotsAllocated).toNat =
      fullSlots bus msgSize % slotsAllocated.toNat + 1 := by
  have required : (slotsRequired bus msgSize).toNat = _ := slotsRequired_toNat size
  have bound := (slotsRequired bus msgSize).toNat_lt
  have parts := Nat.div_add_mod' (fullSlots bus msgSize) slotsAllocated.toNat
  have product : ((tdmaCyclesRequired bus msgSize slotsAllocated - 1) * slotsAllocated).toNat =
      fullSlots bus msgSize / slotsAllocated.toNat * slotsAllocated.toNat := by
    rw [UInt32.toNat_mul, tdmaCyclesRequired_sub_one size, Nat.mod_eq_of_lt]
    omega
  rw [slotsLastPeriod, UInt32.toNat_sub_of_le _ _ ?_, product]
  · omega
  · rw [UInt32.le_iff_toNat_le, product]
    omega

theorem slotsLastPeriod_sub_one (size : 1 ≤ msgSize.toNat) :
    (slotsLastPeriod bus msgSize slotsAllocated - 1).toNat =
      fullSlots bus msgSize % slotsAllocated.toNat :=
  toNat_sub_one (slotsLastPeriod_toNat size)

theorem calculateDataTxDelayL1_eq (size : 1 ≤ msgSize.toNat) :
    calculateDataTxDelayL1 bus msgSize slotsAllocated =
      (fullSlots bus msgSize / slotsAllocated.toNat : ℕ) * bus.cycleTime
        + (fullSlots bus msgSize % slotsAllocated.toNat : ℕ) * bus.slotTime + bus.slotTime := by
  rw [calculateDataTxDelayL1, tdmaCyclesRequired_sub_one size,
    slotsLastPeriod_toNat size]
  push_cast
  ring

theorem sendTimeLastSlot_eq (payload : 1 ≤ bus.chPayloadBits.toNat)
    (size : 1 ≤ msgSize.toNat) :
    sendTimeLastSlot bus msgSize =
      (msgSize.toNat - fullSlots bus msgSize * bus.chPayloadBits.toNat : ℕ)
        / bus.chPayloadBits.toNat * bus.slotTime := by
  have whole : fullSlots bus msgSize * bus.chPayloadBits.toNat ≤ msgSize.toNat :=
    (Nat.div_mul_le_self _ _).trans (Nat.sub_le _ _)
  have positive : (bus.chPayloadBits.toNat : ℚ) ≠ 0 := by
    exact_mod_cast (by omega : bus.chPayloadBits.toNat ≠ 0)
  rw [sendTimeLastSlot, slotsRequired_sub_one size, Nat.cast_sub whole]
  push_cast
  field_simp

theorem calculateDataTxDelayL0_eq (size : 1 ≤ msgSize.toNat) :
    calculateDataTxDelayL0 bus msgSize slotsAllocated =
      (fullSlots bus msgSize / slotsAllocated.toNat : ℕ) * bus.cycleTime
        + (fullSlots bus msgSize % slotsAllocated.toNat : ℕ) * bus.slotTime
        + sendTimeLastSlot bus msgSize := by
  rw [calculateDataTxDelayL0, tdmaCyclesRequired_sub_one size,
    slotsLastPeriod_sub_one size]

theorem sendTimeLastSlot_pos (slot : 0 < bus.slotTime) (payload : 1 ≤ bus.chPayloadBits.toNat)
    (size : 1 ≤ msgSize.toNat) : 0 < sendTimeLastSlot bus msgSize := by
  have whole : fullSlots bus msgSize * bus.chPayloadBits.toNat ≤ msgSize.toNat - 1 :=
    Nat.div_mul_le_self _ _
  have bits : 0 < msgSize.toNat - fullSlots bus msgSize * bus.chPayloadBits.toNat := by omega
  have bits' : (0 : ℚ) <
      (msgSize.toNat - fullSlots bus msgSize * bus.chPayloadBits.toNat : ℕ) := by
    exact_mod_cast bits
  have payload' : (0 : ℚ) < bus.chPayloadBits.toNat := by exact_mod_cast payload
  rw [sendTimeLastSlot_eq payload size]
  positivity

theorem calculateDataTxDelayL0_pos (accepted : Accepted bus) (size : 1 ≤ msgSize.toNat) :
    0 < calculateDataTxDelayL0 bus msgSize slotsAllocated := by
  have last := sendTimeLastSlot_pos accepted.slot accepted.payload size
  have cycle := accepted.cycle_pos
  have slot := accepted.slot
  rw [calculateDataTxDelayL0]
  positivity

theorem slotsRequired_zero : slotsRequired bus 0 = 0 := by
  simp [slotsRequired, roundedUp]

theorem tdmaCyclesRequired_zero : tdmaCyclesRequired bus 0 slotsAllocated = 0 := by
  simp [tdmaCyclesRequired, slotsRequired_zero, roundedUp]

theorem slotsLastPeriod_zero : slotsLastPeriod bus 0 slotsAllocated = slotsAllocated := by
  rw [slotsLastPeriod, slotsRequired_zero, tdmaCyclesRequired_zero, UInt32.zero_sub,
    UInt32.zero_sub, UInt32.neg_mul, UInt32.one_mul, UInt32.neg_neg]

theorem toNat_zero_sub_one : (0 - 1 : UInt32).toNat = 2 ^ 32 - 1 := by decide

/-- Without bits the slot counter wraps around, and the delay is that of the wrapped counters. -/
theorem calculateDataTxDelayL0_zero (slots : 1 ≤ slotsAllocated.toNat) :
    calculateDataTxDelayL0 bus 0 slotsAllocated =
      (2 ^ 32 - 1) * (bus.cycleTime - bus.slotTime)
        + (slotsAllocated.toNat - 1 : ℕ) * bus.slotTime := by
  have previous : (slotsAllocated - 1).toNat = slotsAllocated.toNat - 1 :=
    toNat_sub_one (by omega)
  rw [calculateDataTxDelayL0, sendTimeLastSlot, tdmaCyclesRequired_zero, slotsLastPeriod_zero,
    slotsRequired_zero, previous, toNat_zero_sub_one, UInt32.toNat_zero]
  push_cast
  ring

theorem calculateDataTxDelayL1_zero :
    calculateDataTxDelayL1 bus 0 slotsAllocated =
      (2 ^ 32 - 1) * bus.cycleTime + slotsAllocated.toNat * bus.slotTime := by
  rw [calculateDataTxDelayL1, tdmaCyclesRequired_zero, slotsLastPeriod_zero, toNat_zero_sub_one]
  push_cast
  ring

/-- A message takes no time only without bits, on a bus whose cycle is its only slot. -/
theorem calculateDataTxDelayL0_eq_zero (accepted : Accepted bus)
    (slots : 1 ≤ slotsAllocated.toNat) :
    0 ≤ calculateDataTxDelayL0 bus msgSize slotsAllocated ∧
      (calculateDataTxDelayL0 bus msgSize slotsAllocated = 0 ↔
        msgSize = 0 ∧ slotsAllocated = 1 ∧ bus.cycleTime = bus.slotTime) := by
  by_cases size : 1 ≤ msgSize.toNat
  · have positive : 0 < calculateDataTxDelayL0 bus msgSize slotsAllocated :=
      calculateDataTxDelayL0_pos accepted size
    refine ⟨positive.le, iff_of_false positive.ne' ?_⟩
    rintro ⟨rfl, -⟩
    exact absurd size (by decide)
  · obtain rfl : msgSize = 0 := by
      rw [← UInt32.toNat_inj, UInt32.toNat_zero]
      omega
    have slot := accepted.slot
    have cycle := accepted.slots_le_cycle accepted.channels
    rw [Nat.cast_one, one_mul] at cycle
    have cycles : 0 ≤ (2 ^ 32 - 1) * (bus.cycleTime - bus.slotTime) := by
      have : 0 ≤ bus.cycleTime - bus.slotTime := by linarith
      positivity
    have rest : 0 ≤ ((slotsAllocated.toNat - 1 : ℕ) : ℚ) * bus.slotTime := by positivity
    rw [calculateDataTxDelayL0_zero slots, add_eq_zero_iff_of_nonneg cycles rest]
    refine ⟨by linarith, ?_⟩
    have one_slot : slotsAllocated.toNat - 1 = 0 ↔ slotsAllocated = 1 := by
      rw [← UInt32.toNat_inj, UInt32.toNat_one]
      omega
    rw [mul_eq_zero, mul_eq_zero, Nat.cast_eq_zero, one_slot, or_iff_left slot.ne',
      sub_eq_zero (a := bus.cycleTime)]
    constructor
    · rintro ⟨whole, one⟩
      exact ⟨rfl, one, whole.resolve_left (by norm_num)⟩
    · rintro ⟨-, one, whole⟩
      exact ⟨Or.inr whole, one⟩

theorem maxOffsetDelay_pos (accepted : Accepted bus) (slots : 1 ≤ slotsAllocated.toNat)
    (fit : slotsAllocated.toNat ≤ bus.nChannels.toNat) :
    0 < maxOffsetDelay bus slotsAllocated := by
  have slot := accepted.slot
  have cycle := accepted.slots_le_cycle fit
  rw [maxOffsetDelay_eq bus slots]
  linarith

end Counters

/-- The timeline of a source with contiguous slots on the bus. -/
def timeline (bus : BusTiming) (firstSlot slotsAllocated : UInt32) : Sender ℚ where
  slotTime := bus.slotTime
  guardTime := bus.guardTime
  cycleTime := bus.cycleTime
  payload := bus.chPayloadBits.toNat
  firstSlot := firstSlot.toNat
  slots := slotsAllocated.toNat

section Guards

variable {bus : BusTiming} {msgSize firstSlot s : UInt32}

/-- The code leaves out the guards between the slots of the last cycle. -/
theorem slotDelay_eq_add_guards (accepted : Accepted bus) (slots : 1 ≤ s.toNat)
    (size : 1 ≤ msgSize.toNat) (cycle : ℕ) :
    (timeline bus firstSlot s).slotDelay cycle msgSize.toNat =
      calculateDataTxDelayL1 bus msgSize s
        + (fullSlots bus msgSize % s.toNat : ℕ) * bus.guardTime := by
  rw [Sender.slotDelay_eq (a := timeline bus firstSlot s) accepted.payload slots,
    calculateDataTxDelayL1_eq size]
  simp only [timeline, fullSlots]
  ring

theorem bitDelay_eq_add_guards (accepted : Accepted bus) (slots : 1 ≤ s.toNat)
    (size : 1 ≤ msgSize.toNat) (cycle : ℕ) :
    (timeline bus firstSlot s).bitDelay cycle msgSize.toNat =
      calculateDataTxDelayL0 bus msgSize s
        + (fullSlots bus msgSize % s.toNat : ℕ) * bus.guardTime := by
  rw [Sender.bitDelay_eq (a := timeline bus firstSlot s) accepted.payload slots,
    calculateDataTxDelayL0_eq size,
    sendTimeLastSlot_eq accepted.payload size]
  simp only [timeline, fullSlots]
  ring

/-- Both delays are those of the timeline exactly when there are no guards, or the last cycle of
the message has one slot only. -/
theorem tx_delay_iff (accepted : Accepted bus) (slots : 1 ≤ s.toNat)
    (size : 1 ≤ msgSize.toNat) (cycle : ℕ) :
    (calculateDataTxDelayL1 bus msgSize s =
          (timeline bus firstSlot s).slotDelay cycle msgSize.toNat ∧
        calculateDataTxDelayL0 bus msgSize s =
          (timeline bus firstSlot s).bitDelay cycle msgSize.toNat) ↔
      bus.guardTime = 0 ∨ (msgSize.toNat - 1) / bus.chPayloadBits.toNat % s.toNat = 0 := by
  have guards : (fullSlots bus msgSize % s.toNat : ℕ) * bus.guardTime = 0 ↔
      bus.guardTime = 0 ∨ fullSlots bus msgSize % s.toNat = 0 := by
    rw [mul_eq_zero, Nat.cast_eq_zero, or_comm]
  rw [slotDelay_eq_add_guards accepted slots size, bitDelay_eq_add_guards accepted slots size,
    left_eq_add, left_eq_add, and_self, guards]
  rfl

/-- Two slots of ten time units with guards of one. -/
def guardedSlots : BusTiming where
  nChannels := 2
  slotTime := 10
  guardTime := 1
  cycleTime := 22
  chPayloadBits := 8
  initialOffsetTime := 0

theorem guardedSlots_accepted : Accepted guardedSlots where
  channels := by decide
  slot := by norm_num [guardedSlots]
  guard := by norm_num [guardedSlots]
  payload := by decide
  cycle := by
    show ((2 : ℕ) : ℚ) * (10 + 1) ≤ 22
    norm_num
  offset := by norm_num [guardedSlots]

/-- Twenty bits take a whole cycle and half of the first slot of the next. -/
theorem guardedSlots_exact :
    calculateDataTxDelayL1 guardedSlots 20 2 =
        (timeline guardedSlots 0 2).slotDelay 0 (20 : UInt32).toNat ∧
      calculateDataTxDelayL0 guardedSlots 20 2 =
        (timeline guardedSlots 0 2).bitDelay 0 (20 : UInt32).toNat := by
  refine (tx_delay_iff guardedSlots_accepted ?_ ?_ 0).mpr (Or.inr ?_) <;> decide

/-- Twelve bits end halfway through the second slot, at sixteen, and the code says fifteen. -/
theorem guardedSlots_early :
    Accepted guardedSlots ∧
      calculateDataTxDelayL1 guardedSlots 12 2 = 20 ∧
      (timeline guardedSlots 0 2).slotDelay 0 (12 : UInt32).toNat = 21 ∧
      calculateDataTxDelayL0 guardedSlots 12 2 = 15 ∧
      (timeline guardedSlots 0 2).bitDelay 0 (12 : UInt32).toNat = 16 := by
  have level1 : calculateDataTxDelayL1 guardedSlots 12 2 = 20 := by decide +kernel
  have level0 : calculateDataTxDelayL0 guardedSlots 12 2 = 15 := by decide +kernel
  have one_guard : (fullSlots guardedSlots 12 % (2 : UInt32).toNat : ℕ) = 1 := by decide
  have guard : guardedSlots.guardTime = 1 := rfl
  refine ⟨guardedSlots_accepted, level1, ?_, level0, ?_⟩
  · rw [slotDelay_eq_add_guards guardedSlots_accepted (by decide) (by decide), level1, one_guard,
      guard]
    norm_num
  · rw [bitDelay_eq_add_guards guardedSlots_accepted (by decide) (by decide), level0, one_guard,
      guard]
    norm_num

end Guards

end Kista.Tdma.TransmissionDelay
