/- Kista/Tdma/MaxDelayLevels
   source: src/src/comm_res/buses/tdma_bus.cpp, tdma_bus.hpp
   digest: The maximum delay at the levels of bits, slots and cycles, each a bound of the one
   before it, and the one message at which a counter of the coarsest level wraps around. -/

import Kista.Tdma.TransmissionDelay

set_option autoImplicit false
set_option relaxedAutoImplicit false

namespace Kista.Tdma.MaxDelayLevels

open Kista.Tdma.Delays Kista.Tdma.TransmissionDelay

/-- The slots of a message, counted without wrap-around. -/
def slotsCounted (msgSize chPayloadBits : ℕ) : ℕ :=
  if msgSize % chPayloadBits ≠ 0 then msgSize / chPayloadBits + 1 else msgSize / chPayloadBits

/-- The cycles of `calculate_MaxP2Pdelay_L2`, one of them added for the initial offset, counted
without wrap-around. -/
def cyclesCounted (msgSize chPayloadBits slotsAllocated : ℕ) : ℕ :=
  let slots := slotsCounted msgSize chPayloadBits
  if slots % slotsAllocated ≠ 0 then slots / slotsAllocated + 2 else slots / slotsAllocated + 1

/-- `calculate_MaxP2Pdelay_L2` in unbounded arithmetic. -/
def maxP2PdelayL2 (bus : BusTiming) (msgSize slotsAllocated : UInt32) : ℚ :=
  cyclesCounted msgSize.toNat bus.chPayloadBits.toNat slotsAllocated.toNat * bus.cycleTime

theorem slotsCounted_eq {msgSize : ℕ} (size : 1 ≤ msgSize) (chPayloadBits : ℕ) :
    slotsCounted msgSize chPayloadBits = (msgSize - 1) / chPayloadBits + 1 := by
  have step := Nat.succ_div (a := msgSize - 1) (b := chPayloadBits)
  rw [Nat.sub_add_cancel size] at step
  unfold slotsCounted
  by_cases exact : chPayloadBits ∣ msgSize
  · rw [if_neg (not_not.mpr (Nat.mod_eq_zero_of_dvd exact)), step, if_pos exact]
  · rw [if_pos (fun none => exact (Nat.dvd_of_mod_eq_zero none)), step, if_neg exact, add_zero]

theorem cyclesCounted_eq {msgSize : ℕ} (size : 1 ≤ msgSize) (chPayloadBits slotsAllocated : ℕ) :
    cyclesCounted msgSize chPayloadBits slotsAllocated =
      (msgSize - 1) / chPayloadBits / slotsAllocated + 2 := by
  have more : cyclesCounted msgSize chPayloadBits slotsAllocated =
      slotsCounted (slotsCounted msgSize chPayloadBits) slotsAllocated + 1 := by
    unfold cyclesCounted
    generalize slotsCounted msgSize chPayloadBits = slots
    unfold slotsCounted
    dsimp only
    split <;> rfl
  have some_slot : 1 ≤ slotsCounted msgSize chPayloadBits := by
    rw [slotsCounted_eq size]
    exact Nat.le_add_left 1 _
  rw [more, slotsCounted_eq some_slot, slotsCounted_eq size, Nat.add_sub_cancel]

section Levels

variable {bus : BusTiming} {msgSize s : UInt32}

theorem cyclesCounted_fullSlots (size : 1 ≤ msgSize.toNat) :
    cyclesCounted msgSize.toNat bus.chPayloadBits.toNat s.toNat =
      fullSlots bus msgSize / s.toNat + 2 :=
  cyclesCounted_eq size _ _

/-- The last slot of a message is at most full. -/
theorem sendTimeLastSlot_le (accepted : Accepted bus) (size : 1 ≤ msgSize.toNat) :
    sendTimeLastSlot bus msgSize ≤ bus.slotTime := by
  have payload := accepted.payload
  have slot := accepted.slot
  have next : msgSize.toNat - 1 < (fullSlots bus msgSize + 1) * bus.chPayloadBits.toNat :=
    Nat.lt_mul_of_div_lt (Nat.lt_succ_self _) payload
  have bits : msgSize.toNat - fullSlots bus msgSize * bus.chPayloadBits.toNat ≤
      bus.chPayloadBits.toNat := by
    rw [Nat.add_mul, Nat.one_mul] at next
    omega
  have part : ((msgSize.toNat - fullSlots bus msgSize * bus.chPayloadBits.toNat : ℕ) : ℚ)
      / bus.chPayloadBits.toNat ≤ 1 := by
    apply div_le_one_of_le₀
    · exact_mod_cast bits
    · positivity
  rw [sendTimeLastSlot_eq payload size]
  calc _ ≤ 1 * bus.slotTime := by gcongr
    _ = bus.slotTime := one_mul _

theorem level0_le_level1 (accepted : Accepted bus) (size : 1 ≤ msgSize.toNat) :
    calculateMaxP2PdelayL0 bus msgSize s ≤ calculateMaxP2PdelayL1 bus msgSize s := by
  have last := sendTimeLastSlot_le accepted size
  rw [calculateMaxP2PdelayL0, calculateMaxP2PdelayL1, calculateDataTxDelayL0_eq size,
    calculateDataTxDelayL1_eq size]
  linarith

/-- The offset and the slots of the last cycle take no more than a cycle and one slot. -/
theorem level1_le_level2 (accepted : Accepted bus) (some : 1 ≤ s.toNat)
    (size : 1 ≤ msgSize.toNat) :
    calculateMaxP2PdelayL1 bus msgSize s ≤ maxP2PdelayL2 bus msgSize s := by
  have slot := accepted.slot
  have cycle := accepted.slots_le_cycle accepted.channels
  have last : fullSlots bus msgSize % s.toNat + 1 ≤ s.toNat := Nat.mod_lt _ some
  have last' : ((fullSlots bus msgSize % s.toNat : ℕ) : ℚ) + 1 ≤ s.toNat := by
    exact_mod_cast last
  have rest : ((fullSlots bus msgSize % s.toNat : ℕ) : ℚ) * bus.slotTime ≤
      ((s.toNat : ℚ) - 1) * bus.slotTime := by
    apply mul_le_mul_of_nonneg_right _ slot.le
    linarith
  rw [Nat.cast_one, one_mul] at cycle
  rw [calculateMaxP2PdelayL1, maxOffsetDelay_eq bus some, calculateDataTxDelayL1_eq size,
    maxP2PdelayL2, cyclesCounted_fullSlots size]
  push_cast
  linarith

/-- The level of cycles is computed exactly unless its counter does not fit. -/
theorem calculateMaxP2PdelayL2_eq_iff (accepted : Accepted bus) (size : 1 ≤ msgSize.toNat) :
    calculateMaxP2PdelayL2 bus msgSize s = maxP2PdelayL2 bus msgSize s ↔
      cyclesCounted msgSize.toNat bus.chPayloadBits.toNat s.toNat < 2 ^ 32 := by
  have cycle := accepted.cycle_pos
  have counter : (tdmaCyclesRequired bus msgSize s + 1).toNat =
      cyclesCounted msgSize.toNat bus.chPayloadBits.toNat s.toNat % 2 ^ 32 := by
    rw [UInt32.toNat_add, tdmaCyclesRequired_toNat size, cyclesCounted_fullSlots size]
    rfl
  rw [calculateMaxP2PdelayL2, maxP2PdelayL2, mul_left_inj' cycle.ne', Nat.cast_inj, counter]
  constructor
  · intro same
    rw [← same]
    exact Nat.mod_lt _ (by decide)
  · exact Nat.mod_eq_of_lt

/-- The counter does not fit for the longest message, sent bit by bit in one slot a cycle. -/
theorem cyclesCounted_lt_iff (payload : 1 ≤ bus.chPayloadBits.toNat) (some : 1 ≤ s.toNat)
    (size : 1 ≤ msgSize.toNat) :
    cyclesCounted msgSize.toNat bus.chPayloadBits.toNat s.toNat < 2 ^ 32 ↔
      ¬ (msgSize.toNat = 2 ^ 32 - 1 ∧ bus.chPayloadBits.toNat = 1 ∧ s.toNat = 1) := by
  have bound := msgSize.toNat_lt
  rw [cyclesCounted_eq size]
  constructor
  · rintro fits ⟨longest, one_bit, one_slot⟩
    rw [longest, one_bit, one_slot, Nat.div_one, Nat.div_one] at fits
    omega
  · intro other
    have slots : (msgSize.toNat - 1) / bus.chPayloadBits.toNat / s.toNat ≤ msgSize.toNat - 1 :=
      (Nat.div_le_self _ _).trans (Nat.div_le_self _ _)
    by_cases one_bit : bus.chPayloadBits.toNat = 1
    · by_cases one_slot : s.toNat = 1
      · omega
      · have half : (msgSize.toNat - 1) / bus.chPayloadBits.toNat / s.toNat ≤
            (msgSize.toNat - 1) / 2 := by
          apply (Nat.div_le_div_right (Nat.div_le_self _ _)).trans
          exact Nat.div_le_div_left (by omega) (by decide)
        omega
    · have half : (msgSize.toNat - 1) / bus.chPayloadBits.toNat / s.toNat ≤
          (msgSize.toNat - 1) / 2 := by
        apply (Nat.div_le_self _ _).trans
        exact Nat.div_le_div_left (by omega) (by decide)
      omega

/-- Each level of the maximum delay bounds the finer one, counted without wrap-around, and the
code counts so but for one message. -/
theorem max_delay_levels_ordered (accepted : Accepted bus) (some : 1 ≤ s.toNat)
    (size : 1 ≤ msgSize.toNat) :
    calculateMaxP2PdelayL0 bus msgSize s ≤ calculateMaxP2PdelayL1 bus msgSize s ∧
      calculateMaxP2PdelayL1 bus msgSize s ≤ maxP2PdelayL2 bus msgSize s ∧
      (calculateMaxP2PdelayL2 bus msgSize s = maxP2PdelayL2 bus msgSize s ↔
        ¬ (msgSize.toNat = 2 ^ 32 - 1 ∧ bus.chPayloadBits.toNat = 1 ∧ s.toNat = 1)) := by
  refine ⟨level0_le_level1 accepted size, level1_le_level2 accepted some size, ?_⟩
  rw [calculateMaxP2PdelayL2_eq_iff accepted size, cyclesCounted_lt_iff accepted.payload some size]

/-- Twenty bits over two guarded slots: thirty-nine, forty-four and sixty-six time units. -/
theorem guardedSlots_levels :
    calculateMaxP2PdelayL0 guardedSlots 20 2 ≤ calculateMaxP2PdelayL1 guardedSlots 20 2 ∧
      calculateMaxP2PdelayL1 guardedSlots 20 2 ≤ maxP2PdelayL2 guardedSlots 20 2 ∧
      calculateMaxP2PdelayL2 guardedSlots 20 2 = maxP2PdelayL2 guardedSlots 20 2 := by
  obtain ⟨fine, coarse, counted⟩ :=
    @max_delay_levels_ordered guardedSlots 20 2 guardedSlots_accepted (by decide) (by decide)
  refine ⟨fine, coarse, counted.mpr ?_⟩
  rintro ⟨longest, -, -⟩
  exact absurd longest (by decide)

end Levels

end Kista.Tdma.MaxDelayLevels
