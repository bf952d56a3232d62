/- Kista/Tdma/Divisions
   source: src/src/comm_res/buses/tdma_bus.cpp
   digest: The delay functions with each of their divisions checked, and exactly when none of them
   is by zero. -/

import Kista.Tdma.OffsetDelay

set_option autoImplicit false
set_option relaxedAutoImplicit false

namespace Kista.Tdma.Divisions

open Delays OffsetDelay

inductive Fault where
  | divisionByZero
  | outOfRange
  deriving DecidableEq

/-- A value that the code converts. -/
def converted {α : Type} : Option α → Except Fault α
  | none => .error .outOfRange
  | some a => .ok a

/-- A remainder and a quotient of counters, with one more for a remainder. -/
def ceiling (a b : UInt32) : Except Fault UInt32 :=
  if b = 0 then .error .divisionByZero else .ok (roundedUp a b)

/-- A quotient of counters in floating point. -/
def ratio (a b : UInt32) : Except Fault ℚ :=
  if b = 0 then .error .divisionByZero else .ok ((a.toNat : ℚ) / b.toNat)

def countCycles (bus : BusClock) (elapsed : UInt64) : Except Fault UInt32 :=
  if bus.cycleTime = 0 then .error .divisionByZero
  else converted (toCounter (elapsed.toNat / bus.cycleTime.toNat))

def dataTxDelayL0 (bus : BusTiming) (msgSize slotsAllocated : UInt32) : Except Fault ℚ := do
  let slotsRequiredDouble ← ratio msgSize bus.chPayloadBits
  let slotsRequired ← ceiling msgSize bus.chPayloadBits
  let tdmaCyclesRequired ← ceiling slotsRequired slotsAllocated
  let slotsLastPeriod := slotsRequired - (tdmaCyclesRequired - 1) * slotsAllocated
  let sendTimeLastSlot := (slotsRequiredDouble - (slotsRequired - 1).toNat) * bus.slotTime
  return (tdmaCyclesRequired - 1).toNat * bus.cycleTime + (slotsLastPeriod - 1).toNat * bus.slotTime
    + sendTimeLastSlot

def dataTxDelayL1 (bus : BusTiming) (msgSize slotsAllocated : UInt32) : Except Fault ℚ := do
  let slotsRequired ← ceiling msgSize bus.chPayloadBits
  let tdmaCyclesRequired ← ceiling slotsRequired slotsAllocated
  let slotsLastPeriod := slotsRequired - (tdmaCyclesRequired - 1) * slotsAllocated
  return (tdmaCyclesRequired - 1).toNat * bus.cycleTime + slotsLastPeriod.toNat * bus.slotTime

def maxP2PdelayL0 (bus : BusTiming) (msgSize slotsAllocated : UInt32) : Except Fault ℚ := do
  return maxOffsetDelay bus slotsAllocated + (← dataTxDelayL0 bus msgSize slotsAllocated)

def maxP2PdelayL1 (bus : BusTiming) (msgSize slotsAllocated : UInt32) : Except Fault ℚ := do
  return maxOffsetDelay bus slotsAllocated + (← dataTxDelayL1 bus msgSize slotsAllocated)

def maxP2PdelayL2 (bus : BusTiming) (msgSize slotsAllocated : UInt32) : Except Fault ℚ := do
  let slotsRequired ← ceiling msgSize bus.chPayloadBits
  let tdmaCyclesRequired ← ceiling slotsRequired slotsAllocated
  return (tdmaCyclesRequired + 1).toNat * bus.cycleTime

def offsetDelayL0 (bus : BusClock) (currentTime : UInt64) (firstSlot : UInt32) :
    Except Fault UInt64 := do
  let timeFirstAssignedSlot ← converted (toTime (firstSlot.toNat * bus.slotTime.toNat))
  let elapsed := bus.initialOffsetTime + currentTime
  let runCycles ← countCycles bus elapsed
  let completed ← converted (toTime (bus.cycleTime.toNat * runCycles.toNat))
  let currentPhaseTime := elapsed - completed
  return if currentPhaseTime ≤ timeFirstAssignedSlot then timeFirstAssignedSlot - currentPhaseTime
    else bus.cycleTime - currentPhaseTime + timeFirstAssignedSlot

/-! ### Without a zero the checked functions are the unchecked ones -/

theorem converted_bind {α β : Type} (x : Option α) (f : α → Option β) :
    (converted x >>= fun a => converted (f a)) = converted (x >>= f) := by
  cases x with
  | none => rfl
  | some a => rfl

theorem converted_ne {α : Type} (x : Option α) : converted x ≠ .error .divisionByZero := by
  cases x with
  | none => rintro ⟨⟩
  | some a => rintro ⟨⟩

theorem ceiling_of_ne {b : UInt32} (a : UInt32) (hb : b ≠ 0) :
    ceiling a b = .ok (roundedUp a b) := if_neg hb

theorem ratio_of_ne {b : UInt32} (a : UInt32) (hb : b ≠ 0) :
    ratio a b = .ok ((a.toNat : ℚ) / b.toNat) := if_neg hb

section Delays

variable {bus : BusTiming} {slotsAllocated : UInt32}

theorem dataTxDelayL0_eq (hpayload : bus.chPayloadBits ≠ 0) (hslots : slotsAllocated ≠ 0)
    (msgSize : UInt32) :
    dataTxDelayL0 bus msgSize slotsAllocated =
      .ok (calculateDataTxDelayL0 bus msgSize slotsAllocated) := by
  rw [dataTxDelayL0, ratio_of_ne _ hpayload, ceiling_of_ne _ hpayload]
  simp only [bind, Except.bind]
  rw [ceiling_of_ne _ hslots]
  rfl

theorem dataTxDelayL1_eq (hpayload : bus.chPayloadBits ≠ 0) (hslots : slotsAllocated ≠ 0)
    (msgSize : UInt32) :
    dataTxDelayL1 bus msgSize slotsAllocated =
      .ok (calculateDataTxDelayL1 bus msgSize slotsAllocated) := by
  rw [dataTxDelayL1, ceiling_of_ne _ hpayload]
  simp only [bind, Except.bind]
  rw [ceiling_of_ne _ hslots]
  rfl

theorem maxP2PdelayL0_eq (hpayload : bus.chPayloadBits ≠ 0) (hslots : slotsAllocated ≠ 0)
    (msgSize : UInt32) :
    maxP2PdelayL0 bus msgSize slotsAllocated =
      .ok (calculateMaxP2PdelayL0 bus msgSize slotsAllocated) := by
  rw [maxP2PdelayL0, dataTxDelayL0_eq hpayload hslots]
  rfl

theorem maxP2PdelayL1_eq (hpayload : bus.chPayloadBits ≠ 0) (hslots : slotsAllocated ≠ 0)
    (msgSize : UInt32) :
    maxP2PdelayL1 bus msgSize slotsAllocated =
      .ok (calculateMaxP2PdelayL1 bus msgSize slotsAllocated) := by
  rw [maxP2PdelayL1, dataTxDelayL1_eq hpayload hslots]
  rfl

theorem maxP2PdelayL2_eq (hpayload : bus.chPayloadBits ≠ 0) (hslots : slotsAllocated ≠ 0)
    (msgSize : UInt32) :
    maxP2PdelayL2 bus msgSize slotsAllocated =
      .ok (calculateMaxP2PdelayL2 bus msgSize slotsAllocated) := by
  rw [maxP2PdelayL2, ceiling_of_ne _ hpayload]
  simp only [bind, Except.bind]
  rw [ceiling_of_ne _ hslots]
  rfl

end Delays

theorem offsetDelayL0_eq {bus : BusClock} (hcycle : bus.cycleTime ≠ 0) (currentTime : UInt64)
    (firstSlot : UInt32) :
    offsetDelayL0 bus currentTime firstSlot =
      converted (OffsetDelay.currentOffsetDelayL0 bus currentTime firstSlot) := by
  rw [offsetDelayL0, OffsetDelay.currentOffsetDelayL0, ← converted_bind]
  congr 1
  ext1 timeFirstAssignedSlot
  have hcycles : ∀ elapsed, countCycles bus elapsed =
      converted (toCounter (elapsed.toNat / bus.cycleTime.toNat)) := fun _ => if_neg hcycle
  dsimp only
  rw [hcycles, ← converted_bind]
  congr 1
  ext1 runCycles
  rw [← converted_bind]
  rfl

/-! ### Divisions by zero -/

/-- For one slot or more no level of the delay functions and no offset divides by zero. -/
structure NeverDividesByZero (clock : BusClock) (bus : BusTiming) : Prop where
  level0 : ∀ msgSize slotsAllocated, 1 ≤ slotsAllocated.toNat →
    maxP2PdelayL0 bus msgSize slotsAllocated ≠ .error .divisionByZero
  level1 : ∀ msgSize slotsAllocated, 1 ≤ slotsAllocated.toNat →
    maxP2PdelayL1 bus msgSize slotsAllocated ≠ .error .divisionByZero
  level2 : ∀ msgSize slotsAllocated, 1 ≤ slotsAllocated.toNat →
    maxP2PdelayL2 bus msgSize slotsAllocated ≠ .error .divisionByZero
  transmission0 : ∀ msgSize slotsAllocated, 1 ≤ slotsAllocated.toNat →
    dataTxDelayL0 bus msgSize slotsAllocated ≠ .error .divisionByZero
  transmission1 : ∀ msgSize slotsAllocated, 1 ≤ slotsAllocated.toNat →
    dataTxDelayL1 bus msgSize slotsAllocated ≠ .error .divisionByZero
  offset : ∀ currentTime firstSlot,
    offsetDelayL0 clock currentTime firstSlot ≠ .error .divisionByZero

theorem one_le_toNat_iff {a : UInt32} : 1 ≤ a.toNat ↔ a ≠ 0 := by
  rw [← UInt32.pos_iff_ne_zero, UInt32.lt_iff_toNat_lt, UInt32.toNat_zero]
  exact Iff.rfl

theorem ok_ne {x : Except Fault ℚ} {delay : ℚ} (h : x = .ok delay) :
    x ≠ .error .divisionByZero := by
  rw [h]
  rintro ⟨⟩

theorem neverDividesByZero_iff {clock : BusClock} {bus : BusTiming} :
    NeverDividesByZero clock bus ↔ bus.chPayloadBits ≠ 0 ∧ clock.cycleTime ≠ 0 := by
  constructor
  · intro h
    constructor
    · intro hzero
      apply h.level2 0 1 (by decide)
      rw [maxP2PdelayL2, hzero]
      rfl
    · intro hzero
      apply h.offset 0 0
      have hfirst : toTime ((0 : UInt32).toNat * clock.slotTime.toNat) = some 0 := by
        rw [UInt32.toNat_zero, Nat.zero_mul]
        rfl
      have hcycles : countCycles clock (clock.initialOffsetTime + 0) = .error .divisionByZero :=
        if_pos hzero
      simp only [offsetDelayL0, hfirst, converted, hcycles, bind, Except.bind]
  · rintro ⟨hpayload, hcycle⟩
    constructor
    · intro msgSize slotsAllocated hslots
      exact ok_ne (maxP2PdelayL0_eq hpayload (one_le_toNat_iff.mp hslots) msgSize)
    · intro msgSize slotsAllocated hslots
      exact ok_ne (maxP2PdelayL1_eq hpayload (one_le_toNat_iff.mp hslots) msgSize)
    · intro msgSize slotsAllocated hslots
      exact ok_ne (maxP2PdelayL2_eq hpayload (one_le_toNat_iff.mp hslots) msgSize)
    · intro msgSize slotsAllocated hslots
      exact ok_ne (dataTxDelayL0_eq hpayload (one_le_toNat_iff.mp hslots) msgSize)
    · intro msgSize slotsAllocated hslots
      exact ok_ne (dataTxDelayL1_eq hpayload (one_le_toNat_iff.mp hslots) msgSize)
    · intro currentTime firstSlot
      rw [offsetDelayL0_eq hcycle]
      exact converted_ne _

end Kista.Tdma.Divisions
