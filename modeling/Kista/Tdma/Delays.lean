/- Kista/Tdma/Delays
   source: src/src/comm_res/buses/tdma_bus.cpp, tdma_bus.hpp
   digest: Offset, transmission and maximum delays of the bus, and the phases of the cycle at
   which the maximum bounds the current delay. -/

import Mathlib.Data.Rat.Floor
import Mathlib.Tactic.Linarith
import Mathlib.Tactic.NormNum
import Mathlib.Tactic.Ring

set_option autoImplicit false
set_option relaxedAutoImplicit false

/-!
Times are exact rationals, counters are the unsigned integers of the code. The conversion of a
quotient to a counter is undefined when the quotient does not fit.
-/

namespace Kista.Tdma.Delays

structure BusTiming where
  nChannels : UInt32
  slotTime : ℚ
  guardTime : ℚ
  cycleTime : ℚ
  chPayloadBits : UInt32
  initialOffsetTime : ℚ

/-- What `before_end_of_elaboration` leaves behind when it raises no error. -/
structure Accepted (bus : BusTiming) : Prop where
  channels : 1 ≤ bus.nChannels.toNat
  slot : 0 < bus.slotTime
  guard : 0 ≤ bus.guardTime
  payload : 1 ≤ bus.chPayloadBits.toNat
  cycle : bus.nChannels.toNat * (bus.slotTime + bus.guardTime) ≤ bus.cycleTime
  offset : 0 ≤ bus.initialOffsetTime

/-- `(unsigned int) q` for a non-negative quotient. -/
def toUnsigned (q : ℚ) : Option UInt32 :=
  if ⌊q⌋₊ < 2 ^ 32 then some (UInt32.ofNat ⌊q⌋₊) else none

/-- A quotient of counters with one more for a remainder. -/
def roundedUp (a b : UInt32) : UInt32 := if a % b ≠ 0 then a / b + 1 else a / b

def maxOffsetDelay (bus : BusTiming) (slotsAllocated : UInt32) : ℚ :=
  bus.cycleTime - (slotsAllocated - 1).toNat * bus.slotTime

def currentOffsetDelayL0 (bus : BusTiming) (currentTime : ℚ) (firstSlot : UInt32) : Option ℚ :=
  let timeFirstAssignedSlot := firstSlot.toNat * bus.slotTime
  (toUnsigned ((bus.initialOffsetTime + currentTime) / bus.cycleTime)).map fun runCycles =>
    let currentPhaseTime :=
      (bus.initialOffsetTime + currentTime) - bus.cycleTime * runCycles.toNat
    if currentPhaseTime ≤ timeFirstAssignedSlot then timeFirstAssignedSlot - currentPhaseTime
    else bus.cycleTime - currentPhaseTime + timeFirstAssignedSlot

def slotsRequired (bus : BusTiming) (msgSize : UInt32) : UInt32 :=
  roundedUp msgSize bus.chPayloadBits

def tdmaCyclesRequired (bus : BusTiming) (msgSize slotsAllocated : UInt32) : UInt32 :=
  roundedUp (slotsRequired bus msgSize) slotsAllocated

def slotsLastPeriod (bus : BusTiming) (msgSize slotsAllocated : UInt32) : UInt32 :=
  slotsRequired bus msgSize - (tdmaCyclesRequired bus msgSize slotsAllocated - 1) * slotsAllocated

def sendTimeLastSlot (bus : BusTiming) (msgSize : UInt32) : ℚ :=
  ((msgSize.toNat : ℚ) / bus.chPayloadBits.toNat - (slotsRequired bus msgSize - 1).toNat)
    * bus.slotTime

def calculateDataTxDelayL0 (bus : BusTiming) (msgSize slotsAllocated : UInt32) : ℚ :=
  (tdmaCyclesRequired bus msgSize slotsAllocated - 1).toNat * bus.cycleTime
    + (slotsLastPeriod bus msgSize slotsAllocated - 1).toNat * bus.slotTime
    + sendTimeLastSlot bus msgSize

def calculateDataTxDelayL1 (bus : BusTiming) (msgSize slotsAllocated : UInt32) : ℚ :=
  (tdmaCyclesRequired bus msgSize slotsAllocated - 1).toNat * bus.cycleTime
    + (slotsLastPeriod bus msgSize slotsAllocated).toNat * bus.slotTime

def calculateMaxP2PdelayL0 (bus : BusTiming) (msgSize slotsAllocated : UInt32) : ℚ :=
  maxOffsetDelay bus slotsAllocated + calculateDataTxDelayL0 bus msgSize slotsAllocated

def calculateMaxP2PdelayL1 (bus : BusTiming) (msgSize slotsAllocated : UInt32) : ℚ :=
  maxOffsetDelay bus slotsAllocated + calculateDataTxDelayL1 bus msgSize slotsAllocated

/-- The cycles are rounded up once more for the initial offset. -/
def calculateMaxP2PdelayL2 (bus : BusTiming) (msgSize slotsAllocated : UInt32) : ℚ :=
  (tdmaCyclesRequired bus msgSize slotsAllocated + 1).toNat * bus.cycleTime

/-- The cycles completed at an instant, exactly. -/
def cyclesCompleted (bus : BusTiming) (t : ℚ) : ℕ :=
  ⌊(bus.initialOffsetTime + t) / bus.cycleTime⌋₊

/-- The position of an instant in its cycle. -/
def phase (bus : BusTiming) (t : ℚ) : ℚ :=
  (bus.initialOffsetTime + t) - bus.cycleTime * cyclesCompleted bus t

theorem toUnsigned_of_lt {q : ℚ} (h : ⌊q⌋₊ < 2 ^ 32) :
    toUnsigned q = some (UInt32.ofNat ⌊q⌋₊) ∧ (UInt32.ofNat ⌊q⌋₊).toNat = ⌊q⌋₊ := by
  constructor
  · exact if_pos h
  · rw [UInt32.toNat_ofNat', Nat.mod_eq_of_lt h]

theorem toUnsigned_of_ge {q : ℚ} (h : ¬ ⌊q⌋₊ < 2 ^ 32) : toUnsigned q = none := if_neg h

theorem currentOffsetDelayL0_eq (bus : BusTiming) (t : ℚ) (firstSlot : UInt32) :
    currentOffsetDelayL0 bus t firstSlot =
      if cyclesCompleted bus t < 2 ^ 32 then
        some (if phase bus t ≤ firstSlot.toNat * bus.slotTime
          then firstSlot.toNat * bus.slotTime - phase bus t
          else bus.cycleTime - phase bus t + firstSlot.toNat * bus.slotTime)
      else none := by
  unfold currentOffsetDelayL0
  by_cases fits : cyclesCompleted bus t < 2 ^ 32
  · obtain ⟨value, exact⟩ := toUnsigned_of_lt fits
    rw [if_pos fits, value, Option.map_some]
    simp only [exact]
    rfl
  · rw [if_neg fits, toUnsigned_of_ge fits, Option.map_none]

theorem toNat_sub_one {a : UInt32} {n : ℕ} (successor : a.toNat = n + 1) :
    (a - 1).toNat = n := by
  have below : 1 ≤ a := UInt32.le_iff_toNat_le.mpr (by rw [UInt32.toNat_one]; omega)
  rw [UInt32.toNat_sub_of_le a 1 below, UInt32.toNat_one, successor, Nat.add_sub_cancel]

/-- The offset bound is the cycle less all allocated slots but one. -/
theorem maxOffsetDelay_eq (bus : BusTiming) {s : UInt32} (some : 1 ≤ s.toNat) :
    maxOffsetDelay bus s = bus.cycleTime - ((s.toNat : ℚ) - 1) * bus.slotTime := by
  have less : (s - 1).toNat = s.toNat - 1 := toNat_sub_one (by omega)
  rw [maxOffsetDelay, less, Nat.cast_sub some, Nat.cast_one]

/-- The slots of an allocation end within the cycle. -/
theorem Accepted.slots_le_cycle {bus : BusTiming} (h : Accepted bus) {slots : ℕ}
    (fit : slots ≤ bus.nChannels.toNat) : slots * bus.slotTime ≤ bus.cycleTime := by
  have count : (slots : ℚ) ≤ bus.nChannels.toNat := by exact_mod_cast fit
  have guard := h.guard
  have slot := h.slot
  calc (slots : ℚ) * bus.slotTime
      ≤ bus.nChannels.toNat * bus.slotTime := by gcongr
    _ ≤ bus.nChannels.toNat * (bus.slotTime + bus.guardTime) := by
        have := Nat.cast_nonneg (α := ℚ) bus.nChannels.toNat
        nlinarith
    _ ≤ bus.cycleTime := h.cycle

theorem Accepted.cycle_pos {bus : BusTiming} (h : Accepted bus) : 0 < bus.cycleTime := by
  have one := h.slots_le_cycle h.channels
  have slot := h.slot
  rw [Nat.cast_one, one_mul] at one
  linarith

theorem phase_nonneg {bus : BusTiming} (accepted : Accepted bus) {t : ℚ} (start : 0 ≤ t) :
    0 ≤ phase bus t := by
  have cycle := accepted.cycle_pos
  have offset := accepted.offset
  have quotient : 0 ≤ (bus.initialOffsetTime + t) / bus.cycleTime := by positivity
  have floor := Nat.floor_le quotient
  rw [le_div_iff₀ cycle] at floor
  unfold phase cyclesCompleted
  linarith

/-- The maximum bounds the current delay exactly at the instants whose cycle count fits the
counter and whose phase is not between the first allocated slot and the last one. -/
theorem current_le_max_iff {bus : BusTiming} (accepted : Accepted bus) {s firstSlot : UInt32}
    (some : 1 ≤ s.toNat) (fit : firstSlot.toNat + s.toNat ≤ bus.nChannels.toNat)
    (msgSize : UInt32) {t : ℚ} (start : 0 ≤ t) :
    (∃ d, currentOffsetDelayL0 bus t firstSlot = .some d ∧
        d + calculateDataTxDelayL0 bus msgSize s ≤ calculateMaxP2PdelayL0 bus msgSize s) ↔
      cyclesCompleted bus t < 2 ^ 32 ∧
        (phase bus t ≤ firstSlot.toNat * bus.slotTime ∨
          ((firstSlot.toNat : ℚ) + s.toNat - 1) * bus.slotTime ≤ phase bus t) := by
  rw [currentOffsetDelayL0_eq]
  by_cases fits : cyclesCompleted bus t < 2 ^ 32
  · rw [if_pos fits]
    simp only [fits, true_and, Option.some.injEq, exists_eq_left', calculateMaxP2PdelayL0,
      maxOffsetDelay_eq bus some]
    have cycle := accepted.slots_le_cycle fit
    have slot := accepted.slot
    push_cast at cycle
    by_cases early : phase bus t ≤ firstSlot.toNat * bus.slotTime
    · rw [if_pos early]
      have start := phase_nonneg accepted start
      refine iff_of_true ?_ (Or.inl early)
      linarith
    · rw [if_neg early]
      constructor
      · intro h
        right
        linarith
      · intro h
        have late := h.resolve_left early
        linarith
  · rw [if_neg fits]
    constructor
    · rintro ⟨d, ⟨⟩, -⟩
    · intro h
      exact absurd h.1 fits

/-- Four slots of ten time units without guards. -/
def fourSlots : BusTiming where
  nChannels := 4
  slotTime := 10
  guardTime := 0
  cycleTime := 40
  chPayloadBits := 1
  initialOffsetTime := 0

theorem fourSlots_accepted : Accepted fourSlots where
  channels := by decide
  slot := by norm_num [fourSlots]
  guard := by norm_num [fourSlots]
  payload := by decide
  cycle := by
    show ((4 : ℕ) : ℚ) * (10 + 0) ≤ 40
    norm_num
  offset := by norm_num [fourSlots]

theorem fourSlots_bounded :
    ∃ d, currentOffsetDelayL0 fourSlots 40 0 = .some d ∧
      d + calculateDataTxDelayL0 fourSlots 1 2 ≤ calculateMaxP2PdelayL0 fourSlots 1 2 := by
  refine (current_le_max_iff fourSlots_accepted ?_ ?_ 1 (by norm_num)).mpr ?_
  · decide
  · decide
  · decide +kernel

/-- Halfway through the first of its two slots a sender waits for thirty-five time units, and
the maximum allows thirty. -/
theorem fourSlots_exceeded :
    Accepted fourSlots ∧ currentOffsetDelayL0 fourSlots 5 0 = some 35 ∧
      ¬ 35 + calculateDataTxDelayL0 fourSlots 1 2 ≤ calculateMaxP2PdelayL0 fourSlots 1 2 := by
  refine ⟨fourSlots_accepted, ?_, ?_⟩
  · decide +kernel
  · decide +kernel

end Kista.Tdma.Delays
