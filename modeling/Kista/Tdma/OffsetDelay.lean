/- Kista/Tdma/OffsetDelay
   source: src/src/comm_res/buses/tdma_bus.cpp
   digest: The current offset delay in the 64-bit times and the 32-bit counter of the code, and
   exactly when it leads to the next start of the first slot. -/

import Mathlib.Data.Nat.ModEq
import Mathlib.Algebra.Order.Floor.Semifield
import Kista.Tdma.Delays

set_option autoImplicit false
set_option relaxedAutoImplicit false

/-!
A time is a count of resolution units in 64 bits; sums and differences of times wrap around. The
product of a counter and a time and the quotient of two times are computed outside of the integers
and are exact, and their conversion back is undefined when the value does not fit.
-/

namespace Kista.Tdma.OffsetDelay

structure BusClock where
  cycleTime : UInt64
  slotTime : UInt64
  initialOffsetTime : UInt64

def toTime (n : ℕ) : Option UInt64 := if n < 2 ^ 64 then some (UInt64.ofNat n) else none

def toCounter (n : ℕ) : Option UInt32 := if n < 2 ^ 32 then some (UInt32.ofNat n) else none

def currentOffsetDelayL0 (bus : BusClock) (currentTime : UInt64) (firstSlot : UInt32) :
    Option UInt64 := do
  let timeFirstAssignedSlot ← toTime (firstSlot.toNat * bus.slotTime.toNat)
  let elapsed := bus.initialOffsetTime + currentTime
  let runCycles ← toCounter (elapsed.toNat / bus.cycleTime.toNat)
  let completed ← toTime (bus.cycleTime.toNat * runCycles.toNat)
  let currentPhaseTime := elapsed - completed
  return if currentPhaseTime ≤ timeFirstAssignedSlot then timeFirstAssignedSlot - currentPhaseTime
    else bus.cycleTime - currentPhaseTime + timeFirstAssignedSlot

/-- The delay is less than a cycle and ends where the first slot begins. -/
def LeadsToFirstSlot (bus : BusClock) (currentTime : UInt64) (firstSlot : UInt32) : Prop :=
  ∃ d, currentOffsetDelayL0 bus currentTime firstSlot = some d ∧ d < bus.cycleTime ∧
    (bus.initialOffsetTime.toNat + currentTime.toNat + d.toNat) % bus.cycleTime.toNat =
      firstSlot.toNat * bus.slotTime.toNat

/-- From a position in a cycle to the next place of the given phase. -/
def untilPhase (cycle elapsed place : ℕ) : ℕ :=
  if elapsed % cycle ≤ place then place - elapsed % cycle
  else cycle - elapsed % cycle + place

theorem untilPhase_lt {cycle place : ℕ} (inside : place < cycle) (elapsed : ℕ) :
    untilPhase cycle elapsed place < cycle := by
  have phase := Nat.mod_lt elapsed (Nat.zero_lt_of_lt inside)
  unfold untilPhase
  split_ifs with early
  · omega
  · omega

theorem add_untilPhase_mod {cycle place : ℕ} (inside : place < cycle) (elapsed : ℕ) :
    (elapsed + untilPhase cycle elapsed place) % cycle = place := by
  have phase := Nat.mod_lt elapsed (Nat.zero_lt_of_lt inside)
  have parts := Nat.div_add_mod elapsed cycle
  unfold untilPhase
  split_ifs with early
  · have arrival : elapsed + (place - elapsed % cycle) = cycle * (elapsed / cycle) + place := by
      omega
    rw [arrival, Nat.mul_add_mod, Nat.mod_eq_of_lt inside]
  · have arrival : elapsed + (cycle - elapsed % cycle + place) =
        cycle * (elapsed / cycle + 1) + place := by
      rw [Nat.mul_add]
      omega
    rw [arrival, Nat.mul_add_mod, Nat.mod_eq_of_lt inside]

theorem toTime_of_lt {n : ℕ} (fits : n < 2 ^ 64) :
    toTime n = some (UInt64.ofNat n) ∧ (UInt64.ofNat n).toNat = n := by
  constructor
  · exact if_pos fits
  · rw [UInt64.toNat_ofNat', Nat.mod_eq_of_lt fits]

theorem toCounter_of_lt {n : ℕ} (fits : n < 2 ^ 32) :
    toCounter n = some (UInt32.ofNat n) ∧ (UInt32.ofNat n).toNat = n := by
  constructor
  · exact if_pos fits
  · rw [UInt32.toNat_ofNat', Nat.mod_eq_of_lt fits]

/-- Neither branch of the delay wraps around. -/
theorem toNat_offset {cycle phase first : UInt64} (within : phase < cycle)
    (inside : first < cycle) :
    (if phase ≤ first then first - phase else cycle - phase + first).toNat =
      if phase.toNat ≤ first.toNat then first.toNat - phase.toNat
      else cycle.toNat - phase.toNat + first.toNat := by
  have bound := cycle.toNat_lt
  have inside := UInt64.lt_iff_toNat_lt.mp inside
  by_cases early : phase ≤ first
  · rw [if_pos early, if_pos (UInt64.le_iff_toNat_le.mp early), UInt64.toNat_sub_of_le _ _ early]
  · have late : ¬ phase.toNat ≤ first.toNat := by rwa [← UInt64.le_iff_toNat_le]
    rw [if_neg early, if_neg late, UInt64.toNat_add,
      UInt64.toNat_sub_of_le _ _ (UInt64.le_of_lt within), Nat.mod_eq_of_lt]
    omega

section Delay

variable {bus : BusClock} {t : UInt64} {firstSlot : UInt32}

/-- While the counter holds the completed cycles the delay is the way to the first slot from the
elapsed time, wrapped around as it may be. -/
theorem currentOffsetDelayL0_counted
    (inside : firstSlot.toNat * bus.slotTime.toNat < bus.cycleTime.toNat)
    (counted : (bus.initialOffsetTime + t).toNat / bus.cycleTime.toNat < 2 ^ 32) :
    ∃ d, currentOffsetDelayL0 bus t firstSlot = some d ∧
      d.toNat = untilPhase bus.cycleTime.toNat (bus.initialOffsetTime + t).toNat
        (firstSlot.toNat * bus.slotTime.toNat) := by
  have cycle := bus.cycleTime.toNat_lt
  have elapsed := (bus.initialOffsetTime + t).toNat_lt
  have whole := Nat.mul_div_le (bus.initialOffsetTime + t).toNat bus.cycleTime.toNat
  have parts := Nat.div_add_mod (bus.initialOffsetTime + t).toNat bus.cycleTime.toNat
  have phase := Nat.mod_lt (bus.initialOffsetTime + t).toNat (Nat.zero_lt_of_lt inside)
  obtain ⟨first, firstNat⟩ := toTime_of_lt (inside.trans cycle)
  obtain ⟨counter, counterNat⟩ := toCounter_of_lt counted
  obtain ⟨product, productNat⟩ := toTime_of_lt (whole.trans_lt elapsed)
  have phaseNat : (bus.initialOffsetTime + t - UInt64.ofNat (bus.cycleTime.toNat *
      ((bus.initialOffsetTime + t).toNat / bus.cycleTime.toNat))).toNat =
        (bus.initialOffsetTime + t).toNat % bus.cycleTime.toNat := by
    rw [UInt64.toNat_sub_of_le _ _ (UInt64.le_iff_toNat_le.mpr (by rw [productNat]; exact whole)),
      productNat]
    omega
  simp only [currentOffsetDelayL0, first, counter, counterNat, product, Option.bind_eq_bind,
    Option.bind_some, Option.pure_def]
  refine ⟨_, rfl, ?_⟩
  rw [toNat_offset, phaseNat, firstNat, untilPhase]
  · rw [UInt64.lt_iff_toNat_lt, phaseNat]
    exact phase
  · rw [UInt64.lt_iff_toNat_lt, firstNat]
    exact inside

theorem currentOffsetDelayL0_uncounted
    (uncounted : ¬ (bus.initialOffsetTime + t).toNat / bus.cycleTime.toNat < 2 ^ 32) :
    currentOffsetDelayL0 bus t firstSlot = none := by
  simp only [currentOffsetDelayL0, toCounter, if_neg uncounted, Option.bind_eq_bind,
    Option.bind_none, Option.bind_fun_none]

/-- A wrapped sum has the phase of the true one only if a cycle divides the range of the times. -/
theorem elapsed_modEq_iff :
    bus.initialOffsetTime.toNat + t.toNat ≡ (bus.initialOffsetTime + t).toNat
        [MOD bus.cycleTime.toNat] ↔
      bus.initialOffsetTime.toNat + t.toNat < 2 ^ 64 ∨ bus.cycleTime.toNat ∣ 2 ^ 64 := by
  have offset := bus.initialOffsetTime.toNat_lt
  have now := t.toNat_lt
  rw [UInt64.toNat_add]
  by_cases fits : bus.initialOffsetTime.toNat + t.toNat < 2 ^ 64
  · rw [Nat.mod_eq_of_lt fits]
    exact iff_of_true rfl (Or.inl fits)
  · obtain ⟨rest, sum⟩ := Nat.exists_eq_add_of_le (not_lt.mp fits)
    have wrapped : (2 ^ 64 + rest) % 2 ^ 64 = rest := by omega
    rw [sum, wrapped, or_iff_right (by omega), ← Nat.modEq_zero_iff_dvd]
    constructor
    · intro same
      exact Nat.ModEq.add_right_cancel' rest (by simpa using same)
    · intro divides
      simpa using divides.add_right rest

end Delay

/-! ### The delay in exact times -/

/-- The clock counts the times of the bus. -/
structure Counts (clock : BusClock) (bus : Delays.BusTiming) : Prop where
  cycle : bus.cycleTime = clock.cycleTime.toNat
  slot : bus.slotTime = clock.slotTime.toNat
  offset : bus.initialOffsetTime = clock.initialOffsetTime.toNat

/-- As long as the elapsed time fits, the delay is the one computed in exact times. -/
theorem currentOffsetDelayL0_exact {clock : BusClock} {bus : Delays.BusTiming}
    (counts : Counts clock bus) {t : UInt64} {firstSlot : UInt32}
    (inside : firstSlot.toNat * clock.slotTime.toNat < clock.cycleTime.toNat)
    (fits : clock.initialOffsetTime.toNat + t.toNat < 2 ^ 64) :
    (currentOffsetDelayL0 clock t firstSlot).map (fun d => (d.toNat : ℚ)) =
      Delays.currentOffsetDelayL0 bus t.toNat firstSlot := by
  have elapsed : (clock.initialOffsetTime + t).toNat = clock.initialOffsetTime.toNat + t.toNat := by
    rw [UInt64.toNat_add, Nat.mod_eq_of_lt fits]
  have cycles : Delays.cyclesCompleted bus t.toNat =
      (clock.initialOffsetTime + t).toNat / clock.cycleTime.toNat := by
    rw [Delays.cyclesCompleted, counts.cycle, counts.offset, elapsed, ← Nat.cast_add,
      Nat.floor_div_eq_div]
  rw [Delays.currentOffsetDelayL0_eq, cycles]
  by_cases counted : (clock.initialOffsetTime + t).toNat / clock.cycleTime.toNat < 2 ^ 32
  · obtain ⟨d, delay, value⟩ := currentOffsetDelayL0_counted inside counted
    have parts := Nat.div_add_mod (clock.initialOffsetTime + t).toNat clock.cycleTime.toNat
    have below := Nat.mod_lt (clock.initialOffsetTime + t).toNat (Nat.zero_lt_of_lt inside)
    have phase : Delays.phase bus t.toNat =
        ((clock.initialOffsetTime + t).toNat % clock.cycleTime.toNat : ℕ) := by
      have parts' : ((clock.cycleTime.toNat * ((clock.initialOffsetTime + t).toNat
          / clock.cycleTime.toNat) + (clock.initialOffsetTime + t).toNat
            % clock.cycleTime.toNat : ℕ) : ℚ) = (clock.initialOffsetTime + t).toNat := by
        rw [parts]
      rw [Delays.phase, cycles, counts.cycle, counts.offset, ← Nat.cast_add, ← elapsed, ← parts']
      push_cast
      ring
    rw [if_pos counted, delay, Option.map_some, value, phase, counts.slot, counts.cycle,
      ← Nat.cast_mul]
    congr 1
    unfold untilPhase
    simp only [Nat.cast_le]
    split_ifs with early
    · rw [Nat.cast_sub early]
    · rw [Nat.cast_add, Nat.cast_sub below.le]
  · rw [if_neg counted, currentOffsetDelayL0_uncounted counted, Option.map_none]

/-- Four slots of ten units. -/
def fourSlotsClock : BusClock where
  cycleTime := 40
  slotTime := 10
  initialOffsetTime := 0

end Kista.Tdma.OffsetDelay
