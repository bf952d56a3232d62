/- Kista/Tdma/DelayMonotonicity
   source: src/src/comm_res/buses/tdma_bus.cpp
   digest: The transmission delay grows with the message and shrinks with the slots, exactly as
   long as there is a bit to send. -/

import Mathlib.Tactic.GCongr
import Kista.Tdma.MaxDelayLevels

set_option autoImplicit false
set_option relaxedAutoImplicit false

namespace Kista.Tdma.DelayMonotonicity

open Kista.Tdma.Delays Kista.Tdma.TransmissionDelay Kista.Tdma.MaxDelayLevels

/-- The time before the last slot of a message, `full` slots being filled before it. -/
def timeBefore (bus : BusTiming) (full slots : ℕ) : ℚ :=
  (full / slots : ℕ) * bus.cycleTime + (full % slots : ℕ) * bus.slotTime

/-- No message takes longer than a longer one, and none gains from fewer slots. -/
structure Monotonic (delay : UInt32 → UInt32 → ℚ) (m₁ m₂ s₁ s₂ : UInt32) : Prop where
  messages : ∀ s, s = s₁ ∨ s = s₂ → delay m₁ s ≤ delay m₂ s
  slots : ∀ m, m = m₁ ∨ m = m₂ → delay m s₂ ≤ delay m s₁

section Slots

variable {bus : BusTiming}

/-- Every cycle that is begun anew costs what its slots leave of it. -/
theorem timeBefore_eq (full slots : ℕ) :
    timeBefore bus full slots =
      full * bus.slotTime + (full / slots : ℕ) * (bus.cycleTime - slots * bus.slotTime) := by
  have parts : ((slots * (full / slots) + full % slots : ℕ) : ℚ) = full := by
    rw [Nat.div_add_mod]
  push_cast at parts
  rw [timeBefore, ← parts]
  ring

theorem rest_nonneg (accepted : Accepted bus) {slots : ℕ} (fit : slots ≤ bus.nChannels.toNat) :
    0 ≤ bus.cycleTime - slots * bus.slotTime :=
  sub_nonneg.mpr (accepted.slots_le_cycle fit)

theorem timeBefore_add_slot (accepted : Accepted bus) {slots : ℕ}
    (fit : slots ≤ bus.nChannels.toNat) {full full' : ℕ} (more : full < full') :
    timeBefore bus full slots + bus.slotTime ≤ timeBefore bus full' slots := by
  have slot := accepted.slot
  have rest := rest_nonneg accepted fit
  have cycles : ((full / slots : ℕ) : ℚ) ≤ (full' / slots : ℕ) := by
    exact_mod_cast Nat.div_le_div_right more.le
  have filled : (full : ℚ) + 1 ≤ full' := by exact_mod_cast more
  calc timeBefore bus full slots + bus.slotTime
      = (full + 1) * bus.slotTime
          + (full / slots : ℕ) * (bus.cycleTime - slots * bus.slotTime) := by
        rw [timeBefore_eq]
        ring
    _ ≤ full' * bus.slotTime
          + (full' / slots : ℕ) * (bus.cycleTime - slots * bus.slotTime) := by gcongr
    _ = timeBefore bus full' slots := (timeBefore_eq full' slots).symm

theorem timeBefore_mono (accepted : Accepted bus) {slots : ℕ}
    (fit : slots ≤ bus.nChannels.toNat) {full full' : ℕ} (more : full ≤ full') :
    timeBefore bus full slots ≤ timeBefore bus full' slots := by
  rcases Nat.eq_or_lt_of_le more with rfl | more
  · exact le_rfl
  · have slot := accepted.slot
    have := timeBefore_add_slot accepted fit more
    linarith

/-- With more slots there are fewer new cycles, and each of them leaves less. -/
theorem timeBefore_antitone (accepted : Accepted bus) {slots slots' : ℕ} (some : 1 ≤ slots)
    (more : slots ≤ slots') (fit : slots' ≤ bus.nChannels.toNat) (full : ℕ) :
    timeBefore bus full slots' ≤ timeBefore bus full slots := by
  have slot := accepted.slot
  have rest := rest_nonneg accepted fit
  have cycles : ((full / slots' : ℕ) : ℚ) ≤ (full / slots : ℕ) := by
    exact_mod_cast Nat.div_le_div_left more some
  have count : (slots : ℚ) ≤ slots' := by exact_mod_cast more
  rw [timeBefore_eq, timeBefore_eq]
  gcongr

end Slots

section Messages

variable {bus : BusTiming} {m m₁ m₂ s s₁ s₂ : UInt32}

theorem txDelayL0_eq (size : 1 ≤ m.toNat) :
    calculateDataTxDelayL0 bus m s =
      timeBefore bus (fullSlots bus m) s.toNat + sendTimeLastSlot bus m :=
  calculateDataTxDelayL0_eq size

theorem txDelayL1_eq (size : 1 ≤ m.toNat) :
    calculateDataTxDelayL1 bus m s =
      timeBefore bus (fullSlots bus m) s.toNat + bus.slotTime :=
  calculateDataTxDelayL1_eq size

theorem fullSlots_mono (bus : BusTiming) (shorter : m₁ ≤ m₂) :
    fullSlots bus m₁ ≤ fullSlots bus m₂ :=
  Nat.div_le_div_right (Nat.sub_le_sub_right (UInt32.le_iff_toNat_le.mp shorter) 1)

/-- Of two messages that end in the same slot the longer one has more bits there. -/
theorem sendTimeLastSlot_mono (accepted : Accepted bus) (size : 1 ≤ m₁.toNat)
    (shorter : m₁ ≤ m₂) (level : fullSlots bus m₁ = fullSlots bus m₂) :
    sendTimeLastSlot bus m₁ ≤ sendTimeLastSlot bus m₂ := by
  have slot := accepted.slot
  have sizes := UInt32.le_iff_toNat_le.mp shorter
  have sizes' : (m₁.toNat : ℚ) ≤ m₂.toNat := by exact_mod_cast sizes
  rw [sendTimeLastSlot, sendTimeLastSlot, slotsRequired_sub_one size,
    slotsRequired_sub_one (size.trans sizes), level]
  gcongr

theorem txDelayL1_mono (accepted : Accepted bus) (size : 1 ≤ m₁.toNat) (shorter : m₁ ≤ m₂)
    (fit : s.toNat ≤ bus.nChannels.toNat) :
    calculateDataTxDelayL1 bus m₁ s ≤ calculateDataTxDelayL1 bus m₂ s := by
  have sizes := UInt32.le_iff_toNat_le.mp shorter
  have before := timeBefore_mono accepted fit (fullSlots_mono bus shorter)
  rw [txDelayL1_eq size, txDelayL1_eq (size.trans sizes)]
  linarith

theorem txDelayL0_mono (accepted : Accepted bus) (size : 1 ≤ m₁.toNat) (shorter : m₁ ≤ m₂)
    (fit : s.toNat ≤ bus.nChannels.toNat) :
    calculateDataTxDelayL0 bus m₁ s ≤ calculateDataTxDelayL0 bus m₂ s := by
  have size' := size.trans (UInt32.le_iff_toNat_le.mp shorter)
  rw [txDelayL0_eq size, txDelayL0_eq size']
  rcases Nat.eq_or_lt_of_le (fullSlots_mono bus shorter) with level | more
  · have last := sendTimeLastSlot_mono accepted size shorter level
    rw [level]
    linarith
  · -- the shorter message is over before the last slot of the longer one starts
    have before := timeBefore_add_slot accepted fit more
    have last := sendTimeLastSlot_le accepted size
    have last' := sendTimeLastSlot_pos accepted.slot accepted.payload size'
    linarith

theorem txDelay_antitone (accepted : Accepted bus) (size : 1 ≤ m.toNat) (some : 1 ≤ s₁.toNat)
    (more : s₁ ≤ s₂) (fit : s₂.toNat ≤ bus.nChannels.toNat) :
    calculateDataTxDelayL0 bus m s₂ ≤ calculateDataTxDelayL0 bus m s₁ ∧
      calculateDataTxDelayL1 bus m s₂ ≤ calculateDataTxDelayL1 bus m s₁ := by
  have before := timeBefore_antitone accepted some (UInt32.le_iff_toNat_le.mp more) fit
    (fullSlots bus m)
  rw [txDelayL0_eq size, txDelayL0_eq size, txDelayL1_eq size, txDelayL1_eq size]
  constructor
  · linarith
  · linarith

/-- The empty message takes longer than any other. -/
theorem txDelayL1_lt_zero (accepted : Accepted bus) (some : 1 ≤ s.toNat)
    (size : 1 ≤ m.toNat) : calculateDataTxDelayL1 bus m s < calculateDataTxDelayL1 bus 0 s := by
  have cycle := accepted.cycle_pos
  have slot := accepted.slot
  have bound := m.toNat_lt
  have cycles : fullSlots bus m / s.toNat + 2 ≤ 2 ^ 32 := by
    have full : fullSlots bus m / s.toNat ≤ m.toNat - 1 :=
      (Nat.div_le_self _ _).trans (Nat.div_le_self _ _)
    omega
  have last : fullSlots bus m % s.toNat + 1 ≤ s.toNat := Nat.mod_lt _ some
  have cycles' : ((fullSlots bus m / s.toNat : ℕ) : ℚ) + 2 ≤ 2 ^ 32 := by
    exact_mod_cast cycles
  have last' : ((fullSlots bus m % s.toNat : ℕ) : ℚ) + 1 ≤ s.toNat := by exact_mod_cast last
  rw [calculateDataTxDelayL1_zero, txDelayL1_eq size]
  calc timeBefore bus (fullSlots bus m) s.toNat + bus.slotTime
      = (fullSlots bus m / s.toNat : ℕ) * bus.cycleTime
          + ((fullSlots bus m % s.toNat : ℕ) + 1) * bus.slotTime := by
        rw [timeBefore]
        ring
    _ < ((fullSlots bus m / s.toNat : ℕ) + 1) * bus.cycleTime + s.toNat * bus.slotTime := by
        have := mul_le_mul_of_nonneg_right last' slot.le
        linarith
    _ ≤ (2 ^ 32 - 1) * bus.cycleTime + s.toNat * bus.slotTime := by
        gcongr
        linarith

/-- Both delays are monotonic in messages and slots exactly when the shorter message has a bit,
or there is only one message, the empty one, and one number of slots. -/
theorem tx_delays_monotonic_iff (accepted : Accepted bus) (shorter : m₁ ≤ m₂)
    (some : 1 ≤ s₁.toNat) (more : s₁ ≤ s₂) (fit : s₂.toNat ≤ bus.nChannels.toNat) :
    (Monotonic (calculateDataTxDelayL0 bus) m₁ m₂ s₁ s₂ ∧
        Monotonic (calculateDataTxDelayL1 bus) m₁ m₂ s₁ s₂) ↔
      1 ≤ m₁.toNat ∨ (m₂ = 0 ∧ s₁ = s₂) := by
  have fewer := UInt32.le_iff_toNat_le.mp more
  constructor
  · rintro ⟨-, level1⟩
    by_contra none
    push Not at none
    obtain ⟨empty, other⟩ := none
    obtain rfl : m₁ = 0 := by
      rw [← UInt32.toNat_inj, UInt32.toNat_zero]
      omega
    by_cases longer : 1 ≤ m₂.toNat
    · exact absurd (level1.messages s₁ (Or.inl rfl)) (not_le.mpr
        (txDelayL1_lt_zero accepted some longer))
    · obtain rfl : m₂ = 0 := by
        rw [← UInt32.toNat_inj, UInt32.toNat_zero]
        omega
      -- the empty message takes longer with more slots
      have slots := level1.slots 0 (Or.inl rfl)
      have slot := accepted.slot
      rw [calculateDataTxDelayL1_zero, calculateDataTxDelayL1_zero, add_le_add_iff_left,
        mul_le_mul_iff_left₀ slot, Nat.cast_le] at slots
      exact other rfl (UInt32.toNat_inj.mp (le_antisymm fewer slots))
  · rintro (size | ⟨rfl, rfl⟩)
    · have fits : ∀ s, s = s₁ ∨ s = s₂ → s.toNat ≤ bus.nChannels.toNat := by
        rintro s (rfl | rfl)
        · exact fewer.trans fit
        · exact fit
      have sizes : ∀ m, m = m₁ ∨ m = m₂ → 1 ≤ m.toNat := by
        rintro m (rfl | rfl)
        · exact size
        · exact size.trans (UInt32.le_iff_toNat_le.mp shorter)
      exact ⟨⟨fun s hs => txDelayL0_mono accepted size shorter (fits s hs),
          fun m hm => (txDelay_antitone accepted (sizes m hm) some more fit).1⟩,
        ⟨fun s hs => txDelayL1_mono accepted size shorter (fits s hs),
          fun m hm => (txDelay_antitone accepted (sizes m hm) some more fit).2⟩⟩
    · obtain rfl : m₁ = 0 := by
        rw [← UInt32.toNat_inj, UInt32.toNat_zero]
        exact Nat.le_zero.mp (UInt32.le_iff_toNat_le.mp shorter)
      have same : ∀ delay, Monotonic delay 0 0 s₁ s₁ := by
        intro delay
        exact ⟨fun s _ => le_rfl, fun m _ => le_rfl⟩
      exact ⟨same _, same _⟩

end Messages

/-- Twelve and twenty bits over one and two guarded slots. -/
theorem guardedSlots_monotonic :
    Monotonic (calculateDataTxDelayL0 guardedSlots) 12 20 1 2 ∧
      Monotonic (calculateDataTxDelayL1 guardedSlots) 12 20 1 2 := by
  refine (tx_delays_monotonic_iff guardedSlots_accepted ?_ ?_ ?_ ?_).mpr (Or.inl ?_) <;> decide

/-- The empty message takes longer than one of a single bit, by all the cycles of the counter. -/
theorem guardedSlots_not_monotonic :
    Accepted guardedSlots ∧
      calculateDataTxDelayL1 guardedSlots 1 1 = 10 ∧
      calculateDataTxDelayL1 guardedSlots 0 1 = (2 ^ 32 - 1) * 22 + 10 ∧
      ¬ (Monotonic (calculateDataTxDelayL0 guardedSlots) 0 1 1 1 ∧
        Monotonic (calculateDataTxDelayL1 guardedSlots) 0 1 1 1) := by
  have bit : calculateDataTxDelayL1 guardedSlots 1 1 = 10 := by decide +kernel
  have none : calculateDataTxDelayL1 guardedSlots 0 1 = (2 ^ 32 - 1) * 22 + 10 := by
    decide +kernel
  refine ⟨guardedSlots_accepted, bit, none, fun both => ?_⟩
  have longer := both.2.messages 1 (Or.inl rfl)
  rw [bit, none] at longer
  norm_num at longer

end Kista.Tdma.DelayMonotonicity
