/- Kista/Energy/PowerAccounters
   source: src/src/processing_element.cpp, src/src/energy_power/power_measurement_probe.cpp
   digest: The power accounter of a processing element beside that of a probe, over the windows of
   any curve of cumulative energy. -/

import Kista.Energy.PowerProbe
import Mathlib.Order.Bounds.Basic

set_option autoImplicit false
set_option relaxedAutoImplicit false

namespace Kista.Energy.PowerAccounters

open Kista.Energy.PowerProbe

/-! ### The running maximum of any sequence -/

section RunningMaximum

variable {α : Type} [LinearOrder α]

/-- The greatest of `start, f 1, ..., f k`. -/
def runningMaximum (start : α) (f : ℕ → α) : ℕ → α
  | 0 => start
  | k + 1 =>
    if runningMaximum start f k < f (k + 1) then f (k + 1) else runningMaximum start f k

theorem runningMaximum_succ (start : α) (f : ℕ → α) (k : ℕ) :
    runningMaximum start f (k + 1) = max (runningMaximum start f k) (f (k + 1)) := by
  rw [runningMaximum]
  split_ifs with hless
  · exact (max_eq_right hless.le).symm
  · exact (max_eq_left (not_lt.mp hless)).symm

theorem isGreatest_runningMaximum (start : α) (f : ℕ → α) (k : ℕ) :
    IsGreatest (insert start (f '' Set.Icc 1 k)) (runningMaximum start f k) := by
  induction k with
  | zero => simp [runningMaximum]
  | succ k ih =>
    have hset : insert start (f '' Set.Icc 1 (k + 1)) =
        insert (f (k + 1)) (insert start (f '' Set.Icc 1 k)) := by
      have hinterval : Set.Icc 1 (k + 1) = insert (k + 1) (Set.Icc 1 k) := by
        ext j
        simp only [Set.mem_Icc, Set.mem_insert_iff]
        omega
      rw [hinterval, Set.image_insert_eq, Set.insert_comm]
    rw [hset, runningMaximum_succ, max_comm]
    exact ih.insert (f (k + 1))

end RunningMaximum

/-! ### The two loops -/

/-- What the `power_accounter_proc` of a processing element keeps. -/
structure ElementAccounter where
  previousTotalConsumedEnergyJ : ℚ
  avPowerWatts : ℚ
  maxAvPowerWatts : ℚ

/-- One turn of the loop of `processing_element::power_accounter_proc`. -/
def elementTurn (seconds consumed : ℚ) (a : ElementAccounter) : ElementAccounter :=
  let average := (consumed - a.previousTotalConsumedEnergyJ) / seconds
  { a with
    avPowerWatts := average
    maxAvPowerWatts := if a.maxAvPowerWatts < average then average else a.maxAvPowerWatts }

/-- The accounter of an element after k windows; `init_energy_power_vars` sets both powers to 0. -/
def elementAfter (E : ℚ → ℚ) (tau : ℚ) : ℕ → ElementAccounter
  | 0 => ⟨E 0, 0, 0⟩
  | k + 1 => elementTurn tau (E ((k + 1 : ℕ) * tau)) (elementAfter E tau k)

/-- The probe after k windows. -/
def probeAfter (E : ℚ → ℚ) (tau : ℚ) : ℕ → ProbeState
  | 0 => ⟨0, E 0, 0, 0⟩
  | k + 1 => probeTurn tau (E ((k + 1 : ℕ) * tau)) (probeAfter E tau k)

/-! ### The powers -/

/-- The average power over the k-th window. -/
def windowPower (E : ℚ → ℚ) (tau : ℚ) (k : ℕ) : ℚ := (E (k * tau) - E ((k - 1 : ℕ) * tau)) / tau

/-- What the element takes for it: all energy since the start, over the time of one window. -/
def powerSinceStart (E : ℚ → ℚ) (tau : ℚ) (k : ℕ) : ℚ := (E (k * tau) - E 0) / tau

theorem elementAfter_eq (E : ℚ → ℚ) (tau : ℚ) (k : ℕ) :
    (elementAfter E tau k).previousTotalConsumedEnergyJ = E 0 ∧
      (elementAfter E tau k).avPowerWatts = powerSinceStart E tau k ∧
      (elementAfter E tau k).maxAvPowerWatts = runningMaximum 0 (powerSinceStart E tau) k := by
  induction k with
  | zero => simp [elementAfter, powerSinceStart, runningMaximum]
  | succ k ih =>
    obtain ⟨hprevious, -, hmax⟩ := ih
    refine ⟨hprevious, ?_, ?_⟩
    · rw [elementAfter, elementTurn, hprevious]
      rfl
    · rw [elementAfter, elementTurn, hprevious, hmax]
      rfl

theorem probeAfter_eq (E : ℚ → ℚ) (tau : ℚ) (k : ℕ) :
    (probeAfter E tau k).previousTotalConsumedEnergyJ = E (k * tau) ∧
      (probeAfter E tau k).currAvPowerW = windowPower E tau k ∧
      (probeAfter E tau k).peakAvPowerW = runningMaximum 0 (windowPower E tau) k := by
  induction k with
  | zero => simp [probeAfter, windowPower, runningMaximum]
  | succ k ih =>
    obtain ⟨hprevious, -, hpeak⟩ := ih
    refine ⟨rfl, ?_, ?_⟩
    · rw [probeAfter, probeTurn, hprevious]
      rfl
    · rw [probeAfter, probeTurn, hprevious, hpeak]
      rfl

variable {E : ℚ → ℚ} {tau : ℚ}

/-- Current and peak power of an accounter after k windows. -/
structure Reads (E : ℚ → ℚ) (tau : ℚ) (k : ℕ) (current peak : ℚ) : Prop where
  current : current = windowPower E tau k
  peak : IsGreatest (insert 0 (windowPower E tau '' Set.Icc 1 k)) peak

/-- Both accounters hold the power of the last window and the peak of all. -/
structure AccountersAgree (E : ℚ → ℚ) (tau : ℚ) (k : ℕ) : Prop where
  element : Reads E tau k (elementAfter E tau k).avPowerWatts
    (elementAfter E tau k).maxAvPowerWatts
  probe : Reads E tau k (probeAfter E tau k).currAvPowerW (probeAfter E tau k).peakAvPowerW

/-- The probe is right on any curve. -/
theorem probe_reads (E : ℚ → ℚ) (tau : ℚ) (k : ℕ) :
    Reads E tau k (probeAfter E tau k).currAvPowerW (probeAfter E tau k).peakAvPowerW := by
  obtain ⟨-, hcurrent, hpeak⟩ := probeAfter_eq E tau k
  refine ⟨hcurrent, ?_⟩
  rw [hpeak]
  exact isGreatest_runningMaximum 0 (windowPower E tau) k

theorem windowPower_eq_powerSinceStart_iff (htau : 0 < tau) (k : ℕ) :
    powerSinceStart E tau k = windowPower E tau k ↔ E ((k - 1 : ℕ) * tau) = E 0 := by
  rw [powerSinceStart, windowPower, div_left_inj' htau.ne', sub_right_inj]
  exact eq_comm

/-- With no energy before the last window, the windows up to it read the same in both. -/
theorem runningMaximum_eq_of_idle (hmono : Monotone E) (htau : 0 < tau) {k : ℕ}
    (hidle : E ((k - 1 : ℕ) * tau) = E 0) {j : ℕ} (hj : j ≤ k) :
    runningMaximum 0 (powerSinceStart E tau) j = runningMaximum 0 (windowPower E tau) j := by
  have hsame : ∀ i ≤ k, powerSinceStart E tau i = windowPower E tau i := by
    intro i hi
    rw [windowPower_eq_powerSinceStart_iff htau]
    apply le_antisymm
    · rw [← hidle]
      apply hmono
      exact mul_le_mul_of_nonneg_right (Nat.cast_le.mpr (Nat.sub_le_sub_right hi 1)) htau.le
    · apply hmono
      exact mul_nonneg (Nat.cast_nonneg _) htau.le
  induction j with
  | zero => rfl
  | succ j ih =>
    rw [runningMaximum_succ, runningMaximum_succ, ih (by omega), hsame (j + 1) hj]

theorem accounters_agree_iff (hmono : Monotone E) (htau : 0 < tau) (k : ℕ) :
    AccountersAgree E tau k ↔ E ((k - 1 : ℕ) * tau) = E 0 := by
  obtain ⟨-, hcurrent, hmax⟩ := elementAfter_eq E tau k
  rw [← windowPower_eq_powerSinceStart_iff htau]
  constructor
  · intro h
    exact hcurrent.symm.trans h.element.current
  · intro hlast
    have hidle := (windowPower_eq_powerSinceStart_iff htau k).mp hlast
    refine ⟨⟨hcurrent.trans hlast, ?_⟩, probe_reads E tau k⟩
    rw [hmax, runningMaximum_eq_of_idle hmono htau hidle le_rfl]
    exact isGreatest_runningMaximum 0 (windowPower E tau) k

/-- One watt, averaged over one second, after the first window. -/
theorem first_window_agrees : AccountersAgree id 1 1 :=
  (accounters_agree_iff monotone_id one_pos 1).mpr (by norm_num)

/-- One watt again: the element reads two after the second window. -/
theorem second_window_disagrees :
    ¬ ∀ (E : ℚ → ℚ) (tau : ℚ), Monotone E → 0 < tau → ∀ k, 1 ≤ k → AccountersAgree E tau k := by
  intro hall
  have hcurrent := (hall id 1 monotone_id one_pos 2 (by omega)).element.current
  rw [(elementAfter_eq id 1 2).2.1] at hcurrent
  norm_num [powerSinceStart, windowPower] at hcurrent

end Kista.Energy.PowerAccounters
