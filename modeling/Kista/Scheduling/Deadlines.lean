/- Kista/Scheduling/Deadlines
   source: src/src/task_info_t.cpp, scheduler.cpp
   digest: What the time to the next deadline measures, and exactly when this is the deadline of
   the job released last. -/

import Kista.Scheduling.Dispatch

set_option autoImplicit false
set_option relaxedAutoImplicit false

/-!
A periodic task is released at the multiples of its period, the first time at zero.
-/

namespace Kista.Scheduling.Deadlines

open Dispatch

variable {now period deadline : ℕ}

def lastRelease (now period : ℕ) : ℕ := now / period * period

/-- What is left up to the deadline of the job released last. -/
def remaining (now period deadline : ℕ) : ℕ := lastRelease now period + deadline - now

theorem lastRelease_of_dvd (release : period ∣ now) : lastRelease now period = now :=
  Nat.div_mul_cancel release

theorem lastRelease_lt (between : ¬ period ∣ now) : lastRelease now period < now := by
  apply lt_of_le_of_ne (Nat.div_mul_le_self ..)
  intro same
  apply between
  rw [← same]
  exact Nat.dvd_mul_left ..

theorem lt_lastRelease_add (periodic : 0 < period) : now < lastRelease now period + period := by
  have cycle := Nat.lt_div_mul_add (a := now) periodic
  exact cycle

/-- The next multiple of the period, counted by the ceiling of a quotient. -/
theorem ceil_mul (periodic : 0 < period) :
    ⌈(now : ℚ) / period⌉₊ * period =
      if period ∣ now then now else lastRelease now period + period := by
  have positive : (0 : ℚ) < period := by exact_mod_cast periodic
  split
  next release =>
    obtain ⟨k, rfl⟩ := release
    have exact : ((period * k : ℕ) : ℚ) / period = (k : ℕ) := by
      rw [Nat.cast_mul, mul_div_cancel_left₀ _ positive.ne']
    rw [exact, Nat.ceil_natCast, Nat.mul_comm]
  next between =>
    have quotient : ⌈(now : ℚ) / period⌉₊ = now / period + 1 := by
      rw [Nat.ceil_eq_iff (Nat.add_one_ne_zero _), Nat.add_sub_cancel, lt_div_iff₀ positive,
        div_le_iff₀ positive]
      constructor
      · exact_mod_cast lastRelease_lt between
      · have next : now ≤ (now / period + 1) * period := by
          rw [Nat.add_mul, Nat.one_mul]
          exact (lt_lastRelease_add periodic).le
        exact_mod_cast next
    rw [quotient, Nat.add_mul, Nat.one_mul]
    rfl

/-- The code measures up to the next release, and nothing at a release instant. -/
theorem timeToNextDeadline_eq (periodic : 0 < period) :
    timeToNextDeadline now period =
      if period ∣ now then 0 else lastRelease now period + period - now := by
  rw [timeToNextDeadline, ceil_mul periodic]
  split
  next => exact Nat.sub_self now
  next => rfl

/-- The code tells the time left up to the deadline of the last job exactly for an implicit
deadline, and not at the release. -/
theorem time_to_next_deadline_iff (periodic : 0 < period) (some : 0 < deadline)
    (early : now ≤ lastRelease now period + deadline) :
    timeToNextDeadline now period = remaining now period deadline ↔
      deadline = period ∧ ¬ period ∣ now := by
  rw [timeToNextDeadline_eq periodic, remaining]
  split
  next release =>
    have here := lastRelease_of_dvd release
    simp only [release, not_true, and_false, iff_false]
    omega
  next between =>
    have cycle : now < lastRelease now period + period := lt_lastRelease_add periodic
    simp only [between, not_false_eq_true, and_true]
    omega

/-- One time unit after the release of a job of period ten. -/
theorem implicitDeadline_exact : timeToNextDeadline 1 10 = remaining 1 10 10 :=
  (time_to_next_deadline_iff (by decide) (by decide) (by decide)).mpr
    ⟨rfl, by decide⟩

/-- A deadline half-way through the period is not seen, and none is at the release. -/
theorem deadlines_missed :
    (timeToNextDeadline 1 10 = 9 ∧ remaining 1 10 5 = 4) ∧
      timeToNextDeadline 10 10 = 0 ∧ remaining 10 10 10 = 10 := by
  decide +kernel

end Kista.Scheduling.Deadlines
