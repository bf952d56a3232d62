/- Kista/Scheduling/Hyperperiod
   source: src/src/taskset_by_name_t.cpp, src/src/auxiliar.hpp
   digest: The hyperperiod of a periodic task set in whole nanoseconds, and exactly when it is the
   least common multiple of the periods. -/

import Mathlib.Algebra.GCDMonoid.Multiset
import Mathlib.Algebra.GCDMonoid.Nat
import Mathlib.Data.List.Basic
import Mathlib.Tactic.Ring
import Kista.Scheduling.LeastCommonMultiple

set_option autoImplicit false
set_option relaxedAutoImplicit false

/-!
Times are in ticks of the simulation. Integers have 64 bits; an error, a division by zero and a
conversion of a value that does not fit have no value.
-/

namespace Kista.Scheduling.Hyperperiod

open LeastCommonMultiple (wordSize indexSize)

/-- The simulation resolution: so many ticks in so many nanoseconds, a power of ten either way. -/
structure Resolution where
  ticks : ℕ
  nanoseconds : ℕ
  ticks_pos : 0 < ticks
  nanoseconds_pos : 0 < nanoseconds
  whole : ticks = 1 ∨ nanoseconds = 1

/-- Whole nanoseconds of a time. -/
def Resolution.toNs (r : Resolution) (time : ℕ) : ℕ := time * r.nanoseconds / r.ticks

/-- `sc_time` of a number of nanoseconds, to the nearest tick. -/
def Resolution.scTimeNs (r : Resolution) (ns : ℕ) : Option ℕ :=
  if (2 * ns * r.ticks + r.nanoseconds) / (2 * r.nanoseconds) < wordSize then
    some ((2 * ns * r.ticks + r.nanoseconds) / (2 * r.nanoseconds))
  else none

structure Task where
  periodic : Bool
  period : ℕ

/-- `is_periodic` of a task set. -/
def isPeriodic (taskset : List Task) : Bool := taskset.all fun task => task.periodic

/-- The period of each task in whole nanoseconds, pushed in front of those before. -/
def tasksetPeriods (r : Resolution) (taskset : List Task) : List ℕ :=
  taskset.foldl (fun periods task => r.toNs task.period :: periods) []

/-- The conversions to words. -/
def toWords (periods : List ℕ) : Option (List ℕ) :=
  if periods.all fun period => decide (period < wordSize) then some periods else none

/-- The loop of `lcm` has as many turns as there are periods, if it ends. -/
def getHyperperiod (r : Resolution) (taskset : List Task) : Option ℕ :=
  if isPeriodic taskset = false then none
  else (toWords (tasksetPeriods r taskset)).bind fun periods =>
    (LeastCommonMultiple.lcm periods.length periods).bind r.scTimeNs

/-! ### Conversions -/

section Conversions

variable {r : Resolution}

theorem toWords_eq {periods : List ℕ} (fits : ∀ period ∈ periods, period < wordSize) :
    toWords periods = some periods := by
  rw [toWords, if_pos]
  simpa using fits

/-- A number of nanoseconds that is a whole number of ticks is not rounded. -/
theorem scTimeNs_of_exact {ns time : ℕ} (hexact : ns * r.ticks = time * r.nanoseconds)
    (fits : time < wordSize) : r.scTimeNs ns = some time := by
  have hpos := r.nanoseconds_pos
  have hsum : 2 * ns * r.ticks + r.nanoseconds = r.nanoseconds + time * (2 * r.nanoseconds) := by
    rw [Nat.mul_assoc, hexact]
    ring
  have hround : (2 * ns * r.ticks + r.nanoseconds) / (2 * r.nanoseconds) = time := by
    rw [hsum, Nat.add_mul_div_right _ _ (by omega), Nat.div_eq_of_lt (by omega), Nat.zero_add]
  rw [Resolution.scTimeNs, hround, if_pos fits]

theorem exact_of_scTimeNs {ns time : ℕ} (hfine : r.nanoseconds = 1)
    (h : r.scTimeNs ns = some time) : ns * r.ticks = time * r.nanoseconds := by
  rw [Resolution.scTimeNs, hfine, Nat.mul_assoc] at h
  split_ifs at h with fits
  rw [hfine, ← Option.some.inj h]
  omega

theorem scTimeNs_zero {time : ℕ} (h : r.scTimeNs 0 = some time) : time = 0 := by
  have hzero : r.scTimeNs 0 = some 0 := by
    apply scTimeNs_of_exact
    · simp
    · decide
  exact Option.some.inj (h.symm.trans hzero)

end Conversions

/-! ### The hyperperiod -/

section Tasksets

variable {r : Resolution} {taskset : List Task}

def periods (taskset : List Task) : List ℕ := taskset.map Task.period

theorem tasksetPeriods_eq (r : Resolution) (taskset : List Task) :
    tasksetPeriods r taskset = ((periods taskset).map r.toNs).reverse := by
  have hfold : ∀ pushed : List ℕ,
      taskset.foldl (fun periods task => r.toNs task.period :: periods) pushed =
        ((periods taskset).map r.toNs).reverse ++ pushed := by
    induction taskset with
    | nil => exact fun _ => rfl
    | cons task taskset ih =>
      intro pushed
      rw [List.foldl_cons, ih]
      simp [periods]
  rw [tasksetPeriods, hfold, List.append_nil]

/-- The least common multiple of the periods. -/
def leastCommonMultiple (taskset : List Task) : ℕ := Multiset.lcm (periods taskset : Multiset ℕ)

/-- The same of the periods in whole nanoseconds. -/
def nsMultiple (r : Resolution) (taskset : List Task) : ℕ :=
  Multiset.lcm ((periods taskset).map r.toNs : Multiset ℕ)

/-- A result in ticks that is positive, a multiple of every period, and divides every common
multiple. -/
def IsHyperperiod (taskset : List Task) (result : Option ℕ) : Prop :=
  ∃ time, result = some time ∧ 0 < time ∧ (∀ task ∈ taskset, task.period ∣ time) ∧
    ∀ multiple, (∀ task ∈ taskset, task.period ∣ multiple) → time ∣ multiple

theorem leastCommonMultiple_dvd {multiple : ℕ} :
    leastCommonMultiple taskset ∣ multiple ↔ ∀ task ∈ taskset, task.period ∣ multiple := by
  rw [leastCommonMultiple, Multiset.lcm_dvd]
  simp [periods]

theorem nsMultiple_dvd {multiple : ℕ} :
    nsMultiple r taskset ∣ multiple ↔ ∀ task ∈ taskset, r.toNs task.period ∣ multiple := by
  rw [nsMultiple, Multiset.lcm_dvd]
  simp [periods]

theorem isHyperperiod_iff {result : Option ℕ} (hpos : 0 < leastCommonMultiple taskset) :
    IsHyperperiod taskset result ↔ result = some (leastCommonMultiple taskset) := by
  constructor
  · rintro ⟨time, rfl, -, hall, hleast⟩
    congr 1
    apply Nat.dvd_antisymm
    · exact hleast _ (leastCommonMultiple_dvd.mp dvd_rfl)
    · exact leastCommonMultiple_dvd.mpr hall
  · intro h
    exact ⟨_, h, hpos, leastCommonMultiple_dvd.mp dvd_rfl, fun _ => leastCommonMultiple_dvd.mpr⟩

/-- Rounding every period down to whole nanoseconds does not change the least common multiple. -/
def RoundingHarmless (r : Resolution) (taskset : List Task) : Prop :=
  nsMultiple r taskset * r.ticks = leastCommonMultiple taskset * r.nanoseconds

/-- The least common multiple is a number of 64 bits, of ticks and of nanoseconds. -/
structure Fits (r : Resolution) (taskset : List Task) : Prop where
  ticks : leastCommonMultiple taskset < wordSize
  nanoseconds : r.toNs (leastCommonMultiple taskset) < wordSize

theorem tasksetPeriods_coe (r : Resolution) (taskset : List Task) :
    Multiset.lcm (tasksetPeriods r taskset : Multiset ℕ) = nsMultiple r taskset := by
  rw [tasksetPeriods_eq, Multiset.coe_reverse]
  rfl

theorem tasksetPeriods_ne_nil (hne : taskset ≠ []) : tasksetPeriods r taskset ≠ [] := by
  rw [tasksetPeriods_eq]
  simpa [periods] using hne

theorem length_tasksetPeriods : (tasksetPeriods r taskset).length = taskset.length := by
  rw [tasksetPeriods_eq, List.length_reverse, List.length_map, periods, List.length_map]

theorem zero_notMem_iff : 0 ∉ tasksetPeriods r taskset ↔ 0 < nsMultiple r taskset := by
  rw [Nat.pos_iff_ne_zero, ← tasksetPeriods_coe, Multiset.lcm_ne_zero_iff, Multiset.mem_coe]

theorem getHyperperiod_eq (hperiodic : isPeriodic taskset = true) (hne : taskset ≠ [])
    (few : taskset.length < indexSize) (hpos : 0 < nsMultiple r taskset)
    (fits : nsMultiple r taskset < wordSize) : getHyperperiod r taskset = r.scTimeNs (nsMultiple r taskset) := by
  have hwords : ∀ period ∈ tasksetPeriods r taskset, period < wordSize := by
    intro period hmem
    have hdvd : period ∣ nsMultiple r taskset := by
      rw [← tasksetPeriods_coe]
      exact Multiset.dvd_lcm (Multiset.mem_coe.mpr hmem)
    exact (Nat.le_of_dvd hpos hdvd).trans_lt fits
  rw [getHyperperiod, hperiodic, if_neg (by simp), toWords_eq hwords, Option.bind_some]
  rw [← zero_notMem_iff] at hpos
  rw [← tasksetPeriods_coe] at fits ⊢
  have short : (tasksetPeriods r taskset).length < indexSize := by
    rwa [length_tasksetPeriods]
  rw [LeastCommonMultiple.lcm_eq short (tasksetPeriods_ne_nil hne) hpos fits, Option.bind_some]

/-- The index of the loop does not count more tasks than it has values. -/
theorem getHyperperiod_long (many : indexSize ≤ taskset.length) :
    getHyperperiod r taskset = none := by
  rw [getHyperperiod]
  split
  · rfl
  · rw [toWords]
    split
    · rw [Option.bind_some, LeastCommonMultiple.lcm_long (by rwa [length_tasksetPeriods])]
      rfl
    · rfl

/-- A period below a nanosecond leaves no positive result. -/
theorem getHyperperiod_zero {time : ℕ} (hzero : 0 ∈ tasksetPeriods r taskset)
    (h : getHyperperiod r taskset = some time) : time = 0 := by
  rw [getHyperperiod] at h
  split_ifs at h
  obtain ⟨words, hwords, hresult⟩ := Option.bind_eq_some_iff.mp h
  obtain ⟨ns, hns, hconverted⟩ := Option.bind_eq_some_iff.mp hresult
  rw [toWords] at hwords
  split_ifs at hwords
  rw [← Option.some.inj hwords] at hns
  rw [LeastCommonMultiple.lcm_zero hzero hns] at hconverted
  exact scTimeNs_zero hconverted

theorem leastCommonMultiple_pos (hpos : ∀ task ∈ taskset, 0 < task.period) :
    0 < leastCommonMultiple taskset := by
  apply Nat.pos_of_ne_zero
  rw [leastCommonMultiple, Multiset.lcm_ne_zero_iff, Multiset.mem_coe, periods]
  intro hmem
  obtain ⟨task, htask, hzero⟩ := List.mem_map.mp hmem
  exact (hpos task htask).ne' hzero

theorem RoundingHarmless.nsMultiple_eq (harmless : RoundingHarmless r taskset) :
    nsMultiple r taskset = r.toNs (leastCommonMultiple taskset) := by
  rw [Resolution.toNs, ← harmless, Nat.mul_div_cancel _ r.ticks_pos]

/-- Periods of whole nanoseconds lose nothing. -/
theorem harmless_of_whole (hwhole : ∀ task ∈ taskset, r.ticks ∣ task.period * r.nanoseconds)
    (hne : taskset ≠ []) : RoundingHarmless r taskset := by
  obtain ⟨first, rest, rfl⟩ := List.exists_cons_of_ne_nil hne
  have hfirst : first ∈ first :: rest := List.mem_cons_self
  have hback : ∀ task ∈ first :: rest,
      r.toNs task.period * r.ticks = task.period * r.nanoseconds :=
    fun task htask => Nat.div_mul_cancel (hwhole task htask)
  have hperiods := leastCommonMultiple_dvd.mp (dvd_refl (leastCommonMultiple (first :: rest)))
  have hrounded := nsMultiple_dvd.mp (dvd_refl (nsMultiple r (first :: rest)))
  apply Nat.dvd_antisymm
  · obtain ⟨ns, hns⟩ : r.ticks ∣ leastCommonMultiple (first :: rest) * r.nanoseconds :=
      (hwhole first hfirst).trans (Nat.mul_dvd_mul_right (hperiods first hfirst) _)
    rw [hns, Nat.mul_comm]
    apply Nat.mul_dvd_mul_left
    apply nsMultiple_dvd.mpr
    intro task htask
    apply Nat.dvd_of_mul_dvd_mul_right r.ticks_pos
    rw [hback task htask, Nat.mul_comm ns, ← hns]
    exact Nat.mul_dvd_mul_right (hperiods task htask) _
  · have hscaled : ∀ task ∈ first :: rest,
        task.period * r.nanoseconds ∣ nsMultiple r (first :: rest) * r.ticks := by
      intro task htask
      rw [← hback task htask]
      exact Nat.mul_dvd_mul_right (hrounded task htask) _
    obtain ⟨time, htime⟩ : r.nanoseconds ∣ nsMultiple r (first :: rest) * r.ticks :=
      (Nat.dvd_mul_left _ _).trans (hscaled first hfirst)
    rw [htime, Nat.mul_comm]
    apply Nat.mul_dvd_mul_left
    apply leastCommonMultiple_dvd.mpr
    intro task htask
    apply Nat.dvd_of_mul_dvd_mul_right r.nanoseconds_pos
    rw [Nat.mul_comm time, ← htime]
    exact hscaled task htask

/-- A tick of a nanosecond or more rounds nothing. -/
theorem harmless_of_coarse (hcoarse : r.ticks = 1) (hne : taskset ≠ []) :
    RoundingHarmless r taskset := by
  apply harmless_of_whole _ hne
  intro task _
  rw [hcoarse]
  exact Nat.one_dvd _

theorem hyperperiod_of_harmless (hperiodic : isPeriodic taskset = true)
    (hne : taskset ≠ []) (hpos : ∀ task ∈ taskset, 0 < task.period)
    (fits : Fits r taskset) (few : taskset.length < indexSize)
    (harmless : RoundingHarmless r taskset) :
    IsHyperperiod taskset (getHyperperiod r taskset) := by
  have hlcm := leastCommonMultiple_pos hpos
  have hns : 0 < nsMultiple r taskset := by
    have hproduct := Nat.mul_pos hlcm r.nanoseconds_pos
    rw [← harmless] at hproduct
    exact Nat.pos_of_mul_pos_right hproduct
  have hword : nsMultiple r taskset < wordSize := by
    rw [harmless.nsMultiple_eq]
    exact fits.nanoseconds
  rw [isHyperperiod_iff hlcm, getHyperperiod_eq hperiodic hne few hns hword]
  exact scTimeNs_of_exact harmless fits.ticks

theorem harmless_of_hyperperiod (hperiodic : isPeriodic taskset = true) (hne : taskset ≠ [])
    (hpos : ∀ task ∈ taskset, 0 < task.period) (few : taskset.length < indexSize)
    (fits : nsMultiple r taskset < wordSize)
    (h : IsHyperperiod taskset (getHyperperiod r taskset)) : RoundingHarmless r taskset := by
  have hlcm := leastCommonMultiple_pos hpos
  rw [isHyperperiod_iff hlcm] at h
  have hns : 0 < nsMultiple r taskset := by
    rw [← zero_notMem_iff]
    intro hmem
    exact hlcm.ne' (getHyperperiod_zero hmem h)
  rw [getHyperperiod_eq hperiodic hne few hns fits] at h
  rcases r.whole with hcoarse | hfine
  · exact harmless_of_coarse hcoarse hne
  · exact exact_of_scTimeNs hfine h

/-- The hyperperiod is right where the rounding is harmless and the index counts the tasks, and
where the rounded periods have a least common multiple of 64 bits nowhere else. -/
theorem hyperperiod_right (hperiodic : isPeriodic taskset = true) (hne : taskset ≠ [])
    (hpos : ∀ task ∈ taskset, 0 < task.period) (fits : Fits r taskset) :
    (taskset.length < indexSize ∧ RoundingHarmless r taskset →
        IsHyperperiod taskset (getHyperperiod r taskset)) ∧
      (IsHyperperiod taskset (getHyperperiod r taskset) → taskset.length < indexSize ∧
        (RoundingHarmless r taskset ∨ wordSize ≤ nsMultiple r taskset)) := by
  refine ⟨fun ⟨few, harmless⟩ => hyperperiod_of_harmless hperiodic hne hpos fits few harmless,
    fun h => ?_⟩
  have few : taskset.length < indexSize := by
    by_contra many
    obtain ⟨time, htime, -⟩ := h
    rw [getHyperperiod_long (Nat.le_of_not_lt many)] at htime
    cases htime
  by_cases hfits : nsMultiple r taskset < wordSize
  · exact ⟨few, .inl (harmless_of_hyperperiod hperiodic hne hpos few hfits h)⟩
  · exact ⟨few, .inr (Nat.le_of_not_lt hfits)⟩

/-- At a tick of a nanosecond or less the number of ticks decides. -/
theorem fits_of_fine (hfine : r.nanoseconds = 1) (fits : leastCommonMultiple taskset < wordSize) :
    Fits r taskset := by
  refine ⟨fits, ?_⟩
  rw [Resolution.toNs, hfine, Nat.mul_one]
  exact (Nat.div_le_self _ _).trans_lt fits

end Tasksets

/-- The default: a thousand ticks in a nanosecond. -/
def picosecond : Resolution where
  ticks := 1000
  nanoseconds := 1
  ticks_pos := by omega
  nanoseconds_pos := by omega
  whole := .inr rfl

/-- Periods of 2 and 3 nanoseconds. -/
theorem hyperperiod_of_two_and_three :
    IsHyperperiod [⟨true, 2000⟩, ⟨true, 3000⟩]
      (getHyperperiod picosecond [⟨true, 2000⟩, ⟨true, 3000⟩]) := by
  have fits : Fits picosecond [⟨true, 2000⟩, ⟨true, 3000⟩] := fits_of_fine rfl (by decide)
  refine (hyperperiod_right rfl (by simp) (by simp) fits).1 ⟨by decide, ?_⟩
  apply harmless_of_whole _ (by simp)
  intro task htask
  simp only [List.mem_cons, List.not_mem_nil, or_false] at htask
  rcases htask with rfl | rfl
  · exact ⟨2, rfl⟩
  · exact ⟨3, rfl⟩

/-- A period of one and a half nanoseconds is taken for one. -/
theorem hyperperiod_of_fraction :
    ¬ ∀ (r : Resolution) (taskset : List Task), isPeriodic taskset = true →
      taskset ≠ [] → (∀ task ∈ taskset, 0 < task.period) → Fits r taskset →
      IsHyperperiod taskset (getHyperperiod r taskset) := by
  intro hall
  have fits : Fits picosecond [⟨true, 1500⟩] := fits_of_fine rfl (by decide)
  obtain ⟨time, htime, -, hdvd, -⟩ :=
    hall picosecond [⟨true, 1500⟩] rfl (by simp) (by simp) fits
  have hvalue : getHyperperiod picosecond [⟨true, 1500⟩] = some 1000 := by decide +kernel
  obtain rfl : 1000 = time := Option.some.inj (hvalue.symm.trans htime)
  have hperiod : 1500 ∣ 1000 := hdvd ⟨true, 1500⟩ List.mem_cons_self
  omega

end Kista.Scheduling.Hyperperiod
