/- Kista/RealTime/UtilizationBounds
   digest: The time demand of recurring loads, and the bounds on their utilization under which it
   is met within the longest period: the product bound, and the one of Liu and Layland. -/

import Mathlib.Algebra.Order.BigOperators.Ring.Finset
import Mathlib.Algebra.Order.Floor.Div
import Mathlib.Analysis.MeanInequalities
import Mathlib.Data.Finset.Max
import Mathlib.Tactic.Linarith

set_option autoImplicit false
set_option relaxedAutoImplicit false

namespace Kista.RealTime.UtilizationBounds

open Finset

variable {ι : Type*}

section Demand

variable (load period : ι → ℕ) (units : Finset ι)

/-- What the units ask for in a window of length `t` that begins with a load of each. -/
def timeDemand (t : ℕ) : ℕ := ∑ i ∈ units, load i * (t ⌈/⌉ period i)

def utilization (i : ι) : ℚ := load i / period i

def totalUtilization : ℚ := ∑ i ∈ units, utilization load period i

/-- The demand is met at some instant up to `deadline`. -/
def MetBy (deadline : ℕ) : Prop := ∃ t, 0 < t ∧ t ≤ deadline ∧ timeDemand load period units t ≤ t

end Demand

variable {load period : ι → ℕ} {units : Finset ι}

theorem utilization_nonneg (i : ι) : 0 ≤ utilization load period i := by
  rw [utilization]
  positivity

/-- Units that always ask for at least their utilization of a window. -/
theorem utilization_mul_le (positive : ∀ i ∈ units, 0 < period i) (t : ℕ) :
    totalUtilization load period units * t ≤ timeDemand load period units t := by
  rw [totalUtilization, timeDemand, sum_mul, Nat.cast_sum]
  refine sum_le_sum fun i member => ?_
  have period_pos : (0 : ℚ) < period i := Nat.cast_pos.mpr (positive i member)
  have covers : t ≤ period i * (t ⌈/⌉ period i) :=
    (ceilDiv_le_iff_le_mul (positive i member)).mp le_rfl
  have covers : (t : ℚ) ≤ period i * ((t ⌈/⌉ period i : ℕ) : ℚ) := by exact_mod_cast covers
  calc utilization load period i * t
      ≤ utilization load period i * (period i * ((t ⌈/⌉ period i : ℕ) : ℚ)) :=
        mul_le_mul_of_nonneg_left covers (utilization_nonneg i)
    _ = ((load i * (t ⌈/⌉ period i) : ℕ) : ℚ) := by
        rw [utilization, Nat.cast_mul]
        field_simp

/-- A demand that is met somewhere leaves the processor no more than fully used. -/
theorem totalUtilization_le_one (positive : ∀ i ∈ units, 0 < period i) {deadline : ℕ}
    (met : MetBy load period units deadline) : totalUtilization load period units ≤ 1 := by
  obtain ⟨t, t_pos, -, met⟩ := met
  have t_pos : (0 : ℚ) < t := Nat.cast_pos.mpr t_pos
  have met : (timeDemand load period units t : ℚ) ≤ t := Nat.cast_le.mpr met
  have used := (utilization_mul_le positive t).trans met
  exact le_of_mul_le_mul_right (by rwa [one_mul]) t_pos

section Product

variable [DecidableEq ι] {K : Type*} [Field K] [LinearOrder K] [IsStrictOrderedRing K]

/-- Amounts `u * t` are added up in the order of the `t`. If no `t` exceeds what has been added up
before it, each step multiplies the sum by at most `1 + u`. -/
theorem add_sum_le_mul_prod {start : K} {u t : ι → K} (u_nonneg : ∀ i, 0 ≤ u i)
    (t_nonneg : ∀ i, 0 ≤ t i) (units : Finset ι)
    (below : ∀ i ∈ units, t i ≤ start + ∑ j ∈ units with t j < t i, u j * t j) :
    start + ∑ j ∈ units, u j * t j ≤ start * ∏ j ∈ units, (1 + u j) := by
  induction units using Finset.induction_on_max_value t with
  | empty => simp
  | insert last units fresh largest ih =>
    have share_nonneg : ∀ j, 0 ≤ u j * t j := fun j => mul_nonneg (u_nonneg j) (t_nonneg j)
    have earlier : ∀ i, t i ≤ t last → (insert last units).filter (fun j => t j < t i) =
        units.filter (fun j => t j < t i) := by
      intro i le
      rw [filter_insert, if_neg (not_lt.mpr le)]
    have prefix_le := ih fun i member => by
      have := below i (mem_insert_of_mem member)
      rwa [earlier i (largest i member)] at this
    have last_le : t last ≤ start + ∑ j ∈ units, u j * t j := by
      have own := below last (mem_insert_self last units)
      rw [earlier last le_rfl] at own
      have part : ∑ j ∈ units with t j < t last, u j * t j ≤ ∑ j ∈ units, u j * t j :=
        sum_le_sum_of_subset_of_nonneg (filter_subset _ _) fun j _ _ => share_nonneg j
      linarith
    rw [sum_insert fresh, prod_insert fresh]
    have grown : 0 ≤ 1 + u last := add_nonneg zero_le_one (u_nonneg last)
    calc start + (u last * t last + ∑ j ∈ units, u j * t j)
        ≤ start + (u last * (start + ∑ j ∈ units, u j * t j) + ∑ j ∈ units, u j * t j) := by
          have := mul_le_mul_of_nonneg_left last_le (u_nonneg last)
          linarith
      _ = (1 + u last) * (start + ∑ j ∈ units, u j * t j) := by ring
      _ ≤ (1 + u last) * (start * ∏ j ∈ units, (1 + u j)) :=
          mul_le_mul_of_nonneg_left prefix_le grown
      _ = start * ((1 + u last) * ∏ j ∈ units, (1 + u j)) := by ring

end Product

section RateMonotonic

variable {deadline : ℕ}

/-- The last instant up to `deadline` at which a load of period `period i` recurs. -/
def lastRecurrence (period : ι → ℕ) (deadline : ℕ) (i : ι) : ℕ := deadline / period i * period i

theorem lastRecurrence_le (i : ι) : lastRecurrence period deadline i ≤ deadline :=
  Nat.div_mul_le_self _ _

theorem lastRecurrence_pos {i : ι} (positive : 0 < period i) (le : period i ≤ deadline) :
    0 < lastRecurrence period deadline i :=
  Nat.mul_pos (Nat.div_pos le positive) positive

/-- Up to its last recurrence a unit has recurred as often as before it, and until the deadline at
most once more. -/
theorem recurrences_le {i : ι} (positive : 0 < period i) (le : period i ≤ deadline) {t : ℕ}
    (within : t ≤ deadline) :
    load i * (t ⌈/⌉ period i) ≤ load i * (deadline / period i) +
      if lastRecurrence period deadline i < t then load i * (deadline / period i) else 0 := by
  have once : 1 ≤ deadline / period i := Nat.div_pos le positive
  split
  · have upper : t ⌈/⌉ period i ≤ deadline / period i + 1 := by
      rw [ceilDiv_le_iff_le_mul positive]
      have := Nat.lt_mul_div_succ deadline positive
      omega
    rw [← Nat.mul_add]
    exact Nat.mul_le_mul_left _ (by omega)
  · rename_i before
    have upper : t ⌈/⌉ period i ≤ deadline / period i := by
      rw [ceilDiv_le_iff_le_mul positive, Nat.mul_comm]
      exact not_lt.mp before
    rw [Nat.add_zero]
    exact Nat.mul_le_mul_left _ upper

theorem share_eq {i : ι} (positive : 0 < period i) :
    utilization load period i * (lastRecurrence period deadline i : ℚ) =
      ((load i * (deadline / period i) : ℕ) : ℚ) := by
  have period_pos : (period i : ℚ) ≠ 0 := Nat.cast_ne_zero.mpr positive.ne'
  rw [utilization, lastRecurrence, Nat.cast_mul, Nat.cast_mul]
  field_simp

/-- The demand is met within a deadline that no period exceeds if the product over the units of
one plus the utilization stays below two. -/
theorem met_of_prod_lt_two [DecidableEq ι] (deadline_pos : 0 < deadline)
    (periods : ∀ i ∈ units, 0 < period i ∧ period i ≤ deadline)
    (small : ∏ i ∈ units, (1 + utilization load period i) < 2) :
    MetBy load period units deadline := by
  by_contra unmet
  let share : ι → ℕ := fun i => load i * (deadline / period i)
  let last : ι → ℕ := lastRecurrence period deadline
  have overrun : ∀ t, 0 < t → t ≤ deadline →
      t < ∑ i ∈ units, share i + ∑ i ∈ units with last i < t, share i := by
    intro t t_pos within
    have exceeds : t < timeDemand load period units t := by
      by_contra met
      exact unmet ⟨t, t_pos, within, not_lt.mp met⟩
    refine exceeds.trans_le ?_
    rw [sum_filter, ← sum_add_distrib]
    exact sum_le_sum fun i member =>
      recurrences_le (periods i member).1 (periods i member).2 within
  have shares : ∀ s ⊆ units, ((∑ i ∈ s, share i : ℕ) : ℚ) =
      ∑ i ∈ s, utilization load period i * (last i : ℚ) := by
    intro s sub
    rw [Nat.cast_sum]
    exact sum_congr rfl fun i member => (share_eq (periods i (sub member)).1).symm
  have total_pos : (0 : ℚ) < ∑ i ∈ units, utilization load period i * (last i : ℚ) := by
    rw [← shares units (Subset.refl _), Nat.cast_pos]
    have := overrun deadline deadline_pos le_rfl
    have : ∑ i ∈ units with last i < deadline, share i ≤ ∑ i ∈ units, share i :=
      sum_le_sum_of_subset (filter_subset _ _)
    omega
  have below : ∀ i ∈ units, (last i : ℚ) ≤
      ∑ j ∈ units, utilization load period j * (last j : ℚ) +
        ∑ j ∈ units with (last j : ℚ) < last i, utilization load period j * (last j : ℚ) := by
    intro i member
    have exceeds := overrun (last i)
      (lastRecurrence_pos (periods i member).1 (periods i member).2) (lastRecurrence_le i)
    have exceeds : (last i : ℚ) ≤ ((∑ j ∈ units, share j +
        ∑ j ∈ units with last j < last i, share j : ℕ) : ℚ) := Nat.cast_le.mpr exceeds.le
    rw [Nat.cast_add, shares units (Subset.refl _), shares _ (filter_subset _ _)] at exceeds
    simpa only [Nat.cast_lt] using exceeds
  have product := add_sum_le_mul_prod utilization_nonneg (fun i => Nat.cast_nonneg (last i)) units
    below
  have doubled : 2 * ∑ i ∈ units, utilization load period i * (last i : ℚ) ≤
      (∏ i ∈ units, (1 + utilization load period i)) *
        ∑ i ∈ units, utilization load period i * (last i : ℚ) := by linarith
  exact absurd small (not_lt.mpr (le_of_mul_le_mul_right doubled total_pos))

end RateMonotonic

section LiuLayland

/-- `n (2 ^ (1 / n) - 1)` -/
noncomputable def liuLayland (n : ℕ) : ℝ := n * ((2 : ℝ) ^ ((1 : ℝ) / n) - 1)

/-- The comparison with the bound without a root. -/
theorem lt_liuLayland_iff {n : ℕ} (positive : 0 < n) {u : ℝ} (nonneg : 0 ≤ u) :
    u < liuLayland n ↔ (1 + u / n) ^ n < 2 := by
  have n_pos : (0 : ℝ) < n := Nat.cast_pos.mpr positive
  have root : ((2 : ℝ) ^ ((1 : ℝ) / n)) ^ n = 2 := by
    rw [one_div, Real.rpow_inv_natCast_pow zero_le_two positive.ne']
  have base : 0 ≤ 1 + u / n := add_nonneg zero_le_one (div_nonneg nonneg n_pos.le)
  have linear : u < liuLayland n ↔ 1 + u / n < (2 : ℝ) ^ ((1 : ℝ) / n) := by
    rw [liuLayland, ← div_lt_iff₀' n_pos, lt_sub_iff_add_lt']
  rw [linear, ← pow_lt_pow_iff_left₀ base (Real.rpow_nonneg zero_le_two _) positive.ne', root]

theorem liuLayland_nonneg (n : ℕ) : 0 ≤ liuLayland n := by
  have root : 1 ≤ (2 : ℝ) ^ ((1 : ℝ) / n) :=
    Real.one_le_rpow one_le_two (one_div_nonneg.mpr n.cast_nonneg)
  exact mul_nonneg n.cast_nonneg (sub_nonneg.mpr root)

/-- The bound is reached, as a comparison of real numbers. -/
def ReachesLiuLayland (n : ℕ) (u : ℚ) : Prop := liuLayland n ≤ (u : ℝ)

theorem reachesLiuLayland_iff (n : ℕ) (u : ℚ) :
    ReachesLiuLayland n u ↔ 0 ≤ u ∧ (n = 0 ∨ 2 ≤ (1 + u / n) ^ n) := by
  rw [ReachesLiuLayland]
  rcases lt_or_ge u 0 with negative | nonneg
  · have below : (u : ℝ) < 0 := Rat.cast_lt_zero.mpr negative
    have := liuLayland_nonneg n
    exact iff_of_false (by linarith) fun h => absurd h.1 (not_le.mpr negative)
  · rcases n.eq_zero_or_pos with rfl | positive
    · rw [liuLayland, Nat.cast_zero, zero_mul]
      exact iff_of_true (Rat.cast_nonneg.mpr nonneg) ⟨nonneg, Or.inl rfl⟩
    · rw [← not_lt, lt_liuLayland_iff positive (Rat.cast_nonneg.mpr nonneg), not_lt,
        and_iff_right nonneg, or_iff_right positive.ne']
      exact_mod_cast Iff.rfl

instance (n : ℕ) (u : ℚ) : Decidable (ReachesLiuLayland n u) :=
  decidable_of_iff _ (reachesLiuLayland_iff n u).symm

theorem liuLayland_le_one {n : ℕ} (positive : 0 < n) : liuLayland n ≤ 1 := by
  have n_ne : (n : ℝ) ≠ 0 := Nat.cast_ne_zero.mpr positive.ne'
  rw [← not_lt, lt_liuLayland_iff positive zero_le_one, not_lt]
  have nonneg : (-2 : ℝ) ≤ 1 / n := by
    have : (0 : ℝ) ≤ 1 / n := by positivity
    linarith
  have bernoulli := one_add_mul_le_pow nonneg n
  rw [mul_one_div_cancel n_ne] at bernoulli
  linarith

/-- The product of factors `1 + u` is at most that of equal factors with the same sum. -/
theorem prod_one_add_le {u : ι → ℝ} (nonneg : ∀ i ∈ units, 0 ≤ u i) (some : units.Nonempty) :
    ∏ i ∈ units, (1 + u i) ≤ (1 + (∑ i ∈ units, u i) / units.card) ^ units.card := by
  have card_pos : (0 : ℝ) < units.card := Nat.cast_pos.mpr some.card_pos
  have factors : ∀ i ∈ units, 0 ≤ 1 + u i := fun i member =>
    add_nonneg zero_le_one (nonneg i member)
  have ones : ∑ _i ∈ units, (1 : ℝ) = units.card := by
    rw [sum_const, nsmul_eq_mul, mul_one]
  have mean := Real.geom_mean_le_arith_mean units (fun _ => 1) (fun i => 1 + u i)
    (fun _ _ => zero_le_one) (by rw [ones]; exact card_pos) factors
  simp only [Real.rpow_one, one_mul, ones, sum_add_distrib] at mean
  rw [add_div, div_self card_pos.ne'] at mean
  have product_nonneg : 0 ≤ ∏ i ∈ units, (1 + u i) := prod_nonneg factors
  calc ∏ i ∈ units, (1 + u i)
      = ((∏ i ∈ units, (1 + u i)) ^ ((units.card : ℝ)⁻¹)) ^ units.card := by
        rw [Real.rpow_inv_natCast_pow product_nonneg some.card_ne_zero]
    _ ≤ (1 + (∑ i ∈ units, u i) / units.card) ^ units.card :=
        pow_le_pow_left₀ (Real.rpow_nonneg product_nonneg _) mean _

/-- Below the bound of Liu and Layland the product stays below two. -/
theorem prod_lt_two_of_liuLayland {u : ι → ℝ} (nonneg : ∀ i ∈ units, 0 ≤ u i)
    (some : units.Nonempty) (small : ∑ i ∈ units, u i < liuLayland units.card) :
    ∏ i ∈ units, (1 + u i) < 2 :=
  (prod_one_add_le nonneg some).trans_lt
    ((lt_liuLayland_iff some.card_pos (sum_nonneg nonneg)).mp small)

/-- A set below the bound meets the demand of each part of it within the longest period of the
part. -/
theorem met_of_lt_liuLayland [DecidableEq ι] {part : Finset ι} {deadline : ℕ}
    (sub : part ⊆ units) (deadline_pos : 0 < deadline)
    (periods : ∀ i ∈ part, 0 < period i ∧ period i ≤ deadline)
    (small : ¬ ReachesLiuLayland units.card (totalUtilization load period units)) :
    MetBy load period part deadline := by
  rcases part.eq_empty_or_nonempty with rfl | some
  · exact ⟨deadline, deadline_pos, le_rfl, by simp [timeDemand]⟩
  · refine met_of_prod_lt_two deadline_pos periods ?_
    have factor : ∀ i, 1 ≤ 1 + utilization load period i := fun i =>
      le_add_of_nonneg_right (utilization_nonneg i)
    have part_le : ∏ i ∈ part, (1 + utilization load period i) ≤
        ∏ i ∈ units, (1 + utilization load period i) :=
      prod_le_prod_of_subset_of_one_le sub (fun i _ => zero_le_one.trans (factor i))
        fun i _ _ => factor i
    have whole : ∏ i ∈ units, (1 + ((utilization load period i : ℚ) : ℝ)) < 2 := by
      refine prod_lt_two_of_liuLayland (fun i _ => Rat.cast_nonneg.mpr (utilization_nonneg i))
        (some.mono sub) ?_
      rw [ReachesLiuLayland, totalUtilization, Rat.cast_sum] at small
      exact not_le.mp small
    refine part_le.trans_lt ?_
    exact_mod_cast whole

end LiuLayland

end Kista.RealTime.UtilizationBounds
