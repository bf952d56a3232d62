/- Kista/RealTime/FixedPriority
   digest: One processor that is handed out slot by slot to the most urgent task with work left,
   and the time in which it answers a task: the demand that the task and the more urgent ones meet
   within a window bounds every response. -/

import Mathlib.Data.Finset.Option
import Mathlib.Order.Interval.Finset.Nat
import Kista.RealTime.UtilizationBounds

set_option autoImplicit false
set_option relaxedAutoImplicit false

namespace Kista.RealTime.FixedPriority

open Finset UtilizationBounds

/-- The task that has the processor in a slot, and the tasks that carry work of the past into it. -/
structure Schedule (ι : Type*) where
  holder : ℕ → Option ι
  carried : ι → ℕ → Prop

namespace Schedule

variable {ι : Type*} [DecidableEq ι]

section Definitions

variable (s : Schedule ι)

def heldIn (i : ι) (a b : ℕ) : Finset ℕ := {t ∈ Ico a b | s.holder t = some i}

/-- The slots between two instants in which a task has the processor. -/
def held (i : ι) (a b : ℕ) : ℕ := (s.heldIn i a b).card

/-- While a task of the group has work left over, the processor is with the group. -/
def Serves (horizon : ℕ) (group : Finset ι) : Prop :=
  ∀ t < horizon, ∀ j ∈ group, s.carried j (t + 1) → ∃ k ∈ group, s.holder t = some k

/-- From an instant at which nothing is left over, a task has the processor for at most one load in
each period that has begun. -/
structure Sporadic (horizon load period : ℕ) (j : ι) : Prop where
  start : ¬ s.carried j 0
  bounded : ∀ a n, a + n ≤ horizon → ¬ s.carried j a → s.held j a (a + n) ≤ load * (n ⌈/⌉ period)

/-- What a task begins is over once it has had the processor for `load` slots. -/
def Finishes (horizon load : ℕ) (i : ι) : Prop :=
  ∀ r x, x ≤ horizon → ¬ s.carried i r → load ≤ s.held i r x →
    ∃ t, r < t ∧ t ≤ x ∧ ¬ s.carried i t

/-- A slot goes to the task only when no task of the group has anything to do. -/
def Yields (wants : ℕ → ι → Prop) (horizon : ℕ) (group : Finset ι) (i : ι) : Prop :=
  ∀ t < horizon, s.holder t = some i → ∀ j ∈ group, ¬ wants t j

/-- A task that has nothing to do has had a whole load for each period that has begun since `r`. -/
def TakesAll (wants : ℕ → ι → Prop) (horizon load period r : ℕ) (j : ι) : Prop :=
  ∀ t < horizon, r ≤ t → ¬ wants t j → load * ((t + 1 - r) ⌈/⌉ period) ≤ s.held j r t

/-- What a task begins at `r` is not over before it has had the processor for `load` slots. -/
def Lasts (horizon load r : ℕ) (i : ι) : Prop :=
  ∀ t ≤ horizon, r < t → ¬ s.carried i t → load ≤ s.held i r t

/-- What a task begins is over after `bound` slots. -/
def Responds (horizon bound : ℕ) (i : ι) : Prop :=
  ∀ r, r + bound ≤ horizon → ¬ s.carried i r → ∃ t, r < t ∧ t ≤ r + bound ∧ ¬ s.carried i t

end Definitions

variable {s : Schedule ι} {horizon : ℕ} {i : ι} {above : Finset ι}

omit [DecidableEq ι] in
theorem Responds.mono {bound bound' : ℕ} (le : bound ≤ bound') (h : s.Responds horizon bound i) :
    s.Responds horizon bound' i := by
  intro r within clear
  obtain ⟨t, later, before, done⟩ := h r (by omega) clear
  exact ⟨t, later, by omega, done⟩

/-- Each slot that the group holds is a slot of one of its members. -/
theorem sum_held {group : Finset ι} {a b : ℕ}
    (all : ∀ t, a ≤ t → t < b → ∃ k ∈ group, s.holder t = some k) :
    ∑ k ∈ group, s.held k a b = b - a := by
  have maps : Set.MapsTo s.holder (Ico a b) (group.map .some) := by
    intro t within
    obtain ⟨from_a, to_b⟩ := mem_Ico.mp (mem_coe.mp within)
    obtain ⟨k, member, holds⟩ := all t from_a to_b
    rw [holds]
    exact mem_coe.mpr (mem_map_of_mem _ member)
  have fibers := card_eq_sum_card_fiberwise maps
  rw [Nat.card_Ico, sum_map] at fibers
  exact fibers.symm

omit [DecidableEq ι] in
/-- The last instant up to `r` at which no task of the group carries work over. -/
theorem exists_last_clear {group : Finset ι} (start : ∀ j ∈ group, ¬ s.carried j 0) (r : ℕ) :
    ∃ t₀ ≤ r, (∀ j ∈ group, ¬ s.carried j t₀) ∧
      ∀ t, t₀ < t → t ≤ r → ∃ j ∈ group, s.carried j t := by
  classical
  let clear : ℕ → Prop := fun t => ∀ j ∈ group, ¬ s.carried j t
  refine ⟨Nat.findGreatest clear r, Nat.findGreatest_le r,
    Nat.findGreatest_spec (P := clear) (Nat.zero_le r) start, fun t later within => ?_⟩
  have loaded := Nat.findGreatest_is_greatest later within
  by_contra none
  exact loaded fun j member carries => none ⟨j, member, carries⟩

/-- The response bound: a window in which the load of the task and the demand of the more urgent
tasks fit is long enough for every response. -/
theorem responds_of_fits {R load : ℕ} {bound : ι → ℕ} (fresh : i ∉ above)
    (serves : s.Serves horizon above) (serves_own : s.Serves horizon (insert i above))
    (start : ∀ j ∈ above, ¬ s.carried j 0)
    (bounded : ∀ j ∈ above, ∀ a, a + R ≤ horizon → ¬ s.carried j a →
      s.held j a (a + R) ≤ bound j)
    (finishes : s.Finishes horizon load i) (fits : load + ∑ j ∈ above, bound j ≤ R) :
    s.Responds horizon R i := by
  intro r within clear
  by_contra late
  have carries : ∀ t, r < t → t ≤ r + R → s.carried i t := by
    intro t later before
    by_contra done
    exact late ⟨t, later, before, done⟩
  obtain ⟨t₀, t₀_le, quiet, busy⟩ := exists_last_clear start r
  -- before the release the more urgent tasks keep the processor busy
  have urgent : ∀ t, t₀ ≤ t → t < r → ∃ k ∈ above, s.holder t = some k := by
    intro t from_t₀ before
    obtain ⟨j, member, carried⟩ := busy (t + 1) (by omega) (by omega)
    exact serves t (by omega) j member carried
  have group : ∀ t, t₀ ≤ t → t < t₀ + R → ∃ k ∈ insert i above, s.holder t = some k := by
    intro t from_t₀ before
    by_cases released : r ≤ t
    · exact serves_own t (by omega) i (mem_insert_self i above)
        (carries (t + 1) (by omega) (by omega))
    · obtain ⟨k, member, holds⟩ := urgent t from_t₀ (by omega)
      exact ⟨k, mem_insert_of_mem member, holds⟩
  have shares := sum_held group
  rw [sum_insert fresh, Nat.add_sub_cancel_left] at shares
  have demand : ∑ j ∈ above, s.held j t₀ (t₀ + R) ≤ ∑ j ∈ above, bound j :=
    sum_le_sum fun j member => bounded j member t₀ (by omega) (quiet j member)
  have own_later : s.held i t₀ (t₀ + R) ≤ s.held i r (t₀ + R) := by
    refine card_le_card fun t within => ?_
    simp only [heldIn, mem_filter, mem_Ico] at within ⊢
    refine ⟨⟨?_, within.1.2⟩, within.2⟩
    by_contra before
    obtain ⟨k, member, holds⟩ := urgent t within.1.1 (not_le.mp before)
    obtain rfl : i = k := Option.some.inj (within.2.symm.trans holds)
    exact fresh member
  obtain ⟨t, later, before, done⟩ := finishes r (t₀ + R) (by omega) clear (by omega)
  exact done (carries t later (by omega))

/-- Tasks in the order of urgency: each response ends within the window in which the demand is
met. -/
theorem responds_of_met {load period : ι → ℕ} {R : ℕ} (fresh : i ∉ above)
    (serves : s.Serves horizon above) (serves_own : s.Serves horizon (insert i above))
    (sporadic : ∀ j ∈ above, s.Sporadic horizon (load j) (period j) j)
    (finishes : s.Finishes horizon (load i) i)
    (met : load i + timeDemand load period above R ≤ R) : s.Responds horizon R i :=
  responds_of_fits fresh serves serves_own (fun j member => (sporadic j member).start)
    (fun j member a within clear => (sporadic j member).bounded a R within clear) finishes met

/-- The first load of a window no longer than the period is the only one. -/
theorem demand_insert {load period : ι → ℕ} (fresh : i ∉ above) {t : ℕ} (positive : 0 < t)
    (within : t ≤ period i) :
    timeDemand load period (insert i above) t = load i + timeDemand load period above t := by
  have period_pos : 0 < period i := by omega
  have once : t ⌈/⌉ period i = 1 := by
    refine le_antisymm ?_ ?_
    · rw [ceilDiv_le_iff_le_mul period_pos]
      omega
    · by_contra none
      have : t ⌈/⌉ period i ≤ 0 := by omega
      rw [ceilDiv_le_iff_le_mul period_pos] at this
      omega
  rw [timeDemand, sum_insert fresh, once, Nat.mul_one]
  rfl

/-- A demand that is met within the period leaves every response within the period. -/
theorem responds_within_period {load period : ι → ℕ} (fresh : i ∉ above)
    (serves : s.Serves horizon above) (serves_own : s.Serves horizon (insert i above))
    (sporadic : ∀ j ∈ above, s.Sporadic horizon (load j) (period j) j)
    (finishes : s.Finishes horizon (load i) i)
    (met : MetBy load period (insert i above) (period i)) : s.Responds horizon (period i) i := by
  obtain ⟨t, positive, within, met⟩ := met
  rw [demand_insert fresh positive within] at met
  exact (responds_of_met fresh serves serves_own sporadic finishes met).mono within

theorem held_mono (j : ι) {a b b' : ℕ} (le : b ≤ b') : s.held j a b ≤ s.held j a b' :=
  card_le_card (filter_subset_filter _ (Ico_subset_Ico_right le))

/-- The tasks of a group have no more slots than there are. -/
theorem sum_held_le (group : Finset ι) (a b : ℕ) : ∑ k ∈ group, s.held k a b ≤ b - a := by
  have apart : Set.PairwiseDisjoint (group : Set ι) fun k => s.heldIn k a b := by
    rintro k - k' - other
    refine disjoint_left.mpr fun t holds holds' => other ?_
    have same := (mem_filter.mp holds).2.symm.trans (mem_filter.mp holds').2
    exact Option.some.inj same
  have inside : group.biUnion (fun k => s.heldIn k a b) ⊆ Ico a b :=
    biUnion_subset.mpr fun k _ => filter_subset _ _
  calc ∑ k ∈ group, s.held k a b
      = (group.biUnion fun k => s.heldIn k a b).card := (card_biUnion apart).symm
    _ ≤ (Ico a b).card := card_le_card inside
    _ = b - a := Nat.card_Ico a b

/-- The last slot that a task has before it has had nothing more. -/
theorem exists_last_held {a b : ℕ} (some_held : 0 < s.held i a b) :
    ∃ t, a ≤ t ∧ t < b ∧ s.holder t = some i ∧ s.held i a (t + 1) = s.held i a b := by
  have nonempty : (s.heldIn i a b).Nonempty := card_pos.mp some_held
  let t := (s.heldIn i a b).max' nonempty
  have listed : t ∈ s.heldIn i a b := max'_mem _ nonempty
  obtain ⟨within, holds⟩ := mem_filter.mp listed
  obtain ⟨from_a, to_b⟩ := mem_Ico.mp within
  refine ⟨t, from_a, to_b, holds, le_antisymm (held_mono i (by omega)) (card_le_card ?_)⟩
  intro u later
  have le : u ≤ t := le_max' _ u later
  obtain ⟨bounds, held_by⟩ := mem_filter.mp later
  exact mem_filter.mpr ⟨mem_Ico.mpr ⟨(mem_Ico.mp bounds).1, by omega⟩, held_by⟩

/-- The lower bound: when the more urgent tasks come together with the task and take all that they
may, what it begins is not over before a window in which the demand is met. -/
theorem met_of_over {wants : ℕ → ι → Prop} {load period : ι → ℕ} {r t : ℕ} (fresh : i ∉ above)
    (yields : s.Yields wants horizon above i)
    (all : ∀ j ∈ above, s.TakesAll wants horizon (load j) (period j) r j)
    (lasts : s.Lasts horizon (load i) r i) (load_pos : 0 < load i)
    (later : r < t) (within : t ≤ horizon) (finished : ¬ s.carried i t) :
    ∃ x, r + x ≤ t ∧ load i + timeDemand load period above x ≤ x := by
  have done := lasts t within later finished
  obtain ⟨u, from_r, before, holds, same⟩ := exists_last_held (load_pos.trans_le done)
  refine ⟨u + 1 - r, by omega, ?_⟩
  -- in its last slot the task has waited for all that is more urgent
  have urgent : timeDemand load period above (u + 1 - r) ≤ ∑ j ∈ above, s.held j r (u + 1) := by
    refine sum_le_sum fun j member => ?_
    have quiet := yields u (by omega) holds j member
    exact (all j member u (by omega) from_r quiet).trans (held_mono j (Nat.le_succ u))
  calc load i + timeDemand load period above (u + 1 - r)
      ≤ s.held i r (u + 1) + ∑ j ∈ above, s.held j r (u + 1) := by omega
    _ = ∑ j ∈ insert i above, s.held j r (u + 1) := by rw [sum_insert fresh]
    _ ≤ u + 1 - r := sum_held_le _ r (u + 1)

/-- In the worst case the bound is exact. -/
theorem over_within_iff {wants : ℕ → ι → Prop} {load period : ι → ℕ} {r d : ℕ} (fresh : i ∉ above)
    (serves : s.Serves horizon above) (serves_own : s.Serves horizon (insert i above))
    (sporadic : ∀ j ∈ above, s.Sporadic horizon (load j) (period j) j)
    (finishes : s.Finishes horizon (load i) i)
    (yields : s.Yields wants horizon above i)
    (all : ∀ j ∈ above, s.TakesAll wants horizon (load j) (period j) r j)
    (lasts : s.Lasts horizon (load i) r i) (load_pos : 0 < load i)
    (begins : ¬ s.carried i r) (within : r + d ≤ horizon) :
    (∃ t, r < t ∧ t ≤ r + d ∧ ¬ s.carried i t) ↔
      ∃ x ≤ d, load i + timeDemand load period above x ≤ x := by
  constructor
  · rintro ⟨t, later, before, finished⟩
    obtain ⟨x, fits, met⟩ :=
      met_of_over fresh yields all lasts load_pos later (before.trans within) finished
    exact ⟨x, by omega, met⟩
  · rintro ⟨x, le, met⟩
    have responds := responds_of_met fresh serves serves_own sporadic finishes met
    obtain ⟨t, later, before, finished⟩ := responds r (by omega) begins
    exact ⟨t, later, by omega, finished⟩

end Schedule

end Kista.RealTime.FixedPriority
