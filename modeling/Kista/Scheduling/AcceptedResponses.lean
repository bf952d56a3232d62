/- Kista/Scheduling/AcceptedResponses
   source: src/src/static_sched_analysis.cpp, scheduler.cpp, load_analysis/load_analysis.cpp
   digest: The response times, in the sense of the load analysis, of a task set that the default
   static analyses accept or reject. -/

import Kista.RealTime.FixedPriority
import Kista.Scheduling.StaticAnalyses

set_option autoImplicit false
set_option relaxedAutoImplicit false

namespace Kista.Scheduling.AcceptedResponses

open Kista.Containers.Sorting
open Dispatch PriorityOrder StaticAnalyses
open PolicyTables (SchedulerT SameType)
open RealTime.UtilizationBounds RealTime.FixedPriority.Schedule
open LoadAnalysis.PreciseBound (LoadUnit LoadUnitSet Entry activations countedLoad)
open LoadAnalysis.TimeDemand (demand windowLoad IsResponseTime responseTime_le_iff)

variable {ι : Type} [DecidableEq ι]

/-- The tasks before one in the vector by priority. -/
def moreUrgent (order : List ι) (i : ι) : Finset ι :=
  (order.filter fun j => decide (order.idxOf j < order.idxOf i)).toFinset

def loadUnit (name : ι → String) (info : ι → TaskInfo) (order : List ι) (t : ι) : Entry :=
  (order.idxOf t, ⟨name t, (info t).wcet, (info t).period, (info t).period, 0, order.idxOf t⟩)

/-- The tasks of the vector as load units, with their places as priorities. -/
def loadUnits (name : ι → String) (info : ι → TaskInfo) (order : List ι) (nodup : order.Nodup) :
    LoadUnitSet where
  entries := order.map (loadUnit name info order)
  ordered := by
    rw [List.pairwise_map, List.pairwise_iff_getElem]
    intro a b within_a within_b before
    simpa only [loadUnit, nodup.idxOf_getElem] using before

section Order

variable {name : ι → String} {info : ι → TaskInfo} {order : List ι}

theorem mem_moreUrgent {i j : ι} :
    j ∈ moreUrgent order i ↔ j ∈ order ∧ order.idxOf j < order.idxOf i := by
  simp [moreUrgent]

theorem not_mem_moreUrgent (i : ι) : i ∉ moreUrgent order i := by
  rw [mem_moreUrgent]
  exact fun h => lt_irrefl _ h.2

theorem activations_eq_ceilDiv (R p : ℕ) : activations R p = R ⌈/⌉ p := by
  rcases p.eq_zero_or_pos with rfl | positive
  · rw [ceilDiv_zero, activations, Nat.cast_zero, div_zero, Nat.ceil_zero]
  · have p_pos : (0 : ℚ) < p := Nat.cast_pos.mpr positive
    refine eq_of_forall_ge_iff fun n => ?_
    rw [activations, Nat.ceil_le, ceilDiv_le_iff_le_mul positive, div_le_iff₀' p_pos]
    exact_mod_cast Iff.rfl

/-- The right-hand side of the equation of the load analysis, as a demand of the tasks. -/
theorem demand_eq (name : ι → String) (nodup : order.Nodup) (i : ι) (R : ℕ) :
    demand ((loadUnits name info order nodup).higher (order.idxOf i)) (loadUnit name info order i).2
        R = load info i + timeDemand (load info) (period info) (moreUrgent order i) R := by
  have window : windowLoad R ((loadUnits name info order nodup).higher (order.idxOf i)) =
      timeDemand (load info) (period info) (moreUrgent order i) R := by
    rw [timeDemand, moreUrgent, List.sum_toFinset _ (nodup.filter _), windowLoad, countedLoad,
      LoadUnitSet.higher, loadUnits, List.filter_map, List.map_map]
    refine congrArg List.sum (List.map_congr_left fun j _ => ?_)
    show activations R (info j).period * (info j).wcet = _
    rw [activations_eq_ceilDiv, Nat.mul_comm]
    rfl
  rw [demand, window]
  rfl

/-- A demand that is met within the period is a response time within the period. -/
theorem response_of_met (nodup : order.Nodup) {i : ι}
    (met : MetBy (load info) (period info) (insert i (moreUrgent order i)) (period info i)) :
    ∃ R, IsResponseTime ((loadUnits name info order nodup).higher (order.idxOf i))
      (loadUnit name info order i).2 R ∧ R ≤ period info i := by
  rw [responseTime_le_iff]
  obtain ⟨t, positive, within, met⟩ := met
  rw [demand_insert (not_mem_moreUrgent i) positive within] at met
  refine ⟨t, within, ?_⟩
  rw [demand_eq]
  exact met

/-- In the rate monotonic order, a set below the bound of Liu and Layland meets the demand of each
task within its period. -/
theorem met_of_below {tasks : List ι} (perm : order.Perm tasks)
    (rateMonotonic : order.Pairwise fun t₁ t₂ => period info t₁ ≤ period info t₂)
    (nodup : order.Nodup) (periodic : isPeriodic info tasks = true)
    (below : ¬ ReachesLiuLayland tasks.length (exactUtilization info tasks)) {i : ι}
    (listed : i ∈ order) :
    MetBy (load info) (period info) (insert i (moreUrgent order i)) (period info i) := by
  have positive : ∀ j ∈ order, 0 < period info j := fun j member =>
    isPeriodic_iff.mp periodic j (perm.mem_iff.mp member)
  have shorter : ∀ j ∈ moreUrgent order i, period info j ≤ period info i := by
    intro j urgent
    obtain ⟨member, before⟩ := mem_moreUrgent.mp urgent
    have sorted := List.pairwise_iff_getElem.mp rateMonotonic _ _
      (List.idxOf_lt_length_of_mem member) (List.idxOf_lt_length_of_mem listed) before
    rwa [List.getElem_idxOf, List.getElem_idxOf] at sorted
  have size : tasks.toFinset.card = tasks.length :=
    List.toFinset_card_of_nodup (perm.nodup_iff.mp nodup)
  have part : insert i (moreUrgent order i) ⊆ tasks.toFinset := by
    intro j member
    rw [List.mem_toFinset, ← perm.mem_iff]
    rcases Finset.mem_insert.mp member with rfl | urgent
    · exact listed
    · exact (mem_moreUrgent.mp urgent).1
  refine met_of_lt_liuLayland part (positive i listed) ?_ ?_
  · intro j member
    rcases Finset.mem_insert.mp member with rfl | urgent
    · exact ⟨positive j listed, le_rfl⟩
    · exact ⟨positive j (mem_moreUrgent.mp urgent).1, shorter j urgent⟩
  · rw [size]
    exact below

end Order

/-- The tasks of a preemptive rate monotonic scheduler that the default analyses accept have
response times, and each one within its period, unless roundings carried them over the bound. -/
theorem responses_of_accepted {pow : ℚ → ℚ → ℚ} {analyses : Analyses ι}
    (empty : analyses.table = []) {configured : SchedulerT}
    (same : SameType rateMonotonicType configured) {sort : StdSort ι} (sorts : Sorts sort)
    {info : ι → TaskInfo} {d d' : Dispatcher ι} (nodup : d.tasksAssigned.Nodup)
    (fresh : d.tasksByPriority = [])
    (elaborated : endOfElaboration sort .rateMonotonic info d = .ok d')
    (kept : BoundKept pow info d.tasksAssigned)
    (accepted : Accepted (enableSchedStaticAnalysis pow analyses) configured info
      d.tasksAssigned) (name : ι → String) :
    ∃ unique : d'.tasksByPriority.Nodup, ∀ e ∈ (loadUnits name info _ unique).entries,
      ∃ R, IsResponseTime ((loadUnits name info _ unique).higher e.1) e.2 R ∧ R ≤ e.2.period := by
  obtain ⟨-, -, perm, sorted⟩ :=
    MonotonicOrders.elaborated_order (Or.inl rfl) sorts fresh elaborated
  have unique := perm.nodup_iff.mpr nodup
  refine ⟨unique, fun e listed => ?_⟩
  obtain ⟨i, member, rfl⟩ := List.mem_map.mp listed
  have some : d.tasksAssigned ≠ [] := List.ne_nil_of_mem (perm.mem_iff.mp member)
  obtain ⟨periodic, below⟩ := below_of_accepted empty same nodup some kept accepted
  exact response_of_met unique (met_of_below perm sorted unique periodic below member)

/-- A preemptive scheduler with static priorities. -/
def lightScheduler : Dispatcher LightTask where
  schedulerPolicy := .staticPriorities
  dynamicPrioritiesPolicy := .earliestDeadlineFirst
  tasksAssigned := [.slow, .fast]
  tasksByPriority := []
  staticSchedule := []
  itStaticSched := 0
  itDynSched := 0

theorem lightTasks_respond :
    ∃ unique : [LightTask.fast, .slow].Nodup,
      ∀ e ∈ (loadUnits (fun _ => "light") lightTasks [.fast, .slow] unique).entries,
        ∃ R, IsResponseTime
          ((loadUnits (fun _ => "light") lightTasks [.fast, .slow] unique).higher e.1) e.2 R ∧
            R ≤ e.2.period := by
  have sorted : stableSort (fun t₁ t₂ => lessThanByPeriod (lightTasks t₁) (lightTasks t₂))
      [.slow, .fast] = [.fast, .slow] := by decide +kernel
  have elaborated : endOfElaboration stableSort .rateMonotonic lightTasks lightScheduler =
      .ok { lightScheduler with tasksByPriority := [.fast, .slow] } := by
    exact congrArg (fun v => Except.ok { lightScheduler with tasksByPriority := v }) sorted
  have accepted : Accepted (enableSchedStaticAnalysis powAtHalf commonOnly) rateMonotonicType
      lightTasks [.slow, .fast] := ⟨[.passed, .passed], by decide +kernel⟩
  exact responses_of_accepted rfl (by decide) stableSort_sorts (by decide) rfl elaborated
    lightTasks_harmless.bound.reaching accepted fun _ => "light"

/-- The last task of the vector and those before it are all of them. -/
theorem insert_moreUrgent_last {before : List ι} {last : ι} (nodup : (before ++ [last]).Nodup) :
    insert last (moreUrgent (before ++ [last]) last) = (before ++ [last]).toFinset := by
  have fresh : last ∉ before := fun member =>
    (List.nodup_append.mp nodup).2.2 last member last (List.mem_singleton_self last) rfl
  ext j
  rw [Finset.mem_insert, mem_moreUrgent, List.mem_toFinset]
  constructor
  · rintro (rfl | ⟨member, -⟩)
    · simp
    · exact member
  · intro member
    rcases List.mem_append.mp member with earlier | final
    · refine Or.inr ⟨member, ?_⟩
      rw [List.idxOf_append_of_mem earlier, List.idxOf_append_of_notMem fresh]
      exact (List.idxOf_lt_length_of_mem earlier).trans_le (Nat.le_add_right _ _)
    · exact Or.inl (List.mem_singleton.mp final)

/-- A task set that takes more than the whole processor leaves the last task of any order without a
response time within its period. -/
theorem no_response_of_overload {info : ι → TaskInfo} {tasks : List ι}
    (periodic : isPeriodic info tasks = true) (loaded : ∀ t ∈ tasks, 0 < (info t).wcet)
    (overload : 1 < exactUtilization info tasks) {order : List ι} (perm : order.Perm tasks)
    (nodup : order.Nodup) (name : ι → String) :
    ∃ e ∈ (loadUnits name info order nodup).entries,
      ¬ ∃ R, IsResponseTime ((loadUnits name info order nodup).higher e.1) e.2 R ∧
        R ≤ e.2.period := by
  rcases order.eq_nil_or_concat' with rfl | ⟨before, last, rfl⟩
  · rw [List.nil_perm.mp perm, exactUtilization, totalUtilization] at overload
    norm_num at overload
  · have member : last ∈ before ++ [last] := by simp
    refine ⟨_, List.mem_map_of_mem member, ?_⟩
    rintro ⟨R, ⟨solves, -⟩, within⟩
    have solves : R = demand _ _ R := solves
    have within : R ≤ period info last := within
    have solves : R = load info last +
        timeDemand (load info) (period info) (moreUrgent (before ++ [last]) last) R := by
      rw [← demand_eq name nodup]
      exact solves
    have load_pos : 0 < load info last := loaded last (perm.mem_iff.mp member)
    have R_pos : 0 < R := by omega
    rw [← demand_insert (not_mem_moreUrgent last) R_pos within,
      insert_moreUrgent_last nodup] at solves
    have same : (before ++ [last]).toFinset = tasks.toFinset := List.toFinset_eq_of_perm _ _ perm
    rw [same] at solves
    have positive : ∀ j ∈ tasks.toFinset, 0 < period info j := fun j listed =>
      isPeriodic_iff.mp periodic j (List.mem_toFinset.mp listed)
    have fits : exactUtilization info tasks ≤ 1 :=
      totalUtilization_le_one positive ⟨R, R_pos, le_rfl, solves.ge⟩
    exact absurd overload (not_lt.mpr fits)

/-- Two tasks that both need two thirds of the processor. -/
def heavyTasks : LightTask → TaskInfo
  | .slow => ⟨1, 6, 6, 4, true, 0, false⟩
  | .fast => ⟨2, 3, 3, 2, true, 0, false⟩

theorem heavyTasks_unanswered :
    ∃ e ∈ (loadUnits (fun _ => "heavy") heavyTasks [.fast, .slow] (by decide)).entries,
      ¬ ∃ R, IsResponseTime
        ((loadUnits (fun _ => "heavy") heavyTasks [.fast, .slow] (by decide)).higher e.1) e.2 R ∧
          R ≤ e.2.period := by
  have periodic : isPeriodic heavyTasks [.slow, .fast] = true := by decide
  exact no_response_of_overload periodic (by decide) (by decide +kernel) (by decide) (by decide)
    fun _ => "heavy"

end Kista.Scheduling.AcceptedResponses
