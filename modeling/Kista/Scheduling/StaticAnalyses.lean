/- Kista/Scheduling/StaticAnalyses
   source: src/src/static_sched_analysis.cpp, taskset_by_name_t.cpp, task_info_t.cpp, scheduler.cpp
   digest: The schedulability analyses that come with the library, which of them a scheduler runs,
   and what an accepted task set is worth to the response time analysis. -/

import Mathlib.Algebra.GroupWithZero.Nat
import Kista.LoadAnalysis.TimeDemand
import Kista.Numeric.Binary64
import Kista.RealTime.UtilizationBounds
import Kista.Scheduling.MonotonicOrders
import Kista.Scheduling.PolicyTables

set_option autoImplicit false
set_option relaxedAutoImplicit false

/-!
Utilizations and bounds are doubles, rounded after each operation; the power function of the C
library is a parameter. An error report ends the elaboration.
-/

namespace Kista.Scheduling.StaticAnalyses

open Kista.Containers.OrderedMap Kista.Containers.Sorting Kista.Numeric.Binary64
open Dispatch PriorityOrder
open PolicyTables (SchedulerT SameType Table PolicyAnalysis less attachStaticAnalysis
  staticScheduling)
open RealTime.UtilizationBounds (ReachesLiuLayland totalUtilization liuLayland timeDemand MetBy)
open LoadAnalysis.PreciseBound (LoadUnit LoadUnitSet Entry activations)
open LoadAnalysis.TimeDemand (demand IsResponseTime)

inductive AnalysisError where
  | notPeriodic | fullUtilization | liuAndLayland | nullFunction
  deriving DecidableEq, Repr

inductive Verdict where
  | passed | skipped
  deriving DecidableEq, Repr

variable {ι : Type}

/-- `set_Period` refuses zero and raises the flag with the period. -/
def TaskInfo.isPeriodic (t : TaskInfo) : Bool := decide (0 < t.period)

/-- `WCET/Period`, a quotient of the doubles that the times are converted to. -/
def TaskInfo.quotient (t : TaskInfo) : ℚ := rounded (rounded t.wcet / rounded t.period)

def TaskInfo.utilization (t : TaskInfo) : Except AnalysisError ℚ :=
  if TaskInfo.isPeriodic t then .ok (TaskInfo.quotient t) else .error .notPeriodic

def isPeriodic (info : ι → TaskInfo) (taskset : List ι) : Bool :=
  taskset.all fun t => TaskInfo.isPeriodic (info t)

/-- The loop over the task set, with the sum so far. -/
def utilizationFrom (info : ι → TaskInfo) : ℚ → List ι → Except AnalysisError ℚ
  | sum, [] => .ok sum
  | sum, t :: rest =>
    match TaskInfo.utilization (info t) with
    | .error e => .error e
    | .ok u => utilizationFrom info (rounded (sum + u)) rest

def utilization (info : ι → TaskInfo) (taskset : List ι) : Except AnalysisError ℚ :=
  utilizationFrom info 0 taskset

/-- `SAFPTR` -/
abbrev Analysis (ι : Type) := (ι → TaskInfo) → List ι → Except AnalysisError Verdict

def fullUtilizationBound : Analysis ι := fun info tasks =>
  if isPeriodic info tasks then
    match utilization info tasks with
    | .error e => .error e
    | .ok u => if 1 ≤ u then .error .fullUtilization else .ok .passed
  else .ok .skipped

/-- `(pow(2.0, 1.0/N) - 1.0)*N` -/
def boundOf (pow : ℚ → ℚ → ℚ) (n : ℕ) : ℚ := rounded (rounded (pow 2 (rounded (1 / n)) - 1) * n)

def LiuAndLaylandBound (pow : ℚ → ℚ → ℚ) : Analysis ι := fun info tasks =>
  match utilization info tasks with
  | .error e => .error e
  | .ok u => if boundOf pow tasks.length ≤ u then .error .liuAndLayland else .ok .passed

/-- The global analyses: the common one, those of single policies, and whether they are run. -/
structure Analyses (ι : Type) where
  common : Analysis ι
  table : Table (Analysis ι)
  enabled : Bool

def staticPrioritiesPolicyNumber : StaticPrioritiesPolicy → ℕ
  | .userPriorities => 0
  | .deadlineMonotonic => 1
  | .rateMonotonic => 2
  | .densityMonotonic => 3
  | .userAutomaticStaticPriorities => 4
  | .unknownPriorityBasedSchedPolicy => 5

/-- Static priorities, rate monotonic and preemptive; the dynamic policy is not used. -/
def rateMonotonicType : SchedulerT := ⟨4, staticPrioritiesPolicyNumber .rateMonotonic, 1, 0⟩

def attachDefaultAvailableStaticAnalysis (pow : ℚ → ℚ → ℚ) (analyses : Analyses ι) :
    Analyses ι where
  common := fullUtilizationBound
  table := attachStaticAnalysis analyses.table (some (LiuAndLaylandBound pow)) rateMonotonicType
  enabled := analyses.enabled

def enableSchedStaticAnalysis (pow : ℚ → ℚ → ℚ) (analyses : Analyses ι) : Analyses ι :=
  { attachDefaultAvailableStaticAnalysis pow analyses with enabled := true }

/-- `scheduler::static_analysis`: the common analysis, then the one of the configured policy. -/
def staticAnalysis (analyses : Analyses ι) (configured : SchedulerT) (info : ι → TaskInfo)
    (tasks : List ι) : Except AnalysisError (List Verdict) :=
  match analyses.common info tasks with
  | .error e => .error e
  | .ok common =>
    match PolicyTables.staticAnalysis analyses.table configured with
    | .unavailable => .ok [common]
    | .nullFunction => .error .nullFunction
    | .executed analysis =>
      match analysis info tasks with
      | .error e => .error e
      | .ok verdict => .ok [common, verdict]

/-- The analyses at the end of the elaboration: none for a scheduler without tasks and for a static
schedule. -/
def analyse (analyses : Analyses ι) (configured : SchedulerT) (info : ι → TaskInfo)
    (tasks : List ι) : Except AnalysisError (List Verdict) :=
  if tasks.length ≠ 0 then
    if configured.schedulerPolicy = staticScheduling then .ok []
    else if analyses.enabled then staticAnalysis analyses configured info tasks
    else .ok []
  else .ok []

/-- The elaboration goes on after the analyses. -/
def Accepted (analyses : Analyses ι) (configured : SchedulerT) (info : ι → TaskInfo)
    (tasks : List ι) : Prop :=
  ∃ verdicts, analyse analyses configured info tasks = .ok verdicts

section Utilization

variable [DecidableEq ι] (info : ι → TaskInfo)

def load (t : ι) : ℕ := (info t).wcet

def period (t : ι) : ℕ := (info t).period

/-- What the tasks take of the processor. -/
def exactUtilization (taskset : List ι) : ℚ :=
  totalUtilization (load info) (period info) taskset.toFinset

variable {info}

omit [DecidableEq ι] in
theorem isPeriodic_iff {taskset : List ι} :
    isPeriodic info taskset = true ↔ ∀ t ∈ taskset, 0 < period info t := by
  simp [isPeriodic, TaskInfo.isPeriodic, period]

/-- The sum of the utilizations as the loop computes it. -/
def computedUtilization (info : ι → TaskInfo) (taskset : List ι) : ℚ :=
  sumFrom 0 (taskset.map fun t => TaskInfo.quotient (info t))

omit [DecidableEq ι] in
theorem utilizationFrom_periodic {taskset : List ι} (sum : ℚ)
    (periodic : isPeriodic info taskset = true) :
    utilizationFrom info sum taskset =
      .ok (sumFrom sum (taskset.map fun t => TaskInfo.quotient (info t))) := by
  induction taskset generalizing sum with
  | nil => rfl
  | cons t rest ih =>
    simp only [isPeriodic, List.all_cons, Bool.and_eq_true] at periodic
    rw [utilizationFrom, TaskInfo.utilization, if_pos periodic.1]
    exact ih _ periodic.2

omit [DecidableEq ι] in
theorem utilizationFrom_aperiodic {taskset : List ι} (sum : ℚ)
    (aperiodic : isPeriodic info taskset = false) :
    utilizationFrom info sum taskset = .error .notPeriodic := by
  induction taskset generalizing sum with
  | nil => cases aperiodic
  | cons t rest ih =>
    rw [utilizationFrom]
    by_cases own : TaskInfo.isPeriodic (info t) = true
    · have : isPeriodic info rest = false := by
        simpa [isPeriodic, own] using aperiodic
      rw [TaskInfo.utilization, if_pos own]
      exact ih _ this
    · rw [TaskInfo.utilization, if_neg own]

omit [DecidableEq ι] in
/-- A periodic task set has a utilization, and any other has none. -/
theorem utilization_eq (taskset : List ι) :
    utilization info taskset =
      if isPeriodic info taskset then .ok (computedUtilization info taskset)
      else .error .notPeriodic := by
  rw [utilization]
  split
  · rename_i periodic
    exact utilizationFrom_periodic 0 periodic
  · rename_i aperiodic
    exact utilizationFrom_aperiodic 0 (by simpa using aperiodic)

omit [DecidableEq ι] in
/-- Two conversions, of which the divisor's counts twice, and a quotient. -/
theorem within_quotient {t : TaskInfo} (periodic : 0 < t.period) :
    Within 4 ((t.wcet : ℚ) / t.period) (TaskInfo.quotient t) := by
  have wcet := (within_self (Nat.cast_nonneg (α := ℚ) t.wcet)).rounded
  have period := (within_self (Nat.cast_nonneg (α := ℚ) t.period)).rounded
  exact (wcet.div period (Nat.cast_pos.mpr periodic)).rounded

/-- The computed utilization is the exact one after four roundings and one for each task. -/
theorem within_computedUtilization {taskset : List ι} (nodup : taskset.Nodup)
    (periodic : isPeriodic info taskset = true) :
    Within (taskset.length + 4) (exactUtilization info taskset)
      (computedUtilization info taskset) := by
  have terms : List.Forall₂ (Within 4)
      (taskset.map fun t => RealTime.UtilizationBounds.utilization (load info) (period info) t)
      (taskset.map fun t => TaskInfo.quotient (info t)) := by
    rw [List.forall₂_map_left_iff, List.forall₂_map_right_iff, List.forall₂_same]
    exact fun t listed => within_quotient (isPeriodic_iff.mp periodic t listed)
  have start : Within 4 0 0 := (within_self le_rfl).mono (Nat.zero_le 4)
  have sum := within_sumFrom start terms le_rfl
  rw [List.length_map, zero_add, add_comm] at sum
  rw [exactUtilization, totalUtilization, List.sum_toFinset _ nodup]
  exact sum

omit [DecidableEq ι] in
theorem fullUtilizationBound_ok_iff {taskset : List ι} :
    (∃ verdict, fullUtilizationBound info taskset = .ok verdict) ↔
      (isPeriodic info taskset = true → ¬ 1 ≤ computedUtilization info taskset) := by
  rw [fullUtilizationBound, utilization_eq]
  by_cases periodic : isPeriodic info taskset = true
  · by_cases full : 1 ≤ computedUtilization info taskset
    · simp [periodic, full]
    · simp [periodic, full]
  · simp [periodic]

omit [DecidableEq ι] in
theorem LiuAndLaylandBound_ok_iff (pow : ℚ → ℚ → ℚ) {taskset : List ι} :
    (∃ verdict, LiuAndLaylandBound pow info taskset = .ok verdict) ↔
      isPeriodic info taskset = true ∧
        ¬ boundOf pow taskset.length ≤ computedUtilization info taskset := by
  rw [LiuAndLaylandBound, utilization_eq]
  by_cases periodic : isPeriodic info taskset = true
  · by_cases reached : boundOf pow taskset.length ≤ computedUtilization info taskset
    · simp [periodic, reached]
    · simp [periodic, reached]
  · simp [periodic]

omit [DecidableEq ι] in
/-- With a single policy in the table, its analysis runs for the types that it stands for. -/
theorem staticAnalysis_default (pow : ℚ → ℚ → ℚ) (analyses : Analyses ι)
    (empty : analyses.table = []) (configured : SchedulerT) :
    PolicyTables.staticAnalysis (enableSchedStaticAnalysis pow analyses).table configured =
      if SameType rateMonotonicType configured then .executed (LiuAndLaylandBound pow)
      else .unavailable := by
  rw [PolicyTables.staticAnalysis, enableSchedStaticAnalysis, attachDefaultAvailableStaticAnalysis,
    attachStaticAnalysis, empty]
  simp only [assign, find, ← PolicyTables.incomparable_iff, Incomparable]
  cases below : less rateMonotonicType configured with
  | true => simp
  | false =>
    cases above : less configured rateMonotonicType with
    | true => simp
    | false => simp

omit [DecidableEq ι] in
/-- The default analyses in terms of what they compute. -/
theorem accepted_enabled_iff {pow : ℚ → ℚ → ℚ} {analyses : Analyses ι}
    (empty : analyses.table = []) (configured : SchedulerT) {tasks : List ι} (some : tasks ≠ []) :
    Accepted (enableSchedStaticAnalysis pow analyses) configured info tasks ↔
      configured.schedulerPolicy = staticScheduling ∨
        (isPeriodic info tasks = true → ¬ 1 ≤ computedUtilization info tasks) ∧
          (SameType rateMonotonicType configured → isPeriodic info tasks = true ∧
            ¬ boundOf pow tasks.length ≤ computedUtilization info tasks) := by
  have assigned : tasks.length ≠ 0 := fun none => some (List.length_eq_zero_iff.mp none)
  have enabled : (enableSchedStaticAnalysis pow analyses).enabled = true := rfl
  rw [Accepted, analyse, if_pos assigned]
  by_cases scheduled : configured.schedulerPolicy = staticScheduling
  · rw [if_pos scheduled]
    exact iff_of_true ⟨[], rfl⟩ (Or.inl scheduled)
  · have common : (enableSchedStaticAnalysis pow analyses).common = fullUtilizationBound := rfl
    rw [if_neg scheduled, if_pos enabled, or_iff_right scheduled, ← fullUtilizationBound_ok_iff,
      ← LiuAndLaylandBound_ok_iff pow, staticAnalysis, staticAnalysis_default pow analyses empty,
      common]
    by_cases same : SameType rateMonotonicType configured
    · rw [if_pos same]
      cases fullUtilizationBound info tasks with
      | error e => simp
      | ok verdict =>
        dsimp only
        cases LiuAndLaylandBound pow info tasks <;> simp [same]
    · rw [if_neg same]
      cases fullUtilizationBound info tasks <;> simp [same]

/-- The roundings decide neither of the two comparisons. -/
structure RoundingHarmless (pow : ℚ → ℚ → ℚ) (info : ι → TaskInfo) (tasks : List ι) : Prop where
  full : Clear (tasks.length + 4) (exactUtilization info tasks) (1 ≤ exactUtilization info tasks) 1
  bound : Clear (tasks.length + 4) (exactUtilization info tasks)
    (ReachesLiuLayland tasks.length (exactUtilization info tasks)) (boundOf pow tasks.length)

/-- With the analyses that come with the library, a set is accepted exactly when it has a static
schedule, when it leaves some of the processor unused, if it is periodic, and for the preemptive
rate monotonic scheduler when it is periodic and below the bound of Liu and Layland. -/
theorem accepted_default_iff {pow : ℚ → ℚ → ℚ} {analyses : Analyses ι}
    (empty : analyses.table = []) (configured : SchedulerT) {tasks : List ι} (nodup : tasks.Nodup)
    (some : tasks ≠ []) (harmless : RoundingHarmless pow info tasks) :
    Accepted (enableSchedStaticAnalysis pow analyses) configured info tasks ↔
      configured.schedulerPolicy = staticScheduling ∨
        if SameType rateMonotonicType configured then
          isPeriodic info tasks = true ∧
            ¬ ReachesLiuLayland tasks.length (exactUtilization info tasks)
        else isPeriodic info tasks = true → exactUtilization info tasks < 1 := by
  rw [accepted_enabled_iff empty configured some]
  refine or_congr_right ?_
  by_cases periodic : isPeriodic info tasks = true
  · have computed := within_computedUtilization nodup periodic
    rw [computed.limit_le_iff harmless.full, computed.limit_le_iff harmless.bound]
    have stricter : ¬ ReachesLiuLayland tasks.length (exactUtilization info tasks) →
        exactUtilization info tasks < 1 := by
      intro below
      have below : (exactUtilization info tasks : ℝ) < liuLayland tasks.length := not_le.mp below
      have := below.trans_le (RealTime.UtilizationBounds.liuLayland_le_one
        (List.length_pos_iff.mpr some))
      exact_mod_cast this
    by_cases same : SameType rateMonotonicType configured
    · simp only [periodic, same, forall_const, true_and, if_true, not_le]
      exact and_iff_right_of_imp stricter
    · simp [periodic, same]
  · by_cases same : SameType rateMonotonicType configured <;> simp [periodic, same]

/-- The roundings do not carry a task set that reaches the bound of Liu and Layland below it. -/
def BoundKept (pow : ℚ → ℚ → ℚ) (info : ι → TaskInfo) (tasks : List ι) : Prop :=
  ReachesLiuLayland tasks.length (exactUtilization info tasks) →
    boundOf pow tasks.length ≤ exactUtilization info tasks * (1 - 1 / 2 ^ 53) ^ (tasks.length + 4)

/-- What the default analyses accept for a preemptive rate monotonic scheduler is periodic and below
the exact bound. -/
theorem below_of_accepted {pow : ℚ → ℚ → ℚ} {analyses : Analyses ι} (empty : analyses.table = [])
    {configured : SchedulerT} (same : SameType rateMonotonicType configured) {tasks : List ι}
    (nodup : tasks.Nodup) (some : tasks ≠ []) (kept : BoundKept pow info tasks)
    (accepted : Accepted (enableSchedStaticAnalysis pow analyses) configured info tasks) :
    isPeriodic info tasks = true ∧
      ¬ ReachesLiuLayland tasks.length (exactUtilization info tasks) := by
  have dispatched : configured.schedulerPolicy ≠ staticScheduling := by
    rw [← same.1]
    decide
  obtain ⟨periodic, below⟩ :=
    (((accepted_enabled_iff empty configured some).mp accepted).resolve_left dispatched).2 same
  refine ⟨periodic, fun reached => below ?_⟩
  exact (kept reached).trans (within_computedUtilization nodup periodic).lower

end Utilization

inductive LightTask where
  | slow | fast
  deriving DecidableEq, Repr

/-- The common analysis, and no policy in the table. -/
def commonOnly : Analyses LightTask := ⟨fullUtilizationBound, [], false⟩

/-- The power function at two and a half, where it is the double nearest to the root of two. -/
def powAtHalf : ℚ → ℚ → ℚ := fun _ _ => 6369051672525773 / 2 ^ 52

/-- A third and a quarter of the processor. -/
def lightTasks : LightTask → TaskInfo
  | .slow => ⟨1, 12, 12, 4, true, 0, false⟩
  | .fast => ⟨2, 8, 8, 2, true, 0, false⟩

theorem lightTasks_harmless : RoundingHarmless powAtHalf lightTasks [.slow, .fast] :=
  ⟨by decide +kernel, by decide +kernel⟩

theorem lightTasks_accepted :
    Accepted (enableSchedStaticAnalysis powAtHalf commonOnly) rateMonotonicType lightTasks
      [.slow, .fast] := by
  have two : [LightTask.slow, .fast].Nodup := by decide
  refine (accepted_default_iff rfl rateMonotonicType two (by decide) lightTasks_harmless).mpr ?_
  rw [if_pos (by decide)]
  exact Or.inr (by decide +kernel)

end Kista.Scheduling.StaticAnalyses
