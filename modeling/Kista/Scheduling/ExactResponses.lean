/- Kista/Scheduling/ExactResponses
   source: src/src/scheduler.cpp, task_info_t.cpp, load_analysis/load_analysis.cpp
   digest: The worst case of the load analysis happens: when tasks come together and take all that
   they declare, the run of the scheduler answers as the equation of Joseph and Pandya does. -/

import Kista.Scheduling.RecordedSchedule

set_option autoImplicit false
set_option relaxedAutoImplicit false

namespace Kista.Scheduling.ExactResponses

open Kernel.Delta Kernel.Run
open SystemTask Constructs Rtos
open RealTime.FixedPriority AcceptedResponses RecordedSchedule
open LoadAnalysis.TimeDemand (demand IsResponseTime responseTime_le_iff)
open StaticAnalyses (LightTask)

variable {ι : Type} [DecidableEq ι]

/-- The task that has the processor leaves nothing more urgent behind. -/
theorem schedule_yields {order : List ι} {slots : List (Slot ι)}
    (inOrder : ∀ slot ∈ slots, InOrder order slot) (horizon : ℕ) (i : ι) :
    (schedule slots).Yields (RunnableAt slots) horizon (moreUrgent order i) i := by
  rintro t - holds j urgent ⟨slot, at_t, runnable⟩
  have holds : slots[t]?.bind Slot.holder = some i := holds
  rw [at_t] at holds
  obtain ⟨k, holds', first⟩ := inOrder slot (List.mem_of_getElem? at_t) j runnable
  obtain rfl : i = k := Option.some.inj (holds.symm.trans holds')
  rcases first with rfl | back
  · exact not_mem_moreUrgent i urgent
  · exact not_mem_moreUrgent i (moreUrgent_trans urgent back)

/-- From `r` on a more urgent task has a job in each of its periods, none shorter than declared. -/
def TakesAllDeclared (info : ι → PriorityOrder.TaskInfo) (slots : List (Slot ι)) (r : ℕ) (j : ι) :
    Prop :=
  (schedule slots).TakesAll (RunnableAt slots) (slots.length - 1) (info j).wcet (info j).period r j

/-- The worst case for a task: it begins at `r` together with the more urgent ones, and each job
takes its worst-case execution time. -/
structure WorstCase (info : ι → PriorityOrder.TaskInfo) (order : List ι) (slots : List (Slot ι))
    (r : ℕ) (i : ι) : Prop where
  begins : ¬ (schedule slots).carried i r
  lasts : (schedule slots).Lasts (slots.length - 1) (info i).wcet r i
  positive : 0 < (info i).wcet
  urgent : ∀ j ∈ moreUrgent order i, TakesAllDeclared info slots r j

/-- In every run of the preemptive scheduler with static priorities, what a task begins in its worst
case is over within `d` exactly if its response time in the sense of the load analysis is. -/
theorem over_within_iff_response {tasks : TaskSet ι} {settings : Settings tasks}
    {info : ι → PriorityOrder.TaskInfo} {ls : List (RtosLabel ι)} {c : RtosConfig ι}
    {slots : List (Slot ι)} {i : ι} {r d : ℕ}
    (policy : settings.schedulerPolicy = .staticPriorities)
    (preemptive : settings.schedulerTriggeringPolicy = .preemptive)
    (untimed : settings.schedulingTimesEnabled = false)
    (along : Along (rtosSystem tasks).step (Orderly tasks) (simulationStart settings) ls)
    (reach : run (recordedStep tasks) (simulationStart settings, []) ls = some (c, slots))
    (declared : ∀ j ∈ insert i (moreUrgent settings.tasksByPriority i), AsDeclared info slots j)
    (worst : WorstCase info settings.tasksByPriority slots r i) (within : r + d ≤ slots.length - 1)
    (name : ι → String) (nodup : settings.tasksByPriority.Nodup) :
    (∃ t, r < t ∧ t ≤ r + d ∧ ¬ (schedule slots).carried i t) ↔
      ∃ R, IsResponseTime
        ((loadUnits name info settings.tasksByPriority nodup).higher
          (settings.tasksByPriority.idxOf i))
        (loadUnit name info settings.tasksByPriority i).2 R ∧ R ≤ d := by
  have nonempty : tasks.tasksAssigned ≠ [] := List.ne_nil_of_mem (tasks.complete i)
  have recorded := recorded_of_run policy preemptive untimed nonempty along reach
  obtain ⟨serves, serves_own⟩ :=
    serves_of_run policy preemptive untimed along reach (slots.length - 1) i
  have exact_bound := Schedule.over_within_iff (not_mem_moreUrgent i) serves serves_own
    (fun j urgent => (declared j (Finset.mem_insert_of_mem urgent)).sporadic)
    (declared i (Finset.mem_insert_self i _)).finishes
    (schedule_yields recorded.inOrder (slots.length - 1) i) worst.urgent worst.lasts
    worst.positive worst.begins within
  rw [responseTime_le_iff]
  refine exact_bound.trans (exists_congr fun x => and_congr_right fun _ => ?_)
  rw [demand_eq name nodup]
  rfl

theorem lightSlots_worst :
    WorstCase StaticAnalyses.lightTasks [.fast, .slow] lightSlots 0 LightTask.slow where
  begins := id
  lasts := by
    have lasts : ∀ t ≤ 9, 0 < t → ¬ (schedule lightSlots).carried LightTask.slow t →
        4 ≤ (schedule lightSlots).held LightTask.slow 0 t := by decide +kernel
    exact lasts
  positive := by decide
  urgent := by
    have all : ∀ t < 9, 0 ≤ t → ¬ RunnableAt lightSlots t LightTask.fast →
        2 * ((t + 1 - 0) ⌈/⌉ 8) ≤ (schedule lightSlots).held LightTask.fast 0 t := by
      decide +kernel
    intro j urgent
    cases j with
    | slow => exact absurd urgent (not_mem_moreUrgent _)
    | fast => exact all

theorem lightRun_exact :
    ∃ c, run (recordedStep lightTaskSet) (simulationStart lightSettings, []) lightRun =
        some (c, lightSlots) ∧
      ∀ d ≤ 9, (∃ t, 0 < t ∧ t ≤ 0 + d ∧ ¬ (schedule lightSlots).carried LightTask.slow t) ↔
        ∃ R, IsResponseTime
          ((loadUnits (fun _ => "light") StaticAnalyses.lightTasks [.fast, .slow]
            (by decide)).higher 1)
          (loadUnit (fun _ => "light") StaticAnalyses.lightTasks [.fast, .slow] .slow).2 R ∧
          R ≤ d := by
  have along : Along (rtosSystem lightTaskSet).step (Orderly lightTaskSet)
      (simulationStart lightSettings) lightRun := by decide +kernel
  have recorded : (run (recordedStep lightTaskSet) (simulationStart lightSettings, []) lightRun).map
      Prod.snd = some lightSlots := by decide +kernel
  obtain ⟨⟨c, slots⟩, reach, same⟩ := Option.map_eq_some_iff.mp recorded
  obtain rfl : slots = lightSlots := same
  refine ⟨c, reach, fun d within => ?_⟩
  exact over_within_iff_response rfl rfl rfl along reach (fun j _ => lightSlots_declared j)
    lightSlots_worst ((Nat.zero_add d).trans_le within) (fun _ => "light") (by decide)

end Kista.Scheduling.ExactResponses
