/- Kista/Scheduling/PriorityCompliance
   source: src/src/scheduler.cpp, task_info_t.cpp, user_task_constructs.cpp
   digest: When the preemptive scheduler with static priorities leaves no runnable task behind
   a less urgent one. -/

import Kista.Scheduling.Serving

set_option autoImplicit false
set_option relaxedAutoImplicit false

namespace Kista.Scheduling.PriorityCompliance

open Kernel.Delta Kernel.Run
open Dispatch (TaskState SchedulerPolicy)
open SystemTask Constructs Rtos StateMachine TaskCoherence Serving

variable {ι : Type} [DecidableEq ι]

def Runnable (c : RtosConfig ι) (i : ι) : Prop :=
  (c.store.info i).stateSignal.read ≠ .finished ∧
    (c.store.info i).waitingPeriodSignal.read = false ∧
    (c.store.info i).waitingCommSyncSignal.read = false

/-- No runnable task comes before the active one, and none is kept waiting by an active task
that cannot run. -/
def Compliant (order : List ι) (c : RtosConfig ι) : Prop :=
  c.store.sched.stateSignal.read = .innactive →
    ∀ i, (c.store.info i).activeSignal.read = true →
      (∀ j, order.idxOf j < order.idxOf i → ¬ Runnable c j) ∧
        (¬ Runnable c i → ∀ j, ¬ Runnable c j)

omit [DecidableEq ι] in
/-- A task without the processor that is not ready waits for something, or is finished. -/
theorem not_runnable {c : RtosConfig ι} {i : ι} {thread : Status (Event ι) (RtosPoint ι)}
    {p : TaskPoint} (coherent : Coherent i (c.store.info i) (c.status (.updateStateProc i)) thread p)
    (rests : c.status (.updateStateProc i) ≠ .ready .turn)
    (settled : (c.store.info i).stateSignal.next = (c.store.info i).stateSignal.current)
    (lost : (c.store.info i).activeSignal.current = false)
    (waits : (c.store.info i).stateSignal.next ≠ .ready) : ¬ Runnable c i := by
  rintro ⟨unfinished, period, sync⟩
  have idles := coherent.idles rests lost
  have unfinished : (c.store.info i).stateSignal.next ≠ .finished := by
    rw [settled]
    exact unfinished
  cases state : (c.store.info i).stateSignal.next with
  | executing =>
    rw [state] at idles
    cases idles
  | waitPeriod =>
    rw [state] at idles
    cases idles
  | waitCommSync =>
    rw [state] at idles
    cases idles
  | ready => exact waits state
  | inactiveWaitPeriod => exact absurd (period.symm.trans (coherent.period rests state).2) (by decide)
  | inactiveWaitCommSync => exact absurd (sync.symm.trans (coherent.sync rests state).2) (by decide)
  | finished => exact unfinished state

/-- When no delta is pending, a scheduler that serves its tasks complies with their order. -/
theorem compliant_of_served {tasks : TaskSet ι} {order : List ι} {c : RtosConfig ι}
    (h : Served order c) (stable : (rtosSystem tasks).stable c = true) : Compliant order c := by
  obtain ⟨quiet, idle, clean, -⟩ := System.stable_iff.mp stable
  have settled := settled_of_clean clean
  intro _ i active
  have held : (c.store.info i).activeSignal.next = true := by
    rw [settled.taskActive]
    exact active
  have phase := h.phase
  have waiting := quiet .schedulerProc
  have nobody : (∀ j, (c.store.info j).activeSignal.next = false) → False := by
    intro nobody
    rw [nobody i] at held
    cases held
  generalize c.status .schedulerProc = status at phase waiting
  cases phase with
  | outset point free => exact (nobody free.next).elim
  | first free => exact (nobody free).elim
  | firstEnd free => exact (nobody free.next).elim
  | second free => exact (nobody free.next).elim
  | secondEnd free rests => exact (nobody free.next).elim
  | timed free later => exact (nobody free).elim
  | computed free rests => exact (nobody free.next).elim
  | triggered others => exact absurd rfl (waiting _)
  | @running k others right =>
    obtain rfl : i = k := by
      by_contra other
      rw [(others i other).next] at held
      cases held
    have right : Chosen order c i := by
      refine right.resolve_left ?_
      rintro ⟨e, -, raised⟩
      rw [idle] at raised
      cases raised
    have stuck : ∀ j, j ≠ i → (c.store.info j).stateSignal.next ≠ .ready → ¬ Runnable c j := by
      intro j other waits
      obtain ⟨p, coherent⟩ := h.tasks j
      exact not_runnable coherent (quiet _ _) (settled.taskState j) (others j other).current waits
    constructor
    · intro j earlier
      have other : j ≠ i := by
        rintro rfl
        exact lt_irrefl _ earlier
      exact stuck j other (right.first j earlier)
    · intro unable
      rcases right.serves with ready | ⟨executing, clear⟩ | none
      · obtain ⟨p, coherent⟩ := h.tasks i
        obtain ⟨period, sync, -⟩ := coherent.idle (quiet _ _) ready
        refine absurd ⟨?_, period, sync⟩ unable
        show (c.store.info i).stateSignal.current ≠ .finished
        rw [← settled.taskState, ready]
        nofun
      · obtain ⟨period, sync⟩ := clear (quiet _ _)
        refine absurd ⟨?_, period, sync⟩ unable
        show (c.store.info i).stateSignal.current ≠ .finished
        rw [← settled.taskState, executing]
        nofun
      · intro j
        by_cases own : j = i
        · rw [own]
          exact unable
        · exact stuck j own (none j own)

/-- Along a run in which no state machine and no thread that comes to an end has just lost the
processor, and no dispatcher runs while a task still executes, the scheduler complies with the
priorities of its tasks. -/
theorem compliant_of_unhurried {tasks : TaskSet ι} {settings : Settings tasks}
    (policy : settings.schedulerPolicy = .staticPriorities)
    (preemptive : settings.schedulerTriggeringPolicy = .preemptive)
    {ls : List (RtosLabel ι)} {c : RtosConfig ι}
    (along : Along (rtosSystem tasks).step (fun c l => Granted c l ∧ Unhurried tasks c l)
      (simulationStart settings) ls)
    (reach : run (rtosSystem tasks).step (simulationStart settings) ls = some c)
    (stable : (rtosSystem tasks).stable c = true) : Compliant settings.tasksByPriority c := by
  have all : ∀ j, j ∈ settings.tasksByPriority := by
    intro j
    have prioritized := settings.prioritized (by simp [policy])
    exact prioritized.mem_iff.mpr (tasks.complete j)
  have keep : ∀ c l c', Served settings.tasksByPriority c → Granted c l ∧ Unhurried tasks c l →
      (rtosSystem tasks).step c l = some c' → Served settings.tasksByPriority c' :=
    System.keeps_of_steps
      (fun c p r choice seg h allowed resumes ran => h.eval all allowed.1 allowed.2 resumes ran)
      (fun c h _ quiet => h.delta quiet)
      (fun c t h _ stable _ within => h.advance stable within)
  have served := run_invariant keep (served_start settings policy preemptive) along reach
  exact compliant_of_served served stable

def twoTasks : TaskSet (Fin 2) := ⟨[0, 1], by decide, by decide⟩

/-- A tick of 10, a scheduling time of 1, and two tasks of period 10, the first one urgent. -/
def twoSettings : Settings twoTasks where
  schedulerPolicy := .staticPriorities
  dynamicPrioritiesPolicy := .earliestDeadlineFirst
  schedulerTriggeringPolicy := .preemptive
  staticSchedule := []
  tasksByPriority := [0, 1]
  prioritized _ := List.Perm.refl _
  tSlicingFlag := true
  tickTimerDelay := 10
  schedulingTimesEnabled := true
  hasSchedulingTimeCalculator := false
  schedulingTime := 1
  isPeriodic _ := true
  period _ := 10
  deadline _ := 10

/-- The scheduler ends its computation, and the task that it chooses waits for its period, so
that the scheduler computes again. -/
def waitsInTurn (i : Fin 2) : List (RtosLabel (Fin 2)) :=
  [turns .schedulerProc, .delta, turns (.updateStateProc i), calls i [.waitPeriod], .delta,
    turns (.updateStateProc i), .delta, turns .schedulerProc, .delta, turns (.updateStateProc i),
    .delta]

/-- Both tasks wait for their period, and the urgent one is given the processor. -/
def bothWait : List (RtosLabel (Fin 2)) :=
  [turns .schedulerProc, turns .genTickTimerEvent, turns (.genReleaseEvent 0),
    turns (.genReleaseEvent 1), .delta, .advance 1] ++ waitsInTurn 0 ++ [.advance 2] ++
    waitsInTurn 1 ++
    [.advance 3, turns .schedulerProc, .delta, turns (.updateStateProc 0), .delta]

/-- The tick comes with the releases of both tasks. -/
def tickWithReleases : List (RtosLabel (Fin 2)) :=
  bothWait ++
    [.advance 10, turns .genTickTimerEvent, turns (.genReleaseEvent 0), turns (.genReleaseEvent 1),
      .delta, turns .schedulerProc, calls 0 [.consume 3], calls 1 [], .delta,
      turns (.updateStateProc 0), calls 0 [], turns (.updateStateProc 1), .delta, .advance 11,
      turns .schedulerProc, .delta, turns (.updateStateProc 1), calls 1 [.consume 2], .delta]

theorem bothWait_compliant :
    ∃ c, run (rtosSystem twoTasks).step (simulationStart twoSettings) bothWait = some c ∧
      Compliant twoSettings.tasksByPriority c := by
  have along : Along (rtosSystem twoTasks).step
      (fun c l => Granted c l ∧ Unhurried twoTasks c l) (simulationStart twoSettings) bothWait := by
    decide +kernel
  have reached : (run (rtosSystem twoTasks).step (simulationStart twoSettings) bothWait).map
      (rtosSystem twoTasks).stable = some true := by decide +kernel
  obtain ⟨c, reach, stable⟩ := Option.map_eq_some_iff.mp reached
  exact ⟨c, reach, compliant_of_unhurried rfl rfl along reach stable⟩

/-- The urgent task loses the processor in the delta in which its wait ends. Its state machine
takes it for executing, so that the dispatcher passes it over for the other task. -/
theorem tickWithReleases_inverts :
    ∃ c, run (rtosSystem twoTasks).step (simulationStart twoSettings) tickWithReleases = some c ∧
      (rtosSystem twoTasks).stable c = true ∧ ¬ Compliant twoSettings.tasksByPriority c := by
  have reached : (run (rtosSystem twoTasks).step (simulationStart twoSettings)
      tickWithReleases).map (fun c => ((rtosSystem twoTasks).stable c,
        c.store.sched.stateSignal.read, (c.store.info 1).activeSignal.read,
        (c.store.info 0).stateSignal.read, (c.store.info 0).waitingPeriodSignal.read,
        (c.store.info 0).waitingCommSyncSignal.read)) =
      some (true, .innactive, true, .executing, false, false) := by decide +kernel
  obtain ⟨c, reach, value⟩ := Option.map_eq_some_iff.mp reached
  simp only [Prod.mk.injEq] at value
  obtain ⟨stable, idle, active, executing, period, sync⟩ := value
  refine ⟨c, reach, stable, fun compliant => ?_⟩
  refine (compliant idle 1 active).1 0 (by decide) ⟨?_, period, sync⟩
  rw [executing]
  nofun

end Kista.Scheduling.PriorityCompliance
