/- Kista/Scheduling/Utilizations
   source: src/src/scheduler.cpp, task_info_t.cpp
   digest: The utilizations that a scheduler reports, measured beside a run of its tasks: together
   they are never more than the whole processor. -/

import Mathlib.Algebra.Order.Field.Rat
import Mathlib.Algebra.Order.Field.Basic
import Mathlib.Algebra.Order.BigOperators.Group.List
import Kista.Scheduling.Exclusivity
import Kista.Scheduling.Occupation

set_option autoImplicit false
set_option relaxedAutoImplicit false

/-!
The accounting of a task touches nothing but its own variables, so its run in the delta after a
change of the state is noted with the update that shows the change. Quotients are exact.
-/

namespace Kista.Scheduling.Utilizations

open Kernel.Delta Kernel.Run
open Dispatch (TaskState)
open SystemTask (SimStatus)
open Constructs Rtos StateMachine Exclusivity
open Occupation (OccupationInfo accountOccupationTimeProc initialized endOfSimulation)

variable {ι : Type}

/-- A time per time of simulation, which is no number when nothing has been simulated. -/
def measured (status : SimStatus) (lastSimulationTime now time : ℕ) : Option ℚ :=
  match status with
  | .stopped => if lastSimulationTime = 0 then none else some (time / lastSimulationTime)
  | .running => if 0 < now then some (time / now) else some 0
  | .beforeStart => some 0

/-- `get_task_utilization` of an assigned task. -/
def getTaskUtilization (status : SimStatus) (lastSimulationTime now : ℕ) (a : OccupationInfo) :
    Option ℚ :=
  measured status lastSimulationTime now a.occupationTime

def allTasksUtilizationTime (tasks : TaskSet ι) (a : ι → OccupationInfo) : ℕ :=
  (tasks.tasksAssigned.map fun i => (a i).occupationTime).sum

def getTasksUtilization (status : SimStatus) (lastSimulationTime now : ℕ) (tasks : TaskSet ι)
    (a : ι → OccupationInfo) : Option ℚ :=
  measured status lastSimulationTime now (allTasksUtilizationTime tasks a)

def getSchedulerUtilization (status : SimStatus) (lastSimulationTime now : ℕ)
    (s : Scheduler ι) : Option ℚ :=
  measured status lastSimulationTime now s.schedCompTime

def getPlatformUtilization (status : SimStatus) (lastSimulationTime now : ℕ) (tasks : TaskSet ι)
    (a : ι → OccupationInfo) (s : Scheduler ι) : Option ℚ :=
  (getTasksUtilization status lastSimulationTime now tasks a).bind fun ofTasks =>
    (getSchedulerUtilization status lastSimulationTime now s).map fun ofScheduler =>
      ofTasks + ofScheduler

/-- The tasks whose state an update has changed are accounted for. -/
def noteOccupation (c : RtosConfig ι) (l : RtosLabel ι) (c' : RtosConfig ι)
    (a : ι → OccupationInfo) : ι → OccupationInfo :=
  match l with
  | .delta => fun i =>
    if (c.store.info i).stateSignal.current = (c'.store.info i).stateSignal.current then a i
    else accountOccupationTimeProc (a i) c'.now (c'.store.info i).stateSignal.read
  | _ => a

def accountedStep [DecidableEq ι] (tasks : TaskSet ι) :
    RtosConfig ι × (ι → OccupationInfo) → RtosLabel ι →
      Option (RtosConfig ι × (ι → OccupationInfo)) :=
  recording (rtosSystem tasks).step noteOccupation

/-- The time that a task has been executing, with the interval that is not over. -/
def spent (a : OccupationInfo) (now : ℕ) : ℕ :=
  a.occupationTime +
    if a.prevIncState = .executing then now - a.occupationIntervalStartTime else 0

def allSpent (tasks : TaskSet ι) (a : ι → OccupationInfo) (now : ℕ) : ℕ :=
  (tasks.tasksAssigned.map fun i => spent (a i) now).sum

/-- A change of the state closes an interval or opens one. -/
theorem spent_account {a : OccupationInfo} {state : TaskState} (changes : a.prevIncState ≠ state)
    (now : ℕ) : spent (accountOccupationTimeProc a now state) now = spent a now := by
  by_cases executing : state = .executing
  · subst executing
    simp [spent, accountOccupationTimeProc, changes]
  · by_cases before : a.prevIncState = .executing
    · simp [spent, accountOccupationTimeProc, executing, before]
    · simp [spent, accountOccupationTimeProc, executing, before]

@[simp] theorem account_prevIncState (a : OccupationInfo) (now : ℕ) (state : TaskState) :
    (accountOccupationTimeProc a now state).prevIncState = state := by
  unfold accountOccupationTimeProc
  split
  next executing => exact executing.symm
  · rfl

theorem account_started {a : OccupationInfo} {now : ℕ}
    (started : a.occupationIntervalStartTime ≤ now) (state : TaskState) :
    (accountOccupationTimeProc a now state).occupationIntervalStartTime ≤ now := by
  unfold accountOccupationTimeProc
  split
  · exact le_rfl
  · exact started

theorem spent_advance {a : OccupationInfo} {now t : ℕ}
    (started : a.occupationIntervalStartTime ≤ now) (later : now ≤ t) :
    spent a t = spent a now + if a.prevIncState = .executing then t - now else 0 := by
  unfold spent
  split <;> omega

/-- The repair at the end of the simulation adds no more than the interval that is not over. -/
theorem endOfSimulation_le (a : OccupationInfo) (now : ℕ) (state : TaskState) (sched : SchedState) :
    (endOfSimulation a now state sched).occupationTime ≤ spent a now := by
  unfold endOfSimulation spent
  split
  next repaired =>
    have executing : a.prevIncState = .executing := by
      rcases repaired with ⟨-, executing, -⟩ | ⟨-, executing, -⟩ <;> exact executing
    rw [if_pos executing]
  · exact Nat.le_add_right _ _

theorem sum_map_add_ite {l : List ι} (f : ι → ℕ) (p : ι → Prop) [DecidablePred p] (k : ℕ) :
    (l.map fun i => f i + if p i then k else 0).sum =
      (l.map f).sum + l.countP (fun i => p i) * k := by
  induction l with
  | nil => simp
  | cons i l ih =>
    rw [List.map_cons, List.sum_cons, ih, List.map_cons, List.sum_cons, List.countP_cons]
    by_cases here : p i
    · simp only [here, if_true, decide_true]
      ring
    · simp only [here, if_false, decide_false]
      simp [Nat.add_assoc]

variable [DecidableEq ι]

/-- A process writes the next state of a task at most; the state itself is left to the update. -/
theorem exec_state_current {p : RtosProc ι} {r : RtosPoint ι} {choice : RtosChoice} {now : ℕ}
    {store : RtosStore ι} {seg : RtosSegment ι} (ran : exec p r choice now store = some seg)
    (j : ι) : (seg.store.info j).stateSignal.current = (store.info j).stateSignal.current := by
  refine exec_keeps (f := fun t => t.stateSignal.current) (fun _ _ => rfl) (fun _ _ => rfl) ?_ ran j
  intro i p ran j
  obtain ⟨t, frame, stored, -⟩ := thread_frames ran
  rw [stored]
  exact congrArg Signal.current (update_info (f := SystemTask.TaskInfo.stateSignal) frame.state j)

/-- What the accounts know along a run. -/
structure Accounted (tasks : TaskSet ι) (x : RtosConfig ι × (ι → OccupationInfo)) : Prop where
  owned : Owned x.1 (allSpent tasks x.2 x.1.now)
  state : ∀ i, (x.2 i).prevIncState = (x.1.store.info i).stateSignal.current
  started : ∀ i, (x.2 i).occupationIntervalStartTime ≤ x.1.now

omit [DecidableEq ι] in
theorem allSpent_start (tasks : TaskSet ι) (prev : ι → TaskState) :
    allSpent tasks (fun i => initialized (prev i)) 0 = 0 := by
  refine List.sum_eq_zero fun time listed => ?_
  obtain ⟨i, -, rfl⟩ := List.mem_map.mp listed
  simp [spent, initialized, accountOccupationTimeProc]

omit [DecidableEq ι] in
theorem accounted_start {tasks : TaskSet ι} (settings : Settings tasks) (prev : ι → TaskState) :
    Accounted tasks (simulationStart settings, fun i => initialized (prev i)) where
  owned := by
    show Owned (simulationStart settings) (allSpent tasks (fun i => initialized (prev i)) 0)
    rw [allSpent_start]
    exact owned_start settings
  state i := by
    obtain ⟨-, -, -, -, state⟩ := start_signals settings i
    rw [state]
    simp [initialized, accountOccupationTimeProc]
  started i := by simp [initialized, accountOccupationTimeProc]

omit [DecidableEq ι] in
/-- After an update a task is accounted for if and only if its state has changed. -/
theorem Accounted.changed {tasks : TaskSet ι} {c : RtosConfig ι} {a : ι → OccupationInfo}
    (h : Accounted tasks (c, a)) (c' : RtosConfig ι) (i : ι) :
    (c.store.info i).stateSignal.current = (c'.store.info i).stateSignal.current ∧
        noteOccupation c .delta c' a i = a i ∨
      (a i).prevIncState ≠ (c'.store.info i).stateSignal.current ∧
        noteOccupation c .delta c' a i =
          accountOccupationTimeProc (a i) c'.now (c'.store.info i).stateSignal.current := by
  by_cases same : (c.store.info i).stateSignal.current = (c'.store.info i).stateSignal.current
  · exact Or.inl ⟨same, if_pos same⟩
  · refine Or.inr ⟨?_, if_neg same⟩
    rw [h.state i]
    exact same

omit [DecidableEq ι] in
theorem Accounted.allSpent_delta {tasks : TaskSet ι} {c c' : RtosConfig ι}
    {a : ι → OccupationInfo} (h : Accounted tasks (c, a)) (instant : c'.now = c.now) :
    allSpent tasks (noteOccupation c .delta c' a) c'.now = allSpent tasks a c.now := by
  refine congrArg List.sum (List.map_congr_left fun i _ => ?_)
  rcases h.changed c' i with ⟨-, kept⟩ | ⟨changes, changed⟩
  · rw [kept, instant]
  · rw [changed, spent_account changes, instant]

omit [DecidableEq ι] in
theorem Accounted.allSpent_advance {tasks : TaskSet ι} {c : RtosConfig ι} {a : ι → OccupationInfo}
    (h : Accounted tasks (c, a)) {t : ℕ} (later : c.now ≤ t) :
    allSpent tasks a t = allSpent tasks a c.now + executingTime tasks c (.advance t) := by
  have each : ∀ i, spent (a i) t = spent (a i) c.now + if Executing c i then t - c.now else 0 := by
    intro i
    have started : (a i).occupationIntervalStartTime ≤ c.now := h.started i
    have state : (a i).prevIncState = (c.store.info i).stateSignal.read := h.state i
    rw [spent_advance started later, state]
    rfl
  unfold allSpent
  simp only [each]
  exact sum_map_add_ite (fun i => spent (a i) c.now) (Executing c) (t - c.now)

/-- Along a step the accounts grow by the time that tasks spend executing. -/
theorem Accounted.allSpent_step {tasks : TaskSet ι} {x y : RtosConfig ι × (ι → OccupationInfo)}
    {l : RtosLabel ι} (h : Accounted tasks x) (taken : accountedStep tasks x l = some y) :
    allSpent tasks y.2 y.1.now = allSpent tasks x.2 x.1.now + executingTime tasks x.1 l := by
  obtain ⟨stepped, noted⟩ := recording_eq_some.mp taken
  rw [noted]
  cases l with
  | eval p choice =>
    obtain ⟨r, seg, -, -, same⟩ := System.step_eval_eq_some.mp stepped
    rw [same]
    rfl
  | delta =>
    obtain ⟨-, same⟩ := System.step_delta_eq_some.mp stepped
    exact h.allSpent_delta (by rw [same])
  | advance t =>
    obtain ⟨⟨-, later, -⟩, same⟩ := System.step_advance_eq_some.mp stepped
    rw [same]
    exact h.allSpent_advance later.le

theorem Accounted.step {tasks : TaskSet ι} (x : RtosConfig ι × (ι → OccupationInfo))
    (l : RtosLabel ι) (y : RtosConfig ι × (ι → OccupationInfo)) (h : Accounted tasks x)
    (granted : Granted x.1 l) (taken : accountedStep tasks x l = some y) : Accounted tasks y := by
  have grown := h.allSpent_step taken
  obtain ⟨stepped, noted⟩ := recording_eq_some.mp taken
  obtain ⟨c, a⟩ := x
  obtain ⟨c', a'⟩ := y
  obtain rfl : a' = noteOccupation c l c' a := noted
  cases l with
  | eval p choice =>
    obtain ⟨r, seg, resumes, ran, rfl⟩ := System.step_eval_eq_some.mp stepped
    refine ⟨h.owned.eval granted resumes ran, fun i => ?_, h.started⟩
    exact (h.state i).trans (exec_state_current ran i).symm
  | delta =>
    obtain ⟨quiet, rfl⟩ := System.step_delta_eq_some.mp stepped
    refine ⟨?_, fun i => ?_, fun i => ?_⟩
    · rw [grown]
      exact h.owned.delta (System.quiet_iff.mp quiet)
    · rcases h.changed _ i with ⟨same, kept⟩ | ⟨-, changed⟩
      · exact (congrArg _ kept).trans ((h.state i).trans same)
      · exact (congrArg _ changed).trans (account_prevIncState _ _ _)
    · rcases h.changed _ i with ⟨-, kept⟩ | ⟨-, changed⟩
      · exact (congrArg OccupationInfo.occupationIntervalStartTime kept).trans_le (h.started i)
      · exact (congrArg OccupationInfo.occupationIntervalStartTime changed).trans_le
          (account_started (h.started i) _)
  | advance t =>
    obtain ⟨⟨stable, later, within⟩, rfl⟩ := System.step_advance_eq_some.mp stepped
    refine ⟨?_, h.state, fun i => (h.started i).trans later.le⟩
    rw [grown]
    exact h.owned.advance stable later within

omit [DecidableEq ι] in
theorem holder_fits {store : RtosStore ι} {now spent : ℕ}
    {status : Status (SystemTask.Event ι) (RtosPoint ι)} (h : Holder store now spent status) :
    spent + store.sched.schedCompTime ≤ now := by
  cases h with
  | outset point nobody state budget => exact budget
  | waiting point nobody state budget => exact budget
  | timed nobody state elapsed budget => exact elapsed
  | computed nobody state budget => omega
  | granted point owner state budget => exact budget

omit [DecidableEq ι] in
/-- Times that fit into the time of the simulation are reported as no more than one. -/
theorem platform_le_one {status : SimStatus} {last now : ℕ} {tasks : TaskSet ι}
    {a : ι → OccupationInfo} {s : Scheduler ι} {total : ℕ}
    {u : ℚ} (reported : getPlatformUtilization status last now tasks a s = some u)
    (fits : allTasksUtilizationTime tasks a + s.schedCompTime ≤ total)
    (running : status = .running → now = total) (stopped : status = .stopped → last = total) :
    0 ≤ u ∧ u ≤ 1 := by
  obtain ⟨ofTasks, tasksReported, reported⟩ := Option.bind_eq_some_iff.mp reported
  obtain ⟨ofScheduler, schedReported, rfl⟩ := Option.map_eq_some_iff.mp reported
  have share : ∀ {n m k : ℕ}, n + m ≤ k → 0 < k →
      0 ≤ (n / k + m / k : ℚ) ∧ (n / k + m / k : ℚ) ≤ 1 := by
    intro n m k within positive
    have positive : (0 : ℚ) < k := by exact_mod_cast positive
    have within : (n + m : ℚ) ≤ k := by exact_mod_cast within
    rw [← add_div]
    exact ⟨by positivity, (div_le_one positive).mpr within⟩
  cases status with
  | beforeStart =>
    obtain rfl : (0 : ℚ) = ofTasks := Option.some.inj tasksReported
    obtain rfl : (0 : ℚ) = ofScheduler := Option.some.inj schedReported
    norm_num
  | running =>
    rw [← running rfl] at fits
    by_cases positive : 0 < now
    · rw [getTasksUtilization, measured, if_pos positive] at tasksReported
      rw [getSchedulerUtilization, measured, if_pos positive] at schedReported
      rw [← Option.some.inj tasksReported, ← Option.some.inj schedReported]
      exact share fits positive
    · rw [getTasksUtilization, measured, if_neg positive] at tasksReported
      rw [getSchedulerUtilization, measured, if_neg positive] at schedReported
      rw [← Option.some.inj tasksReported, ← Option.some.inj schedReported]
      norm_num
  | stopped =>
    rw [← stopped rfl] at fits
    by_cases nothing : last = 0
    · rw [getTasksUtilization, measured, if_pos nothing] at tasksReported
      cases tasksReported
    · rw [getTasksUtilization, measured, if_neg nothing] at tasksReported
      rw [getSchedulerUtilization, measured, if_neg nothing] at schedReported
      rw [← Option.some.inj tasksReported, ← Option.some.inj schedReported]
      exact share fits (Nat.pos_of_ne_zero nothing)

/-- The time that the tasks have been executing in a run. -/
def executedTime (tasks : TaskSet ι) :
    RtosConfig ι × (ι → OccupationInfo) → List (RtosLabel ι) → ℕ :=
  total (accountedStep tasks) fun x l => executingTime tasks x.1 l

theorem accounted_of_run {tasks : TaskSet ι} {settings : Settings tasks} {prev : ι → TaskState}
    {ls : List (RtosLabel ι)} {x : RtosConfig ι × (ι → OccupationInfo)}
    (along : Along (rtosSystem tasks).step Granted (simulationStart settings) ls)
    (reach : run (accountedStep tasks)
      (simulationStart settings, fun i => initialized (prev i)) ls = some x) :
    Accounted tasks x ∧ allSpent tasks x.2 x.1.now =
      executedTime tasks (simulationStart settings, fun i => initialized (prev i)) ls := by
  have keep : ∀ (x : RtosConfig ι × (ι → OccupationInfo)) (l : RtosLabel ι)
      (y : RtosConfig ι × (ι → OccupationInfo)) (n : ℕ),
      Accounted tasks x ∧ allSpent tasks x.2 x.1.now = n → Granted x.1 l →
      accountedStep tasks x l = some y →
      Accounted tasks y ∧ allSpent tasks y.2 y.1.now = n + executingTime tasks x.1 l := by
    rintro x l y n ⟨h, same⟩ granted taken
    refine ⟨h.step x l y granted taken, ?_⟩
    rw [h.allSpent_step taken, same]
  have start : Accounted tasks (simulationStart settings, fun i => initialized (prev i)) ∧
      allSpent tasks (fun i => initialized (prev i)) 0 = 0 :=
    ⟨accounted_start settings prev, allSpent_start tasks prev⟩
  have final := run_total keep start (along_recording.mpr along) reach
  rwa [Nat.zero_add] at final

/-- In every run the utilizations reported for the tasks and the scheduler, while the simulation
goes on and after its end, add up to one at most, and when no task is executing those of the tasks
are their share of the time. -/
theorem platform_utilization_le_one {tasks : TaskSet ι} {settings : Settings tasks}
    {prev : ι → TaskState} {ls : List (RtosLabel ι)} {c : RtosConfig ι} {a : ι → OccupationInfo}
    (along : Along (rtosSystem tasks).step Granted (simulationStart settings) ls)
    (reach : run (accountedStep tasks)
      (simulationStart settings, fun i => initialized (prev i)) ls = some (c, a)) :
    (∀ last, ∀ u ∈ getPlatformUtilization .running last c.now tasks a c.store.sched,
      0 ≤ u ∧ u ≤ 1) ∧
    (∀ (states : ι → TaskState) (sched : SchedState) (now : ℕ),
      ∀ u ∈ getPlatformUtilization .stopped c.now now tasks
        (fun i => endOfSimulation (a i) c.now (states i) sched) c.store.sched, 0 ≤ u ∧ u ≤ 1) ∧
    ((∀ i, ¬ Executing c i) → allTasksUtilizationTime tasks a =
      executedTime tasks (simulationStart settings, fun i => initialized (prev i)) ls) := by
  obtain ⟨accounted, exact_time⟩ := accounted_of_run along reach
  have fits : allSpent tasks a c.now + c.store.sched.schedCompTime ≤ c.now :=
    holder_fits accounted.owned.holder
  refine ⟨fun last u reported => ?_, fun states sched now u reported => ?_, fun idle => ?_⟩
  · have less : allTasksUtilizationTime tasks a ≤ allSpent tasks a c.now :=
      List.sum_le_sum fun i _ => Nat.le_add_right _ _
    exact platform_le_one reported (by omega) (fun _ => rfl) fun other => by cases other
  · have less : allTasksUtilizationTime tasks
        (fun i => endOfSimulation (a i) c.now (states i) sched) ≤ allSpent tasks a c.now :=
      List.sum_le_sum fun i _ => endOfSimulation_le (a i) c.now (states i) sched
    exact platform_le_one reported (by omega) (fun other => by cases other) fun _ => rfl
  · rw [← exact_time]
    refine congrArg List.sum (List.map_congr_left fun i _ => ?_)
    have waits : (a i).prevIncState ≠ .executing := by
      rw [accounted.state i]
      exact idle i
    rw [spent, if_neg waits, Nat.add_zero]

theorem computesThenWaits_reported :
    ∃ c a, run (accountedStep soleTask) (simulationStart soleSettings, fun _ => initialized .ready)
        computesThenWaits = some (c, a) ∧
      (∀ u ∈ getPlatformUtilization .running 0 c.now soleTask a c.store.sched, 0 ≤ u ∧ u ≤ 1) ∧
      allTasksUtilizationTime soleTask a = 3 := by
  have along : Along (rtosSystem soleTask).step Granted (simulationStart soleSettings)
      computesThenWaits := by decide +kernel
  have accounted : (run (accountedStep soleTask) (simulationStart soleSettings,
      fun _ => initialized .ready) computesThenWaits).map
        (fun x => allTasksUtilizationTime soleTask x.2) = some 3 := by decide +kernel
  obtain ⟨⟨c, a⟩, reach, time⟩ := Option.map_eq_some_iff.mp accounted
  obtain ⟨running, -⟩ := platform_utilization_le_one along reach
  exact ⟨c, a, reach, running 0, time⟩

end Kista.Scheduling.Utilizations
