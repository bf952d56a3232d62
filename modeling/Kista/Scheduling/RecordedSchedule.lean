/- Kista/Scheduling/RecordedSchedule
   source: src/src/scheduler.cpp, task_info_t.cpp, user_task_constructs.cpp,
   static_sched_analysis.cpp, load_analysis/load_analysis.cpp
   digest: The schedule that a run of the preemptive scheduler leaves behind, and the response times
   in it: those of the load analysis, and the periods of a task set that the analyses accept. -/

import Kista.Scheduling.AcceptedResponses
import Kista.Scheduling.PriorityCompliance

set_option autoImplicit false
set_option relaxedAutoImplicit false

/-!
A slot is one unit of time. What holds in it is what the signals show when the instant before it
has come to rest.
-/

namespace Kista.Scheduling.RecordedSchedule

open Kernel.Delta Kernel.Run
open Dispatch (TaskState SchedulerPolicy)
open SystemTask Constructs Rtos StateMachine TaskCoherence Serving PriorityCompliance
open RealTime.FixedPriority AcceptedResponses
open StaticAnalyses (LightTask)

variable {ι : Type} [DecidableEq ι]

instance (c : RtosConfig ι) (i : ι) : Decidable (Runnable c i) :=
  inferInstanceAs (Decidable (_ ∧ _ ∧ _))

/-- The task that has the processor and can run. -/
def holder (tasks : TaskSet ι) (c : RtosConfig ι) : Option ι :=
  tasks.tasksAssigned.find? fun i =>
    (c.store.info i).activeSignal.read && decide (Runnable c i)

structure Slot (ι : Type) where
  holder : Option ι
  runnable : List ι
  deriving DecidableEq

def slotOf (tasks : TaskSet ι) (c : RtosConfig ι) : Slot ι :=
  ⟨holder tasks c, tasks.tasksAssigned.filter fun i => Runnable c i⟩

/-- An advance of time leaves its slots behind. -/
def noteSlots (tasks : TaskSet ι) (c : RtosConfig ι) (l : RtosLabel ι) (_ : RtosConfig ι)
    (slots : List (Slot ι)) : List (Slot ι) :=
  match l with
  | .advance t => slots ++ List.replicate (t - c.now) (slotOf tasks c)
  | _ => slots

def recordedStep (tasks : TaskSet ι) :
    RtosConfig ι × List (Slot ι) → RtosLabel ι → Option (RtosConfig ι × List (Slot ι)) :=
  recording (rtosSystem tasks).step (noteSlots tasks)

def RunnableAt (slots : List (Slot ι)) (t : ℕ) (j : ι) : Prop :=
  ∃ slot ∈ slots[t]?, j ∈ slot.runnable

instance (slots : List (Slot ι)) (t : ℕ) (j : ι) : Decidable (RunnableAt slots t j) :=
  inferInstanceAs (Decidable (∃ slot ∈ slots[t]?, _))

/-- A task that can run in two slots in a row carries its work from one into the other. -/
def schedule (slots : List (Slot ι)) : Schedule ι where
  holder t := slots[t]?.bind Slot.holder
  carried j
    | 0 => False
    | t + 1 => RunnableAt slots t j ∧ RunnableAt slots (t + 1) j

instance (slots : List (Slot ι)) (j : ι) : (t : ℕ) → Decidable ((schedule slots).carried j t)
  | 0 => inferInstanceAs (Decidable False)
  | t + 1 => inferInstanceAs (Decidable (RunnableAt slots t j ∧ RunnableAt slots (t + 1) j))

/-- Whoever can run has the processor or leaves it to a task that comes before it. -/
def InOrder (order : List ι) (slot : Slot ι) : Prop :=
  ∀ j ∈ slot.runnable, ∃ k, slot.holder = some k ∧ (k = j ∨ k ∈ moreUrgent order j)

/-- A turn of a process other than the scheduler. -/
theorem exec_other {p : RtosProc ι} (scheduler : p ≠ .schedulerProc) {r : RtosPoint ι}
    {choice : RtosChoice} {now : ℕ} {store : RtosStore ι} {seg : RtosSegment ι}
    (ran : exec p r choice now store = some seg) :
    seg.store.sched = store.sched ∧
      ∀ j, (seg.store.info j).activeSignal = (store.info j).activeSignal := by
  cases p with
  | schedulerProc => exact absurd rfl scheduler
  | genTickTimerEvent =>
    cases r with
    | tick =>
      obtain rfl : _ = seg := Option.some.inj ran
      simp [genTickTimerEvent_store]
    | _ => cases ran
  | genReleaseEvent i =>
    cases r with
    | genStart =>
      obtain rfl : _ = seg := Option.some.inj ran
      simp [genReleaseEvent_store]
    | generate =>
      obtain rfl : _ = seg := Option.some.inj ran
      simp [genReleaseEvent_store]
    | _ => cases ran
  | updateStateProc i =>
    cases r with
    | turn =>
      obtain ⟨turn, -, rfl⟩ := Option.map_eq_some_iff.mp ran
      simp
    | _ => cases ran
  | thread i =>
    cases r with
    | inside p =>
      obtain ⟨t, frame, stored, -⟩ := thread_frames ran
      rw [stored]
      exact ⟨rfl, update_info (f := TaskInfo.activeSignal) frame.active⟩
    | _ => cases ran

/-- The scheduler is at its start, in the waits of its loop, or has granted the processor. -/
def Stands (store : RtosStore ι) (status : Status (Event ι) (RtosPoint ι)) : Prop :=
  status = .ready .schedStart ∨ status.point = .firstWait ∨ status.point = .secondWait ∨
    ∃ i, status.point = .running i ∧ (store.info i).activeSignal.next = true

/-- Without scheduling times the scheduler comes back within the instant. -/
structure Prompt (tasks : TaskSet ι) (c : RtosConfig ι) : Prop where
  untimed : c.store.sched.schedulingTimesEnabled = false
  assigned : c.store.sched.dispatcher.tasksAssigned = tasks.tasksAssigned
  stands : Stands c.store (c.status .schedulerProc)

omit [DecidableEq ι] in
theorem prompt_start {tasks : TaskSet ι} (settings : Settings tasks)
    (untimed : settings.schedulingTimesEnabled = false) :
    Prompt tasks (simulationStart settings) where
  untimed := untimed
  assigned := rfl
  stands := Or.inl rfl

omit [DecidableEq ι] in
theorem stands_of_begins {store : RtosStore ι} {now : ℕ} {seg : RtosSegment ι}
    (begins : Begins store now seg) (untimed : store.sched.schedulingTimesEnabled = false) :
    Stands seg.store seg.status := by
  rcases begins.waits with ⟨-, waits⟩ | ⟨timed, -⟩
  · rw [waits]
    exact Or.inr (Or.inl rfl)
  · rw [untimed] at timed
    cases timed

theorem Prompt.schedules {tasks : TaskSet ι} {c : RtosConfig ι} (h : Prompt tasks c)
    (nonempty : tasks.tasksAssigned ≠ [])
    (policy : c.store.sched.dispatcher.schedulerPolicy = .staticPriorities) {r : RtosPoint ι}
    {choice : RtosChoice} {seg : RtosSegment ι}
    (resumes : (c.status .schedulerProc).resumable = some r)
    (ran : schedulerProc choice c.now c.store r = some seg) :
    seg.store.sched.schedulingTimesEnabled = false ∧
      seg.store.sched.dispatcher = c.store.sched.dispatcher ∧ Stands seg.store seg.status := by
  have place := Status.resumable_point resumes
  have begins : ∀ store : RtosStore ι, store.sched = c.store.sched →
      beginScheduling choice c.now store = some seg →
      seg.store.sched.schedulingTimesEnabled = false ∧
        seg.store.sched.dispatcher = c.store.sched.dispatcher ∧ Stands seg.store seg.status := by
    intro store same ran
    have begins := beginScheduling_begins ran
    have untimed : store.sched.schedulingTimesEnabled = false := by
      rw [same]
      exact h.untimed
    exact ⟨begins.enabled.trans untimed, by rw [begins.dispatcher, same],
      stands_of_begins begins untimed⟩
  rcases h.stands with start | first | second | ⟨i, running, -⟩
  · rw [start] at place
    obtain rfl : RtosPoint.schedStart = r := place
    rw [schedulerProc, h.assigned, if_neg nonempty] at ran
    exact begins c.store rfl ran
  · rw [place] at first
    subst first
    obtain rfl : _ = seg := Option.some.inj ran
    exact ⟨h.untimed, rfl, Or.inr (Or.inr (Or.inl rfl))⟩
  · rw [place] at second
    subst second
    obtain ⟨i, ends⟩ := endScheduling_ends ran
    refine ⟨ends.enabled.trans h.untimed,
      (dispatch_staticPriorities policy ends.dispatched).1, Or.inr (Or.inr (Or.inr ⟨i, ?_, ?_⟩))⟩
    · rw [ends.waits]
      rfl
    · rw [ends.info, setActive_self]
      rfl
  · rw [place] at running
    subst running
    exact begins (setActive c.store i false) rfl ran

theorem Prompt.eval {tasks : TaskSet ι} {c : RtosConfig ι} (h : Prompt tasks c)
    (nonempty : tasks.tasksAssigned ≠ [])
    (policy : c.store.sched.dispatcher.schedulerPolicy = .staticPriorities) {p : RtosProc ι}
    {r : RtosPoint ι} {choice : RtosChoice} {seg : RtosSegment ι}
    (resumes : (c.status p).resumable = some r)
    (ran : exec p r choice c.now c.store = some seg) :
    Prompt tasks ⟨seg.store, Function.update c.status p seg.status, seg.notified ++ c.pending,
      c.now⟩ := by
  by_cases scheduler : p = .schedulerProc
  · subst scheduler
    obtain ⟨untimed, dispatcher, stands⟩ := h.schedules nonempty policy resumes ran
    refine ⟨untimed, ?_, ?_⟩
    · rw [dispatcher]
      exact h.assigned
    · simpa using stands
  · obtain ⟨sched, active⟩ := exec_other scheduler ran
    refine ⟨?_, ?_, ?_⟩
    · rw [sched]
      exact h.untimed
    · rw [sched]
      exact h.assigned
    · show Stands seg.store (Function.update c.status p seg.status .schedulerProc)
      rw [Function.update_of_ne (Ne.symm scheduler)]
      simpa only [Stands, active] using h.stands

omit [DecidableEq ι] in
theorem Prompt.wake {tasks : TaskSet ι} {c c' : RtosConfig ι} (h : Prompt tasks c)
    (quiet : ∀ r, c.status .schedulerProc ≠ .ready r)
    (untimed : c'.store.sched.schedulingTimesEnabled = c.store.sched.schedulingTimesEnabled)
    (dispatcher : c'.store.sched.dispatcher = c.store.sched.dispatcher)
    (active : ∀ j, (c'.store.info j).activeSignal.next = (c.store.info j).activeSignal.next)
    (point : (c'.status .schedulerProc).point = (c.status .schedulerProc).point) :
    Prompt tasks c' where
  untimed := untimed.trans h.untimed
  assigned := by
    rw [dispatcher]
    exact h.assigned
  stands := by
    rcases h.stands with start | later
    · exact absurd start (quiet _)
    · right
      simpa only [point, active] using later

/-- When no delta is pending, the scheduler has granted the processor. -/
theorem Prompt.running {tasks : TaskSet ι} {order : List ι} {c : RtosConfig ι}
    (prompt : Prompt tasks c) (served : Served order c)
    (stable : (rtosSystem tasks).stable c = true) :
    ∃ i, (c.store.info i).activeSignal.current = true ∧ Chosen order c i ∧
      ∀ j, j ≠ i → (c.store.info j).activeSignal.current = false := by
  obtain ⟨quiet, idle, clean, due⟩ := System.stable_iff.mp stable
  have settled := settled_of_clean clean
  have phase := served.phase
  have stands := prompt.stands
  have waiting := quiet .schedulerProc
  have due := due .schedulerProc
  generalize c.status .schedulerProc = status at phase stands waiting due
  rcases stands with start | first | second | ⟨i, point, held⟩
  · exact absurd start (waiting _)
  · cases phase with
    | outset point =>
      rw [point] at first
      cases first
    | first => exact absurd rfl (due _ _ _ rfl)
    | firstEnd => exact absurd rfl (waiting _)
    | _ => cases first
  · cases phase with
    | outset point =>
      rw [point] at second
      cases second
    | second => exact absurd rfl (due _ _ _ rfl)
    | secondEnd => exact absurd rfl (waiting _)
    | _ => cases second
  · cases phase with
    | outset start =>
      rw [start] at point
      cases point
    | @running k others chosen =>
      obtain rfl : k = i := RtosPoint.running.inj point
      refine ⟨k, (settled.taskActive k).symm.trans held, ?_,
        fun j other => (others j other).current⟩
      refine chosen.resolve_left ?_
      rintro ⟨e, -, raised⟩
      rw [idle] at raised
      cases raised
    | triggered => exact absurd rfl (waiting _)
    | _ => cases point

/-- When no delta is pending, the active task is the first that can run. -/
theorem slotOf_inOrder {tasks : TaskSet ι} {order : List ι} {c : RtosConfig ι}
    (served : Served order c) (prompt : Prompt tasks c) (all : ∀ j, j ∈ order)
    (stable : (rtosSystem tasks).stable c = true) : InOrder order (slotOf tasks c) := by
  intro j listed
  have able : Runnable c j := by simpa using (List.mem_filter.mp listed).2
  obtain ⟨quiet, -, clean, -⟩ := System.stable_iff.mp stable
  have settled := settled_of_clean clean
  obtain ⟨i, active, chosen, others⟩ := prompt.running served stable
  have stuck : ∀ k, k ≠ i → (c.store.info k).stateSignal.next ≠ .ready → ¬ Runnable c k := by
    intro k other waits
    obtain ⟨p, coherent⟩ := served.tasks k
    exact not_runnable coherent (quiet _ _) (settled.taskState k) (others k other) waits
  have not_before : ¬ order.idxOf j < order.idxOf i := by
    intro earlier
    have other : j ≠ i := by
      rintro rfl
      exact lt_irrefl _ earlier
    exact stuck j other (chosen.first j earlier) able
  have runs : Runnable c i := by
    obtain ⟨p, coherent⟩ := served.tasks i
    have unfinished : ∀ {state : TaskState}, (c.store.info i).stateSignal.next = state →
        state ≠ .finished → (c.store.info i).stateSignal.read ≠ .finished := by
      intro state next ne
      rw [Signal.read_eq, ← settled.taskState, next]
      exact ne
    rcases chosen.serves with ready | ⟨executing, clear⟩ | none
    · obtain ⟨period, sync, -⟩ := coherent.idle (quiet _ _) ready
      exact ⟨unfinished ready (by decide), period, sync⟩
    · obtain ⟨period, sync⟩ := clear (quiet _ _)
      exact ⟨unfinished executing (by decide), period, sync⟩
    · by_cases own : j = i
      · exact own ▸ able
      · exact absurd able (stuck j own (none j own))
  have holds : holder tasks c = some i := by
    have found : (tasks.tasksAssigned.find? fun k =>
        (c.store.info k).activeSignal.read && decide (Runnable c k)).isSome := by
      rw [List.find?_isSome]
      exact ⟨i, tasks.complete i, by simp [active, runs]⟩
    obtain ⟨k, is_k⟩ := Option.isSome_iff_exists.mp found
    have held := List.find?_some is_k
    rw [Bool.and_eq_true] at held
    obtain rfl : k = i := by
      by_contra other
      have lost := others k other
      rw [Signal.read_eq, lost] at held
      cases held.1
    exact is_k
  refine ⟨i, holds, ?_⟩
  by_cases own : i = j
  · exact Or.inl own
  · right
    rw [mem_moreUrgent]
    refine ⟨all i, lt_of_le_of_ne (not_lt.mp not_before) fun same => ?_⟩
    exact own ((List.idxOf_inj (all i)).mp same)

/-- The condition under which the scheduler complies with the priorities of its tasks. -/
def Orderly (tasks : TaskSet ι) (c : RtosConfig ι) (l : RtosLabel ι) : Prop :=
  Granted c l ∧ Unhurried tasks c l

instance (tasks : TaskSet ι) (c : RtosConfig ι) (l : RtosLabel ι) : Decidable (Orderly tasks c l) :=
  inferInstanceAs (Decidable (_ ∧ _))

/-- What a run keeps of its configuration and of the slots behind it. -/
structure Recorded (tasks : TaskSet ι) (order : List ι) (x : RtosConfig ι × List (Slot ι)) :
    Prop where
  served : Served order x.1
  prompt : Prompt tasks x.1
  length : x.2.length = x.1.now
  inOrder : ∀ slot ∈ x.2, InOrder order slot

theorem Recorded.step {tasks : TaskSet ι} {order : List ι} (all : ∀ j, j ∈ order)
    (nonempty : tasks.tasksAssigned ≠ []) (x : RtosConfig ι × List (Slot ι)) (l : RtosLabel ι)
    (y : RtosConfig ι × List (Slot ι)) (h : Recorded tasks order x)
    (allowed : Orderly tasks x.1 l) (taken : recordedStep tasks x l = some y) :
    Recorded tasks order y := by
  obtain ⟨stepped, noted⟩ := recording_eq_some.mp taken
  obtain ⟨c, slots⟩ := x
  obtain ⟨c', slots'⟩ := y
  obtain rfl : slots' = noteSlots tasks c l c' slots := noted
  cases l with
  | eval p choice =>
    obtain ⟨r, seg, resumes, ran, rfl⟩ := System.step_eval_eq_some.mp stepped
    exact ⟨h.served.eval all allowed.1 allowed.2 resumes ran,
      h.prompt.eval nonempty h.served.policy resumes ran, h.length, h.inOrder⟩
  | delta =>
    obtain ⟨quiet, rfl⟩ := System.step_delta_eq_some.mp stepped
    have quiet := System.quiet_iff.mp quiet
    refine ⟨h.served.delta quiet, ?_, h.length, h.inOrder⟩
    exact h.prompt.wake (quiet _) rfl rfl (fun _ => rfl) Status.wake_point
  | advance t =>
    obtain ⟨⟨stable, later, within⟩, rfl⟩ := System.step_advance_eq_some.mp stepped
    refine ⟨h.served.advance stable within, ?_, ?_, ?_⟩
    · exact h.prompt.wake ((System.stable_iff.mp stable).1 _) rfl rfl (fun _ => rfl)
        Status.wake_point
    · have length : slots.length = c.now := h.length
      have later : c.now < t := later
      show (slots ++ List.replicate (t - c.now) (slotOf tasks c)).length = t
      rw [List.length_append, List.length_replicate, length]
      omega
    · intro slot listed
      rcases List.mem_append.mp listed with before | new
      · exact h.inOrder slot before
      · rw [List.eq_of_mem_replicate new]
        exact slotOf_inOrder h.served h.prompt all stable

theorem recorded_of_run {tasks : TaskSet ι} {settings : Settings tasks}
    (policy : settings.schedulerPolicy = .staticPriorities)
    (preemptive : settings.schedulerTriggeringPolicy = .preemptive)
    (untimed : settings.schedulingTimesEnabled = false) (nonempty : tasks.tasksAssigned ≠ [])
    {ls : List (RtosLabel ι)} {x : RtosConfig ι × List (Slot ι)}
    (along : Along (rtosSystem tasks).step (Orderly tasks) (simulationStart settings) ls)
    (reach : run (recordedStep tasks) (simulationStart settings, []) ls = some x) :
    Recorded tasks settings.tasksByPriority x := by
  have all : ∀ j, j ∈ settings.tasksByPriority := fun j =>
    (settings.prioritized (by simp [policy])).mem_iff.mpr (tasks.complete j)
  have start : Recorded tasks settings.tasksByPriority (simulationStart settings, []) :=
    ⟨served_start settings policy preemptive, prompt_start settings untimed, rfl, nofun⟩
  exact run_invariant (Recorded.step all nonempty) start (along_recording.mpr along) reach

/-- A schedule in order serves a task together with those before it. -/
theorem schedule_serves {order : List ι} {slots : List (Slot ι)}
    (inOrder : ∀ slot ∈ slots, InOrder order slot) (horizon : ℕ) {group : Finset ι}
    (closed : ∀ j ∈ group, ∀ k ∈ moreUrgent order j, k ∈ group) :
    (schedule slots).Serves horizon group := by
  rintro t - j member ⟨⟨slot, at_t, runnable⟩, -⟩
  obtain ⟨k, holds, first⟩ := inOrder slot (List.mem_of_getElem? at_t) j runnable
  refine ⟨k, ?_, ?_⟩
  · rcases first with rfl | urgent
    · exact member
    · exact closed j member k urgent
  · show slots[t]?.bind Slot.holder = some k
    rw [at_t]
    exact holds

theorem moreUrgent_trans {order : List ι} {i j k : ι} (first : j ∈ moreUrgent order i)
    (second : k ∈ moreUrgent order j) : k ∈ moreUrgent order i := by
  rw [mem_moreUrgent] at first second ⊢
  exact ⟨second.1, second.2.trans first.2⟩

/-- Each task runs no longer for a job than its worst-case execution time, and its jobs are a period
apart. -/
structure AsDeclared (info : ι → PriorityOrder.TaskInfo) (slots : List (Slot ι)) (i : ι) :
    Prop where
  sporadic : (schedule slots).Sporadic (slots.length - 1) (info i).wcet (info i).period i
  finishes : (schedule slots).Finishes (slots.length - 1) (info i).wcet i

section Responses

variable {tasks : TaskSet ι} {settings : Settings tasks} {info : ι → PriorityOrder.TaskInfo}
  {ls : List (RtosLabel ι)} {c : RtosConfig ι} {slots : List (Slot ι)} {i : ι}

theorem serves_of_run (policy : settings.schedulerPolicy = .staticPriorities)
    (preemptive : settings.schedulerTriggeringPolicy = .preemptive)
    (untimed : settings.schedulingTimesEnabled = false)
    (along : Along (rtosSystem tasks).step (Orderly tasks) (simulationStart settings) ls)
    (reach : run (recordedStep tasks) (simulationStart settings, []) ls = some (c, slots))
    (horizon : ℕ) (i : ι) :
    (schedule slots).Serves horizon (moreUrgent settings.tasksByPriority i) ∧
      (schedule slots).Serves horizon (insert i (moreUrgent settings.tasksByPriority i)) := by
  have nonempty : tasks.tasksAssigned ≠ [] := List.ne_nil_of_mem (tasks.complete i)
  have recorded := recorded_of_run policy preemptive untimed nonempty along reach
  constructor
  · exact schedule_serves recorded.inOrder horizon fun j member k => moreUrgent_trans member
  · refine schedule_serves recorded.inOrder horizon fun j member k urgent => ?_
    rcases Finset.mem_insert.mp member with rfl | member
    · exact Finset.mem_insert_of_mem urgent
    · exact Finset.mem_insert_of_mem (moreUrgent_trans member urgent)

/-- In every run of the preemptive scheduler with static priorities, what a task begins is over
after its response time in the sense of the load analysis, whatever the less urgent tasks do. -/
theorem responds_of_responseTime (policy : settings.schedulerPolicy = .staticPriorities)
    (preemptive : settings.schedulerTriggeringPolicy = .preemptive)
    (untimed : settings.schedulingTimesEnabled = false)
    (along : Along (rtosSystem tasks).step (Orderly tasks) (simulationStart settings) ls)
    (reach : run (recordedStep tasks) (simulationStart settings, []) ls = some (c, slots))
    (declared : ∀ j ∈ insert i (moreUrgent settings.tasksByPriority i), AsDeclared info slots j)
    (name : ι → String)
    (nodup : settings.tasksByPriority.Nodup) {R : ℕ}
    (response : LoadAnalysis.TimeDemand.IsResponseTime
      ((loadUnits name info settings.tasksByPriority nodup).higher
        (settings.tasksByPriority.idxOf i))
      (loadUnit name info settings.tasksByPriority i).2 R) :
    (schedule slots).Responds (slots.length - 1) R i := by
  obtain ⟨serves, serves_own⟩ :=
    serves_of_run policy preemptive untimed along reach (slots.length - 1) i
  have solves : R = LoadAnalysis.TimeDemand.demand _ _ R := response.1
  rw [demand_eq name nodup] at solves
  exact Schedule.responds_of_met (not_mem_moreUrgent i) serves serves_own
    (fun j urgent => (declared j (Finset.mem_insert_of_mem urgent)).sporadic)
    (declared i (Finset.mem_insert_self i _)).finishes solves.ge

/-- In every run of a preemptive rate monotonic scheduler whose tasks the default analyses accept,
what a task begins is over within its period, unless roundings carried them over the bound. -/
theorem responds_of_accepted {pow : ℚ → ℚ → ℚ} {analyses : StaticAnalyses.Analyses ι}
    (empty : analyses.table = []) {configured : PolicyTables.SchedulerT}
    (same : PolicyTables.SameType StaticAnalyses.rateMonotonicType configured)
    (kept : StaticAnalyses.BoundKept pow info tasks.tasksAssigned)
    (accepted : StaticAnalyses.Accepted (StaticAnalyses.enableSchedStaticAnalysis pow analyses)
      configured info tasks.tasksAssigned)
    {sort : PriorityOrder.StdSort ι} (sorts : Containers.Sorting.Sorts sort)
    {d : Dispatch.Dispatcher ι} (assigned : d.tasksAssigned = tasks.tasksAssigned)
    (fresh : d.tasksByPriority = [])
    (elaborated : PriorityOrder.endOfElaboration sort .rateMonotonic info d =
      .ok (simulationStart settings).store.sched.dispatcher)
    (policy : settings.schedulerPolicy = .staticPriorities)
    (preemptive : settings.schedulerTriggeringPolicy = .preemptive)
    (untimed : settings.schedulingTimesEnabled = false)
    (along : Along (rtosSystem tasks).step (Orderly tasks) (simulationStart settings) ls)
    (reach : run (recordedStep tasks) (simulationStart settings, []) ls = some (c, slots))
    (declared : ∀ j ∈ insert i (moreUrgent settings.tasksByPriority i), AsDeclared info slots j) :
    (schedule slots).Responds (slots.length - 1) (info i).period i := by
  obtain ⟨-, -, perm, sorted⟩ :=
    MonotonicOrders.elaborated_order (Or.inl rfl) sorts fresh elaborated
  rw [assigned] at perm
  have perm : settings.tasksByPriority.Perm tasks.tasksAssigned := perm
  have sorted : settings.tasksByPriority.Pairwise fun t₁ t₂ =>
    StaticAnalyses.period info t₁ ≤ StaticAnalyses.period info t₂ := sorted
  have nonempty : tasks.tasksAssigned ≠ [] := List.ne_nil_of_mem (tasks.complete i)
  obtain ⟨periodic, below⟩ :=
    StaticAnalyses.below_of_accepted empty same tasks.nodup nonempty kept accepted
  have met := met_of_below perm sorted (perm.nodup_iff.mpr tasks.nodup) periodic below
    (perm.mem_iff.mpr (tasks.complete i))
  obtain ⟨serves, serves_own⟩ :=
    serves_of_run policy preemptive untimed along reach (slots.length - 1) i
  exact Schedule.responds_within_period (not_mem_moreUrgent i) serves serves_own
    (fun j urgent => (declared j (Finset.mem_insert_of_mem urgent)).sporadic)
    (declared i (Finset.mem_insert_self i _)).finishes met

end Responses

def lightTaskSet : TaskSet LightTask where
  tasksAssigned := [.slow, .fast]
  nodup := by decide
  complete i := by cases i <;> decide

/-- Periods of twelve and eight, the faster task first, no ticks and no scheduling times. -/
def lightSettings : Settings lightTaskSet where
  schedulerPolicy := .staticPriorities
  dynamicPrioritiesPolicy := .earliestDeadlineFirst
  schedulerTriggeringPolicy := .preemptive
  staticSchedule := []
  tasksByPriority := [.fast, .slow]
  prioritized _ := by decide
  tSlicingFlag := false
  tickTimerDelay := 1
  schedulingTimesEnabled := false
  hasSchedulingTimeCalculator := false
  schedulingTime := 0
  isPeriodic _ := true
  period i := (StaticAnalyses.lightTasks i).period
  deadline i := (StaticAnalyses.lightTasks i).deadline

/-- A task is dispatched and begins or ends its wait. -/
def dispatched (i : LightTask) : List (RtosLabel (LightTask)) :=
  [.delta, turns .schedulerProc, .delta, turns .schedulerProc, .delta, turns (.updateStateProc i)]

/-- A job ends, and the scheduler is called. -/
def jobEnds (i : LightTask) : List (RtosLabel (LightTask)) :=
  [calls i [.waitPeriod], .delta, turns (.updateStateProc i), .delta, turns .schedulerProc, .delta,
    turns .schedulerProc, turns (.updateStateProc i), .delta, turns .schedulerProc, .delta]

/-- Both first jobs one after the other, and the second job of the faster task. -/
def lightRun : List (RtosLabel (LightTask)) :=
  [turns .schedulerProc, turns .genTickTimerEvent, turns (.genReleaseEvent .slow),
      turns (.genReleaseEvent .fast)] ++
    dispatched .fast ++ [calls .fast [.consume 2], .delta, .advance 2] ++ jobEnds .fast ++
    [turns (.updateStateProc .slow), calls .slow [.consume 4], .delta, .advance 6] ++
    jobEnds .slow ++
    [turns (.updateStateProc .fast), .delta, .advance 8, turns (.genReleaseEvent .fast), .delta,
      calls .fast [.consume 2], .delta, turns (.updateStateProc .fast), .delta, .advance 10]

def lightSlots : List (Slot (LightTask)) :=
  List.replicate 2 ⟨some .fast, [.slow, .fast]⟩ ++ List.replicate 4 ⟨some .slow, [.slow]⟩ ++
    List.replicate 2 ⟨none, []⟩ ++ List.replicate 2 ⟨some .fast, [.fast]⟩

/-- Nothing is carried over at some instant after `r` and up to `x`. -/
def overBetween (slots : List (Slot ι)) (i : ι) (r x : ℕ) : Bool :=
  (List.range (x + 1)).any fun t => decide (r < t ∧ ¬ (schedule slots).carried i t)

theorem lightSlots_declared (i : LightTask) :
    AsDeclared StaticAnalyses.lightTasks lightSlots i := by
  have bounded : ∀ i ∈ lightTaskSet.tasksAssigned, ∀ a ≤ 9, ∀ n ≤ 9, a + n ≤ 9 →
      ¬ (schedule lightSlots).carried i a → (schedule lightSlots).held i a (a + n) ≤
        (StaticAnalyses.lightTasks i).wcet * (n ⌈/⌉ (StaticAnalyses.lightTasks i).period) := by
    decide +kernel
  have finishes : ∀ i ∈ lightTaskSet.tasksAssigned, ∀ x ≤ 9, ∀ r ≤ 9,
      ¬ (schedule lightSlots).carried i r →
      (StaticAnalyses.lightTasks i).wcet ≤ (schedule lightSlots).held i r x →
      overBetween lightSlots i r x = true := by
    decide +kernel
  have wcet_pos : 0 < (StaticAnalyses.lightTasks i).wcet := by cases i <;> decide
  refine ⟨⟨id, fun a n within clear => ?_⟩, fun r x within clear work => ?_⟩
  · have within : a + n ≤ 9 := within
    exact bounded i (lightTaskSet.complete i) a (by omega) n (by omega) within clear
  · have before : r ≤ x := by
      by_contra after
      have empty : (schedule lightSlots).held i r x = 0 := by
        rw [Schedule.held, Schedule.heldIn, Finset.Ico_eq_empty (by omega)]
        rfl
      omega
    obtain ⟨t, listed, found⟩ :=
      List.any_eq_true.mp (finishes i (lightTaskSet.complete i) x within r (before.trans within)
        clear work)
    obtain ⟨later, done⟩ := of_decide_eq_true found
    exact ⟨t, later, Nat.lt_succ_iff.mp (List.mem_range.mp listed), done⟩

theorem lightRun_responds :
    ∃ c, run (recordedStep lightTaskSet) (simulationStart lightSettings, []) lightRun =
        some (c, lightSlots) ∧ (schedule lightSlots).Responds 9 6 LightTask.slow := by
  have along : Along (rtosSystem lightTaskSet).step (Orderly lightTaskSet)
      (simulationStart lightSettings) lightRun := by decide +kernel
  have recorded : (run (recordedStep lightTaskSet) (simulationStart lightSettings, []) lightRun).map
      Prod.snd = some lightSlots := by decide +kernel
  obtain ⟨⟨c, slots⟩, reach, same⟩ := Option.map_eq_some_iff.mp recorded
  obtain rfl : slots = lightSlots := same
  have response : LoadAnalysis.TimeDemand.IsResponseTime
      ((loadUnits (fun _ => "light") StaticAnalyses.lightTasks [.fast, .slow] (by decide)).higher 1)
      (loadUnit (fun _ => "light") StaticAnalyses.lightTasks [.fast, .slow] .slow).2 6 :=
    LoadAnalysis.TimeDemand.isResponseTime_of_guess (by decide) (by decide) (by decide +kernel)
  exact ⟨c, reach, responds_of_responseTime rfl rfl rfl along reach
    (fun j _ => lightSlots_declared j) (fun _ => "light") (by decide) response⟩

theorem lightRun_in_time :
    ∃ c, run (recordedStep lightTaskSet) (simulationStart lightSettings, []) lightRun =
        some (c, lightSlots) ∧ (schedule lightSlots).Responds 9 8 LightTask.fast := by
  have along : Along (rtosSystem lightTaskSet).step (Orderly lightTaskSet)
      (simulationStart lightSettings) lightRun := by decide +kernel
  have recorded : (run (recordedStep lightTaskSet) (simulationStart lightSettings, []) lightRun).map
      Prod.snd = some lightSlots := by decide +kernel
  obtain ⟨⟨c, slots⟩, reach, same⟩ := Option.map_eq_some_iff.mp recorded
  obtain rfl : slots = lightSlots := same
  have accepted : StaticAnalyses.Accepted (StaticAnalyses.enableSchedStaticAnalysis
      StaticAnalyses.powAtHalf StaticAnalyses.commonOnly) StaticAnalyses.rateMonotonicType
      StaticAnalyses.lightTasks lightTaskSet.tasksAssigned :=
    ⟨[.passed, .passed], by decide +kernel⟩
  have sorted : Containers.Sorting.stableSort (fun t₁ t₂ => PriorityOrder.lessThanByPeriod
      (StaticAnalyses.lightTasks t₁) (StaticAnalyses.lightTasks t₂)) [.slow, .fast] =
      [.fast, .slow] := by decide +kernel
  have elaborated : PriorityOrder.endOfElaboration Containers.Sorting.stableSort .rateMonotonic
      StaticAnalyses.lightTasks lightScheduler =
      .ok (simulationStart lightSettings).store.sched.dispatcher := by
    exact congrArg (fun v => Except.ok { lightScheduler with tasksByPriority := v }) sorted
  have kept : StaticAnalyses.BoundKept StaticAnalyses.powAtHalf StaticAnalyses.lightTasks
      lightTaskSet.tasksAssigned := StaticAnalyses.lightTasks_harmless.bound.reaching
  have responds := fun i => responds_of_accepted (i := i) rfl (by decide) kept accepted
    Containers.Sorting.stableSort_sorts rfl rfl elaborated rfl rfl rfl along reach
    fun j _ => lightSlots_declared j
  exact ⟨c, reach, responds .fast⟩

end Kista.Scheduling.RecordedSchedule
