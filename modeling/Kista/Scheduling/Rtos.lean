/- Kista/Scheduling/Rtos
   source: src/src/scheduler.cpp, task_info_t.cpp, user_task_constructs.cpp
   digest: A scheduler with its assigned tasks: the scheduler process, the tick timer, and for
   each task its release generator, its state machine and the thread of its functionality. -/

import Kista.Scheduling.Constructs

set_option autoImplicit false
set_option relaxedAutoImplicit false

/-!
The functionality of a task is any program over the constructs: each time its thread goes on,
the environment chooses the calls it makes up to its next wait or its end.
-/

namespace Kista.Scheduling.Rtos

open Kernel.Delta
open Dispatch (TaskState SchedulerPolicy DynamicPrioritiesPolicy Dispatcher Readings dispatch
  timeToNextDeadline)
open SystemTask Constructs

inductive SchedState where
  | scheduling | innactive
  deriving DecidableEq, Repr

/-- The assigned tasks, in the order of the map from names to tasks. -/
structure TaskSet (ι : Type) where
  tasksAssigned : List ι
  nodup : tasksAssigned.Nodup
  complete : ∀ i, i ∈ tasksAssigned

/-- What is settled before the simulation starts. -/
structure Settings {ι : Type} (tasks : TaskSet ι) where
  schedulerPolicy : SchedulerPolicy
  dynamicPrioritiesPolicy : DynamicPrioritiesPolicy
  schedulerTriggeringPolicy : TriggeringPolicy
  staticSchedule : List ι
  tasksByPriority : List ι
  /-- `end_of_elaboration` sorts the assigned tasks, unless the schedule is a static one. -/
  prioritized : schedulerPolicy ≠ .staticScheduling →
    tasksByPriority.Perm tasks.tasksAssigned
  tSlicingFlag : Bool
  tickTimerDelay : ℕ
  schedulingTimesEnabled : Bool
  hasSchedulingTimeCalculator : Bool
  schedulingTime : ℕ
  isPeriodic : ι → Bool
  period : ι → ℕ
  deadline : ι → ℕ

structure Scheduler (ι : Type) where
  dispatcher : Dispatcher ι
  schedulerTriggeringPolicy : TriggeringPolicy
  tSlicingFlag : Bool
  tickTimerDelay : ℕ
  schedulingTimesEnabled : Bool
  hasSchedulingTimeCalculator : Bool
  schedulingTime : ℕ
  schedCompTime : ℕ
  nSchedulings : ℕ
  nContextChanges : ℕ
  pastTaskInfo : Option ι
  stateSignal : Signal SchedState
  consumptionSignal : Signal Bool

structure RtosStore (ι : Type) where
  sched : Scheduler ι
  info : ι → TaskInfo

inductive RtosProc (ι : Type) where
  | schedulerProc
  | genTickTimerEvent
  | genReleaseEvent (i : ι)
  | updateStateProc (i : ι)
  | thread (i : ι)
  deriving DecidableEq, Repr

inductive RtosPoint (ι : Type) where
  | schedStart
  | firstWait
  | secondWait
  | scheduled
  | running (i : ι)
  | tick
  | tickEnd
  | genStart
  | generate
  | turn
  | inside (p : TaskPoint)
  deriving DecidableEq, Repr

/-- What the environment settles for one evaluation: the indeterminate flag of the dispatcher,
the value of the scheduling time calculator, and the calls that a thread makes. -/
structure RtosChoice where
  firstReadyTaskFound : Bool
  calculated : ℕ
  calls : List Construct

abbrev RtosSegment (ι : Type) := Segment (Event ι) (RtosPoint ι) (RtosStore ι)

abbrev RtosConfig (ι : Type) := Config (RtosProc ι) (Event ι) (RtosPoint ι) (RtosStore ι)

abbrev RtosLabel (ι : Type) := Label (RtosProc ι) RtosChoice

variable {ι : Type}

def mode (s : Scheduler ι) : Mode := ⟨s.dispatcher.schedulerPolicy, s.schedulerTriggeringPolicy⟩

/-- `scheduler_event_trigger_list` -/
def triggers (s : Scheduler ι) : List (Event ι) :=
  if s.dispatcher.schedulerPolicy = .staticScheduling then [.yieldEvent]
  else
    match s.schedulerTriggeringPolicy with
    | .preemptive => [.yieldEvent, .completionEvent, .tickTimerEvent,
        .runningTaskToWaitStateEvent, .innactiveTaskEndsWaitEvent]
    | .cooperative => [.yieldEvent, .completionEvent]
    | _ => [.completionEvent]

def readings (store : RtosStore ι) (now : ℕ) : Readings ι where
  state i := (store.info i).stateSignal.read
  timeToNextDeadline i := timeToNextDeadline now (store.info i).period

/-- Writes the `active_signal` of a task. -/
def setActive [DecidableEq ι] (store : RtosStore ι) (i : ι) (active : Bool) : RtosStore ι :=
  { store with
    info := Function.update store.info i
      { store.info i with activeSignal := (store.info i).activeSignal.write active } }

/-- Writes the `state_signal` of a task. -/
def setState [DecidableEq ι] (store : RtosStore ι) (i : ι) (state : TaskState) : RtosStore ι :=
  { store with
    info := Function.update store.info i
      { store.info i with stateSignal := (store.info i).stateSignal.write state } }

/-- The scheduling time, calculated anew if there is a calculator. -/
def nextSchedulingTime (choice : RtosChoice) (s : Scheduler ι) : ℕ :=
  if s.hasSchedulingTimeCalculator then choice.calculated else s.schedulingTime

/-- The head of the loop of `scheduler_proc`, up to its wait. The limit of the simulation time
only ends a run. -/
def beginScheduling (choice : RtosChoice) (now : ℕ) (store : RtosStore ι) :
    Option (RtosSegment ι) :=
  let s := { store.sched with
    stateSignal := store.sched.stateSignal.write .scheduling
    consumptionSignal := store.sched.consumptionSignal.write true }
  if s.schedulingTimesEnabled then
    let time := nextSchedulingTime choice s
    if s.tSlicingFlag && decide (s.tickTimerDelay < time) then none
    else
      some ⟨{ store with sched := { s with schedulingTime := time } }, [],
        .blocked [] (some (now + time)) .scheduled⟩
  else some ⟨{ store with sched := s }, [], .blocked [] (some now) .firstWait⟩

/-- The tail of the loop, from the dispatching to the wait for a trigger. -/
def endScheduling [DecidableEq ι] (choice : RtosChoice) (now : ℕ) (store : RtosStore ι) :
    Option (RtosSegment ι) :=
  match dispatch (readings store now) choice.firstReadyTaskFound store.sched.dispatcher with
  | .error _ => none
  | .ok (i, dispatcher) =>
    let s := store.sched
    let changes := s.pastTaskInfo.isSome && decide (s.pastTaskInfo ≠ some i)
    let s := { s with
      dispatcher := dispatcher
      nContextChanges := if changes then s.nContextChanges + 1 else s.nContextChanges
      pastTaskInfo := some i
      nSchedulings := s.nSchedulings + 1
      stateSignal := s.stateSignal.write .innactive
      consumptionSignal := s.consumptionSignal.write false }
    some ⟨setActive { store with sched := s } i true, [],
      .blocked (triggers store.sched) none (.running i)⟩

def schedulerProc [DecidableEq ι] (choice : RtosChoice) (now : ℕ) (store : RtosStore ι) :
    RtosPoint ι → Option (RtosSegment ι)
  | .schedStart =>
    if store.sched.dispatcher.tasksAssigned = [] then
      some ⟨store, [], .blocked [] none .schedStart⟩
    else beginScheduling choice now store
  | .firstWait => some ⟨store, [], .blocked [] (some now) .secondWait⟩
  | .secondWait => endScheduling choice now store
  | .scheduled =>
    endScheduling choice now { store with
      sched := { store.sched with
        schedCompTime := store.sched.schedCompTime + store.sched.schedulingTime } }
  | .running i => beginScheduling choice now (setActive store i false)
  | _ => none

/-- `gen_tick_timer_event`: the first tick comes with the start. -/
def genTickTimerEvent (now : ℕ) (store : RtosStore ι) : RtosSegment ι :=
  if store.sched.tSlicingFlag then
    ⟨store, [.tickTimerEvent], .blocked [] (some (now + store.sched.tickTimerDelay)) .tick⟩
  else ⟨store, [], .blocked [] none .tickEnd⟩

/-- `gen_release_event`: the first release is notified after one period. -/
def genReleaseEvent (i : ι) (now : ℕ) (store : RtosStore ι) (notified : List (Event ι)) :
    RtosSegment ι :=
  if (store.info i).isPeriodic then
    ⟨store, notified, .blocked [] (some (now + (store.info i).period)) .generate⟩
  else ⟨store, [], .blocked [] none .generate⟩

/-- One turn of the state machine of a task. -/
def turnState [DecidableEq ι] (i : ι) (store : RtosStore ι) : Option (RtosSegment ι) :=
  (updateStateProc (store.info i)).map fun turn =>
    ⟨setState store i turn.state, turn.notified, .blocked (turn.waits.map (.task i)) none .turn⟩

/-- The calls of a task up to its next wait or the end of its functionality. -/
def functionality (m : Mode) (i : ι) (now : ℕ) : List Construct → TaskInfo → Progress ι
  | [], t => .waits t [] (.blocked [] none .ended)
  | call' :: calls, t => (call m i now t call').andThen (functionality m i now calls)

def thread [DecidableEq ι] (i : ι) (p : TaskPoint) (choice : RtosChoice) (now : ℕ)
    (store : RtosStore ι) : Option (RtosSegment ι) :=
  match (resume i now (store.info i) p).andThen
      (functionality (mode store.sched) i now choice.calls) with
  | .waits t notified status =>
    some ⟨{ store with info := Function.update store.info i t }, notified, status.map .inside⟩
  | _ => none

def exec [DecidableEq ι] : RtosProc ι → RtosPoint ι → RtosChoice → ℕ → RtosStore ι →
    Option (RtosSegment ι)
  | .schedulerProc, r, choice, now, store => schedulerProc choice now store r
  | .genTickTimerEvent, .tick, _, now, store => some (genTickTimerEvent now store)
  | .genReleaseEvent i, .genStart, _, now, store => some (genReleaseEvent i now store [])
  | .genReleaseEvent i, .generate, _, now, store =>
    some (genReleaseEvent i now store [.task i .taskRelease])
  | .updateStateProc i, .turn, _, _, store => turnState i store
  | .thread i, .inside p, choice, now, store => thread i p choice now store
  | _, _, _, _, _ => none

def procs (tasks : TaskSet ι) : List (RtosProc ι) :=
  .schedulerProc :: .genTickTimerEvent :: tasks.tasksAssigned.flatMap fun i =>
    [.genReleaseEvent i, .updateStateProc i, .thread i]

theorem mem_procs (tasks : TaskSet ι) (p : RtosProc ι) : p ∈ procs tasks := by
  cases p with
  | schedulerProc => simp [procs]
  | genTickTimerEvent => simp [procs]
  | genReleaseEvent i => simp [procs, tasks.complete i]
  | updateStateProc i => simp [procs, tasks.complete i]
  | thread i => simp [procs, tasks.complete i]

def rtosSystem [DecidableEq ι] (tasks : TaskSet ι) :
    System (RtosProc ι) (Event ι) (RtosPoint ι) (RtosStore ι) RtosChoice where
  procs := procs tasks
  complete := mem_procs tasks
  exec := exec
  update store :=
    { sched := { store.sched with
        stateSignal := store.sched.stateSignal.update
        consumptionSignal := store.sched.consumptionSignal.update }
      info := fun i => update (store.info i) }
  edge store
    | .task i e => edge (store.info i) e
    | _ => false
  dirty store :=
    store.sched.stateSignal.dirty || store.sched.consumptionSignal.dirty ||
      tasks.tasksAssigned.any fun i => dirty (store.info i)

def simulationStart {tasks : TaskSet ι} (settings : Settings tasks) : RtosConfig ι where
  store :=
    { sched :=
        { dispatcher :=
            { schedulerPolicy := settings.schedulerPolicy
              dynamicPrioritiesPolicy := settings.dynamicPrioritiesPolicy
              tasksAssigned := tasks.tasksAssigned
              tasksByPriority := settings.tasksByPriority
              staticSchedule := settings.staticSchedule
              itStaticSched := 0
              itDynSched := 0 }
          schedulerTriggeringPolicy := settings.schedulerTriggeringPolicy
          tSlicingFlag := settings.tSlicingFlag
          tickTimerDelay := settings.tickTimerDelay
          schedulingTimesEnabled := settings.schedulingTimesEnabled
          hasSchedulingTimeCalculator := settings.hasSchedulingTimeCalculator
          schedulingTime := settings.schedulingTime
          schedCompTime := 0
          nSchedulings := 0
          nContextChanges := 0
          pastTaskInfo := none
          stateSignal := .init .innactive
          consumptionSignal := .init false }
      info := fun i => endOfElaboration
        { init with
          isPeriodic := settings.isPeriodic i
          period := settings.period i
          deadline := settings.deadline i } }
  status
    | .schedulerProc => .ready .schedStart
    | .genTickTimerEvent => .ready .tick
    | .genReleaseEvent _ => .ready .genStart
    | .updateStateProc i => .blocked [.task i .activePosedge] none .turn
    | .thread i => .blocked [.task i .activePosedge] none (.inside .start)
  pending := []
  now := 0

theorem start_signals {tasks : TaskSet ι} (settings : Settings tasks) (i : ι) :
    ((simulationStart settings).store.info i).activeSignal = .init false ∧
      ((simulationStart settings).store.info i).consumptionSignal = .init false ∧
      ((simulationStart settings).store.info i).waitingPeriodSignal = .init false ∧
      ((simulationStart settings).store.info i).waitingCommSyncSignal = .init false ∧
      ((simulationStart settings).store.info i).stateSignal = .init .ready := by
  simp only [simulationStart, endOfElaboration]
  split <;> exact ⟨rfl, rfl, rfl, rfl, rfl⟩

/-- An evaluation for which the environment has nothing to settle. -/
def turns (p : RtosProc ι) : RtosLabel ι := .eval p ⟨false, 0, []⟩

/-- The thread of a task goes on with some calls. -/
def calls (i : ι) (constructs : List Construct) : RtosLabel ι :=
  .eval (.thread i) ⟨false, 0, constructs⟩

section Turns

variable {store : RtosStore ι} {choice : RtosChoice} {now : ℕ} {seg : RtosSegment ι}

/-- The scheduler begins to compute. -/
structure Begins (store : RtosStore ι) (now : ℕ) (seg : RtosSegment ι) : Prop where
  info : seg.store.info = store.info
  notified : seg.notified = []
  state : seg.store.sched.stateSignal = store.sched.stateSignal.write .scheduling
  compTime : seg.store.sched.schedCompTime = store.sched.schedCompTime
  dispatcher : seg.store.sched.dispatcher = store.sched.dispatcher
  policy : seg.store.sched.schedulerTriggeringPolicy = store.sched.schedulerTriggeringPolicy
  enabled : seg.store.sched.schedulingTimesEnabled = store.sched.schedulingTimesEnabled
  waits : store.sched.schedulingTimesEnabled = false ∧
      seg.status = .blocked [] (some now) .firstWait ∨
    store.sched.schedulingTimesEnabled = true ∧
      seg.status = .blocked [] (some (now + seg.store.sched.schedulingTime)) .scheduled

theorem beginScheduling_begins (ran : beginScheduling choice now store = some seg) :
    Begins store now seg := by
  unfold beginScheduling at ran
  dsimp only at ran
  split at ran
  next enabled =>
    split at ran
    · cases ran
    · obtain rfl : _ = seg := Option.some.inj ran
      exact ⟨rfl, rfl, rfl, rfl, rfl, rfl, rfl, Or.inr ⟨enabled, rfl⟩⟩
  next disabled =>
    obtain rfl : _ = seg := Option.some.inj ran
    exact ⟨rfl, rfl, rfl, rfl, rfl, rfl, rfl, Or.inl ⟨Bool.eq_false_iff.mpr disabled, rfl⟩⟩

theorem genTickTimerEvent_store : (genTickTimerEvent now store).store = store := by
  unfold genTickTimerEvent
  split <;> rfl

theorem genTickTimerEvent_notified :
    ∀ e ∈ (genTickTimerEvent now store).notified, e = .tickTimerEvent := by
  unfold genTickTimerEvent
  split <;> simp

theorem genReleaseEvent_store (i : ι) (notified : List (Event ι)) :
    (genReleaseEvent i now store notified).store = store := by
  unfold genReleaseEvent
  split <;> rfl

theorem genReleaseEvent_notified (i : ι) (notified : List (Event ι)) :
    ∀ e ∈ (genReleaseEvent i now store notified).notified, e ∈ notified := by
  unfold genReleaseEvent
  split <;> simp

theorem functionality_meets {m : Mode} {i : ι} {returns : TaskInfo → Prop}
    {halts : TaskInfo → Status (Event ι) TaskPoint → Prop} {notes : Event ι → Prop}
    (each : ∀ t c, returns t → (call m i now t c).Meets returns halts notes)
    (ends : ∀ t, returns t → halts t (.blocked [] none .ended)) (calls : List Construct)
    (t : TaskInfo) (h : returns t) :
    (functionality m i now calls t).Meets returns halts notes := by
  induction calls generalizing t with
  | nil => exact ⟨ends t h, by simp⟩
  | cons c calls ih => exact (each t c h).andThen ih

variable [DecidableEq ι]

@[simp] theorem setActive_self (i : ι) (active : Bool) :
    (setActive store i active).info i =
      { store.info i with activeSignal := (store.info i).activeSignal.write active } :=
  Function.update_self ..

theorem setActive_of_ne {i j : ι} (active : Bool) (other : j ≠ i) :
    (setActive store i active).info j = store.info j :=
  Function.update_of_ne other ..

theorem setActive_next (i j : ι) (active : Bool) :
    ((setActive store i active).info j).activeSignal.next =
      if j = i then active else (store.info j).activeSignal.next := by
  by_cases same : j = i
  · rw [same, if_pos rfl, setActive_self]
    rfl
  · rw [if_neg same, setActive_of_ne active same]

@[simp] theorem setState_sched (i : ι) (state : TaskState) :
    (setState store i state).sched = store.sched := rfl

@[simp] theorem setState_self (i : ι) (state : TaskState) :
    (setState store i state).info i =
      { store.info i with stateSignal := (store.info i).stateSignal.write state } :=
  Function.update_self ..

theorem setState_of_ne {i j : ι} (state : TaskState) (other : j ≠ i) :
    (setState store i state).info j = store.info j :=
  Function.update_of_ne other ..

@[simp] theorem setState_active (i j : ι) (state : TaskState) :
    ((setState store i state).info j).activeSignal = (store.info j).activeSignal := by
  by_cases same : j = i
  · rw [same, setState_self]
  · rw [setState_of_ne state same]

/-- The scheduler grants the processor to a task. -/
structure Ends (store : RtosStore ι) (choice : RtosChoice) (now : ℕ) (i : ι)
    (seg : RtosSegment ι) : Prop where
  dispatched : dispatch (readings store now) choice.firstReadyTaskFound store.sched.dispatcher =
    .ok (i, seg.store.sched.dispatcher)
  info : seg.store.info = (setActive store i true).info
  notified : seg.notified = []
  state : seg.store.sched.stateSignal = store.sched.stateSignal.write .innactive
  compTime : seg.store.sched.schedCompTime = store.sched.schedCompTime
  policy : seg.store.sched.schedulerTriggeringPolicy = store.sched.schedulerTriggeringPolicy
  enabled : seg.store.sched.schedulingTimesEnabled = store.sched.schedulingTimesEnabled
  waits : seg.status = .blocked (triggers store.sched) none (.running i)

theorem endScheduling_ends (ran : endScheduling choice now store = some seg) :
    ∃ i, Ends store choice now i seg := by
  unfold endScheduling at ran
  split at ran
  · cases ran
  next i dispatcher dispatched =>
    obtain rfl : _ = seg := Option.some.inj ran
    exact ⟨i, dispatched, rfl, rfl, rfl, rfl, rfl, rfl, rfl⟩

/-- A thread runs up to a wait of which what its program keeps is known. -/
theorem thread_meets {i : ι} {p : TaskPoint} {returns : TaskInfo → Prop}
    {halts : TaskInfo → Status (Event ι) TaskPoint → Prop} {notes : Event ι → Prop}
    (resumes : (resume i now (store.info i) p).Meets returns halts notes)
    (each : ∀ t c, returns t → (call (mode store.sched) i now t c).Meets returns halts notes)
    (ends : ∀ t, returns t → halts t (.blocked [] none .ended))
    (ran : thread i p choice now store = some seg) :
    ∃ t status, halts t status ∧
      seg.store = { store with info := Function.update store.info i t } ∧
      seg.status = status.map .inside ∧ ∀ e ∈ seg.notified, notes e := by
  have meets := resumes.andThen (functionality_meets each ends choice.calls)
  unfold thread at ran
  split at ran
  next t notified status progress =>
    rw [progress] at meets
    obtain rfl : _ = seg := Option.some.inj ran
    exact ⟨t, status, meets.1, rfl, rfl, meets.2⟩
  · cases ran

theorem thread_frames {i : ι} {p : TaskPoint} (ran : thread i p choice now store = some seg) :
    ∃ t, Frame (store.info i) t ∧
      seg.store = { store with info := Function.update store.info i t } ∧
      ∀ e ∈ seg.notified, Noted i e := by
  obtain ⟨t, status, frame, stored, -, noted⟩ :=
    thread_meets (resume_frames i now (store.info i) p)
      (fun t c frame => (call_frames _ i now t c).mono (fun t' => frame.trans)
        fun t' _ => frame.trans) (fun _ frame => frame) ran
  exact ⟨t, frame, stored, noted⟩

/-- Between two waits a process changes the signals that the scheduler and the state machines write,
and otherwise only what the thread of a task does. -/
theorem exec_keeps {γ : Type} {f : TaskInfo → γ}
    (active : ∀ t b, f { t with activeSignal := t.activeSignal.write b } = f t)
    (state : ∀ t s, f { t with stateSignal := t.stateSignal.write s } = f t)
    (thread' : ∀ i p, thread i p choice now store = some seg →
      ∀ j, f (seg.store.info j) = f (store.info j))
    {p : RtosProc ι} {r : RtosPoint ι} (ran : exec p r choice now store = some seg) (j : ι) :
    f (seg.store.info j) = f (store.info j) := by
  have grants : ∀ store' : RtosStore ι, ∀ i b,
      f ((setActive store' i b).info j) = f (store'.info j) := by
    intro store' i b
    by_cases own : j = i
    · rw [own, setActive_self, active]
    · rw [setActive_of_ne b own]
  have begins : ∀ store', beginScheduling choice now store' = some seg →
      f (seg.store.info j) = f (store'.info j) := by
    intro store' ran
    rw [(beginScheduling_begins ran).info]
  have ends : ∀ store', endScheduling choice now store' = some seg →
      f (seg.store.info j) = f (store'.info j) := by
    intro store' ran
    obtain ⟨i, ends⟩ := endScheduling_ends ran
    rw [ends.info]
    exact grants store' i true
  cases p with
  | schedulerProc =>
    cases r with
    | schedStart =>
      simp only [exec, schedulerProc] at ran
      split at ran
      · obtain rfl : _ = seg := Option.some.inj ran
        rfl
      · exact begins store ran
    | firstWait =>
      obtain rfl : _ = seg := Option.some.inj ran
      rfl
    | secondWait => exact ends store ran
    | scheduled => exact ends ⟨{ store.sched with
        schedCompTime := store.sched.schedCompTime + store.sched.schedulingTime }, store.info⟩ ran
    | running i => exact (begins _ ran).trans (grants store i false)
    | _ => cases ran
  | genTickTimerEvent =>
    cases r with
    | tick =>
      obtain rfl : _ = seg := Option.some.inj ran
      rw [genTickTimerEvent_store]
    | _ => cases ran
  | genReleaseEvent i =>
    cases r with
    | genStart =>
      obtain rfl : _ = seg := Option.some.inj ran
      rw [genReleaseEvent_store]
    | generate =>
      obtain rfl : _ = seg := Option.some.inj ran
      rw [genReleaseEvent_store]
    | _ => cases ran
  | updateStateProc i =>
    cases r with
    | turn =>
      obtain ⟨turn, -, rfl⟩ := Option.map_eq_some_iff.mp ran
      by_cases own : j = i
      · rw [own, setState_self, state]
      · rw [setState_of_ne _ own]
    | _ => cases ran
  | thread i =>
    cases r with
    | inside p => exact thread' i p ran j
    | _ => cases ran

end Turns

end Kista.Scheduling.Rtos
