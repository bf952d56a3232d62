/- Kista/Scheduling/Dispatch
   source: src/src/scheduler.cpp, sched_types.hpp, task_info_t.cpp
   digest: The dispatcher of every policy, and exactly when the earliest-deadline scan
   returns a task of earliest deadline. -/

import Mathlib.Algebra.Order.Floor.Ring
import Mathlib.Data.Rat.Floor
import Mathlib.Tactic.Linarith

set_option autoImplicit false
set_option relaxedAutoImplicit false

/-!
A task is an opaque pointer. `tasksAssigned` lists the assigned tasks in the order of the
name map; a cursor into it is a position, with its length for `end()`.
-/

namespace Kista.Scheduling.Dispatch

inductive TaskState where
  | executing | waitPeriod | waitCommSync
  | ready | inactiveWaitPeriod | inactiveWaitCommSync
  | finished
  deriving DecidableEq, Repr

inductive SchedulerPolicy where
  | staticScheduling | randomScheduling | pseudoRandomScheduling | cycleExecutive
  | staticPriorities | dynamicPriorities | userSchedulerPolicy
  | shortcutRR | shortcutEDF | shortcutRMS | unknownSchedPolicy
  deriving DecidableEq, Repr

inductive DynamicPrioritiesPolicy where
  | earliestDeadlineFirst | userDynamicPriorityPolicy | unknown
  deriving DecidableEq, Repr

/-- What the dispatcher reads from the tasks at the instant it runs. -/
structure Readings (ι : Type) where
  state : ι → TaskState
  timeToNextDeadline : ι → ℕ

/-- The fields of the scheduler that the dispatcher reads and writes. -/
structure Dispatcher (ι : Type) where
  schedulerPolicy : SchedulerPolicy
  dynamicPrioritiesPolicy : DynamicPrioritiesPolicy
  tasksAssigned : List ι
  tasksByPriority : List ι
  staticSchedule : List ι
  itStaticSched : ℕ
  itDynSched : ℕ

inductive Fault where
  | notImplemented
  | unsupportedPolicy
  | undefined
  deriving DecidableEq

variable {ι : Type}

/-- The value left in a pointer is used; `none` is an indeterminate one. -/
def pointer : Option ι → Except Fault ι
  | none => .error .undefined
  | some t => .ok t

/-- `get_time_to_next_deadline` of a task of the given period. -/
def timeToNextDeadline (now period : ℕ) : ℕ := ⌈(now : ℚ) / period⌉₊ * period - now

/-- STATIC_SCHEDULING -/
def dispatchStatic (d : Dispatcher ι) : Except Fault (ι × Dispatcher ι) :=
  match d.staticSchedule[d.itStaticSched]? with
  | none => .error .undefined
  | some t =>
    let next := d.itStaticSched + 1
    .ok (t, { d with itStaticSched := if next = d.staticSchedule.length then 0 else next })

/-- At most one round of the circular cursor; the last task met is the one returned. -/
def cycleScan (r : Readings ι) (tasks : List ι) : ℕ → ℕ → Option ι → Option ι × ℕ
  | 0, it, last => (last, it)
  | n + 1, it, _ =>
    let cur := tasks[it]?
    let next := if it + 1 = tasks.length then 0 else it + 1
    if (cur.map r.state) = some .ready then (cur, next) else cycleScan r tasks n next cur

/-- CYCLE_EXECUTIVE -/
def dispatchCycle (r : Readings ι) (d : Dispatcher ι) : Except Fault (ι × Dispatcher ι) :=
  let (last, it) := cycleScan r d.tasksAssigned d.tasksAssigned.length d.itDynSched none
  (pointer last).map fun t => (t, { d with itDynSched := it })

/-- STATIC_PRIORITIES: the first ready task in priority order, else the first task. -/
def dispatchPriority (r : Readings ι) (d : Dispatcher ι) : Except Fault (ι × Dispatcher ι) :=
  match d.tasksByPriority with
  | [] => .error .undefined
  | first :: rest =>
    .ok (((first :: rest).find? fun t => r.state t = .ready).getD first, d)

/-- The locals of the EDF scan. -/
structure EdfScan (ι : Type) where
  shortest : ℕ
  firstReadyTaskFound : Bool
  ret : Option ι

/-- One turn of the first EDF loop. -/
def edfStep (r : Readings ι) (s : EdfScan ι) (t : ι) : EdfScan ι :=
  if r.state t = .ready then
    if s.firstReadyTaskFound then
      if r.timeToNextDeadline t < s.shortest then { s with ret := some t } else s
    else ⟨r.timeToNextDeadline t, true, some t⟩
  else s

/-- The second EDF loop: the cursor moves on and the task compared is always the first one. -/
def edfFallback (r : Readings ι) (first : ι) (rest : List ι) : ι :=
  rest.foldl
    (fun ret _ =>
      if r.timeToNextDeadline first < r.timeToNextDeadline first then first else ret) first

/-- EARLIEST_DEADLINE_FIRST. The flag `found` is the indeterminate value of the local
`first_ready_task_found`; a time is constructed as zero, a pointer is indeterminate. -/
def dispatchEdf (r : Readings ι) (found : Bool) (d : Dispatcher ι) :
    Except Fault (ι × Dispatcher ι) :=
  match d.tasksAssigned with
  | [] => .error .undefined
  | first :: rest =>
    let scan := (first :: rest).foldl (edfStep r) ⟨0, found, none⟩
    let d := { d with itDynSched := (first :: rest).length }
    if scan.firstReadyTaskFound then (pointer scan.ret).map fun t => (t, d)
    else .ok (edfFallback r first rest, d)

def dispatch (r : Readings ι) (found : Bool) (d : Dispatcher ι) :
    Except Fault (ι × Dispatcher ι) :=
  match d.schedulerPolicy with
  | .staticScheduling => dispatchStatic d
  | .cycleExecutive => dispatchCycle r d
  | .staticPriorities => dispatchPriority r d
  | .randomScheduling | .pseudoRandomScheduling => .error .notImplemented
  | .dynamicPriorities =>
    match d.dynamicPrioritiesPolicy with
    | .earliestDeadlineFirst => dispatchEdf r found d
    | _ => .error .unsupportedPolicy
  | _ => .error .unsupportedPolicy

/-- A task that EDF may return: earliest among the ready ones, or among all if none is. -/
def EarliestDeadline (r : Readings ι) (tasks : List ι) (t : ι) : Prop :=
  t ∈ tasks ∧
    if ∃ x ∈ tasks, r.state x = .ready then
      r.state t = .ready ∧ ∀ x ∈ tasks, r.state x = .ready →
        r.timeToNextDeadline t ≤ r.timeToNextDeadline x
    else ∀ x ∈ tasks, r.timeToNextDeadline t ≤ r.timeToNextDeadline x

/-- The ready tasks in the order in which the scan meets them. -/
def readyTasks (r : Readings ι) (tasks : List ι) : List ι :=
  tasks.filter fun t => r.state t = .ready

/-- The tasks whose deadline comes before an instant. -/
def earlier (r : Readings ι) (bound : ℕ) (tasks : List ι) : List ι :=
  tasks.filter fun t => r.timeToNextDeadline t < bound

theorem readyTasks_cons (r : Readings ι) (t : ι) (tasks : List ι) :
    readyTasks r (t :: tasks) =
      if r.state t = .ready then t :: readyTasks r tasks else readyTasks r tasks := by
  simp [readyTasks, List.filter_cons]

theorem earlier_cons (r : Readings ι) (bound : ℕ) (t : ι) (tasks : List ι) :
    earlier r bound (t :: tasks) =
      if r.timeToNextDeadline t < bound then t :: earlier r bound tasks
      else earlier r bound tasks := by
  simp [earlier, List.filter_cons]

private theorem getLast?_cons_or (t : ι) (l : List ι) (ret : Option ι) :
    (t :: l).getLast?.or ret = l.getLast?.or (some t) := by
  rw [List.getLast?_cons]
  cases l.getLast? <;> rfl

/-- After the first ready task the minimum is never updated: the last of the tasks that beat
the first one wins. -/
private theorem edfScan_found (r : Readings ι) (tasks : List ι) (bound : ℕ) (ret : Option ι) :
    tasks.foldl (edfStep r) ⟨bound, true, ret⟩ =
      ⟨bound, true, (earlier r bound (readyTasks r tasks)).getLast?.or ret⟩ := by
  induction tasks generalizing ret with
  | nil => rfl
  | cons t tasks ih =>
    rw [List.foldl_cons, readyTasks_cons]
    by_cases ready : r.state t = .ready
    · rw [if_pos ready, earlier_cons]
      by_cases early : r.timeToNextDeadline t < bound
      · simp only [edfStep, ready, early, if_true, ih, getLast?_cons_or]
      · simp only [edfStep, ready, early, if_true, if_false, ih]
    · simp only [edfStep, ready, if_false, ih]

private theorem edfScan_fresh (r : Readings ι) (tasks : List ι) :
    tasks.foldl (edfStep r) ⟨0, false, none⟩ =
      match readyTasks r tasks with
      | [] => ⟨0, false, none⟩
      | t :: ts => ⟨r.timeToNextDeadline t, true,
          (earlier r (r.timeToNextDeadline t) ts).getLast?.or (some t)⟩ := by
  induction tasks with
  | nil => rfl
  | cons t tasks ih =>
    rw [List.foldl_cons]
    by_cases ready : r.state t = .ready
    · simp [edfStep, ready, edfScan_found, readyTasks_cons]
    · simp [edfStep, ready, ih, readyTasks_cons]

private theorem edfFallback_eq (r : Readings ι) (first : ι) (rest : List ι) :
    edfFallback r first rest = first := by
  unfold edfFallback
  simp only [lt_irrefl, if_false]
  induction rest with
  | nil => rfl
  | cons _ rest ih => exact ih

/-- With a ready task, the last ready one that beats the first ready one is earliest; with
none, the first assigned task is earliest. -/
def LastBeatsAll (r : Readings ι) (tasks : List ι) : Prop :=
  match readyTasks r tasks with
  | [] => ∀ t ∈ tasks.head?, ∀ x ∈ tasks, r.timeToNextDeadline t ≤ r.timeToNextDeadline x
  | first :: rest =>
    ∀ t ∈ (earlier r (r.timeToNextDeadline first) rest).getLast?,
      ∀ x ∈ rest, r.timeToNextDeadline t ≤ r.timeToNextDeadline x

private theorem mem_readyTasks {r : Readings ι} {tasks : List ι} {x : ι} :
    x ∈ readyTasks r tasks ↔ x ∈ tasks ∧ r.state x = .ready := by
  simp [readyTasks]

private theorem mem_earlier {r : Readings ι} {bound : ℕ} {tasks : List ι} {x : ι} :
    x ∈ earlier r bound tasks ↔ x ∈ tasks ∧ r.timeToNextDeadline x < bound := by
  simp [earlier]

private theorem earliestDeadline_iff_ready {r : Readings ι} {tasks : List ι} {first : ι}
    {rest : List ι} (ready : readyTasks r tasks = first :: rest) (t : ι) :
    EarliestDeadline r tasks t ↔ t ∈ first :: rest ∧
      ∀ x ∈ first :: rest, r.timeToNextDeadline t ≤ r.timeToNextDeadline x := by
  have some : ∃ x ∈ tasks, r.state x = .ready :=
    ⟨first, mem_readyTasks.mp (by rw [ready]; simp)⟩
  rw [EarliestDeadline, if_pos some, ← ready]
  simp only [mem_readyTasks, and_imp]
  tauto

private theorem earliestDeadline_iff_idle {r : Readings ι} {tasks : List ι}
    (idle : readyTasks r tasks = []) (t : ι) :
    EarliestDeadline r tasks t ↔ t ∈ tasks ∧
      ∀ x ∈ tasks, r.timeToNextDeadline t ≤ r.timeToNextDeadline x := by
  have none : ¬ ∃ x ∈ tasks, r.state x = .ready := by
    rintro ⟨x, hx⟩
    have := mem_readyTasks.mpr hx
    simp [idle] at this
  rw [EarliestDeadline, if_neg none]

/-- What the scan returns from a clean flag. -/
private theorem dispatchEdf_false {r : Readings ι} {d : Dispatcher ι} {head : ι} {tail : List ι}
    (tasks : d.tasksAssigned = head :: tail) :
    dispatchEdf r false d =
      .ok ((match readyTasks r d.tasksAssigned with
        | [] => head
        | t :: ts => (earlier r (r.timeToNextDeadline t) ts).getLast?.getD t),
        { d with itDynSched := d.tasksAssigned.length }) := by
  simp only [dispatchEdf, tasks, edfScan_fresh]
  cases readyTasks r (head :: tail) with
  | nil => simp [edfFallback_eq]
  | cons t ts =>
    cases (earlier r (r.timeToNextDeadline t) ts).getLast? <;> simp [pointer, Except.map]

/-- A dirty flag compares with a zero time, so the indeterminate pointer is returned. -/
private theorem dispatchEdf_true (r : Readings ι) (d : Dispatcher ι) :
    dispatchEdf r true d = .error .undefined := by
  rw [dispatchEdf]
  cases d.tasksAssigned with
  | nil => rfl
  | cons head tail =>
    have never : earlier r 0 (readyTasks r (head :: tail)) = [] := by simp [earlier]
    have scan := edfScan_found r (head :: tail) 0 none
    rw [never] at scan
    simp only [scan]
    rfl

theorem earliestDeadline_getLast_iff {r : Readings ι} {tasks : List ι} {first : ι}
    {rest : List ι} (ready : readyTasks r tasks = first :: rest) :
    EarliestDeadline r tasks
        ((earlier r (r.timeToNextDeadline first) rest).getLast?.getD first) ↔
      LastBeatsAll r tasks := by
  rw [earliestDeadline_iff_ready ready]
  simp only [LastBeatsAll, ready]
  cases last : (earlier r (r.timeToNextDeadline first) rest).getLast? with
  | none =>
    have empty := List.getLast?_eq_none_iff.mp last
    simp only [Option.getD_none, List.mem_cons, true_or, true_and, forall_eq_or_imp, le_refl,
      Option.mem_def, reduceCtorEq, false_implies, implies_true, iff_true]
    intro x hx
    by_contra late
    have : x ∈ earlier r (r.timeToNextDeadline first) rest := mem_earlier.mpr ⟨hx, by omega⟩
    simp [empty] at this
  | some t =>
    obtain ⟨ht, early⟩ := mem_earlier.mp (List.mem_of_getLast? last)
    simp only [Option.getD_some, List.mem_cons, forall_eq_or_imp, Option.mem_def,
      Option.some.injEq, forall_eq']
    exact ⟨fun h => h.2.2, fun h => ⟨Or.inr ht, early.le, h⟩⟩

/-- EDF dispatch returns a task of earliest deadline exactly when the flag happens to be clean
and the deadlines come in an order that its frozen minimum survives. -/
theorem dispatch_edf_iff {r : Readings ι} {d : Dispatcher ι} (found : Bool)
    (policy : d.schedulerPolicy = .dynamicPriorities)
    (edf : d.dynamicPrioritiesPolicy = .earliestDeadlineFirst)
    (nonempty : d.tasksAssigned ≠ []) :
    (∃ t d', dispatch r found d = .ok (t, d') ∧ EarliestDeadline r d.tasksAssigned t) ↔
      found = false ∧ LastBeatsAll r d.tasksAssigned := by
  have run : dispatch r found d = dispatchEdf r found d := by
    simp only [dispatch, policy, edf]
  obtain ⟨head, tail, tasks⟩ := List.exists_cons_of_ne_nil nonempty
  rw [run]
  cases found with
  | true => simp [dispatchEdf_true]
  | false =>
    rw [dispatchEdf_false tasks]
    simp only [Except.ok.injEq, Prod.mk.injEq, true_and]
    constructor
    · rintro ⟨t, _, ⟨rfl, -⟩, early⟩
      cases ready : readyTasks r d.tasksAssigned with
      | nil =>
        rw [ready, earliestDeadline_iff_idle ready] at early
        simp only [LastBeatsAll, ready]
        simpa [tasks] using early.2
      | cons first rest =>
        rw [ready] at early
        exact (earliestDeadline_getLast_iff ready).mp early
    · intro condition
      refine ⟨_, _, ⟨rfl, rfl⟩, ?_⟩
      cases ready : readyTasks r d.tasksAssigned with
      | nil =>
        simp only [LastBeatsAll, ready] at condition
        rw [earliestDeadline_iff_idle ready]
        simpa [tasks] using condition
      | cons first rest => exact (earliestDeadline_getLast_iff ready).mpr condition

/-- Three ready tasks of periods six, four and five, one time unit after a common release. -/
def threeReady : Readings (Fin 3) where
  state _ := .ready
  timeToNextDeadline t := timeToNextDeadline 1 ([6, 4, 5].get t)

def edfDispatcher (tasks : List (Fin 3)) : Dispatcher (Fin 3) where
  schedulerPolicy := .dynamicPriorities
  dynamicPrioritiesPolicy := .earliestDeadlineFirst
  tasksAssigned := tasks
  tasksByPriority := tasks
  staticSchedule := []
  itStaticSched := 0
  itDynSched := 0

theorem threeReady_earliest :
    ∃ t d', dispatch threeReady false (edfDispatcher [0, 1]) = .ok (t, d') ∧
      EarliestDeadline threeReady [0, 1] t := by
  refine (dispatch_edf_iff false rfl rfl (by simp [edfDispatcher])).mpr ⟨rfl, ?_⟩
  show ∀ t ∈ (earlier threeReady (threeReady.timeToNextDeadline 0) [1]).getLast?,
    ∀ x ∈ [1], threeReady.timeToNextDeadline t ≤ threeReady.timeToNextDeadline x
  decide +kernel

/-- With deadlines five, three and four away, the scan settles on the last of them. -/
theorem threeReady_late :
    dispatch threeReady false (edfDispatcher [0, 1, 2])
        = .ok (2, { edfDispatcher [0, 1, 2] with itDynSched := 3 }) ∧
      ¬ EarliestDeadline threeReady [0, 1, 2] 2 := by
  constructor
  · have last : (earlier threeReady (threeReady.timeToNextDeadline 0) [1, 2]).getLast?
        = some 2 := by decide +kernel
    show dispatchEdf threeReady false (edfDispatcher [0, 1, 2]) = _
    rw [dispatchEdf_false rfl]
    exact congrArg (fun t => Except.ok (Option.getD t (0 : Fin 3),
      { edfDispatcher [0, 1, 2] with itDynSched := 3 })) last
  · rintro ⟨-, h⟩
    rw [if_pos ⟨0, by simp, rfl⟩] at h
    exact absurd (h.2 1 (by simp) rfl) (by decide +kernel)

end Kista.Scheduling.Dispatch
