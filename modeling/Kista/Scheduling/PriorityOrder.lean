/- Kista/Scheduling/PriorityOrder
   source: src/src/scheduler.cpp, task_info_t.cpp, sched_types.hpp
   digest: The vector of tasks by priority that elaboration builds, what the fixed-priority
   dispatch makes of it, and exactly when the elaboration of the tasks leaves it in order. -/

import Mathlib.Tactic.Linarith
import Kista.Containers.Sorting
import Kista.Scheduling.Dispatch

set_option autoImplicit false
set_option relaxedAutoImplicit false

/-!
The kernel calls the end of elaboration of every module once. A task computes its execution time
from its instructions in its own call, a scheduler sorts its tasks in another one, and the order of
these calls follows from the order in which the modules are constructed.
-/

namespace Kista.Scheduling.PriorityOrder

open Dispatch Kista.Containers.Sorting Kista.Containers.OrderedMap

inductive StaticPrioritiesPolicy where
  | userPriorities | deadlineMonotonic | rateMonotonic | densityMonotonic
  | userAutomaticStaticPriorities | unknownPriorityBasedSchedPolicy
  deriving DecidableEq, Repr

/-- The fields of a task that its priority can depend on. -/
structure TaskInfo where
  priority : ℕ
  period : ℕ
  deadline : ℕ
  wcet : ℕ
  wcetSet : Bool
  wcei : ℕ
  wceiSet : Bool

inductive ElaborationError (ι : Type) where
  | priorityZero (tasks : List ι)
  | noDeadline
  | unknownPolicy

namespace TaskInfo

def deadlineSettled (t : TaskInfo) : Bool := decide (0 < t.deadline)

def density (t : TaskInfo) : ℚ := t.wcet / t.deadline

/-- An execution time that was not set follows from the instructions that were. -/
def endOfElaboration (executionTime : ℕ → ℕ) (t : TaskInfo) : TaskInfo :=
  if !t.wcetSet && t.wceiSet then { t with wcet := executionTime t.wcei } else t

end TaskInfo

def lessThanByUserPriority (p₁ p₂ : TaskInfo) : Bool := decide (p₁.priority < p₂.priority)

def lessThanByPeriod (p₁ p₂ : TaskInfo) : Bool := decide (p₁.period < p₂.period)

def lessThanByDeadline (p₁ p₂ : TaskInfo) : Bool := decide (p₁.deadline < p₂.deadline)

/-- The denser task comes first. -/
def lessThanByDensity (p₁ p₂ : TaskInfo) : Bool := decide (p₁.density > p₂.density)

def lessThanBy : StaticPrioritiesPolicy → Option (TaskInfo → TaskInfo → Bool)
  | .userPriorities => some lessThanByUserPriority
  | .rateMonotonic => some lessThanByPeriod
  | .deadlineMonotonic => some lessThanByDeadline
  | .densityMonotonic => some lessThanByDensity
  | _ => none

variable {ι : Type}

abbrev StdSort (ι : Type) := (ι → ι → Bool) → List ι → List ι

/-- Priority 0 is reserved. -/
def checkPriorities (info : ι → TaskInfo) (tasks : List ι) : Except (ElaborationError ι) Unit :=
  match tasks.filter fun t => (info t).priority = 0 with
  | [] => .ok ()
  | invalid => .error (.priorityZero invalid)

/-- One insertion in front of the iterator, which then moves behind the new element. -/
def insertTask (v : List ι × ℕ) (t : ι) : List ι × ℕ := (v.1.insertIdx v.2 t, v.2 + 1)

/-- Sorting more than one task by density asks each of them for its deadline. -/
def sortTasks (sort : StdSort ι) (policy : StaticPrioritiesPolicy) (info : ι → TaskInfo)
    (tasks : List ι) : Except (ElaborationError ι) (List ι) :=
  match lessThanBy policy with
  | none => .error .unknownPolicy
  | some less =>
    if policy = .densityMonotonic ∧ 2 ≤ tasks.length ∧
        ∃ t ∈ tasks, (info t).deadlineSettled = false then .error .noDeadline
    else .ok (sort (fun t₁ t₂ => less (info t₁) (info t₂)) tasks)

/-- What `end_of_elaboration` prepares for assigned tasks of any policy but the static schedule. -/
def endOfElaboration (sort : StdSort ι) (policy : StaticPrioritiesPolicy) (info : ι → TaskInfo)
    (d : Dispatcher ι) : Except (ElaborationError ι) (Dispatcher ι) := do
  if d.schedulerPolicy = .staticPriorities ∨ d.schedulerPolicy = .dynamicPriorities then
    checkPriorities info d.tasksAssigned
  let inserted := (d.tasksAssigned.foldl insertTask (d.tasksByPriority, 0)).1
  let sorted ← sortTasks sort policy info inserted
  return { d with tasksByPriority := sorted, itDynSched := 0 }

/-- The calls for a list of tasks. -/
def elaborateTasks [DecidableEq ι] (executionTime : ℕ → ℕ) (tasks : List ι)
    (info : ι → TaskInfo) : ι → TaskInfo :=
  tasks.foldl
    (fun info t => Function.update info t ((info t).endOfElaboration executionTime)) info

/-- The key of the first task is as good as that of the second. -/
def NoWorse : StaticPrioritiesPolicy → TaskInfo → TaskInfo → Prop
  | .userPriorities, t₁, t₂ => t₁.priority ≤ t₂.priority
  | .rateMonotonic, t₁, t₂ => t₁.period ≤ t₂.period
  | .deadlineMonotonic, t₁, t₂ => t₁.deadline ≤ t₂.deadline
  | .densityMonotonic, t₁, t₂ => t₂.density ≤ t₁.density
  | _, _, _ => True

/-- A task of best key among the ready ones, or among all if none is. -/
def HighestPriority (r : Readings ι) (policy : StaticPrioritiesPolicy) (info : ι → TaskInfo)
    (tasks : List ι) (t : ι) : Prop :=
  t ∈ tasks ∧
    if ∃ x ∈ tasks, r.state x = .ready then
      r.state t = .ready ∧ ∀ x ∈ tasks, r.state x = .ready → NoWorse policy (info t) (info x)
    else ∀ x ∈ tasks, NoWorse policy (info t) (info x)

/-- The vector holds the assigned tasks in the order of their keys, and whatever the states of the
tasks are, a task of highest priority is dispatched. -/
structure InOrder (policy : StaticPrioritiesPolicy) (info : ι → TaskInfo) (d : Dispatcher ι) :
    Prop where
  perm : d.tasksByPriority.Perm d.tasksAssigned
  sorted : d.tasksByPriority.Pairwise fun t₁ t₂ => NoWorse policy (info t₁) (info t₂)
  dispatched : ∀ (r : Readings ι) (found : Bool), ∃ t, dispatch r found d = .ok (t, d) ∧
    HighestPriority r policy info d.tasksAssigned t

/-- The checks that elaboration makes of the tasks. -/
structure Accepted (policy : StaticPrioritiesPolicy) (info : ι → TaskInfo) (d : Dispatcher ι) :
    Prop where
  priorities : ∀ t ∈ d.tasksAssigned, (info t).priority ≠ 0
  known : lessThanBy policy ≠ none
  deadlines : policy = .densityMonotonic → 2 ≤ d.tasksAssigned.length →
    ∀ t ∈ d.tasksAssigned, (info t).deadlineSettled = true

/-! ### The comparisons -/

theorem noWorse_iff {policy : StaticPrioritiesPolicy} {less : TaskInfo → TaskInfo → Bool}
    (known : lessThanBy policy = some less) (t₁ t₂ : TaskInfo) :
    NoWorse policy t₁ t₂ ↔ less t₂ t₁ = false := by
  cases policy <;> cases known <;>
    simp [NoWorse, lessThanByUserPriority, lessThanByPeriod, lessThanByDeadline,
      lessThanByDensity]

theorem lessThanBy_weak {policy : StaticPrioritiesPolicy} {less : TaskInfo → TaskInfo → Bool}
    (known : lessThanBy policy = some less) (info : ι → TaskInfo) :
    StrictWeakOn (fun t₁ t₂ => less (info t₁) (info t₂)) Set.univ := by
  cases policy with
  | userPriorities =>
    cases known
    exact strictWeakOn_of_key (fun t => (info t).priority) (by simp [lessThanByUserPriority])
  | rateMonotonic =>
    cases known
    exact strictWeakOn_of_key (fun t => (info t).period) (by simp [lessThanByPeriod])
  | deadlineMonotonic =>
    cases known
    exact strictWeakOn_of_key (fun t => (info t).deadline) (by simp [lessThanByDeadline])
  | densityMonotonic =>
    cases known
    -- the greater density is the smaller key
    exact strictWeakOn_of_key (fun t => -(info t).density) (by simp [lessThanByDensity])
  | userAutomaticStaticPriorities => cases known
  | unknownPriorityBasedSchedPolicy => cases known

theorem noWorse_refl (policy : StaticPrioritiesPolicy) (t : TaskInfo) : NoWorse policy t t := by
  cases policy <;> simp [NoWorse]

/-! ### The vector -/

theorem insertIdx_length_append (front v : List ι) (t : ι) :
    (front ++ v).insertIdx front.length t = front ++ t :: v := by
  induction front with
  | nil => rfl
  | cons x front ih =>
    rw [List.cons_append, List.length_cons, List.insertIdx_succ_cons, ih, List.cons_append]

theorem foldl_insertTask (tasks front v : List ι) :
    tasks.foldl insertTask (front ++ v, front.length) =
      (front ++ tasks ++ v, (front ++ tasks).length) := by
  induction tasks generalizing front with
  | nil => simp
  | cons t tasks ih =>
    have inserted : insertTask (front ++ v, front.length) t =
        ((front ++ [t]) ++ v, (front ++ [t]).length) := by
      simp [insertTask, insertIdx_length_append]
    rw [List.foldl_cons, inserted, ih]
    simp

theorem checkPriorities_of_ne {info : ι → TaskInfo} {tasks : List ι}
    (priorities : ∀ t ∈ tasks, (info t).priority ≠ 0) : checkPriorities info tasks = .ok () := by
  have none : tasks.filter (fun t => (info t).priority = 0) = [] := by
    simpa [List.filter_eq_nil_iff] using priorities
  rw [checkPriorities, none]

theorem endOfElaboration_eq (sort : StdSort ι) {policy : StaticPrioritiesPolicy}
    {info : ι → TaskInfo} {d : Dispatcher ι} (fresh : d.tasksByPriority = [])
    (accepted : Accepted policy info d) {less : TaskInfo → TaskInfo → Bool}
    (known : lessThanBy policy = some less) :
    endOfElaboration sort policy info d = .ok { d with
      tasksByPriority := sort (fun t₁ t₂ => less (info t₁) (info t₂)) d.tasksAssigned
      itDynSched := 0 } := by
  have inserted : (d.tasksAssigned.foldl insertTask ([], 0)).1 = d.tasksAssigned := by
    have all := foldl_insertTask d.tasksAssigned [] []
    simp only [List.nil_append, List.append_nil, List.length_nil] at all
    rw [all]
  have settled : ¬ (policy = .densityMonotonic ∧ 2 ≤ d.tasksAssigned.length ∧
      ∃ t ∈ d.tasksAssigned, (info t).deadlineSettled = false) := by
    rintro ⟨density, several, t, mem, missing⟩
    rw [accepted.deadlines density several t mem] at missing
    exact Bool.noConfusion missing
  simp only [endOfElaboration, fresh, inserted, sortTasks, known, if_neg settled,
    checkPriorities_of_ne accepted.priorities]
  split <;> rfl

/-! ### The dispatch -/

/-- The first ready task of a sorted vector has the best key of the ready ones. -/
theorem find?_noWorse {policy : StaticPrioritiesPolicy} {info : ι → TaskInfo} {tasks : List ι}
    (sorted : tasks.Pairwise fun t₁ t₂ => NoWorse policy (info t₁) (info t₂))
    {ready : ι → Bool} {t : ι} (first : tasks.find? ready = some t) :
    ∀ x ∈ tasks, ready x = true → NoWorse policy (info t) (info x) := by
  obtain ⟨-, before, after, rfl, unready⟩ := List.find?_eq_some_iff_append.mp first
  intro x mem isReady
  rcases List.mem_append.mp mem with early | late
  · exact absurd isReady (by simpa using unready x early)
  · rcases List.mem_cons.mp late with rfl | late
    · exact noWorse_refl policy _
    · exact List.rel_of_pairwise_cons (List.pairwise_append.mp sorted).2.1 late

theorem dispatchPriority_highest {policy : StaticPrioritiesPolicy} {info : ι → TaskInfo}
    {d : Dispatcher ι} (static : d.schedulerPolicy = .staticPriorities)
    (perm : d.tasksByPriority.Perm d.tasksAssigned) (nonempty : d.tasksAssigned ≠ [])
    (sorted : d.tasksByPriority.Pairwise fun t₁ t₂ => NoWorse policy (info t₁) (info t₂))
    (r : Readings ι) (found : Bool) :
    ∃ t, dispatch r found d = .ok (t, d) ∧ HighestPriority r policy info d.tasksAssigned t := by
  obtain ⟨head, rest, vector⟩ : ∃ head rest, d.tasksByPriority = head :: rest := by
    apply List.exists_cons_of_ne_nil
    intro empty
    rw [empty] at perm
    exact nonempty perm.nil_eq.symm
  have mem : ∀ {x}, x ∈ d.tasksAssigned ↔ x ∈ d.tasksByPriority := perm.mem_iff.symm
  have dispatched : dispatch r found d =
      .ok ((d.tasksByPriority.find? fun t => r.state t = .ready).getD head, d) := by
    simp only [dispatch, static, dispatchPriority, vector]
  refine ⟨_, dispatched, ?_⟩
  simp only [HighestPriority, mem]
  cases first : d.tasksByPriority.find? fun t => r.state t = .ready with
  | none =>
    have unready := List.find?_eq_none.mp first
    rw [Option.getD_none, if_neg (by simpa using unready), vector]
    refine ⟨List.mem_cons_self, fun x late => ?_⟩
    rcases List.mem_cons.mp late with rfl | late
    · exact noWorse_refl policy _
    · rw [vector] at sorted
      exact List.rel_of_pairwise_cons sorted late
  | some t =>
    have member := List.mem_of_find?_eq_some first
    have ready : r.state t = .ready := by simpa using List.find?_some first
    rw [Option.getD_some, if_pos ⟨t, member, ready⟩]
    exact ⟨member, ready, fun x mem isReady =>
      find?_noWorse sorted first x mem (by simpa using isReady)⟩

/-! ### The elaboration -/

theorem elaborateTasks_apply [DecidableEq ι] (executionTime : ℕ → ℕ) (tasks : List ι)
    (info : ι → TaskInfo) (t : ι) :
    elaborateTasks executionTime tasks info t =
      if t ∈ tasks then (info t).endOfElaboration executionTime else info t := by
  induction tasks generalizing info with
  | nil => rfl
  | cons t' tasks ih =>
    rw [elaborateTasks, List.foldl_cons, ← elaborateTasks, ih]
    by_cases same : t = t'
    · subst same
      simp only [Function.update_self, List.mem_cons_self, if_true]
      split
      next =>
        unfold TaskInfo.endOfElaboration
        split <;> simp_all
      next => rfl
    · simp only [Function.update_of_ne same, List.mem_cons, same, false_or]

/-- The tasks are in the order of their keys after the elaboration, and dispatched by it, exactly
when what is elaborated after the scheduler puts no task behind one it was level with. -/
theorem in_order_iff [DecidableEq ι] (executionTime : ℕ → ℕ) {policy : StaticPrioritiesPolicy}
    {info : ι → TaskInfo} {d : Dispatcher ι} (static : d.schedulerPolicy = .staticPriorities)
    (fresh : d.tasksByPriority = []) (nonempty : d.tasksAssigned ≠ []) (before after : List ι)
    (accepted : Accepted policy (elaborateTasks executionTime before info) d) :
    (∀ sort : StdSort ι, Sorts sort →
      ∃ d', endOfElaboration sort policy (elaborateTasks executionTime before info) d = .ok d' ∧
        d'.tasksAssigned = d.tasksAssigned ∧
        InOrder policy (elaborateTasks executionTime (before ++ after) info) d') ↔
      ∀ t₁ ∈ d.tasksAssigned, ∀ t₂ ∈ d.tasksAssigned,
        NoWorse policy (elaborateTasks executionTime before info t₁)
          (elaborateTasks executionTime before info t₂) →
        NoWorse policy (elaborateTasks executionTime (before ++ after) info t₁)
          (elaborateTasks executionTime (before ++ after) info t₂) := by
  obtain ⟨less, known⟩ := Option.ne_none_iff_exists'.mp accepted.known
  have weak := lessThanBy_weak known (elaborateTasks executionTime before info)
  have weak' := lessThanBy_weak known (elaborateTasks executionTime (before ++ after) info)
  simp only [noWorse_iff known]
  rw [← ascending_for_all_sorts_iff weak weak']
  constructor
  · intro always sort sorts
    obtain ⟨d', elaborated, -, order⟩ := always sort sorts
    rw [endOfElaboration_eq sort fresh accepted known, Except.ok.injEq] at elaborated
    subst elaborated
    exact order.sorted.imp (noWorse_iff known _ _).mp
  · intro always sort sorts
    refine ⟨_, endOfElaboration_eq sort fresh accepted known, rfl, ?_⟩
    have perm := sorts.perm _ d.tasksAssigned weak
    have sorted := (always sort sorts).imp (noWorse_iff known _ _).mpr
    exact ⟨perm, sorted, dispatchPriority_highest static perm nonempty sorted⟩

/-- Nothing is left to change in a task that has been elaborated, or has an execution time set, or
no instructions. -/
theorem elaborateTasks_append_of_set [DecidableEq ι] (executionTime : ℕ → ℕ) {before : List ι}
    {info : ι → TaskInfo} {t : ι}
    (set : t ∈ before ∨ (info t).wcetSet = true ∨ (info t).wceiSet = false) (after : List ι) :
    elaborateTasks executionTime (before ++ after) info t =
      elaborateTasks executionTime before info t := by
  rw [elaborateTasks_apply, elaborateTasks_apply]
  rcases set with early | given | none
  · rw [if_pos (List.mem_append_left after early), if_pos early]
  · simp [TaskInfo.endOfElaboration, given]
  · simp [TaskInfo.endOfElaboration, none]

/-- The first task has a density of one fifth; the second one has instructions for all the time up
to its deadline. -/
def mixedTasks : Fin 2 → TaskInfo
  | 0 => ⟨1, 10, 10, 2, true, 0, false⟩
  | 1 => ⟨1, 10, 10, 0, false, 5, true⟩

def densityScheduler : Dispatcher (Fin 2) where
  schedulerPolicy := .staticPriorities
  dynamicPrioritiesPolicy := .unknown
  tasksAssigned := List.finRange 2
  tasksByPriority := []
  staticSchedule := []
  itStaticSched := 0
  itDynSched := 0

def bothReady : Readings (Fin 2) where
  state _ := .ready
  timeToNextDeadline _ := 0

/-- The dense task is elaborated before the scheduler. -/
theorem mixedTasks_in_order :
    ∃ d', endOfElaboration stableSort .densityMonotonic
        (elaborateTasks (2 * ·) [1] mixedTasks) densityScheduler = .ok d' ∧
      d'.tasksAssigned = [0, 1] ∧
      InOrder .densityMonotonic (elaborateTasks (2 * ·) ([1] ++ [0]) mixedTasks) d' := by
  refine (in_order_iff (2 * ·) (d := densityScheduler) rfl rfl (by decide) [1] [0] ?_).mpr ?_
    stableSort stableSort_sorts
  · exact ⟨by decide, by decide, by decide⟩
  · have set : ∀ t, t ∈ [1] ∨ (mixedTasks t).wcetSet = true ∨ (mixedTasks t).wceiSet = false := by
      decide
    intro t₁ _ t₂ _ noWorse
    rw [elaborateTasks_append_of_set _ (set t₁), elaborateTasks_append_of_set _ (set t₂)]
    exact noWorse

/-- The scheduler is elaborated before the dense task: it sorts that one last and then dispatches
the other one first. -/
theorem mixedTasks_inverted :
    endOfElaboration stableSort .densityMonotonic
        (elaborateTasks (2 * ·) [0] mixedTasks) densityScheduler =
      .ok { densityScheduler with tasksByPriority := [0, 1] } ∧
    dispatch bothReady false { densityScheduler with tasksByPriority := [0, 1] } =
      .ok (0, { densityScheduler with tasksByPriority := [0, 1] }) ∧
    (elaborateTasks (2 * ·) ([0] ++ [1]) mixedTasks 0).density <
      (elaborateTasks (2 * ·) ([0] ++ [1]) mixedTasks 1).density := by
  have sorted : stableSort (fun t₁ t₂ => lessThanByDensity
      (elaborateTasks (2 * ·) [0] mixedTasks t₁) (elaborateTasks (2 * ·) [0] mixedTasks t₂))
      [0, 1] = [0, 1] := by decide +kernel
  refine ⟨?_, rfl, by decide +kernel⟩
  exact congrArg (fun v => Except.ok { densityScheduler with tasksByPriority := v }) sorted

end Kista.Scheduling.PriorityOrder
