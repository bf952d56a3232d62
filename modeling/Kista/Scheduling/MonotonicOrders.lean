/- Kista/Scheduling/MonotonicOrders
   source: src/src/scheduler.cpp, scheduler.hpp, task_info_t.cpp
   digest: The rate- and deadline-monotonic orders put tasks without a period or a deadline
   first, so they are as documented exactly when the two kinds do not mix. -/

import Kista.Scheduling.PriorityOrder

set_option autoImplicit false
set_option relaxedAutoImplicit false

namespace Kista.Scheduling.MonotonicOrders

open Dispatch PriorityOrder Kista.Containers.Sorting

variable {ι : Type}

/-- The field that a monotonic policy compares; zero stands for none. -/
def constraint : StaticPrioritiesPolicy → TaskInfo → ℕ
  | .deadlineMonotonic, t => t.deadline
  | _, t => t.period

def Constrained (policy : StaticPrioritiesPolicy) (t : TaskInfo) : Prop := 0 < constraint policy t

instance (policy : StaticPrioritiesPolicy) (t : TaskInfo) : Decidable (Constrained policy t) :=
  inferInstanceAs (Decidable (0 < _))

def Monotonic (policy : StaticPrioritiesPolicy) : Prop :=
  policy = .rateMonotonic ∨ policy = .deadlineMonotonic

/-- Some tasks have a period (or a deadline) and some have none. -/
def Mixed (policy : StaticPrioritiesPolicy) (info : ι → TaskInfo) (tasks : List ι) : Prop :=
  (∃ t ∈ tasks, Constrained policy (info t)) ∧ ∃ t ∈ tasks, ¬ Constrained policy (info t)

/-- The documented order: first the tasks with a period (or a deadline) by that, then the others,
and no ready task of the first kind waits for one of the second. -/
structure ConstrainedFirst (policy : StaticPrioritiesPolicy) (info : ι → TaskInfo)
    (d : Dispatcher ι) : Prop where
  precedes : d.tasksByPriority.Pairwise fun t₁ t₂ =>
    Constrained policy (info t₂) → Constrained policy (info t₁)
  ordered : d.tasksByPriority.Pairwise fun t₁ t₂ =>
    Constrained policy (info t₁) → Constrained policy (info t₂) →
      constraint policy (info t₁) ≤ constraint policy (info t₂)
  preferred : ∀ (r : Readings ι) (found : Bool) (t : ι) (d' : Dispatcher ι),
    dispatch r found d = .ok (t, d') →
    (∃ x ∈ d.tasksByPriority, r.state x = .ready ∧ Constrained policy (info x)) →
    Constrained policy (info t)

section Order

variable {policy : StaticPrioritiesPolicy} {info : ι → TaskInfo}

theorem noWorse_iff_constraint (monotonic : Monotonic policy) (t₁ t₂ : TaskInfo) :
    NoWorse policy t₁ t₂ ↔ constraint policy t₁ ≤ constraint policy t₂ := by
  rcases monotonic with rfl | rfl
  · exact Iff.rfl
  · exact Iff.rfl

/-- What a completed elaboration leaves in the vector. -/
theorem elaborated_order (monotonic : Monotonic policy) {sort : StdSort ι} (sorts : Sorts sort)
    {d d' : Dispatcher ι} (fresh : d.tasksByPriority = [])
    (elaborated : endOfElaboration sort policy info d = .ok d') :
    d'.schedulerPolicy = d.schedulerPolicy ∧ d'.tasksAssigned = d.tasksAssigned ∧
      d'.tasksByPriority.Perm d.tasksAssigned ∧
      d'.tasksByPriority.Pairwise fun t₁ t₂ =>
        constraint policy (info t₁) ≤ constraint policy (info t₂) := by
  obtain ⟨less, known⟩ : ∃ less, lessThanBy policy = some less := by
    rcases monotonic with rfl | rfl
    · exact ⟨_, rfl⟩
    · exact ⟨_, rfl⟩
  have notDensity : policy ≠ .densityMonotonic := by
    rcases monotonic with rfl | rfl <;> decide
  have inserted : (d.tasksAssigned.foldl insertTask ([], 0)).1 = d.tasksAssigned := by
    have all := foldl_insertTask d.tasksAssigned [] []
    simp only [List.nil_append, List.append_nil, List.length_nil] at all
    rw [all]
  have sortedBy : d' = { d with
      tasksByPriority := sort (fun t₁ t₂ => less (info t₁) (info t₂)) d.tasksAssigned
      itDynSched := 0 } := by
    simp only [endOfElaboration, fresh, inserted, sortTasks, known, notDensity, false_and,
      if_false] at elaborated
    split at elaborated
    · cases priorities : checkPriorities info d.tasksAssigned with
      | error e =>
        rw [priorities] at elaborated
        cases elaborated
      | ok _ =>
        rw [priorities] at elaborated
        exact (Except.ok.inj elaborated).symm
    · exact (Except.ok.inj elaborated).symm
  have weak := lessThanBy_weak known info
  subst sortedBy
  refine ⟨rfl, rfl, sorts.perm _ _ weak, ?_⟩
  apply (sorts.ascending _ d.tasksAssigned weak).imp
  intro t₁ t₂ level
  exact (noWorse_iff_constraint monotonic _ _).mp ((noWorse_iff known _ _).mpr level)

/-- In a mixed vector an unconstrained task comes before a constrained one. -/
theorem not_precedes_of_mixed {tasks : List ι}
    (ascending : tasks.Pairwise fun t₁ t₂ =>
      constraint policy (info t₁) ≤ constraint policy (info t₂))
    (mixed : Mixed policy info tasks) :
    ¬ tasks.Pairwise fun t₁ t₂ => Constrained policy (info t₂) → Constrained policy (info t₁) := by
  intro precedes
  obtain ⟨⟨c, hc, constrained⟩, u, hu, free⟩ := mixed
  obtain ⟨i, hi, rfl⟩ := List.getElem_of_mem hc
  obtain ⟨j, hj, rfl⟩ := List.getElem_of_mem hu
  rcases Nat.lt_trichotomy i j with before | same | after
  · have level := List.pairwise_iff_getElem.mp ascending i j hi hj before
    exact free (Nat.lt_of_lt_of_le constrained level)
  · subst same
    exact free constrained
  · exact free (List.pairwise_iff_getElem.mp precedes j i hj hi after constrained)

/-- After an elaboration under a monotonic policy the documented order holds exactly when the
assigned tasks do not mix the two kinds. -/
theorem constrainedFirst_iff (monotonic : Monotonic policy) {sort : StdSort ι}
    (sorts : Sorts sort) {d d' : Dispatcher ι}
    (static : d.schedulerPolicy = .staticPriorities) (fresh : d.tasksByPriority = [])
    (elaborated : endOfElaboration sort policy info d = .ok d') :
    ConstrainedFirst policy info d' ↔ ¬ Mixed policy info d.tasksAssigned := by
  obtain ⟨policyKept, assigned, perm, ascending⟩ :=
    elaborated_order monotonic sorts fresh elaborated
  have mem : ∀ t, t ∈ d'.tasksByPriority ↔ t ∈ d.tasksAssigned := fun t => perm.mem_iff
  constructor
  · rintro documented ⟨⟨c, hc, constrained⟩, u, hu, free⟩
    exact not_precedes_of_mixed ascending
      ⟨⟨c, (mem c).mpr hc, constrained⟩, u, (mem u).mpr hu, free⟩ documented.precedes
  · intro unmixed
    -- one constrained task makes all of them constrained
    have all : ∀ x ∈ d'.tasksByPriority, Constrained policy (info x) →
        ∀ t ∈ d'.tasksByPriority, Constrained policy (info t) := by
      intro x hx constrained t ht
      by_contra free
      exact unmixed ⟨⟨x, (mem x).mp hx, constrained⟩, t, (mem t).mp ht, free⟩
    refine ⟨?_, ascending.imp fun le _ _ => le, ?_⟩
    · rw [List.pairwise_iff_getElem]
      intro i j hi hj _ constrained
      exact all _ (List.getElem_mem hj) constrained _ (List.getElem_mem hi)
    · rintro r found t d'' chosen ⟨x, hx, -, constrained⟩
      have nonempty : d'.tasksAssigned ≠ [] := by
        rw [assigned]
        exact List.ne_nil_of_mem ((mem x).mp hx)
      obtain ⟨t', dispatched, highest⟩ :=
        dispatchPriority_highest (policyKept.trans static) (assigned ▸ perm) nonempty
          (ascending.imp (noWorse_iff_constraint monotonic _ _).mpr) r found
      have same : t' = t := by
        rw [dispatched] at chosen
        exact (Prod.mk.inj (Except.ok.inj chosen)).1
      rw [← same]
      exact all x hx constrained t' ((mem t').mpr (assigned ▸ highest.1))

end Order

/-- The first task is periodic, the second one has neither period nor deadline. -/
def periodicAndFree : Fin 2 → TaskInfo
  | 0 => ⟨1, 10, 10, 2, true, 0, false⟩
  | 1 => ⟨2, 0, 0, 2, true, 0, false⟩

/-- Under either policy the free task comes first and keeps the ready periodic one waiting. -/
theorem periodicAndFree_inverted :
    endOfElaboration stableSort .rateMonotonic periodicAndFree densityScheduler =
        .ok { densityScheduler with tasksByPriority := [1, 0] } ∧
      endOfElaboration stableSort .deadlineMonotonic periodicAndFree densityScheduler =
        .ok { densityScheduler with tasksByPriority := [1, 0] } ∧
      dispatch bothReady false { densityScheduler with tasksByPriority := [1, 0] } =
        .ok (1, { densityScheduler with tasksByPriority := [1, 0] }) ∧
      ¬ ConstrainedFirst .rateMonotonic periodicAndFree
        { densityScheduler with tasksByPriority := [1, 0] } ∧
      ¬ ConstrainedFirst .deadlineMonotonic periodicAndFree
        { densityScheduler with tasksByPriority := [1, 0] } := by
  have byPeriod : stableSort (fun t₁ t₂ => lessThanByPeriod (periodicAndFree t₁)
      (periodicAndFree t₂)) [0, 1] = [1, 0] := by decide +kernel
  have byDeadline : stableSort (fun t₁ t₂ => lessThanByDeadline (periodicAndFree t₁)
      (periodicAndFree t₂)) [0, 1] = [1, 0] := by decide +kernel
  refine ⟨?_, ?_, rfl, fun first => ?_, fun first => ?_⟩
  · exact congrArg (fun v => Except.ok { densityScheduler with tasksByPriority := v }) byPeriod
  · exact congrArg (fun v => Except.ok { densityScheduler with tasksByPriority := v }) byDeadline
  · exact absurd first.precedes (by decide)
  · exact absurd first.precedes (by decide)

/-- Two periodic tasks, the faster one assigned last. -/
def periodicPair : Fin 2 → TaskInfo
  | 0 => ⟨1, 20, 20, 2, true, 0, false⟩
  | 1 => ⟨2, 10, 10, 2, true, 0, false⟩

theorem periodicPair_documented :
    ConstrainedFirst .rateMonotonic periodicPair
      { densityScheduler with tasksByPriority := [1, 0] } := by
  have sorted : stableSort (fun t₁ t₂ => lessThanByPeriod (periodicPair t₁) (periodicPair t₂))
      [0, 1] = [1, 0] := by decide +kernel
  have elaborated : endOfElaboration stableSort .rateMonotonic periodicPair densityScheduler =
      .ok { densityScheduler with tasksByPriority := [1, 0] } := by
    exact congrArg (fun v => Except.ok { densityScheduler with tasksByPriority := v }) sorted
  apply (constrainedFirst_iff (Or.inl rfl) stableSort_sorts rfl rfl elaborated).mpr
  rintro ⟨-, t, -, free⟩
  revert t
  decide

end Kista.Scheduling.MonotonicOrders
