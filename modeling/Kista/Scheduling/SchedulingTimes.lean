/- Kista/Scheduling/SchedulingTimes
   source: src/src/scheduler.cpp, src/src/scheduler_penalties.cpp, src/src/defaults.hpp
   digest: Where the scheduling time of a scheduler comes from after any sequence of registrations,
   and when it comes from the first source that exists. -/

import Kista.Scheduling.PolicyTables

set_option autoImplicit false
set_option relaxedAutoImplicit false

/-!
The table of the policies finds the entry that is equal to its key. The check of a constant
scheduling time against the tick comes behind the choice and changes nothing.
-/

namespace Kista.Scheduling.SchedulingTimes

open PolicyTables (SchedulerT SameType lastRegistered)

/-- DEFAULT_SCHED_TIME_NS. -/
def defaultSchedTimeNs : ℕ := 0

/-- The setters. A calculator is a pointer to a function, which may be null. -/
inductive Registration (F ι : Type)
  | setCommonCalculator (function : Option F)
  | setPolicyCalculator (function : Option F) (schedT : SchedulerT)
  | setSchedulerCalculator (sched : ι) (function : Option F)
  | setSchedulerTime (sched : ι) (time : ℕ)
  | setGlobalTime (time : ℕ)

structure Scheduler (F : Type) where
  schedulingTimeCalculator : Option F
  schedulingTime : ℕ
  schedulingTimeSetFlag : Bool

structure Settings (F ι : Type) where
  commonSchedulingTimeCalculator : Option F
  schedulingTimeCalculatorTable : List (PolicyTables.Registration F)
  globalSchedulingTime : ℕ
  schedulers : ι → Scheduler F

variable {F ι : Type} [DecidableEq ι]

/-- The settings before any registration. -/
def initial : Settings F ι where
  commonSchedulingTimeCalculator := none
  schedulingTimeCalculatorTable := []
  globalSchedulingTime := defaultSchedTimeNs
  schedulers _ := ⟨none, 0, false⟩

def register (s : Settings F ι) : Registration F ι → Settings F ι
  | .setCommonCalculator function => { s with commonSchedulingTimeCalculator := function }
  | .setPolicyCalculator function schedT =>
    { s with
      schedulingTimeCalculatorTable := s.schedulingTimeCalculatorTable ++ [(function, schedT)] }
  | .setSchedulerCalculator sched function =>
    { s with
      schedulers := Function.update s.schedulers sched
        { s.schedulers sched with schedulingTimeCalculator := function } }
  | .setSchedulerTime sched time =>
    { s with
      schedulers := Function.update s.schedulers sched
        { s.schedulers sched with schedulingTime := time, schedulingTimeSetFlag := true } }
  | .setGlobalTime time => { s with globalSchedulingTime := time }

def settings (registrations : List (Registration F ι)) : Settings F ι :=
  registrations.foldl register initial

/-- `get_scheduling_time_calculator` for a policy. -/
def getSchedulingTimeCalculator (table : List (PolicyTables.Registration F)) (schedT : SchedulerT) :
    Option F :=
  (lastRegistered table schedT).join

/-- The part of `end_of_elaboration` that chooses. It runs when tasks are assigned, and its key is
the local variable that hides the member `sched_t` and is never written. -/
def endOfElaboration (s : Settings F ι) (tasksAssigned : ℕ) (shadow : SchedulerT) (sched : ι) :
    Scheduler F :=
  let scheduler := s.schedulers sched
  if tasksAssigned ≠ 0 then
    match scheduler.schedulingTimeCalculator with
    | some _ => scheduler
    | none =>
      match getSchedulingTimeCalculator s.schedulingTimeCalculatorTable shadow with
      | some function => { scheduler with schedulingTimeCalculator := some function }
      | none =>
        match s.commonSchedulingTimeCalculator with
        | some function => { scheduler with schedulingTimeCalculator := some function }
        | none =>
          if scheduler.schedulingTimeSetFlag = false then
            { scheduler with schedulingTime := s.globalSchedulingTime }
          else scheduler
  else scheduler

/-- What the scheduler thread takes its scheduling time from. -/
inductive Source (F : Type)
  | calculator (function : F)
  | constant (time : ℕ)
  deriving DecidableEq

def Scheduler.source (scheduler : Scheduler F) : Source F :=
  match scheduler.schedulingTimeCalculator with
  | some function => .calculator function
  | none => .constant scheduler.schedulingTime

/-! ### What is registered -/

section LastRegistered

variable {β : Type} (pick : Registration F ι → Option β)

omit [DecidableEq ι] in
/-- What the last of the registrations that concern something has given it. -/
def last (registrations : List (Registration F ι)) : Option β :=
  registrations.reverse.findSome? pick

omit [DecidableEq ι] in
theorem last_append_singleton (registrations : List (Registration F ι))
    (registration : Registration F ι) :
    last pick (registrations ++ [registration]) =
      (pick registration).or (last pick registrations) := by
  rw [last, List.reverse_append, List.reverse_singleton, List.singleton_append,
    List.findSome?_cons]
  cases pick registration <;> rfl

end LastRegistered

namespace Registration

def common : Registration F ι → Option (Option F)
  | setCommonCalculator function => some function
  | _ => none

def policy : Registration F ι → Option (PolicyTables.Registration F)
  | setPolicyCalculator function schedT => some (function, schedT)
  | _ => none

def scheduler (sched : ι) : Registration F ι → Option (Option F)
  | setSchedulerCalculator other function => if other = sched then some function else none
  | _ => none

def time (sched : ι) : Registration F ι → Option ℕ
  | setSchedulerTime other time => if other = sched then some time else none
  | _ => none

def globalTime : Registration F ι → Option ℕ
  | setGlobalTime time => some time
  | _ => none

end Registration

section Registered

variable (registrations : List (Registration F ι)) (sched : ι) (schedT : SchedulerT)

def schedulerCalculator : Option F := (last (Registration.scheduler sched) registrations).join

omit [DecidableEq ι] in
def policyCalculator : Option F :=
  getSchedulingTimeCalculator (registrations.filterMap Registration.policy) schedT

omit [DecidableEq ι] in
def commonCalculator : Option F := (last Registration.common registrations).join

def schedulerConstant : Option ℕ := last (Registration.time sched) registrations

omit [DecidableEq ι] in
def globalConstant : ℕ := (last Registration.globalTime registrations).getD defaultSchedTimeNs

/-- The calculator of the scheduler, that of its policy, the common one, the constant of the
scheduler and the global constant, in this order. -/
def firstSource (configured : SchedulerT) : Source F :=
  match (schedulerCalculator registrations sched).or
      ((policyCalculator registrations configured).or (commonCalculator registrations)) with
  | some function => .calculator function
  | none => .constant ((schedulerConstant registrations sched).getD (globalConstant registrations))

end Registered

/-- The settings hold what was registered last. -/
structure Registered (registrations : List (Registration F ι)) (s : Settings F ι) : Prop where
  common : s.commonSchedulingTimeCalculator = commonCalculator registrations
  table : s.schedulingTimeCalculatorTable = registrations.filterMap Registration.policy
  globalTime : s.globalSchedulingTime = globalConstant registrations
  scheduler : ∀ sched, s.schedulers sched =
    { schedulingTimeCalculator := schedulerCalculator registrations sched
      schedulingTime := (schedulerConstant registrations sched).getD 0
      schedulingTimeSetFlag := (schedulerConstant registrations sched).isSome }

theorem Registered.register {registrations : List (Registration F ι)} {s : Settings F ι}
    (h : Registered registrations s) (registration : Registration F ι) :
    Registered (registrations ++ [registration]) (register s registration) where
  common := by
    rw [commonCalculator, last_append_singleton]
    cases registration with
    | setCommonCalculator function => rfl
    | _ => exact h.common
  table := by
    rw [List.filterMap_append, ← h.table]
    cases registration with
    | setPolicyCalculator function schedT => rfl
    | _ => exact (List.append_nil _).symm
  globalTime := by
    rw [globalConstant, last_append_singleton]
    cases registration with
    | setGlobalTime time => rfl
    | _ => exact h.globalTime
  scheduler := by
    intro sched
    have hsched := h.scheduler sched
    rw [schedulerCalculator, schedulerConstant] at hsched ⊢
    rw [last_append_singleton, last_append_singleton]
    cases registration with
    | setSchedulerCalculator other function =>
      by_cases hsame : other = sched
      · subst hsame
        simp [SchedulingTimes.register, Registration.scheduler, Registration.time, hsched]
      · have hother : sched ≠ other := fun same => hsame same.symm
        simpa [SchedulingTimes.register, Registration.scheduler, Registration.time, hsame, hother]
          using hsched
    | setSchedulerTime other time =>
      by_cases hsame : other = sched
      · subst hsame
        simp [SchedulingTimes.register, Registration.scheduler, Registration.time, hsched]
      · have hother : sched ≠ other := fun same => hsame same.symm
        simpa [SchedulingTimes.register, Registration.scheduler, Registration.time, hsame, hother]
          using hsched
    | _ => exact hsched

theorem registered_settings (registrations : List (Registration F ι)) :
    Registered registrations (settings registrations) := by
  induction registrations using List.reverseRecOn with
  | nil => exact ⟨rfl, rfl, rfl, fun _ => rfl⟩
  | append_singleton registrations registration ih =>
    rw [settings, List.foldl_append]
    exact ih.register registration

/-! ### The choice -/

/-- No finite table has an entry for every key. -/
theorem exists_unregistered (table : List (PolicyTables.Registration F)) :
    ∃ schedT, getSchedulingTimeCalculator table schedT = none := by
  obtain ⟨bound, hbound⟩ : ∃ bound, ∀ r ∈ table, r.2.schedulerPolicy < bound := by
    induction table with
    | nil => exact ⟨0, by simp⟩
    | cons r table ih =>
      obtain ⟨bound, hbound⟩ := ih
      refine ⟨max bound (r.2.schedulerPolicy + 1), ?_⟩
      intro r' hr'
      rcases List.mem_cons.mp hr' with rfl | hr'
      · omega
      · have h := hbound r' hr'
        omega
  refine ⟨⟨bound, 0, 0, 0⟩, ?_⟩
  have hnone : table.reverse.find? (fun r => decide (SameType r.2 ⟨bound, 0, 0, 0⟩)) = none := by
    apply List.find?_eq_none.mpr
    intro r hr
    rw [decide_eq_true_iff]
    rintro ⟨hpolicy, -⟩
    exact (hbound r (List.mem_reverse.mp hr)).ne hpolicy
  rw [getSchedulingTimeCalculator, lastRegistered, hnone]
  rfl

/-- Where the scheduling time comes from, in terms of what is registered. -/
theorem endOfElaboration_source (registrations : List (Registration F ι)) (tasksAssigned : ℕ)
    (shadow : SchedulerT) (sched : ι) :
    (endOfElaboration (settings registrations) tasksAssigned shadow sched).source =
      if tasksAssigned = 0 then
        match schedulerCalculator registrations sched with
        | some function => .calculator function
        | none => .constant ((schedulerConstant registrations sched).getD 0)
      else firstSource registrations sched shadow := by
  have h := registered_settings registrations
  rw [endOfElaboration, h.scheduler, h.table, h.common, h.globalTime]
  by_cases htasks : tasksAssigned = 0
  · simp [htasks, Scheduler.source]
  · simp only [htasks, ne_eq, not_false_eq_true, if_true, if_false]
    rw [firstSource, policyCalculator]
    cases schedulerCalculator registrations sched with
    | some function => rfl
    | none =>
      cases getSchedulingTimeCalculator (registrations.filterMap Registration.policy) shadow with
      | some function => rfl
      | none =>
        cases commonCalculator registrations with
        | some function => rfl
        | none => cases schedulerConstant registrations sched <;> rfl

/-- The scheduler has a calculator of its own; or it has tasks and no policy has another calculator
than the common one; or it has no tasks and neither its policy nor all have a calculator, and its
constant is set or the global one is 0. -/
def KeyIrrelevant (registrations : List (Registration F ι)) (tasksAssigned : ℕ)
    (configured : SchedulerT) (sched : ι) : Prop :=
  (schedulerCalculator registrations sched).isSome ∨
    (tasksAssigned ≠ 0 ∧ ∀ schedT function, policyCalculator registrations schedT = some function →
      commonCalculator registrations = some function) ∨
    (tasksAssigned = 0 ∧ policyCalculator registrations configured = none ∧
      commonCalculator registrations = none ∧
      ((schedulerConstant registrations sched).isSome ∨ globalConstant registrations = 0))

theorem firstSource_eq_iff {registrations : List (Registration F ι)} {sched : ι}
    (hnone : schedulerCalculator registrations sched = none) (first second : SchedulerT) :
    firstSource registrations sched first = firstSource registrations sched second ↔
      (policyCalculator registrations first).or (commonCalculator registrations) =
        (policyCalculator registrations second).or (commonCalculator registrations) := by
  rw [firstSource, firstSource, hnone, Option.none_or, Option.none_or]
  cases (policyCalculator registrations first).or (commonCalculator registrations) <;>
    cases (policyCalculator registrations second).or (commonCalculator registrations) <;> simp

/-- The first source is in force, whatever the unwritten key holds, exactly when the key does not
matter. -/
theorem firstSource_inForce_iff (registrations : List (Registration F ι)) (tasksAssigned : ℕ)
    (configured : SchedulerT) (sched : ι) :
    (∀ shadow, (endOfElaboration (settings registrations) tasksAssigned shadow sched).source =
        firstSource registrations sched configured) ↔
      KeyIrrelevant registrations tasksAssigned configured sched := by
  have hkeys : Nonempty SchedulerT := ⟨configured⟩
  simp only [endOfElaboration_source, KeyIrrelevant]
  cases hscheduler : schedulerCalculator registrations sched with
  | some function => simp [firstSource, hscheduler]
  | none =>
    by_cases htasks : tasksAssigned = 0
    · simp only [htasks, if_true, Option.isSome_none, Bool.false_eq_true, false_or, ne_eq,
        not_true_eq_false, false_and, true_and, forall_const]
      rw [firstSource, hscheduler, Option.none_or]
      cases hpolicy : policyCalculator registrations configured with
      | some function => simp
      | none =>
        cases hcommon : commonCalculator registrations with
        | some function => simp
        | none =>
          cases schedulerConstant registrations sched with
          | some time => simp
          | none => simp [eq_comm]
    · simp only [htasks, if_false, firstSource_eq_iff hscheduler, Option.isSome_none,
        Bool.false_eq_true, false_or, false_and, or_false]
      constructor
      · intro hall
        refine ⟨htasks, fun schedT function hpolicy => ?_⟩
        -- some key has no entry, so the common calculator is the one of every key
        obtain ⟨free, hfree⟩ := exists_unregistered (registrations.filterMap Registration.policy)
        have hboth := (hall schedT).trans (hall free).symm
        rw [hpolicy, policyCalculator, hfree] at hboth
        simpa using hboth.symm
      · rintro ⟨-, hcommon⟩ shadow
        have hsame : ∀ schedT, (policyCalculator registrations schedT).or
            (commonCalculator registrations) = commonCalculator registrations := by
          intro schedT
          cases hpolicy : policyCalculator registrations schedT with
          | none => rfl
          | some function =>
            rw [hcommon schedT function hpolicy]
            rfl
        rw [hsame shadow, hsame configured]

/-- A calculator for the policy of the scheduler, and the same global time for all. -/
def calculatorAndConstant : List (Registration ℕ ℕ) :=
  [.setPolicyCalculator (some 7) ⟨4, 2, 0, 0⟩, .setGlobalTime 100]

/-- The calculator is passed over when the unwritten key has another value. -/
theorem policyCalculator_passed_over :
    (endOfElaboration (settings calculatorAndConstant) 1 ⟨0, 0, 0, 0⟩ 0).source = .constant 100 ∧
      firstSource calculatorAndConstant 0 ⟨4, 2, 0, 0⟩ = .calculator 7 := by
  decide

end Kista.Scheduling.SchedulingTimes
