/- Kista/Scheduling/PolicyTables
   source: src/src/sched_types.cpp, src/src/static_sched_analysis.cpp,
           src/src/scheduler_penalties.cpp, src/src/scheduler.cpp
   digest: The comparison of scheduler types, the keys on which it is an order, and what the
   tables of analyses and of scheduling time calculators find. -/

import Kista.Containers.OrderedMap
import Mathlib.Data.Set.Insert

set_option autoImplicit false
set_option relaxedAutoImplicit false

namespace Kista.Scheduling.PolicyTables

open Kista.Containers.OrderedMap

def staticScheduling : ℕ := 0

def staticPriorities : ℕ := 4

def dynamicPriorities : ℕ := 5

/-- `scheduler_t`. Users add policies beyond the enumerated ones, so the fields are numbers. -/
structure SchedulerT where
  schedulerPolicy : ℕ
  staticPrioritiesPolicy : ℕ
  dynamicPrioritiesPolicy : ℕ
  schedulerTriggeringPolicy : ℕ
  deriving DecidableEq

/-- `operator<`: each field is compared without a test that the ones before are equal. -/
def less (lhs rhs : SchedulerT) : Bool :=
  if lhs.schedulerTriggeringPolicy < rhs.schedulerTriggeringPolicy then true
  else if lhs.schedulerPolicy < rhs.schedulerPolicy then true
  else if lhs.schedulerPolicy = staticPriorities then
    decide (lhs.staticPrioritiesPolicy < rhs.staticPrioritiesPolicy)
  else if lhs.schedulerPolicy = dynamicPriorities then
    decide (lhs.dynamicPrioritiesPolicy < rhs.dynamicPrioritiesPolicy)
  else false

/-- `operator==` on the fields that matter for the policy. -/
def SameType (lhs rhs : SchedulerT) : Prop :=
  lhs.schedulerPolicy = rhs.schedulerPolicy ∧
    lhs.schedulerTriggeringPolicy = rhs.schedulerTriggeringPolicy ∧
    (lhs.schedulerPolicy = staticPriorities →
      lhs.staticPrioritiesPolicy = rhs.staticPrioritiesPolicy) ∧
    (lhs.schedulerPolicy = dynamicPriorities →
      lhs.dynamicPrioritiesPolicy = rhs.dynamicPrioritiesPolicy)

instance (lhs rhs : SchedulerT) : Decidable (SameType lhs rhs) :=
  inferInstanceAs (Decidable (_ ∧ _ ∧ _ ∧ _))

/-- Where one type is below another in its triggering or in its policy, it is not above it in any
field that the comparison of the other looks at. -/
def Aligned (low high : SchedulerT) : Prop :=
  low.schedulerTriggeringPolicy < high.schedulerTriggeringPolicy ∨
      low.schedulerPolicy < high.schedulerPolicy →
    low.schedulerTriggeringPolicy ≤ high.schedulerTriggeringPolicy ∧
      low.schedulerPolicy ≤ high.schedulerPolicy ∧
      (high.schedulerPolicy = staticPriorities →
        low.staticPrioritiesPolicy ≤ high.staticPrioritiesPolicy) ∧
      (high.schedulerPolicy = dynamicPriorities →
        low.dynamicPrioritiesPolicy ≤ high.dynamicPrioritiesPolicy)

variable {F : Type*}

/-- The functions are pointers, which may be null. -/
abbrev Table (F : Type*) := Entries SchedulerT (Option F)

def attachStaticAnalysis (table : Table F) (function : Option F) (schedT : SchedulerT) : Table F :=
  assign less schedT function table

def setSchedulingTimeCalculator (table : Table F) (function : Option F) (schedT : SchedulerT) :
    Table F :=
  assign less schedT function table

def getSchedulingTimeCalculator (table : Table F) (schedT : SchedulerT) : Option F :=
  match find less schedT table with
  | none => none
  | some function => function

inductive PolicyAnalysis (F : Type*)
  | unavailable
  | nullFunction
  | executed (function : F)

/-- What `static_analysis` does after the common analysis, for the configured type. -/
def staticAnalysis (table : Table F) (configured : SchedulerT) : PolicyAnalysis F :=
  match find less configured table with
  | none => .unavailable
  | some none => .nullFunction
  | some (some function) => .executed function

/-- A function registered for a type. -/
abbrev Registration (F : Type*) := Option F × SchedulerT

def staticAnalysisTable (registrations : List (Registration F)) : Table F :=
  registrations.foldl (fun table r => attachStaticAnalysis table r.1 r.2) []

def schedulingTimeCalculatorTable (registrations : List (Registration F)) : Table F :=
  registrations.foldl (fun table r => setSchedulingTimeCalculator table r.1 r.2) []

/-- The function registered last for a type. -/
def lastRegistered (registrations : List (Registration F)) (schedT : SchedulerT) :
    Option (Option F) :=
  (registrations.reverse.find? fun r => SameType r.2 schedT).map Prod.fst

/-- The types registered and the one looked up. -/
def used (registrations : List (Registration F)) (schedT : SchedulerT) : Set SchedulerT :=
  {k | k = schedT ∨ ∃ r ∈ registrations, r.2 = k}

theorem less_iff (lhs rhs : SchedulerT) :
    less lhs rhs = true ↔
      lhs.schedulerTriggeringPolicy < rhs.schedulerTriggeringPolicy ∨
        lhs.schedulerPolicy < rhs.schedulerPolicy ∨
        (lhs.schedulerPolicy = staticPriorities ∧
          lhs.staticPrioritiesPolicy < rhs.staticPrioritiesPolicy) ∨
        (lhs.schedulerPolicy = dynamicPriorities ∧
          lhs.dynamicPrioritiesPolicy < rhs.dynamicPrioritiesPolicy) := by
  have different : staticPriorities ≠ dynamicPriorities := by decide
  rw [less]
  split_ifs with trigger policy static dynamic
  · exact iff_of_true rfl (Or.inl trigger)
  · exact iff_of_true rfl (Or.inr (Or.inl policy))
  · rw [decide_eq_true_iff]
    omega
  · rw [decide_eq_true_iff]
    omega
  · refine iff_of_false not_false ?_
    omega

theorem not_less_iff (lhs rhs : SchedulerT) :
    less lhs rhs = false ↔
      rhs.schedulerTriggeringPolicy ≤ lhs.schedulerTriggeringPolicy ∧
        rhs.schedulerPolicy ≤ lhs.schedulerPolicy ∧
        (lhs.schedulerPolicy = staticPriorities →
          rhs.staticPrioritiesPolicy ≤ lhs.staticPrioritiesPolicy) ∧
        (lhs.schedulerPolicy = dynamicPriorities →
          rhs.dynamicPrioritiesPolicy ≤ lhs.dynamicPrioritiesPolicy) := by
  rw [← Bool.not_eq_true, less_iff]
  simp only [not_or, not_and, not_lt]

/-- Two types are incomparable exactly when they agree on the fields that matter. -/
theorem incomparable_iff (lhs rhs : SchedulerT) :
    Incomparable less lhs rhs ↔ SameType lhs rhs := by
  rw [Incomparable, not_less_iff, not_less_iff, SameType]
  constructor
  · rintro ⟨⟨t, p, s, d⟩, t', p', s', d'⟩
    have policy := le_antisymm p' p
    refine ⟨policy, le_antisymm t' t, fun static => ?_, fun dynamic => ?_⟩
    · exact le_antisymm (s' (by omega)) (s static)
    · exact le_antisymm (d' (by omega)) (d dynamic)
  · rintro ⟨policy, trigger, static, dynamic⟩
    refine ⟨⟨by omega, by omega, fun h => (static h).ge, fun h => (dynamic h).ge⟩, by omega,
      by omega, fun h => (static (by omega)).le, fun h => (dynamic (by omega)).le⟩

/-- The comparison is a strict weak order exactly on the sets of aligned types: it is enough that
no two of them are each below the other. -/
theorem strictWeakOn_iff (S : Set SchedulerT) :
    StrictWeakOn less S ↔ ∀ a ∈ S, ∀ b ∈ S, Aligned a b := by
  constructor
  · intro order a ha b hb below
    have less_ab : less a b = true := (less_iff a b).mpr (by tauto)
    exact (not_less_iff b a).mp (order.asymm a ha b hb less_ab)
  · intro aligned
    have asymm : ∀ a ∈ S, ∀ b ∈ S, less a b = true → less b a = false := by
      intro a ha b hb below
      by_cases differ : a.schedulerTriggeringPolicy < b.schedulerTriggeringPolicy ∨
          a.schedulerPolicy < b.schedulerPolicy
      · exact (not_less_iff b a).mpr (aligned a ha b hb differ)
      · by_cases reverse : b.schedulerTriggeringPolicy < a.schedulerTriggeringPolicy ∨
            b.schedulerPolicy < a.schedulerPolicy
        · have := (not_less_iff a b).mpr (aligned b hb a ha reverse)
          rw [below] at this
          cases this
        · rw [less_iff] at below
          rw [not_less_iff]
          refine ⟨by omega, by omega, fun static => ?_, fun dynamic => ?_⟩
          · have : staticPriorities ≠ dynamicPriorities := by decide
            omega
          · have : staticPriorities ≠ dynamicPriorities := by decide
            omega
    refine ⟨?_, asymm, ?_, ?_⟩
    · intro a _
      rw [not_less_iff]
      exact ⟨le_rfl, le_rfl, fun _ => le_rfl, fun _ => le_rfl⟩
    · intro a ha b hb c hc ab bc
      have ba := (not_less_iff b a).mp (asymm a ha b hb ab)
      have cb := (not_less_iff c b).mp (asymm b hb c hc bc)
      have policy := ba.2.1.trans cb.2.1
      rw [less_iff] at ab ⊢
      rcases ab with trigger | lower | ⟨static, below⟩ | ⟨dynamic, below⟩
      · exact Or.inl (trigger.trans_le cb.1)
      · exact Or.inr (Or.inl (lower.trans_le cb.2.1))
      · rcases policy.lt_or_eq with lower | same
        · exact Or.inr (Or.inl lower)
        · have below := below.trans_le (cb.2.2.1 (same ▸ static))
          exact Or.inr (Or.inr (Or.inl ⟨static, below⟩))
      · rcases policy.lt_or_eq with lower | same
        · exact Or.inr (Or.inl lower)
        · have below := below.trans_le (cb.2.2.2 (same ▸ dynamic))
          exact Or.inr (Or.inr (Or.inr ⟨dynamic, below⟩))
    · intro a _ b _ c _ ab bc
      rw [incomparable_iff] at ab bc ⊢
      obtain ⟨p, t, s, d⟩ := ab
      obtain ⟨p', t', s', d'⟩ := bc
      refine ⟨p.trans p', t.trans t', fun static => ?_, fun dynamic => ?_⟩
      · exact (s static).trans (s' (p ▸ static))
      · exact (d dynamic).trans (d' (p ▸ dynamic))

theorem find_registered {registrations : List (Registration F)} {schedT : SchedulerT}
    (order : StrictWeakOn less (used registrations schedT)) :
    find less schedT (registrations.foldl (fun table r => assign less r.2 r.1 table) []) =
      lastRegistered registrations schedT := by
  have swapped : registrations.foldl (fun table r => assign less r.2 r.1 table) [] =
      assignAll less (registrations.map Prod.swap) := by
    rw [assignAll, List.foldl_map]
    rfl
  have last : lastRegistered registrations schedT =
      lastAssigned less schedT (registrations.map Prod.swap) := by
    rw [lastAssigned, lastRegistered, ← List.map_reverse, List.find?_map, Option.map_map]
    congr 2
    funext r
    simp [incomparable_iff]
  rw [swapped, last]
  refine find_assignAll order ?_ (Or.inl rfl)
  intro entry listed
  obtain ⟨r, member, rfl⟩ := List.mem_map.mp listed
  exact Or.inr ⟨r, member, rfl⟩

/-- The order laws hold and both tables find the last registration exactly when every two types in
use are aligned. -/
theorem found_iff (registrations : List (Registration F)) (schedT : SchedulerT) :
    (StrictWeakOn less (used registrations schedT) ∧
        getSchedulingTimeCalculator (schedulingTimeCalculatorTable registrations) schedT =
          (lastRegistered registrations schedT).join ∧
        staticAnalysis (staticAnalysisTable registrations) schedT =
          match lastRegistered registrations schedT with
          | none => .unavailable
          | some none => .nullFunction
          | some (some function) => .executed function) ↔
      ∀ a ∈ used registrations schedT, ∀ b ∈ used registrations schedT, Aligned a b := by
  rw [← strictWeakOn_iff]
  constructor
  · intro h
    exact h.1
  · intro order
    have found := find_registered order
    refine ⟨order, ?_, ?_⟩
    · rw [getSchedulingTimeCalculator]
      show (match find less schedT (registrations.foldl
          (fun table r => assign less r.2 r.1 table) []) with
        | none => none
        | some function => function) = _
      rw [found]
      cases lastRegistered registrations schedT <;> rfl
    · rw [staticAnalysis]
      show (match find less schedT (registrations.foldl
          (fun table r => assign less r.2 r.1 table) []) with
        | none => PolicyAnalysis.unavailable
        | some none => .nullFunction
        | some (some function) => .executed function) = _
      rw [found]

/-- Cyclic executives below static priorities, both preemptive. -/
def cyclicType : SchedulerT := ⟨3, 0, 0, 0⟩

def staticType : SchedulerT := ⟨4, 2, 1, 0⟩

/-- Static priorities again, cooperative. -/
def cooperativeType : SchedulerT := ⟨4, 0, 0, 1⟩

/-- Static scheduling, whose static priorities are not used. -/
def scheduledType : SchedulerT := ⟨0, 5, 0, 0⟩

theorem twoTypes_found :
    StrictWeakOn less (used [(some 1, cyclicType), (some 2, staticType)] staticType) ∧
      getSchedulingTimeCalculator
          (schedulingTimeCalculatorTable [(some 1, cyclicType), (some 2, staticType)]) staticType =
        (lastRegistered [(some 1, cyclicType), (some 2, staticType)] staticType).join ∧
      staticAnalysis (staticAnalysisTable [(some 1, cyclicType), (some 2, staticType)]) staticType =
        match lastRegistered [(some 1, cyclicType), (some 2, staticType)] staticType with
        | none => .unavailable
        | some none => .nullFunction
        | some (some function) => .executed function := by
  refine (found_iff [(some 1, cyclicType), (some 2, staticType)] staticType).mpr ?_
  have either : ∀ k ∈ used [(some 1, cyclicType), (some 2, staticType)] staticType,
      k = cyclicType ∨ k = staticType := by
    rintro k (rfl | ⟨r, listed, rfl⟩)
    · exact Or.inr rfl
    · simp only [List.mem_cons, List.not_mem_nil, or_false] at listed
      rcases listed with rfl | rfl
      · exact Or.inl rfl
      · exact Or.inr rfl
  intro a ha b hb
  rcases either a ha with rfl | rfl <;> rcases either b hb with rfl | rfl <;>
    simp [Aligned, cyclicType, staticType, staticPriorities, dynamicPriorities]

/-- Each of the two types is below the other. -/
theorem oppositeTypes_unordered :
    less cooperativeType scheduledType = true ∧ less scheduledType cooperativeType = true ∧
      ¬ StrictWeakOn less
        (used [(some 1, cooperativeType), (some 2, scheduledType)] scheduledType) := by
  have below : less cooperativeType scheduledType = true := by decide
  have above : less scheduledType cooperativeType = true := by decide
  refine ⟨below, above, fun order => ?_⟩
  have := order.asymm cooperativeType (Or.inr ⟨_, List.mem_cons_self, rfl⟩) scheduledType
    (Or.inl rfl) below
  rw [above] at this
  cases this

end Kista.Scheduling.PolicyTables
