/- Kista/Scheduling/DeadlineSettings
   source: src/src/task_info_t.cpp, task_info_t.hpp
   digest: The setters of period and deadline before the simulation, the deadline that a sequence
   of calls leaves, and exactly when the order of the calls does not matter. -/

import Mathlib.Data.List.Induction
import Kista.Scheduling.SystemTask

set_option autoImplicit false
set_option relaxedAutoImplicit false

/-!
One field holds the deadline of the user and the one implied by the period; zero means that it is
not set. Arbitrary deadlines are allowed: a deadline above the period is only warned about.
-/

namespace Kista.Scheduling.DeadlineSettings

open SystemTask

inductive SetterError where
  | afterStart
  | zeroPeriod
  deriving DecidableEq

inductive Warning where
  | periodAdopted (period : ℕ)
  | deadlineUnsettled
  | greaterThanPeriod (deadline period : ℕ)
  deriving DecidableEq

def checkBeforeSimulation (started : Bool) : Except SetterError Unit :=
  if started then .error .afterStart else .ok ()

/-- `set_Period`: a deadline established before is held. -/
def setPeriod (started : Bool) (t : ℕ) (task : TaskInfo) : Except SetterError TaskInfo := do
  checkBeforeSimulation started
  if t = 0 then throw .zeroPeriod
  return { task with
    period := t
    isPeriodic := true
    deadline := if task.deadline = 0 then t else task.deadline }

/-- `set_Deadline`, with what it warns about. -/
def setDeadline (started : Bool) (t : ℕ) (task : TaskInfo) :
    Except SetterError (TaskInfo × List Warning) := do
  checkBeforeSimulation started
  let zero :=
    if t ≠ 0 then []
    else if task.isPeriodic then [.periodAdopted task.period]
    else [.deadlineUnsettled]
  let greater :=
    if task.period < t ∧ task.isPeriodic then [.greaterThanPeriod t task.period] else []
  return ({ task with deadline := t }, zero ++ greater)

def getDeadline (task : TaskInfo) : ℕ := task.deadline

inductive Call where
  | setPeriod (t : ℕ)
  | setDeadline (t : ℕ)
  deriving DecidableEq

def Call.apply (task : TaskInfo) : Call → Except SetterError TaskInfo
  | setPeriod t => DeadlineSettings.setPeriod false t task
  | setDeadline t => (DeadlineSettings.setDeadline false t task).map Prod.fst

/-- A new task after a sequence of calls before the simulation. -/
def configure (calls : List Call) : Except SetterError TaskInfo := calls.foldlM Call.apply init

/-- The setters of a periodic task: any number of calls, a period at least once and never zero. -/
structure Settings where
  calls : List Call
  periodic : ∃ t, .setPeriod t ∈ calls
  positive : ∀ t, .setPeriod t ∈ calls → 0 < t

/-! ### What the calls ask for -/

/-- The argument of the last call of `set_Period`; zero when there is none. -/
def lastPeriod (calls : List Call) : ℕ :=
  calls.foldl (fun last call => match call with | .setPeriod t => t | .setDeadline _ => last) 0

/-- The argument of the last call of `set_Deadline`; zero when there is none. -/
def lastDeadline (calls : List Call) : ℕ :=
  calls.foldl (fun last call => match call with | .setPeriod _ => last | .setDeadline t => t) 0

/-- The deadline that is independent of the order: the user's if there is one, else the period. -/
def wantedDeadline (calls : List Call) : ℕ :=
  if lastDeadline calls = 0 then lastPeriod calls else lastDeadline calls

/-- The periods set since the last call of `set_Deadline`, or since the start. -/
def periodsSince (calls : List Call) : List ℕ :=
  calls.foldl
    (fun since call => match call with | .setPeriod t => since ++ [t] | .setDeadline _ => []) []

/-- The last user deadline counts, or the periods set since are there and the first of them, which
becomes the deadline, is also the last. -/
def OrderHarmless (calls : List Call) : Prop :=
  lastDeadline calls ≠ 0 ∨
    ∃ t, (periodsSince calls).head? = some t ∧ (periodsSince calls).getLast? = some t

/-- Both the deadline that is read and the first absolute one are independent of the order. -/
def DeadlineRight (calls : List Call) : Prop :=
  ∃ task, configure calls = .ok task ∧ getDeadline task = wantedDeadline calls ∧
    (endOfElaboration task).currentAbsoluteDeadline = wantedDeadline calls

theorem setPeriod_eq {t : ℕ} (hpos : t ≠ 0) (task : TaskInfo) :
    setPeriod false t task = .ok { task with
      period := t
      isPeriodic := true
      deadline := if task.deadline = 0 then t else task.deadline } := by
  simp [setPeriod, checkBeforeSimulation, hpos, bind, Except.bind, pure, Except.pure]

theorem setDeadline_eq (t : ℕ) (task : TaskInfo) :
    ∃ warnings, setDeadline false t task = .ok ({ task with deadline := t }, warnings) :=
  ⟨_, rfl⟩

section Concat

variable (calls : List Call) (t : ℕ)

@[simp] theorem lastPeriod_period : lastPeriod (calls ++ [.setPeriod t]) = t := by
  simp [lastPeriod]

@[simp] theorem lastPeriod_deadline :
    lastPeriod (calls ++ [.setDeadline t]) = lastPeriod calls := by
  simp [lastPeriod]

@[simp] theorem lastDeadline_period :
    lastDeadline (calls ++ [.setPeriod t]) = lastDeadline calls := by
  simp [lastDeadline]

@[simp] theorem lastDeadline_deadline : lastDeadline (calls ++ [.setDeadline t]) = t := by
  simp [lastDeadline]

@[simp] theorem periodsSince_period :
    periodsSince (calls ++ [.setPeriod t]) = periodsSince calls ++ [t] := by
  simp [periodsSince]

@[simp] theorem periodsSince_deadline : periodsSince (calls ++ [.setDeadline t]) = [] := by
  simp [periodsSince]

theorem configure_append (call : Call) :
    configure (calls ++ [call]) = configure calls >>= fun task => call.apply task := by
  simp [configure, List.foldlM_append]

end Concat

variable {calls : List Call}

theorem mem_of_periodsSince {t : ℕ} (h : t ∈ periodsSince calls) : .setPeriod t ∈ calls := by
  induction calls using List.reverseRecOn with
  | nil => cases h
  | append_singleton calls call ih =>
    cases call with
    | setPeriod u =>
      rw [periodsSince_period, List.mem_append, List.mem_singleton] at h
      rcases h with earlier | rfl
      · exact List.mem_append_left _ (ih earlier)
      · simp
    | setDeadline u => simp at h

/-- The last of the periods since the last user deadline is the last of all. -/
theorem lastPeriod_of_periodsSince {t : ℕ} (h : (periodsSince calls).getLast? = some t) :
    lastPeriod calls = t := by
  induction calls using List.reverseRecOn with
  | nil => cases h
  | append_singleton calls call _ =>
    cases call with
    | setPeriod u => simpa using h
    | setDeadline u => simp at h

theorem lastPeriod_pos (periodic : ∃ t, .setPeriod t ∈ calls)
    (positive : ∀ t, .setPeriod t ∈ calls → 0 < t) : 0 < lastPeriod calls := by
  induction calls using List.reverseRecOn with
  | nil =>
    obtain ⟨t, h⟩ := periodic
    cases h
  | append_singleton calls call ih =>
    cases call with
    | setPeriod t =>
      rw [lastPeriod_period]
      exact positive t (by simp)
    | setDeadline t =>
      rw [lastPeriod_deadline]
      apply ih
      · obtain ⟨u, h⟩ := periodic
        exact ⟨u, by simpa using h⟩
      · intro u h
        exact positive u (List.mem_append_left _ h)

/-- What a sequence of calls leaves in the task. The deadline is the user's last one, or else the
first period since. -/
theorem configure_eq (positive : ∀ t, .setPeriod t ∈ calls → 0 < t) :
    ∃ task, configure calls = .ok task ∧ task.period = lastPeriod calls ∧
      (task.isPeriodic = true ↔ ∃ t, .setPeriod t ∈ calls) ∧
      task.deadline =
        if lastDeadline calls = 0 then (periodsSince calls).head?.getD 0
        else lastDeadline calls := by
  induction calls using List.reverseRecOn with
  | nil => exact ⟨init, rfl, rfl, by simp [init], rfl⟩
  | append_singleton calls call ih =>
    obtain ⟨task, before, hperiod, hperiodic, hdeadline⟩ :=
      ih fun t h => positive t (List.mem_append_left _ h)
    rw [configure_append, before]
    cases call with
    | setPeriod t =>
      have hpos : t ≠ 0 := (positive t (by simp)).ne'
      have hsince : ∀ u ∈ periodsSince calls, u ≠ 0 := fun u h =>
        (positive u (List.mem_append_left _ (mem_of_periodsSince h))).ne'
      refine ⟨_, setPeriod_eq hpos task, by simp, ?_, ?_⟩
      · exact iff_of_true rfl ⟨t, by simp⟩
      · simp only [lastDeadline_period, periodsSince_period, hdeadline]
        split
        · rename_i unset
          cases hcase : periodsSince calls with
          | nil => simp
          | cons u rest =>
            have : u ≠ 0 := hsince u (by simp [hcase])
            simp [this]
        · rfl
    | setDeadline t =>
      obtain ⟨warnings, accepted⟩ := setDeadline_eq t task
      refine ⟨{ task with deadline := t }, ?_, by simpa using hperiod, ?_, ?_⟩
      · show (DeadlineSettings.setDeadline false t task).map Prod.fst = _
        rw [accepted]
        rfl
      · rw [hperiodic]
        simp
      · simp only [lastDeadline_deadline, periodsSince_deadline]
        split
        · rename_i zero
          simpa using zero
        · rfl

/-- The deadline does not depend on the order of the calls exactly where the user's last deadline
is not zero, or is followed by periods of which the first is the last. -/
theorem deadlineRight_iff (settings : Settings) :
    DeadlineRight settings.calls ↔ OrderHarmless settings.calls := by
  obtain ⟨calls, periodic, positive⟩ := settings
  obtain ⟨task, configured, hperiod, hperiodic, hdeadline⟩ := configure_eq positive
  have hlast := lastPeriod_pos periodic positive
  have hright : DeadlineRight calls ↔ task.deadline = wantedDeadline calls := by
    have hfirst : task.deadline = wantedDeadline calls →
        (endOfElaboration task).currentAbsoluteDeadline = wantedDeadline calls := by
      intro same
      rw [endOfElaboration, if_pos (hperiodic.mpr periodic)]
      simp only [same, hperiod]
      split
      · rename_i zero
        unfold wantedDeadline at zero
        split at zero <;> omega
      · rfl
    constructor
    · rintro ⟨task', configured', hread, -⟩
      rw [configured] at configured'
      cases configured'
      exact hread
    · intro same
      exact ⟨task, configured, same, hfirst same⟩
  rw [hright, hdeadline, wantedDeadline, OrderHarmless]
  by_cases given : lastDeadline calls = 0
  · rw [if_pos given, if_pos given]
    simp only [given, ne_eq, not_true_eq_false, false_or]
    cases hsince : periodsSince calls with
    | nil => simpa using hlast.ne
    | cons first rest =>
      obtain ⟨last, hlastSince⟩ : ∃ last, (periodsSince calls).getLast? = some last := by
        rw [hsince]
        exact ⟨_, List.getLast?_eq_some_getLast (by simp)⟩
      have hsame := lastPeriod_of_periodsSince hlastSince
      rw [hsince] at hlastSince
      simp only [List.head?_cons, Option.getD_some, Option.some.injEq, exists_eq_left', hlastSince,
        hsame]
      exact eq_comm
  · rw [if_neg given, if_neg given]
    exact iff_of_true rfl (.inl given)

/-- A second period leaves the deadline at the first. -/
theorem second_period_ignored :
    ¬ ∀ settings : Settings, DeadlineRight settings.calls := by
  intro hall
  obtain ⟨task, configured, hread, -⟩ :=
    hall ⟨[.setPeriod 10, .setPeriod 20], ⟨10, by simp⟩, by simp⟩
  have hleft : (configure [.setPeriod 10, .setPeriod 20]).toOption.map getDeadline = some 10 := rfl
  rw [configured] at hleft
  have hwanted : wantedDeadline [.setPeriod 10, .setPeriod 20] = 20 := rfl
  rw [hwanted] at hread
  simp [Except.toOption, hread] at hleft

/-- A deadline of zero after the period is read as zero. -/
example : (configure [.setPeriod 10, .setDeadline 0]).toOption.map getDeadline = some 0 := rfl

end Kista.Scheduling.DeadlineSettings
