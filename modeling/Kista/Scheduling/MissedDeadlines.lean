/- Kista/Scheduling/MissedDeadlines
   source: src/src/user_task_constructs.cpp, task_info_t.cpp
   digest: The flag of missed deadlines says exactly whether some job so far completed behind its
   deadline. -/

import Kista.Scheduling.Exclusivity
import Kista.Scheduling.TaskRule

set_option autoImplicit false
set_option relaxedAutoImplicit false

/-!
The jobs of a periodic task are counted from 0: job `k` is released after `k` periods. A job
completes with its call of `wait_period`, which notifies the end of a response.
-/

namespace Kista.Scheduling.MissedDeadlines

open Kernel.Delta Kernel.Run
open SystemTask Constructs Rtos StateMachine TaskCoherence TaskRule Exclusivity

variable {ι : Type}

/-- `miss_deadline` -/
def missDeadline (t : TaskInfo) : Bool := t.missDeadlineFlag

/-- Some job completed behind its deadline. -/
def Late (period deadline : ℕ) (completions : List ℕ) : Prop :=
  ∃ k c, completions[k]? = some c ∧ k * period + deadline < c

theorem not_late_nil (period deadline : ℕ) : ¬ Late period deadline [] := by
  rintro ⟨k, c, found, -⟩
  cases found

theorem late_concat {period deadline : ℕ} {completions : List ℕ} {now : ℕ} :
    Late period deadline (completions ++ [now]) ↔
      Late period deadline completions ∨ completions.length * period + deadline < now := by
  constructor
  · rintro ⟨k, c, found, late⟩
    rcases Nat.lt_trichotomy k completions.length with before | rfl | behind
    · rw [List.getElem?_append_left before] at found
      exact Or.inl ⟨k, c, found, late⟩
    · rw [List.getElem?_concat_length] at found
      obtain rfl := Option.some.inj found
      exact Or.inr late
    · rw [List.getElem?_eq_none (by simp; omega)] at found
      cases found
  · rintro (⟨k, c, found, late⟩ | late)
    · refine ⟨k, c, ?_, late⟩
      rw [List.getElem?_append_left (List.getElem?_eq_some_iff.mp found).1]
      exact found
    · exact ⟨completions.length, now, List.getElem?_concat_length, late⟩

/-- The deadline of a job against its release. -/
def relativeDeadline {tasks : TaskSet ι} (settings : Settings tasks) (i : ι) : ℕ :=
  if settings.deadline i = 0 then settings.period i else settings.deadline i

/-- A periodic task between two waits or at one, with the instants at which its jobs completed. -/
structure Due (period deadline : ℕ) (t : TaskInfo) (p : TaskPoint) (completions : List ℕ) :
    Prop where
  periodic : t.isPeriodic = true
  rate : t.period = period
  /-- A job that waits for its period has still to move the deadline on. -/
  due : t.currentAbsoluteDeadline + (if atPeriod p then period else 0) =
    completions.length * period + deadline
  missed : t.missDeadlineFlag = true ↔ Late period deadline completions

/-- What a thread does between two completions. -/
theorem Due.congr {period deadline : ℕ} {t t' : TaskInfo} {p p' : TaskPoint} {completions : List ℕ}
    (h : Due period deadline t p completions) (periodic : t'.isPeriodic = t.isPeriodic)
    (rate : t'.period = t.period) (due : t'.currentAbsoluteDeadline = t.currentAbsoluteDeadline)
    (missed : t'.missDeadlineFlag = t.missDeadlineFlag) (place : atPeriod p' = atPeriod p) :
    Due period deadline t' p' completions where
  periodic := periodic.trans h.periodic
  rate := rate.trans h.rate
  due := by
    rw [due, place]
    exact h.due
  missed := by
    rw [missed]
    exact h.missed

theorem due_start {tasks : TaskSet ι} (settings : Settings tasks) {i : ι}
    (periodic : settings.isPeriodic i = true) :
    Due (settings.period i) (relativeDeadline settings i) ((simulationStart settings).store.info i)
      .start [] := by
  have info : (simulationStart settings).store.info i =
      { init with
        isPeriodic := settings.isPeriodic i
        period := settings.period i
        deadline := settings.deadline i
        currentAbsoluteDeadline := relativeDeadline settings i } := by
    simp only [simulationStart, endOfElaboration, periodic, if_true]
    rfl
  rw [info]
  refine ⟨periodic, rfl, ?_, ?_⟩
  · simp [atPeriod]
  · simp [init, not_late_nil]

section Completions

variable [DecidableEq ι]

/-- The completions of a task behind an evaluation of its thread. -/
def completed (i : ι) (now : ℕ) (notified : List (Event ι)) (completions : List ℕ) : List ℕ :=
  completions ++ List.replicate (notified.count (.task i .endResponse)) now

variable {i : ι} {now : ℕ} {completions : List ℕ}

@[simp] theorem completed_nil : completed i now [] completions = completions := by
  simp [completed]

@[simp] theorem completed_yield : completed i now [.yieldEvent] completions = completions := by
  simp [completed]

@[simp] theorem completed_endResponse :
    completed i now [.task i .endResponse] completions = completions ++ [now] := by
  simp [completed]

theorem completed_append (notified notified' : List (Event ι)) :
    completed i now (notified' ++ notified) completions =
      completed i now notified' (completed i now notified completions) := by
  simp only [completed, List.count_append, List.append_assoc]
  rw [← List.replicate_add, Nat.add_comm]

/-- A progress that keeps the deadline of its task in step with the completions. -/
def KeepsDue (period deadline : ℕ) (i : ι) (now : ℕ) (completions : List ℕ) : Progress ι → Prop
  | .returned t notified => Due period deadline t .guardEnd (completed i now notified completions)
  | .waits t notified status =>
    Due period deadline t status.point (completed i now notified completions)
  | .error => True

variable {period deadline : ℕ}

theorem KeepsDue.andThen {p : Progress ι} {next : TaskInfo → Progress ι}
    (h : KeepsDue period deadline i now completions p)
    (later : ∀ t completions, Due period deadline t .guardEnd completions →
      KeepsDue period deadline i now completions (next t)) :
    KeepsDue period deadline i now completions (p.andThen next) := by
  cases p with
  | returned t notified =>
    have after := later t _ h
    simp only [Progress.andThen]
    generalize next t = p at after
    cases p with
    | returned t' notified' =>
      show Due _ _ _ _ _
      rw [completed_append]
      exact after
    | waits t' notified' status =>
      show Due _ _ _ _ _
      rw [completed_append]
      exact after
    | error => trivial
  | waits t notified status => exact h
  | error => trivial

theorem processorGuard_due {t : TaskInfo} (due : Due period deadline t .guardEnd completions) :
    KeepsDue period deadline i now completions (processorGuard i t) := by
  unfold processorGuard
  split
  · show Due _ _ _ _ _
    rwa [completed_nil]
  · show Due _ _ _ _ _
    rwa [completed_nil]

/-- The job that completes missed its deadline. -/
theorem Due.miss {t : TaskInfo} (h : Due period deadline t .guardEnd completions)
    (late : t.currentAbsoluteDeadline < now) :
    Due period deadline (nextJob { t with finishedFlag := false, missDeadlineFlag := true })
      .guardEnd (completions ++ [now]) where
  periodic := h.periodic
  rate := h.rate
  due := by
    have due : t.currentAbsoluteDeadline = completions.length * period + deadline := h.due
    show t.currentAbsoluteDeadline + t.period + 0 = (completions ++ [now]).length * period + deadline
    rw [due, h.rate, List.length_append, List.length_singleton, Nat.add_mul]
    omega
  missed := by
    have due : t.currentAbsoluteDeadline = completions.length * period + deadline := h.due
    rw [due] at late
    exact ⟨fun _ => late_concat.mpr (Or.inr late), fun _ => rfl⟩

/-- The job that completes met its deadline. -/
theorem Due.meet {t : TaskInfo} (h : Due period deadline t .guardEnd completions)
    (met : ¬ t.currentAbsoluteDeadline < now) :
    Due period deadline
      { t with finishedFlag := false, waitingPeriodSignal := t.waitingPeriodSignal.write true }
      .periodEnd (completions ++ [now]) where
  periodic := h.periodic
  rate := h.rate
  due := by
    have due : t.currentAbsoluteDeadline = completions.length * period + deadline := h.due
    show t.currentAbsoluteDeadline + period = (completions ++ [now]).length * period + deadline
    rw [due, List.length_append, List.length_singleton, Nat.add_mul]
    omega
  missed := by
    have due : t.currentAbsoluteDeadline = completions.length * period + deadline := h.due
    rw [due] at met
    exact h.missed.trans (late_concat.trans (or_iff_left met)).symm

/-- The job released at the end of the wait for the period has the next deadline. -/
theorem Due.release {t : TaskInfo} (h : Due period deadline t .periodEnd completions) :
    Due period deadline (nextJob t) .guardEnd completions where
  periodic := h.periodic
  rate := h.rate
  due := by
    have due : t.currentAbsoluteDeadline + period = completions.length * period + deadline := h.due
    show t.currentAbsoluteDeadline + t.period + 0 = _
    rw [h.rate, Nat.add_zero]
    exact due
  missed := h.missed

theorem call_due (m : Mode) {t : TaskInfo} (h : Due period deadline t .guardEnd completions)
    (c : Construct) : KeepsDue period deadline i now completions (call m i now t c) := by
  cases c with
  | consume compTime =>
    simp only [call, consume, consumeLoop, consumeWait]
    split_ifs
    all_goals
      show Due _ _ _ _ _
      rw [completed_nil]
      exact h.congr rfl rfl rfl rfl rfl
  | yield =>
    simp only [call, yield]
    split_ifs
    · show Due _ _ _ _ _
      rw [completed_yield]
      exact h.congr rfl rfl rfl rfl rfl
    · trivial
    · show Due _ _ _ _ _
      rwa [completed_nil]
  | waitPeriod =>
    simp only [call, waitPeriod]
    split_ifs with aperiodic late
    · trivial
    · unfold periodEnd processorGuard
      split
      all_goals
        show Due _ _ _ _ _
        rw [completed_endResponse]
        exact h.miss late
    · show Due _ _ _ _ _
      rw [completed_endResponse]
      exact h.meet late
  | sync blocks =>
    simp only [call, Constructs.sync]
    split_ifs
    · show Due _ _ _ _ _
      rw [completed_nil]
      exact h.congr rfl rfl rfl rfl rfl
    · exact processorGuard_due (h.congr rfl rfl rfl rfl rfl)

theorem resume_due {t : TaskInfo} {p : TaskPoint} (h : Due period deadline t p completions) :
    KeepsDue period deadline i now completions (resume i now t p) := by
  cases p with
  | periodEnd => exact processorGuard_due h.release
  | syncEnd => exact processorGuard_due (h.congr rfl rfl rfl rfl rfl)
  | consumeEnd startTime =>
    simp only [resume, consumeEnd, consumeLoop, consumeWait]
    split_ifs
    all_goals
      show Due _ _ _ _ _
      rw [completed_nil]
      exact h.congr rfl rfl rfl rfl rfl
  | ended => trivial
  | _ =>
    show Due _ _ _ _ _
    rw [completed_nil]
    exact h.congr rfl rfl rfl rfl rfl

theorem functionality_due (m : Mode) (calls : List Construct) {t : TaskInfo}
    (h : Due period deadline t .guardEnd completions) :
    KeepsDue period deadline i now completions (functionality m i now calls t) := by
  induction calls generalizing t completions with
  | nil =>
    show Due _ _ _ _ _
    rw [completed_nil]
    exact h.congr rfl rfl rfl rfl rfl
  | cons c calls ih => exact (call_due m h c).andThen fun _ _ due => ih due

/-- From one wait to the next. -/
theorem thread_due (m : Mode) (calls : List Construct) {t t' : TaskInfo} {p : TaskPoint}
    {notified : List (Event ι)} {status : Status (Event ι) TaskPoint}
    (h : Due period deadline t p completions)
    (progress : (resume i now t p).andThen (functionality m i now calls) =
      .waits t' notified status) :
    Due period deadline t' status.point (completed i now notified completions) := by
  have keeps : KeepsDue period deadline i now completions
      ((resume i now t p).andThen (functionality m i now calls)) :=
    (resume_due h).andThen fun _ _ due => functionality_due m calls due
  rw [progress] at keeps
  exact keeps

end Completions

section Run

variable [DecidableEq ι] {tasks : TaskSet ι} {settings : Settings tasks}

/-- What holds of a task and the instants at which its jobs completed. -/
def DueTask (settings : Settings tasks) : TaskProperty ι (List ℕ) := fun i _ completions t _ thread =>
  ∃ p, thread.point = .inside p ∧ (settings.isPeriodic i = true →
    Due (settings.period i) (relativeDeadline settings i) t p completions)

theorem due_kept (settings : Settings tasks) :
    Preserves (fun _ => True) completed (DueTask settings) where
  granting active h := by
    obtain ⟨p, point, due⟩ := h
    exact ⟨p, point, fun periodic => (due periodic).congr rfl rfl rfl rfl rfl⟩
  running h resumes progress := by
    obtain ⟨p, point, due⟩ := h
    obtain rfl := point_of_resumes point resumes
    exact ⟨_, Status.map_point _, fun periodic => thread_due _ _ (due periodic) progress⟩
  turning h _ _ _ := by
    obtain ⟨p, point, due⟩ := h
    exact ⟨p, point, fun periodic => (due periodic).congr rfl rfl rfl rfl rfl⟩
  showing h _ _ _ := by
    obtain ⟨p, point, due⟩ := h
    exact ⟨p, Status.wake_point.trans point, fun periodic => (due periodic).congr rfl rfl rfl rfl rfl⟩
  advancing h _ _ _ _ _ := by
    obtain ⟨p, point, due⟩ := h
    exact ⟨p, Status.wake_point.trans point, due⟩

/-- In every run, the flag of a periodic task is up exactly when one of the jobs completed so far
completed behind its deadline. -/
theorem miss_deadline_iff {labels : List (RtosLabel ι)} {c : RtosConfig ι} {h : ι → List ℕ} {i : ι}
    (periodic : settings.isPeriodic i = true)
    (reach : run (recording (rtosSystem tasks).step (noteTasks completed))
      (simulationStart settings, fun _ => []) labels = some (c, h)) :
    missDeadline (c.store.info i) = true ↔
      Late (settings.period i) (relativeDeadline settings i) (h i) := by
  have every := (due_kept settings).every (fun i => ⟨_, rfl, due_start settings⟩)
    along_turns_always reach
  obtain ⟨p, -, due⟩ := every.tasks i
  exact (due periodic).missed

end Run

/-- A deadline of 3 without time slicing: the first job ends at 4, and the second, which starts
at once, ends at 6. -/
def tightSettings : Settings soleTask :=
  { soleSettings with
    tSlicingFlag := false
    deadline := fun _ => 3 }

def lateThenEarly : List (RtosLabel Unit) :=
  firstScheduling ++
    [calls () [.consume 3], .delta, .advance 4, calls () [.waitPeriod, .consume 2], .delta,
      .advance 6, calls () [.waitPeriod], .delta]

theorem lateThenEarly_missed :
    ∃ c h, run (recording (rtosSystem soleTask).step (noteTasks completed))
        (simulationStart tightSettings, fun _ => []) lateThenEarly = some (c, h) ∧
      h () = [4, 6] ∧
      missDeadline (c.store.info ()) = true := by
  have reached : (run (recording (rtosSystem soleTask).step (noteTasks completed))
      (simulationStart tightSettings, fun _ => []) lateThenEarly).map (fun x => x.2 ()) =
      some [4, 6] := by decide +kernel
  obtain ⟨⟨c, h⟩, reach, value⟩ := Option.map_eq_some_iff.mp reached
  have late : Late (tightSettings.period ()) (relativeDeadline tightSettings ()) (h ()) := by
    rw [show h () = [4, 6] from value]
    exact ⟨0, 4, rfl, by decide⟩
  exact ⟨c, h, reach, value, (miss_deadline_iff rfl reach).mpr late⟩

end Kista.Scheduling.MissedDeadlines
