/- Kista/Scheduling/PeriodicTask
   source: src/src/task_info_t.cpp, user_task_constructs.cpp, defaults.hpp
   digest: A periodic task that always has the processor, with its release generator and the
   accounting of its response times. -/

import Mathlib.Tactic.Ring
import Kista.Scheduling.Constructs

set_option autoImplicit false
set_option relaxedAutoImplicit false

/-!
A job may complete, which is to call `wait_period`, in any evaluation phase. The instants of the
completions and of the starts of the jobs are recorded beside the record of the task.
-/

namespace Kista.Scheduling.PeriodicTask

open Kernel.Delta
open SystemTask Constructs

inductive PeriodicProc where
  | genReleaseEvent
  | accountResponseTimes
  | task
  deriving DecidableEq, Repr

inductive PeriodicPoint where
  | genStart
  | generate
  | accountStart
  | responded (lastReleaseTime : ℕ)
  | released
  | working
  | inside (p : TaskPoint)
  deriving DecidableEq, Repr

structure PeriodicRun where
  info : TaskInfo
  completions : List ℕ
  starts : List ℕ

abbrev PeriodicSegment := Segment (Event Unit) PeriodicPoint PeriodicRun

abbrev PeriodicConfig := Config PeriodicProc (Event Unit) PeriodicPoint PeriodicRun

abbrev PeriodicLabel := Label PeriodicProc Unit

def release : Event Unit := .task () .taskRelease

def response : Event Unit := .task () .endResponse

/-- `gen_release_event`: the first release is notified after one period. -/
def genReleaseEvent (run : PeriodicRun) (now : ℕ) (notified : List (Event Unit)) :
    PeriodicSegment :=
  if run.info.isPeriodic then
    ⟨run, notified, .blocked [] (some (now + run.info.period)) .generate⟩
  else ⟨run, [], .blocked [] none .generate⟩

/-- A job starts where `wait_period` returns. -/
def afterWaitPeriod (run : PeriodicRun) (now : ℕ) : Progress Unit → Option PeriodicSegment
  | .returned t notified =>
    some ⟨{ run with info := t, starts := run.starts ++ [now] }, notified, .free .working⟩
  | .waits t notified status => some ⟨{ run with info := t }, notified, status.map .inside⟩
  | .error => none

def exec : PeriodicProc → PeriodicPoint → Unit → ℕ → PeriodicRun → Option PeriodicSegment
  | .genReleaseEvent, .genStart, _, now, run => some (genReleaseEvent run now [])
  | .genReleaseEvent, .generate, _, now, run => some (genReleaseEvent run now [release])
  | .accountResponseTimes, .accountStart, _, now, run =>
    some ⟨{ run with info := { run.info with maxResponseTimeVar := 0 } }, [],
      .blocked [response] none (.responded now)⟩
  | .accountResponseTimes, .responded lastReleaseTime, _, now, run =>
    some ⟨{ run with info := accountResponse run.info now lastReleaseTime }, [],
      .blocked [release] none .released⟩
  | .accountResponseTimes, .released, _, now, run =>
    some ⟨run, [], .blocked [response] none (.responded now)⟩
  | .task, .working, _, now, run =>
    afterWaitPeriod { run with completions := run.completions ++ [now] } now
      (waitPeriod () now run.info)
  | .task, .inside p, _, now, run => afterWaitPeriod run now (resume () now run.info p)
  | _, _, _, _, _ => none

def periodicSystem : System PeriodicProc (Event Unit) PeriodicPoint PeriodicRun Unit where
  procs := [.genReleaseEvent, .accountResponseTimes, .task]
  complete p := by cases p <;> decide
  exec := exec
  update run := { run with info := update run.info }
  edge run
    | .task () e => edge run.info e
    | _ => false
  dirty run := dirty run.info

/-- The first job is released and starts with the simulation. -/
def simulationStart (period deadline : ℕ) : PeriodicConfig where
  store :=
    { info := endOfElaboration
        { init with
          isPeriodic := true
          period := period
          deadline := deadline
          activeSignal := .init true }
      completions := []
      starts := [0] }
  status
    | .genReleaseEvent => .ready .genStart
    | .accountResponseTimes => .ready .accountStart
    | .task => .free .working
  pending := []
  now := 0

/-- The task turns in one of three ways: late, it goes straight to the next job; otherwise it
waits for a release, and later the release starts the next job. -/
inductive TaskTurn (run : PeriodicRun) (now : ℕ) : PeriodicPoint → PeriodicSegment → Prop
  | late (missed : run.info.currentAbsoluteDeadline < now) : TaskTurn run now .working
      ⟨⟨nextJob { run.info with finishedFlag := false, missDeadlineFlag := true },
        run.completions ++ [now], run.starts ++ [now]⟩, [response], .free .working⟩
  | inTime (met : now ≤ run.info.currentAbsoluteDeadline) : TaskTurn run now .working
      ⟨⟨{ run.info with
          finishedFlag := false
          waitingPeriodSignal := run.info.waitingPeriodSignal.write true },
        run.completions ++ [now], run.starts⟩, [response],
        .blocked [release] none (.inside .periodEnd)⟩
  | released : TaskTurn run now (.inside .periodEnd)
      ⟨⟨nextJob run.info, run.completions, run.starts ++ [now]⟩, [], .free .working⟩

theorem exec_task {run : PeriodicRun} {now : ℕ} {r : PeriodicPoint} {seg : PeriodicSegment}
    (periodic : run.info.isPeriodic = true) (active : run.info.activeSignal = .init true)
    (at' : r = .working ∨ r = .inside .periodEnd) (ran : exec .task r () now run = some seg) :
    TaskTurn run now r seg := by
  have granted : run.info.activeSignal.read = true := by
    rw [active]
    rfl
  rcases at' with rfl | rfl
  · simp only [exec] at ran
    by_cases missed : run.info.currentAbsoluteDeadline < now
    · rw [waitPeriod_late () periodic granted missed] at ran
      obtain rfl : _ = seg := Option.some.inj ran
      exact .late missed
    · rw [waitPeriod_inTime () periodic (Nat.le_of_not_lt missed)] at ran
      obtain rfl : _ = seg := Option.some.inj ran
      exact .inTime (Nat.le_of_not_lt missed)
  · have turn : resume () now run.info .periodEnd = .returned (nextJob run.info) [] :=
      processorGuard_granted () granted
    simp only [exec, turn] at ran
    obtain rfl : _ = seg := Option.some.inj ran
    exact .released

/-- Only the task completes and starts jobs. -/
theorem exec_other {p : PeriodicProc} {r : PeriodicPoint} {now : ℕ} {run : PeriodicRun}
    {seg : PeriodicSegment} (other : p ≠ .task) (ran : exec p r () now run = some seg) :
    seg.store.completions = run.completions ∧ seg.store.starts = run.starts ∧
      seg.store.info.currentAbsoluteDeadline = run.info.currentAbsoluteDeadline := by
  have generator : ∀ notified, (genReleaseEvent run now notified).store = run := by
    intro notified
    unfold genReleaseEvent
    split <;> rfl
  unfold exec at ran
  split at ran
  · obtain rfl : _ = seg := Option.some.inj ran
    simp [generator]
  · obtain rfl : _ = seg := Option.some.inj ran
    simp [generator]
  · obtain rfl : _ = seg := Option.some.inj ran
    exact ⟨rfl, rfl, rfl⟩
  · obtain rfl : _ = seg := Option.some.inj ran
    refine ⟨rfl, rfl, ?_⟩
    show (accountResponse _ _ _).currentAbsoluteDeadline = _
    unfold accountResponse
    split <;> rfl
  · obtain rfl : _ = seg := Option.some.inj ran
    exact ⟨rfl, rfl, rfl⟩
  · exact absurd rfl other
  · exact absurd rfl other
  · cases ran

/-- A release notification of the current instant is still to be seen by the waiting processes. -/
def ReleaseToCome (c : PeriodicConfig) : Prop :=
  c.status .genReleaseEvent = .ready .generate ∨ release ∈ c.pending

instance (c : PeriodicConfig) : Decidable (ReleaseToCome c) :=
  inferInstanceAs (Decidable (_ ∨ _))

/-- The generator, the release event and the task that may wait for it. -/
structure Releases (period : ℕ) (c : PeriodicConfig) : Prop where
  periodic : c.store.info.isPeriodic = true
  interval : c.store.info.period = period
  active : c.store.info.activeSignal = .init true
  task : c.status .task = .free .working ∨ c.status .task = .ready (.inside .periodEnd) ∨
    c.status .task = .blocked [release] none (.inside .periodEnd)
  generator :
    (c.status .genReleaseEvent = .ready .genStart ∧ c.now = 0 ∧ release ∉ c.pending) ∨
    (∃ m, c.status .genReleaseEvent = .blocked [] (some ((m + 1) * period)) .generate ∧
      m * period ≤ c.now ∧ c.now < (m + 1) * period ∧
      (release ∈ c.pending → 0 < m ∧ c.now = m * period)) ∨
    (∃ m, c.status .genReleaseEvent = .ready .generate ∧ c.now = (m + 1) * period ∧
      release ∉ c.pending)

theorem releases_start (period deadline : ℕ) :
    Releases period (simulationStart period deadline) where
  periodic := rfl
  interval := rfl
  active := rfl
  task := Or.inl rfl
  generator := by
    left
    exact ⟨rfl, rfl, List.not_mem_nil⟩

/-- A release to come is one of a positive multiple of the period, at that instant. -/
theorem Releases.instant {period : ℕ} {c : PeriodicConfig} (h : Releases period c)
    (comes : ReleaseToCome c) : ∃ m, 0 < m ∧ c.now = m * period := by
  rcases h.generator with ⟨status, -, silent⟩ | ⟨m, status, -, -, fresh⟩ | ⟨m, -, now, -⟩
  · rcases comes with ready | pending
    · rw [status] at ready
      cases ready
    · exact absurd pending silent
  · rcases comes with ready | pending
    · rw [status] at ready
      cases ready
    · exact ⟨m, fresh pending⟩
  · exact ⟨m + 1, Nat.succ_pos m, now⟩

theorem lt_succ_of_mul {period m k t : ℕ} (low : m * period ≤ t) (high : t < (k + 1) * period) :
    m < k + 1 := by
  by_contra past
  have := Nat.mul_le_mul_right period (Nat.le_of_not_lt past)
  omega

/-- Inside a period, once it is not ready, the generator waits for the end of the period. -/
theorem Releases.next {period k : ℕ} {c : PeriodicConfig} (h : Releases period c)
    (quiet : ∀ r, c.status .genReleaseEvent ≠ .ready r) (low : k * period ≤ c.now)
    (high : c.now < (k + 1) * period) :
    c.status .genReleaseEvent = .blocked [] (some ((k + 1) * period)) .generate := by
  rcases h.generator with ⟨status, -⟩ | ⟨m, status, from', until', -⟩ | ⟨m, status, -⟩
  · exact absurd status (quiet _)
  · have below := lt_succ_of_mul from' high
    have above := lt_succ_of_mul low until'
    have same : m = k := by omega
    rw [status, same]
  · exact absurd status (quiet _)

/-- The segments of the other two processes leave the generator alone. -/
theorem Releases.other {period : ℕ} {c c' : PeriodicConfig} (h : Releases period c)
    (periodic : c'.store.info.isPeriodic = c.store.info.isPeriodic)
    (interval : c'.store.info.period = c.store.info.period)
    (active : c'.store.info.activeSignal = c.store.info.activeSignal)
    (task : c'.status .task = .free .working ∨ c'.status .task = .ready (.inside .periodEnd) ∨
      c'.status .task = .blocked [release] none (.inside .periodEnd))
    (status : c'.status .genReleaseEvent = c.status .genReleaseEvent)
    (pending : release ∈ c'.pending ↔ release ∈ c.pending) (now : c'.now = c.now) :
    Releases period c' where
  periodic := periodic.trans h.periodic
  interval := interval.trans h.interval
  active := active.trans h.active
  task := task
  generator := by
    rw [status, now, pending]
    exact h.generator

theorem mem_response_cons {pending : List (Event Unit)} :
    release ∈ [response] ++ pending ↔ release ∈ pending := by
  simp [release, response]

theorem Releases.task_point {period : ℕ} {c : PeriodicConfig} (h : Releases period c)
    {r : PeriodicPoint} (resumes : (c.status .task).resumable = some r) :
    r = .working ∨ r = .inside .periodEnd := by
  rcases h.task with status | status | status
  · rw [status] at resumes
    exact Or.inl (Option.some.inj resumes).symm
  · rw [status] at resumes
    exact Or.inr (Option.some.inj resumes).symm
  · rw [status] at resumes
    cases resumes

theorem Releases.working {period : ℕ} {c : PeriodicConfig} (h : Releases period c)
    (resumes : (c.status .task).resumable = some .working) : c.status .task = .free .working := by
  rcases h.task with status | status | status
  · exact status
  · rw [status] at resumes
    cases resumes
  · rw [status] at resumes
    cases resumes

theorem Releases.eval {period : ℕ} {c : PeriodicConfig} (h : Releases period c)
    {p : PeriodicProc} {r : PeriodicPoint} {seg : PeriodicSegment} (positive : 0 < period)
    (resumes : (c.status p).resumable = some r) (ran : exec p r () c.now c.store = some seg) :
    Releases period ⟨seg.store, Function.update c.status p seg.status, seg.notified ++ c.pending,
      c.now⟩ := by
  cases p with
  | genReleaseEvent =>
    have turn : ∀ notified, genReleaseEvent c.store c.now notified =
        ⟨c.store, notified, .blocked [] (some (c.now + period)) .generate⟩ := by
      intro notified
      rw [genReleaseEvent, if_pos h.periodic, h.interval]
    have task := h.task
    rcases h.generator with ⟨status, now, silent⟩ | ⟨m, status, -⟩ | ⟨m, status, now, silent⟩
    · rw [status] at resumes
      obtain rfl := Option.some.inj resumes
      obtain rfl : _ = seg := Option.some.inj ran
      rw [turn]
      refine ⟨h.periodic, h.interval, h.active, by simpa using task, .inr (.inl ⟨0, ?_⟩)⟩
      refine ⟨by simp [now], by simp, by simp [now, positive], fun pending => ?_⟩
      exact absurd pending silent
    · rw [status] at resumes
      cases resumes
    · rw [status] at resumes
      obtain rfl := Option.some.inj resumes
      obtain rfl : _ = seg := Option.some.inj ran
      rw [turn]
      refine ⟨h.periodic, h.interval, h.active, by simpa using task, .inr (.inl ⟨m + 1, ?_⟩)⟩
      have after : c.now + period = (m + 1 + 1) * period := by
        rw [now]
        ring
      refine ⟨by simp [after], now.ge, by show c.now < _; omega, fun _ => ⟨Nat.succ_pos m, now⟩⟩
  | accountResponseTimes =>
    have task := h.task
    cases r with
    | accountStart =>
      obtain rfl : _ = seg := Option.some.inj ran
      exact h.other rfl rfl rfl (by simpa using task) (by simp) (by simp) rfl
    | responded lastReleaseTime =>
      obtain rfl : _ = seg := Option.some.inj ran
      have kept : (accountResponse c.store.info c.now lastReleaseTime).isPeriodic
            = c.store.info.isPeriodic ∧
          (accountResponse c.store.info c.now lastReleaseTime).period = c.store.info.period ∧
          (accountResponse c.store.info c.now lastReleaseTime).activeSignal
            = c.store.info.activeSignal := by
        unfold accountResponse
        split <;> exact ⟨rfl, rfl, rfl⟩
      exact h.other kept.1 kept.2.1 kept.2.2 (by simpa using task) (by simp) (by simp) rfl
    | released =>
      obtain rfl : _ = seg := Option.some.inj ran
      exact h.other rfl rfl rfl (by simpa using task) (by simp) (by simp) rfl
    | genStart => cases ran
    | generate => cases ran
    | working => cases ran
    | inside p => cases ran
  | task =>
    cases exec_task h.periodic h.active (h.task_point resumes) ran with
    | late missed => exact h.other rfl rfl rfl (by simp) (by simp) mem_response_cons rfl
    | inTime met => exact h.other rfl rfl rfl (by simp) (by simp) mem_response_cons rfl
    | released => exact h.other rfl rfl rfl (by simp) (by simp) (by simp) rfl

/-- Within an evaluation phase a release to come stays to come. -/
theorem Releases.eval_releaseToCome {period : ℕ} {c : PeriodicConfig} (h : Releases period c)
    {p : PeriodicProc} {r : PeriodicPoint} {seg : PeriodicSegment}
    (resumes : (c.status p).resumable = some r) (ran : exec p r () c.now c.store = some seg) :
    ReleaseToCome ⟨seg.store, Function.update c.status p seg.status, seg.notified ++ c.pending,
      c.now⟩ ↔ ReleaseToCome c := by
  cases p with
  | genReleaseEvent =>
    have turn : ∀ notified, genReleaseEvent c.store c.now notified =
        ⟨c.store, notified, .blocked [] (some (c.now + c.store.info.period)) .generate⟩ :=
      fun _ => if_pos h.periodic
    rcases h.generator with ⟨status, -, silent⟩ | ⟨m, status, -⟩ | ⟨m, status, -⟩
    · rw [status] at resumes
      obtain rfl := Option.some.inj resumes
      obtain rfl : _ = seg := Option.some.inj ran
      simp [ReleaseToCome, turn, status, silent]
    · rw [status] at resumes
      cases resumes
    · rw [status] at resumes
      obtain rfl := Option.some.inj resumes
      obtain rfl : _ = seg := Option.some.inj ran
      simp [ReleaseToCome, turn, status]
  | accountResponseTimes =>
    have silent : seg.notified = [] := by
      cases r with
      | accountStart => exact congrArg Segment.notified (Option.some.inj ran).symm
      | responded time => exact congrArg Segment.notified (Option.some.inj ran).symm
      | released => exact congrArg Segment.notified (Option.some.inj ran).symm
      | genStart => cases ran
      | generate => cases ran
      | working => cases ran
      | inside p => cases ran
    simp [ReleaseToCome, silent]
  | task =>
    have other : release ∉ seg.notified := by
      cases exec_task h.periodic h.active (h.task_point resumes) ran with
      | late missed => simp [release, response]
      | inTime met => simp [release, response]
      | released => exact List.not_mem_nil
    simp [ReleaseToCome, other]

theorem Releases.task_wake {period : ℕ} {c : PeriodicConfig} (h : Releases period c)
    (fired : Event Unit → Bool) (t : ℕ) :
    (c.status .task).wake fired t = .free .working ∨
      (c.status .task).wake fired t = .ready (.inside .periodEnd) ∨
      (c.status .task).wake fired t = .blocked [release] none (.inside .periodEnd) := by
  rcases h.task with status | status | status
  · rw [status]
    exact Or.inl rfl
  · rw [status]
    exact Or.inr (Or.inl rfl)
  · rw [status]
    right
    simp only [Status.wake]
    split
    · exact Or.inl rfl
    · exact Or.inr rfl

theorem Releases.delta {period : ℕ} {c : PeriodicConfig} (h : Releases period c)
    (quiet : ∀ p r, c.status p ≠ .ready r) (fired : Event Unit → Bool) :
    Releases period ⟨{ c.store with info := update c.store.info },
      fun p => (c.status p).wake fired c.now, [], c.now⟩ := by
  refine ⟨h.periodic, h.interval, ?_, h.task_wake _ _, ?_⟩
  · show c.store.info.activeSignal.update = _
    rw [h.active]
    rfl
  · rcases h.generator with ⟨status, -⟩ | ⟨m, status, low, high, -⟩ | ⟨m, status, -⟩
    · exact absurd status (quiet _ _)
    · right
      left
      refine ⟨m, ?_, low, high, fun pending => absurd pending List.not_mem_nil⟩
      refine Status.wake_eq_blocked.mpr ⟨status, by simp, ?_⟩
      intro due
      have := Option.some.inj due
      have high : c.now < (m + 1) * period := high
      omega
    · exact absurd status (quiet _ _)

theorem Releases.advance {period : ℕ} {c : PeriodicConfig} (h : Releases period c) {t : ℕ}
    (quiet : ∀ p r, c.status p ≠ .ready r) (empty : c.pending = []) (later : c.now < t)
    (within : (c.status .genReleaseEvent).latest t = true) :
    Releases period ⟨c.store, fun p => (c.status p).wake (fun _ => false) t, c.pending, t⟩ := by
  refine ⟨h.periodic, h.interval, h.active, h.task_wake _ _, ?_⟩
  rcases h.generator with ⟨status, -⟩ | ⟨m, status, low, high, -⟩ | ⟨m, status, -⟩
  · exact absurd status (quiet _ _)
  · rw [status] at within
    have bound : t ≤ (m + 1) * period := of_decide_eq_true within
    right
    by_cases due : t = (m + 1) * period
    · right
      refine ⟨m, ?_, due, by rw [empty]; exact List.not_mem_nil⟩
      exact Status.wake_eq_ready.mpr (Or.inr ⟨_, _, status, Or.inr (by rw [due])⟩)
    · left
      refine ⟨m, ?_, by show m * period ≤ t; omega, by show t < _; omega, ?_⟩
      · refine Status.wake_eq_blocked.mpr ⟨status, fun _ _ => rfl, ?_⟩
        intro same
        exact due (Option.some.inj same).symm
      · rw [empty]
        exact fun pending => absurd pending List.not_mem_nil
  · exact absurd status (quiet _ _)

/-- Once the processes have run, the release event fires exactly if a release was to come. -/
theorem release_fired_iff {c : PeriodicConfig} (quiet : ∀ p r, c.status p ≠ .ready r) :
    periodicSystem.fired c release = true ↔ ReleaseToCome c := by
  show (false || decide (release ∈ c.pending)) = true ↔ _
  rw [Bool.false_or, decide_eq_true_eq]
  constructor
  · intro pending
    exact Or.inr pending
  · rintro (ready | pending)
    · exact absurd ready (quiet _ _)
    · exact pending

/-- Time advances inside a period without a release, and to its end with the release. -/
theorem Releases.advance_within {period k t : ℕ} {c : PeriodicConfig} (h : Releases period c)
    (quiet : ∀ p r, c.status p ≠ .ready r) (empty : c.pending = [])
    (within : (c.status .genReleaseEvent).latest t = true) (low : k * period ≤ c.now)
    (high : c.now < (k + 1) * period) {store : PeriodicRun} :
    (t < (k + 1) * period ∧
      ¬ ReleaseToCome ⟨store, fun p => (c.status p).wake (fun _ => false) t, c.pending, t⟩) ∨
    (t = (k + 1) * period ∧
      ReleaseToCome ⟨store, fun p => (c.status p).wake (fun _ => false) t, c.pending, t⟩) := by
  have generator := h.next (quiet _) low high
  rw [generator] at within
  have bound : t ≤ (k + 1) * period := of_decide_eq_true within
  by_cases instant : t = (k + 1) * period
  · refine Or.inr ⟨instant, Or.inl ?_⟩
    exact Status.wake_eq_ready.mpr (Or.inr ⟨_, _, generator, Or.inr (by rw [instant])⟩)
  · refine Or.inl ⟨by omega, ?_⟩
    rintro (ready | pending)
    · rcases Status.wake_eq_ready.mp ready with before | ⟨events, timeout, blocked, woken⟩
      · exact quiet _ _ before
      · rw [generator] at blocked
        cases blocked
        rcases woken with ⟨e, he, -⟩ | due
        · cases he
        · exact instant (Option.some.inj due).symm
    · rw [show c.pending = [] from empty] at pending
      cases pending

/-- No release is to come once the processes have run and the delta is over. -/
theorem not_releaseToCome {c : PeriodicConfig} (quiet : ∀ p r, c.status p ≠ .ready r)
    (empty : c.pending = []) : ¬ ReleaseToCome c := by
  rintro (ready | pending)
  · exact quiet _ _ ready
  · rw [empty] at pending
    exact List.not_mem_nil pending

/-- A delta hands the pending release over, and the generator has nothing new before time
advances. -/
theorem Releases.delta_silent {period : ℕ} {c : PeriodicConfig} (h : Releases period c)
    (quiet : ∀ p r, c.status p ≠ .ready r) (fired : Event Unit → Bool) {store : PeriodicRun} :
    ¬ ReleaseToCome ⟨store, fun p => (c.status p).wake fired c.now, [], c.now⟩ := by
  rintro (ready | pending)
  · rcases Status.wake_eq_ready.mp ready with before | ⟨events, timeout, status, woken⟩
    · exact quiet _ _ before
    · rcases h.generator with ⟨start, -⟩ | ⟨m, blocked, -, high, -⟩ | ⟨m, start, -⟩
      · exact quiet _ _ start
      · rw [blocked] at status
        cases status
        rcases woken with ⟨e, he, -⟩ | due
        · cases he
        · have := Option.some.inj due
          omega
      · exact quiet _ _ start
  · cases pending

end Kista.Scheduling.PeriodicTask
