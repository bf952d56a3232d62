/- Kista/Scheduling/ActivationLaw
   source: src/src/user_task_constructs.cpp, task_info_t.cpp
   digest: When every job of a periodic task starts at its release or at the completion of the
   job before it, whichever comes last. -/

import Kista.Scheduling.PeriodicTask

set_option autoImplicit false
set_option relaxedAutoImplicit false

namespace Kista.Scheduling.ActivationLaw

open Kernel.Delta Kernel.Run
open SystemTask Constructs PeriodicTask

/-- Job `k + 2` starts at its release or at the completion of job `k + 1`. -/
def StartsInTurn (period : ℕ) (completions starts : List ℕ) : Prop :=
  ∀ k start, starts[k + 1]? = some start →
    ∃ completion, completions[k]? = some completion ∧ start = max ((k + 1) * period) completion

/-- Every start is the right one, and no job is overdue when time is about to advance. -/
structure Activated (period : ℕ) (c : PeriodicConfig) : Prop where
  starts : StartsInTurn period c.store.completions c.store.starts
  prompt : periodicSystem.stable c = true →
    c.store.starts.length = c.store.completions.length →
      c.now < c.store.completions.length * period

/-- The instants of the completions increase. -/
def Increasing (c : PeriodicConfig) : PeriodicLabel → Prop
  | .eval .task _ => c.status .task = .free .working →
      ∀ last ∈ c.store.completions.getLast?, last < c.now
  | _ => True

/-- A job is late only if its successor is already released; in time, it completes before the
release of its successor or before a release notification of the same instant. -/
def Punctual (period deadline : ℕ) (c : PeriodicConfig) : PeriodicLabel → Prop
  | .eval .task _ => c.status .task = .free .working →
      (c.store.completions.length * period + deadline < c.now ∧
        (c.store.completions.length + 1) * period ≤ c.now) ∨
      (c.now ≤ c.store.completions.length * period + deadline ∧
        (c.now < (c.store.completions.length + 1) * period ∨ ReleaseToCome c))
  | _ => True

instance (c : PeriodicConfig) : (l : PeriodicLabel) → Decidable (Increasing c l)
  | .eval .task _ => inferInstanceAs
    (Decidable (_ → ∀ last ∈ c.store.completions.getLast?, last < c.now))
  | .eval .genReleaseEvent _ => inferInstanceAs (Decidable True)
  | .eval .accountResponseTimes _ => inferInstanceAs (Decidable True)
  | .delta => inferInstanceAs (Decidable True)
  | .advance _ => inferInstanceAs (Decidable True)

instance (period deadline : ℕ) (c : PeriodicConfig) :
    (l : PeriodicLabel) → Decidable (Punctual period deadline c l)
  | .eval .task _ => inferInstanceAs (Decidable (_ → _ ∧ _ ∨ _ ∧ (_ ∨ ReleaseToCome c)))
  | .eval .genReleaseEvent _ => inferInstanceAs (Decidable True)
  | .eval .accountResponseTimes _ => inferInstanceAs (Decidable True)
  | .delta => inferInstanceAs (Decidable True)
  | .advance _ => inferInstanceAs (Decidable True)

theorem StartsInTurn.complete {period t : ℕ} {completions starts : List ℕ}
    (h : StartsInTurn period completions starts) :
    StartsInTurn period (completions ++ [t]) starts := by
  intro k start found
  obtain ⟨completion, there, value⟩ := h k start found
  have bound := (List.getElem?_eq_some_iff.mp there).1
  exact ⟨completion, by rw [List.getElem?_append_left bound]; exact there, value⟩

theorem StartsInTurn.start {period last : ℕ} {completions starts : List ℕ}
    (h : StartsInTurn period completions starts) (waiting : starts.length = completions.length)
    (done : completions.getLast? = some last) :
    StartsInTurn period completions (starts ++ [max (completions.length * period) last]) := by
  intro k start found
  by_cases old : k + 1 < starts.length
  · rw [List.getElem?_append_left old] at found
    exact h k start found
  · have bound := (List.getElem?_eq_some_iff.mp found).1
    rw [List.length_append, List.length_singleton] at bound
    have index : k + 1 = starts.length := by omega
    rw [index, List.getElem?_concat_length] at found
    refine ⟨last, ?_, ?_⟩
    · rw [List.getLast?_eq_getElem?] at done
      rw [← done]
      congr 1
      omega
    · rw [← Option.some.inj found, index, waiting]

/-- Where the task stands, given whether a release of this instant is still to come. -/
inductive JobPhase (period deadline : ℕ) (run : PeriodicRun) (now : ℕ) (comes : Prop) :
    Status (Event Unit) PeriodicPoint → Prop
  | working (count : run.starts.length = run.completions.length + 1)
      (due : run.info.currentAbsoluteDeadline = run.completions.length * period + deadline)
      (released : run.completions.length * period ≤ now)
      (fresh : comes → now = run.completions.length * period →
        run.completions.getLast? = some now) :
      JobPhase period deadline run now comes (.free .working)
  | early (count : run.starts.length = run.completions.length)
      (due : run.info.currentAbsoluteDeadline + period
        = run.completions.length * period + deadline) {last k : ℕ}
      (done : run.completions.getLast? = some last) (past : last ≤ now)
      (length : run.completions.length = k + 1) (low : k * period ≤ now)
      (high : now < (k + 1) * period) (silent : ¬ comes) :
      JobPhase period deadline run now comes (.blocked [release] none (.inside .periodEnd))
  | imminent (count : run.starts.length = run.completions.length)
      (due : run.info.currentAbsoluteDeadline + period
        = run.completions.length * period + deadline) {last : ℕ}
      (done : run.completions.getLast? = some last)
      (instant : now = max (run.completions.length * period) last) (comes' : comes) :
      JobPhase period deadline run now comes (.blocked [release] none (.inside .periodEnd))
  | awake (count : run.starts.length = run.completions.length)
      (due : run.info.currentAbsoluteDeadline + period
        = run.completions.length * period + deadline) {last : ℕ}
      (done : run.completions.getLast? = some last)
      (instant : now = max (run.completions.length * period) last) (silent : ¬ comes) :
      JobPhase period deadline run now comes (.ready (.inside .periodEnd))

structure OnTrack (period deadline : ℕ) (c : PeriodicConfig) : Prop where
  releases : Releases period c
  starts : StartsInTurn period c.store.completions c.store.starts
  phase : JobPhase period deadline c.store c.now (ReleaseToCome c) (c.status .task)

theorem onTrack_start {period deadline : ℕ} (some : 0 < deadline) :
    OnTrack period deadline (simulationStart period deadline) where
  releases := releases_start period deadline
  starts k start found := by cases found
  phase := by
    refine .working rfl ?_ (by simp [simulationStart]) ?_
    · have : deadline ≠ 0 := by omega
      simp [simulationStart, endOfElaboration, this]
    · intro comes
      rcases comes with ready | pending
      · cases ready
      · cases pending

/-- The phase does not depend on what the other processes change. -/
theorem JobPhase.congr {period deadline now : ℕ} {run run' : PeriodicRun} {comes comes' : Prop}
    {status : Status (Event Unit) PeriodicPoint}
    (h : JobPhase period deadline run now comes status)
    (completions : run'.completions = run.completions) (starts : run'.starts = run.starts)
    (due' : run'.info.currentAbsoluteDeadline = run.info.currentAbsoluteDeadline)
    (same : comes' ↔ comes) : JobPhase period deadline run' now comes' status := by
  obtain rfl : comes' = comes := propext same
  cases h with
  | working count due released fresh =>
    refine .working ?_ ?_ ?_ ?_
    all_goals simpa only [completions, starts, due']
  | early count due done past length low high silent =>
    have done' := completions ▸ done
    refine .early ?_ ?_ done' past ?_ low high silent
    all_goals simpa only [completions, starts, due']
  | imminent count due done instant comes' =>
    have done' := completions ▸ done
    refine .imminent ?_ ?_ done' ?_ comes'
    all_goals simpa only [completions, starts, due']
  | awake count due done instant silent =>
    have done' := completions ▸ done
    refine .awake ?_ ?_ done' ?_ silent
    all_goals simpa only [completions, starts, due']

theorem OnTrack.task_eval {period deadline : ℕ} {c : PeriodicConfig} {r : PeriodicPoint}
    {seg : PeriodicSegment} (h : OnTrack period deadline c)
    (increasing : Increasing c (.eval .task ()))
    (punctual : Punctual period deadline c (.eval .task ()))
    (resumes : (c.status .task).resumable = some r)
    (ran : exec .task r () c.now c.store = some seg) :
    StartsInTurn period seg.store.completions seg.store.starts ∧
      JobPhase period deadline seg.store c.now (ReleaseToCome c) seg.status := by
  have turn := exec_task h.releases.periodic h.releases.active (h.releases.task_point resumes) ran
  have phase := h.phase
  have interval := h.releases.interval
  generalize task : c.status .task = status at phase resumes
  cases turn with
  | late missed =>
    cases phase with
    | early => cases resumes
    | imminent => cases resumes
    | awake => cases resumes
    | working count due released fresh =>
      have past : (c.store.completions.length + 1) * period ≤ c.now := by
        rcases punctual task with late | inTime <;> omega
      constructor
      · have last : (c.store.completions ++ [c.now]).getLast? = some c.now := List.getLast?_concat
        have start := h.starts.complete.start (by simpa using count) last
        rw [List.length_append, List.length_singleton, max_eq_right past] at start
        exact start
      · refine .working (by simp [count]) ?_ (by simpa using past) ?_
        · simp only [nextJob, List.length_append, List.length_singleton, Nat.add_mul]
          omega
        · intro _ _
          exact List.getLast?_concat
  | inTime met =>
    cases phase with
    | early => cases resumes
    | imminent => cases resumes
    | awake => cases resumes
    | working count due released fresh =>
      refine ⟨h.starts.complete, ?_⟩
      have due' : c.store.info.currentAbsoluteDeadline + period
          = (c.store.completions.length + 1) * period + deadline := by
        rw [due, Nat.add_mul]
        omega
      by_cases comes : ReleaseToCome c
      · have after : (c.store.completions.length + 1) * period ≤ c.now := by
          by_contra before
          obtain ⟨m, -, now⟩ := h.releases.instant comes
          have above := lt_succ_of_mul now.ge (Nat.lt_of_not_le before)
          have below := lt_succ_of_mul released
            (show c.now < (m + 1) * period by rw [now, Nat.add_mul]; omega)
          have own : m = c.store.completions.length := by omega
          have last := fresh comes (by rw [now, own])
          exact Nat.lt_irrefl _ (increasing task _ last)
        refine .imminent (by simp [count]) (by simpa using due') List.getLast?_concat ?_ comes
        simpa using after
      · have before : c.now < (c.store.completions.length + 1) * period := by
          rcases punctual task with late | ⟨-, early | comes'⟩
          · omega
          · exact early
          · exact absurd comes' comes
        exact .early (by simp [count]) (by simpa using due') List.getLast?_concat le_rfl
          List.length_append released before comes
  | released =>
    cases phase with
    | working => cases resumes
    | early => cases resumes
    | imminent => cases resumes
    | @awake count due last done instant silent =>
      constructor
      · rw [instant]
        exact h.starts.start count done
      · have released : c.store.completions.length * period ≤ c.now := by
          rw [instant]
          exact Nat.le_max_left _ _
        refine .working (by simp [count]) ?_ released fun comes => absurd comes silent
        simp only [nextJob, interval]
        exact due

theorem OnTrack.eval {period deadline : ℕ} {c : PeriodicConfig} {p : PeriodicProc}
    {r : PeriodicPoint} {seg : PeriodicSegment} (h : OnTrack period deadline c)
    (positive : 0 < period) (increasing : Increasing c (.eval p ()))
    (punctual : Punctual period deadline c (.eval p ()))
    (resumes : (c.status p).resumable = some r)
    (ran : exec p r () c.now c.store = some seg) :
    OnTrack period deadline ⟨seg.store, Function.update c.status p seg.status,
      seg.notified ++ c.pending, c.now⟩ := by
  have same := h.releases.eval_releaseToCome resumes ran
  by_cases task : p = .task
  · subst task
    obtain ⟨starts, phase⟩ := h.task_eval increasing punctual resumes ran
    refine ⟨h.releases.eval positive resumes ran, starts, ?_⟩
    rw [same]
    simpa using phase
  · obtain ⟨completions, starts, due⟩ := exec_other task ran
    refine ⟨h.releases.eval positive resumes ran, ?_, ?_⟩
    · rw [completions, starts]
      exact h.starts
    · have status : Function.update c.status p seg.status .task = c.status .task :=
        Function.update_of_ne (Ne.symm task) _ _
      have phase := h.phase.congr completions starts due same
      rw [← status] at phase
      exact phase

theorem OnTrack.delta {period deadline : ℕ} {c : PeriodicConfig} (h : OnTrack period deadline c)
    (quiet : ∀ p r, c.status p ≠ .ready r) :
    OnTrack period deadline ⟨periodicSystem.update c.store,
      fun p => (c.status p).wake (periodicSystem.fired c) c.now, [], c.now⟩ := by
  refine ⟨h.releases.delta quiet _, h.starts, ?_⟩
  have silent : ¬ ReleaseToCome ⟨periodicSystem.update c.store,
      fun p => (c.status p).wake (periodicSystem.fired c) c.now, [], c.now⟩ :=
    h.releases.delta_silent quiet _
  have phase := h.phase
  generalize task : c.status .task = status at phase
  show JobPhase period deadline (periodicSystem.update c.store) c.now _
    ((c.status .task).wake (periodicSystem.fired c) c.now)
  rw [task]
  cases phase with
  | working count due released fresh =>
    exact .working count due released fun comes => absurd comes silent
  | early count due done past length low high still =>
    have unreleased : periodicSystem.fired c release = false := by
      rw [Bool.eq_false_iff]
      exact fun fires => still ((release_fired_iff quiet).mp fires)
    rw [Status.wake_waiting unreleased]
    exact .early count due done past length low high silent
  | imminent count due done instant comes =>
    rw [Status.wake_blocked_of_fired release (by simp) ((release_fired_iff quiet).mpr comes)]
    exact .awake count due done instant silent
  | awake => exact absurd task (quiet _ _)

theorem OnTrack.advance {period deadline t : ℕ} {c : PeriodicConfig}
    (h : OnTrack period deadline c) (stable : periodicSystem.stable c = true)
    (later : c.now < t) (within : ∀ p, (c.status p).latest t = true) :
    OnTrack period deadline ⟨c.store, fun p => (c.status p).wake (fun _ => false) t, c.pending,
      t⟩ := by
  obtain ⟨quiet, empty, -, -⟩ := System.stable_iff.mp stable
  refine ⟨h.releases.advance quiet empty later (within _), h.starts, ?_⟩
  have nothing := not_releaseToCome quiet empty
  have phase := h.phase
  generalize task : c.status .task = status at phase
  show JobPhase period deadline c.store t _ ((c.status .task).wake (fun _ => false) t)
  rw [task]
  cases phase with
  | working count due released fresh =>
    exact .working count due (by omega) fun _ own => by omega
  | imminent count due done instant comes => exact absurd comes nothing
  | awake => exact absurd task (quiet _ _)
  | early count due done past length low high silent =>
    rw [Status.wake_waiting rfl]
    rcases h.releases.advance_within quiet empty (within _) low high with
      ⟨before, still⟩ | ⟨instant, comes⟩
    · exact .early count due done (by omega) length (by omega) before still
    · exact .imminent count due done (by rw [length]; omega) comes

theorem OnTrack.activated {period deadline : ℕ} {c : PeriodicConfig}
    (h : OnTrack period deadline c) : Activated period c where
  starts := h.starts
  prompt stable waiting := by
    obtain ⟨quiet, empty, -, -⟩ := System.stable_iff.mp stable
    have phase := h.phase
    generalize task : c.status .task = status at phase
    cases phase with
    | working count due released fresh => omega
    | early count due done past length low high silent => rwa [length]
    | imminent count due done instant comes => exact absurd comes (not_releaseToCome quiet empty)
    | awake => exact absurd task (quiet _ _)

/-- Along a run whose completions are punctual, every job starts at the right instant. -/
theorem starts_of_punctual {period deadline : ℕ} (positive : 0 < period) (bounded : 0 < deadline)
    {ls : List PeriodicLabel} {c : PeriodicConfig}
    (along : Along periodicSystem.step
      (fun c l => Increasing c l ∧ Punctual period deadline c l)
      (simulationStart period deadline) ls)
    (reach : run periodicSystem.step (simulationStart period deadline) ls = some c) :
    Activated period c := by
  have keep : ∀ c l c', OnTrack period deadline c →
      Increasing c l ∧ Punctual period deadline c l → periodicSystem.step c l = some c' →
      OnTrack period deadline c' := by
    apply System.keeps_of_steps
    · intro c p r choice seg h ok resumes ran
      exact h.eval positive ok.1 ok.2 resumes ran
    · intro c h _ quiet
      exact h.delta quiet
    · intro c t h _ stable later within
      exact h.advance stable later within
  exact (run_invariant keep (onTrack_start bounded) along reach).activated

/-- Jobs of period 10 and deadline 15 that complete at 4, at 20 before the release of that
instant is notified, and at 36, after their deadline. -/
def punctualJobs : List PeriodicLabel :=
  [.eval .genReleaseEvent (), .eval .accountResponseTimes (), .advance 4, .eval .task (), .delta,
    .eval .accountResponseTimes (), .advance 10, .eval .genReleaseEvent (), .delta,
    .eval .task (), .eval .accountResponseTimes (), .delta, .advance 20, .eval .task (),
    .eval .genReleaseEvent (), .delta, .eval .task (), .eval .accountResponseTimes (), .delta,
    .advance 30, .eval .genReleaseEvent (), .delta, .eval .accountResponseTimes (), .advance 36,
    .eval .task ()]

theorem punctualJobs_start :
    ∃ c, run periodicSystem.step (simulationStart 10 15) punctualJobs = some c ∧
      c.store.starts = [0, 10, 20, 36] ∧ Activated 10 c := by
  have along : Along periodicSystem.step (fun c l => Increasing c l ∧ Punctual 10 15 c l)
      (simulationStart 10 15) punctualJobs := by decide +kernel
  have starts : (run periodicSystem.step (simulationStart 10 15) punctualJobs).map
      (fun c => c.store.starts) = some [0, 10, 20, 36] := by decide +kernel
  obtain ⟨c, reach, value⟩ := Option.map_eq_some_iff.mp starts
  exact ⟨c, reach, value, starts_of_punctual (by decide) (by decide) along reach⟩

/-- The first job of period and deadline 10 completes at 10, just after the release. -/
def releaseThenCompletion : List PeriodicLabel :=
  [.eval .genReleaseEvent (), .eval .accountResponseTimes (), .advance 10,
    .eval .genReleaseEvent (), .delta, .eval .task (), .delta, .eval .accountResponseTimes ()]

/-- The second job is not started at 10, and time is about to advance. -/
theorem releaseThenCompletion_skips :
    Along periodicSystem.step Increasing (simulationStart 10 10) releaseThenCompletion ∧
      ∃ c, run periodicSystem.step (simulationStart 10 10) releaseThenCompletion = some c ∧
        ¬ Activated 10 c := by
  constructor
  · decide +kernel
  · refine ⟨_, rfl, fun h => ?_⟩
    have early := h.prompt rfl rfl
    exact absurd early (by decide)

end Kista.Scheduling.ActivationLaw
