/- Kista/Scheduling/ResponseTimes
   source: src/src/task_info_t.cpp
   digest: When the reported worst-case response time is the largest response time of a
   completed job, counted from the release of that job. -/

import Kista.Scheduling.PeriodicTask

set_option autoImplicit false
set_option relaxedAutoImplicit false

namespace Kista.Scheduling.ResponseTimes

open Kernel.Delta Kernel.Run
open SystemTask Constructs PeriodicTask

/-- The maximum and its location for the completions of the jobs released at 0, `period`, … -/
structure WorstCase (period : ℕ) (completions : List ℕ) (longest location : ℕ) : Prop where
  bound : ∀ k done, completions[k]? = some done → done ≤ k * period + longest
  attained : completions = [] ∧ longest = 0 ∧ location = 0 ∨
    ∃ k done, completions[k]? = some done ∧ done = k * period + longest ∧ location = k * period

/-- The report at the end of a run. -/
def Reported (period : ℕ) (c : PeriodicConfig) : Prop :=
  ∃ longest location, maxResponseTime c.store.info .stopped = some longest ∧
    locationOfWorstCaseResponseTime c.store.info .stopped = some location ∧
    WorstCase period c.store.completions longest location

/-- A job completes after its own release has been notified and before the next release. -/
def Timely (period : ℕ) (c : PeriodicConfig) : PeriodicLabel → Prop
  | .eval .task _ => c.status .task = .free .working →
      c.store.completions.length * period ≤ c.now ∧
        c.now < (c.store.completions.length + 1) * period ∧ ¬ ReleaseToCome c
  | _ => True

instance (period : ℕ) (c : PeriodicConfig) : (l : PeriodicLabel) → Decidable (Timely period c l)
  | .eval .task _ => inferInstanceAs (Decidable (_ → _ ∧ _ ∧ ¬ ReleaseToCome c))
  | .eval .genReleaseEvent _ => inferInstanceAs (Decidable True)
  | .eval .accountResponseTimes _ => inferInstanceAs (Decidable True)
  | .delta => inferInstanceAs (Decidable True)
  | .advance _ => inferInstanceAs (Decidable True)

theorem WorstCase.extend {period now longest location : ℕ} {completions : List ℕ}
    (h : WorstCase period completions longest location)
    (within : now ≤ completions.length * period + longest) (some : completions ≠ []) :
    WorstCase period (completions ++ [now]) longest location where
  bound k done found := by
    by_cases old : k < completions.length
    · rw [List.getElem?_append_left old] at found
      exact h.bound k done found
    · have bound := (List.getElem?_eq_some_iff.mp found).1
      rw [List.length_append, List.length_singleton] at bound
      obtain rfl : k = completions.length := by omega
      rw [List.getElem?_concat_length] at found
      rwa [← Option.some.inj found]
  attained := by
    right
    rcases h.attained with ⟨none, -⟩ | ⟨k, done, found, value⟩
    · exact absurd none some
    · have bound := (List.getElem?_eq_some_iff.mp found).1
      exact ⟨k, done, by rw [List.getElem?_append_left bound]; exact found, value⟩

theorem WorstCase.exceed {period longest location : ℕ} {completions : List ℕ}
    (h : WorstCase period completions longest location) (now : ℕ)
    (past : completions.length * period + longest ≤ now) :
    WorstCase period (completions ++ [now]) (now - completions.length * period)
      (completions.length * period) where
  bound k done found := by
    by_cases old : k < completions.length
    · rw [List.getElem?_append_left old] at found
      have := h.bound k done found
      omega
    · have bound := (List.getElem?_eq_some_iff.mp found).1
      rw [List.length_append, List.length_singleton] at bound
      obtain rfl : k = completions.length := by omega
      rw [List.getElem?_concat_length] at found
      rw [← Option.some.inj found]
      omega
  attained := by
    right
    exact ⟨completions.length, now, List.getElem?_concat_length, by omega, rfl⟩

/-- One accounting, measured from the own release of the job. -/
theorem WorstCase.account {period now : ℕ} {completions : List ℕ} {t : TaskInfo}
    (h : WorstCase period completions t.maxResponseTimeVar t.locationOfMaxResponseTimeVar)
    (released : completions.length * period ≤ now) :
    WorstCase period (completions ++ [now])
      (accountResponse t now (completions.length * period)).maxResponseTimeVar
      (accountResponse t now (completions.length * period)).locationOfMaxResponseTimeVar := by
  unfold accountResponse
  split
  next past =>
    exact h.exceed now (by omega)
  next within =>
    by_cases first : completions = []
    · -- a first job that takes no time is what the initial values describe
      rcases h.attained with ⟨-, zero, start⟩ | ⟨k, done, found, -⟩
      · subst first
        rw [List.length_nil, Nat.zero_mul] at within
        obtain rfl : now = 0 := by omega
        have exceeded := h.exceed 0 (by simp [zero])
        rw [zero, start]
        simpa using exceeded
      · rw [first] at found
        cases found
    · exact h.extend (by omega) first

theorem maxResponseTimeVar_zero {period : ℕ} {t : TaskInfo}
    (h : WorstCase period [] t.maxResponseTimeVar t.locationOfMaxResponseTimeVar) :
    t.maxResponseTimeVar = 0 := by
  rcases h.attained with ⟨-, zero, -⟩ | ⟨k, done, found, -⟩
  · exact zero
  · cases found

/-- The accounting process listens, or is about to, for the response of job `q + 1`. -/
def Listens (period q now : ℕ) (status : Status (Event Unit) PeriodicPoint) : Prop :=
  status = .blocked [response] none (.responded (q * period)) ∨
    now = q * period ∧ (status = .ready .released ∨ q = 0 ∧ status = .ready .accountStart)

/-- Where the accounting stands, given whether a release of this instant is still to come. -/
inductive AccountPhase (period : ℕ) (run : PeriodicRun) (now : ℕ) (comes : Prop)
    (pending : List (Event Unit)) : Status (Event Unit) PeriodicPoint → Prop
  | listening {status} (listens : Listens period run.completions.length now status)
      (worst : WorstCase period run.completions run.info.maxResponseTimeVar
        run.info.locationOfMaxResponseTimeVar) (silent : response ∉ pending) :
      AccountPhase period run now comes pending status
  | answered {status} {before : List ℕ} (own : run.completions = before ++ [now])
      (listens : Listens period before.length now status)
      (worst : WorstCase period before run.info.maxResponseTimeVar
        run.info.locationOfMaxResponseTimeVar)
      (low : before.length * period ≤ now) (high : now < (before.length + 1) * period)
      (still : ¬ comes) (notified : response ∈ pending) :
      AccountPhase period run now comes pending status
  | accounting {before : List ℕ} (own : run.completions = before ++ [now])
      (worst : WorstCase period before run.info.maxResponseTimeVar
        run.info.locationOfMaxResponseTimeVar)
      (low : before.length * period ≤ now) (high : now < (before.length + 1) * period)
      (still : ¬ comes) (silent : response ∉ pending) :
      AccountPhase period run now comes pending (.ready (.responded (before.length * period)))
  | idle {k : ℕ} (length : run.completions.length = k + 1)
      (worst : WorstCase period run.completions run.info.maxResponseTimeVar
        run.info.locationOfMaxResponseTimeVar)
      (next : k * period ≤ now ∧ now < (k + 1) * period ∧ ¬ comes ∨
        now = (k + 1) * period ∧ comes) (silent : response ∉ pending) :
      AccountPhase period run now comes pending (.blocked [release] none .released)

structure Accounted (period : ℕ) (c : PeriodicConfig) : Prop where
  releases : Releases period c
  phase : AccountPhase period c.store c.now (ReleaseToCome c) c.pending
    (c.status .accountResponseTimes)

theorem worstCase_nil (period : ℕ) : WorstCase period [] 0 0 where
  bound k done found := by cases found
  attained := Or.inl ⟨rfl, rfl, rfl⟩

theorem accounted_start (period deadline : ℕ) :
    Accounted period (simulationStart period deadline) where
  releases := releases_start period deadline
  phase := by
    refine .listening (Or.inr ⟨(Nat.zero_mul period).symm, Or.inr ⟨rfl, rfl⟩⟩) ?_
      List.not_mem_nil
    have longest : (simulationStart period deadline).store.info.maxResponseTimeVar = 0 := rfl
    have location :
        (simulationStart period deadline).store.info.locationOfMaxResponseTimeVar = 0 := rfl
    rw [longest, location]
    exact worstCase_nil period

/-- The phase does not depend on what the other processes change. -/
theorem AccountPhase.congr {period now : ℕ} {run run' : PeriodicRun} {comes comes' : Prop}
    {pending pending' : List (Event Unit)} {status : Status (Event Unit) PeriodicPoint}
    (h : AccountPhase period run now comes pending status)
    (completions : run'.completions = run.completions)
    (longest : run'.info.maxResponseTimeVar = run.info.maxResponseTimeVar)
    (location : run'.info.locationOfMaxResponseTimeVar = run.info.locationOfMaxResponseTimeVar)
    (same : comes' ↔ comes) (notified : response ∈ pending' ↔ response ∈ pending) :
    AccountPhase period run' now comes' pending' status := by
  obtain rfl : comes' = comes := propext same
  cases h with
  | listening listens worst silent =>
    refine .listening (by rwa [completions]) ?_ (by rwa [notified])
    rwa [completions, longest, location]
  | answered own listens worst low high still there =>
    refine .answered (by rwa [completions]) listens ?_ low high still (notified.mpr there)
    rwa [longest, location]
  | accounting own worst low high still silent =>
    refine .accounting (by rwa [completions]) ?_ low high still (by rwa [notified])
    rwa [longest, location]
  | idle length worst next silent =>
    refine .idle (by rwa [completions]) ?_ next (by rwa [notified])
    rwa [completions, longest, location]

/-- The generator notifies no response. -/
theorem response_notified {p : PeriodicProc} {r : PeriodicPoint} {now : ℕ} {run : PeriodicRun}
    {seg : PeriodicSegment} (generator : p = .genReleaseEvent)
    (ran : exec p r () now run = some seg) : response ∉ seg.notified ∧ seg.store = run := by
  subst generator
  have turn : ∀ notified, response ∉ notified →
      response ∉ (genReleaseEvent run now notified).notified ∧
        (genReleaseEvent run now notified).store = run := by
    intro notified absent
    unfold genReleaseEvent
    split
    · exact ⟨absent, rfl⟩
    · exact ⟨List.not_mem_nil, rfl⟩
  cases r with
  | genStart =>
    obtain rfl : _ = seg := Option.some.inj ran
    exact turn [] List.not_mem_nil
  | generate =>
    obtain rfl : _ = seg := Option.some.inj ran
    exact turn [release] (by simp [release, response])
  | accountStart => cases ran
  | responded time => cases ran
  | released => cases ran
  | working => cases ran
  | inside p => cases ran

/-- To begin to listen leaves what was measured. -/
theorem Listens.turn {period q now : ℕ} {run : PeriodicRun} {completions : List ℕ}
    {status : Status (Event Unit) PeriodicPoint} {r : PeriodicPoint} {seg : PeriodicSegment}
    (h : Listens period q now status) (resumes : status.resumable = some r)
    (ran : exec .accountResponseTimes r () now run = some seg)
    (worst : WorstCase period completions run.info.maxResponseTimeVar
      run.info.locationOfMaxResponseTimeVar) (count : completions.length = q) :
    seg.notified = [] ∧ seg.status = .blocked [response] none (.responded (q * period)) ∧
      seg.store.completions = run.completions ∧
      WorstCase period completions seg.store.info.maxResponseTimeVar
        seg.store.info.locationOfMaxResponseTimeVar := by
  rcases h with rfl | ⟨rfl, rfl | ⟨rfl, rfl⟩⟩
  · cases resumes
  · obtain rfl := Option.some.inj resumes
    obtain rfl : _ = seg := Option.some.inj ran
    exact ⟨rfl, rfl, rfl, worst⟩
  · obtain rfl := Option.some.inj resumes
    obtain rfl : _ = seg := Option.some.inj ran
    refine ⟨rfl, rfl, rfl, ?_⟩
    rw [List.length_eq_zero_iff.mp count] at worst ⊢
    have zero := maxResponseTimeVar_zero worst
    rwa [zero] at worst

/-- A turn of the accounting process. -/
theorem AccountPhase.account {period now : ℕ} {run : PeriodicRun} {comes : Prop}
    {pending : List (Event Unit)} {status : Status (Event Unit) PeriodicPoint}
    {r : PeriodicPoint} {seg : PeriodicSegment}
    (h : AccountPhase period run now comes pending status)
    (resumes : status.resumable = some r)
    (ran : exec .accountResponseTimes r () now run = some seg) :
    AccountPhase period seg.store now comes (seg.notified ++ pending) seg.status := by
  cases h with
  | listening listens worst silent =>
    obtain ⟨notified, point, completions, worst⟩ := listens.turn resumes ran worst rfl
    rw [notified, point, ← completions]
    rw [← completions] at worst
    exact .listening (Or.inl rfl) worst silent
  | answered own listens worst low high still there =>
    obtain ⟨notified, point, completions, worst⟩ := listens.turn resumes ran worst rfl
    rw [notified, point]
    exact .answered (completions.trans own) (Or.inl rfl) worst low high still there
  | @accounting before own worst low high still silent =>
    obtain rfl := Option.some.inj resumes
    obtain rfl : _ = seg := Option.some.inj ran
    refine .idle (k := before.length) ?_ ?_ (Or.inl ⟨low, high, still⟩) silent
    · show run.completions.length = _
      rw [own, List.length_append, List.length_singleton]
    · show WorstCase period run.completions _ _
      rw [own]
      exact worst.account low
  | idle => cases resumes

theorem Accounted.task_eval {period : ℕ} {c : PeriodicConfig} {r : PeriodicPoint}
    {seg : PeriodicSegment} (h : Accounted period c) (timely : Timely period c (.eval .task ()))
    (resumes : (c.status .task).resumable = some r)
    (ran : exec .task r () c.now c.store = some seg) :
    AccountPhase period seg.store c.now (ReleaseToCome c) (seg.notified ++ c.pending)
      (c.status .accountResponseTimes) := by
  have turn := exec_task h.releases.periodic h.releases.active (h.releases.task_point resumes) ran
  have completes : c.status .task = .free .working →
      seg.store.completions = c.store.completions ++ [c.now] → response ∈ seg.notified →
      seg.store.info.maxResponseTimeVar = c.store.info.maxResponseTimeVar →
      seg.store.info.locationOfMaxResponseTimeVar = c.store.info.locationOfMaxResponseTimeVar →
      AccountPhase period seg.store c.now (ReleaseToCome c) (seg.notified ++ c.pending)
        (c.status .accountResponseTimes) := by
    intro working completions notified longest location
    obtain ⟨low, high, still⟩ := timely working
    have once : ∀ before : List ℕ, c.store.completions = before ++ [c.now] →
        ¬ c.now < (before.length + 1) * period := by
      intro before own high'
      rw [own, List.length_append, List.length_singleton] at low
      omega
    have phase := h.phase
    generalize c.status .accountResponseTimes = status at phase
    cases phase with
    | listening listens worst silent =>
      refine .answered completions listens ?_ low high still (List.mem_append_left _ notified)
      rwa [longest, location]
    | answered own listens worst low' high' still' there => exact absurd high' (once _ own)
    | accounting own worst low' high' still' silent => exact absurd high' (once _ own)
    | idle length worst next silent =>
      rw [length] at low
      rcases next with ⟨-, before, -⟩ | ⟨-, comes⟩
      · omega
      · exact absurd comes still
  cases turn with
  | late missed => exact completes (h.releases.working resumes) rfl (by simp) rfl rfl
  | inTime met => exact completes (h.releases.working resumes) rfl (by simp) rfl rfl
  | released => exact h.phase.congr rfl rfl rfl Iff.rfl (by simp)

theorem Accounted.eval {period : ℕ} {c : PeriodicConfig} {p : PeriodicProc} {r : PeriodicPoint}
    {seg : PeriodicSegment} (h : Accounted period c) (positive : 0 < period)
    (timely : Timely period c (.eval p ())) (resumes : (c.status p).resumable = some r)
    (ran : exec p r () c.now c.store = some seg) :
    Accounted period ⟨seg.store, Function.update c.status p seg.status, seg.notified ++ c.pending,
      c.now⟩ := by
  have same := h.releases.eval_releaseToCome resumes ran
  refine ⟨h.releases.eval positive resumes ran, ?_⟩
  rw [same]
  cases p with
  | genReleaseEvent =>
    obtain ⟨absent, store⟩ := response_notified rfl ran
    have phase := h.phase.congr (congrArg PeriodicRun.completions store) (by rw [store])
      (by rw [store]) Iff.rfl (show response ∈ seg.notified ++ c.pending ↔ _ by simp [absent])
    simpa using phase
  | accountResponseTimes =>
    have phase := h.phase.account resumes ran
    simpa using phase
  | task =>
    have phase := h.task_eval timely resumes ran
    simpa using phase

theorem Listens.blocked {period q now : ℕ} {status : Status (Event Unit) PeriodicPoint}
    (h : Listens period q now status) (quiet : ∀ r, status ≠ .ready r) :
    status = .blocked [response] none (.responded (q * period)) := by
  rcases h with blocked | ⟨-, ready | ⟨-, ready⟩⟩
  · exact blocked
  · exact absurd ready (quiet _)
  · exact absurd ready (quiet _)

theorem Accounted.delta {period : ℕ} {c : PeriodicConfig} (h : Accounted period c)
    (quiet : ∀ p r, c.status p ≠ .ready r) :
    Accounted period ⟨periodicSystem.update c.store,
      fun p => (c.status p).wake (periodicSystem.fired c) c.now, [], c.now⟩ := by
  refine ⟨h.releases.delta quiet _, ?_⟩
  have still : ¬ ReleaseToCome ⟨periodicSystem.update c.store,
      fun p => (c.status p).wake (periodicSystem.fired c) c.now, [], c.now⟩ :=
    h.releases.delta_silent quiet _
  have fired : periodicSystem.fired c response = decide (response ∈ c.pending) := rfl
  have phase := h.phase
  have ready := quiet .accountResponseTimes
  show AccountPhase period (periodicSystem.update c.store) c.now _ []
    ((c.status .accountResponseTimes).wake (periodicSystem.fired c) c.now)
  generalize c.status .accountResponseTimes = status at phase ready
  cases phase with
  | listening listens worst silent =>
    rw [listens.blocked ready, Status.wake_waiting (by rw [fired, decide_eq_false silent])]
    exact .listening (Or.inl rfl) worst List.not_mem_nil
  | answered own listens worst low high _ notified =>
    rw [listens.blocked ready, Status.wake_blocked_of_fired response (by simp)
      (by rw [fired, decide_eq_true notified])]
    exact .accounting own worst low high still List.not_mem_nil
  | accounting => exact absurd rfl (ready _)
  | idle length worst next silent =>
    rcases next with ⟨low, high, absent⟩ | ⟨instant, comes⟩
    · have none := Bool.eq_false_iff.mpr fun fires => absent ((release_fired_iff quiet).mp fires)
      rw [Status.wake_waiting none]
      exact .idle length worst (Or.inl ⟨low, high, still⟩) List.not_mem_nil
    · rw [Status.wake_blocked_of_fired release (by simp) ((release_fired_iff quiet).mpr comes)]
      refine .listening (Or.inr ⟨?_, Or.inl rfl⟩) worst List.not_mem_nil
      show c.now = c.store.completions.length * period
      rw [length, instant]

theorem Accounted.advance {period t : ℕ} {c : PeriodicConfig} (h : Accounted period c)
    (stable : periodicSystem.stable c = true) (later : c.now < t)
    (within : ∀ p, (c.status p).latest t = true) :
    Accounted period ⟨c.store, fun p => (c.status p).wake (fun _ => false) t, c.pending, t⟩ := by
  obtain ⟨quiet, empty, -, -⟩ := System.stable_iff.mp stable
  refine ⟨h.releases.advance quiet empty later (within _), ?_⟩
  have phase := h.phase
  have ready := quiet .accountResponseTimes
  show AccountPhase period c.store t _ c.pending
    ((c.status .accountResponseTimes).wake (fun _ => false) t)
  generalize c.status .accountResponseTimes = status at phase ready
  cases phase with
  | listening listens worst silent =>
    rw [listens.blocked ready, Status.wake_waiting rfl]
    exact .listening (Or.inl rfl) worst silent
  | answered own listens worst low high still notified =>
    rw [empty] at notified
    cases notified
  | accounting => exact absurd rfl (ready _)
  | idle length worst next silent =>
    rw [Status.wake_waiting rfl]
    rcases next with ⟨low, high, absent⟩ | ⟨-, comes⟩
    · refine .idle length worst ?_ silent
      rcases h.releases.advance_within quiet empty (within _) low high with
        ⟨before, still⟩ | ⟨instant, comes⟩
      · exact Or.inl ⟨by omega, before, still⟩
      · exact Or.inr ⟨instant, comes⟩
    · exact absurd comes (not_releaseToCome quiet empty)

/-- Once no delta is pending, every completed job has been accounted for. -/
theorem Accounted.reported {period : ℕ} {c : PeriodicConfig} (h : Accounted period c)
    (stable : periodicSystem.stable c = true) : Reported period c := by
  obtain ⟨quiet, empty, -, -⟩ := System.stable_iff.mp stable
  have periodic : ¬ (!c.store.info.isPeriodic) = true := by simp [h.releases.periodic]
  refine ⟨_, _, if_neg periodic, if_neg periodic, ?_⟩
  have phase := h.phase
  have ready := quiet .accountResponseTimes
  generalize c.status .accountResponseTimes = status at phase ready
  cases phase with
  | listening listens worst silent => exact worst
  | answered own listens worst low high still notified =>
    rw [empty] at notified
    cases notified
  | accounting => exact absurd rfl (ready _)
  | idle length worst next silent => exact worst

/-- A run whose jobs all complete within their own period reports the right maximum. -/
theorem reported_of_timely {period deadline : ℕ} (positive : 0 < period)
    {ls : List PeriodicLabel} {c : PeriodicConfig}
    (along : Along periodicSystem.step (Timely period) (simulationStart period deadline) ls)
    (reach : run periodicSystem.step (simulationStart period deadline) ls = some c)
    (stable : periodicSystem.stable c = true) : Reported period c := by
  have keep : ∀ c l c', Accounted period c → Timely period c l →
      periodicSystem.step c l = some c' → Accounted period c' := by
    apply System.keeps_of_steps
    · intro c p r choice seg h timely resumes ran
      exact h.eval positive timely resumes ran
    · intro c h _ quiet
      exact h.delta quiet
    · intro c t h _ stable later within
      exact h.advance stable later within
  exact (run_invariant keep (accounted_start period deadline) along reach).reported stable

/-- Two jobs of period 10 that take 4 and 7. -/
def timelyJobs : List PeriodicLabel :=
  [.eval .genReleaseEvent (), .eval .accountResponseTimes (), .advance 4, .eval .task (), .delta,
    .eval .accountResponseTimes (), .advance 10, .eval .genReleaseEvent (), .delta,
    .eval .task (), .eval .accountResponseTimes (), .delta, .advance 17, .eval .task (), .delta,
    .eval .accountResponseTimes ()]

theorem timelyJobs_reported :
    ∃ c, run periodicSystem.step (simulationStart 10 10) timelyJobs = some c ∧
      c.store.completions = [4, 17] ∧ Reported 10 c := by
  have along : Along periodicSystem.step (Timely 10) (simulationStart 10 10) timelyJobs := by
    decide +kernel
  have reached : (run periodicSystem.step (simulationStart 10 10) timelyJobs).map
      (fun c => (c.store.completions, periodicSystem.stable c)) = some ([4, 17], true) := by
    decide +kernel
  obtain ⟨c, reach, value⟩ := Option.map_eq_some_iff.mp reached
  obtain ⟨completions, stable⟩ := Prod.mk.inj value
  exact ⟨c, reach, completions, reported_of_timely (by decide) along reach stable⟩

/-- The first job of period 10 completes at 15, the second at 29. -/
def overrunJobs : List PeriodicLabel :=
  [.eval .genReleaseEvent (), .eval .accountResponseTimes (), .advance 10,
    .eval .genReleaseEvent (), .delta, .advance 15, .eval .task (), .delta,
    .eval .accountResponseTimes (), .advance 20, .eval .genReleaseEvent (), .delta,
    .eval .accountResponseTimes (), .advance 29, .eval .task (), .delta,
    .eval .accountResponseTimes ()]

/-- The second response took 19, and 15 is reported. -/
theorem overrunJobs_misreported :
    ∃ c, run periodicSystem.step (simulationStart 10 10) overrunJobs = some c ∧
      periodicSystem.stable c = true ∧ ¬ Reported 10 c := by
  refine ⟨_, rfl, rfl, ?_⟩
  rintro ⟨longest, location, reads, -, worst⟩
  have second := worst.bound 1 29 rfl
  have first : longest = 15 := (Option.some.inj reads).symm
  omega

end Kista.Scheduling.ResponseTimes
