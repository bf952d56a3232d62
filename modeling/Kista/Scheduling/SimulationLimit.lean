/- Kista/Scheduling/SimulationLimit
   source: src/src/scheduler.cpp, scheduler.hpp, user_task_constructs.cpp, taskset_by_name_t.cpp,
   task_info_t.cpp
   digest: The limit of the simulation time that the elaboration of the schedulers leaves behind,
   and the jobs that are released before a scheduler reaches it. -/

import Kista.Kernel.Run
import Kista.Scheduling.Exclusivity
import Kista.Scheduling.Hyperperiod

set_option autoImplicit false
set_option relaxedAutoImplicit false

/-!
Each scheduler revises the limit when its elaboration ends. Products of times are exact; what is
reported as an error has no value, and warnings are left out.
-/

namespace Kista.Scheduling.SimulationLimit

open Kernel.Delta Kernel.Run
open Dispatch (SchedulerPolicy)
open Hyperperiod (Resolution Task isPeriodic getHyperperiod leastCommonMultiple)
open SystemTask Constructs Rtos StateMachine Exclusivity

/-- What the end of elaboration of a scheduler reads to revise the limit; of the entries of a static
schedule and of the assigned tasks these are the execution times. -/
structure Elaborated where
  schedulerPolicy : SchedulerPolicy
  sufficientGlobalSimTimeFactor : ℕ
  staticSchedule : List ℕ
  wcets : List ℕ
  tasksAssigned : List Task

/-- `set_sufficient_global_simulation_time` -/
def setSufficientGlobalSimulationTime (elaboration : Bool) (n : ℕ) (s : Elaborated) :
    Option Elaborated :=
  if elaboration then
    if n = 0 then none
    else if s.schedulerPolicy = .staticScheduling ∨ s.schedulerPolicy = .cycleExecutive ∨
        isPeriodic s.tasksAssigned = true then
      some { s with sufficientGlobalSimTimeFactor := n }
    else some s
  else none

/-- `get_WCET` of a static schedule or of the assigned tasks. -/
def getWcet (wcets : List ℕ) : ℕ := wcets.foldl (fun tmp wcet => tmp + wcet) 0

def newGlobalSimTime (r : Resolution) (s : Elaborated) : Option ℕ :=
  if s.tasksAssigned = [] ∨ s.sufficientGlobalSimTimeFactor = 0 then some 0
  else if s.schedulerPolicy = .staticScheduling then
    some (s.sufficientGlobalSimTimeFactor * getWcet s.staticSchedule)
  else if s.schedulerPolicy = .cycleExecutive then
    some (s.sufficientGlobalSimTimeFactor * getWcet s.wcets)
  else if isPeriodic s.tasksAssigned = true then
    (getHyperperiod r s.tasksAssigned).map fun hyperperiod =>
      s.sufficientGlobalSimTimeFactor * hyperperiod
  else some 0

/-- The revision of the limit at the end of `end_of_elaboration`. -/
def reviseLimit (r : Resolution) (globalSimTime : ℕ) (s : Elaborated) : Option ℕ :=
  (newGlobalSimTime r s).map fun new => if globalSimTime < new then new else globalSimTime

/-- The ends of elaboration of the schedulers, in the order in which they are called. -/
def endOfElaborations (r : Resolution) (globalSimTime : ℕ) (scheds : List Elaborated) : Option ℕ :=
  scheds.foldlM (reviseLimit r) globalSimTime

variable {r : Resolution} {limit limit' : ℕ} {s : Elaborated} {scheds scheds' : List Elaborated}

theorem reviseLimit_eq_some :
    reviseLimit r limit s = some limit' ↔
      ∃ new, newGlobalSimTime r s = some new ∧ limit' = max limit new := by
  unfold reviseLimit
  rw [Option.map_eq_some_iff]
  refine exists_congr fun new => and_congr_right fun _ => ?_
  split
  next less => rw [max_eq_right less.le, eq_comm]
  next notLess => rw [max_eq_left (not_lt.mp notLess), eq_comm]

/-- The final limit is the largest of the one that was set and those that the schedulers need. -/
structure IsLimit (r : Resolution) (limit : ℕ) (scheds : List Elaborated) (final : ℕ) : Prop where
  defined : ∀ s ∈ scheds, (newGlobalSimTime r s).isSome = true
  settled : limit ≤ final
  sufficient : ∀ s ∈ scheds, ∀ new ∈ newGlobalSimTime r s, new ≤ final
  least : final = limit ∨ ∃ s ∈ scheds, newGlobalSimTime r s = some final

theorem endOfElaborations_eq_some {final : ℕ} :
    endOfElaborations r limit scheds = some final ↔ IsLimit r limit scheds final := by
  induction scheds generalizing limit with
  | nil =>
    constructor
    · rintro ⟨rfl⟩
      exact ⟨nofun, le_rfl, nofun, Or.inl rfl⟩
    · rintro ⟨-, -, -, rfl | ⟨s, listed, -⟩⟩
      · rfl
      · cases listed
  | cons s scheds ih =>
    show ((reviseLimit r limit s).bind fun next => endOfElaborations r next scheds) = some final ↔ _
    rw [Option.bind_eq_some_iff]
    constructor
    · rintro ⟨next, revised, rest⟩
      obtain ⟨new, needed, rfl⟩ := reviseLimit_eq_some.mp revised
      obtain ⟨defined, settled, sufficient, least⟩ := ih.mp rest
      refine ⟨List.forall_mem_cons.mpr ⟨by rw [needed]; rfl, defined⟩,
        (le_max_left _ _).trans settled,
        List.forall_mem_cons.mpr ⟨fun new' needed' => ?_, sufficient⟩, ?_⟩
      · obtain rfl : new = new' := Option.some.inj (needed.symm.trans needed')
        exact (le_max_right _ _).trans settled
      · rcases least with same | ⟨s', listed, needs⟩
        · rcases max_choice limit new with first | second
          · exact Or.inl (same.trans first)
          · refine Or.inr ⟨s, List.mem_cons_self, ?_⟩
            rw [needed, same, second]
        · exact Or.inr ⟨s', List.mem_cons_of_mem _ listed, needs⟩
    · rintro ⟨defined, settled, sufficient, least⟩
      obtain ⟨here, defined⟩ := List.forall_mem_cons.mp defined
      obtain ⟨covers, sufficient⟩ := List.forall_mem_cons.mp sufficient
      obtain ⟨new, needed⟩ := Option.isSome_iff_exists.mp here
      have covered := covers new needed
      refine ⟨max limit new, reviseLimit_eq_some.mpr ⟨new, needed, rfl⟩,
        ih.mpr ⟨defined, max_le settled covered, sufficient, ?_⟩⟩
      rcases least with rfl | ⟨s', listed, needs⟩
      · exact Or.inl (max_eq_left covered).symm
      · rcases List.mem_cons.mp listed with rfl | later
        · obtain rfl : new = final := Option.some.inj (needed.symm.trans needs)
          exact Or.inl (max_eq_right settled).symm
        · exact Or.inr ⟨s', later, needs⟩

theorem IsLimit.perm {final : ℕ} (h : IsLimit r limit scheds final)
    (same : scheds.Perm scheds') : IsLimit r limit scheds' final where
  defined s listed := h.defined s (same.mem_iff.mpr listed)
  settled := h.settled
  sufficient s listed := h.sufficient s (same.mem_iff.mpr listed)
  least := by
    refine h.least.imp_right ?_
    rintro ⟨s, listed, needs⟩
    exact ⟨s, same.mem_iff.mp listed, needs⟩

/-- The order in which the schedulers are elaborated does not matter. -/
theorem endOfElaborations_perm (same : scheds.Perm scheds') :
    endOfElaborations r limit scheds = endOfElaborations r limit scheds' := by
  refine Option.ext fun final => ?_
  rw [endOfElaborations_eq_some, endOfElaborations_eq_some]
  exact ⟨fun h => h.perm same, fun h => h.perm same.symm⟩

/-- A call for a periodic task set takes effect. -/
theorem asked_of_periodic {elaboration : Bool} {n : ℕ} {s₀ : Elaborated}
    (asked : setSufficientGlobalSimulationTime elaboration n s₀ = some s)
    (periodic : isPeriodic s.tasksAssigned = true) : s.sufficientGlobalSimTimeFactor = n := by
  unfold setSufficientGlobalSimulationTime at asked
  split_ifs at asked with during zero effective
  · obtain rfl := Option.some.inj asked
    rfl
  · obtain rfl := Option.some.inj asked
    exact absurd (Or.inr (Or.inr periodic)) effective

/-- A scheduler of periodic tasks needs its factor of hyperperiods. -/
theorem newGlobalSimTime_periodic (dynamic : s.schedulerPolicy ≠ .staticScheduling)
    (acyclic : s.schedulerPolicy ≠ .cycleExecutive) (periodic : isPeriodic s.tasksAssigned = true)
    (nonempty : s.tasksAssigned ≠ []) {hyperperiod : ℕ}
    (known : getHyperperiod r s.tasksAssigned = some hyperperiod) :
    newGlobalSimTime r s = some (s.sufficientGlobalSimTimeFactor * hyperperiod) := by
  unfold newGlobalSimTime
  by_cases unset : s.sufficientGlobalSimTimeFactor = 0
  · rw [if_pos (Or.inr unset), unset, Nat.zero_mul]
  · rw [if_neg (by simp [nonempty, unset]), if_neg dynamic, if_neg acyclic, if_pos periodic, known]
    rfl

section Releases

variable {ι : Type}

/-- What the generator of the releases goes by. -/
def rate (t : TaskInfo) : Bool × ℕ := (t.isPeriodic, t.period)

abbrev KeepsRate (t : TaskInfo) (p : Progress ι) : Prop :=
  p.Meets (fun t' => rate t' = rate t) (fun t' _ => rate t' = rate t) fun _ => True

theorem processorGuard_rate (i : ι) {t t' : TaskInfo} (same : rate t' = rate t) :
    KeepsRate t (processorGuard i t') := by
  unfold processorGuard
  split <;> exact ⟨same, fun _ _ => trivial⟩

theorem consumeLoop_rate (i : ι) (now : ℕ) {t t' : TaskInfo} (same : rate t' = rate t) :
    KeepsRate t (consumeLoop i now t') := by
  unfold consumeLoop
  dsimp only
  split <;> exact ⟨same, fun _ _ => trivial⟩

theorem call_rate (m : Mode) (i : ι) (now : ℕ) (t : TaskInfo) (c : Construct) :
    KeepsRate t (call m i now t c) := by
  cases c with
  | consume compTime =>
    simp only [call, consume]
    split
    · exact consumeLoop_rate i now rfl
    · exact ⟨rfl, fun _ _ => trivial⟩
  | yield =>
    simp only [call, yield]
    split
    · exact ⟨rfl, fun _ _ => trivial⟩
    · split
      · trivial
      · exact ⟨rfl, fun _ _ => trivial⟩
  | waitPeriod =>
    simp only [call, waitPeriod]
    split
    · trivial
    · split
      · exact Progress.Meets.notify (processorGuard_rate i rfl) trivial
      · exact ⟨rfl, fun _ _ => trivial⟩
  | sync blocks =>
    simp only [call, sync]
    split
    · exact ⟨rfl, fun _ _ => trivial⟩
    · exact processorGuard_rate i rfl

theorem resume_rate (i : ι) (now : ℕ) (t : TaskInfo) (p : TaskPoint) :
    KeepsRate t (resume i now t p) := by
  cases p with
  | consumeEnd time =>
    simp only [resume, consumeEnd]
    split
    · exact consumeLoop_rate i now rfl
    · exact ⟨rfl, fun _ _ => trivial⟩
  | periodEnd => exact processorGuard_rate i rfl
  | syncEnd => exact processorGuard_rate i rfl
  | ended => trivial
  | _ => exact ⟨rfl, fun _ _ => trivial⟩

variable [DecidableEq ι]

theorem thread_rate {choice : RtosChoice} {now : ℕ} {store : RtosStore ι} {seg : RtosSegment ι}
    {i : ι} {p : TaskPoint} (ran : thread i p choice now store = some seg) (j : ι) :
    rate (seg.store.info j) = rate (store.info j) := by
  obtain ⟨t, status, same, stored, -, -⟩ :=
    thread_meets (resume_rate i now (store.info i) p)
      (fun t c same => (call_rate (mode store.sched) i now t c).mono
        (fun t' => (·.trans same)) fun t' _ => (·.trans same)) (fun _ same => same) ran
  rw [stored]
  exact update_info same j

theorem exec_rate {p : RtosProc ι} {point : RtosPoint ι} {choice : RtosChoice} {now : ℕ}
    {store : RtosStore ι} {seg : RtosSegment ι} (ran : exec p point choice now store = some seg)
    (j : ι) : rate (seg.store.info j) = rate (store.info j) :=
  exec_keeps (fun _ _ => rfl) (fun _ _ => rfl) (fun _ _ ran => thread_rate ran) ran j

def atRelease : Status (Event ι) (RtosPoint ι) → Bool
  | .ready .generate => true
  | _ => false

/-- The generator of a task notifies a release. -/
def releases (c : RtosConfig ι) : RtosLabel ι → ι → Bool
  | .eval (.genReleaseEvent j) _, i =>
    decide (j = i) && atRelease (c.status (.genReleaseEvent i))
  | _, _ => false

/-- The releases of each task, beside a run of its scheduler. -/
def noteRelease (c : RtosConfig ι) (l : RtosLabel ι) (_ : RtosConfig ι) (released : ι → ℕ) :
    ι → ℕ :=
  fun i => if releases c l i then released i + 1 else released i

def releasedStep (tasks : TaskSet ι) :
    RtosConfig ι × (ι → ℕ) → RtosLabel ι → Option (RtosConfig ι × (ι → ℕ)) :=
  recording (rtosSystem tasks).step noteRelease

/-- The generator of a periodic task after a number of releases. -/
inductive Generates (period now released : ℕ) : Status (Event ι) (RtosPoint ι) → Prop
  | outset (start : now = 0) (none : released = 0) :
      Generates period now released (.ready .genStart)
  | waits (last : released * period ≤ now) (next : now ≤ (released + 1) * period) :
      Generates period now released (.blocked [] (some ((released + 1) * period)) .generate)
  | due (next : now = (released + 1) * period) : Generates period now released (.ready .generate)

omit [DecidableEq ι] in
theorem Generates.next_le {period now released : ℕ} {status : Status (Event ι) (RtosPoint ι)}
    (h : Generates period now released status) : now ≤ (released + 1) * period := by
  cases h with
  | outset start none => rw [start]; exact Nat.zero_le _
  | waits last next => exact next
  | due next => exact next.le

omit [DecidableEq ι] in
theorem Generates.last_le {period now released : ℕ} {status : Status (Event ι) (RtosPoint ι)}
    (h : Generates period now released status) : released * period ≤ now := by
  cases h with
  | outset start none => rw [none, Nat.zero_mul]; exact Nat.zero_le _
  | waits last next => exact last
  | due next => rw [next]; exact Nat.mul_le_mul_right _ (Nat.le_succ _)

omit [DecidableEq ι] in
theorem Generates.wake {period now released t : ℕ} {status : Status (Event ι) (RtosPoint ι)}
    (h : Generates period now released status) (later : now ≤ t)
    (stays : now = t ∨ ∀ point, status ≠ .ready point) (within : status.latest t = true)
    (fired : Event ι → Bool) : Generates period t released (status.wake fired t) := by
  cases h with
  | outset start none =>
    obtain rfl : now = t := stays.resolve_right fun none => none _ rfl
    exact .outset start none
  | waits last next =>
    have within : t ≤ (released + 1) * period := of_decide_eq_true within
    by_cases due : t = (released + 1) * period
    · rw [due, Status.wake_blocked_of_due]
      exact .due rfl
    · rw [Status.wake_timed due]
      exact .waits (last.trans later) within
  | due next =>
    obtain rfl : now = t := stays.resolve_right fun none => none _ rfl
    exact .due next

omit [DecidableEq ι] in
theorem Generates.latest {period now released : ℕ} {status : Status (Event ι) (RtosPoint ι)}
    (h : Generates period now released status) : status.latest now = true := by
  cases h with
  | outset start none => rfl
  | waits last next => exact decide_eq_true next
  | due next => rfl

variable {tasks : TaskSet ι}

/-- What the releases of the periodic tasks keep to. -/
structure Counted (settings : Settings tasks) (c : RtosConfig ι) (released : ι → ℕ) : Prop where
  rates : ∀ i, rate (c.store.info i) = (settings.isPeriodic i, settings.period i)
  generates : ∀ i, settings.isPeriodic i = true →
    Generates (settings.period i) c.now (released i) (c.status (.genReleaseEvent i))

variable {settings : Settings tasks} {c : RtosConfig ι} {released : ι → ℕ}

omit [DecidableEq ι] in
theorem counted_start : Counted settings (simulationStart settings) fun _ => 0 where
  rates i := by
    simp only [simulationStart, SystemTask.endOfElaboration]
    split <;> rfl
  generates _ _ := .outset rfl rfl

/-- A turn of a generator at its time counts a release, and the next one is a period later. -/
theorem Counted.turn (h : Counted settings c released) {i : ι}
    (periodic : settings.isPeriodic i = true) {point : RtosPoint ι} {choice : RtosChoice}
    {seg : RtosSegment ι}
    (resumes : (c.status (.genReleaseEvent i)).resumable = some point)
    (ran : exec (.genReleaseEvent i) point choice c.now c.store = some seg) :
    Generates (settings.period i) c.now
      (noteRelease c (.eval (.genReleaseEvent i) choice) c released i) seg.status := by
  obtain ⟨isPeriodic, period⟩ := Prod.mk.inj (h.rates i)
  have status : ∀ notified, (genReleaseEvent i c.now c.store notified).status =
      .blocked [] (some (c.now + settings.period i)) .generate := by
    intro notified
    rw [genReleaseEvent, if_pos (isPeriodic.trans periodic), period]
  have generates := h.generates i periodic
  generalize place : c.status (.genReleaseEvent i) = current at generates resumes
  cases generates with
  | outset start none =>
    obtain rfl := Option.some.inj resumes
    obtain rfl : _ = seg := Option.some.inj ran
    have next : c.now + settings.period i = (released i + 1) * settings.period i := by
      rw [start, none]
      ring
    have silent : noteRelease c (.eval (.genReleaseEvent i) choice) c released i = released i := by
      simp [noteRelease, releases, place, atRelease]
    rw [silent, status, next]
    rw [none, start]
    exact .waits (Nat.zero_mul _).le (Nat.zero_le _)
  | waits last next => cases resumes
  | due next =>
    obtain rfl := Option.some.inj resumes
    obtain rfl : _ = seg := Option.some.inj ran
    have later : c.now + settings.period i = (released i + 1 + 1) * settings.period i := by
      rw [next]
      ring
    have counts :
        noteRelease c (.eval (.genReleaseEvent i) choice) c released i = released i + 1 := by
      simp [noteRelease, releases, place, atRelease]
    rw [counts, status, later]
    refine .waits next.ge ?_
    rw [next]
    exact Nat.mul_le_mul_right _ (Nat.le_succ _)

theorem noteRelease_other {i : ι} {p : RtosProc ι} {choice : RtosChoice}
    (other : p ≠ .genReleaseEvent i) (c' : RtosConfig ι) :
    noteRelease c (.eval p choice) c' released i = released i := by
  cases p with
  | genReleaseEvent j =>
    have distinct : j ≠ i := fun same => other (congrArg _ same)
    simp [noteRelease, releases, distinct]
  | _ => rfl

theorem Counted.step (x : RtosConfig ι × (ι → ℕ)) (l : RtosLabel ι) (y : RtosConfig ι × (ι → ℕ))
    (h : Counted settings x.1 x.2) (taken : releasedStep tasks x l = some y) :
    Counted settings y.1 y.2 := by
  obtain ⟨stepped, noted⟩ := recording_eq_some.mp taken
  obtain ⟨c, released⟩ := x
  obtain ⟨c', released'⟩ := y
  obtain rfl : released' = noteRelease c l c' released := noted
  cases l with
  | eval p choice =>
    obtain ⟨point, seg, resumes, ran, rfl⟩ := System.step_eval_eq_some.mp stepped
    refine ⟨fun i => (exec_rate ran i).trans (h.rates i), fun i periodic => ?_⟩
    show Generates _ c.now (noteRelease c (.eval p choice) c released i)
      (Function.update c.status p seg.status _)
    by_cases own : p = .genReleaseEvent i
    · subst own
      rw [Function.update_self]
      exact h.turn periodic resumes ran
    · rw [Function.update_of_ne (Ne.symm own), noteRelease_other own]
      exact h.generates i periodic
  | delta =>
    obtain ⟨-, rfl⟩ := System.step_delta_eq_some.mp stepped
    refine ⟨h.rates, fun i periodic => ?_⟩
    have generates := h.generates i periodic
    exact generates.wake le_rfl (Or.inl rfl) generates.latest _
  | advance t =>
    obtain ⟨⟨stable, later, within⟩, rfl⟩ := System.step_advance_eq_some.mp stepped
    obtain ⟨quiet, -⟩ := System.stable_iff.mp stable
    exact ⟨h.rates, fun i periodic =>
      (h.generates i periodic).wake later.le (Or.inr (quiet _)) (within _) _⟩

theorem counted_of_run {ls : List (RtosLabel ι)}
    (reach : run (releasedStep tasks) (simulationStart settings, fun _ => 0) ls =
      some (c, released)) : Counted settings c released := by
  have keep : ∀ (x : RtosConfig ι × (ι → ℕ)) (l : RtosLabel ι) (y : RtosConfig ι × (ι → ℕ)),
      Counted settings x.1 x.2 → True → releasedStep tasks x l = some y →
      Counted settings y.1 y.2 := fun x l y h _ taken => h.step x l y taken
  exact run_invariant keep counted_start (along_of_forall fun _ _ => trivial) reach

/-- The scheduler resumes at the limit or after it, where it stops the simulation. -/
def stops (globalSimTime : ℕ) (c : RtosConfig ι) : RtosLabel ι → Prop
  | .eval .schedulerProc _ =>
    (c.status .schedulerProc = .ready .schedStart ∨
      ∃ i, c.status .schedulerProc = .ready (.running i)) ∧ globalSimTime ≤ c.now
  | _ => False

omit [DecidableEq ι] in
theorem limit_le_of_stops {globalSimTime : ℕ} {l : RtosLabel ι} (h : stops globalSimTime c l) :
    globalSimTime ≤ c.now := by
  cases l with
  | eval p choice =>
    cases p with
    | schedulerProc => exact h.2
    | _ => cases h
  | _ => cases h

/-- What the elaboration of a scheduler reads of its tasks. -/
def assigned (settings : Settings tasks) : List Task :=
  tasks.tasksAssigned.map fun i => ⟨settings.isPeriodic i, settings.period i⟩

/-- In every run the scheduler of a periodic task set stops the simulation only when the jobs of all
the hyperperiods that it was asked for have been released, the first of which needs no release, and
none of them is released before its time. -/
theorem jobs_released_by_limit {globalSimTime : ℕ}
    (limited : endOfElaborations r limit scheds = some globalSimTime) (elaborated : s ∈ scheds)
    {n : ℕ} {s₀ : Elaborated} (asked : setSufficientGlobalSimulationTime true n s₀ = some s)
    (dynamic : s.schedulerPolicy ≠ .staticScheduling)
    (acyclic : s.schedulerPolicy ≠ .cycleExecutive)
    (same : s.tasksAssigned = assigned settings) (periodic : isPeriodic s.tasksAssigned = true)
    (few : s.tasksAssigned.length < LeastCommonMultiple.indexSize)
    (positive : ∀ i, 0 < settings.period i) (fits : Hyperperiod.Fits r s.tasksAssigned)
    (harmless : Hyperperiod.RoundingHarmless r s.tasksAssigned) {ls : List (RtosLabel ι)}
    (reach : run (releasedStep tasks) (simulationStart settings, fun _ => 0) ls =
      some (c, released)) {l : RtosLabel ι} (stop : stops globalSimTime c l) (i : ι) :
    n * (leastCommonMultiple s.tasksAssigned / settings.period i) ≤ released i + 1 ∧
      released i * settings.period i ≤ c.now := by
  have listed : ⟨settings.isPeriodic i, settings.period i⟩ ∈ s.tasksAssigned := by
    rw [same]
    exact List.mem_map.mpr ⟨i, tasks.complete i, rfl⟩
  have nonempty : s.tasksAssigned ≠ [] := List.ne_nil_of_mem listed
  have positives : ∀ task ∈ s.tasksAssigned, 0 < task.period := by
    rw [same]
    rintro task mem
    obtain ⟨j, -, rfl⟩ := List.mem_map.mp mem
    exact positive j
  have hyperperiod :=
    Hyperperiod.hyperperiod_of_harmless periodic nonempty positives fits few harmless
  rw [Hyperperiod.isHyperperiod_iff (Hyperperiod.leastCommonMultiple_pos positives)] at hyperperiod
  have needed := newGlobalSimTime_periodic dynamic acyclic periodic nonempty hyperperiod
  have covered := (endOfElaborations_eq_some.mp limited).sufficient s elaborated _ needed
  have counted := counted_of_run reach
  have isPeriodic : settings.isPeriodic i = true := List.all_eq_true.mp periodic _ listed
  have generates := counted.generates i isPeriodic
  refine ⟨?_, generates.last_le⟩
  have divides : settings.period i ∣ leastCommonMultiple s.tasksAssigned :=
    Hyperperiod.leastCommonMultiple_dvd.mp dvd_rfl _ listed
  refine Nat.le_of_mul_le_mul_right ?_ (positive i)
  calc n * (leastCommonMultiple s.tasksAssigned / settings.period i) * settings.period i
      = s.sufficientGlobalSimTimeFactor * leastCommonMultiple s.tasksAssigned := by
        rw [Nat.mul_assoc, Nat.div_mul_cancel divides, asked_of_periodic asked periodic]
    _ ≤ globalSimTime := covered
    _ ≤ c.now := limit_le_of_stops stop
    _ ≤ (released i + 1) * settings.period i := generates.next_le

/-- A tick of a nanosecond. -/
def nanosecond : Resolution where
  ticks := 1
  nanoseconds := 1
  ticks_pos := Nat.one_pos
  nanoseconds_pos := Nat.one_pos
  whole := .inl rfl

/-- A scheduler of one task of period 10. -/
def unasked : Elaborated where
  schedulerPolicy := .staticPriorities
  sufficientGlobalSimTimeFactor := 0
  staticSchedule := []
  wcets := [4]
  tasksAssigned := assigned soleSettings

/-- The task waits for its period twice, and the tick at 20 resumes the scheduler. -/
def twoHyperperiods : List (RtosLabel Unit) :=
  firstScheduling ++
    [calls () [.waitPeriod], .delta, turns (.updateStateProc ()), .delta, turns .schedulerProc,
      .delta, turns (.updateStateProc ()), .delta, .advance 2, turns .schedulerProc, .delta,
      turns (.updateStateProc ()), .delta, .advance 10, turns .genTickTimerEvent,
      turns (.genReleaseEvent ()), .delta, turns .schedulerProc, calls () [.waitPeriod], .delta,
      turns (.updateStateProc ()), .delta, .advance 11, turns .schedulerProc, .delta,
      turns (.updateStateProc ()), .delta, .advance 20, turns .genTickTimerEvent,
      turns (.genReleaseEvent ()), .delta]

theorem twoHyperperiods_released :
    ∃ s, setSufficientGlobalSimulationTime true 2 unasked = some s ∧
      endOfElaborations nanosecond 15 [s] = some 20 ∧
      ∃ c released, run (releasedStep soleTask) (simulationStart soleSettings, fun _ => 0)
          twoHyperperiods = some (c, released) ∧
        stops 20 c (turns .schedulerProc) ∧ 2 ≤ released () + 1 := by
  have limited : endOfElaborations nanosecond 15
      [{ unasked with sufficientGlobalSimTimeFactor := 2 }] = some 20 := by decide +kernel
  have reached : (run (releasedStep soleTask) (simulationStart soleSettings, fun _ => 0)
      twoHyperperiods).map (fun x => (x.1.status .schedulerProc, x.1.now)) =
        some (.ready (.running ()), 20) := by decide +kernel
  obtain ⟨⟨c, released⟩, reach, value⟩ := Option.map_eq_some_iff.mp reached
  obtain ⟨place, now⟩ := Prod.mk.inj value
  have stop : stops 20 c (turns .schedulerProc) := ⟨Or.inr ⟨(), place⟩, now.ge⟩
  have small : leastCommonMultiple unasked.tasksAssigned = 10 := by decide +kernel
  have fits : Hyperperiod.Fits nanosecond unasked.tasksAssigned :=
    Hyperperiod.fits_of_fine rfl (by rw [small]; decide)
  have harmless : Hyperperiod.RoundingHarmless nanosecond unasked.tasksAssigned :=
    Hyperperiod.harmless_of_coarse rfl (by decide)
  have positive : ∀ i, 0 < soleSettings.period i := fun _ => Nat.zero_lt_succ 9
  have asked : setSufficientGlobalSimulationTime true 2 unasked =
      some { unasked with sufficientGlobalSimTimeFactor := 2 } := rfl
  obtain ⟨enough, -⟩ := jobs_released_by_limit limited List.mem_cons_self asked (by decide)
    (by decide) rfl rfl (by decide) positive fits harmless reach stop ()
  rw [small] at enough
  exact ⟨_, asked, limited, c, released, reach, stop, enough⟩

end Releases

end Kista.Scheduling.SimulationLimit
