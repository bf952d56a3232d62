/- Kista/Scheduling/Exclusivity
   source: src/src/scheduler.cpp, task_info_t.cpp
   digest: When the scheduler and the executing tasks exclude each other, under every policy
   and every triggering mode. -/

import Kista.Scheduling.StateMachine

set_option autoImplicit false
set_option relaxedAutoImplicit false

namespace Kista.Scheduling.Exclusivity

open Kernel.Delta Kernel.Run
open Dispatch (TaskState SchedulerPolicy)
open SystemTask Constructs Rtos StateMachine

variable {ι : Type}

def Executing (c : RtosConfig ι) (i : ι) : Prop := (c.store.info i).stateSignal.read = .executing

instance (c : RtosConfig ι) (i : ι) : Decidable (Executing c i) :=
  inferInstanceAs (Decidable (_ = _))

/-- At most one task executes, and none while the scheduler does. -/
structure Exclusive (c : RtosConfig ι) : Prop where
  one : ∀ i j, Executing c i → Executing c j → i = j
  none : c.store.sched.stateSignal.read = .scheduling → ∀ i, ¬ Executing c i

/-- The time that the tasks spend executing when time advances. -/
def executingTime (tasks : TaskSet ι) (c : RtosConfig ι) : RtosLabel ι → ℕ
  | .advance t => tasks.tasksAssigned.countP (fun i => Executing c i) * (t - c.now)
  | _ => 0

/-- Where the scheduler stands, to whom it leaves the processor, and that the time spent so far
by the tasks and the scheduler fits into the time elapsed. -/
inductive Holder (store : RtosStore ι) (now spent : ℕ) :
    Status (Event ι) (RtosPoint ι) → Prop
  | outset {status} (point : status.point = .schedStart)
      (nobody : ∀ j, (store.info j).activeSignal.next = false)
      (state : store.sched.stateSignal.next = .innactive)
      (budget : spent + store.sched.schedCompTime ≤ now) : Holder store now spent status
  | waiting {status} (point : status.point = .firstWait ∨ status.point = .secondWait)
      (nobody : ∀ j, (store.info j).activeSignal.next = false)
      (state : store.sched.stateSignal.next = .scheduling)
      (budget : spent + store.sched.schedCompTime ≤ now) : Holder store now spent status
  | timed {due : ℕ} (nobody : ∀ j, (store.info j).activeSignal.next = false)
      (state : store.sched.stateSignal.next = .scheduling)
      (elapsed : spent + store.sched.schedCompTime ≤ now)
      (budget : spent + store.sched.schedCompTime + store.sched.schedulingTime ≤ due) :
      Holder store now spent (.blocked [] (some due) .scheduled)
  | computed (nobody : ∀ j, (store.info j).activeSignal.next = false)
      (state : store.sched.stateSignal.next = .scheduling)
      (budget : spent + store.sched.schedCompTime + store.sched.schedulingTime ≤ now) :
      Holder store now spent (.ready .scheduled)
  | granted {status} {i : ι} (point : status.point = .running i)
      (owner : ∀ j, (store.info j).activeSignal.next = true → j = i)
      (state : store.sched.stateSignal.next = .innactive)
      (budget : spent + store.sched.schedCompTime ≤ now) : Holder store now spent status

theorem Holder.of_begins {store : RtosStore ι} {now spent : ℕ} {seg : RtosSegment ι}
    (begins : Begins store now seg) (nobody : ∀ j, (store.info j).activeSignal.next = false)
    (budget : spent + store.sched.schedCompTime ≤ now) :
    Holder seg.store now spent seg.status := by
  have nobody' : ∀ j, (seg.store.info j).activeSignal.next = false := by
    rw [begins.info]
    exact nobody
  have state : seg.store.sched.stateSignal.next = .scheduling := by
    rw [begins.state]
    rfl
  rcases begins.waits with ⟨-, status⟩ | ⟨-, status⟩
  · rw [status]
    exact .waiting (Or.inl rfl) nobody' state (by rwa [begins.compTime])
  · rw [status]
    refine .timed nobody' state (by rwa [begins.compTime]) ?_
    rw [begins.compTime]
    omega

theorem Holder.congr {store store' : RtosStore ι} {now spent : ℕ}
    {status : Status (Event ι) (RtosPoint ι)} (h : Holder store now spent status)
    (sched : store'.sched = store.sched)
    (active : ∀ j, (store'.info j).activeSignal.next = (store.info j).activeSignal.next) :
    Holder store' now spent status := by
  cases h with
  | outset point nobody state budget =>
    exact .outset point (by simpa only [active]) (by rwa [sched]) (by rwa [sched])
  | waiting point nobody state budget =>
    exact .waiting point (by simpa only [active]) (by rwa [sched]) (by rwa [sched])
  | timed nobody state elapsed budget =>
    exact .timed (by simpa only [active]) (by rwa [sched]) (by rwa [sched]) (by rwa [sched])
  | computed nobody state budget =>
    exact .computed (by simpa only [active]) (by rwa [sched]) (by rwa [sched])
  | granted point owner state budget =>
    exact .granted point (by simpa only [active]) (by rwa [sched]) (by rwa [sched])

/-- Who may hold the processor, task by task and in the scheduler. -/
structure Owned (c : RtosConfig ι) (spent : ℕ) : Prop where
  machines : ∀ i, Machine i (c.store.info i) (c.status (.updateStateProc i))
  pending : ∀ e ∈ c.pending, notifiable e = true
  holder : Holder c.store c.now spent (c.status .schedulerProc)

theorem owned_start {tasks : TaskSet ι} (settings : Settings tasks) :
    Owned (simulationStart settings) 0 where
  machines i := by
    obtain ⟨-, -, -, -, state⟩ := start_signals settings i
    refine ⟨Or.inr ?_, fun _ held => ?_⟩
    · rw [state]
      rfl
    · rw [state] at held
      cases held
  pending e he := absurd he List.not_mem_nil
  holder := by
    refine .outset rfl (fun j => ?_) rfl le_rfl
    rw [(start_signals settings j).1]
    rfl

section Turns

variable [DecidableEq ι]

theorem Holder.of_ends {store : RtosStore ι} {choice : RtosChoice} {now spent : ℕ} {i : ι}
    {seg : RtosSegment ι} (ends : Ends store choice now i seg)
    (nobody : ∀ j, (store.info j).activeSignal.next = false)
    (budget : spent + store.sched.schedCompTime ≤ now) :
    Holder seg.store now spent seg.status := by
  rw [ends.waits]
  refine .granted rfl (fun j active => ?_) (by rw [ends.state]; rfl) (by rwa [ends.compTime])
  rw [ends.info, setActive_next] at active
  by_contra other
  rw [if_neg other, nobody j] at active
  cases active

/-- What a turn of the scheduler leaves of a task. -/
def Untouched (store store' : RtosStore ι) : Prop :=
  ∀ j, (store'.info j).stateSignal = (store.info j).stateSignal ∧
    (store'.info j).activeSignal.current = (store.info j).activeSignal.current

theorem untouched_setActive (store : RtosStore ι) (i : ι) (active : Bool) :
    Untouched store (setActive store i active) := by
  intro j
  by_cases same : j = i
  · subst same
    rw [setActive_self]
    exact ⟨rfl, rfl⟩
  · rw [setActive_of_ne active same]
    exact ⟨rfl, rfl⟩

theorem Holder.turn {store : RtosStore ι} {choice : RtosChoice} {now spent : ℕ}
    {status : Status (Event ι) (RtosPoint ι)} {r : RtosPoint ι} {seg : RtosSegment ι}
    (h : Holder store now spent status) (resumes : status.resumable = some r)
    (ran : schedulerProc choice now store r = some seg) :
    Holder seg.store now spent seg.status ∧ seg.notified = [] ∧
      Untouched store seg.store := by
  have place := Status.resumable_point resumes
  cases h with
  | outset point nobody state budget =>
    rw [place] at point
    subst point
    simp only [schedulerProc] at ran
    split at ran
    · obtain rfl : _ = seg := Option.some.inj ran
      exact ⟨.outset rfl nobody state budget, rfl, fun _ => ⟨rfl, rfl⟩⟩
    · have begins := beginScheduling_begins ran
      refine ⟨.of_begins begins nobody budget, begins.notified, fun j => ?_⟩
      rw [begins.info]
      exact ⟨rfl, rfl⟩
  | waiting point nobody state budget =>
    rw [place] at point
    rcases point with rfl | rfl
    · obtain rfl : _ = seg := Option.some.inj ran
      exact ⟨.waiting (Or.inr rfl) nobody state budget, rfl, fun _ => ⟨rfl, rfl⟩⟩
    · obtain ⟨i, ends⟩ := endScheduling_ends ran
      refine ⟨.of_ends ends nobody budget, ends.notified, ?_⟩
      unfold Untouched
      rw [ends.info]
      exact untouched_setActive store i true
  | timed => cases resumes
  | computed nobody state budget =>
    obtain rfl := Option.some.inj resumes
    obtain ⟨i, ends⟩ := endScheduling_ends ran
    refine ⟨.of_ends ends nobody ?_, ends.notified, ?_⟩
    · show spent + (store.sched.schedCompTime + store.sched.schedulingTime) ≤ now
      omega
    · unfold Untouched
      rw [ends.info]
      exact untouched_setActive _ i true
  | @granted _ i point owner state budget =>
    rw [place] at point
    subst point
    have begins := beginScheduling_begins ran
    refine ⟨.of_begins begins (fun j => ?_) budget, begins.notified, ?_⟩
    · rw [setActive_next]
      split
      · rfl
      next other => exact Bool.eq_false_iff.mpr fun active => other (owner j active)
    · unfold Untouched
      rw [begins.info]
      exact untouched_setActive store i false

/-- A turn of a process of a task other than its state machine. -/
theorem Owned.other {c : RtosConfig ι} {spent : ℕ} (h : Owned c spent) {p : RtosProc ι}
    {seg : RtosSegment ι} (scheduler : p ≠ .schedulerProc)
    (machine : ∀ i, p ≠ .updateStateProc i) (sched : seg.store.sched = c.store.sched)
    (active : ∀ j, (seg.store.info j).activeSignal = (c.store.info j).activeSignal)
    (state : ∀ j, (seg.store.info j).stateSignal = (c.store.info j).stateSignal)
    (notified : ∀ e ∈ seg.notified, notifiable e = true) :
    Owned ⟨seg.store, Function.update c.status p seg.status, seg.notified ++ c.pending, c.now⟩
      spent where
  machines i := by
    show Machine i (seg.store.info i) (Function.update c.status p seg.status (.updateStateProc i))
    rw [Function.update_of_ne (machine i).symm]
    exact (h.machines i).congr (state i) (by rw [active])
  pending := List.forall_mem_append.mpr ⟨notified, h.pending⟩
  holder := by
    show Holder seg.store c.now spent (Function.update c.status p seg.status .schedulerProc)
    rw [Function.update_of_ne scheduler.symm]
    exact h.holder.congr sched (by simp only [active, implies_true])

theorem Owned.eval {c : RtosConfig ι} {spent : ℕ} (h : Owned c spent) {p : RtosProc ι}
    {choice : RtosChoice} {r : RtosPoint ι} {seg : RtosSegment ι}
    (granted : Granted c (.eval p choice)) (resumes : (c.status p).resumable = some r)
    (ran : exec p r choice c.now c.store = some seg) :
    Owned ⟨seg.store, Function.update c.status p seg.status, seg.notified ++ c.pending, c.now⟩
      spent := by
  cases p with
  | schedulerProc =>
    obtain ⟨holder, notified, untouched⟩ := h.holder.turn resumes ran
    refine ⟨fun i => ?_, ?_, ?_⟩
    · exact (h.machines i).congr (untouched i).1 (untouched i).2
    · rw [notified]
      exact h.pending
    · simpa using holder
  | genTickTimerEvent =>
    cases r with
    | tick =>
      obtain rfl : _ = seg := Option.some.inj ran
      refine h.other (by simp) (by simp) ?_ ?_ ?_ ?_
      · rw [genTickTimerEvent_store]
      · simp only [genTickTimerEvent_store, implies_true]
      · simp only [genTickTimerEvent_store, implies_true]
      · intro e he
        rw [genTickTimerEvent_notified e he]
        rfl
    | _ => cases ran
  | genReleaseEvent i =>
    have other : ∀ notified, (∀ e ∈ notified, notifiable e = true) →
        seg = genReleaseEvent i c.now c.store notified → Owned ⟨seg.store, Function.update c.status
          (.genReleaseEvent i) seg.status, seg.notified ++ c.pending, c.now⟩ spent := by
      rintro notified allowed rfl
      refine h.other (by simp) (by simp) ?_ ?_ ?_ ?_
      · rw [genReleaseEvent_store]
      · simp only [genReleaseEvent_store, implies_true]
      · simp only [genReleaseEvent_store, implies_true]
      · intro e he
        exact allowed e (genReleaseEvent_notified i notified e he)
    cases r with
    | genStart => exact other [] (by simp) (Option.some.inj ran).symm
    | generate => exact other [.task i .taskRelease] (by simp [notifiable]) (Option.some.inj ran).symm
    | _ => cases ran
  | updateStateProc i =>
    cases r with
    | turn =>
      obtain ⟨turn, turns, rfl⟩ := Option.map_eq_some_iff.mp ran
      refine ⟨fun j => ?_, ?_, ?_⟩
      · by_cases own : j = i
        · subst own
          simpa using Machine.turn turns granted
        · have machine := h.machines j
          simpa [setState_of_ne _ own, own] using machine
      · exact List.forall_mem_append.mpr ⟨(updateStateProc_turn turns).notified, h.pending⟩
      · have holder := h.holder.congr (setState_sched i turn.state) fun j => by
          rw [setState_active]
        simpa using holder
    | _ => cases ran
  | thread i =>
    cases r with
    | inside p =>
      obtain ⟨t, frame, stored, noted⟩ := thread_frames ran
      refine h.other (by simp) (by simp) ?_ ?_ ?_ ?_
      · rw [stored]
      · rw [stored]
        exact update_info (f := TaskInfo.activeSignal) frame.active
      · rw [stored]
        exact update_info (f := TaskInfo.stateSignal) frame.state
      · intro e he
        exact Noted.notifiable (noted e he)
    | _ => cases ran

theorem Owned.delta {tasks : TaskSet ι} {c : RtosConfig ι} {spent : ℕ} (h : Owned c spent)
    (quiet : ∀ p r, c.status p ≠ .ready r) :
    Owned ⟨(rtosSystem tasks).update c.store,
      fun p => (c.status p).wake ((rtosSystem tasks).fired c) c.now, [], c.now⟩ spent where
  machines i := (h.machines i).delta (quiet _ _) fun shown => by
    rw [fired_edge h.pending rfl]
    exact shown
  pending e he := absurd he List.not_mem_nil
  holder := by
    show Holder ((rtosSystem tasks).update c.store) c.now spent
      ((c.status .schedulerProc).wake ((rtosSystem tasks).fired c) c.now)
    have holder := h.holder
    have waiting := quiet .schedulerProc
    generalize c.status .schedulerProc = status at holder waiting
    cases holder with
    | outset point nobody state budget => exact .outset (by simpa using point) nobody state budget
    | waiting point nobody state budget => exact .waiting (by simpa using point) nobody state budget
    | @timed due nobody state elapsed budget =>
      by_cases instant : due = c.now
      · rw [instant] at budget ⊢
        rw [Status.wake_blocked_of_due]
        exact .computed nobody state budget
      · rw [Status.wake_blocked_of_silent (by simp) (by simpa using instant)]
        exact .timed nobody state elapsed budget
    | computed => exact absurd rfl (waiting _)
    | granted point owner state budget => exact .granted (by simpa using point) owner state budget

/-- When no delta is pending, who executes holds the processor. -/
theorem Owned.exclusive {tasks : TaskSet ι} {c : RtosConfig ι} {spent : ℕ} (h : Owned c spent)
    (stable : (rtosSystem tasks).stable c = true) : Exclusive c := by
  obtain ⟨quiet, -, clean, -⟩ := System.stable_iff.mp stable
  have settled := settled_of_clean clean
  have active : ∀ i, Executing c i → (c.store.info i).activeSignal.next = true := by
    intro i executing
    rw [settled.taskActive]
    refine (h.machines i).granted (quiet _ _) ?_
    rw [settled.taskState]
    exact (congrArg holds executing).trans rfl
  have nobody : (∀ j, (c.store.info j).activeSignal.next = false) → ∀ i, ¬ Executing c i := by
    intro nobody i executing
    have := active i executing
    rw [nobody i] at this
    cases this
  have holder := h.holder
  generalize c.status .schedulerProc = status at holder
  cases holder with
  | outset point free state budget =>
    exact ⟨fun i _ executing => absurd executing (nobody free i), fun _ => nobody free⟩
  | waiting point free state budget =>
    exact ⟨fun i _ executing => absurd executing (nobody free i), fun _ => nobody free⟩
  | timed free state elapsed budget =>
    exact ⟨fun i _ executing => absurd executing (nobody free i), fun _ => nobody free⟩
  | computed free state budget =>
    exact ⟨fun i _ executing => absurd executing (nobody free i), fun _ => nobody free⟩
  | @granted _ i point owner state budget =>
    refine ⟨fun j k hj hk => ?_, fun computing => ?_⟩
    · rw [owner j (active j hj), owner k (active k hk)]
    · rw [settled.state] at state
      rw [show c.store.sched.stateSignal.current = .scheduling from computing] at state
      cases state

omit [DecidableEq ι] in
theorem countP_le_one {l : List ι} (nodup : l.Nodup) {p : ι → Bool}
    (one : ∀ i j, p i = true → p j = true → i = j) : l.countP p ≤ 1 := by
  induction l with
  | nil => exact Nat.zero_le 1
  | cons i l ih =>
    obtain ⟨fresh, nodup⟩ := List.nodup_cons.mp nodup
    by_cases first : p i = true
    · have others : l.countP p = 0 := by
        refine List.countP_eq_zero.mpr fun j hj found => fresh ?_
        rwa [one i j first found]
      rw [List.countP_cons_of_pos first, others]
    · rw [List.countP_cons_of_neg first]
      exact ih nodup

omit [DecidableEq ι] in
theorem executingTime_le {tasks : TaskSet ι} {c : RtosConfig ι} (exclusive : Exclusive c)
    (t : ℕ) : executingTime tasks c (.advance t) ≤ t - c.now := by
  have one := countP_le_one tasks.nodup (p := fun i => decide (Executing c i)) fun i j hi hj =>
    exclusive.one i j (of_decide_eq_true hi) (of_decide_eq_true hj)
  calc executingTime tasks c (.advance t)
      ≤ 1 * (t - c.now) := Nat.mul_le_mul_right _ one
    _ = t - c.now := Nat.one_mul _

omit [DecidableEq ι] in
theorem executingTime_computing {tasks : TaskSet ι} {c : RtosConfig ι} (exclusive : Exclusive c)
    (computing : c.store.sched.stateSignal.read = .scheduling) (t : ℕ) :
    executingTime tasks c (.advance t) = 0 := by
  have none : tasks.tasksAssigned.countP (fun i => decide (Executing c i)) = 0 :=
    List.countP_eq_zero.mpr fun i _ found =>
      exclusive.none computing i (of_decide_eq_true found)
  simp only [executingTime, none, Nat.zero_mul]

theorem Owned.advance {tasks : TaskSet ι} {c : RtosConfig ι} {spent t : ℕ} (h : Owned c spent)
    (stable : (rtosSystem tasks).stable c = true) (later : c.now < t)
    (within : ∀ p, (c.status p).latest t = true) :
    Owned ⟨c.store, fun p => (c.status p).wake (fun _ => false) t, c.pending, t⟩
      (spent + executingTime tasks c (.advance t)) where
  machines i := by
    obtain ⟨quiet, -⟩ := System.stable_iff.mp stable
    exact (h.machines i).advance (quiet _ _) t
  pending := h.pending
  holder := by
    obtain ⟨quiet, -, clean, -⟩ := System.stable_iff.mp stable
    have settled := settled_of_clean clean
    have exclusive := h.exclusive stable
    have cost : executingTime tasks c (.advance t) ≤ t - c.now := executingTime_le exclusive t
    have holder := h.holder
    have waiting := quiet .schedulerProc
    have bound := within .schedulerProc
    show Holder c.store t _ ((c.status .schedulerProc).wake (fun _ => false) t)
    generalize c.status .schedulerProc = status at holder waiting bound
    cases holder with
    | outset point nobody state budget =>
      exact .outset (by simpa using point) nobody state (by omega)
    | waiting point nobody state budget =>
      exact .waiting (by simpa using point) nobody state (by omega)
    | @timed due nobody state elapsed budget =>
      have computing : c.store.sched.stateSignal.current = .scheduling := by
        rw [← settled.state]
        exact state
      rw [executingTime_computing exclusive computing]
      have bound : t ≤ due := of_decide_eq_true bound
      by_cases instant : due = t
      · rw [instant] at budget ⊢
        rw [Status.wake_blocked_of_due]
        exact .computed nobody state budget
      · rw [Status.wake_blocked_of_silent (by simp) (by simpa using instant)]
        exact .timed nobody state (by omega) budget
    | computed => exact absurd rfl (waiting _)
    | granted point owner state budget =>
      exact .granted (by simpa using point) owner state (by omega)

theorem owned_of_granted {tasks : TaskSet ι} {settings : Settings tasks}
    {ls : List (RtosLabel ι)} {c : RtosConfig ι}
    (along : Along (rtosSystem tasks).step Granted (simulationStart settings) ls)
    (reach : run (rtosSystem tasks).step (simulationStart settings) ls = some c) :
    Owned c (total (rtosSystem tasks).step (executingTime tasks) (simulationStart settings) ls) := by
  have keep : ∀ (c : RtosConfig ι) (l : RtosLabel ι) (c' : RtosConfig ι) (spent : ℕ),
      Owned c spent → Granted c l → (rtosSystem tasks).step c l = some c' →
      Owned c' (spent + executingTime tasks c l) := by
    intro c l c' spent h granted taken
    cases l with
    | eval p choice =>
      obtain ⟨r, seg, resumes, ran, rfl⟩ := System.step_eval_eq_some.mp taken
      exact h.eval granted resumes ran
    | delta =>
      obtain ⟨quiet, rfl⟩ := System.step_delta_eq_some.mp taken
      exact h.delta (System.quiet_iff.mp quiet)
    | advance t =>
      obtain ⟨⟨stable, later, within⟩, rfl⟩ := System.step_advance_eq_some.mp taken
      exact h.advance stable later within
  have owned := run_total keep (owned_start settings) along reach
  rwa [Nat.zero_add] at owned

/-- Along a run in which every state machine that comes to the end of a wait is still granted
the processor, at most one task executes at a time, none while the scheduler does, and together
they spend no more than the time elapsed. -/
theorem exclusive_of_granted {tasks : TaskSet ι} {settings : Settings tasks}
    {ls : List (RtosLabel ι)} {c : RtosConfig ι}
    (along : Along (rtosSystem tasks).step Granted (simulationStart settings) ls)
    (reach : run (rtosSystem tasks).step (simulationStart settings) ls = some c) :
    ((rtosSystem tasks).stable c = true → Exclusive c) ∧
      total (rtosSystem tasks).step (executingTime tasks) (simulationStart settings) ls +
        c.store.sched.schedCompTime ≤ c.now := by
  have owned := owned_of_granted along reach
  refine ⟨owned.exclusive, ?_⟩
  have holder := owned.holder
  generalize c.status .schedulerProc = status at holder
  cases holder with
  | outset point nobody state budget => omega
  | waiting point nobody state budget => omega
  | timed nobody state elapsed budget => omega
  | computed nobody state budget => omega
  | granted point owner state budget => omega

end Turns

def soleTask : TaskSet Unit := ⟨[()], by decide, fun _ => List.mem_singleton.mpr rfl⟩

/-- A preemptive scheduler with a tick of 10, a scheduling time of 1 and a task of period 10. -/
def soleSettings : Settings soleTask where
  schedulerPolicy := .staticPriorities
  dynamicPrioritiesPolicy := .earliestDeadlineFirst
  schedulerTriggeringPolicy := .preemptive
  staticSchedule := []
  tasksByPriority := [()]
  prioritized _ := List.Perm.refl _
  tSlicingFlag := true
  tickTimerDelay := 10
  schedulingTimesEnabled := true
  hasSchedulingTimeCalculator := false
  schedulingTime := 1
  isPeriodic _ := true
  period _ := 10
  deadline _ := 10

/-- The first scheduling, at the end of which the task is granted the processor. -/
def firstScheduling : List (RtosLabel Unit) :=
  [turns .schedulerProc, turns .genTickTimerEvent, turns (.genReleaseEvent ()), .delta, .advance 1,
    turns .schedulerProc, .delta, turns (.updateStateProc ())]

/-- The task computes for 3 and waits for its period, which makes the scheduler compute. -/
def computesThenWaits : List (RtosLabel Unit) :=
  firstScheduling ++
    [calls () [.consume 3], .delta, .advance 4, calls () [.waitPeriod], .delta,
      turns (.updateStateProc ()), .delta, turns .schedulerProc, .delta,
      turns (.updateStateProc ()), .delta]

/-- The task waits for its period with the processor, and the tick comes with the release. -/
def tickWithRelease : List (RtosLabel Unit) :=
  firstScheduling ++
    [calls () [.waitPeriod], .delta, turns (.updateStateProc ()), .delta, turns .schedulerProc,
      .delta, turns (.updateStateProc ()), .delta, .advance 2, turns .schedulerProc, .delta,
      turns (.updateStateProc ()), .delta, .advance 10, turns .genTickTimerEvent,
      turns (.genReleaseEvent ()), .delta, turns .schedulerProc, calls () [.consume 3], .delta,
      turns (.updateStateProc ()), calls () [], .delta]

theorem computesThenWaits_exclusive :
    ∃ c, run (rtosSystem soleTask).step (simulationStart soleSettings) computesThenWaits = some c ∧
      Exclusive c ∧
      total (rtosSystem soleTask).step (executingTime soleTask) (simulationStart soleSettings)
        computesThenWaits + c.store.sched.schedCompTime ≤ c.now := by
  have along : Along (rtosSystem soleTask).step Granted (simulationStart soleSettings)
      computesThenWaits := by decide +kernel
  have reached : (run (rtosSystem soleTask).step (simulationStart soleSettings)
      computesThenWaits).map (rtosSystem soleTask).stable = some true := by decide +kernel
  obtain ⟨c, reach, stable⟩ := Option.map_eq_some_iff.mp reached
  obtain ⟨exclusive, fits⟩ := exclusive_of_granted along reach
  exact ⟨c, reach, exclusive stable, fits⟩

/-- The state machine sees the end of the wait and not the loss of the processor: the task
executes while the scheduler does. -/
theorem tickWithRelease_overlaps :
    ∃ c, run (rtosSystem soleTask).step (simulationStart soleSettings) tickWithRelease = some c ∧
      (rtosSystem soleTask).stable c = true ∧ ¬ Exclusive c := by
  have reached : (run (rtosSystem soleTask).step (simulationStart soleSettings)
      tickWithRelease).map (fun c => ((rtosSystem soleTask).stable c,
        c.store.sched.stateSignal.read, (c.store.info ()).stateSignal.read)) =
      some (true, .scheduling, .executing) := by decide +kernel
  obtain ⟨c, reach, value⟩ := Option.map_eq_some_iff.mp reached
  obtain ⟨stable, value⟩ := Prod.mk.inj value
  obtain ⟨computing, executing⟩ := Prod.mk.inj value
  exact ⟨c, reach, stable, fun h => h.none computing () executing⟩

end Kista.Scheduling.Exclusivity
