/- Kista/Scheduling/Serving
   source: src/src/scheduler.cpp, task_info_t.cpp, user_task_constructs.cpp
   digest: How the preemptive scheduler with static priorities serves its tasks, in every
   configuration of a run. -/

import Kista.Scheduling.TaskCoherence

set_option autoImplicit false
set_option relaxedAutoImplicit false

/-!
After the dispatching, a task that becomes ready raises an event that triggers the scheduler
again. So either such an event is pending, or the choice of the dispatcher is still right.
-/

namespace Kista.Scheduling.Serving

open Kernel.Delta Kernel.Run
open Dispatch (TaskState SchedulerPolicy Readings Dispatcher dispatch dispatchPriority)
open SystemTask Constructs Rtos StateMachine TaskCoherence

variable {ι : Type} [DecidableEq ι]

/-- The thread of a task goes on from a consumption that is over. -/
def consumptionOver (c : RtosConfig ι) (i : ι) : Bool :=
  match (c.status (.thread i)).point with
  | .inside (.consumeEnd startTime) =>
    decide ((c.store.info i).leftConsumeTime ≤ c.now - startTime)
  | _ => false

/-- The dispatcher is about to run after a scheduling time of zero. -/
def rushed (c : RtosConfig ι) : Bool :=
  decide ((c.status .schedulerProc).point = .scheduled) && decide (c.store.sched.schedulingTime = 0)

/-- A thread whose consumption is over still has the processor, and a rushed dispatcher reads
no task as executing. -/
def Unhurried (tasks : TaskSet ι) (c : RtosConfig ι) : RtosLabel ι → Prop
  | .eval (.thread i) _ =>
    consumptionOver c i = true → (c.store.info i).activeSignal.read = true
  | .eval .schedulerProc _ =>
    rushed c = true → ∀ i ∈ tasks.tasksAssigned, (c.store.info i).stateSignal.read ≠ .executing
  | _ => True

instance (tasks : TaskSet ι) (c : RtosConfig ι) :
    (l : RtosLabel ι) → Decidable (Unhurried tasks c l)
  | .eval (.thread i) _ => inferInstanceAs
    (Decidable (consumptionOver c i = true → (c.store.info i).activeSignal.read = true))
  | .eval .schedulerProc _ => inferInstanceAs (Decidable (rushed c = true →
    ∀ i ∈ tasks.tasksAssigned, (c.store.info i).stateSignal.read ≠ .executing))
  | .eval .genTickTimerEvent _ => inferInstanceAs (Decidable True)
  | .eval (.genReleaseEvent _) _ => inferInstanceAs (Decidable True)
  | .eval (.updateStateProc _) _ => inferInstanceAs (Decidable True)
  | .delta => inferInstanceAs (Decidable True)
  | .advance _ => inferInstanceAs (Decidable True)

omit [DecidableEq ι] in
/-- The events that trigger a preemptive scheduler of a dynamic policy. -/
theorem triggers_preemptive {s : Scheduler ι}
    (policy : s.dispatcher.schedulerPolicy = .staticPriorities)
    (preemptive : s.schedulerTriggeringPolicy = .preemptive) :
    triggers s = [.yieldEvent, .completionEvent, .tickTimerEvent,
      .runningTaskToWaitStateEvent, .innactiveTaskEndsWaitEvent] := by
  unfold triggers
  rw [policy, preemptive]
  rfl

theorem before_found {found : ι → Bool} {order : List ι} {i : ι} (h : order.find? found = some i) :
    ∀ j, order.idxOf j < order.idxOf i → found j = false := by
  intro j before
  induction order with
  | nil => cases h
  | cons k order ih =>
    by_cases here : found k = true
    · rw [List.find?_cons_of_pos here] at h
      obtain rfl := Option.some.inj h
      rw [List.idxOf_cons_self] at before
      exact absurd before (Nat.not_lt_zero _)
    · rw [List.find?_cons_of_neg here] at h
      by_cases first : k = j
      · rw [← first]
        exact Bool.eq_false_iff.mpr here
      · have other : k ≠ i := by
          rintro rfl
          exact here (List.find?_some h)
        rw [List.idxOf_cons_ne _ first, List.idxOf_cons_ne _ other] at before
        exact ih h (by omega)

/-- The dispatcher returns the first ready task, or any if no task is ready. -/
theorem dispatch_staticPriorities {r : Readings ι} {found : Bool} {d d' : Dispatcher ι} {i : ι}
    (policy : d.schedulerPolicy = .staticPriorities) (h : dispatch r found d = .ok (i, d')) :
    d' = d ∧
      (r.state i = .ready ∧
          (∀ j, d.tasksByPriority.idxOf j < d.tasksByPriority.idxOf i → r.state j ≠ .ready) ∨
        ∀ j ∈ d.tasksByPriority, r.state j ≠ .ready) := by
  simp only [dispatch, policy, dispatchPriority] at h
  generalize d.tasksByPriority = order at h ⊢
  cases order with
  | nil => cases h
  | cons first rest =>
    simp only [Except.ok.injEq, Prod.mk.injEq] at h
    obtain ⟨chosen, same⟩ := h
    refine ⟨same.symm, ?_⟩
    cases search : (first :: rest).find? fun t => r.state t = .ready with
    | none =>
      right
      intro j hj
      simpa using List.find?_eq_none.mp search j hj
    | some k =>
      left
      rw [search, Option.getD_some] at chosen
      obtain rfl := chosen
      refine ⟨by simpa using List.find?_some search, fun j before => ?_⟩
      simpa using before_found search j before

/-- A trigger of the scheduler is pending. -/
def Alarmed (c : RtosConfig ι) : Prop := ∃ e ∈ triggers c.store.sched, e ∈ c.pending

/-- The choice of the dispatcher is still right: no task before the chosen one is ready, and
the chosen one runs, unless no task at all is ready. -/
structure Chosen (order : List ι) (c : RtosConfig ι) (i : ι) : Prop where
  first : ∀ j, order.idxOf j < order.idxOf i → (c.store.info j).stateSignal.next ≠ .ready
  serves : (c.store.info i).stateSignal.next = .ready ∨
    (c.store.info i).stateSignal.next = .executing ∧
      (c.status (.updateStateProc i) ≠ .ready .turn →
        (c.store.info i).waitingPeriodSignal.current = false ∧
          (c.store.info i).waitingCommSyncSignal.current = false) ∨
    ∀ j, j ≠ i → (c.store.info j).stateSignal.next ≠ .ready

/-- No task has the processor any more, or is about to get it. -/
structure Nobody (store : RtosStore ι) : Prop where
  current : ∀ j, (store.info j).activeSignal.current = false
  next : ∀ j, (store.info j).activeSignal.next = false

/-- A task that stands back while another one is granted the processor. -/
structure StandsBack (c : RtosConfig ι) (j : ι) : Prop where
  current : (c.store.info j).activeSignal.current = false
  next : (c.store.info j).activeSignal.next = false
  rests : c.status (.updateStateProc j) = .ready .turn →
    (c.store.info j).stateSignal.current ≠ .executing

/-- Where the scheduler stands. -/
inductive SchedPhase (order : List ι) (c : RtosConfig ι) :
    Status (Event ι) (RtosPoint ι) → Prop
  | outset {status} (point : status.point = .schedStart) (nobody : Nobody c.store) :
      SchedPhase order c status
  | first (nobody : ∀ j, (c.store.info j).activeSignal.next = false) :
      SchedPhase order c (.blocked [] (some c.now) .firstWait)
  | firstEnd (nobody : Nobody c.store) : SchedPhase order c (.ready .firstWait)
  | second (nobody : Nobody c.store) : SchedPhase order c (.blocked [] (some c.now) .secondWait)
  | secondEnd (nobody : Nobody c.store)
      (rests : ∀ j, (c.store.info j).stateSignal.current ≠ .executing) :
      SchedPhase order c (.ready .secondWait)
  | timed {due : ℕ} (nobody : ∀ j, (c.store.info j).activeSignal.next = false)
      (later : c.now < due ∨ due = c.now ∧ c.store.sched.schedulingTime = 0) :
      SchedPhase order c (.blocked [] (some due) .scheduled)
  | computed (nobody : Nobody c.store)
      (rests : c.store.sched.schedulingTime = 0 ∨
        ∀ j, (c.store.info j).stateSignal.current ≠ .executing) :
      SchedPhase order c (.ready .scheduled)
  | running {i : ι} (others : ∀ j, j ≠ i → StandsBack c j) (chosen : Alarmed c ∨ Chosen order c i) :
      SchedPhase order c (.blocked (triggers c.store.sched) none (.running i))
  | triggered {i : ι} (others : ∀ j, j ≠ i → (c.store.info j).activeSignal.next = false) :
      SchedPhase order c (.ready (.running i))

/-- The tasks are coherent, and the scheduler serves them in their order. -/
structure Served (order : List ι) (c : RtosConfig ι) : Prop where
  policy : c.store.sched.dispatcher.schedulerPolicy = .staticPriorities
  preemptive : c.store.sched.schedulerTriggeringPolicy = .preemptive
  prioritized : c.store.sched.dispatcher.tasksByPriority = order
  pending : ∀ e ∈ c.pending, notifiable e = true
  tasks : ∀ i, ∃ p, Coherent i (c.store.info i) (c.status (.updateStateProc i))
    (c.status (.thread i)) p
  /-- A task that has just come out of a wait raises the alarm. -/
  released : ∀ j, (c.store.info j).stateSignal.next = .ready →
    (c.store.info j).stateSignal.current = .ready ∨
      (c.store.info j).stateSignal.current = .executing ∨
      .innactiveTaskEndsWaitEvent ∈ c.pending
  phase : SchedPhase order c (c.status .schedulerProc)

theorem served_start {tasks : TaskSet ι} (settings : Settings tasks)
    (policy : settings.schedulerPolicy = .staticPriorities)
    (preemptive : settings.schedulerTriggeringPolicy = .preemptive) :
    Served settings.tasksByPriority (simulationStart settings) := by
  refine ⟨policy, preemptive, rfl, nofun, fun i => ⟨.start, ?_⟩, fun j _ => ?_, ?_⟩
  · obtain ⟨active, consumption, period, sync, state⟩ := start_signals settings i
    refine ⟨⟨Or.inr (by rw [state]; rfl), fun _ held => ?_⟩, rfl, by simp, ⟨?_, ?_, ?_⟩,
      fun _ => Or.inl rfl, ?_, nofun, ?_, ?_, nofun, nofun, nofun, nofun, ?_, ?_, ?_, ?_⟩
    · rw [state] at held
      cases held
    all_goals simp [active, consumption, period, sync, state, atPeriod, atSync, consuming]
  · left
    rw [(start_signals settings j).2.2.2.2]
    rfl
  · refine .outset rfl ⟨fun j => ?_, fun j => ?_⟩
    all_goals
      rw [(start_signals settings j).1]
      rfl

/-- The scheduler begins to compute, and no task is to have the processor. -/
theorem SchedPhase.of_begins {order : List ι} {store : RtosStore ι}
    {status : RtosProc ι → Status (Event ι) (RtosPoint ι)} {pending : List (Event ι)} {now : ℕ}
    {seg : RtosSegment ι} (begins : Begins store now seg)
    (nobody : ∀ j, (store.info j).activeSignal.next = false) :
    SchedPhase order ⟨seg.store, status, pending, now⟩ seg.status := by
  have nobody' : ∀ j, (seg.store.info j).activeSignal.next = false := by
    rw [begins.info]
    exact nobody
  rcases begins.waits with ⟨-, waits⟩ | ⟨-, waits⟩
  · rw [waits]
    exact .first nobody'
  · rw [waits]
    refine .timed nobody' ?_
    show now < now + _ ∨ now + seg.store.sched.schedulingTime = now ∧
      seg.store.sched.schedulingTime = 0
    omega

/-- The dispatcher chooses by what it reads, which lags behind only by the tasks whose wait
has just ended. -/
theorem Served.chosen {order : List ι} {c : RtosConfig ι} (h : Served order c)
    (all : ∀ j, j ∈ order) (nobody : Nobody c.store)
    (rests : ∀ j, (c.store.info j).stateSignal.current ≠ .executing) {choice : RtosChoice} {i : ι}
    {d : Dispatcher ι} (dispatched : dispatch (readings c.store c.now) choice.firstReadyTaskFound
      c.store.sched.dispatcher = .ok (i, d)) :
    .innactiveTaskEndsWaitEvent ∈ c.pending ∨ Chosen order c i := by
  by_cases alarm : .innactiveTaskEndsWaitEvent ∈ c.pending
  · exact Or.inl alarm
  · right
    have before : ∀ j, (c.store.info j).stateSignal.next = .ready →
        (c.store.info j).stateSignal.current = .ready := by
      intro j becomes
      rcases h.released j becomes with ready | executing | raised
      · exact ready
      · exact absurd executing (rests j)
      · exact absurd raised alarm
    obtain ⟨-, found⟩ := dispatch_staticPriorities h.policy dispatched
    rw [h.prioritized] at found
    rcases found with ⟨ready, first⟩ | none
    · obtain ⟨p, coherent⟩ := h.tasks i
      refine ⟨fun j earlier becomes => first j earlier (before j becomes), Or.inl ?_⟩
      exact coherent.still ready (nobody.current i)
    · exact ⟨fun j _ becomes => none j (all j) (before j becomes),
        Or.inr (Or.inr fun j _ becomes => none j (all j) (before j becomes))⟩

theorem Chosen.congr {order : List ι} {c c' : RtosConfig ι} {i : ι} (h : Chosen order c i)
    (state : ∀ j, (c'.store.info j).stateSignal.next = (c.store.info j).stateSignal.next)
    (period : (c'.store.info i).waitingPeriodSignal.current =
      (c.store.info i).waitingPeriodSignal.current)
    (sync : (c'.store.info i).waitingCommSyncSignal.current =
      (c.store.info i).waitingCommSyncSignal.current)
    (machine : c'.status (.updateStateProc i) = c.status (.updateStateProc i)) :
    Chosen order c' i where
  first j earlier := by
    rw [state]
    exact h.first j earlier
  serves := by
    simp only [state, period, sync, machine]
    exact h.serves

/-- A turn of the scheduler writes no signal of a task but the one that grants the processor. -/
structure Writes (store store' : RtosStore ι) : Prop where
  task : ∀ j, store'.info j = store.info j ∨
    ∃ active, store'.info j =
      { store.info j with activeSignal := (store.info j).activeSignal.write active }

theorem writes_setActive {store store' : RtosStore ι} {i : ι} {active : Bool}
    (info : store'.info = (setActive store i active).info) : Writes store store' where
  task j := by
    rw [info]
    by_cases same : j = i
    · right
      rw [same, setActive_self]
      exact ⟨active, rfl⟩
    · left
      exact setActive_of_ne active same

omit [DecidableEq ι] in
theorem Writes.coherent {store store' : RtosStore ι} (h : Writes store store') {i : ι}
    {machine thread : Status (Event ι) (RtosPoint ι)} {p : TaskPoint}
    (coherent : Coherent i (store.info i) machine thread p) :
    Coherent i (store'.info i) machine thread p := by
  rcases h.task i with same | ⟨active, written⟩
  · rw [same]
    exact coherent
  · rw [written]
    exact coherent.setActive active

omit [DecidableEq ι] in
theorem Writes.state {store store' : RtosStore ι} (h : Writes store store') (i : ι) :
    (store'.info i).stateSignal = (store.info i).stateSignal := by
  rcases h.task i with same | ⟨active, written⟩
  · rw [same]
  · rw [written]

/-- What a turn of the scheduler leaves as it is. -/
structure Kept (store : RtosStore ι) (seg : RtosSegment ι) : Prop where
  writes : Writes store seg.store
  dispatcher : seg.store.sched.dispatcher = store.sched.dispatcher
  policy : seg.store.sched.schedulerTriggeringPolicy = store.sched.schedulerTriggeringPolicy
  notified : seg.notified = []

omit [DecidableEq ι] in
theorem Kept.of_begins {store : RtosStore ι} {now : ℕ} {seg : RtosSegment ι}
    (begins : Begins store now seg) : Kept store seg where
  writes := ⟨fun j => Or.inl (by rw [begins.info])⟩
  dispatcher := begins.dispatcher
  policy := begins.policy
  notified := begins.notified

/-- The scheduler grants the processor to the task that the dispatcher chooses. -/
theorem Served.ends {order : List ι} {c : RtosConfig ι} (h : Served order c)
    (all : ∀ j, j ∈ order) (nobody : Nobody c.store)
    (rests : ∀ j, (c.store.info j).stateSignal.current ≠ .executing) {choice : RtosChoice}
    {seg : RtosSegment ι} {n : ℕ}
    (ran : endScheduling choice c.now
      { c.store with sched := { c.store.sched with schedCompTime := n } } = some seg) :
    SchedPhase order ⟨seg.store, Function.update c.status .schedulerProc seg.status,
      seg.notified ++ c.pending, c.now⟩ seg.status ∧ Kept c.store seg := by
  obtain ⟨i, ends⟩ := endScheduling_ends ran
  have dispatched : dispatch (readings c.store c.now) choice.firstReadyTaskFound
      c.store.sched.dispatcher = .ok (i, seg.store.sched.dispatcher) := ends.dispatched
  have info : seg.store.info = (setActive c.store i true).info := ends.info
  have writes : Writes c.store seg.store := writes_setActive info
  have dispatcher : seg.store.sched.dispatcher = c.store.sched.dispatcher :=
    (dispatch_staticPriorities h.policy dispatched).1
  refine ⟨?_, writes, dispatcher, ends.policy, ends.notified⟩
  have same : triggers seg.store.sched = triggers c.store.sched := by
    unfold triggers
    rw [dispatcher, ends.policy]
  have waits : seg.status = .blocked (triggers seg.store.sched) none (.running i) := by
    rw [same]
    exact ends.waits
  have others : ∀ j, j ≠ i → seg.store.info j = c.store.info j := by
    intro j other
    rw [info, setActive_of_ne true other]
  generalize moved : (⟨seg.store, Function.update c.status .schedulerProc seg.status,
    seg.notified ++ c.pending, c.now⟩ : RtosConfig ι) = c'
  have machine : ∀ j, c'.status (.updateStateProc j) = c.status (.updateStateProc j) := by
    rw [← moved]
    simp
  have store : c'.store = seg.store := by rw [← moved]
  have pending : c'.pending = c.pending := by
    rw [← moved, ends.notified]
    rfl
  rw [waits, ← store]
  refine .running (fun j other => ?_) ?_
  · refine ⟨?_, ?_, fun _ => ?_⟩
    · rw [store, others j other]
      exact nobody.current j
    · rw [store, others j other]
      exact nobody.next j
    · rw [store, others j other]
      exact rests j
  · rcases h.chosen all nobody rests dispatched with alarm | chosen
    · left
      refine ⟨.innactiveTaskEndsWaitEvent, ?_, ?_⟩
      · rw [store, same, triggers_preemptive h.policy h.preemptive]
        simp
      · rwa [pending]
    · right
      refine chosen.congr (fun j => ?_) ?_ ?_ (machine i)
      · rw [store, writes.state]
      · rw [store, info, setActive_self]
      · rw [store, info, setActive_self]

theorem Served.schedules {order : List ι} {c : RtosConfig ι} (h : Served order c)
    (all : ∀ j, j ∈ order)
    (unhurried : rushed c = true → ∀ i, (c.store.info i).stateSignal.read ≠ .executing)
    {choice : RtosChoice} {r : RtosPoint ι} {seg : RtosSegment ι}
    (resumes : (c.status .schedulerProc).resumable = some r)
    (ran : schedulerProc choice c.now c.store r = some seg) :
    Served order ⟨seg.store, Function.update c.status .schedulerProc seg.status,
      seg.notified ++ c.pending, c.now⟩ := by
  have moved : SchedPhase order ⟨seg.store, Function.update c.status .schedulerProc seg.status,
      seg.notified ++ c.pending, c.now⟩ seg.status ∧ Kept c.store seg := by
    have place := Status.resumable_point resumes
    have phase := h.phase
    generalize standing : c.status .schedulerProc = status at phase resumes place
    cases phase with
    | outset point nobody =>
      rw [place] at point
      subst point
      simp only [schedulerProc] at ran
      split at ran
      · obtain rfl : _ = seg := Option.some.inj ran
        exact ⟨.outset rfl nobody, ⟨fun j => Or.inl rfl⟩, rfl, rfl, rfl⟩
      · have begins := beginScheduling_begins ran
        exact ⟨.of_begins begins nobody.next, .of_begins begins⟩
    | first nobody => cases resumes
    | firstEnd nobody =>
      obtain rfl := Option.some.inj resumes
      obtain rfl : _ = seg := Option.some.inj ran
      exact ⟨.second nobody, ⟨fun j => Or.inl rfl⟩, rfl, rfl, rfl⟩
    | second nobody => cases resumes
    | secondEnd nobody rests =>
      obtain rfl := Option.some.inj resumes
      exact h.ends all nobody rests (n := c.store.sched.schedCompTime) ran
    | timed nobody later => cases resumes
    | computed nobody rests =>
      obtain rfl := Option.some.inj resumes
      refine h.ends all nobody ?_ ran
      rcases rests with rushing | rests
      · apply unhurried
        simp [rushed, standing, Status.point, rushing]
      · exact rests
    | running others chosen => cases resumes
    | triggered others =>
      obtain rfl := Option.some.inj resumes
      have begins := beginScheduling_begins ran
      refine ⟨.of_begins begins fun j => ?_, ?_⟩
      · rw [setActive_next]
        split
        · rfl
        next other => exact others j other
      · exact ⟨writes_setActive begins.info, begins.dispatcher, begins.policy, begins.notified⟩
  obtain ⟨phase, writes, dispatcher, policy, notified⟩ := moved
  refine ⟨?_, ?_, ?_, ?_, fun i => ?_, fun j becomes => ?_, ?_⟩
  · exact (congrArg Dispatcher.schedulerPolicy dispatcher).trans h.policy
  · exact policy.trans h.preemptive
  · exact (congrArg Dispatcher.tasksByPriority dispatcher).trans h.prioritized
  · rw [notified]
    exact h.pending
  · obtain ⟨p, coherent⟩ := h.tasks i
    refine ⟨p, ?_⟩
    simpa using writes.coherent coherent
  · have before : (c.store.info j).stateSignal.next = .ready := by
      rw [← writes.state]
      exact becomes
    show (seg.store.info j).stateSignal.current = .ready ∨
      (seg.store.info j).stateSignal.current = .executing ∨ _ ∈ seg.notified ++ c.pending
    rw [writes.state, notified]
    exact h.released j before
  · simpa using phase

/-- A turn of another process leaves the scheduler where it stands. -/
theorem SchedPhase.keep {order : List ι} {c c' : RtosConfig ι}
    {status : Status (Event ι) (RtosPoint ι)} (h : SchedPhase order c status)
    (sched : c'.store.sched = c.store.sched) (now : c'.now = c.now)
    (active : ∀ j, (c'.store.info j).activeSignal = (c.store.info j).activeSignal)
    (state : ∀ j, (c'.store.info j).stateSignal.current = (c.store.info j).stateSignal.current)
    (machine : ∀ j, c'.status (.updateStateProc j) = .ready .turn →
      c.status (.updateStateProc j) = .ready .turn)
    (chosen : ∀ i, (∀ j, j ≠ i → StandsBack c j) → Alarmed c ∨ Chosen order c i →
      Alarmed c' ∨ Chosen order c' i) : SchedPhase order c' status := by
  have nobody' : Nobody c.store → Nobody c'.store := by
    rintro ⟨current, next⟩
    refine ⟨fun j => ?_, fun j => ?_⟩
    · rw [active]
      exact current j
    · rw [active]
      exact next j
  cases h with
  | outset point nobody => exact .outset point (nobody' nobody)
  | first nobody =>
    rw [← now]
    exact .first (by simpa only [active] using nobody)
  | firstEnd nobody => exact .firstEnd (nobody' nobody)
  | second nobody =>
    rw [← now]
    exact .second (nobody' nobody)
  | secondEnd nobody rests => exact .secondEnd (nobody' nobody) (by simpa only [state] using rests)
  | timed nobody later =>
    exact .timed (by simpa only [active] using nobody) (by rwa [sched, now])
  | computed nobody rests => exact .computed (nobody' nobody) (by simpa only [sched, state] using rests)
  | @running i others right =>
    rw [← sched]
    refine .running (fun j other => ?_) (chosen i others right)
    obtain ⟨current, next, rests⟩ := others j other
    exact ⟨by rwa [active], by rwa [active], fun turns => by
      rw [state]
      exact rests (machine j turns)⟩
  | triggered others => exact .triggered (by simpa only [active] using others)

/-- A turn of a process other than the scheduler. -/
theorem Served.moves {order : List ι} {c : RtosConfig ι} (h : Served order c) {p : RtosProc ι}
    {seg : RtosSegment ι} (scheduler : p ≠ .schedulerProc)
    (sched : seg.store.sched = c.store.sched)
    (active : ∀ j, (seg.store.info j).activeSignal = (c.store.info j).activeSignal)
    (state : ∀ j, (seg.store.info j).stateSignal.current = (c.store.info j).stateSignal.current)
    (notified : ∀ e ∈ seg.notified, notifiable e = true)
    (machine : ∀ j, Function.update c.status p seg.status (.updateStateProc j) = .ready .turn →
      c.status (.updateStateProc j) = .ready .turn)
    (tasks : ∀ i, ∃ q, Coherent i (seg.store.info i)
      (Function.update c.status p seg.status (.updateStateProc i))
      (Function.update c.status p seg.status (.thread i)) q)
    (released : ∀ j, (seg.store.info j).stateSignal.next = .ready →
      (c.store.info j).stateSignal.next = .ready ∨
        (c.store.info j).stateSignal.current = .executing ∨
        .innactiveTaskEndsWaitEvent ∈ seg.notified)
    (chosen : ∀ i, (∀ j, j ≠ i → StandsBack c j) → Chosen order c i →
      (∃ e ∈ triggers c.store.sched, e ∈ seg.notified) ∨
        Chosen order ⟨seg.store, Function.update c.status p seg.status,
          seg.notified ++ c.pending, c.now⟩ i) :
    Served order ⟨seg.store, Function.update c.status p seg.status,
      seg.notified ++ c.pending, c.now⟩ where
  policy := by
    show seg.store.sched.dispatcher.schedulerPolicy = _
    rw [sched]
    exact h.policy
  preemptive := by
    show seg.store.sched.schedulerTriggeringPolicy = _
    rw [sched]
    exact h.preemptive
  prioritized := by
    show seg.store.sched.dispatcher.tasksByPriority = _
    rw [sched]
    exact h.prioritized
  pending := List.forall_mem_append.mpr ⟨notified, h.pending⟩
  tasks := tasks
  released j becomes := by
    show (seg.store.info j).stateSignal.current = .ready ∨
      (seg.store.info j).stateSignal.current = .executing ∨ _ ∈ seg.notified ++ c.pending
    rw [state]
    rcases released j becomes with before | executing | raised
    · exact (h.released j before).imp_right (Or.imp_right (List.mem_append_right _))
    · exact Or.inr (Or.inl executing)
    · exact Or.inr (Or.inr (List.mem_append_left _ raised))
  phase := by
    show SchedPhase order _ (Function.update c.status p seg.status .schedulerProc)
    rw [Function.update_of_ne scheduler.symm]
    refine h.phase.keep sched rfl active state machine fun i others right => ?_
    rcases right with ⟨e, triggers', waiting⟩ | right
    · exact Or.inl ⟨e, by rwa [sched], List.mem_append_right _ waiting⟩
    · rcases chosen i others right with ⟨e, triggers', raised⟩ | right
      · exact Or.inl ⟨e, by rwa [sched], List.mem_append_left _ raised⟩
      · exact Or.inr right

/-- The generators change no signal of a task. -/
theorem Served.generates {order : List ι} {c : RtosConfig ι} (h : Served order c)
    {p : RtosProc ι} {seg : RtosSegment ι} (scheduler : p ≠ .schedulerProc)
    (machine : ∀ i, p ≠ .updateStateProc i) (thread : ∀ i, p ≠ .thread i)
    (store : seg.store = c.store) (notified : ∀ e ∈ seg.notified, notifiable e = true) :
    Served order ⟨seg.store, Function.update c.status p seg.status,
      seg.notified ++ c.pending, c.now⟩ := by
  refine h.moves scheduler (by rw [store]) (by simp [store]) (by simp [store]) notified ?_ ?_ ?_ ?_
  · intro j
    rw [Function.update_of_ne (machine j).symm]
    exact id
  · intro i
    obtain ⟨q, coherent⟩ := h.tasks i
    refine ⟨q, ?_⟩
    rwa [Function.update_of_ne (machine i).symm, Function.update_of_ne (thread i).symm, store]
  · intro j becomes
    rw [store] at becomes
    exact Or.inl becomes
  · intro i _ right
    right
    refine right.congr (by simp [store]) (by simp [store]) (by simp [store]) ?_
    exact Function.update_of_ne (machine i).symm ..

omit [DecidableEq ι] in
theorem Runs.ended {i : ι} {t t' : TaskInfo} (runs : Runs t t') :
    Halts i t t' (.blocked [] none .ended) :=
  runs.halts (.refl t') ⟨runs.raised.period, runs.raised.sync, runs.raised.consumption⟩ (by simp)
    (by simp [Status.point]) nofun

/-- The thread of a task goes on. -/
theorem Served.proceeds {order : List ι} {c : RtosConfig ι} (h : Served order c) {i : ι}
    {p : TaskPoint} {choice : RtosChoice} {seg : RtosSegment ι}
    (consumed : consumptionOver c i = true → (c.store.info i).activeSignal.read = true)
    (resumes : (c.status (.thread i)).resumable = some (.inside p))
    (ran : thread i p choice c.now c.store = some seg) :
    Served order ⟨seg.store, Function.update c.status (.thread i) seg.status,
      seg.notified ++ c.pending, c.now⟩ := by
  obtain ⟨q, coherent⟩ := h.tasks i
  have place : (c.status (.thread i)).point = .inside p := Status.resumable_point resumes
  obtain rfl : q = p := by
    rw [coherent.point] at place
    exact RtosPoint.inside.inj place
  have live : q ≠ .ended := by
    rintro rfl
    cases ran
  have resumed := resume_proceeds i c.now coherent.raised coherent.preemptible
    (fun awaits => by
      rcases coherent.grant awaits with blocked | ready
      · rw [blocked] at resumes
        cases resumes
      · exact (coherent.resumed awaits ready).1)
    (fun startTime here past => consumed (by
      rw [consumptionOver, place, here]
      exact decide_eq_true past))
  obtain ⟨t, status, halts, stored, waits, noted⟩ := thread_meets resumed
    (fun t' construct runs => call_proceeds h.preemptive i c.now runs construct)
    (fun t' runs => Runs.ended runs) ran
  have keeps := halts.keeps
  refine h.moves (by simp) (by rw [stored]) ?_ ?_ (fun e he => Noted.notifiable (noted e he)) ?_ ?_ ?_ ?_
  · rw [stored]
    exact update_info (f := TaskInfo.activeSignal) keeps.frame.active
  · rw [stored]
    exact update_info (f := fun t => t.stateSignal.current) (by rw [keeps.frame.state])
  · intro j
    simp
  · intro j
    by_cases own : j = i
    · subst own
      refine ⟨status.point, ?_⟩
      simpa [stored, waits] using coherent.halt halts resumes live
    · obtain ⟨q', other⟩ := h.tasks j
      refine ⟨q', ?_⟩
      simpa [stored, own] using other
  · intro j becomes
    left
    rw [stored] at becomes
    have same := update_info (f := TaskInfo.stateSignal) keeps.frame.state j
    rwa [← same]
  · intro k _ right
    right
    refine right.congr ?_ ?_ ?_ (by simp)
    · intro j
      rw [stored]
      exact update_info (f := fun t => t.stateSignal.next) (by rw [keeps.frame.state]) j
    · rw [stored]
      exact update_info (f := fun t => t.waitingPeriodSignal.current) keeps.period k
    · rw [stored]
      exact update_info (f := fun t => t.waitingCommSyncSignal.current) keeps.sync k

/-- The choice outlives the turn of a state machine that raises no alarm. -/
theorem Chosen.turns {order : List ι} {c : RtosConfig ι} {i k : ι} (h : Chosen order c k)
    {thread : Status (Event ι) (RtosPoint ι)} {p : TaskPoint}
    (coherent : Coherent i (c.store.info i) (.ready .turn) thread p)
    (rests : i ≠ k → (c.store.info i).stateSignal.current ≠ .executing) {turn : Transition ι}
    (turns : updateStateProc (c.store.info i) = some turn)
    (silent : .innactiveTaskEndsWaitEvent ∉ turn.notified ∧
      .runningTaskToWaitStateEvent ∉ turn.notified ∧ .completionEvent ∉ turn.notified)
    (pending : List (Event ι)) :
    Chosen order ⟨setState c.store i turn.state, Function.update c.status (.updateStateProc i)
      (.blocked (turn.waits.map (.task i)) none .turn), pending, c.now⟩ k := by
  have turned := updateStateProc_turn turns
  have shown : (c.store.info i).stateSignal.next = (c.store.info i).stateSignal.current := by
    rcases coherent.fsm.place with ⟨-, shown⟩ | blocked
    · exact shown
    · cases blocked
  have released : turn.state = .ready → (c.store.info i).stateSignal.current = .executing := by
    intro becomes
    rcases turned.becomesReady becomes with ⟨executing, -⟩ | ⟨-, -, raised⟩
    · exact executing
    · exact absurd raised silent.1
  by_cases own : i = k
  · subst own
    refine ⟨fun j earlier => ?_, ?_⟩
    · have other : j ≠ i := by
        rintro rfl
        exact lt_irrefl _ earlier
      show ((setState c.store i turn.state).info j).stateSignal.next ≠ _
      rw [setState_of_ne turn.state other]
      exact h.first j earlier
    · simp only [setState_self, Signal.write_next, Function.update_self]
      rcases h.serves with ready | ⟨executing, -⟩ | none
      · rw [shown] at ready
        rw [show (c.store.info i).stateSignal.read = .ready from ready] at turned
        obtain ⟨-, period, sync⟩ := coherent.woken rfl ready
        exact Or.inr (Or.inl ⟨turned.fromReady, fun _ => ⟨period, sync⟩⟩)
      · rw [shown] at executing
        rw [show (c.store.info i).stateSignal.read = .executing from executing] at turned
        rcases turned.fromExecuting with ready | raised | raised
        · exact Or.inl ready
        · exact absurd raised silent.2.1
        · exact absurd raised silent.2.2
      · right
        right
        intro j other
        rw [setState_of_ne turn.state other]
        exact none j other
  · have waiting : turn.state ≠ .ready := fun becomes => rests own (released becomes)
    have same : (setState c.store i turn.state).info k = c.store.info k :=
      setState_of_ne turn.state (Ne.symm own)
    have kept : ∀ j, (c.store.info j).stateSignal.next ≠ .ready →
        ((setState c.store i turn.state).info j).stateSignal.next ≠ .ready := by
      intro j rests
      by_cases turns : j = i
      · rw [turns, setState_self]
        exact waiting
      · rwa [setState_of_ne turn.state turns]
    refine ⟨fun j earlier => kept j (h.first j earlier), ?_⟩
    show ((setState c.store i turn.state).info k).stateSignal.next = _ ∨ _
    simp only [same]
    rcases h.serves with ready | ⟨executing, clear⟩ | none
    · exact Or.inl ready
    · right
      left
      refine ⟨executing, fun resting => clear ?_⟩
      rwa [Function.update_of_ne (by simpa using Ne.symm own)] at resting
    · exact Or.inr (Or.inr fun j other => kept j (none j other))

/-- The state machine of a task turns. -/
theorem Served.machineTurns {order : List ι} {c : RtosConfig ι} (h : Served order c) {i : ι}
    {seg : RtosSegment ι} (granted : waitEnded (c.store.info i) = true →
      (c.store.info i).activeSignal.read = true)
    (resumes : (c.status (.updateStateProc i)).resumable = some .turn)
    (ran : turnState i c.store = some seg) :
    Served order ⟨seg.store, Function.update c.status (.updateStateProc i) seg.status,
      seg.notified ++ c.pending, c.now⟩ := by
  obtain ⟨p, coherent⟩ := h.tasks i
  have turning : c.status (.updateStateProc i) = .ready .turn := by
    rcases coherent.fsm.place with ⟨ready, -⟩ | blocked
    · exact ready
    · rw [blocked] at resumes
      cases resumes
  rw [turning] at coherent
  obtain ⟨turn, turns, made⟩ := Option.map_eq_some_iff.mp ran
  have turned := updateStateProc_turn turns
  have own : seg.store.info i = { c.store.info i with
      stateSignal := (c.store.info i).stateSignal.write turn.state } := by
    rw [← made, setState_self]
  have others : ∀ j, j ≠ i → seg.store.info j = c.store.info j := by
    intro j other
    rw [← made, setState_of_ne turn.state other]
  have notified : seg.notified = turn.notified := by rw [← made]
  have waits : seg.status = .blocked (turn.waits.map (.task i)) none .turn := by rw [← made]
  refine h.moves (by simp) (by rw [← made]; rfl) ?_ ?_ ?_ ?_ ?_ ?_ ?_
  · intro j
    rw [← made, setState_active]
  · intro j
    by_cases same : j = i
    · rw [same, own]
      rfl
    · rw [others j same]
  · rw [notified]
    exact turned.notified
  · intro j
    by_cases same : j = i
    · rw [same, Function.update_self, waits]
      nofun
    · rw [Function.update_of_ne (by simpa using same)]
      exact id
  · intro j
    by_cases same : j = i
    · subst same
      refine ⟨p, ?_⟩
      rw [Function.update_self, Function.update_of_ne (by simp), waits, own]
      exact coherent.turn turns granted
    · obtain ⟨q, other⟩ := h.tasks j
      refine ⟨q, ?_⟩
      rwa [Function.update_of_ne (by simpa using same), Function.update_of_ne (by simp),
        others j same]
  · intro j becomes
    by_cases same : j = i
    · subst same
      rw [own] at becomes
      rw [notified]
      rcases turned.becomesReady becomes with ⟨executing, -⟩ | ⟨-, -, raised⟩
      · exact Or.inr (Or.inl executing)
      · exact Or.inr (Or.inr raised)
    · rw [others j same] at becomes
      exact Or.inl becomes
  · intro k standsBack right
    rw [← made]
    by_cases silent : .innactiveTaskEndsWaitEvent ∉ turn.notified ∧
        .runningTaskToWaitStateEvent ∉ turn.notified ∧ .completionEvent ∉ turn.notified
    · right
      exact right.turns coherent (fun other => (standsBack i other).rests turning) turns silent _
    · left
      rw [triggers_preemptive h.policy h.preemptive]
      by_contra none
      refine silent ⟨fun raised => none ?_, fun raised => none ?_, fun raised => none ?_⟩
      · exact ⟨_, by simp, raised⟩
      · exact ⟨_, by simp, raised⟩
      · exact ⟨_, by simp, raised⟩

theorem Served.eval {tasks : TaskSet ι} {order : List ι} {c : RtosConfig ι}
    (h : Served order c) (all : ∀ j, j ∈ order) {p : RtosProc ι} {choice : RtosChoice}
    {r : RtosPoint ι} {seg : RtosSegment ι} (granted : Granted c (.eval p choice))
    (unhurried : Unhurried tasks c (.eval p choice)) (resumes : (c.status p).resumable = some r)
    (ran : exec p r choice c.now c.store = some seg) :
    Served order ⟨seg.store, Function.update c.status p seg.status,
      seg.notified ++ c.pending, c.now⟩ := by
  cases p with
  | schedulerProc =>
    exact h.schedules all (fun rushing i => unhurried rushing i (tasks.complete i)) resumes ran
  | genTickTimerEvent =>
    cases r with
    | tick =>
      obtain rfl : _ = seg := Option.some.inj ran
      refine h.generates (by simp) (by simp) (by simp) genTickTimerEvent_store ?_
      intro e he
      rw [genTickTimerEvent_notified e he]
      rfl
    | _ => cases ran
  | genReleaseEvent i =>
    have release : ∀ notified, (∀ e ∈ notified, notifiable e = true) →
        seg = genReleaseEvent i c.now c.store notified → Served order ⟨seg.store, Function.update
          c.status (.genReleaseEvent i) seg.status, seg.notified ++ c.pending, c.now⟩ := by
      rintro notified allowed rfl
      refine h.generates (by simp) (by simp) (by simp) (genReleaseEvent_store i notified) ?_
      intro e he
      exact allowed e (genReleaseEvent_notified i notified e he)
    cases r with
    | genStart => exact release [] (by simp) (Option.some.inj ran).symm
    | generate =>
      exact release [.task i .taskRelease] (by simp [notifiable]) (Option.some.inj ran).symm
    | _ => cases ran
  | updateStateProc i =>
    cases r with
    | turn => exact h.machineTurns granted resumes ran
    | _ => cases ran
  | thread i =>
    cases r with
    | inside p => exact h.proceeds unhurried resumes ran
    | _ => cases ran

/-- The edges of the signals trigger no scheduling. -/
theorem fired_trigger {tasks : TaskSet ι} {order : List ι} {c : RtosConfig ι}
    (h : Served order c) {e : Event ι} (trigger : e ∈ triggers c.store.sched) :
    (rtosSystem tasks).fired c e = decide (e ∈ c.pending) := by
  rw [triggers_preemptive h.policy h.preemptive] at trigger
  simp only [List.mem_cons, List.not_mem_nil, or_false] at trigger
  rcases trigger with rfl | rfl | rfl | rfl | rfl <;> rfl

omit [DecidableEq ι] in
theorem executing_of_holds {state : TaskState} (held : holds state = false) :
    state ≠ .executing := by
  rintro rfl
  cases held

theorem Chosen.delta {tasks : TaskSet ι} {order : List ι} {c : RtosConfig ι}
    (h : Served order c) {i : ι} (right : Chosen order c i) (quiet : ∀ p r, c.status p ≠ .ready r) :
    Chosen order ⟨(rtosSystem tasks).update c.store,
      fun p => (c.status p).wake ((rtosSystem tasks).fired c) c.now, [], c.now⟩ i where
  first := right.first
  serves := by
    rcases right.serves with ready | ⟨executing, clear⟩ | none
    · exact Or.inl ready
    · right
      left
      refine ⟨executing, fun resting => ?_⟩
      obtain ⟨period, sync⟩ := clear (quiet _ _)
      obtain ⟨p, coherent⟩ := h.tasks i
      rcases coherent.fsm.wake (quiet _ _) ((rtosSystem tasks).fired c) c.now with
        ⟨-, woken⟩ | ⟨silent, -⟩
      · exact absurd woken resting
      · rw [executing] at silent
        have noPeriod := silent .waitingPeriodPosedge (by simp [StateMachine.waits])
        have noSync := silent .waitingCommSyncPosedge (by simp [StateMachine.waits])
        rw [fired_edge h.pending rfl] at noPeriod noSync
        constructor
        · exact Signal.low_of_no_posedge noPeriod period
        · exact Signal.low_of_no_posedge noSync sync
    · exact Or.inr (Or.inr none)

theorem Served.delta {tasks : TaskSet ι} {order : List ι} {c : RtosConfig ι}
    (h : Served order c) (quiet : ∀ p r, c.status p ≠ .ready r) :
    Served order ⟨(rtosSystem tasks).update c.store,
      fun p => (c.status p).wake ((rtosSystem tasks).fired c) c.now, [], c.now⟩ where
  policy := h.policy
  preemptive := h.preemptive
  prioritized := h.prioritized
  pending := nofun
  tasks i := by
    obtain ⟨p, coherent⟩ := h.tasks i
    exact ⟨p, coherent.delta (quiet _ _) (quiet _) fun e edges => fired_edge h.pending edges⟩
  released j becomes := Or.inl becomes
  phase := by
    have phase := h.phase
    have waiting := quiet .schedulerProc
    have idles : ∀ j, (c.store.info j).activeSignal.current = false →
        (c.store.info j).stateSignal.next ≠ .executing := by
      intro j lost
      obtain ⟨p, coherent⟩ := h.tasks j
      exact executing_of_holds (coherent.idles (quiet _ _) lost)
    have shown : (∀ j, (c.store.info j).activeSignal.next = false) →
        Nobody ((rtosSystem tasks).update c.store) := fun nobody => ⟨nobody, nobody⟩
    dsimp only
    generalize standing : c.status .schedulerProc = status at phase waiting
    cases phase with
    | outset point nobody => exact .outset (by simpa using point) (shown nobody.next)
    | first nobody =>
      rw [Status.wake_blocked_of_due]
      exact .firstEnd (shown nobody)
    | firstEnd nobody => exact absurd rfl (waiting _)
    | second nobody =>
      rw [Status.wake_blocked_of_due]
      exact .secondEnd (shown nobody.next) fun j => idles j (nobody.current j)
    | secondEnd nobody rests => exact absurd rfl (waiting _)
    | @timed due nobody later =>
      rcases later with later | ⟨rfl, rushing⟩
      · rw [Status.wake_blocked_of_silent (by simp) (by simpa using later.ne')]
        exact .timed nobody (Or.inl later)
      · rw [Status.wake_blocked_of_due]
        exact .computed (shown nobody) (Or.inl rushing)
    | computed nobody rests => exact absurd rfl (waiting _)
    | @running i others right =>
      by_cases alarm : Alarmed c
      · obtain ⟨e, trigger, raised⟩ := alarm
        rw [Status.wake_blocked_of_fired e trigger
          (by rw [fired_trigger h trigger]; exact decide_eq_true raised)]
        exact .triggered fun j other => (others j other).next
      · rw [Status.wake_blocked_of_silent _ (by simp)]
        · refine .running (fun j other => ?_) (Or.inr ?_)
          · exact ⟨(others j other).next, (others j other).next,
              fun _ => idles j (others j other).current⟩
          · exact Chosen.delta h (right.resolve_left alarm) quiet
        · intro e trigger
          rw [fired_trigger h trigger]
          exact decide_eq_false fun raised => alarm ⟨e, trigger, raised⟩
    | triggered others => exact absurd rfl (waiting _)

theorem Served.advance {tasks : TaskSet ι} {order : List ι} {c : RtosConfig ι} {t : ℕ}
    (h : Served order c) (stable : (rtosSystem tasks).stable c = true)
    (within : ∀ p, (c.status p).latest t = true) :
    Served order ⟨c.store, fun p => (c.status p).wake (fun _ => false) t, c.pending, t⟩ := by
  obtain ⟨quiet, -, clean, due⟩ := System.stable_iff.mp stable
  have settled := settled_of_clean clean
  refine ⟨h.policy, h.preemptive, h.prioritized, h.pending, fun i => ?_, h.released, ?_⟩
  · obtain ⟨p, coherent⟩ := h.tasks i
    exact ⟨p, coherent.advance (quiet _ _) (quiet _) t⟩
  · have phase := h.phase
    have waiting := quiet .schedulerProc
    have bound := within .schedulerProc
    have later := due .schedulerProc
    have asleep : ∀ i, (c.status (.updateStateProc i)).wake (fun _ => false) t =
        c.status (.updateStateProc i) := by
      intro i
      obtain ⟨p, coherent⟩ := h.tasks i
      rcases coherent.fsm.wake (quiet _ _) (fun _ => false) t with ⟨⟨_, -, fires⟩, -⟩ | ⟨-, asleep⟩
      · cases fires
      · exact asleep
    dsimp only
    generalize standing : c.status .schedulerProc = status at phase waiting bound later
    cases phase with
    | outset point nobody => exact .outset (by simpa using point) nobody
    | first nobody => exact absurd rfl (later _ _ _ rfl)
    | firstEnd nobody => exact absurd rfl (waiting _)
    | second nobody => exact absurd rfl (later _ _ _ rfl)
    | secondEnd nobody rests => exact absurd rfl (waiting _)
    | @timed due nobody soon =>
      have bound : t ≤ due := of_decide_eq_true bound
      by_cases instant : due = t
      · have lost : ∀ j, (c.store.info j).activeSignal.current = false := by
          intro j
          rw [← settled.taskActive]
          exact nobody j
        rw [instant, Status.wake_blocked_of_due]
        refine .computed ⟨lost, nobody⟩ (Or.inr fun j => ?_)
        obtain ⟨p, coherent⟩ := h.tasks j
        rw [← settled.taskState]
        exact executing_of_holds (coherent.idles (quiet _ _) (lost j))
      · rw [Status.wake_blocked_of_silent (by simp) (by simpa using instant)]
        exact .timed nobody (Or.inl (lt_of_le_of_ne bound (Ne.symm instant)))
    | computed nobody rests => exact absurd rfl (waiting _)
    | @running i others right =>
      rw [Status.wake_blocked_of_silent (fun _ _ => rfl) (by simp)]
      refine .running (fun j other => ?_) ?_
      · obtain ⟨current, next, -⟩ := others j other
        refine ⟨current, next, fun turns => ?_⟩
        exact absurd ((asleep j).symm.trans turns) (quiet _ _)
      · rcases right with alarm | right
        · exact Or.inl alarm
        · exact Or.inr (right.congr (fun _ => rfl) rfl rfl (asleep i))
    | triggered others => exact absurd rfl (waiting _)

end Kista.Scheduling.Serving
