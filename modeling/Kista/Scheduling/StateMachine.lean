/- Kista/Scheduling/StateMachine
   source: src/src/task_info_t.cpp, scheduler.cpp
   digest: What holds of the state machine of a task in every configuration of a scheduler
   and its tasks, and what the other processes leave alone. -/

import Kista.Scheduling.Rtos

set_option autoImplicit false
set_option relaxedAutoImplicit false

namespace Kista.Scheduling.StateMachine

open Kernel.Delta
open Dispatch (TaskState)
open SystemTask Constructs Rtos

variable {ι : Type}

/-- The states in which a task holds the processor. -/
def holds : TaskState → Bool
  | .executing | .waitPeriod | .waitCommSync => true
  | _ => false

/-- The events that a state machine waits for in a state. -/
def waits : TaskState → List TaskEvent
  | .executing =>
    [.activeNegedge, .consumptionNegedge, .waitingPeriodPosedge, .waitingCommSyncPosedge]
  | .waitPeriod => [.waitingPeriodNegedge, .activeNegedge]
  | .waitCommSync => [.waitingCommSyncNegedge, .activeNegedge]
  | .ready => [.activePosedge]
  | .inactiveWaitPeriod => [.activePosedge, .waitingPeriodNegedge]
  | .inactiveWaitCommSync => [.waitingCommSyncNegedge, .activePosedge]
  | .finished => []

/-- A task that holds the processor without executing has come to the end of its wait. -/
def waitEnded (t : TaskInfo) : Bool :=
  match t.stateSignal.read with
  | .waitPeriod => !t.waitingPeriodSignal.read
  | .waitCommSync => !t.waitingCommSyncSignal.read
  | _ => false

/-- The events that processes notify; the others are edges of signals. -/
def notifiable : Event ι → Bool
  | .task _ .taskRelease | .task _ .endResponse => true
  | .task _ _ => false
  | _ => true

theorem Noted.notifiable {i : ι} {e : Event ι} (h : Noted i e) : notifiable e = true := by
  rcases h with rfl | rfl
  · rfl
  · rfl

/-- A state machine that finds the wait of its task at an end finds the processor granted. -/
def Granted (c : RtosConfig ι) : RtosLabel ι → Prop
  | .eval (.updateStateProc i) _ =>
    waitEnded (c.store.info i) = true → (c.store.info i).activeSignal.read = true
  | _ => True

instance (c : RtosConfig ι) : (l : RtosLabel ι) → Decidable (Granted c l)
  | .eval (.updateStateProc i) _ => inferInstanceAs
    (Decidable (waitEnded (c.store.info i) = true → (c.store.info i).activeSignal.read = true))
  | .eval .schedulerProc _ => inferInstanceAs (Decidable True)
  | .eval .genTickTimerEvent _ => inferInstanceAs (Decidable True)
  | .eval (.genReleaseEvent _) _ => inferInstanceAs (Decidable True)
  | .eval (.thread _) _ => inferInstanceAs (Decidable True)
  | .delta => inferInstanceAs (Decidable True)
  | .advance _ => inferInstanceAs (Decidable True)

/-- A task record changed where only its own fields change. -/
theorem update_info [DecidableEq ι] {γ : Type} {info : ι → TaskInfo} {i : ι} {t : TaskInfo} {f : TaskInfo → γ}
    (same : f t = f (info i)) (j : ι) : f (Function.update info i t j) = f (info j) := by
  by_cases own : j = i
  · rw [own, Function.update_self, same]
  · rw [Function.update_of_ne own]

/-- No write is pending on the signals of a scheduler and its tasks. -/
structure Settled (store : RtosStore ι) : Prop where
  state : store.sched.stateSignal.next = store.sched.stateSignal.current
  taskActive : ∀ i, (store.info i).activeSignal.next = (store.info i).activeSignal.current
  taskState : ∀ i, (store.info i).stateSignal.next = (store.info i).stateSignal.current

theorem settled_of_clean [DecidableEq ι] {tasks : TaskSet ι} {store : RtosStore ι}
    (clean : (rtosSystem tasks).dirty store = false) : Settled store := by
  have clean : ((store.sched.stateSignal.dirty || store.sched.consumptionSignal.dirty) ||
      tasks.tasksAssigned.any fun i => dirty (store.info i)) = false := clean
  rw [Bool.or_eq_false_iff, Bool.or_eq_false_iff, List.any_eq_false] at clean
  obtain ⟨⟨state, -⟩, each⟩ := clean
  have task : ∀ i, (store.info i).activeSignal.dirty = false ∧
      (store.info i).stateSignal.dirty = false := by
    intro i
    have := each i (tasks.complete i)
    simp only [dirty, Bool.or_eq_true, not_or, Bool.not_eq_true] at this
    exact ⟨this.1.1.1.1, this.2⟩
  exact ⟨Signal.next_eq_of_clean state, fun i => Signal.next_eq_of_clean (task i).1,
    fun i => Signal.next_eq_of_clean (task i).2⟩

/-- The edges of the signals of a task fire in the delta that shows them, and only then. -/
theorem fired_edge [DecidableEq ι] {tasks : TaskSet ι} {c : RtosConfig ι}
    (pending : ∀ e ∈ c.pending, notifiable e = true) {i : ι} {e : TaskEvent}
    (edges : notifiable (Event.task i e) = false) :
    (rtosSystem tasks).fired c (.task i e) = edge (c.store.info i) e := by
  show (edge (c.store.info i) e || decide (Event.task i e ∈ c.pending)) = _
  have absent : decide (Event.task i e ∈ c.pending) = false := by
    refine decide_eq_false fun notified => ?_
    rw [pending _ notified] at edges
    cases edges
  rw [absent, Bool.or_false]

/-- The transitions of the state machine, with what is read on each. -/
inductive MachineTurn (t : TaskInfo) : TaskState → Transition ι → Prop
  | stopForPeriod (period : t.waitingPeriodSignal.read = true) : MachineTurn t .executing
      (toWait true t.activeSignal.read [.runningTaskToWaitStateEvent])
  | stopForSync (period : t.waitingPeriodSignal.read = false)
      (sync : t.waitingCommSyncSignal.read = true) : MachineTurn t .executing
      (toWait false t.activeSignal.read [.runningTaskToWaitStateEvent])
  | finish (period : t.waitingPeriodSignal.read = false)
      (sync : t.waitingCommSyncSignal.read = false) (flag : t.finishedFlag = true)
      (consumption : t.consumptionSignal.read = false) :
      MachineTurn t .executing ⟨.finished, [.completionEvent], []⟩
  | yield (period : t.waitingPeriodSignal.read = false)
      (sync : t.waitingCommSyncSignal.read = false)
      (still : t.activeSignal.read = false ∨
        t.finishedFlag = false ∧ t.consumptionSignal.read = false) :
      MachineTurn t .executing (toReady [])
  | resume {state : TaskState} (held : state = .waitPeriod ∧ t.waitingPeriodSignal.read = false ∨
        state = .waitCommSync ∧ t.waitingCommSyncSignal.read = false) :
      MachineTurn t state toExecuting
  | preempt {state : TaskState} (period : Bool)
      (held : state = .waitPeriod ∧ period = true ∧ t.waitingPeriodSignal.read = true ∨
        state = .waitCommSync ∧ period = false ∧ t.waitingCommSyncSignal.read = true)
      (active : t.activeSignal.read = false) : MachineTurn t state (toWait period false [])
  | grant {state : TaskState} (idle : state = .ready ∨
        state = .inactiveWaitPeriod ∧ t.waitingPeriodSignal.read = false ∨
        state = .inactiveWaitCommSync ∧ t.waitingCommSyncSignal.read = false)
      (active : t.activeSignal.read = true) : MachineTurn t state toExecuting
  | release {state : TaskState}
      (idle : state = .inactiveWaitPeriod ∧ t.waitingPeriodSignal.read = false ∨
        state = .inactiveWaitCommSync ∧ t.waitingCommSyncSignal.read = false)
      (active : t.activeSignal.read = false) :
      MachineTurn t state (toReady [.innactiveTaskEndsWaitEvent])
  | hold {state : TaskState} (period : Bool)
      (idle : state = .inactiveWaitPeriod ∧ period = true ∧ t.waitingPeriodSignal.read = true ∨
        state = .inactiveWaitCommSync ∧ period = false ∧ t.waitingCommSyncSignal.read = true)
      (active : t.activeSignal.read = true) : MachineTurn t state (toWait period true [])

theorem updateStateProc_turn {t : TaskInfo} {turn : Transition ι}
    (turns : updateStateProc t = some turn) : MachineTurn t t.stateSignal.read turn := by
  unfold updateStateProc at turns
  cases state : t.stateSignal.read with
  | executing =>
    simp only [state] at turns
    split at turns
    · cases turns
      exact .stopForPeriod ‹_›
    · split at turns
      · cases turns
        exact .stopForSync (by simp_all) ‹_›
      · split at turns
        · cases turns
          exact .finish (by simp_all) (by simp_all) (by simp_all) (by simp_all)
        · split at turns
          · cases turns
            refine .yield (by simp_all) (by simp_all) ?_
            cases active : t.activeSignal.read with
            | false => exact Or.inl rfl
            | true => exact Or.inr (by simp_all)
          · cases turns
  | waitPeriod =>
    simp only [state] at turns
    split at turns
    · cases turns
      exact .resume (Or.inl ⟨rfl, by simp_all⟩)
    · split at turns
      · cases turns
        exact .preempt true (Or.inl ⟨rfl, rfl, by simp_all⟩) (by simp_all)
      · cases turns
  | waitCommSync =>
    simp only [state] at turns
    split at turns
    · cases turns
      exact .resume (Or.inr ⟨rfl, by simp_all⟩)
    · split at turns
      · cases turns
        exact .preempt false (Or.inr ⟨rfl, rfl, by simp_all⟩) (by simp_all)
      · cases turns
  | ready =>
    simp only [state] at turns
    split at turns
    · cases turns
      exact .grant (Or.inl rfl) ‹_›
    · cases turns
  | inactiveWaitPeriod =>
    simp only [state] at turns
    split at turns
    · cases turns
      exact .grant (Or.inr (Or.inl ⟨rfl, by simp_all⟩)) (by simp_all)
    · split at turns
      · cases turns
        exact .release (Or.inl ⟨rfl, by simp_all⟩) (by simp_all)
      · split at turns
        · cases turns
          exact .hold true (Or.inl ⟨rfl, rfl, by simp_all⟩) (by simp_all)
        · cases turns
  | inactiveWaitCommSync =>
    simp only [state] at turns
    split at turns
    · cases turns
      exact .grant (Or.inr (Or.inr ⟨rfl, by simp_all⟩)) (by simp_all)
    · split at turns
      · cases turns
        exact .release (Or.inr ⟨rfl, by simp_all⟩) (by simp_all)
      · split at turns
        · cases turns
          exact .hold false (Or.inr ⟨rfl, rfl, by simp_all⟩) (by simp_all)
        · cases turns
  | finished =>
    simp only [state] at turns
    cases turns

/-- The state that a turn leads to determines what the state machine waits for next. -/
theorem MachineTurn.waits_eq {t : TaskInfo} {state : TaskState} {turn : Transition ι}
    (h : MachineTurn t state turn) : turn.waits = waits turn.state := by
  cases h with
  | stopForPeriod period => cases t.activeSignal.read <;> rfl
  | stopForSync period sync => cases t.activeSignal.read <;> rfl
  | finish period sync flag consumption => rfl
  | yield period sync still => rfl
  | resume held => rfl
  | preempt period held active => cases period <;> rfl
  | grant idle active => rfl
  | release idle active => rfl
  | hold period idle active => cases period <;> rfl

/-- A turn takes hold of the processor only with it, or at the end of a wait. -/
theorem MachineTurn.holds {t : TaskInfo} {turn : Transition ι}
    (h : MachineTurn t t.stateSignal.read turn) (held : holds turn.state = true) :
    t.activeSignal.read = true ∨ waitEnded t = true := by
  generalize state : t.stateSignal.read = current at h
  cases h with
  | stopForPeriod period =>
    cases active : t.activeSignal.read with
    | true => exact Or.inl rfl
    | false =>
      rw [active] at held
      cases held
  | stopForSync period sync =>
    cases active : t.activeSignal.read with
    | true => exact Or.inl rfl
    | false =>
      rw [active] at held
      cases held
  | finish period sync flag consumption => cases held
  | yield period sync still => cases held
  | resume ended =>
    right
    rcases ended with ⟨rfl, ended⟩ | ⟨rfl, ended⟩ <;> simp only [waitEnded, state, ended] <;> rfl
  | preempt period _ active => cases period <;> cases held
  | grant idle active => exact Or.inl active
  | release idle active => cases held
  | hold period idle active => exact Or.inl active

theorem MachineTurn.fromExecuting {t : TaskInfo} {turn : Transition ι}
    (h : MachineTurn t .executing turn) : turn.state = .ready ∨
      .runningTaskToWaitStateEvent ∈ turn.notified ∨ .completionEvent ∈ turn.notified := by
  cases h with
  | stopForPeriod period => cases t.activeSignal.read <;> simp [toWait]
  | stopForSync period sync => cases t.activeSignal.read <;> simp [toWait]
  | finish period sync flag consumption => exact Or.inr (Or.inr (List.mem_singleton.mpr rfl))
  | yield period sync still => exact Or.inl rfl
  | resume held => rcases held with ⟨held, -⟩ | ⟨held, -⟩ <;> cases held
  | preempt period held active => rcases held with ⟨held, -⟩ | ⟨held, -⟩ <;> cases held
  | grant idle active => rcases idle with idle | ⟨idle, -⟩ | ⟨idle, -⟩ <;> cases idle
  | release idle active => rcases idle with ⟨idle, -⟩ | ⟨idle, -⟩ <;> cases idle
  | hold period idle active => rcases idle with ⟨idle, -⟩ | ⟨idle, -⟩ <;> cases idle

theorem MachineTurn.fromReady {t : TaskInfo} {turn : Transition ι}
    (h : MachineTurn t .ready turn) : turn.state = .executing := by
  cases h with
  | resume held => rfl
  | preempt period held active => rcases held with ⟨held, -⟩ | ⟨held, -⟩ <;> cases held
  | grant idle active => rfl
  | release idle active => rcases idle with ⟨idle, -⟩ | ⟨idle, -⟩ <;> cases idle
  | hold period idle active => rcases idle with ⟨idle, -⟩ | ⟨idle, -⟩ <;> cases idle

/-- A task waits without the processor for what its signals say. -/
theorem MachineTurn.inactiveWait {t : TaskInfo} {state : TaskState} {turn : Transition ι}
    (h : MachineTurn t state turn) :
    (turn.state = .inactiveWaitPeriod →
      t.activeSignal.read = false ∧ t.waitingPeriodSignal.read = true) ∧
    (turn.state = .inactiveWaitCommSync →
      t.activeSignal.read = false ∧ t.waitingCommSyncSignal.read = true) := by
  cases h with
  | stopForPeriod period =>
    cases active : t.activeSignal.read with
    | true => exact ⟨nofun, nofun⟩
    | false => exact ⟨fun _ => ⟨rfl, period⟩, nofun⟩
  | stopForSync period sync =>
    cases active : t.activeSignal.read with
    | true => exact ⟨nofun, nofun⟩
    | false => exact ⟨nofun, fun _ => ⟨rfl, sync⟩⟩
  | finish period sync flag consumption => exact ⟨nofun, nofun⟩
  | yield period sync still => exact ⟨nofun, nofun⟩
  | resume held => exact ⟨nofun, nofun⟩
  | preempt period held active =>
    rcases held with ⟨-, rfl, waiting⟩ | ⟨-, rfl, waiting⟩
    · exact ⟨fun _ => ⟨active, waiting⟩, nofun⟩
    · exact ⟨nofun, fun _ => ⟨active, waiting⟩⟩
  | grant idle active => exact ⟨nofun, nofun⟩
  | release idle active => exact ⟨nofun, nofun⟩
  | hold period idle active => cases period <;> exact ⟨nofun, nofun⟩

/-- A task becomes ready when it is preempted or yields, and when a wait without the processor
ends. -/
theorem MachineTurn.becomesReady {t : TaskInfo} {state : TaskState} {turn : Transition ι}
    (h : MachineTurn t state turn) (becomes : turn.state = .ready) :
    state = .executing ∧ t.waitingPeriodSignal.read = false ∧
        t.waitingCommSyncSignal.read = false ∧
        (t.activeSignal.read = false ∨ t.consumptionSignal.read = false) ∨
      (state = .inactiveWaitPeriod ∧ t.waitingPeriodSignal.read = false ∨
          state = .inactiveWaitCommSync ∧ t.waitingCommSyncSignal.read = false) ∧
        t.activeSignal.read = false ∧ .innactiveTaskEndsWaitEvent ∈ turn.notified := by
  cases h with
  | stopForPeriod period => cases active : t.activeSignal.read <;> rw [active] at becomes <;>
      cases becomes
  | stopForSync period sync => cases active : t.activeSignal.read <;> rw [active] at becomes <;>
      cases becomes
  | finish period sync flag consumption => cases becomes
  | yield period sync rests => exact Or.inl ⟨rfl, period, sync, rests.imp_right And.right⟩
  | resume held => cases becomes
  | preempt period held active => cases period <;> cases becomes
  | grant idle active => cases becomes
  | release idle active => exact Or.inr ⟨idle, active, List.mem_singleton.mpr rfl⟩
  | hold period idle active => cases period <;> cases becomes

theorem MachineTurn.notified {t : TaskInfo} {state : TaskState} {turn : Transition ι}
    (h : MachineTurn t state turn) : ∀ e ∈ turn.notified, notifiable e = true := by
  intro e he
  cases h with
  | stopForPeriod period =>
    cases active : t.activeSignal.read <;> rw [active] at he <;>
      rw [List.mem_singleton.mp he] <;> rfl
  | stopForSync period sync =>
    cases active : t.activeSignal.read <;> rw [active] at he <;>
      rw [List.mem_singleton.mp he] <;> rfl
  | finish period sync flag consumption =>
    rw [List.mem_singleton.mp he]
    rfl
  | yield period sync still => cases he
  | resume held => cases he
  | preempt period held active => cases period <;> cases he
  | grant idle active => cases he
  | release idle active =>
    rw [List.mem_singleton.mp he]
    rfl
  | hold period idle active => cases period <;> cases he

/-- The state machine of a task, waiting or about to turn. -/
structure Machine (i : ι) (t : TaskInfo) (status : Status (Event ι) (RtosPoint ι)) : Prop where
  place : status = .ready .turn ∧ t.stateSignal.next = t.stateSignal.current ∨
    status = .blocked ((waits t.stateSignal.next).map (.task i)) none .turn
  /-- A state machine that waits while its task holds the processor has seen it granted. -/
  granted : status ≠ .ready .turn → holds t.stateSignal.next = true →
    t.activeSignal.current = true

theorem Machine.congr {i : ι} {t t' : TaskInfo} {status : Status (Event ι) (RtosPoint ι)}
    (h : Machine i t status) (state : t'.stateSignal = t.stateSignal)
    (active : t'.activeSignal.current = t.activeSignal.current) : Machine i t' status where
  place := by
    rw [state]
    exact h.place
  granted := by
    rw [state, active]
    exact h.granted

theorem Machine.turn {i : ι} {t : TaskInfo} {turn : Transition ι}
    (turns : updateStateProc t = some turn)
    (granted : waitEnded t = true → t.activeSignal.read = true) :
    Machine i { t with stateSignal := t.stateSignal.write turn.state }
      (.blocked (turn.waits.map (.task i)) none .turn) where
  place := by
    right
    rw [(updateStateProc_turn turns).waits_eq]
    rfl
  granted _ held := by
    rcases (updateStateProc_turn turns).holds held with active | ended
    · exact active
    · exact granted ended

theorem waits_of_holds {state : TaskState} (held : holds state = true) :
    TaskEvent.activeNegedge ∈ waits state := by
  cases state with
  | executing => exact List.mem_cons_self
  | waitPeriod => simp [waits]
  | waitCommSync => simp [waits]
  | ready => cases held
  | inactiveWaitPeriod => cases held
  | inactiveWaitCommSync => cases held
  | finished => cases held

theorem Machine.blocked {i : ι} {t : TaskInfo} {status : Status (Event ι) (RtosPoint ι)}
    (h : Machine i t status) (quiet : status ≠ .ready .turn) :
    status = .blocked ((waits t.stateSignal.next).map (.task i)) none .turn := by
  rcases h.place with ⟨ready, -⟩ | blocked
  · exact absurd ready quiet
  · exact blocked

/-- What a delta does to a waiting state machine: it wakes, or has seen none of its events. -/
theorem wake_waits {i : ι} {state : TaskState} {status : Status (Event ι) (RtosPoint ι)}
    (blocked : status = .blocked ((waits state).map (.task i)) none .turn)
    (fired : Event ι → Bool) (now : ℕ) :
    (∃ e ∈ waits state, fired (.task i e) = true) ∧ status.wake fired now = .ready .turn ∨
      (∀ e ∈ waits state, fired (.task i e) = false) ∧ status.wake fired now = status := by
  rw [blocked]
  by_cases woken : ∃ e ∈ waits state, fired (.task i e) = true
  · left
    obtain ⟨e, waited, fires⟩ := woken
    exact ⟨⟨e, waited, fires⟩,
      Status.wake_blocked_of_fired (.task i e) (List.mem_map_of_mem waited) fires⟩
  · right
    have silent : ∀ e ∈ waits state, fired (.task i e) = false := by
      intro e waited
      exact Bool.eq_false_iff.mpr fun fires => woken ⟨e, waited, fires⟩
    refine ⟨silent, Status.wake_blocked_of_silent ?_ (by simp)⟩
    intro e he
    obtain ⟨e', waited, rfl⟩ := List.mem_map.mp he
    exact silent e' waited

theorem Machine.wake {i : ι} {t : TaskInfo} {status : Status (Event ι) (RtosPoint ι)}
    (h : Machine i t status) (quiet : status ≠ .ready .turn) (fired : Event ι → Bool) (now : ℕ) :
    (∃ e ∈ waits t.stateSignal.next, fired (.task i e) = true) ∧
        status.wake fired now = .ready .turn ∨
      (∀ e ∈ waits t.stateSignal.next, fired (.task i e) = false) ∧
        status.wake fired now = status :=
  wake_waits (h.blocked quiet) fired now

/-- A delta wakes the state machine whose task loses the processor. -/
theorem Machine.delta {i : ι} {t : TaskInfo} {status : Status (Event ι) (RtosPoint ι)}
    (h : Machine i t status) (quiet : status ≠ .ready .turn) {fired : Event ι → Bool} {now : ℕ}
    (edges : edge t .activeNegedge = true → fired (.task i .activeNegedge) = true) :
    Machine i (update t) (status.wake fired now) := by
  have place := h.blocked quiet
  rcases h.wake quiet fired now with ⟨-, wakes⟩ | ⟨silent, stays⟩
  · rw [wakes]
    exact ⟨Or.inl ⟨rfl, rfl⟩, fun waiting => absurd rfl waiting⟩
  · rw [stays]
    refine ⟨Or.inr place, fun _ held => ?_⟩
    -- the processor was granted, and its loss would have been seen
    show t.activeSignal.next = true
    have before : t.activeSignal.current = true := h.granted quiet held
    by_contra kept
    have lost : t.activeSignal.next = false := Bool.eq_false_iff.mpr kept
    have fires := edges (by simp [edge, Signal.negedge, before, lost])
    rw [silent _ (waits_of_holds held)] at fires
    cases fires

/-- A state machine waits for events alone. -/
theorem Machine.asleep {i : ι} {t : TaskInfo} {status : Status (Event ι) (RtosPoint ι)}
    (h : Machine i t status) (quiet : status ≠ .ready .turn) (now : ℕ) :
    status.wake (fun _ => false) now = status := by
  rcases h.wake quiet (fun _ => false) now with ⟨⟨_, -, fires⟩, -⟩ | ⟨-, stays⟩
  · cases fires
  · exact stays

theorem Machine.advance {i : ι} {t : TaskInfo} {status : Status (Event ι) (RtosPoint ι)}
    (h : Machine i t status) (quiet : status ≠ .ready .turn) (now : ℕ) :
    Machine i t (status.wake (fun _ => false) now) := by
  rw [h.asleep quiet]
  exact h

end Kista.Scheduling.StateMachine
