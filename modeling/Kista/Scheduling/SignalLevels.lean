/- Kista/Scheduling/SignalLevels
   source: src/src/task_info_t.cpp, user_task_constructs.cpp, scheduler.cpp, sched_types.hpp
   digest: The state of a task agrees with the levels of its signals, whichever edges coincide,
   and no turn of its state machine is an error. -/

import Kista.Scheduling.Exclusivity
import Kista.Scheduling.ThreadWaits

set_option autoImplicit false
set_option relaxedAutoImplicit false

namespace Kista.Scheduling.SignalLevels

open Kernel.Delta Kernel.Run
open Dispatch (TaskState)
open SystemTask Constructs Rtos StateMachine TaskCoherence TaskRule ThreadWaits Exclusivity

variable {ι : Type}

def waitsForPeriod (state : TaskState) : Prop := state = .waitPeriod ∨ state = .inactiveWaitPeriod

def waitsForSync (state : TaskState) : Prop :=
  state = .waitCommSync ∨ state = .inactiveWaitCommSync

/-- What the signals of a task say of its state. -/
structure Agrees (t : TaskInfo) : Prop where
  active : holds t.stateSignal.read = true → t.activeSignal.read = true
  period : waitsForPeriod t.stateSignal.read → t.waitingPeriodSignal.read = true
  sync : waitsForSync t.stateSignal.read → t.waitingCommSyncSignal.read = true

/-- The level that an edge leaves. -/
def shows (t : TaskInfo) : TaskEvent → Bool
  | .activePosedge => t.activeSignal.read
  | .activeNegedge => !t.activeSignal.read
  | .consumptionNegedge => !t.consumptionSignal.read
  | .waitingPeriodPosedge => t.waitingPeriodSignal.read
  | .waitingPeriodNegedge => !t.waitingPeriodSignal.read
  | .waitingCommSyncPosedge => t.waitingCommSyncSignal.read
  | .waitingCommSyncNegedge => !t.waitingCommSyncSignal.read
  | .taskRelease | .endResponse => false

theorem shows_of_edge {t : TaskInfo} {e : TaskEvent} (edges : edge t e = true) :
    shows (update t) e = true := by
  cases e <;> simp_all [edge, shows, Signal.posedge, Signal.negedge]

theorem waits_edges {state : TaskState} {e : TaskEvent} (waited : e ∈ waits state) (i : ι) :
    notifiable (Event.task i e) = false := by
  cases state <;> simp only [waits, List.mem_cons, List.not_mem_nil, or_false] at waited
  case executing => rcases waited with rfl | rfl | rfl | rfl <;> rfl
  case waitPeriod => rcases waited with rfl | rfl <;> rfl
  case waitCommSync => rcases waited with rfl | rfl <;> rfl
  case ready =>
    rw [waited]
    rfl
  case inactiveWaitPeriod => rcases waited with rfl | rfl <;> rfl
  case inactiveWaitCommSync => rcases waited with rfl | rfl <;> rfl

theorem periodEnd_waited {state : TaskState} (waiting : waitsForPeriod state) :
    TaskEvent.waitingPeriodNegedge ∈ waits state := by
  rcases waiting with rfl | rfl <;> simp [waits]

theorem syncEnd_waited {state : TaskState} (waiting : waitsForSync state) :
    TaskEvent.waitingCommSyncNegedge ∈ waits state := by
  rcases waiting with rfl | rfl <;> simp [waits]

/-- A state machine that sees one of the levels it waited for knows where to go, whatever the
others are. -/
theorem updateStateProc_of_shows {t : TaskInfo} {e : TaskEvent}
    (waited : e ∈ waits t.stateSignal.read) (shown : shows t e = true) :
    (updateStateProc t : Option (Transition ι)).isSome = true := by
  unfold updateStateProc
  cases state : t.stateSignal.read <;> rw [state] at waited <;>
    simp only [waits, List.mem_cons, List.not_mem_nil, or_false] at waited
  case executing =>
    rcases waited with rfl | rfl | rfl | rfl <;> simp only [shows] at shown <;> grind
  case waitPeriod =>
    rcases waited with rfl | rfl <;> simp only [shows] at shown <;> grind
  case waitCommSync =>
    rcases waited with rfl | rfl <;> simp only [shows] at shown <;> grind
  case ready =>
    rw [waited] at shown
    simp only [shows] at shown
    rw [Signal.read_eq] at shown
    simp [shown]
  case inactiveWaitPeriod =>
    rcases waited with rfl | rfl <;> simp only [shows] at shown <;> grind
  case inactiveWaitCommSync =>
    rcases waited with rfl | rfl <;> simp only [shows] at shown <;> grind

/-- A turn begins a wait only when the signal of that wait is up. -/
theorem waiting_of_turn {t : TaskInfo} {state : TaskState} {turn : Transition ι}
    (h : MachineTurn t state turn) :
    (waitsForPeriod turn.state → t.waitingPeriodSignal.read = true) ∧
      (waitsForSync turn.state → t.waitingCommSyncSignal.read = true) := by
  have executing : ¬ waitsForPeriod .executing ∧ ¬ waitsForSync .executing := by
    simp [waitsForPeriod, waitsForSync]
  have ready : ¬ waitsForPeriod .ready ∧ ¬ waitsForSync .ready := by
    simp [waitsForPeriod, waitsForSync]
  have period : ∀ active notified,
      ¬ waitsForSync (toWait true active notified : Transition ι).state := by
    intro active notified
    cases active <;> simp [toWait, waitsForSync]
  have sync : ∀ active notified,
      ¬ waitsForPeriod (toWait false active notified : Transition ι).state := by
    intro active notified
    cases active <;> simp [toWait, waitsForPeriod]
  cases h with
  | stopForPeriod up => exact ⟨fun _ => up, fun waits => absurd waits (period _ _)⟩
  | stopForSync _ up => exact ⟨fun waits => absurd waits (sync _ _), fun _ => up⟩
  | finish => exact ⟨by simp [waitsForPeriod], by simp [waitsForSync]⟩
  | yield => exact ⟨fun waits => absurd waits ready.1, fun waits => absurd waits ready.2⟩
  | resume => exact ⟨fun waits => absurd waits executing.1, fun waits => absurd waits executing.2⟩
  | grant => exact ⟨fun waits => absurd waits executing.1, fun waits => absurd waits executing.2⟩
  | release => exact ⟨fun waits => absurd waits ready.1, fun waits => absurd waits ready.2⟩
  | preempt which held _ =>
    rcases held with ⟨-, rfl, up⟩ | ⟨-, rfl, up⟩
    · exact ⟨fun _ => up, fun waits => absurd waits (period _ _)⟩
    · exact ⟨fun waits => absurd waits (sync _ _), fun _ => up⟩
  | hold which idle _ =>
    rcases idle with ⟨-, rfl, up⟩ | ⟨-, rfl, up⟩
    · exact ⟨fun _ => up, fun waits => absurd waits (period _ _)⟩
    · exact ⟨fun waits => absurd waits (sync _ _), fun _ => up⟩

/-- The state machine of a task, with the levels that its waits rest on. -/
structure Levels (t : TaskInfo) (i : ι) (machine : Status (Event ι) (RtosPoint ι)) : Prop where
  place : machine = .ready .turn ∧ t.stateSignal.next = t.stateSignal.current ∨
    machine = .blocked ((waits t.stateSignal.next).map (.task i)) none .turn
  woken : machine = .ready .turn → ∃ e ∈ waits t.stateSignal.current, shows t e = true
  period : machine ≠ .ready .turn → waitsForPeriod t.stateSignal.next →
    t.waitingPeriodSignal.current = true
  sync : machine ≠ .ready .turn → waitsForSync t.stateSignal.next →
    t.waitingCommSyncSignal.current = true

section Steps

variable {i : ι} {t : TaskInfo} {machine : Status (Event ι) (RtosPoint ι)}

theorem shows_congr {t t' : TaskInfo} (active : t'.activeSignal.current = t.activeSignal.current)
    (consumption : t'.consumptionSignal.current = t.consumptionSignal.current)
    (period : t'.waitingPeriodSignal.current = t.waitingPeriodSignal.current)
    (sync : t'.waitingCommSyncSignal.current = t.waitingCommSyncSignal.current) (e : TaskEvent) :
    shows t' e = shows t e := by
  cases e <;> simp only [shows, Signal.read_eq, active, consumption, period, sync]

theorem Levels.keeps (h : Levels t i machine) {t' : TaskInfo} (keeps : Keeps t t') :
    Levels t' i machine where
  place := by
    rw [keeps.frame.state]
    exact h.place
  woken turns := by
    obtain ⟨e, waited, shown⟩ := h.woken turns
    rw [keeps.frame.state]
    refine ⟨e, waited, ?_⟩
    rw [shows_congr (by rw [keeps.frame.active]) keeps.consumption keeps.period keeps.sync]
    exact shown
  period := by
    rw [keeps.frame.state, keeps.period]
    exact h.period
  sync := by
    rw [keeps.frame.state, keeps.sync]
    exact h.sync

theorem Levels.setActive (h : Levels t i machine) (active : Bool) :
    Levels { t with activeSignal := t.activeSignal.write active } i machine where
  place := h.place
  woken turns := by
    obtain ⟨e, waited, shown⟩ := h.woken turns
    refine ⟨e, waited, ?_⟩
    rw [shows_congr rfl rfl rfl rfl]
    exact shown
  period := h.period
  sync := h.sync

theorem Levels.turn {turn : Transition ι} (turns : updateStateProc t = some turn) :
    Levels { t with stateSignal := t.stateSignal.write turn.state } i
      (.blocked (turn.waits.map (.task i)) none .turn) where
  place := by
    right
    rw [(updateStateProc_turn turns).waits_eq]
    rfl
  woken := nofun
  period _ := (waiting_of_turn (updateStateProc_turn turns)).1
  sync _ := (waiting_of_turn (updateStateProc_turn turns)).2

theorem Levels.delta (h : Levels t i machine) (rests : machine ≠ .ready .turn)
    {fired : Event ι → Bool} {now : ℕ}
    (edges : ∀ e, notifiable (Event.task i e) = false → fired (.task i e) = edge t e) :
    Levels (update t) i (machine.wake fired now) := by
  have place := h.place.resolve_left fun ready => rests ready.1
  rcases wake_waits place fired now with ⟨⟨e, waited, fires⟩, woken⟩ | ⟨silent, asleep⟩
  · rw [woken]
    refine ⟨Or.inl ⟨rfl, rfl⟩, fun _ => ⟨e, waited, ?_⟩, fun other => absurd rfl other,
      fun other => absurd rfl other⟩
    rw [edges e (waits_edges waited i)] at fires
    exact shows_of_edge fires
  · have still : ∀ e ∈ waits t.stateSignal.next, edge t e = false := fun e waited => by
      rw [← edges e (waits_edges waited i)]
      exact silent e waited
    rw [asleep]
    refine ⟨Or.inr place, fun turns => absurd turns rests, fun _ waiting => ?_, fun _ waiting => ?_⟩
    · have up := h.period rests waiting
      have falls : edge t .waitingPeriodNegedge = false := still _ (periodEnd_waited waiting)
      exact Signal.high_of_no_negedge falls up
    · have up := h.sync rests waiting
      have falls : edge t .waitingCommSyncNegedge = false := still _ (syncEnd_waited waiting)
      exact Signal.high_of_no_negedge falls up

theorem Levels.advance (h : Levels t i machine) (rests : machine ≠ .ready .turn) (time : ℕ) :
    Levels t i (machine.wake (fun _ => false) time) := by
  have place := h.place.resolve_left fun ready => rests ready.1
  rcases wake_waits place (fun _ => false) time with ⟨⟨e, -, fires⟩, -⟩ | ⟨-, asleep⟩
  · cases fires
  · rw [asleep]
    exact h

end Steps

section Run

/-- What holds of a task in every configuration of any run. -/
def Levelled : TaskProperty ι Unit := fun i _ _ t machine thread =>
  Levels t i machine ∧ ∃ p, Stands i t thread p

theorem levelled_kept :
    Preserves (fun _ => True) (fun _ _ _ h => h) (Levelled : TaskProperty ι Unit) where
  granting active h := by
    obtain ⟨levels, p, stands⟩ := h
    exact ⟨levels.setActive active, p, stands.setActive active⟩
  running h resumes progress := by
    obtain ⟨levels, p, stands⟩ := h
    obtain rfl := point_of_resumes stands.point resumes
    have stops := thread_stops stands.posted progress
    exact ⟨levels.keeps stops.keeps, _, stops.stands⟩
  turning h resumes _ turns := by
    obtain ⟨-, p, stands⟩ := h
    exact ⟨Levels.turn turns, p, stands.setState _⟩
  showing h rests waits edges := by
    obtain ⟨levels, p, stands⟩ := h
    exact ⟨levels.delta (rests _) edges, p, stands.delta waits edges⟩
  advancing h rests waits _ _ _ := by
    obtain ⟨levels, p, stands⟩ := h
    exact ⟨levels.advance (rests _) _, p, stands.advance waits _⟩

theorem levels_start {tasks : TaskSet ι} (settings : Settings tasks) (i : ι) :
    Levels ((simulationStart settings).store.info i) i
      (.blocked [.task i .activePosedge] none .turn) where
  place := by
    right
    rw [(start_signals settings i).2.2.2.2]
    rfl
  woken := nofun
  period _ waiting := by
    rw [(start_signals settings i).2.2.2.2] at waiting
    rcases waiting with state | state <;> cases state
  sync _ waiting := by
    rw [(start_signals settings i).2.2.2.2] at waiting
    rcases waiting with state | state <;> cases state

variable {tasks : TaskSet ι} {settings : Settings tasks} {ls : List (RtosLabel ι)} {c : RtosConfig ι}

theorem Levels.turns {i : ι} {t : TaskInfo} {machine : Status (Event ι) (RtosPoint ι)}
    (h : Levels t i machine) (turns : machine = .ready .turn) :
    (updateStateProc t : Option (Transition ι)).isSome = true := by
  obtain ⟨e, waited, shown⟩ := h.woken turns
  exact updateStateProc_of_shows waited shown

variable [DecidableEq ι]

/-- In every run the waits of a task agree with its signals, and no turn is an error. -/
theorem levels_of_run
    (reach : run (rtosSystem tasks).step (simulationStart settings) ls = some c) (i : ι) :
    Levels (c.store.info i) i (c.status (.updateStateProc i)) := by
  have every : Every Levelled c fun _ => () :=
    levelled_kept.every_plain (fun i => ⟨levels_start settings i, _, stands_start settings i⟩)
      along_turns_always reach
  exact (every.tasks i).1

/-- Along a run in which every state machine that comes to the end of a wait is still granted
the processor, no turn of a state machine is an error, and where no delta is pending the state
of every task agrees with its signals. -/
theorem signals_agree_of_granted
    (along : Along (rtosSystem tasks).step Granted (simulationStart settings) ls)
    (reach : run (rtosSystem tasks).step (simulationStart settings) ls = some c) (i : ι) :
    (c.status (.updateStateProc i) = .ready .turn →
        (updateStateProc (c.store.info i) : Option (Transition ι)).isSome = true) ∧
      ((rtosSystem tasks).stable c = true → Agrees (c.store.info i)) := by
  have levels := levels_of_run reach i
  refine ⟨levels.turns, fun stable => ?_⟩
  obtain ⟨quiet, -, clean, -⟩ := System.stable_iff.mp stable
  have settled : (c.store.info i).stateSignal.next = (c.store.info i).stateSignal.current :=
    (settled_of_clean clean).taskState i
  have rests := quiet (.updateStateProc i) .turn
  have machine := (owned_of_granted along reach).machines i
  exact
    { active := fun held => machine.granted rests (by rwa [settled])
      period := fun waiting => levels.period rests (by rwa [settled])
      sync := fun waiting => levels.sync rests (by rwa [settled]) }

end Run

theorem computesThenWaits_agrees :
    ∃ c, run (rtosSystem soleTask).step (simulationStart soleSettings) computesThenWaits = some c ∧
      (c.store.info ()).stateSignal.read = .inactiveWaitPeriod ∧ Agrees (c.store.info ()) := by
  have along : Along (rtosSystem soleTask).step Granted (simulationStart soleSettings)
      computesThenWaits := by decide +kernel
  have reached : (run (rtosSystem soleTask).step (simulationStart soleSettings)
      computesThenWaits).map (fun c => ((rtosSystem soleTask).stable c,
        (c.store.info ()).stateSignal.read)) = some (true, .inactiveWaitPeriod) := by decide +kernel
  obtain ⟨c, reach, value⟩ := Option.map_eq_some_iff.mp reached
  obtain ⟨stable, state⟩ := Prod.mk.inj value
  exact ⟨c, reach, state, (signals_agree_of_granted along reach ()).2 stable⟩

/-- The processor is taken away in the delta in which the wait for the period ends: the task is
left executing without it. -/
theorem tickWithRelease_disagrees :
    ∃ c, run (rtosSystem soleTask).step (simulationStart soleSettings) tickWithRelease = some c ∧
      (rtosSystem soleTask).stable c = true ∧ ¬ Agrees (c.store.info ()) := by
  have reached : (run (rtosSystem soleTask).step (simulationStart soleSettings)
      tickWithRelease).map (fun c => ((rtosSystem soleTask).stable c,
        (c.store.info ()).stateSignal.read, (c.store.info ()).activeSignal.read)) =
      some (true, .executing, false) := by decide +kernel
  obtain ⟨c, reach, value⟩ := Option.map_eq_some_iff.mp reached
  obtain ⟨stable, value⟩ := Prod.mk.inj value
  obtain ⟨executing, lost⟩ := Prod.mk.inj value
  refine ⟨c, reach, stable, fun agrees => ?_⟩
  rw [agrees.active (by rw [executing]; rfl)] at lost
  cases lost

end Kista.Scheduling.SignalLevels
