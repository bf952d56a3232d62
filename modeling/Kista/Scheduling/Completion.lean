/- Kista/Scheduling/Completion
   source: src/src/task_info_t.cpp, user_task_constructs.cpp, synch_comm/memoryless_event.cpp,
   registered_event.cpp, semaphore.cpp, fifo_buffer.hpp
   digest: The state machine of a task completes it only when its functionality has returned. -/

import Kista.Scheduling.Exclusivity
import Kista.Scheduling.ThreadWaits

set_option autoImplicit false
set_option relaxedAutoImplicit false

/-!
Completion is read off a flag that every construct lowers on entry and raises on exit. It stands
raised at two waits: at the end, and at the guard where a task that comes back from a wait finds
the processor taken.
-/

namespace Kista.Scheduling.Completion

open Kernel.Delta Kernel.Run
open Dispatch (TaskState)
open SystemTask Constructs Rtos StateMachine TaskCoherence TaskRule ThreadWaits Exclusivity

variable {ι : Type}

/-- The functionality of a task has returned. -/
def Returned (c : RtosConfig ι) (i : ι) : Prop := (c.status (.thread i)).point = .inside .ended

instance [DecidableEq ι] (c : RtosConfig ι) (i : ι) : Decidable (Returned c i) :=
  inferInstanceAs (Decidable (_ = _))

/-- A signal of the task still shows what its thread was last busy with. -/
def Busy (t : TaskInfo) : Prop :=
  t.waitingPeriodSignal.current = true ∨ t.waitingCommSyncSignal.current = true ∨
    t.consumptionSignal.current = true

/-- A task with its state machine and its thread, which stands at a point. -/
structure Live (i : ι) (t : TaskInfo) (machine thread : Status (Event ι) (RtosPoint ι))
    (p : TaskPoint) : Prop where
  fsm : Machine i t machine
  stands : Stands i t thread p
  /-- A thread that goes on without the processor is not done with its wait. -/
  busy : ∀ r, thread.resumable = some r → t.activeSignal.current = false → Busy t
  guarded : p = .guardEnd → machine = .ready .turn → t.stateSignal.current = .executing → Busy t
  finished : t.stateSignal.next = .finished → p = .ended
  shown : t.stateSignal.current = .finished → p = .ended
  sink : machine = .ready .turn → t.stateSignal.current ≠ .finished

theorem busy_congr {t t' : TaskInfo} (keeps : Keeps t t') (h : Busy t) : Busy t' := by
  unfold Busy
  rw [keeps.period, keeps.sync, keeps.consumption]
  exact h

/-- At a wait that ends without a grant, some signal of the thread is raised. -/
theorem busy_of_posted {t : TaskInfo} {p : TaskPoint} (posted : Posted t p)
    (ungranted : awaitsGrant p = false) (live : p ≠ .ended) : Busy (update t) := by
  show t.waitingPeriodSignal.next = true ∨ t.waitingCommSyncSignal.next = true ∨
    t.consumptionSignal.next = true
  rw [posted.period, posted.sync, posted.consumption]
  cases p with
  | start => cases ungranted
  | consumeGranted => cases ungranted
  | consumeEnd startTime => exact Or.inr (Or.inr rfl)
  | consumeDone => exact Or.inr (Or.inr rfl)
  | yieldEnd => cases ungranted
  | periodEnd => exact Or.inl rfl
  | syncEnd => exact Or.inr (Or.inl rfl)
  | guardEnd => cases ungranted
  | ended => exact absurd rfl live

theorem busy_of_clean {t : TaskInfo} (clean : dirty t = false) (h : Busy (update t)) : Busy t := by
  simp only [dirty, Bool.or_eq_false_iff] at clean
  obtain ⟨⟨⟨⟨-, consumption⟩, period⟩, sync⟩, -⟩ := clean
  unfold Busy at h ⊢
  rw [← Signal.next_eq_of_clean period, ← Signal.next_eq_of_clean sync,
    ← Signal.next_eq_of_clean consumption]
  exact h

variable {i : ι} {t : TaskInfo} {machine thread : Status (Event ι) (RtosPoint ι)} {p : TaskPoint}

/-- A thread that can go on and has no need of the processor for it stands at a wait of its own. -/
theorem ungranted_of_lost (stands : Stands i t thread p) {r : RtosPoint ι}
    (resumes : thread.resumable = some r) (lost : t.activeSignal.current = false) :
    awaitsGrant p = false ∧ p ≠ .ended := by
  constructor
  · refine Bool.eq_false_iff.mpr fun awaits => ?_
    rcases stands.grant awaits with asleep | ⟨-, granted⟩
    · rw [asleep] at resumes
      cases resumes
    · exact absurd (granted.symm.trans lost) (by decide)
  · intro ended
    rw [stands.ended ended] at resumes
    cases resumes

theorem Live.setActive (h : Live i t machine thread p) (active : Bool) :
    Live i { t with activeSignal := t.activeSignal.write active } machine thread p where
  fsm := h.fsm.congr rfl rfl
  stands := h.stands.setActive active
  busy := h.busy
  guarded := h.guarded
  finished := h.finished
  shown := h.shown
  sink := h.sink

/-- The thread runs up to its next wait. -/
theorem Live.stop (h : Live i t machine thread p) {t' : TaskInfo}
    {status : Status (Event ι) TaskPoint} (stops : Stops i t t' status) {r : RtosPoint ι}
    (resumes : thread.resumable = some r) : Live i t' machine (status.map .inside) status.point := by
  have live : p ≠ .ended := fun ended => by
    rw [h.stands.ended ended] at resumes
    cases resumes
  have active : t'.activeSignal.current = t.activeSignal.current := by
    rw [stops.keeps.frame.active]
  have state := stops.keeps.frame.state
  exact
    { fsm := h.fsm.congr state active
      stands := stops.stands
      busy := fun _ _ lost => by
        rw [active] at lost
        exact busy_congr stops.keeps (h.busy r resumes lost)
      guarded := fun place _ _ => busy_congr stops.keeps (h.busy r resumes (stops.refused place))
      finished := fun done => by
        rw [state] at done
        exact absurd (h.finished done) live
      shown := fun done => by
        rw [state] at done
        exact absurd (h.shown done) live
      sink := by
        rw [state]
        exact h.sink }

/-- The completion of a task is notified in the turn that finishes it. -/
theorem finished_of_completion {t : TaskInfo} {state : TaskState} {turn : Transition ι}
    (h : MachineTurn t state turn) (notifies : .completionEvent ∈ turn.notified) :
    turn.state = .finished := by
  cases h with
  | finish period sync flag consumption => rfl
  | stopForPeriod period => simp at notifies
  | stopForSync period sync => simp at notifies
  | yield period sync still => cases notifies
  | resume held => cases notifies
  | preempt period held active => simp at notifies
  | grant idle active => cases notifies
  | release idle active => simp [toReady] at notifies
  | hold period idle active => simp at notifies

/-- A turn that finishes the task finds its thread at the end. -/
theorem Live.completes (h : Live i t (.ready .turn) thread p) {turn : Transition ι}
    (turns : updateStateProc t = some turn) (finishes : turn.state = .finished) : p = .ended := by
  have machineTurn := updateStateProc_turn turns
  generalize state : t.stateSignal.read = current at machineTurn
  cases machineTurn with
  | stopForPeriod period => cases active : t.activeSignal.read <;> rw [active] at finishes <;>
      cases finishes
  | stopForSync period sync => cases active : t.activeSignal.read <;> rw [active] at finishes <;>
      cases finishes
  | finish period sync flag consumption =>
    have raised := h.stands.posted.flag flag
    cases place : p with
    | guardEnd =>
      rcases h.guarded place rfl state with up | up | up
      · exact absurd (up.symm.trans period) (by decide)
      · exact absurd (up.symm.trans sync) (by decide)
      · exact absurd (up.symm.trans consumption) (by decide)
    | ended => rfl
    | _ =>
      rw [place] at raised
      cases raised
  | yield period sync still => cases finishes
  | resume held => cases finishes
  | preempt period held active => cases period <;> cases finishes
  | grant idle active => cases finishes
  | release idle active => cases finishes
  | hold period idle active => cases period <;> cases finishes

/-- The state machine turns. -/
theorem Live.turn (h : Live i t (.ready .turn) thread p) {turn : Transition ι}
    (turns : updateStateProc t = some turn)
    (granted : waitEnded t = true → t.activeSignal.read = true) :
    Live i { t with stateSignal := t.stateSignal.write turn.state }
      (.blocked (turn.waits.map (.task i)) none .turn) thread p where
  fsm := Machine.turn turns granted
  stands := h.stands.setState turn.state
  busy := h.busy
  guarded := nofun
  finished := h.completes turns
  shown := h.shown
  sink := nofun

/-- The delta that shows the signals. -/
theorem Live.delta (h : Live i t machine thread p) (rests : machine ≠ .ready .turn)
    (waits : ∀ r, thread ≠ .ready r) {fired : Event ι → Bool} {now : ℕ}
    (edges : ∀ e, notifiable (Event.task i e) = false → fired (.task i e) = edge t e) :
    Live i (update t) (machine.wake fired now) (thread.wake fired now) p where
  fsm := h.fsm.delta rests fun shown => by
    rw [edges _ rfl]
    exact shown
  stands := h.stands.delta waits edges
  busy _ resumes lost := by
    obtain ⟨ungranted, live⟩ := ungranted_of_lost (h.stands.delta waits edges) resumes lost
    exact busy_of_posted h.stands.posted ungranted live
  guarded place _ executing := by
    -- an executing task has the processor, and one that stands at the guard has not
    have granted : t.activeSignal.current = true :=
      h.fsm.granted rests (by rw [show t.stateSignal.next = .executing from executing]; rfl)
    have refused := h.stands.refused place (waits _)
    exact absurd (granted.symm.trans refused) (by decide)
  finished := h.finished
  shown := h.finished
  sink woken done := by
    rcases h.fsm.wake rests fired now with ⟨⟨e, waited, -⟩, -⟩ | ⟨-, asleep⟩
    · rw [show t.stateSignal.next = .finished from done] at waited
      cases waited
    · exact rests (asleep.symm.trans woken)

/-- Time advances. -/
theorem Live.advance (h : Live i t machine thread p) (rests : machine ≠ .ready .turn)
    (waits : ∀ r, thread ≠ .ready r) (clean : dirty t = false) (time : ℕ) :
    Live i t (machine.wake (fun _ => false) time) (thread.wake (fun _ => false) time) p := by
  rw [h.fsm.asleep rests]
  exact
    { fsm := h.fsm
      stands := h.stands.advance waits time
      busy := fun _ resumes lost => by
        obtain ⟨ungranted, live⟩ := ungranted_of_lost (h.stands.advance waits time) resumes lost
        exact busy_of_clean clean (busy_of_posted h.stands.posted ungranted live)
      guarded := h.guarded
      finished := h.finished
      shown := h.shown
      sink := h.sink }

section Run

def LiveTask : TaskProperty ι Unit := fun i _ _ t machine thread => ∃ p, Live i t machine thread p

theorem live_kept :
    Preserves (fun t => waitEnded t = true → t.activeSignal.read = true) (fun _ _ _ h => h)
      (LiveTask : TaskProperty ι Unit) where
  granting active h := h.imp fun _ live => live.setActive active
  running h resumes progress := by
    obtain ⟨p, live⟩ := h
    obtain rfl := point_of_resumes live.stands.point resumes
    exact ⟨_, live.stop (thread_stops live.stands.posted progress) resumes⟩
  turning h resumes granted turns := by
    obtain ⟨p, live⟩ := h
    rcases live.fsm.place with ⟨rfl, -⟩ | blocked
    · exact ⟨p, live.turn turns granted⟩
    · rw [blocked] at resumes
      cases resumes
  showing h rests waits edges := h.imp fun _ live => live.delta (rests _) waits edges
  advancing h rests waits clean _ _ := h.imp fun _ live => live.advance (rests _) waits clean _

theorem live_start {tasks : TaskSet ι} (settings : Settings tasks) (i : ι) :
    Live i ((simulationStart settings).store.info i) (.blocked [.task i .activePosedge] none .turn)
      (.blocked [.task i .activePosedge] none (.inside .start)) .start := by
  obtain ⟨-, -, -, -, state⟩ := start_signals settings i
  have ready : ((simulationStart settings).store.info i).stateSignal.next = .ready ∧
      ((simulationStart settings).store.info i).stateSignal.current = .ready := by
    rw [state]
    exact ⟨rfl, rfl⟩
  exact
    { fsm := (owned_start settings).machines i
      stands := stands_start settings i
      busy := nofun
      guarded := nofun
      finished := fun done => by cases ready.1.symm.trans done
      shown := fun done => by cases ready.2.symm.trans done
      sink := nofun }

variable [DecidableEq ι] {tasks : TaskSet ι} {settings : Settings tasks} {ls : List (RtosLabel ι)}
  {c : RtosConfig ι}

/-- A task is finished only when its functionality has returned, its completion is notified only
then, and its state machine never goes on behind it. -/
structure CompletesReturned (c : RtosConfig ι) (i : ι) : Prop where
  finished : (c.store.info i).stateSignal.read = .finished → Returned c i
  turn : ∀ turn : Transition ι, c.status (.updateStateProc i) = .ready .turn →
    updateStateProc (c.store.info i) = some turn →
    turn.state = .finished ∨ .completionEvent ∈ turn.notified → Returned c i
  sink : c.status (.updateStateProc i) = .ready .turn →
    (c.store.info i).stateSignal.read ≠ .finished

/-- Along a run in which every state machine that comes to the end of a wait is still granted
the processor, no task completes before its functionality has returned. -/
theorem completes_returned_of_granted
    (along : Along (rtosSystem tasks).step Granted (simulationStart settings) ls)
    (reach : run (rtosSystem tasks).step (simulationStart settings) ls = some c) (i : ι) :
    CompletesReturned c i := by
  have every : Every LiveTask c fun _ => () :=
    live_kept.every_plain (fun i => ⟨_, live_start settings i⟩)
      (along.mono fun _ _ granted => turns_of_granted granted) reach
  obtain ⟨p, live⟩ := every.tasks i
  have returned : p = .ended → Returned c i := fun ended => by
    rw [Returned, live.stands.point, ended]
  refine ⟨fun done => returned (live.shown done), fun turn turns next completes => ?_, live.sink⟩
  rw [turns] at live
  apply returned
  rcases completes with finishes | notifies
  · exact live.completes next finishes
  · exact live.completes next (finished_of_completion (updateStateProc_turn next) notifies)

end Run

/-- The task computes for 3 and returns. -/
def computesThenReturns : List (RtosLabel Unit) :=
  firstScheduling ++
    [calls () [.consume 3], .delta, .advance 4, calls () [], .delta, turns (.updateStateProc ()),
      .delta]

theorem computesThenReturns_completes :
    ∃ c, run (rtosSystem soleTask).step (simulationStart soleSettings) computesThenReturns =
        some c ∧
      (c.store.info ()).stateSignal.read = .finished ∧ Returned c () := by
  have along : Along (rtosSystem soleTask).step Granted (simulationStart soleSettings)
      computesThenReturns := by decide +kernel
  have reached : (run (rtosSystem soleTask).step (simulationStart soleSettings)
      computesThenReturns).map (fun c => (c.store.info ()).stateSignal.read) =
      some .finished := by decide +kernel
  obtain ⟨c, reach, state⟩ := Option.map_eq_some_iff.mp reached
  exact ⟨c, reach, state, (completes_returned_of_granted along reach ()).finished state⟩

/-- The task waits for its period with the processor, which the tick takes from it together with
its release. It ends an empty consumption and finds a semaphore free. -/
def freeSemaphore : List (RtosLabel Unit) :=
  firstScheduling ++
    [calls () [.waitPeriod], .delta, turns (.updateStateProc ()), .delta, turns .schedulerProc,
      .delta, turns (.updateStateProc ()), .delta, .advance 2, turns .schedulerProc, .delta,
      turns (.updateStateProc ()), .delta, .advance 10, turns .genTickTimerEvent,
      turns (.genReleaseEvent ()), .delta, turns .schedulerProc, calls () [.consume 0], .delta,
      turns (.updateStateProc ()), calls () [.sync false], .delta, turns (.updateStateProc ()),
      .delta]

/-- The task is finished while its thread waits for the processor, to go on behind the
semaphore. -/
theorem freeSemaphore_completes_early :
    ∃ c, run (rtosSystem soleTask).step (simulationStart soleSettings) freeSemaphore = some c ∧
      c.status (.thread ()) = .blocked [.task () .activePosedge] none (.inside .guardEnd) ∧
      ¬ CompletesReturned c () := by
  have reached : (run (rtosSystem soleTask).step (simulationStart soleSettings)
      freeSemaphore).map (fun c => ((c.store.info ()).stateSignal.read,
        c.status (.thread ()))) =
      some (.finished, .blocked [.task () .activePosedge] none (.inside .guardEnd)) := by
    decide +kernel
  obtain ⟨c, reach, value⟩ := Option.map_eq_some_iff.mp reached
  obtain ⟨finished, waits⟩ := Prod.mk.inj value
  refine ⟨c, reach, waits, fun completes => ?_⟩
  have returned := completes.finished finished
  rw [Returned, waits] at returned
  cases returned

end Kista.Scheduling.Completion
