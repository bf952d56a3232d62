/- Kista/Scheduling/TaskRule
   source: src/src/scheduler.cpp, task_info_t.cpp, user_task_constructs.cpp
   digest: The rule by which a property of a single task, with its state machine and its thread,
   holds in every run of its scheduler, and what a thread leaves behind at its waits. -/

import Kista.Scheduling.TaskCoherence

set_option autoImplicit false
set_option relaxedAutoImplicit false

/-!
The scheduler writes the active signal of a task, its state machine the state signal and its
thread all the rest. The history of a task is written when its thread runs.
-/

namespace Kista.Scheduling.TaskRule

open Kernel.Delta Kernel.Run
open Dispatch (TaskState)
open SystemTask Constructs Rtos StateMachine TaskCoherence

variable {ι η : Type}

/-- The state machines turn only where their tasks allow it. -/
def Turns (may : TaskInfo → Prop) (c : RtosConfig ι) : RtosLabel ι → Prop
  | .eval (.updateStateProc i) _ => may (c.store.info i)
  | _ => True

theorem turns_of_granted {c : RtosConfig ι} {l : RtosLabel ι} (granted : Granted c l) :
    Turns (fun t => waitEnded t = true → t.activeSignal.read = true) c l := by
  cases l with
  | eval p choice =>
    cases p with
    | updateStateProc i => exact granted
    | schedulerProc => trivial
    | genTickTimerEvent => trivial
    | genReleaseEvent i => trivial
    | thread i => trivial
  | delta => trivial
  | advance t => trivial

theorem turns_always {c : RtosConfig ι} (l : RtosLabel ι) : Turns (fun _ => True) c l := by
  unfold Turns
  split <;> trivial

/-- A thread goes on behind the wait at which it stands. -/
theorem point_of_resumes {thread : Status (Event ι) (RtosPoint ι)} {p p' : TaskPoint}
    (point : thread.point = .inside p) (resumes : thread.resumable = some (.inside p')) : p = p' :=
  RtosPoint.inside.inj (point.symm.trans (Status.resumable_point resumes))

/-- The events notified in an evaluation come in front of those that are pending. -/
def newly (c c' : RtosConfig ι) : List (Event ι) :=
  c'.pending.take (c'.pending.length - c.pending.length)

def noteTasks [DecidableEq ι] (note : ι → ℕ → List (Event ι) → η → η) (c : RtosConfig ι)
    (l : RtosLabel ι) (c' : RtosConfig ι) (h : ι → η) : ι → η :=
  match l with
  | .eval (.thread i) _ => Function.update h i (note i c.now (newly c c') (h i))
  | _ => h

/-- A property of a task at an instant: its history, its record, its state machine and its
thread. -/
abbrev TaskProperty (ι η : Type) :=
  ι → ℕ → η → TaskInfo → Status (Event ι) (RtosPoint ι) → Status (Event ι) (RtosPoint ι) → Prop

/-- What every kind of step has to keep. -/
structure Preserves (may : TaskInfo → Prop) (note : ι → ℕ → List (Event ι) → η → η)
    (inv : TaskProperty ι η) : Prop where
  granting : ∀ {i now h t machine thread} (active : Bool), inv i now h t machine thread →
    inv i now h { t with activeSignal := t.activeSignal.write active } machine thread
  running : ∀ {i now h t machine thread p mode calls t' notified status},
    inv i now h t machine thread → thread.resumable = some (.inside p) →
    (resume i now t p).andThen (functionality mode i now calls) = .waits t' notified status →
    inv i now (note i now notified h) t' machine (status.map .inside)
  turning : ∀ {i now h t machine thread} {turn : Transition ι}, inv i now h t machine thread →
    machine.resumable = some .turn → may t → updateStateProc t = some turn →
    inv i now h { t with stateSignal := t.stateSignal.write turn.state }
      (.blocked (turn.waits.map (.task i)) none .turn) thread
  showing : ∀ {i now h t machine thread} {fired : Event ι → Bool}, inv i now h t machine thread →
    (∀ r, machine ≠ .ready r) → (∀ r, thread ≠ .ready r) →
    (∀ e, notifiable (Event.task i e) = false → fired (.task i e) = edge t e) →
    inv i now h (update t) (machine.wake fired now) (thread.wake fired now)
  advancing : ∀ {i now h t machine thread time}, inv i now h t machine thread →
    (∀ r, machine ≠ .ready r) → (∀ r, thread ≠ .ready r) → dirty t = false → now < time →
    thread.latest time = true →
    inv i time h t (machine.wake (fun _ => false) time) (thread.wake (fun _ => false) time)

section Rule

variable [DecidableEq ι]

/-- A turn of the scheduler notifies nothing and writes at most the active signal of a task. -/
theorem schedulerProc_writes {choice : RtosChoice} {now : ℕ} {store : RtosStore ι}
    {r : RtosPoint ι} {seg : RtosSegment ι} (ran : schedulerProc choice now store r = some seg) :
    seg.notified = [] ∧ (seg.store.info = store.info ∨
      ∃ i active, seg.store.info = (setActive store i active).info) := by
  cases r with
  | schedStart =>
    simp only [schedulerProc] at ran
    split at ran
    · obtain rfl : _ = seg := Option.some.inj ran
      exact ⟨rfl, Or.inl rfl⟩
    · have begins := beginScheduling_begins ran
      exact ⟨begins.notified, Or.inl begins.info⟩
  | firstWait =>
    obtain rfl : _ = seg := Option.some.inj ran
    exact ⟨rfl, Or.inl rfl⟩
  | secondWait =>
    obtain ⟨i, ends⟩ := endScheduling_ends ran
    exact ⟨ends.notified, Or.inr ⟨i, true, ends.info⟩⟩
  | scheduled =>
    obtain ⟨i, ends⟩ := endScheduling_ends ran
    exact ⟨ends.notified, Or.inr ⟨i, true, ends.info⟩⟩
  | running i =>
    have begins := beginScheduling_begins ran
    exact ⟨begins.notified, Or.inr ⟨i, false, begins.info⟩⟩
  | _ => cases ran

variable {may : TaskInfo → Prop} {note : ι → ℕ → List (Event ι) → η → η} {inv : TaskProperty ι η}

/-- Every task has the property, and only what processes notify is pending. -/
structure Every (inv : TaskProperty ι η) (c : RtosConfig ι) (h : ι → η) : Prop where
  tasks : ∀ i, inv i c.now (h i) (c.store.info i) (c.status (.updateStateProc i))
    (c.status (.thread i))
  pending : ∀ e ∈ c.pending, notifiable e = true

/-- A turn of a process that no task but one can tell. -/
theorem Every.untold {c : RtosConfig ι} {h : ι → η} (every : Every inv c h) {p : RtosProc ι}
    {seg : RtosSegment ι} (machine : ∀ i, p ≠ .updateStateProc i) (thread : ∀ i, p ≠ .thread i)
    (tasks : ∀ i, inv i c.now (h i) (seg.store.info i) (c.status (.updateStateProc i))
      (c.status (.thread i))) (notified : ∀ e ∈ seg.notified, notifiable e = true) :
    Every inv ⟨seg.store, Function.update c.status p seg.status, seg.notified ++ c.pending, c.now⟩
      h where
  tasks i := by
    show inv i c.now (h i) (seg.store.info i)
      (Function.update c.status p seg.status (.updateStateProc i))
      (Function.update c.status p seg.status (.thread i))
    rw [Function.update_of_ne (machine i).symm, Function.update_of_ne (thread i).symm]
    exact tasks i
  pending := List.forall_mem_append.mpr ⟨notified, every.pending⟩

theorem Preserves.eval (rule : Preserves may note inv) {c : RtosConfig ι} {h : ι → η}
    (every : Every inv c h) {p : RtosProc ι} {choice : RtosChoice} {r : RtosPoint ι}
    {seg : RtosSegment ι} (allowed : Turns may c (.eval p choice))
    (resumes : (c.status p).resumable = some r)
    (ran : exec p r choice c.now c.store = some seg) {c' : RtosConfig ι}
    (next : c' = ⟨seg.store, Function.update c.status p seg.status, seg.notified ++ c.pending,
      c.now⟩) : Every inv c' (noteTasks note c (.eval p choice) c' h) := by
  cases p with
  | schedulerProc =>
    obtain ⟨notified, info⟩ := schedulerProc_writes ran
    subst next
    refine every.untold nofun nofun (fun i => ?_) ?_
    · rcases info with same | ⟨j, active, same⟩
      · rw [same]
        exact every.tasks i
      · rw [same]
        by_cases own : i = j
        · subst own
          rw [setActive_self]
          exact rule.granting active (every.tasks i)
        · rw [setActive_of_ne active own]
          exact every.tasks i
    · rw [notified]
      exact nofun
  | genTickTimerEvent =>
    subst next
    cases r with
    | tick =>
      obtain rfl : _ = seg := Option.some.inj ran
      refine every.untold nofun nofun (fun i => ?_) fun e he => ?_
      · rw [genTickTimerEvent_store]
        exact every.tasks i
      · rw [genTickTimerEvent_notified e he]
        rfl
    | _ => cases ran
  | genReleaseEvent i =>
    have other : ∀ notified, (∀ e ∈ notified, notifiable e = true) →
        seg = genReleaseEvent i c.now c.store notified → Every inv c' h := by
      rintro notified noted rfl
      subst next
      refine every.untold nofun nofun (fun j => ?_) fun e he => ?_
      · rw [genReleaseEvent_store]
        exact every.tasks j
      · exact noted e (genReleaseEvent_notified i notified e he)
    cases r with
    | genStart => exact other [] nofun (Option.some.inj ran).symm
    | generate => exact other [.task i .taskRelease] (by simp [notifiable]) (Option.some.inj ran).symm
    | _ => cases ran
  | updateStateProc i =>
    subst next
    cases r with
    | turn =>
      obtain ⟨turn, turns, rfl⟩ := Option.map_eq_some_iff.mp ran
      refine ⟨fun j => ?_, ?_⟩
      · by_cases own : j = i
        · subst own
          simpa [noteTasks] using rule.turning (every.tasks j) resumes allowed turns
        · simpa [noteTasks, setState_of_ne _ own, own] using every.tasks j
      · exact List.forall_mem_append.mpr
          ⟨(updateStateProc_turn turns).notified, every.pending⟩
    | _ => cases ran
  | thread i =>
    cases r with
    | inside p =>
      have told : newly c c' = seg.notified := by
        rw [next]
        simp [newly]
      obtain ⟨-, -, -, noted⟩ := thread_frames ran
      have ran : thread i p choice c.now c.store = some seg := ran
      unfold thread at ran
      split at ran
      next t notified status progress =>
        obtain rfl : _ = seg := Option.some.inj ran
        have own := rule.running (every.tasks i) resumes progress
        refine ⟨fun j => ?_, ?_⟩
        · rw [noteTasks, told, next]
          by_cases same : j = i
          · subst same
            simpa using own
          · simpa [same] using every.tasks j
        · rw [next]
          exact List.forall_mem_append.mpr
            ⟨fun e he => Noted.notifiable (noted e he), every.pending⟩
      · cases ran
    | _ => cases ran

theorem along_turns_always {tasks : TaskSet ι} {c : RtosConfig ι} {labels : List (RtosLabel ι)} :
    Along (rtosSystem tasks).step (Turns fun _ => True) c labels := by
  have always : Along (rtosSystem tasks).step (fun _ _ => True) c labels :=
    along_of_forall fun _ _ => trivial
  exact always.mono fun _ l _ => turns_always l

theorem dirty_of_clean {tasks : TaskSet ι} {store : RtosStore ι}
    (clean : (rtosSystem tasks).dirty store = false) (i : ι) : dirty (store.info i) = false := by
  have clean : ((store.sched.stateSignal.dirty || store.sched.consumptionSignal.dirty) ||
      tasks.tasksAssigned.any fun i => dirty (store.info i)) = false := clean
  rw [Bool.or_eq_false_iff, List.any_eq_false] at clean
  exact Bool.eq_false_iff.mpr (clean.2 i (tasks.complete i))

/-- The rule: what every kind of step keeps, every run keeps. -/
theorem Preserves.every (rule : Preserves may note inv) {tasks : TaskSet ι} {settings : Settings tasks}
    {start : ι → η}
    (begins : ∀ i, inv i 0 (start i) ((simulationStart settings).store.info i)
      (.blocked [.task i .activePosedge] none .turn)
      (.blocked [.task i .activePosedge] none (.inside .start)))
    {labels : List (RtosLabel ι)} {c : RtosConfig ι} {h : ι → η}
    (along : Along (rtosSystem tasks).step (Turns may) (simulationStart settings) labels)
    (reach : run (recording (rtosSystem tasks).step (noteTasks note))
      (simulationStart settings, start) labels = some (c, h)) : Every inv c h := by
  have keep : ∀ (x : RtosConfig ι × (ι → η)) (l : RtosLabel ι) (y : RtosConfig ι × (ι → η)),
      Every inv x.1 x.2 → Turns may x.1 l →
      recording (rtosSystem tasks).step (noteTasks note) x l = some y → Every inv y.1 y.2 := by
    rintro ⟨c, h⟩ l ⟨c', h'⟩ every allowed taken
    obtain ⟨stepped, noted⟩ := recording_eq_some.mp taken
    dsimp only at every allowed stepped noted ⊢
    rw [noted]
    cases l with
    | eval p choice =>
      obtain ⟨r, seg, resumes, ran, next⟩ := System.step_eval_eq_some.mp stepped
      exact rule.eval every allowed resumes ran next
    | delta =>
      obtain ⟨quiet, rfl⟩ := System.step_delta_eq_some.mp stepped
      have quiet := System.quiet_iff.mp quiet
      refine ⟨fun i => ?_, fun e none => by cases none⟩
      exact rule.showing (every.tasks i) (quiet _) (quiet _) fun e edges =>
        fired_edge every.pending edges
    | advance time =>
      obtain ⟨⟨stable, later, within⟩, rfl⟩ := System.step_advance_eq_some.mp stepped
      obtain ⟨quiet, -, clean, -⟩ := System.stable_iff.mp stable
      refine ⟨fun i => ?_, every.pending⟩
      exact rule.advancing (every.tasks i) (quiet _) (quiet _) (dirty_of_clean clean i) later (within _)
  exact run_invariant keep ⟨begins, fun e none => by cases none⟩ (along_recording.mpr along) reach

/-- The same without a history. -/
theorem Preserves.every_plain {inv : TaskProperty ι Unit}
    (rule : Preserves may (fun _ _ _ h => h) inv) {tasks : TaskSet ι} {settings : Settings tasks}
    (begins : ∀ i, inv i 0 () ((simulationStart settings).store.info i)
      (.blocked [.task i .activePosedge] none .turn)
      (.blocked [.task i .activePosedge] none (.inside .start)))
    {labels : List (RtosLabel ι)} {c : RtosConfig ι}
    (along : Along (rtosSystem tasks).step (Turns may) (simulationStart settings) labels)
    (reach : run (rtosSystem tasks).step (simulationStart settings) labels = some c) :
    Every inv c fun _ => () := by
  have history : ∃ h, run (recording (rtosSystem tasks).step (noteTasks fun _ _ _ h => h))
      (simulationStart settings, fun _ => ()) labels = some (c, h) := exists_history _ reach
  obtain ⟨h, recorded⟩ := history
  exact rule.every begins along recorded

end Rule

end Kista.Scheduling.TaskRule
