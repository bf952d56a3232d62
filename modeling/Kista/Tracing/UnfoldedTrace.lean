/- Kista/Tracing/UnfoldedTrace
   source: src/src/tikz_activity_trace.cpp, src/src/sched_types.hpp
   digest: The recorder of the unfolded activity trace, and that its tables have the state of every
   task and scheduler at the end of every recorded instant. -/

import Kista.Scheduling.Rtos
import Kista.Tracing.TimeAxis

set_option autoImplicit false
set_option relaxedAutoImplicit false

namespace Kista.Tracing.UnfoldedTrace

open Containers.OrderedMap
open Containers.LinearKeys
open Kernel.Waveform
open Scheduling.Dispatch (TaskState)
open Scheduling.Rtos (SchedState)
open TimeAxis

variable {τ ρ : Type}

/-- The tasks and the schedulers of the global tables. -/
structure Registry (τ ρ : Type) where
  taskInfoByName : List τ
  schedsByName : List ρ
  allTasks : ∀ t, t ∈ taskInfoByName
  allScheds : ∀ s, s ∈ schedsByName

/-- The values of the state signals in a delta. -/
structure Snapshot (τ ρ : Type) where
  task : τ → TaskState
  sched : ρ → SchedState

structure Activity (τ ρ : Type) where
  taskActivity : τ → Entries ℕ TaskState
  schedActivity : ρ → Entries ℕ SchedState

/-- Void activity tables for every task and every scheduler. -/
def Activity.void : Activity τ ρ := ⟨fun _ => [], fun _ => []⟩

/-- A change of any state is in the sensitivity list of the process. -/
def woken (registry : Registry τ ρ) (before now : Snapshot τ ρ) : Bool :=
  (registry.taskInfoByName.any fun t => decide (now.task t ≠ before.task t)) ||
    registry.schedsByName.any fun s => decide (now.sched s ≠ before.sched s)

/-- The initial state of the tasks and of the schedulers. -/
def dump (currentTime : ℕ) (now : Snapshot τ ρ) (activity : Activity τ ρ) : Activity τ ρ where
  taskActivity t := assign less currentTime (now.task t) (activity.taskActivity t)
  schedActivity s := assign less currentTime (now.sched s) (activity.schedActivity s)

/-- The last state in an instant steps over those before. -/
def collect (currentTime : ℕ) (before now : Snapshot τ ρ) (activity : Activity τ ρ) :
    Activity τ ρ where
  taskActivity t :=
    if now.task t ≠ before.task t then
      assign less currentTime (now.task t) (activity.taskActivity t)
    else activity.taskActivity t
  schedActivity s :=
    if now.sched s ≠ before.sched s then
      assign less currentTime (now.sched s) (activity.schedActivity s)
    else activity.schedActivity s

/-- `tikz_trace_activity_process_unfolded`. -/
def unfolded (registry : Registry τ ρ) : Style (Snapshot τ ρ) (Activity τ ρ) where
  woken := woken registry
  dump := dump
  collect := collect

/-- The trace of a run. -/
def trace (registry : Registry τ ρ) (settings : Settings) (run : Run (Snapshot τ ρ)) :
    Recorder (Activity τ ρ) :=
  record (unfolded registry) settings.startTraceTime settings.maxTimeStamps run.initial
    ⟨.waiting, .init, .void⟩ run.deltas

theorem watches_task (registry : Registry τ ρ) (t : τ) :
    Watches (unfolded registry) (fun now => now.task t)
      fun activity => activity.taskActivity t where
  awake before now changed := by
    show woken registry before now = true
    rw [woken, Bool.or_eq_true, List.any_eq_true]
    exact .inl ⟨t, registry.allTasks t, decide_eq_true changed⟩
  dump _ _ _ := rfl
  changed _ _ _ _ different := if_pos different
  unchanged _ _ _ _ same := if_neg fun different => different same

theorem watches_sched (registry : Registry τ ρ) (s : ρ) :
    Watches (unfolded registry) (fun now => now.sched s)
      fun activity => activity.schedActivity s where
  awake before now changed := by
    show woken registry before now = true
    rw [woken, Bool.or_eq_true, List.any_eq_true, List.any_eq_true]
    exact .inr ⟨s, registry.allScheds s, decide_eq_true changed⟩
  dump _ _ _ := rfl
  changed _ _ _ _ different := if_pos different
  unchanged _ _ _ _ same := if_neg fun different => different same

section Runs

variable (registry : Registry τ ρ) (settings : Settings) (run : Run (Snapshot τ ρ))

theorem faithful_task (t : τ) :
    Faithful (fun now => now.task t) (fun activity => activity.taskActivity t)
      run.initial run.deltas (trace registry settings run) :=
  faithful_record (watches_task registry t) settings.max_pos rfl
    run.ordered

theorem faithful_sched (s : ρ) :
    Faithful (fun now => now.sched s) (fun activity => activity.schedActivity s)
      run.initial run.deltas (trace registry settings run) :=
  faithful_record (watches_sched registry s) settings.max_pos rfl
    run.ordered

theorem timed :
    Timed settings.startTraceTime settings.maxTimeStamps run.deltas
      (trace registry settings run) :=
  timed_record settings.max_pos

end Runs

/-- A trace with increasing time stamps from the start time on and the index of each, whose latest
entry at a stamp is the state at the end of that instant. -/
structure FaithfulTrace (settings : Settings) (run : Run (Snapshot τ ρ))
    (r : Recorder (Activity τ ρ)) : Prop where
  increasing : r.axis.timeStamps.Pairwise fun earlier later => earlier < later
  begins : (∃ delta ∈ run.deltas, delta.1 = settings.startTraceTime) →
    r.axis.timeStamps.head? = some settings.startTraceTime
  waits : (∀ delta ∈ run.deltas, delta.1 ≠ settings.startTraceTime) → r.axis.timeStamps = []
  bounded : r.axis.timeStamps.length ≤ settings.maxTimeStamps
  inverse : ∀ stamp n,
    find less stamp r.axis.timeStampsIndex = some n ↔ r.axis.timeStamps[n]? = some stamp
  tasks : ∀ stamp ∈ r.axis.timeStamps, ∀ t,
    latest (r.tables.taskActivity t) stamp = some ((run.endOf stamp).task t)
  scheds : ∀ stamp ∈ r.axis.timeStamps, ∀ s,
    latest (r.tables.schedActivity s) stamp = some ((run.endOf stamp).sched s)

/-- The unfolded trace of every run is faithful, at the last stamp too. -/
theorem unfolded_faithful (registry : Registry τ ρ) (settings : Settings)
    (run : Run (Snapshot τ ρ)) : FaithfulTrace settings run (trace registry settings run) := by
  have htimed := timed registry settings run
  have tasks : ∀ stamp ∈ (trace registry settings run).axis.timeStamps, ∀ t,
      latest ((trace registry settings run).tables.taskActivity t) stamp =
        some ((run.endOf stamp).task t) :=
    fun stamp listed t => (faithful_task registry settings run t).values stamp listed
  have scheds : ∀ stamp ∈ (trace registry settings run).axis.timeStamps, ∀ s,
      latest ((trace registry settings run).tables.schedActivity s) stamp =
        some ((run.endOf stamp).sched s) :=
    fun stamp listed s => (faithful_sched registry settings run s).values stamp listed
  by_cases waiting : (trace registry settings run).phase = .waiting
  · obtain ⟨haxis, hnone⟩ := htimed.waiting waiting
    refine ⟨?_, ?_, ?_, ?_, ?_, tasks, scheds⟩
    · rw [haxis]
      exact List.Pairwise.nil
    · rintro ⟨delta, listed, due⟩
      exact absurd due (hnone delta listed)
    · intro _
      rw [haxis]
      rfl
    · rw [haxis]
      exact Nat.zero_le _
    · intro stamp n
      rw [haxis]
      simp [Axis.init, find]
  · have hright := htimed.right waiting
    refine ⟨hright.increasing, fun _ => hright.begins, fun early => ?_, hright.bounded,
      hright.inverse, tasks, scheds⟩
    have hwaiting : (trace registry settings run).phase = .waiting := by
      rw [trace, record_before early]
    exact absurd hwaiting waiting

/-- One task and its scheduler: two changes in one instant, one in a later one. -/
example :
    let registry : Registry Unit Unit := ⟨[()], [()], by simp, by simp⟩
    let state (task : TaskState) (sched : SchedState) : Snapshot Unit Unit :=
      ⟨fun _ => task, fun _ => sched⟩
    let deltas := [(10, state .ready .scheduling), (10, state .ready .innactive),
      (10, state .executing .innactive), (20, state .ready .scheduling)]
    (record (unfolded registry) 10 2 (state .ready .innactive) ⟨.waiting, .init, .void⟩
      deltas).tables.taskActivity () = [(10, .executing), (20, .ready)] := by
  decide

end Kista.Tracing.UnfoldedTrace
