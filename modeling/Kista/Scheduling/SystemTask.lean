/- Kista/Scheduling/SystemTask
   source: src/src/task_info_t.cpp, task_info_t.hpp
   digest: The record of a task with its signals, its state machine, its release generator and
   the accounting of its response times. -/

import Kista.Kernel.Delta
import Kista.Scheduling.Dispatch

set_option autoImplicit false
set_option relaxedAutoImplicit false

namespace Kista.Scheduling.SystemTask

open Kernel.Delta
open Dispatch (TaskState)

/-- The edges of the signals of a task and its own events. -/
inductive TaskEvent where
  | activePosedge | activeNegedge
  | consumptionNegedge
  | waitingPeriodPosedge | waitingPeriodNegedge
  | waitingCommSyncPosedge | waitingCommSyncNegedge
  | taskRelease
  | endResponse
  deriving DecidableEq, Repr

inductive Event (ι : Type) where
  | task (i : ι) (e : TaskEvent)
  | yieldEvent
  | completionEvent
  | tickTimerEvent
  | runningTaskToWaitStateEvent
  | innactiveTaskEndsWaitEvent
  deriving DecidableEq, Repr

structure TaskInfo where
  isPeriodic : Bool
  period : ℕ
  deadline : ℕ
  currentAbsoluteDeadline : ℕ
  missDeadlineFlag : Bool
  leftConsumeTime : ℕ
  finishedFlag : Bool
  activeSignal : Signal Bool
  consumptionSignal : Signal Bool
  waitingPeriodSignal : Signal Bool
  waitingCommSyncSignal : Signal Bool
  stateSignal : Signal TaskState
  maxResponseTimeVar : ℕ
  locationOfMaxResponseTimeVar : ℕ

/-- `init`, with the task not yet periodic. -/
def init : TaskInfo where
  isPeriodic := false
  period := 0
  deadline := 0
  currentAbsoluteDeadline := 0
  missDeadlineFlag := false
  leftConsumeTime := 0
  finishedFlag := false
  activeSignal := .init false
  consumptionSignal := .init false
  waitingPeriodSignal := .init false
  waitingCommSyncSignal := .init false
  stateSignal := .init .ready
  maxResponseTimeVar := 0
  locationOfMaxResponseTimeVar := 0

/-- The first deadline of a periodic task. -/
def endOfElaboration (t : TaskInfo) : TaskInfo :=
  if t.isPeriodic then
    { t with currentAbsoluteDeadline := if t.deadline = 0 then t.period else t.deadline }
  else t

/-- The update phase of the signals of a task. -/
def update (t : TaskInfo) : TaskInfo :=
  { t with
    activeSignal := t.activeSignal.update
    consumptionSignal := t.consumptionSignal.update
    waitingPeriodSignal := t.waitingPeriodSignal.update
    waitingCommSyncSignal := t.waitingCommSyncSignal.update
    stateSignal := t.stateSignal.update }

def edge (t : TaskInfo) : TaskEvent → Bool
  | .activePosedge => t.activeSignal.posedge
  | .activeNegedge => t.activeSignal.negedge
  | .consumptionNegedge => t.consumptionSignal.negedge
  | .waitingPeriodPosedge => t.waitingPeriodSignal.posedge
  | .waitingPeriodNegedge => t.waitingPeriodSignal.negedge
  | .waitingCommSyncPosedge => t.waitingCommSyncSignal.posedge
  | .waitingCommSyncNegedge => t.waitingCommSyncSignal.negedge
  | .taskRelease => false
  | .endResponse => false

def dirty (t : TaskInfo) : Bool :=
  t.activeSignal.dirty || t.consumptionSignal.dirty || t.waitingPeriodSignal.dirty ||
    t.waitingCommSyncSignal.dirty || t.stateSignal.dirty

variable {ι : Type}

/-- What the state machine does in one turn: the state it writes, the events it notifies and
the ones it waits for. -/
structure Transition (ι : Type) where
  state : TaskState
  notified : List (Event ι)
  waits : List TaskEvent

def toExecuting : Transition ι where
  state := .executing
  notified := []
  waits := [.activeNegedge, .consumptionNegedge, .waitingPeriodPosedge, .waitingCommSyncPosedge]

def toReady (notified : List (Event ι)) : Transition ι := ⟨.ready, notified, [.activePosedge]⟩

/-- The wait for a period, `true`, or for a communication, with the processor or without. -/
def toWait (period active : Bool) (notified : List (Event ι)) : Transition ι :=
  match period, active with
  | true, true => ⟨.waitPeriod, notified, [.waitingPeriodNegedge, .activeNegedge]⟩
  | true, false => ⟨.inactiveWaitPeriod, notified, [.activePosedge, .waitingPeriodNegedge]⟩
  | false, true => ⟨.waitCommSync, notified, [.waitingCommSyncNegedge, .activeNegedge]⟩
  | false, false =>
    ⟨.inactiveWaitCommSync, notified, [.waitingCommSyncNegedge, .activePosedge]⟩

/-- One turn of `update_state_proc`; `none` is a reported error. A task that is ready without
the processor would turn without ever waiting, which is no turn either. -/
def updateStateProc (t : TaskInfo) : Option (Transition ι) :=
  let active := t.activeSignal.read
  let waitingPeriod := t.waitingPeriodSignal.read
  let waitingCommSync := t.waitingCommSyncSignal.read
  match t.stateSignal.read with
  | .executing =>
    if waitingPeriod then some (toWait true active [.runningTaskToWaitStateEvent])
    else if waitingCommSync then some (toWait false active [.runningTaskToWaitStateEvent])
    else if t.finishedFlag && !t.consumptionSignal.read then
      some ⟨.finished, [.completionEvent], []⟩
    else if (active && !t.consumptionSignal.read) || !active then some (toReady [])
    else none
  | .waitPeriod =>
    if !waitingPeriod then some toExecuting
    else if !active then some (toWait true false [])
    else none
  | .waitCommSync =>
    if !waitingCommSync then some toExecuting
    else if !active then some (toWait false false [])
    else none
  | .ready => if active then some toExecuting else none
  | .inactiveWaitPeriod =>
    if !waitingPeriod && active then some toExecuting
    else if !waitingPeriod && !active then some (toReady [.innactiveTaskEndsWaitEvent])
    else if active && waitingPeriod then some (toWait true true [])
    else none
  | .inactiveWaitCommSync =>
    if !waitingCommSync && active then some toExecuting
    else if !waitingCommSync then some (toReady [.innactiveTaskEndsWaitEvent])
    else if active && waitingCommSync then some (toWait false true [])
    else none
  | .finished => none

/-- `account_response_times_proc` when a response ends. -/
def accountResponse (t : TaskInfo) (now lastReleaseTime : ℕ) : TaskInfo :=
  if t.maxResponseTimeVar < now - lastReleaseTime then
    { t with
      maxResponseTimeVar := now - lastReleaseTime
      locationOfMaxResponseTimeVar := lastReleaseTime }
  else t

/-- What `sc_get_status` tells about the simulation. -/
inductive SimStatus where
  | beforeStart | running | stopped
  deriving DecidableEq, Repr

/-- `max_response_time`; `none` is a reported error. -/
def maxResponseTime (t : TaskInfo) (status : SimStatus) : Option ℕ :=
  if !t.isPeriodic then none
  else
    match status with
    | .stopped => some t.maxResponseTimeVar
    | .running => some t.maxResponseTimeVar
    | .beforeStart => some 0

/-- `location_of_worst_case_response_time`, which is an error before the start. -/
def locationOfWorstCaseResponseTime (t : TaskInfo) (status : SimStatus) : Option ℕ :=
  if !t.isPeriodic then none
  else
    match status with
    | .stopped => some t.locationOfMaxResponseTimeVar
    | .running => some t.locationOfMaxResponseTimeVar
    | .beforeStart => none

@[simp] theorem toWait_notified (period active : Bool) (notified : List (Event ι)) :
    (toWait period active notified).notified = notified := by
  cases period <;> cases active <;> rfl

@[simp] theorem update_activeSignal (t : TaskInfo) :
    (update t).activeSignal = t.activeSignal.update := rfl
@[simp] theorem update_stateSignal (t : TaskInfo) :
    (update t).stateSignal = t.stateSignal.update := rfl
@[simp] theorem update_waitingPeriodSignal (t : TaskInfo) :
    (update t).waitingPeriodSignal = t.waitingPeriodSignal.update := rfl
@[simp] theorem update_waitingCommSyncSignal (t : TaskInfo) :
    (update t).waitingCommSyncSignal = t.waitingCommSyncSignal.update := rfl
@[simp] theorem update_consumptionSignal (t : TaskInfo) :
    (update t).consumptionSignal = t.consumptionSignal.update := rfl

end Kista.Scheduling.SystemTask
