/- Kista/Scheduling/Constructs
   source: src/src/user_task_constructs.cpp, synch_comm/memoryless_event.cpp, registered_event.cpp,
   semaphore.cpp, fifo_buffer.hpp
   digest: The constructs that the functionality of a task is built from, each cut at its waits. -/

import Kista.Scheduling.SystemTask

set_option autoImplicit false
set_option relaxedAutoImplicit false

/-!
The default configuration does not resynchronise a periodic task that misses a deadline. A wait
for a communication or a synchronisation ends when the environment says so.
-/

namespace Kista.Scheduling.Constructs

open Kernel.Delta
open Dispatch (TaskState SchedulerPolicy)
open SystemTask

inductive TriggeringPolicy where
  | preemptive | cooperative | nonPreemptive | unknown
  deriving DecidableEq, Repr

/-- What a construct asks the scheduler of its task. -/
structure Mode where
  schedulerPolicy : SchedulerPolicy
  triggeringPolicy : TriggeringPolicy

inductive Construct where
  | consume (compTime : ℕ)
  | yield
  | waitPeriod
  | sync (blocks : Bool)
  deriving DecidableEq, Repr

/-- The waits at which a task resumes, with the locals it still needs. -/
inductive TaskPoint where
  | start
  | consumeGranted
  | consumeEnd (startConsumptionTime : ℕ)
  | consumeDone
  | yieldEnd
  | periodEnd
  | syncEnd
  | guardEnd
  | ended
  deriving DecidableEq, Repr

/-- A construct runs on until it returns, waits or reports an error. -/
inductive Progress (ι : Type) where
  | returned (t : TaskInfo) (notified : List (Event ι))
  | waits (t : TaskInfo) (notified : List (Event ι)) (status : Status (Event ι) TaskPoint)
  | error

variable {ι : Type}

/-- The guard at the end of a wait: the task goes on only with the processor. -/
def processorGuard (i : ι) (t : TaskInfo) : Progress ι :=
  if t.activeSignal.read then .returned t []
  else .waits t [] (.blocked [.task i .activePosedge] none .guardEnd)

/-- The part of the preemptive `consume` from the grant of the processor on. -/
def consumeWait (i : ι) (now : ℕ) (t : TaskInfo) : Progress ι :=
  .waits t []
    (.blocked [.task i .activeNegedge] (some (now + t.leftConsumeTime)) (.consumeEnd now))

/-- The head of the loop of the preemptive `consume`. -/
def consumeLoop (i : ι) (now : ℕ) (t : TaskInfo) : Progress ι :=
  let t := { t with consumptionSignal := t.consumptionSignal.write true }
  if t.activeSignal.read then consumeWait i now t
  else .waits t [] (.blocked [.task i .activePosedge] none .consumeGranted)

def consume (mode : Mode) (i : ι) (now compTime : ℕ) (t : TaskInfo) : Progress ι :=
  let t := { t with leftConsumeTime := compTime, finishedFlag := false }
  if mode.triggeringPolicy = .preemptive then consumeLoop i now t
  else
    .waits { t with consumptionSignal := t.consumptionSignal.write true } []
      (.blocked [] (some (now + compTime)) .consumeDone)

/-- The tail of the loop of the preemptive `consume`. -/
def consumeEnd (i : ι) (now startConsumptionTime : ℕ) (t : TaskInfo) : Progress ι :=
  let t := { t with consumptionSignal := t.consumptionSignal.write false }
  let consumedTime := now - startConsumptionTime
  if consumedTime < t.leftConsumeTime then
    consumeLoop i now { t with leftConsumeTime := t.leftConsumeTime - consumedTime }
  else .returned { t with leftConsumeTime := 0, finishedFlag := true } []

def yield (mode : Mode) (i : ι) (t : TaskInfo) : Progress ι :=
  if mode.schedulerPolicy = .staticScheduling ∨ mode.triggeringPolicy = .cooperative ∨
      mode.triggeringPolicy = .preemptive then
    .waits { t with finishedFlag := false } [.yieldEvent]
      (.blocked [.task i .activePosedge] none .yieldEnd)
  else if mode.triggeringPolicy = .nonPreemptive then .error
  else .returned t []

/-- What `wait_period` changes behind the wait. -/
def nextJob (t : TaskInfo) : TaskInfo :=
  { t with
    currentAbsoluteDeadline := t.currentAbsoluteDeadline + t.period
    waitingPeriodSignal := t.waitingPeriodSignal.write false
    finishedFlag := true }

def periodEnd (i : ι) (t : TaskInfo) : Progress ι := processorGuard i (nextJob t)

def Progress.notify (e : Event ι) : Progress ι → Progress ι
  | .returned t notified => .returned t (e :: notified)
  | .waits t notified status => .waits t (e :: notified) status
  | .error => .error

def waitPeriod (i : ι) (now : ℕ) (t : TaskInfo) : Progress ι :=
  let t := { t with finishedFlag := false }
  if !t.isPeriodic then .error
  else if t.currentAbsoluteDeadline < now then
    (periodEnd i { t with missDeadlineFlag := true }).notify (.task i .endResponse)
  else
    .waits { t with waitingPeriodSignal := t.waitingPeriodSignal.write true }
      [.task i .endResponse] (.blocked [.task i .taskRelease] none .periodEnd)

def syncEnd (i : ι) (t : TaskInfo) : Progress ι :=
  processorGuard i
    { t with
      waitingCommSyncSignal := t.waitingCommSyncSignal.write false
      finishedFlag := true }

/-- `wait` on an event, a registered event or a semaphore, which may be there already, and the
reads and writes of an internal fifo, which may wait several times before they end. -/
def sync (i : ι) (blocks : Bool) (t : TaskInfo) : Progress ι :=
  let t := { t with
    finishedFlag := false
    waitingCommSyncSignal := t.waitingCommSyncSignal.write true }
  if blocks then .waits t [] (.free .syncEnd) else syncEnd i t

def call (mode : Mode) (i : ι) (now : ℕ) (t : TaskInfo) : Construct → Progress ι
  | .consume compTime => consume mode i now compTime t
  | .yield => yield mode i t
  | .waitPeriod => waitPeriod i now t
  | .sync blocks => sync i blocks t

/-- A task goes on behind the wait that it stands at. -/
def resume (i : ι) (now : ℕ) (t : TaskInfo) : TaskPoint → Progress ι
  | .start => .returned t []
  | .consumeGranted => consumeWait i now t
  | .consumeEnd startConsumptionTime => consumeEnd i now startConsumptionTime t
  | .consumeDone => .returned
      { t with
        consumptionSignal := t.consumptionSignal.write false
        finishedFlag := true } []
  | .yieldEnd => .returned { t with finishedFlag := true } []
  | .periodEnd => periodEnd i t
  | .syncEnd => syncEnd i t
  | .guardEnd => .returned t []
  | .ended => .error

/-- What a task does next, if it returns from this. -/
def Progress.andThen (p : Progress ι) (next : TaskInfo → Progress ι) : Progress ι :=
  match p with
  | .returned t notified =>
    match next t with
    | .returned t' notified' => .returned t' (notified' ++ notified)
    | .waits t' notified' status => .waits t' (notified' ++ notified) status
    | .error => .error
  | .waits t notified status => .waits t notified status
  | .error => .error

/-- What is known where a construct returns and where it waits, and of the events it notifies. -/
def Progress.Meets (returns : TaskInfo → Prop)
    (halts : TaskInfo → Status (Event ι) TaskPoint → Prop) (notes : Event ι → Prop) :
    Progress ι → Prop
  | .returned t notified => returns t ∧ ∀ e ∈ notified, notes e
  | .waits t notified status => halts t status ∧ ∀ e ∈ notified, notes e
  | .error => True

section Meets

variable {returns returns' : TaskInfo → Prop}
  {halts : TaskInfo → Status (Event ι) TaskPoint → Prop} {notes : Event ι → Prop}

theorem Progress.Meets.andThen {p : Progress ι} {next : TaskInfo → Progress ι}
    (h : p.Meets returns halts notes)
    (later : ∀ t, returns t → (next t).Meets returns' halts notes) :
    (p.andThen next).Meets returns' halts notes := by
  cases p with
  | returned t notified =>
    obtain ⟨holds, noted⟩ := h
    have after := later t holds
    simp only [Progress.andThen]
    generalize next t = p at after
    cases p with
    | returned t' notified' => exact ⟨after.1, List.forall_mem_append.mpr ⟨after.2, noted⟩⟩
    | waits t' notified' status => exact ⟨after.1, List.forall_mem_append.mpr ⟨after.2, noted⟩⟩
    | error => trivial
  | waits t notified status => exact h
  | error => trivial

theorem Progress.Meets.notify {p : Progress ι} {e : Event ι} (h : p.Meets returns halts notes)
    (noted : notes e) : (p.notify e).Meets returns halts notes := by
  cases p with
  | returned t notified => exact ⟨h.1, List.forall_mem_cons.mpr ⟨noted, h.2⟩⟩
  | waits t notified status => exact ⟨h.1, List.forall_mem_cons.mpr ⟨noted, h.2⟩⟩
  | error => trivial

end Meets

theorem processorGuard_granted (i : ι) {t : TaskInfo} (granted : t.activeSignal.read = true) :
    processorGuard i t = .returned t [] := if_pos granted

/-- With the processor granted, a job that missed its deadline goes straight to the next one. -/
theorem waitPeriod_late (i : ι) {now : ℕ} {t : TaskInfo} (periodic : t.isPeriodic = true)
    (granted : t.activeSignal.read = true) (missed : t.currentAbsoluteDeadline < now) :
    waitPeriod i now t =
      .returned (nextJob { t with finishedFlag := false, missDeadlineFlag := true })
        [.task i .endResponse] := by
  have some : ¬ (!t.isPeriodic) = true := by simp [periodic]
  unfold waitPeriod
  rw [if_neg some, if_pos missed, periodEnd, processorGuard_granted]
  · rfl
  · exact granted

theorem waitPeriod_inTime (i : ι) {now : ℕ} {t : TaskInfo} (periodic : t.isPeriodic = true)
    (met : now ≤ t.currentAbsoluteDeadline) :
    waitPeriod i now t =
      .waits
        { t with
          finishedFlag := false
          waitingPeriodSignal := t.waitingPeriodSignal.write true }
        [.task i .endResponse] (.blocked [.task i .taskRelease] none .periodEnd) := by
  have some : ¬ (!t.isPeriodic) = true := by simp [periodic]
  unfold waitPeriod
  rw [if_neg some, if_neg (Nat.not_lt.mpr met)]

/-- What the thread of a task leaves to others. -/
structure Frame (t t' : TaskInfo) : Prop where
  active : t'.activeSignal = t.activeSignal
  state : t'.stateSignal = t.stateSignal

/-- The only events that the constructs of a task notify. -/
def Noted (i : ι) (e : Event ι) : Prop := e = .yieldEvent ∨ e = .task i .endResponse

theorem Frame.trans {t t' t'' : TaskInfo} (h : Frame t t') (h' : Frame t' t'') : Frame t t'' :=
  ⟨h'.active.trans h.active, h'.state.trans h.state⟩

theorem Progress.Meets.mono {returns returns' : TaskInfo → Prop}
    {halts halts' : TaskInfo → Status (Event ι) TaskPoint → Prop} {notes : Event ι → Prop}
    {p : Progress ι} (h : p.Meets returns halts notes) (weaker : ∀ t, returns t → returns' t)
    (weaker' : ∀ t status, halts t status → halts' t status) : p.Meets returns' halts' notes := by
  cases p with
  | returned t notified => exact ⟨weaker t h.1, h.2⟩
  | waits t notified status => exact ⟨weaker' t status h.1, h.2⟩
  | error => trivial

/-- A progress that leaves the frame. -/
abbrev Progress.Frames (i : ι) (t : TaskInfo) (p : Progress ι) : Prop :=
  p.Meets (Frame t) (fun t' _ => Frame t t') (Noted i)

theorem processorGuard_frames (i : ι) (t t' : TaskInfo) (frame : Frame t t') :
    (processorGuard i t').Frames i t := by
  unfold processorGuard
  split
  · exact ⟨frame, by simp⟩
  · exact ⟨frame, by simp⟩

theorem consumeLoop_frames (i : ι) (now : ℕ) (t t' : TaskInfo) (frame : Frame t t') :
    (consumeLoop i now t').Frames i t := by
  unfold consumeLoop
  dsimp only
  split
  · exact ⟨⟨frame.active, frame.state⟩, by simp⟩
  · exact ⟨⟨frame.active, frame.state⟩, by simp⟩

theorem call_frames (m : Mode) (i : ι) (now : ℕ) (t : TaskInfo) (c : Construct) :
    (call m i now t c).Frames i t := by
  cases c with
  | consume compTime =>
    simp only [call, consume]
    split
    · exact consumeLoop_frames i now t _ ⟨rfl, rfl⟩
    · exact ⟨⟨rfl, rfl⟩, by simp⟩
  | yield =>
    simp only [call, yield]
    split
    · exact ⟨⟨rfl, rfl⟩, by simp [Noted]⟩
    · split
      · trivial
      · exact ⟨⟨rfl, rfl⟩, by simp⟩
  | waitPeriod =>
    simp only [call, waitPeriod]
    split
    · trivial
    · split
      · have granted := processorGuard_frames i t
          (nextJob { t with finishedFlag := false, missDeadlineFlag := true }) ⟨rfl, rfl⟩
        exact granted.notify (Or.inr rfl)
      · exact ⟨⟨rfl, rfl⟩, by simp [Noted]⟩
  | sync blocks =>
    simp only [call, sync]
    split
    · exact ⟨⟨rfl, rfl⟩, by simp⟩
    · exact processorGuard_frames i t _ ⟨rfl, rfl⟩

theorem resume_frames (i : ι) (now : ℕ) (t : TaskInfo) (p : TaskPoint) :
    (resume i now t p).Frames i t := by
  cases p with
  | start => exact ⟨⟨rfl, rfl⟩, by simp⟩
  | consumeGranted => exact ⟨⟨rfl, rfl⟩, by simp⟩
  | consumeEnd time =>
    simp only [resume, consumeEnd]
    split
    · exact consumeLoop_frames i now t _ ⟨rfl, rfl⟩
    · exact ⟨⟨rfl, rfl⟩, by simp⟩
  | consumeDone => exact ⟨⟨rfl, rfl⟩, by simp⟩
  | yieldEnd => exact ⟨⟨rfl, rfl⟩, by simp⟩
  | periodEnd => exact processorGuard_frames i t _ ⟨rfl, rfl⟩
  | syncEnd => exact processorGuard_frames i t _ ⟨rfl, rfl⟩
  | guardEnd => exact ⟨⟨rfl, rfl⟩, by simp⟩
  | ended => trivial

end Kista.Scheduling.Constructs
