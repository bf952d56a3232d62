/- Kista/Scheduling/ThreadWaits
   source: src/src/user_task_constructs.cpp, synch_comm/memoryless_event.cpp, registered_event.cpp,
   semaphore.cpp
   digest: What the thread of a task leaves behind at each of its waits, under any scheduler. -/

import Kista.Scheduling.TaskRule

set_option autoImplicit false
set_option relaxedAutoImplicit false

namespace Kista.Scheduling.ThreadWaits

open Kernel.Delta Kernel.Run
open SystemTask Constructs Rtos StateMachine TaskCoherence TaskRule

variable {ι : Type}

/-- The points at which a task is busy with a consumption, preemptible or not. -/
def computing : TaskPoint → Bool
  | .consumeGranted | .consumeEnd _ | .consumeDone => true
  | _ => false

/-- The points at which the flag of a finished construct may be left up. -/
def flagged : TaskPoint → Bool
  | .guardEnd | .ended => true
  | _ => false

/-- What a thread has written where it stands. -/
structure Posted (t : TaskInfo) (p : TaskPoint) : Prop where
  period : t.waitingPeriodSignal.next = atPeriod p
  sync : t.waitingCommSyncSignal.next = atSync p
  consumption : t.consumptionSignal.next = computing p
  flag : t.finishedFlag = true → flagged p = true

/-- The thread runs on, with none of its signals raised. -/
structure Passes (t t' : TaskInfo) : Prop where
  keeps : Keeps t t'
  posted : Posted t' .guardEnd

/-- The thread has come to a wait. -/
structure Stops (i : ι) (t t' : TaskInfo) (status : Status (Event ι) TaskPoint) : Prop where
  keeps : Keeps t t'
  posted : Posted t' status.point
  grant : awaitsGrant status.point = true →
    status = .blocked [.task i .activePosedge] none status.point
  refused : status.point = .guardEnd → t.activeSignal.current = false
  ended : status.point = .ended → status = .blocked [] none .ended
  waits : ∀ p, status ≠ .ready p

/-- A progress that leaves behind what its waits ask for. -/
abbrev Leaves (i : ι) (t : TaskInfo) (p : Progress ι) : Prop :=
  p.Meets (Passes t) (Stops i t) (Noted i)

/-- A wait that is not for the processor behind a construct. -/
theorem Stops.wait {i : ι} {t t' : TaskInfo} {status : Status (Event ι) TaskPoint}
    (keeps : Keeps t t') (posted : Posted t' status.point) (within : flagged status.point = false)
    (waits : ∀ p, status ≠ .ready p)
    (grant : awaitsGrant status.point = true →
      status = .blocked [.task i .activePosedge] none status.point) : Stops i t t' status where
  keeps := keeps
  posted := posted
  grant := grant
  refused stands := by
    rw [stands] at within
    cases within
  ended stands := by
    rw [stands] at within
    cases within
  waits := waits

theorem processorGuard_leaves (i : ι) {t t' : TaskInfo} (keeps : Keeps t t')
    (posted : Posted t' .guardEnd) : Leaves i t (processorGuard i t') := by
  unfold processorGuard
  split
  · exact ⟨⟨keeps, posted⟩, by simp⟩
  next refused =>
    refine ⟨⟨keeps, posted, fun _ => rfl, fun _ => ?_, nofun, nofun⟩, by simp⟩
    rw [keeps.frame.active] at refused
    exact Bool.eq_false_iff.mpr refused

theorem consumeWait_leaves (i : ι) (now : ℕ) {t t' : TaskInfo} (keeps : Keeps t t')
    (posted : Posted t' .consumeGranted) : Leaves i t (consumeWait i now t') :=
  ⟨.wait keeps ⟨posted.period, posted.sync, posted.consumption, posted.flag⟩ rfl (by simp)
    (by simp [awaitsGrant, Status.point]), by simp⟩

theorem consumeLoop_leaves (i : ι) (now : ℕ) {t t' : TaskInfo} (keeps : Keeps t t')
    (period : t'.waitingPeriodSignal.next = false)
    (sync : t'.waitingCommSyncSignal.next = false) (flag : t'.finishedFlag = false) :
    Leaves i t (consumeLoop i now t') := by
  have keeps' : Keeps t { t' with consumptionSignal := t'.consumptionSignal.write true } :=
    ⟨⟨keeps.frame.active, keeps.frame.state⟩, keeps.period, keeps.sync, keeps.consumption⟩
  have posted : Posted { t' with consumptionSignal := t'.consumptionSignal.write true }
      .consumeGranted :=
    ⟨period, sync, rfl, fun up => absurd (up.symm.trans flag) (by decide)⟩
  unfold consumeLoop
  dsimp only
  split
  · exact consumeWait_leaves i now keeps' posted
  · exact ⟨.wait keeps' posted rfl (by simp) fun _ => rfl, by simp⟩

/-- A construct, called by a thread that is in no wait. -/
theorem call_leaves (m : Mode) (i : ι) (now : ℕ) {t t' : TaskInfo} (passes : Passes t t')
    (c : Construct) : Leaves i t (call m i now t' c) := by
  obtain ⟨keeps, period, sync, consumption, -⟩ := passes
  cases c with
  | consume compTime =>
    simp only [call, consume]
    split
    · exact consumeLoop_leaves i now (keeps.trans ⟨⟨rfl, rfl⟩, rfl, rfl, rfl⟩) period sync rfl
    · exact ⟨.wait (keeps.trans ⟨⟨rfl, rfl⟩, rfl, rfl, rfl⟩) ⟨period, sync, rfl, by simp⟩ rfl
        (by simp) (by simp [awaitsGrant, Status.point]), by simp⟩
  | yield =>
    simp only [call, yield]
    split
    · exact ⟨.wait (keeps.trans ⟨⟨rfl, rfl⟩, rfl, rfl, rfl⟩) ⟨period, sync, consumption, by simp⟩
        rfl (by simp) fun _ => rfl, by simp [Noted]⟩
    · split
      · trivial
      · exact ⟨⟨keeps, period, sync, consumption, fun _ => rfl⟩, by simp⟩
  | waitPeriod =>
    simp only [call, waitPeriod]
    split
    · trivial
    · split
      · have guarded : Leaves i t (processorGuard i
            (nextJob { t' with finishedFlag := false, missDeadlineFlag := true })) :=
          processorGuard_leaves i (keeps.trans ⟨⟨rfl, rfl⟩, rfl, rfl, rfl⟩)
            ⟨rfl, sync, consumption, fun _ => rfl⟩
        exact guarded.notify (Or.inr rfl)
      · exact ⟨.wait (keeps.trans ⟨⟨rfl, rfl⟩, rfl, rfl, rfl⟩) ⟨rfl, sync, consumption, by simp⟩
          rfl (by simp) (by simp [awaitsGrant, Status.point]), by simp [Noted]⟩
  | sync blocks =>
    simp only [call, Constructs.sync]
    split
    · exact ⟨.wait (keeps.trans ⟨⟨rfl, rfl⟩, rfl, rfl, rfl⟩) ⟨period, rfl, consumption, by simp⟩
        rfl (by simp) (by simp [awaitsGrant, Status.point]), by simp⟩
    · exact processorGuard_leaves i (keeps.trans ⟨⟨rfl, rfl⟩, rfl, rfl, rfl⟩)
        ⟨period, rfl, consumption, fun _ => rfl⟩

/-- The thread goes on behind its wait. -/
theorem resume_leaves (i : ι) (now : ℕ) {t : TaskInfo} {p : TaskPoint} (posted : Posted t p) :
    Leaves i t (resume i now t p) := by
  obtain ⟨period, sync, consumption, flag⟩ := posted
  have down : flagged p = false → t.finishedFlag = false := fun low =>
    Bool.eq_false_iff.mpr fun up => absurd ((flag up).symm.trans low) (by decide)
  cases p with
  | start => exact ⟨⟨.refl t, period, sync, consumption, fun _ => rfl⟩, by simp⟩
  | consumeGranted => exact consumeWait_leaves i now (.refl t) ⟨period, sync, consumption, flag⟩
  | consumeEnd startTime =>
    simp only [resume, consumeEnd]
    split
    · exact consumeLoop_leaves i now ⟨⟨rfl, rfl⟩, rfl, rfl, rfl⟩ period sync (down rfl)
    · exact ⟨⟨⟨⟨rfl, rfl⟩, rfl, rfl, rfl⟩, period, sync, rfl, fun _ => rfl⟩, by simp⟩
  | consumeDone =>
    exact ⟨⟨⟨⟨rfl, rfl⟩, rfl, rfl, rfl⟩, period, sync, rfl, fun _ => rfl⟩, by simp⟩
  | yieldEnd =>
    exact ⟨⟨⟨⟨rfl, rfl⟩, rfl, rfl, rfl⟩, period, sync, consumption, fun _ => rfl⟩, by simp⟩
  | periodEnd =>
    exact processorGuard_leaves i ⟨⟨rfl, rfl⟩, rfl, rfl, rfl⟩ ⟨rfl, sync, consumption, fun _ => rfl⟩
  | syncEnd =>
    exact processorGuard_leaves i ⟨⟨rfl, rfl⟩, rfl, rfl, rfl⟩ ⟨period, rfl, consumption, fun _ => rfl⟩
  | guardEnd => exact ⟨⟨.refl t, period, sync, consumption, fun _ => rfl⟩, by simp⟩
  | ended => trivial

/-- From one wait to the next. -/
theorem thread_stops {i : ι} {now : ℕ} {t t' : TaskInfo} {p : TaskPoint} {m : Mode}
    {calls : List Construct} {notified : List (Event ι)} {status : Status (Event ι) TaskPoint}
    (posted : Posted t p)
    (progress : (resume i now t p).andThen (functionality m i now calls) =
      .waits t' notified status) : Stops i t t' status := by
  have ends : ∀ t', Passes t t' → Stops i t t' (.blocked [] none .ended) := fun t' passes =>
    ⟨passes.keeps, ⟨passes.posted.period, passes.posted.sync, passes.posted.consumption,
      fun _ => rfl⟩, nofun, nofun, fun _ => rfl, nofun⟩
  have leaves := (resume_leaves i now posted).andThen
    (functionality_meets (fun _ c passes => call_leaves m i now passes c) ends calls)
  rw [progress] at leaves
  exact leaves.1

/-- Where the thread of a task stands. -/
structure Stands (i : ι) (t : TaskInfo) (thread : Status (Event ι) (RtosPoint ι)) (p : TaskPoint) :
    Prop where
  point : thread.point = .inside p
  posted : Posted t p
  grant : awaitsGrant p = true →
    thread = .blocked [.task i .activePosedge] none (.inside p) ∨
      thread = .ready (.inside p) ∧ t.activeSignal.current = true
  refused : p = .guardEnd → thread ≠ .ready (.inside p) → t.activeSignal.current = false
  ended : p = .ended → thread = .blocked [] none (.inside .ended)

variable {i : ι} {t : TaskInfo} {thread : Status (Event ι) (RtosPoint ι)} {p : TaskPoint}

theorem stands_start {tasks : TaskSet ι} (settings : Settings tasks) (i : ι) :
    Stands i ((simulationStart settings).store.info i)
      (.blocked [.task i .activePosedge] none (.inside .start)) .start where
  point := rfl
  posted := by
    obtain ⟨-, consumption, period, sync, -⟩ := start_signals settings i
    have flag : ((simulationStart settings).store.info i).finishedFlag = false := by
      simp only [simulationStart, endOfElaboration]
      split <;> rfl
    exact ⟨congrArg Signal.next period, congrArg Signal.next sync,
      congrArg Signal.next consumption, fun up => absurd (up.symm.trans flag) (by decide)⟩
  grant _ := Or.inl rfl
  refused := nofun
  ended := nofun

/-- The scheduler writes the signal that grants the processor. -/
theorem Stands.setActive (h : Stands i t thread p) (active : Bool) :
    Stands i { t with activeSignal := t.activeSignal.write active } thread p where
  point := h.point
  posted := ⟨h.posted.period, h.posted.sync, h.posted.consumption, h.posted.flag⟩
  grant := h.grant
  refused := h.refused
  ended := h.ended

/-- The state machine of the task turns. -/
theorem Stands.setState (h : Stands i t thread p) (state : Dispatch.TaskState) :
    Stands i { t with stateSignal := t.stateSignal.write state } thread p where
  point := h.point
  posted := ⟨h.posted.period, h.posted.sync, h.posted.consumption, h.posted.flag⟩
  grant := h.grant
  refused := h.refused
  ended := h.ended

/-- The thread runs up to its next wait. -/
theorem Stops.stands {t' : TaskInfo} {status : Status (Event ι) TaskPoint}
    (stops : Stops i t t' status) : Stands i t' (status.map .inside) status.point where
  point := Status.map_point _
  posted := stops.posted
  grant awaits := by
    left
    rw [stops.grant awaits]
    rfl
  refused place _ := by
    rw [stops.keeps.frame.active]
    exact stops.refused place
  ended place := by
    rw [stops.ended place]
    rfl

/-- A thread that waits for the processor sees it granted, or sleeps on without it. -/
theorem Stands.wakes (h : Stands i t thread p) (awaits : awaitsGrant p = true)
    (waits : ∀ r, thread ≠ .ready r) (fired : Event ι → Bool) (now : ℕ) :
    fired (.task i .activePosedge) = true ∧ thread.wake fired now = .ready (.inside p) ∨
      fired (.task i .activePosedge) = false ∧ thread.wake fired now = thread := by
  obtain rfl : thread = .blocked [.task i .activePosedge] none (.inside p) :=
    (h.grant awaits).resolve_right fun woken => waits _ woken.1
  cases fires : fired (.task i .activePosedge) with
  | true => exact Or.inl ⟨rfl, Status.wake_blocked_of_fired _ List.mem_cons_self fires⟩
  | false => exact Or.inr ⟨rfl, Status.wake_waiting fires⟩

/-- The delta that shows the signals. -/
theorem Stands.delta (h : Stands i t thread p) (waits : ∀ r, thread ≠ .ready r)
    {fired : Event ι → Bool} {now : ℕ}
    (edges : ∀ e, notifiable (Event.task i e) = false → fired (.task i e) = edge t e) :
    Stands i (update t) (thread.wake fired now) p where
  point := by
    rw [Status.wake_point]
    exact h.point
  posted := ⟨h.posted.period, h.posted.sync, h.posted.consumption, h.posted.flag⟩
  grant awaits := by
    rcases h.wakes awaits waits fired now with ⟨fires, woken⟩ | ⟨-, asleep⟩
    · right
      refine ⟨woken, ?_⟩
      have rises : !t.activeSignal.current && t.activeSignal.next :=
        (edges .activePosedge rfl).symm.trans fires
      exact (Bool.and_eq_true_iff.mp rises).2
    · left
      rw [asleep]
      exact (h.grant awaits).resolve_right fun woken => waits _ woken.1
  refused place asleep := by
    have awaits : awaitsGrant p = true := by
      rw [place]
      rfl
    rcases h.wakes awaits waits fired now with ⟨-, woken⟩ | ⟨silent, -⟩
    · exact absurd woken asleep
    · have lost := h.refused place (waits _)
      rw [edges .activePosedge rfl] at silent
      exact Signal.low_of_no_posedge silent lost
  ended place := by
    rw [h.ended place]
    exact Status.wake_idle

/-- Time advances. -/
theorem Stands.advance (h : Stands i t thread p) (waits : ∀ r, thread ≠ .ready r) (time : ℕ) :
    Stands i t (thread.wake (fun _ => false) time) p where
  point := by
    rw [Status.wake_point]
    exact h.point
  posted := h.posted
  grant awaits := by
    rcases h.wakes awaits waits (fun _ => false) time with ⟨fires, -⟩ | ⟨-, asleep⟩
    · cases fires
    · rw [asleep]
      exact h.grant awaits
  refused place _ := h.refused place (waits _)
  ended place := by
    rw [h.ended place]
    exact Status.wake_idle

end Kista.Scheduling.ThreadWaits
