/- Kista/Scheduling/TaskCoherence
   source: src/src/task_info_t.cpp, user_task_constructs.cpp
   digest: How the thread of a preemptible task, its signals and its state machine agree in
   every configuration. -/

import Kista.Scheduling.StateMachine

set_option autoImplicit false
set_option relaxedAutoImplicit false

namespace Kista.Scheduling.TaskCoherence

open Kernel.Delta
open Dispatch (TaskState)
open SystemTask Constructs Rtos StateMachine

variable {ι : Type}

/-- The points at which a thread waits for the processor. -/
def awaitsGrant : TaskPoint → Bool
  | .start | .consumeGranted | .yieldEnd | .guardEnd => true
  | _ => false

/-- The points at which the signals of a thread are raised. -/
def atPeriod : TaskPoint → Bool
  | .periodEnd => true
  | _ => false

def atSync : TaskPoint → Bool
  | .syncEnd => true
  | _ => false

def consuming : TaskPoint → Bool
  | .consumeGranted | .consumeEnd _ => true
  | _ => false

/-- The signals that the thread of a task writes, at the point where it stands. -/
structure Raised (t : TaskInfo) (p : TaskPoint) : Prop where
  period : t.waitingPeriodSignal.next = atPeriod p
  sync : t.waitingCommSyncSignal.next = atSync p
  consumption : t.consumptionSignal.next = consuming p

/-- What a thread leaves to others, the values of its own signals included. -/
structure Keeps (t t' : TaskInfo) : Prop where
  frame : Frame t t'
  period : t'.waitingPeriodSignal.current = t.waitingPeriodSignal.current
  sync : t'.waitingCommSyncSignal.current = t.waitingCommSyncSignal.current
  consumption : t'.consumptionSignal.current = t.consumptionSignal.current

/-- The thread runs on: it has the processor, and none of its signals is raised. -/
structure Runs (t t' : TaskInfo) : Prop where
  keeps : Keeps t t'
  granted : t.activeSignal.current = true
  raised : Raised t' .guardEnd

/-- The thread has come to a wait. -/
structure Halts (i : ι) (t t' : TaskInfo) (status : Status (Event ι) TaskPoint) : Prop where
  keeps : Keeps t t'
  raised : Raised t' status.point
  waits : ∀ p, status ≠ .ready p
  preemptible : status.point ≠ .consumeDone
  grant : awaitsGrant status.point = true →
    status = .blocked [.task i .activePosedge] none status.point
  refused : awaitsGrant status.point = true → status.point ≠ .yieldEnd →
    t.activeSignal.current = false
  /-- Without the processor no wait begins. -/
  quiet : t.activeSignal.current = false →
    atPeriod status.point = false ∧ atSync status.point = false

theorem Keeps.refl (t : TaskInfo) : Keeps t t := ⟨⟨rfl, rfl⟩, rfl, rfl, rfl⟩

theorem Keeps.trans {t t' t'' : TaskInfo} (h : Keeps t t') (h' : Keeps t' t'') : Keeps t t'' :=
  ⟨h.frame.trans h'.frame, h'.period.trans h.period, h'.sync.trans h.sync,
    h'.consumption.trans h.consumption⟩

/-- A progress of the thread that keeps to its rules. -/
abbrev Proceeds (i : ι) (t : TaskInfo) (p : Progress ι) : Prop :=
  p.Meets (Runs t) (Halts i t) (Noted i)

theorem processorGuard_proceeds (i : ι) {t t' : TaskInfo} (keeps : Keeps t t')
    (raised : Raised t' .guardEnd) : Proceeds i t (processorGuard i t') := by
  have same : t'.activeSignal.read = t.activeSignal.current := by
    rw [keeps.frame.active]
    rfl
  unfold processorGuard
  split
  next granted =>
    rw [same] at granted
    exact ⟨⟨keeps, granted, raised⟩, by simp⟩
  next refused =>
    rw [same] at refused
    refine ⟨⟨keeps, raised, by simp, by simp [Status.point], fun _ => rfl, fun _ _ => ?_,
      fun _ => ⟨rfl, rfl⟩⟩, by simp⟩
    exact Bool.eq_false_iff.mpr refused

theorem consumeWait_proceeds (i : ι) (now : ℕ) {t t' : TaskInfo} (keeps : Keeps t t')
    (raised : Raised t' .consumeGranted) : Proceeds i t (consumeWait i now t') := by
  refine ⟨⟨keeps, ⟨raised.period, raised.sync, raised.consumption⟩, by simp, by simp [Status.point],
    fun awaits => ?_, fun awaits => ?_, fun _ => ⟨rfl, rfl⟩⟩, by simp⟩
  · cases awaits
  · cases awaits

theorem consumeLoop_proceeds (i : ι) (now : ℕ) {t t' : TaskInfo} (keeps : Keeps t t')
    (period : t'.waitingPeriodSignal.next = false)
    (sync : t'.waitingCommSyncSignal.next = false) : Proceeds i t (consumeLoop i now t') := by
  have keeps' : Keeps t { t' with consumptionSignal := t'.consumptionSignal.write true } :=
    ⟨⟨keeps.frame.active, keeps.frame.state⟩, keeps.period, keeps.sync, keeps.consumption⟩
  have raised : Raised { t' with consumptionSignal := t'.consumptionSignal.write true }
      .consumeGranted := ⟨period, sync, rfl⟩
  have same : t'.activeSignal.read = t.activeSignal.current := by
    rw [keeps.frame.active]
    rfl
  unfold consumeLoop
  dsimp only
  split
  · exact consumeWait_proceeds i now keeps' raised
  next refused =>
    refine ⟨⟨keeps', raised, by simp, by simp [Status.point], fun _ => rfl, fun _ _ => ?_,
      fun _ => ⟨rfl, rfl⟩⟩, by simp⟩
    rw [same] at refused
    exact Bool.eq_false_iff.mpr refused

/-- A wait that begins with the processor. -/
theorem Runs.halts {t t' t'' : TaskInfo} {i : ι} {status : Status (Event ι) TaskPoint}
    (runs : Runs t t') (keeps : Keeps t' t'') (raised : Raised t'' status.point)
    (waits : ∀ p, status ≠ .ready p) (preemptible : status.point ≠ .consumeDone)
    (yields : awaitsGrant status.point = true →
      status = .blocked [.task i .activePosedge] none .yieldEnd) : Halts i t t'' status where
  keeps := runs.keeps.trans keeps
  raised := raised
  waits := waits
  preemptible := preemptible
  grant awaits := by
    rw [yields awaits]
    rfl
  refused awaits other := by
    rw [yields awaits] at other
    exact absurd rfl other
  quiet lost := by
    rw [runs.granted] at lost
    cases lost

/-- A construct called with the processor, by a thread that is in no wait. -/
theorem call_proceeds {m : Mode} (preemptive : m.triggeringPolicy = .preemptive) (i : ι) (now : ℕ)
    {t t' : TaskInfo} (runs : Runs t t') (c : Construct) : Proceeds i t (call m i now t' c) := by
  obtain ⟨period, sync, consumption⟩ := runs.raised
  cases c with
  | consume compTime =>
    simp only [call, consume, if_pos preemptive]
    exact consumeLoop_proceeds i now (runs.keeps.trans ⟨⟨rfl, rfl⟩, rfl, rfl, rfl⟩) period sync
  | yield =>
    simp only [call, yield, preemptive, or_true, if_true]
    refine ⟨runs.halts ⟨⟨rfl, rfl⟩, rfl, rfl, rfl⟩ ⟨period, sync, consumption⟩ (by simp)
      (by simp [Status.point]) fun _ => rfl, by simp [Noted]⟩
  | waitPeriod =>
    simp only [call, waitPeriod]
    split
    · trivial
    · split
      · have guarded : Proceeds i t (processorGuard i
            (nextJob { t' with finishedFlag := false, missDeadlineFlag := true })) :=
          processorGuard_proceeds i (runs.keeps.trans ⟨⟨rfl, rfl⟩, rfl, rfl, rfl⟩)
            ⟨rfl, sync, consumption⟩
        exact guarded.notify (Or.inr rfl)
      · refine ⟨runs.halts ⟨⟨rfl, rfl⟩, rfl, rfl, rfl⟩ ⟨rfl, sync, consumption⟩ (by simp)
          (by simp [Status.point]) fun awaits => ?_, by simp [Noted]⟩
        cases awaits
  | sync blocks =>
    simp only [call, Constructs.sync]
    split
    · refine ⟨runs.halts ⟨⟨rfl, rfl⟩, rfl, rfl, rfl⟩ ⟨period, rfl, consumption⟩ (by simp)
        (by simp [Status.point]) fun awaits => ?_, by simp⟩
      cases awaits
    · exact processorGuard_proceeds i (runs.keeps.trans ⟨⟨rfl, rfl⟩, rfl, rfl, rfl⟩)
        ⟨period, rfl, consumption⟩

/-- A thread goes on behind its wait, provided that it has the processor where it does not ask
for it. -/
theorem resume_proceeds (i : ι) (now : ℕ) {t : TaskInfo} {p : TaskPoint} (raised : Raised t p)
    (preemptible : p ≠ .consumeDone)
    (grant : awaitsGrant p = true → t.activeSignal.current = true)
    (consumed : ∀ startTime, p = .consumeEnd startTime → t.leftConsumeTime ≤ now - startTime →
      t.activeSignal.read = true) : Proceeds i t (resume i now t p) := by
  obtain ⟨period, sync, consumption⟩ := raised
  cases p with
  | start => exact ⟨⟨.refl t, grant rfl, period, sync, consumption⟩, by simp⟩
  | consumeGranted => exact consumeWait_proceeds i now (.refl t) ⟨period, sync, consumption⟩
  | consumeEnd startTime =>
    simp only [resume, consumeEnd]
    split
    · exact consumeLoop_proceeds i now ⟨⟨rfl, rfl⟩, rfl, rfl, rfl⟩ period sync
    next past =>
      have granted := consumed startTime rfl (Nat.le_of_not_lt past)
      exact ⟨⟨⟨⟨rfl, rfl⟩, rfl, rfl, rfl⟩, granted, period, sync, rfl⟩, by simp⟩
  | consumeDone => exact absurd rfl preemptible
  | yieldEnd =>
    exact ⟨⟨⟨⟨rfl, rfl⟩, rfl, rfl, rfl⟩, grant rfl, period, sync, consumption⟩, by simp⟩
  | periodEnd =>
    exact processorGuard_proceeds i ⟨⟨rfl, rfl⟩, rfl, rfl, rfl⟩ ⟨rfl, sync, consumption⟩
  | syncEnd =>
    exact processorGuard_proceeds i ⟨⟨rfl, rfl⟩, rfl, rfl, rfl⟩ ⟨period, rfl, consumption⟩
  | guardEnd => exact ⟨⟨.refl t, grant rfl, period, sync, consumption⟩, by simp⟩
  | ended => trivial

/-- A task with its state machine and its thread, which stands at a point. -/
structure Coherent (i : ι) (t : TaskInfo) (machine thread : Status (Event ι) (RtosPoint ι))
    (p : TaskPoint) : Prop where
  fsm : Machine i t machine
  point : thread.point = .inside p
  preemptible : p ≠ .consumeDone
  raised : Raised t p
  grant : awaitsGrant p = true →
    thread = .blocked [.task i .activePosedge] none (.inside p) ∨ thread = .ready (.inside p)
  refused : awaitsGrant p = true → p ≠ .yieldEnd → thread ≠ .ready (.inside p) →
    t.activeSignal.current = false
  resumed : awaitsGrant p = true → thread = .ready (.inside p) →
    t.activeSignal.current = true ∧ t.stateSignal.current ≠ .executing ∧
      (machine = .ready .turn ∨ t.stateSignal.next ≠ .ready)
  /-- Without the processor no wait begins. -/
  begun : t.activeSignal.current = false →
    (atPeriod p = true → t.waitingPeriodSignal.current = true) ∧
      (atSync p = true → t.waitingCommSyncSignal.current = true)
  apart : t.waitingPeriodSignal.current = false ∨ t.waitingCommSyncSignal.current = false
  /-- Why an executing task is about to turn. -/
  turning : machine = .ready .turn → t.stateSignal.current = .executing →
    t.activeSignal.current = false ∨ t.waitingPeriodSignal.current = true ∨
      t.waitingCommSyncSignal.current = true ∨ t.consumptionSignal.current = true ∨
      p = .yieldEnd ∨ p = .ended
  woken : machine = .ready .turn → t.stateSignal.current = .ready →
    t.activeSignal.current = true ∧ t.waitingPeriodSignal.current = false ∧
      t.waitingCommSyncSignal.current = false
  wokenPeriod : machine = .ready .turn → t.stateSignal.current = .inactiveWaitPeriod →
    t.waitingCommSyncSignal.current = false
  wokenSync : machine = .ready .turn → t.stateSignal.current = .inactiveWaitCommSync →
    t.waitingPeriodSignal.current = false
  /-- A ready task waits for nothing but the processor. -/
  idle : machine ≠ .ready .turn → t.stateSignal.next = .ready →
    t.waitingPeriodSignal.current = false ∧ t.waitingCommSyncSignal.current = false ∧
      atPeriod p = false ∧ atSync p = false ∧
      (t.activeSignal.current = false ∨ p = .yieldEnd ∨ p = .ended)
  period : machine ≠ .ready .turn → t.stateSignal.next = .inactiveWaitPeriod →
    t.activeSignal.current = false ∧ t.waitingPeriodSignal.current = true
  sync : machine ≠ .ready .turn → t.stateSignal.next = .inactiveWaitCommSync →
    t.activeSignal.current = false ∧ t.waitingCommSyncSignal.current = true
  still : t.stateSignal.current = .ready → t.activeSignal.current = false →
    t.stateSignal.next = .ready

variable {i : ι} {t : TaskInfo} {machine thread : Status (Event ι) (RtosPoint ι)} {p : TaskPoint}

/-- The scheduler writes the signal that grants the processor. -/
theorem Coherent.setActive (h : Coherent i t machine thread p) (active : Bool) :
    Coherent i { t with activeSignal := t.activeSignal.write active } machine thread p where
  fsm := h.fsm.congr rfl rfl
  point := h.point
  preemptible := h.preemptible
  raised := ⟨h.raised.period, h.raised.sync, h.raised.consumption⟩
  grant := h.grant
  refused := h.refused
  resumed := h.resumed
  begun := h.begun
  apart := h.apart
  turning := h.turning
  woken := h.woken
  wokenPeriod := h.wokenPeriod
  wokenSync := h.wokenSync
  idle := h.idle
  period := h.period
  sync := h.sync
  still := h.still

/-- The thread runs up to its next wait. -/
theorem Coherent.halt (h : Coherent i t machine thread p) {t' : TaskInfo}
    {status : Status (Event ι) TaskPoint} (halts : Halts i t t' status)
    (resumes : thread.resumable = some (.inside p)) (live : p ≠ .ended) :
    Coherent i t' machine (status.map .inside) status.point := by
  obtain ⟨⟨⟨active, state⟩, period, sync, consumption⟩, raised, waits, preemptible, grant, refused,
    quiet⟩ := halts
  have ready : awaitsGrant p = true → thread = .ready (.inside p) := by
    intro awaits
    rcases h.grant awaits with blocked | ready
    · rw [blocked] at resumes
      cases resumes
    · exact ready
  exact
    { fsm := h.fsm.congr state (by rw [active])
      point := Status.map_point _
      preemptible := preemptible
      raised := raised
      grant := fun awaits => by
        left
        rw [grant awaits]
        rfl
      refused := fun awaits other _ => by
        rw [active]
        exact refused awaits other
      resumed := fun _ woken => absurd woken (Status.map_ne_ready waits _)
      begun := fun lost => by
        rw [active] at lost
        obtain ⟨noPeriod, noSync⟩ := quiet lost
        rw [noPeriod, noSync]
        exact ⟨fun up => absurd up Bool.false_ne_true, fun up => absurd up Bool.false_ne_true⟩
      apart := by
        rw [period, sync]
        exact h.apart
      turning := fun turns executing => by
        rw [state] at executing
        rw [active, period, sync, consumption]
        rcases h.turning turns executing with lost | waiting | waiting | busy | yields | past
        · exact Or.inl lost
        · exact Or.inr (Or.inl waiting)
        · exact Or.inr (Or.inr (Or.inl waiting))
        · exact Or.inr (Or.inr (Or.inr (Or.inl busy)))
        · have awaits : awaitsGrant p = true := by rw [yields]; rfl
          exact absurd executing (h.resumed awaits (ready awaits)).2.1
        · exact absurd past live
      woken := fun turns => by
        rw [state, active, period, sync]
        exact h.woken turns
      wokenPeriod := fun turns => by
        rw [state, sync]
        exact h.wokenPeriod turns
      wokenSync := fun turns => by
        rw [state, period]
        exact h.wokenSync turns
      idle := fun rests isReady => by
        rw [state] at isReady
        obtain ⟨noPeriod, noSync, -, -, place⟩ := h.idle rests isReady
        have lost : t.activeSignal.current = false := by
          rcases place with lost | yields | past
          · exact lost
          · have awaits : awaitsGrant p = true := by rw [yields]; rfl
            rcases (h.resumed awaits (ready awaits)).2.2 with turns | moved
            · exact absurd turns rests
            · exact absurd isReady moved
          · exact absurd past live
        rw [active, period, sync]
        exact ⟨noPeriod, noSync, (quiet lost).1, (quiet lost).2, Or.inl lost⟩
      period := fun rests => by
        rw [state, active, period]
        exact h.period rests
      sync := fun rests => by
        rw [state, active, sync]
        exact h.sync rests
      still := by
        rw [state, active]
        exact h.still }

/-- A turn that makes the task ready finds it in no wait, and its thread at no point from which
it could begin one. -/
theorem Coherent.becomesReady (h : Coherent i t (.ready .turn) thread p) {turn : Transition ι}
    (turns : updateStateProc t = some turn) (becomes : turn.state = .ready) :
    t.waitingPeriodSignal.current = false ∧ t.waitingCommSyncSignal.current = false ∧
      (t.activeSignal.current = false ∨
        t.stateSignal.current = .executing ∧ (p = .yieldEnd ∨ p = .ended)) := by
  rcases (updateStateProc_turn turns).becomesReady becomes with
    ⟨executing, period, sync, rests⟩ | ⟨idle, active, -⟩
  · refine ⟨period, sync, ?_⟩
    rcases rests with lost | consumption
    · exact Or.inl lost
    · rcases h.turning rfl executing with lost | waiting | waiting | busy | place
      · exact Or.inl lost
      · exact absurd (waiting.symm.trans period) (by decide)
      · exact absurd (waiting.symm.trans sync) (by decide)
      · exact absurd (busy.symm.trans consumption) (by decide)
      · exact Or.inr ⟨executing, place⟩
  · rcases idle with ⟨state, period⟩ | ⟨state, sync⟩
    · exact ⟨period, h.wokenPeriod rfl state, Or.inl active⟩
    · exact ⟨h.wokenSync rfl state, sync, Or.inl active⟩

/-- The state machine turns. -/
theorem Coherent.turn (h : Coherent i t (.ready .turn) thread p) {turn : Transition ι}
    (turns : updateStateProc t = some turn)
    (granted : waitEnded t = true → t.activeSignal.read = true) :
    Coherent i { t with stateSignal := t.stateSignal.write turn.state }
      (.blocked (turn.waits.map (.task i)) none .turn) thread p where
  fsm := Machine.turn turns granted
  point := h.point
  preemptible := h.preemptible
  raised := ⟨h.raised.period, h.raised.sync, h.raised.consumption⟩
  grant := h.grant
  refused := h.refused
  resumed awaits ready := by
    obtain ⟨active, executing, -⟩ := h.resumed awaits ready
    refine ⟨active, executing, Or.inr fun becomes => ?_⟩
    rcases (h.becomesReady turns becomes).2.2 with lost | ⟨executing', -⟩
    · rw [active] at lost
      cases lost
    · exact executing executing'
  begun := h.begun
  apart := h.apart
  turning := nofun
  woken := nofun
  wokenPeriod := nofun
  wokenSync := nofun
  idle _ becomes := by
    obtain ⟨period, sync, place⟩ := h.becomesReady turns becomes
    refine ⟨period, sync, ?_⟩
    rcases place with lost | ⟨-, rfl | rfl⟩
    · obtain ⟨noPeriod, noSync⟩ := h.begun lost
      rw [period] at noPeriod
      rw [sync] at noSync
      exact ⟨Bool.eq_false_iff.mpr fun up => absurd (noPeriod up) (by decide),
        Bool.eq_false_iff.mpr fun up => absurd (noSync up) (by decide), Or.inl lost⟩
    · exact ⟨rfl, rfl, Or.inr (Or.inl rfl)⟩
    · exact ⟨rfl, rfl, Or.inr (Or.inr rfl)⟩
  period _ becomes := (updateStateProc_turn turns).inactiveWait.1 becomes
  sync _ becomes := (updateStateProc_turn turns).inactiveWait.2 becomes
  still ready lost := by
    have active := (h.woken rfl ready).1
    rw [show t.activeSignal.current = false from lost] at active
    cases active

/-- Without the processor, a task that waits for one thing waits for nothing else. -/
theorem Coherent.oneWait (h : Coherent i t machine thread p)
    (lost : t.activeSignal.current = false) :
    (t.waitingPeriodSignal.current = true → atSync p = false) ∧
      (t.waitingCommSyncSignal.current = true → atPeriod p = false) := by
  obtain ⟨up, up'⟩ := h.begun lost
  constructor
  · intro period
    refine Bool.eq_false_iff.mpr fun sync => ?_
    rcases h.apart with noPeriod | noSync
    · exact absurd (period.symm.trans noPeriod) (by decide)
    · exact absurd ((up' sync).symm.trans noSync) (by decide)
  · intro sync
    refine Bool.eq_false_iff.mpr fun period => ?_
    rcases h.apart with noPeriod | noSync
    · exact absurd ((up period).symm.trans noPeriod) (by decide)
    · exact absurd (sync.symm.trans noSync) (by decide)

/-- Without the processor no task is left executing when its state machine rests. -/
theorem Coherent.idles (h : Coherent i t machine thread p) (rests : machine ≠ .ready .turn)
    (lost : t.activeSignal.current = false) : holds t.stateSignal.next = false := by
  refine Bool.eq_false_iff.mpr fun held => ?_
  rw [h.fsm.granted rests held] at lost
  cases lost

/-- A thread that awaits the grant sleeps on, or wakes at the edge of the active signal. -/
theorem Coherent.grant_wake (h : Coherent i t machine thread p) (waits : ∀ r, thread ≠ .ready r)
    (awaits : awaitsGrant p = true) (fired : Event ι → Bool) (now : ℕ) :
    fired (.task i .activePosedge) = false ∧
        thread.wake fired now = .blocked [.task i .activePosedge] none (.inside p) ∨
      fired (.task i .activePosedge) = true ∧ thread.wake fired now = .ready (.inside p) := by
  rw [(h.grant awaits).resolve_right (waits _)]
  cases fires : fired (.task i .activePosedge) with
  | false => exact Or.inl ⟨rfl, Status.wake_blocked_of_silent (by simpa using fires) (by simp)⟩
  | true => exact Or.inr ⟨rfl, Status.wake_blocked_of_fired _ List.mem_cons_self fires⟩

/-- A task that the delta shows to be executing has just been granted the processor, or stands at a
point from which it is about to leave it. -/
theorem Coherent.executing_turns (h : Coherent i t machine thread p) (rests : machine ≠ .ready .turn)
    (waits : ∀ r, thread ≠ .ready r) (executing : t.stateSignal.next = .executing) :
    t.activeSignal.next = false ∨ t.waitingPeriodSignal.next = true ∨
      t.waitingCommSyncSignal.next = true ∨ t.consumptionSignal.next = true ∨
      p = .yieldEnd ∨ p = .ended := by
  have active : t.activeSignal.current = true := h.fsm.granted rests (by rw [executing]; rfl)
  have granted : awaitsGrant p = true → p = .yieldEnd := by
    intro awaits
    by_contra other
    rw [h.refused awaits other (waits _)] at active
    cases active
  rw [h.raised.period, h.raised.sync, h.raised.consumption]
  cases p with
  | start => cases granted rfl
  | consumeGranted => cases granted rfl
  | consumeEnd startTime => simp [consuming]
  | consumeDone => exact absurd rfl h.preemptible
  | yieldEnd => simp
  | periodEnd => simp [atPeriod]
  | syncEnd => simp [atSync]
  | guardEnd => cases granted rfl
  | ended => simp

/-- The delta that shows the signals. -/
theorem Coherent.delta (h : Coherent i t machine thread p) (rests : machine ≠ .ready .turn)
    (waits : ∀ r, thread ≠ .ready r) {fired : Event ι → Bool} {now : ℕ}
    (edges : ∀ e, notifiable (Event.task i e) = false → fired (.task i e) = edge t e) :
    Coherent i (update t) (machine.wake fired now) (thread.wake fired now) p := by
  have wake := h.fsm.wake rests fired now
  have rise : fired (.task i .activePosedge) = true → t.activeSignal.current = false ∧
      t.activeSignal.next = true := by
    intro fires
    rw [edges _ rfl] at fires
    exact Signal.of_posedge fires
  have kept : fired (.task i .activePosedge) = false → t.activeSignal.current = false →
      t.activeSignal.next = false := by
    intro silent lost
    rw [edges _ rfl] at silent
    exact Signal.low_of_no_posedge silent lost
  have grant := fun awaits => h.grant_wake waits awaits fired now
  -- a state machine that rests after the delta has seen no edge that it waits for
  have silent : machine.wake fired now ≠ .ready .turn →
      ∀ e ∈ StateMachine.waits t.stateSignal.next, fired (.task i e) = false := by
    intro resting
    rcases wake with ⟨-, woken⟩ | ⟨silent, -⟩
    · exact absurd woken resting
    · exact silent
  exact
    { fsm := h.fsm.delta rests fun shown => by
        rw [edges _ rfl]
        exact shown
      point := by
        rw [Status.wake_point]
        exact h.point
      preemptible := h.preemptible
      raised := ⟨h.raised.period, h.raised.sync, h.raised.consumption⟩
      grant := fun awaits => (grant awaits).imp And.right And.right
      refused := fun awaits other asleep => by
        rcases grant awaits with ⟨still, -⟩ | ⟨-, woken⟩
        · exact kept still (h.refused awaits other (waits _))
        · exact absurd woken asleep
      resumed := fun awaits woken => by
        rcases grant awaits with ⟨-, asleep⟩ | ⟨rises, -⟩
        · rw [asleep] at woken
          cases woken
        · obtain ⟨lost, active⟩ := rise rises
          refine ⟨active, fun executing => ?_, ?_⟩
          · have := h.idles rests lost
            rw [show t.stateSignal.next = .executing from executing] at this
            cases this
          · by_contra other
            rw [not_or, not_not] at other
            have ready : t.stateSignal.next = .ready := other.2
            have := silent other.1 .activePosedge (by rw [ready]; exact List.mem_cons_self)
            rw [rises] at this
            cases this
      begun := fun _ => ⟨fun up => h.raised.period.trans up, fun up => h.raised.sync.trans up⟩
      apart := by
        show t.waitingPeriodSignal.next = false ∨ t.waitingCommSyncSignal.next = false
        rw [h.raised.period, h.raised.sync]
        cases p <;> simp [atPeriod, atSync]
      turning := fun _ executing => h.executing_turns rests waits executing
      woken := fun turns ready => by
        have ready : t.stateSignal.next = .ready := ready
        obtain ⟨-, -, noPeriod, noSync, -⟩ := h.idle rests ready
        rcases wake with ⟨⟨e, waited, fires⟩, -⟩ | ⟨-, asleep⟩
        · rw [ready] at waited
          rw [List.mem_singleton.mp waited] at fires
          exact ⟨(rise fires).2, h.raised.period.trans noPeriod, h.raised.sync.trans noSync⟩
        · exact absurd (asleep.symm.trans turns) rests
      wokenPeriod := fun _ state => by
        obtain ⟨lost, period⟩ := h.period rests state
        exact h.raised.sync.trans ((h.oneWait lost).1 period)
      wokenSync := fun _ state => by
        obtain ⟨lost, sync⟩ := h.sync rests state
        exact h.raised.period.trans ((h.oneWait lost).2 sync)
      idle := fun resting ready => by
        have ready : t.stateSignal.next = .ready := ready
        obtain ⟨-, -, noPeriod, noSync, place⟩ := h.idle rests ready
        refine ⟨h.raised.period.trans noPeriod, h.raised.sync.trans noSync, noPeriod, noSync,
          place.imp_left fun lost => ?_⟩
        refine kept (silent resting _ ?_) lost
        rw [ready]
        exact List.mem_cons_self
      period := fun resting state => by
        have state : t.stateSignal.next = .inactiveWaitPeriod := state
        obtain ⟨lost, period⟩ := h.period rests state
        constructor
        · refine kept (silent resting _ ?_) lost
          rw [state]
          exact List.mem_cons_self
        · have falls := silent resting .waitingPeriodNegedge (by rw [state]; simp [StateMachine.waits])
          rw [edges _ rfl] at falls
          exact Signal.high_of_no_negedge falls period
      sync := fun resting state => by
        have state : t.stateSignal.next = .inactiveWaitCommSync := state
        obtain ⟨lost, sync⟩ := h.sync rests state
        constructor
        · refine kept (silent resting _ ?_) lost
          rw [state]
          simp [StateMachine.waits]
        · have falls := silent resting .waitingCommSyncNegedge (by rw [state]; simp [StateMachine.waits])
          rw [edges _ rfl] at falls
          exact Signal.high_of_no_negedge falls sync
      still := fun ready _ => ready }

/-- Time advances. -/
theorem Coherent.advance (h : Coherent i t machine thread p) (rests : machine ≠ .ready .turn)
    (waits : ∀ r, thread ≠ .ready r) (now : ℕ) :
    Coherent i t (machine.wake (fun _ => false) now) (thread.wake (fun _ => false) now) p := by
  have grant : awaitsGrant p = true →
      thread.wake (fun _ => false) now = .blocked [.task i .activePosedge] none (.inside p) := by
    intro awaits
    rw [(h.grant awaits).resolve_right (waits _)]
    exact Status.wake_blocked_of_silent (fun _ _ => rfl) (by simp)
  rw [h.fsm.asleep rests]
  exact
    { h with
      point := by
        rw [Status.wake_point]
        exact h.point
      grant := fun awaits => Or.inl (grant awaits)
      refused := fun awaits other _ => h.refused awaits other (waits _)
      resumed := fun awaits woken => by
        rw [grant awaits] at woken
        cases woken }

end Kista.Scheduling.TaskCoherence
