/- Kista/Scheduling/Consumption
   source: src/src/user_task_constructs.cpp, scheduler.cpp
   digest: A call of the consumption construct against any sequence of activations and
   preemptions, and the instant at which it returns. -/

import Kista.Scheduling.Constructs

set_option autoImplicit false
set_option relaxedAutoImplicit false

/-!
The environment writes the active signal of the task at will, any number of times in an instant.
What a run measures of a call: the time with the active signal true since the call and the time
with it false, and whether the signal was true at any moment.
-/

namespace Kista.Scheduling.Consumption

open Kernel.Run Kernel.Delta SystemTask Constructs

inductive Party where
  | thread
  | environment
  deriving DecidableEq, Repr

inductive Place where
  | call
  | inside (p : TaskPoint)
  | writes
  deriving DecidableEq, Repr

variable {ι : Type}

abbrev ConsumptionConfig (ι : Type) := Config Party (Event ι) Place TaskInfo

abbrev ConsumptionLabel := Label Party Bool

/-- The thread goes no further than the end of its call. -/
def proceed : Progress ι → Option (Segment (Event ι) Place TaskInfo)
  | .returned t notified => some ⟨t, notified, .blocked [] none (.inside .ended)⟩
  | .waits t notified status => some ⟨t, notified, status.map .inside⟩
  | .error => none

def exec (mode : Mode) (i : ι) (compTime : ℕ) :
    Party → Place → Bool → ℕ → TaskInfo → Option (Segment (Event ι) Place TaskInfo)
  | .thread, .call, _, now, t => proceed (consume mode i now compTime t)
  | .thread, .inside p, _, now, t => proceed (resume i now t p)
  | .environment, .writes, active, _, t =>
    some ⟨{ t with activeSignal := t.activeSignal.write active }, [], .free .writes⟩
  | _, _, _, _, _ => none

def consumptionSystem [DecidableEq ι] (mode : Mode) (i : ι) (compTime : ℕ) :
    System Party (Event ι) Place TaskInfo Bool where
  procs := [.thread, .environment]
  complete p := by cases p <;> simp
  exec := exec mode i compTime
  update := update
  edge t
    | .task j e => decide (j = i) && edge t e
    | _ => false
  dirty := dirty

/-- A task that is about to call. -/
def calling (start : ℕ) (t : TaskInfo) : ConsumptionConfig ι where
  store := t
  status
    | .thread => .ready .call
    | .environment => .free .writes
  pending := []
  now := start

structure Meter where
  activeTime : ℕ
  inactiveTime : ℕ
  granted : Bool
  deriving DecidableEq, Repr

/-- The meter of a call, with the instant of its return and what the meter showed then. -/
structure History where
  meter : Meter
  returned : Option (ℕ × Meter)
  deriving DecidableEq, Repr

/-- The history behind a delta and an advance of time. -/
def History.seen (h : History) (active : Bool) : History :=
  { h with meter := { h.meter with granted := h.meter.granted || active } }

def History.elapse (h : History) (active : Bool) (time : ℕ) : History :=
  { h with
    meter :=
      if active then { h.meter with activeTime := h.meter.activeTime + time }
      else { h.meter with inactiveTime := h.meter.inactiveTime + time } }

def note (c : ConsumptionConfig ι) (l : ConsumptionLabel) (c' : ConsumptionConfig ι)
    (h : History) : History :=
  match l with
  | .eval .thread _ =>
    { h with
      returned :=
        if (c'.status .thread).point = .inside .ended then some (c.now, h.meter) else none }
  | .eval .environment _ => h
  | .delta => h.seen c'.store.activeSignal.read
  | .advance time => h.elapse c.store.activeSignal.read (time - c.now)

def unread (t : TaskInfo) : History := ⟨⟨0, 0, t.activeSignal.read⟩, none⟩

/-- The whole time since the call is on the meter, and nothing but edges is to come. -/
structure Measured (start : ℕ) (c : ConsumptionConfig ι) (h : History) : Prop where
  elapsed : start + h.meter.activeTime + h.meter.inactiveTime = c.now
  pending : c.pending = []
  environment : c.status .environment = .free .writes

/-- A preemptive consumption: what is left and what was consumed add up to the time asked for, with
the time since the last grant counted as left. -/
inductive Preemptive (i : ι) (start compTime : ℕ) (c : ConsumptionConfig ι) (h : History) : Prop
  | calls (place : c.status .thread = .ready .call) (open' : h.returned = none)
      (active : h.meter.granted = c.store.activeSignal.current) (fresh : h.meter.activeTime = 0)
  | waits (place : c.status .thread =
        .blocked [.task i .activePosedge] none (.inside .consumeGranted))
      (open' : h.returned = none) (inactive : c.store.activeSignal.current = false)
      (left : c.store.leftConsumeTime + h.meter.activeTime = compTime)
      (more : 0 < c.store.leftConsumeTime ∨ h.meter.granted = false)
  | granted (place : c.status .thread = .ready (.inside .consumeGranted))
      (open' : h.returned = none) (active : c.store.activeSignal.current = true)
      (left : c.store.leftConsumeTime + h.meter.activeTime = compTime)
      (seen : h.meter.granted = true)
  | consumes (since : ℕ) (place : c.status .thread = .blocked [.task i .activeNegedge]
        (some (since + c.store.leftConsumeTime)) (.inside (.consumeEnd since)))
      (open' : h.returned = none) (active : c.store.activeSignal.current = true)
      (left : c.store.leftConsumeTime + h.meter.activeTime = compTime + (c.now - since))
      (seen : h.meter.granted = true) (begun : since ≤ c.now)
      (within : c.now ≤ since + c.store.leftConsumeTime)
  | stops (since : ℕ) (place : c.status .thread = .ready (.inside (.consumeEnd since)))
      (open' : h.returned = none)
      (why : c.store.activeSignal.current = false ∨ c.now = since + c.store.leftConsumeTime)
      (left : c.store.leftConsumeTime + h.meter.activeTime = compTime + (c.now - since))
      (seen : h.meter.granted = true) (begun : since ≤ c.now)
      (within : c.now ≤ since + c.store.leftConsumeTime)
  | ended (place : c.status .thread = .blocked [] none (.inside .ended)) (time : ℕ) (m : Meter)
      (returned : h.returned = some (time, m)) (consumed : m.activeTime = compTime)
      (seen : m.granted = true) (elapsed : start + m.activeTime + m.inactiveTime = time)

/-- A consumption that nothing interrupts. -/
inductive Whole (start compTime : ℕ) (c : ConsumptionConfig ι) (h : History) : Prop
  | calls (place : c.status .thread = .ready .call) (open' : h.returned = none)
      (now : c.now = start)
  | waits (place : c.status .thread =
        .blocked [] (some (start + compTime)) (.inside .consumeDone))
      (open' : h.returned = none) (within : c.now ≤ start + compTime)
  | stops (place : c.status .thread = .ready (.inside .consumeDone)) (open' : h.returned = none)
      (now : c.now = start + compTime)
  | ended (place : c.status .thread = .blocked [] none (.inside .ended)) (m : Meter)
      (returned : h.returned = some (start + compTime, m))

section Steps

variable {mode : Mode} {i : ι} {start compTime : ℕ} {c c' : ConsumptionConfig ι}
  {h : History}

theorem fired_eq [DecidableEq ι] (pending : c.pending = []) (e : TaskEvent) :
    (consumptionSystem mode i compTime).fired c (.task i e) = edge c.store e := by
  show ((decide (i = i) && edge c.store e) || decide (Event.task i e ∈ c.pending)) = _
  simp [pending]

/-- The configuration behind a segment of the thread. -/
def after (c : ConsumptionConfig ι) (seg : Segment (Event ι) Place TaskInfo) :
    ConsumptionConfig ι :=
  ⟨seg.store, Function.update c.status .thread seg.status, seg.notified ++ c.pending, c.now⟩

theorem after_thread (c : ConsumptionConfig ι) (seg : Segment (Event ι) Place TaskInfo) :
    (after c seg).status .thread = seg.status := by
  simp [after]

theorem after_environment (c : ConsumptionConfig ι) (seg : Segment (Event ι) Place TaskInfo) :
    (after c seg).status .environment = c.status .environment := by
  simp [after]

/-- What a segment of the thread leaves behind. -/
structure Proceeds (phase : ConsumptionConfig ι → History → Prop) (c : ConsumptionConfig ι)
    (m : Meter) (seg : Segment (Event ι) Place TaskInfo) : Prop where
  notified : seg.notified = []
  phase : phase (after c seg)
    ⟨m, if seg.status.point = .inside .ended then some (c.now, m) else none⟩

/-- At the head of the loop the thread waits for the processor, or consumes what is left. -/
theorem consumeLoop_proceeds {m : Meter} {t : TaskInfo}
    (left : t.leftConsumeTime + m.activeTime = compTime)
    (seen : t.activeSignal.current = true → m.granted = true)
    (more : t.activeSignal.current = false → 0 < t.leftConsumeTime ∨ m.granted = false)
    {seg : Segment (Event ι) Place TaskInfo}
    (ran : proceed (consumeLoop i c.now t) = some seg) :
    Proceeds (Preemptive i start compTime) c m seg := by
  cases active : t.activeSignal.current with
  | true =>
    simp only [consumeLoop, Signal.read_eq, active, if_true, consumeWait, proceed,
      Option.some.injEq, Status.map] at ran
    subst ran
    refine ⟨rfl, .consumes c.now (after_thread ..) rfl active ?_ (seen active) le_rfl ?_⟩
    · show t.leftConsumeTime + m.activeTime = compTime + (c.now - c.now)
      omega
    · exact Nat.le_add_right ..
  | false =>
    simp only [consumeLoop, Signal.read_eq, active, Bool.false_eq_true, if_false, proceed,
      Option.some.injEq, Status.map] at ran
    subst ran
    exact ⟨rfl, .waits (after_thread ..) rfl active left (more active)⟩

/-- One resumption of the thread of a preemptive task. -/
theorem Preemptive.proceeds (preemptive : mode.triggeringPolicy = .preemptive)
    (phase : Preemptive i start compTime c h) (measured : Measured start c h) {r : Place}
    {choice : Bool} {seg : Segment (Event ι) Place TaskInfo}
    (resumes : (c.status .thread).resumable = some r)
    (ran : exec mode i compTime .thread r choice c.now c.store = some seg) :
    Proceeds (Preemptive i start compTime) c h.meter seg := by
  cases phase with
  | calls place open' active fresh =>
    rw [place] at resumes
    cases resumes
    simp only [exec, consume, preemptive, if_true] at ran
    refine consumeLoop_proceeds ?_ ?_ ?_ ran
    · rw [fresh]
      rfl
    · exact active.trans
    · exact fun inactive => Or.inr (active.trans inactive)
  | waits place open' inactive left more =>
    rw [place] at resumes
    cases resumes
  | granted place open' active left seen =>
    rw [place] at resumes
    cases resumes
    simp only [exec, resume, consumeWait, proceed, Option.some.injEq, Status.map] at ran
    subst ran
    refine ⟨rfl, .consumes c.now (after_thread ..) rfl active ?_ seen le_rfl ?_⟩
    · show c.store.leftConsumeTime + h.meter.activeTime = compTime + (c.now - c.now)
      omega
    · exact Nat.le_add_right ..
  | consumes since place open' active left seen begun within =>
    rw [place] at resumes
    cases resumes
  | stops since place open' why left seen begun within =>
    rw [place] at resumes
    cases resumes
    simp only [exec, resume, consumeEnd] at ran
    split at ran
    next short =>
      have lost : c.store.activeSignal.current = false := by
        rcases why with lost | due
        · exact lost
        · omega
      refine consumeLoop_proceeds ?_ (fun active => ?_) (fun _ => Or.inl ?_) ran
      · show c.store.leftConsumeTime - (c.now - since) + h.meter.activeTime = compTime
        omega
      · exact absurd (lost.symm.trans active) Bool.false_ne_true
      · show 0 < c.store.leftConsumeTime - (c.now - since)
        omega
    next whole =>
      simp only [proceed, Option.some.injEq] at ran
      subst ran
      refine ⟨rfl, .ended (after_thread ..) c.now h.meter rfl ?_ seen ?_⟩
      · omega
      · exact measured.elapsed
  | ended place time m returned consumed seen elapsed =>
    rw [place] at resumes
    cases resumes

/-- What the environment leaves alone. -/
structure Untouched (c c' : ConsumptionConfig ι) : Prop where
  thread : c'.status .thread = c.status .thread
  left : c'.store.leftConsumeTime = c.store.leftConsumeTime
  active : c'.store.activeSignal.current = c.store.activeSignal.current
  now : c'.now = c.now

theorem Preemptive.congr (phase : Preemptive i start compTime c h) (same : Untouched c c') :
    Preemptive i start compTime c' h := by
  obtain ⟨thread, left, active, now⟩ := same
  cases phase with
  | calls place open' seen fresh =>
    exact .calls (thread.trans place) open' (seen.trans active.symm) fresh
  | waits place open' inactive rest more =>
    refine .waits (thread.trans place) open' (active.trans inactive) ?_ ?_
    · rw [left, rest]
    · rw [left]
      exact more
  | granted place open' granted rest seen =>
    refine .granted (thread.trans place) open' (active.trans granted) ?_ seen
    rw [left, rest]
  | consumes since place open' granted rest seen begun within =>
    rw [← left] at place rest within
    rw [← now] at rest begun within
    exact .consumes since (thread.trans place) open' (active.trans granted) rest seen begun within
  | stops since place open' why rest seen begun within =>
    rw [← left] at why rest within
    rw [← now] at why rest begun within
    rw [← active] at why
    exact .stops since (thread.trans place) open' why rest seen begun within
  | ended place time m returned consumed seen elapsed =>
    exact .ended (thread.trans place) time m returned consumed seen elapsed

/-- A delta ends a wait with an edge, or at its time. -/
theorem Preemptive.delta [DecidableEq ι] (phase : Preemptive i start compTime c h)
    (pending : c.pending = []) (quiet : ∀ p r, c.status p ≠ .ready r) :
    Preemptive i start compTime
      ⟨update c.store, fun p => (c.status p).wake
        ((consumptionSystem mode i compTime).fired c) c.now, [], c.now⟩
      (h.seen (update c.store).activeSignal.read) := by
  cases phase with
  | calls place => exact absurd place (quiet _ _)
  | granted place => exact absurd place (quiet _ _)
  | stops since place => exact absurd place (quiet _ _)
  | waits place open' inactive left more =>
    have fired : (consumptionSystem mode i compTime).fired c (.task i .activePosedge) =
        edge c.store .activePosedge := fired_eq pending _
    cases next : c.store.activeSignal.next with
    | true =>
      refine .granted ?_ open' next left ?_
      · show (c.status .thread).wake _ _ = _
        rw [place]
        apply Status.wake_blocked_of_fired _ (List.mem_singleton_self _)
        rw [fired]
        simp [edge, Signal.posedge, inactive, next]
      · simp [History.seen, next]
    | false =>
      refine .waits ?_ open' next left ?_
      · show (c.status .thread).wake _ _ = _
        rw [place]
        apply Status.wake_waiting
        rw [fired]
        simp [edge, Signal.posedge, inactive, next]
      · exact more.imp_right fun none => by simp [History.seen, none, next]
  | consumes since place open' active left seen begun within =>
    have fired : (consumptionSystem mode i compTime).fired c (.task i .activeNegedge) =
        edge c.store .activeNegedge := fired_eq pending _
    have seen' : (h.meter.granted || (update c.store).activeSignal.read) = true := by
      rw [seen, Bool.true_or]
    by_cases due : c.now = since + c.store.leftConsumeTime
    · refine .stops since ?_ open' (Or.inr due) left seen' begun within
      show (c.status .thread).wake _ _ = _
      rw [place, ← due]
      exact Status.wake_blocked_of_due
    · cases next : c.store.activeSignal.next with
      | false =>
        refine .stops since ?_ open' (Or.inl next) left seen' begun within
        show (c.status .thread).wake _ _ = _
        rw [place]
        apply Status.wake_blocked_of_fired _ (List.mem_singleton_self _)
        rw [fired]
        simp [edge, Signal.negedge, active, next]
      | true =>
        refine .consumes since ?_ open' next left seen' begun within
        show (c.status .thread).wake _ _ = _
        rw [place]
        apply Status.wake_blocked_of_silent
        · intro e mem
          rw [List.mem_singleton.mp mem, fired]
          simp [edge, Signal.negedge, active, next]
        · intro same
          exact due (Option.some.inj same).symm
  | ended place time m returned consumed seen elapsed =>
    refine .ended ?_ time m returned consumed seen elapsed
    show (c.status .thread).wake _ _ = _
    rw [place]
    exact Status.wake_idle

/-- Time is consumed while the signal is true. -/
theorem Preemptive.advance {time : ℕ} (phase : Preemptive i start compTime c h)
    (quiet : ∀ p r, c.status p ≠ .ready r) (later : c.now < time)
    (within' : ∀ p, (c.status p).latest time = true) :
    Preemptive i start compTime
      ⟨c.store, fun p => (c.status p).wake (fun _ => false) time, c.pending, time⟩
      (h.elapse c.store.activeSignal.read (time - c.now)) := by
  cases phase with
  | calls place => exact absurd place (quiet _ _)
  | granted place => exact absurd place (quiet _ _)
  | stops since place => exact absurd place (quiet _ _)
  | waits place open' inactive left more =>
    rw [Signal.read_eq, inactive]
    refine .waits ?_ open' inactive left more
    show (c.status .thread).wake _ _ = _
    rw [place]
    exact Status.wake_waiting rfl
  | consumes since place open' active left seen begun within =>
    rw [Signal.read_eq, active]
    have limit : time ≤ since + c.store.leftConsumeTime := by
      have latest := within' .thread
      rw [place] at latest
      simpa [Status.latest] using latest
    have left' : c.store.leftConsumeTime + (h.meter.activeTime + (time - c.now)) =
        compTime + (time - since) := by omega
    by_cases due : time = since + c.store.leftConsumeTime
    · refine .stops since ?_ open' (Or.inr due) left' seen (begun.trans later.le) limit
      show (c.status .thread).wake _ _ = _
      rw [place, ← due]
      exact Status.wake_blocked_of_due
    · refine .consumes since ?_ open' active left' seen (begun.trans later.le) limit
      show (c.status .thread).wake _ _ = _
      rw [place]
      apply Status.wake_blocked_of_silent
      · intro e mem
        rfl
      · intro same
        exact due (Option.some.inj same).symm
  | ended place time' m returned consumed seen elapsed =>
    refine .ended ?_ time' m returned consumed seen elapsed
    show (c.status .thread).wake _ _ = _
    rw [place]
    exact Status.wake_idle

/-! ### Without preemption -/

theorem Whole.proceeds (whole : mode.triggeringPolicy ≠ .preemptive)
    (phase : Whole start compTime c h) {r : Place} {choice : Bool}
    {seg : Segment (Event ι) Place TaskInfo} (resumes : (c.status .thread).resumable = some r)
    (ran : exec mode i compTime .thread r choice c.now c.store = some seg) :
    Proceeds (Whole start compTime) c h.meter seg := by
  cases phase with
  | calls place open' now =>
    rw [place] at resumes
    cases resumes
    simp only [exec, consume, whole, if_false, proceed, Option.some.injEq, Status.map] at ran
    subst ran
    refine ⟨rfl, .waits ?_ rfl ?_⟩
    · rw [after_thread, now]
    · show c.now ≤ start + compTime
      omega
  | waits place open' within =>
    rw [place] at resumes
    cases resumes
  | stops place open' now =>
    rw [place] at resumes
    cases resumes
    simp only [exec, resume, proceed, Option.some.injEq] at ran
    subst ran
    refine ⟨rfl, .ended (after_thread ..) h.meter ?_⟩
    rw [← now]
    rfl
  | ended place m returned =>
    rw [place] at resumes
    cases resumes

theorem Whole.congr (phase : Whole start compTime c h) (same : Untouched c c') :
    Whole start compTime c' h := by
  obtain ⟨thread, -, -, now⟩ := same
  cases phase with
  | calls place open' begun => exact .calls (thread.trans place) open' (now.trans begun)
  | waits place open' within => exact .waits (thread.trans place) open' (now.trans_le within)
  | stops place open' due => exact .stops (thread.trans place) open' (now.trans due)
  | ended place m returned => exact .ended (thread.trans place) m returned

/-- Deltas and the advance of time end the wait at its time. -/
theorem Whole.wake {time : ℕ} (phase : Whole start compTime c h)
    (quiet : ∀ p r, c.status p ≠ .ready r)
    (within' : time = c.now ∨ (c.status .thread).latest time = true) (fired : Event ι → Bool)
    (t : TaskInfo) (pending : List (Event ι)) (m : Meter) :
    Whole start compTime ⟨t, fun p => (c.status p).wake fired time, pending, time⟩
      ⟨m, h.returned⟩ := by
  cases phase with
  | calls place => exact absurd place (quiet _ _)
  | stops place => exact absurd place (quiet _ _)
  | waits place open' within =>
    have limit : time ≤ start + compTime := by
      rcases within' with rfl | latest
      · exact within
      · rw [place] at latest
        simpa [Status.latest] using latest
    by_cases due : time = start + compTime
    · refine .stops ?_ open' due
      show (c.status .thread).wake _ _ = _
      rw [place, ← due]
      exact Status.wake_blocked_of_due
    · refine .waits ?_ open' limit
      show (c.status .thread).wake _ _ = _
      rw [place]
      exact Status.wake_timed due
  | ended place m' returned =>
    refine .ended ?_ m' returned
    show (c.status .thread).wake _ _ = _
    rw [place]
    exact Status.wake_idle

/-! ### The runs of a call -/

/-- A phase that every step keeps, with the meter. -/
theorem phase_of_run [DecidableEq ι] {phase : ConsumptionConfig ι → History → Prop}
    (thread : ∀ c h r choice seg, phase c h → Measured start c h →
      (c.status .thread).resumable = some r →
      exec mode i compTime .thread r choice c.now c.store = some seg →
      Proceeds phase c h.meter seg)
    (environment : ∀ c c' h, phase c h → Untouched c c' → phase c' h)
    (delta : ∀ c h, phase c h → c.pending = [] → (∀ p r, c.status p ≠ .ready r) →
      phase ⟨update c.store, fun p => (c.status p).wake
        ((consumptionSystem mode i compTime).fired c) c.now, [], c.now⟩
        (h.seen (update c.store).activeSignal.read))
    (advance : ∀ c h time, phase c h → (∀ p r, c.status p ≠ .ready r) → c.now < time →
      (∀ p, (c.status p).latest time = true) →
      phase ⟨c.store, fun p => (c.status p).wake (fun _ => false) time, c.pending, time⟩
        (h.elapse c.store.activeSignal.read (time - c.now)))
    {t : TaskInfo} (begins : phase (calling start t) (unread t)) {labels : List ConsumptionLabel}
    {x : ConsumptionConfig ι × History}
    (reach : run (recording (consumptionSystem mode i compTime).step note)
      (calling start t, unread t) labels = some x) :
    phase x.1 x.2 ∧ Measured start x.1 x.2 := by
  have keep : ∀ (x : ConsumptionConfig ι × History) (l : ConsumptionLabel)
      (y : ConsumptionConfig ι × History), phase x.1 x.2 ∧ Measured start x.1 x.2 → True →
      recording (consumptionSystem mode i compTime).step note x l = some y →
      phase y.1 y.2 ∧ Measured start y.1 y.2 := by
    rintro ⟨c, h⟩ l ⟨c', h'⟩ ⟨holds, measured⟩ - taken
    obtain ⟨stepped, noted⟩ := recording_eq_some.mp taken
    dsimp only at holds measured stepped noted ⊢
    rw [noted]
    cases l with
    | eval p choice =>
      obtain ⟨r, seg, resumes, ran, rfl⟩ := System.step_eval_eq_some.mp stepped
      cases p with
      | thread =>
        have proceeds := thread c h r choice seg holds measured resumes ran
        have recorded : note c (.eval .thread choice) (after c seg) h =
            ⟨h.meter, if seg.status.point = .inside .ended then some (c.now, h.meter) else none⟩ := by
          rw [note, after_thread]
        show phase (after c seg) (note c (.eval .thread choice) (after c seg) h) ∧
          Measured start (after c seg) (note c (.eval .thread choice) (after c seg) h)
        rw [recorded]
        refine ⟨proceeds.phase, measured.elapsed, ?_, ?_⟩
        · show seg.notified ++ c.pending = []
          rw [proceeds.notified, measured.pending, List.nil_append]
        · rw [after_environment, measured.environment]
      | environment =>
        rw [measured.environment] at resumes
        cases resumes
        cases ran
        refine ⟨environment c _ h holds ?_, measured.elapsed, measured.pending, ?_⟩
        · exact ⟨by simp, rfl, rfl, rfl⟩
        · simp
    | delta =>
      obtain ⟨quiet, rfl⟩ := System.step_delta_eq_some.mp stepped
      refine ⟨delta c h holds measured.pending (System.quiet_iff.mp quiet), measured.elapsed, rfl, ?_⟩
      show (c.status .environment).wake _ _ = _
      rw [measured.environment, Status.wake_free]
    | advance time =>
      obtain ⟨⟨stable, later, within⟩, rfl⟩ := System.step_advance_eq_some.mp stepped
      have quiet := (System.stable_iff.mp stable).1
      refine ⟨advance c h time holds quiet later within, ?_, measured.pending, ?_⟩
      · have elapsed := measured.elapsed
        simp only [note, History.elapse]
        split <;> dsimp only <;> omega
      · show (c.status .environment).wake _ _ = _
        rw [measured.environment, Status.wake_free]
  have measured : Measured start (calling (ι := ι) start t) (unread t) := by
    refine ⟨?_, rfl, rfl⟩
    rfl
  exact run_invariant keep ⟨begins, measured⟩ (along_of_forall fun _ _ => trivial) reach

theorem preemptive_of_run [DecidableEq ι] (preemptive : mode.triggeringPolicy = .preemptive)
    {t : TaskInfo} {labels : List ConsumptionLabel}
    (reach : run (recording (consumptionSystem mode i compTime).step note)
      (calling start t, unread t) labels = some (c, h)) :
    Preemptive i start compTime c h ∧ Measured start c h := by
  apply phase_of_run (fun c h r choice seg phase measured => phase.proceeds preemptive measured)
    (fun c c' h phase => phase.congr) (fun c h phase => phase.delta)
    (fun c h time phase => phase.advance) _ reach
  exact .calls rfl rfl rfl rfl

theorem whole_of_run [DecidableEq ι] (whole : mode.triggeringPolicy ≠ .preemptive)
    {t : TaskInfo} {labels : List ConsumptionLabel}
    (reach : run (recording (consumptionSystem mode i compTime).step note)
      (calling start t, unread t) labels = some (c, h)) : Whole start compTime c h := by
  refine (phase_of_run (fun c h r choice seg phase _ => phase.proceeds whole)
    (fun c c' h phase => phase.congr)
    (fun c h phase _ quiet => phase.wake quiet (Or.inl rfl) _ _ _ _)
    (fun c h time phase quiet _ within => phase.wake quiet (Or.inr (within _)) _ _ _ _) ?_ reach).1
  exact .calls rfl rfl rfl

theorem Preemptive.unfinished [DecidableEq ι] (phase : Preemptive i start compTime c h)
    (open' : h.returned = none) (stable : (consumptionSystem mode i compTime).stable c = true) :
    ¬ (h.meter.activeTime = compTime ∧ h.meter.granted = true) := by
  obtain ⟨quiet, -, -, undue⟩ := System.stable_iff.mp stable
  rintro ⟨consumed, seen⟩
  cases phase with
  | calls place => exact quiet _ _ place
  | granted place => exact quiet _ _ place
  | stops since place => exact quiet _ _ place
  | waits place _ inactive left more =>
    rcases more with more | unseen
    · omega
    · exact Bool.false_ne_true (unseen.symm.trans seen)
  | consumes since place _ active left _ begun within =>
    apply undue _ _ _ _ place
    congr 1
    omega
  | ended place time m returned => exact absurd (open'.symm.trans returned) nofun

theorem Whole.unfinished [DecidableEq ι] (phase : Whole start compTime c h)
    (open' : h.returned = none) (stable : (consumptionSystem mode i compTime).stable c = true) :
    c.now < start + compTime := by
  obtain ⟨quiet, -, -, undue⟩ := System.stable_iff.mp stable
  cases phase with
  | calls place => exact absurd place (quiet _ _)
  | stops place => exact absurd place (quiet _ _)
  | waits place _ within =>
    apply lt_of_le_of_ne within
    intro due
    exact undue _ _ _ _ place (congrArg some due.symm)
  | ended place m returned => exact absurd (open'.symm.trans returned) nofun

/-- A preemptive consumption returns when the time with the processor is the time asked for and
the processor has been there at all, and it does not outlast that instant; one that is not
preemptive returns after the time asked for. -/
theorem consume_conserves [DecidableEq ι] {t : TaskInfo} {labels : List ConsumptionLabel}
    (reach : run (recording (consumptionSystem mode i compTime).step note)
      (calling start t, unread t) labels = some (c, h)) :
    (mode.triggeringPolicy = .preemptive →
      (∀ time m, h.returned = some (time, m) →
        m.activeTime = compTime ∧ m.granted = true ∧ time = start + compTime + m.inactiveTime) ∧
      (h.returned = none → (consumptionSystem mode i compTime).stable c = true →
        ¬ (h.meter.activeTime = compTime ∧ h.meter.granted = true))) ∧
    (mode.triggeringPolicy ≠ .preemptive →
      (∀ time m, h.returned = some (time, m) → time = start + compTime) ∧
      (h.returned = none → (consumptionSystem mode i compTime).stable c = true →
        c.now < start + compTime)) := by
  constructor
  · intro preemptive
    obtain ⟨phase, -⟩ := preemptive_of_run preemptive reach
    refine ⟨fun time m returned => ?_, phase.unfinished⟩
    cases phase with
    | ended place time' m' returned' consumed seen elapsed =>
      rw [returned', Option.some.injEq, Prod.mk.injEq] at returned
      obtain ⟨rfl, rfl⟩ := returned
      exact ⟨consumed, seen, by omega⟩
    | calls place open' => exact absurd (open'.symm.trans returned) nofun
    | waits place open' => exact absurd (open'.symm.trans returned) nofun
    | granted place open' => exact absurd (open'.symm.trans returned) nofun
    | consumes since place open' => exact absurd (open'.symm.trans returned) nofun
    | stops since place open' => exact absurd (open'.symm.trans returned) nofun
  · intro whole
    have phase := whole_of_run whole reach
    refine ⟨fun time m returned => ?_, phase.unfinished⟩
    cases phase with
    | ended place m' returned' =>
      rw [returned', Option.some.injEq, Prod.mk.injEq] at returned
      exact returned.1.symm
    | calls place open' => exact absurd (open'.symm.trans returned) nofun
    | waits place open' => exact absurd (open'.symm.trans returned) nofun
    | stops place open' => exact absurd (open'.symm.trans returned) nofun

end Steps

def preemptiveMode : Mode := ⟨.staticPriorities, .preemptive⟩

/-- Three time units of consumption, preempted from two to four. -/
def preemptedOnce : List ConsumptionLabel :=
  [.eval .thread false, .delta, .advance 2, .eval .environment false, .delta, .eval .thread false,
    .delta, .advance 4, .eval .environment true, .delta, .eval .thread false, .delta, .advance 5,
    .eval .thread false]

theorem preemptedOnce_conserves :
    ∃ c h m, run (recording (consumptionSystem preemptiveMode () 3).step note)
        (calling 0 { init with activeSignal := .init true },
          unread { init with activeSignal := .init true }) preemptedOnce = some (c, h) ∧
      h.returned = some (5, m) ∧ m.activeTime = 3 := by
  have values : (run (recording (consumptionSystem preemptiveMode () 3).step note)
      (calling 0 { init with activeSignal := .init true },
        unread { init with activeSignal := .init true }) preemptedOnce).map
      (fun x => x.2.returned.map Prod.fst) = some (some 5) := by decide +kernel
  obtain ⟨⟨c, h⟩, reach, read⟩ := Option.map_eq_some_iff.mp values
  obtain ⟨⟨time, m⟩, returned, rfl⟩ := Option.map_eq_some_iff.mp read
  obtain ⟨consumed, -, -⟩ := ((consume_conserves reach).1 rfl).1 _ m returned
  exact ⟨c, h, m, reach, returned, consumed⟩

/-- A call for no time at all, without the processor: at five the thread still waits. -/
theorem emptyCall_waits :
    (run (recording (consumptionSystem preemptiveMode () 0).step note)
      (calling 0 init, unread init) [.eval .thread false, .delta, .advance 5]).map
      (fun x => (x.1.now, x.2.returned, x.2.meter.activeTime)) = some (5, none, 0) := by
  decide +kernel

end Kista.Scheduling.Consumption
