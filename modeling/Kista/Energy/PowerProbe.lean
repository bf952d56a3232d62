/- Kista/Energy/PowerProbe
   source: src/src/energy_power/power_measurement_probe.cpp, src/src/processing_element.cpp,
           src/src/scheduler.cpp, src/src/task_info_t.cpp
   digest: The energy that a processing element accounts for, its average over the windows of a
   probe, and exactly when this stays within the physical maximum. -/

import Mathlib.Algebra.BigOperators.Fin
import Mathlib.Data.Fintype.BigOperators
import Mathlib.Tactic.FieldSimp
import Mathlib.Tactic.Linarith
import Mathlib.Tactic.Positivity
import Mathlib.Tactic.Ring
import Kista.Kernel.Run
import Kista.Scheduling.Occupation

set_option autoImplicit false
set_option relaxedAutoImplicit false

/-!
Energy is credited to a task when it stops executing, and to the scheduler when it has scheduled.
Times are counted in ticks of the simulation; energy and power are exact.
-/

namespace Kista.Energy.PowerProbe

open Kernel.Run Scheduling.Dispatch Scheduling.Occupation
open scoped BigOperators

structure ProcessingElement where
  staticPowerConsWatt : ℚ
  julesPerInstruction : ℚ
  cpi : ℚ
  clockPeriodNs : ℚ

def ProcessingElement.peakDynPowerWatts (pe : ProcessingElement) : ℚ :=
  pe.julesPerInstruction * 1000000000 / (pe.cpi * pe.clockPeriodNs)

/-- An element, the length of a tick in seconds and the averaging time of its probe. -/
structure Setting where
  pe : ProcessingElement
  resolution : ℚ
  averagingTime : ℕ
  resolution_pos : 0 < resolution
  averagingTime_pos : 0 < averagingTime

def Setting.toSeconds (m : Setting) (t : ℕ) : ℚ := t * m.resolution

structure TaskMeter where
  stateSignal : TaskState
  occupation : OccupationInfo
  consumedEnergyJ : ℚ

/-- A scheduler that waits for its scheduling time. -/
structure SchedulingInterval where
  start : ℕ
  schedulingTime : ℕ

/-- What `power_accounter_proc` holds, and how many windows it has measured. -/
structure ProbeState where
  windows : ℕ
  previousTotalConsumedEnergyJ : ℚ
  currAvPowerW : ℚ
  peakAvPowerW : ℚ

/-- One turn of the loop of `power_measurement_probe::power_accounter_proc`. -/
def probeTurn (seconds consumed : ℚ) (p : ProbeState) : ProbeState :=
  let average := (consumed - p.previousTotalConsumedEnergyJ) / seconds
  { windows := p.windows + 1
    previousTotalConsumedEnergyJ := consumed
    currAvPowerW := average
    peakAvPowerW := if p.peakAvPowerW < average then average else p.peakAvPowerW }

structure ElementState (ι : Type) where
  now : ℕ
  tasks : ι → TaskMeter
  scheduling : Option SchedulingInterval
  schedCompTime : ℕ
  probe : ProbeState

/-- `account_occupation_time_proc` with the energy that it credits. -/
def TaskMeter.change (m : Setting) (now : ℕ) (state : TaskState) (task : TaskMeter) : TaskMeter :=
  let occupation := accountOccupationTimeProc task.occupation now state
  { stateSignal := state
    occupation := occupation
    consumedEnergyJ :=
      if state ≠ .executing ∧ task.occupation.prevIncState = .executing then
        m.toSeconds occupation.occupationTime * m.pe.peakDynPowerWatts
      else task.consumedEnergyJ }

variable {ι : Type} [Fintype ι]

/-- The energy of the scheduler and of each of its tasks. -/
def getConsumedDynamicEnergyJ (m : Setting) (s : ElementState ι) : ℚ :=
  m.toSeconds s.schedCompTime * m.pe.peakDynPowerWatts + ∑ i, (s.tasks i).consumedEnergyJ

def getConsumedStaticEnergyJ (m : Setting) (s : ElementState ι) : ℚ :=
  if 0 < s.now then m.pe.staticPowerConsWatt * m.toSeconds s.now else 0

def getConsumedEnergyJ (m : Setting) (s : ElementState ι) : ℚ :=
  getConsumedDynamicEnergyJ m s + getConsumedStaticEnergyJ m s

/-- The turn of a simulated element. -/
def measure (m : Setting) (s : ElementState ι) : ProbeState :=
  probeTurn (m.toSeconds m.averagingTime) (getConsumedEnergyJ m s) s.probe

inductive Event (ι : Type) where
  | stateChange (i : ι) (state : TaskState)
  | schedulingStart (schedulingTime : ℕ)
  | schedulingEnd
  | measure
  | advance (time : ℕ)

/-- Time stops at the end of each window and of each scheduling, for what happens there. -/
def step [DecidableEq ι] (m : Setting) (s : ElementState ι) : Event ι → Option (ElementState ι)
  | .stateChange i state =>
    if (s.tasks i).stateSignal = state then none
    else some { s with tasks := Function.update s.tasks i ((s.tasks i).change m s.now state) }
  | .schedulingStart schedulingTime =>
    if s.scheduling.isNone ∧ 0 < schedulingTime then
      some { s with scheduling := some ⟨s.now, schedulingTime⟩ }
    else none
  | .schedulingEnd =>
    s.scheduling.bind fun q =>
      if s.now = q.start + q.schedulingTime then
        some { s with scheduling := none, schedCompTime := s.schedCompTime + q.schedulingTime }
      else none
  | .measure =>
    if s.now = (s.probe.windows + 1) * m.averagingTime then some { s with probe := measure m s }
    else none
  | .advance time =>
    if s.now < time ∧ time ≤ (s.probe.windows + 1) * m.averagingTime ∧
        ∀ q ∈ s.scheduling, time ≤ q.start + q.schedulingTime then
      some { s with now := time }
    else none

/-- The start of a simulation, after the initial run of each process. -/
def simulationStart (prevIncState : ι → TaskState) : ElementState ι where
  now := 0
  tasks i := ⟨.ready, initialized (prevIncState i), 0⟩
  scheduling := none
  schedCompTime := 0
  probe := ⟨0, 0, 0, 0⟩

/-- How many tasks are EXECUTING, with one more while the scheduler is SCHEDULING. -/
def active (s : ElementState ι) : ℕ :=
  (∑ i, if (s.tasks i).stateSignal = .executing then 1 else 0) +
    if s.scheduling.isSome then 1 else 0

/-- The processor has one user at a time. -/
def Exclusive (s : ElementState ι) : Event ι → Prop
  | .advance _ => active s ≤ 1
  | _ => True

instance (s : ElementState ι) : (e : Event ι) → Decidable (Exclusive s e)
  | .advance _ => inferInstanceAs (Decidable (active s ≤ 1))
  | .stateChange _ _ | .schedulingStart _ | .schedulingEnd | .measure =>
    inferInstanceAs (Decidable True)

/-- The time of the execution interval that a task is in. -/
def TaskMeter.uncredited (now : ℕ) (task : TaskMeter) : ℕ :=
  if task.occupation.prevIncState = .executing then
    now - task.occupation.occupationIntervalStartTime
  else 0

/-- The time of the intervals that are not over yet. -/
def uncredited (s : ElementState ι) : ℕ :=
  (s.scheduling.elim 0 fun q => s.now - q.start) + ∑ i, (s.tasks i).uncredited s.now

def credited (s : ElementState ι) : ℕ :=
  s.schedCompTime + ∑ i, (s.tasks i).occupation.occupationTime

/-- What happened before the window, and in it: the time of the intervals open at its start, up to
there, and the time in which the processor was free. -/
structure Window where
  credited : ℕ
  carried : ℕ
  idle : ℕ

def note (s : ElementState ι) (e : Event ι) (_ : ElementState ι) (w : Window) : Window :=
  match e with
  | .measure => ⟨credited s, uncredited s, 0⟩
  | .advance time => { w with idle := w.idle + if active s = 0 then time - s.now else 0 }
  | _ => w

/-- A task knows since when it is executing, and its energy is that of its occupation time. -/
structure TaskMeter.Sound (m : Setting) (now : ℕ) (task : TaskMeter) : Prop where
  state : task.occupation.prevIncState = task.stateSignal
  started : task.occupation.prevIncState = .executing →
    task.occupation.occupationIntervalStartTime ≤ now
  energy : task.consumedEnergyJ =
    m.toSeconds task.occupation.occupationTime * m.pe.peakDynPowerWatts

structure Sound (m : Setting) (s : ElementState ι) : Prop where
  tasks : ∀ i, (s.tasks i).Sound m s.now
  started : ∀ q ∈ s.scheduling, q.start ≤ s.now

/-- All time since the start of the window is that of an interval, or idle; and what was credited
at its start is what the probe keeps. -/
structure Balanced (m : Setting) (s : ElementState ι) (w : Window) : Prop where
  time : w.credited + w.carried + s.now =
    credited s + uncredited s + w.idle + s.probe.windows * m.averagingTime
  energy : s.probe.previousTotalConsumedEnergyJ =
    m.toSeconds w.credited * m.pe.peakDynPowerWatts +
      m.pe.staticPowerConsWatt * m.toSeconds (s.probe.windows * m.averagingTime)

/-! ### The tasks -/

theorem TaskMeter.Sound.change {m : Setting} {now : ℕ} {task : TaskMeter} (h : task.Sound m now)
    {state : TaskState} (changes : task.stateSignal ≠ state) :
    (task.change m now state).Sound m now ∧
      (task.change m now state).occupation.occupationTime + (task.change m now state).uncredited now =
        task.occupation.occupationTime + task.uncredited now := by
  have known := h.state
  by_cases executing : state = .executing
  · have idle : task.occupation.prevIncState ≠ .executing := by
      rw [known, ← executing]
      exact changes
    refine ⟨⟨?_, ?_, ?_⟩, ?_⟩
    · simp [TaskMeter.change, accountOccupationTimeProc, executing]
    · simp [TaskMeter.change, accountOccupationTimeProc, executing]
    · simpa [TaskMeter.change, accountOccupationTimeProc, executing] using h.energy
    · simp [TaskMeter.change, TaskMeter.uncredited, accountOccupationTimeProc, executing, idle]
  · refine ⟨⟨?_, ?_, ?_⟩, ?_⟩
    · simp [TaskMeter.change, accountOccupationTimeProc, executing]
    · simp [TaskMeter.change, accountOccupationTimeProc, executing]
    · by_cases interval : task.occupation.prevIncState = .executing
      · simp [TaskMeter.change, accountOccupationTimeProc, executing, interval]
      · simpa [TaskMeter.change, accountOccupationTimeProc, executing, interval] using h.energy
    · by_cases interval : task.occupation.prevIncState = .executing
      · simp [TaskMeter.change, TaskMeter.uncredited, accountOccupationTimeProc, executing, interval]
      · simp [TaskMeter.change, TaskMeter.uncredited, accountOccupationTimeProc, executing, interval]

theorem TaskMeter.Sound.later {m : Setting} {now : ℕ} {task : TaskMeter} (h : task.Sound m now)
    {time : ℕ} (later : now ≤ time) :
    task.Sound m time ∧ task.uncredited time =
      task.uncredited now + (time - now) * if task.stateSignal = .executing then 1 else 0 := by
  refine ⟨⟨h.state, fun executing => (h.started executing).trans later, h.energy⟩, ?_⟩
  rw [TaskMeter.uncredited, TaskMeter.uncredited, ← h.state]
  by_cases executing : task.occupation.prevIncState = .executing
  · have started := h.started executing
    simp only [executing, if_true]
    omega
  · simp only [executing, if_false, Nat.mul_zero]

/-! ### The steps -/

omit [Fintype ι] in
theorem sound_start (m : Setting) (prevIncState : ι → TaskState) :
    Sound m (simulationStart prevIncState) where
  tasks i := by
    refine ⟨rfl, nofun, ?_⟩
    cases prevIncState i <;>
      simp [simulationStart, initialized, accountOccupationTimeProc, Setting.toSeconds]
  started := nofun

theorem uncredited_start (prevIncState : ι → TaskState) :
    credited (simulationStart prevIncState) = 0 ∧ uncredited (simulationStart prevIncState) = 0 := by
  constructor
  · simp only [credited, simulationStart, Nat.zero_add]
    apply Finset.sum_eq_zero
    intro i _
    cases prevIncState i <;> rfl
  · simp only [uncredited, simulationStart, Option.elim, Nat.zero_add]
    exact Finset.sum_eq_zero fun i _ => rfl

/-- The two sums together: an event that closes an interval moves its time from one to the other. -/
theorem credited_add_uncredited (s : ElementState ι) :
    credited s + uncredited s = (s.schedCompTime + s.scheduling.elim 0 fun q => s.now - q.start) +
      ∑ i, ((s.tasks i).occupation.occupationTime + (s.tasks i).uncredited s.now) := by
  rw [credited, uncredited, Finset.sum_add_distrib]
  omega

theorem uncredited_advance {m : Setting} {s : ElementState ι} (h : Sound m s) {time : ℕ}
    (later : s.now ≤ time) :
    uncredited { s with now := time } = uncredited s + (time - s.now) * active s := by
  have tasks : ∑ i, (s.tasks i).uncredited time = ∑ i, (s.tasks i).uncredited s.now +
      (time - s.now) * ∑ i, if (s.tasks i).stateSignal = .executing then 1 else 0 := by
    rw [Finset.mul_sum, ← Finset.sum_add_distrib]
    exact Finset.sum_congr rfl fun i _ => ((h.tasks i).later later).2
  rw [uncredited, uncredited, active, Nat.mul_add]
  simp only [tasks]
  cases scheduling : s.scheduling with
  | none => simp
  | some q =>
    have started := h.started q scheduling
    simp only [Option.elim, Option.isSome_some, if_true]
    omega

section Steps

variable [DecidableEq ι] {m : Setting} {s s' : ElementState ι} {w : Window}

/-- What an event does where it can happen. -/
inductive Taken (m : Setting) (s : ElementState ι) : Event ι → ElementState ι → Prop
  | stateChange (i : ι) (state : TaskState) (changes : (s.tasks i).stateSignal ≠ state) :
    Taken m s (.stateChange i state)
      { s with tasks := Function.update s.tasks i ((s.tasks i).change m s.now state) }
  | schedulingStart (schedulingTime : ℕ) (free : s.scheduling = none) :
    Taken m s (.schedulingStart schedulingTime)
      { s with scheduling := some ⟨s.now, schedulingTime⟩ }
  | schedulingEnd (q : SchedulingInterval) (scheduling : s.scheduling = some q)
      (ends : s.now = q.start + q.schedulingTime) :
    Taken m s .schedulingEnd
      { s with scheduling := none, schedCompTime := s.schedCompTime + q.schedulingTime }
  | measure (window : s.now = (s.probe.windows + 1) * m.averagingTime) :
    Taken m s .measure { s with probe := PowerProbe.measure m s }
  | advance (time : ℕ) (later : s.now < time) : Taken m s (.advance time) { s with now := time }

theorem step_taken {e : Event ι} (taken : step m s e = some s') : Taken m s e s' := by
  cases e with
  | stateChange i state =>
    simp only [step, Option.ite_none_left_eq_some, Option.some.injEq] at taken
    obtain ⟨changes, rfl⟩ := taken
    exact .stateChange i state changes
  | schedulingStart schedulingTime =>
    simp only [step, Option.ite_none_right_eq_some, Option.some.injEq] at taken
    obtain ⟨⟨free, -⟩, rfl⟩ := taken
    exact .schedulingStart schedulingTime (Option.isNone_iff_eq_none.mp free)
  | schedulingEnd =>
    simp only [step, Option.bind_eq_some_iff, Option.ite_none_right_eq_some,
      Option.some.injEq] at taken
    obtain ⟨q, scheduling, ends, rfl⟩ := taken
    exact .schedulingEnd q scheduling ends
  | measure =>
    simp only [step, Option.ite_none_right_eq_some, Option.some.injEq] at taken
    obtain ⟨window, rfl⟩ := taken
    exact .measure window
  | advance time =>
    simp only [step, Option.ite_none_right_eq_some, Option.some.injEq] at taken
    obtain ⟨⟨later, -, -⟩, rfl⟩ := taken
    exact .advance time later

theorem sound_step {e : Event ι} (h : Sound m s) (taken : step m s e = some s') : Sound m s' := by
  cases step_taken taken with
  | stateChange i state changes =>
    refine ⟨fun j => ?_, h.started⟩
    by_cases same : j = i
    · subst same
      simpa using ((h.tasks j).change changes).1
    · simpa [Function.update_of_ne same] using h.tasks j
  | schedulingStart schedulingTime free => exact ⟨h.tasks, by simp⟩
  | schedulingEnd q scheduling ends => exact ⟨h.tasks, nofun⟩
  | measure window => exact ⟨h.tasks, h.started⟩
  | advance time later =>
    exact ⟨fun i => ((h.tasks i).later later.le).1, fun q mem => (h.started q mem).trans later.le⟩

omit [DecidableEq ι] in
/-- The energy accounted for, from the time that is credited. -/
theorem getConsumedEnergyJ_eq (h : Sound m s) :
    getConsumedEnergyJ m s = m.toSeconds (credited s) * m.pe.peakDynPowerWatts +
      m.pe.staticPowerConsWatt * m.toSeconds s.now := by
  have tasks : ∑ i, (s.tasks i).consumedEnergyJ =
      m.toSeconds (∑ i, (s.tasks i).occupation.occupationTime) * m.pe.peakDynPowerWatts := by
    rw [Setting.toSeconds, Nat.cast_sum, Finset.sum_mul, Finset.sum_mul]
    exact Finset.sum_congr rfl fun i _ => (h.tasks i).energy
  have static : getConsumedStaticEnergyJ m s =
      m.pe.staticPowerConsWatt * m.toSeconds s.now := by
    rw [getConsumedStaticEnergyJ]
    split
    next => rfl
    next none =>
      rw [Nat.eq_zero_of_not_pos none, Setting.toSeconds, Nat.cast_zero, zero_mul, mul_zero]
  rw [getConsumedEnergyJ, getConsumedDynamicEnergyJ, tasks, static, credited]
  simp only [Setting.toSeconds, Nat.cast_add]
  ring

theorem Balanced.step {e : Event ι} (sound : Sound m s) (h : Balanced m s w)
    (exclusive : Exclusive s e) (taken : step m s e = some s') :
    Balanced m s' (note s e s' w) := by
  have time := h.time
  rw [Nat.add_assoc (credited s + uncredited s), credited_add_uncredited] at time
  cases step_taken taken with
  | stateChange i state changes =>
    refine ⟨?_, h.energy⟩
    rw [Nat.add_assoc (credited _ + uncredited _), credited_add_uncredited]
    simp only [note]
    rw [time]
    congr 2
    apply Finset.sum_congr rfl
    intro j _
    by_cases same : j = i
    · subst same
      simpa using ((sound.tasks j).change changes).2.symm
    · simp [Function.update_of_ne same]
  | schedulingStart schedulingTime free =>
    refine ⟨?_, h.energy⟩
    rw [Nat.add_assoc (credited _ + uncredited _), credited_add_uncredited]
    rw [free] at time
    simpa [note] using time
  | schedulingEnd q scheduling ends =>
    refine ⟨?_, h.energy⟩
    rw [Nat.add_assoc (credited _ + uncredited _), credited_add_uncredited]
    rw [scheduling, Option.elim, ends, Nat.add_sub_cancel_left] at time
    simp only [note, Option.elim, ends] at time ⊢
    omega
  | measure window =>
    refine ⟨?_, ?_⟩
    · show credited s + uncredited s + s.now = credited s + uncredited s + 0 +
        (s.probe.windows + 1) * m.averagingTime
      rw [Nat.add_zero, window]
    · show getConsumedEnergyJ m s = _
      rw [getConsumedEnergyJ_eq sound, window]
      rfl
  | advance limit later =>
    refine ⟨?_, h.energy⟩
    have same : credited { s with now := limit } = credited s := rfl
    have grown := uncredited_advance sound later.le
    have time := h.time
    have one : active s ≤ 1 := exclusive
    rw [same, grown]
    simp only [note]
    rcases Nat.le_one_iff_eq_zero_or_eq_one.mp one with free | busy
    · rw [free, if_pos rfl]
      omega
    · rw [busy, if_neg Nat.one_ne_zero]
      omega

end Steps

/-! ### The windows -/

/-- What holds in every state of a run in which the processor has one user at a time. -/
theorem balanced_of_run [DecidableEq ι] {m : Setting} {prevIncState : ι → TaskState}
    {events : List (Event ι)} {x : ElementState ι × Window}
    (along : Along (step m) Exclusive (simulationStart prevIncState) events)
    (reach : run (recording (step m) note) (simulationStart prevIncState, ⟨0, 0, 0⟩) events =
      some x) : Sound m x.1 ∧ Balanced m x.1 x.2 := by
  have keep : ∀ (x : ElementState ι × Window) (e : Event ι) (y : ElementState ι × Window),
      Sound m x.1 ∧ Balanced m x.1 x.2 → Exclusive x.1 e →
      recording (step m) note x e = some y → Sound m y.1 ∧ Balanced m y.1 y.2 := by
    rintro x e y ⟨sound, balanced⟩ exclusive taken
    obtain ⟨step, noted⟩ := recording_eq_some.mp taken
    refine ⟨sound_step sound step, ?_⟩
    rw [noted]
    exact balanced.step sound exclusive step
  have balanced : Balanced m (simulationStart prevIncState) ⟨0, 0, 0⟩ := by
    constructor
    · rw [(uncredited_start prevIncState).1, (uncredited_start prevIncState).2]
      simp [simulationStart]
    · simp [simulationStart, Setting.toSeconds]
  exact run_invariant keep ⟨sound_start m prevIncState, balanced⟩ (along_recording.mpr along) reach

/-- The power of a window is what the credited share of it makes of the dynamic power. -/
theorem currAvPowerW_eq {m : Setting} {s : ElementState ι} {w : Window} (sound : Sound m s)
    (balanced : Balanced m s w) (window : s.now = (s.probe.windows + 1) * m.averagingTime) :
    (measure m s).currAvPowerW = m.pe.staticPowerConsWatt + m.pe.peakDynPowerWatts *
      ((m.averagingTime + w.carried - (w.idle + uncredited s)) / m.averagingTime) := by
  have tick := m.resolution_pos
  have length : (0 : ℚ) < m.averagingTime := by exact_mod_cast m.averagingTime_pos
  have time : (w.credited : ℚ) + w.carried + (s.probe.windows + 1) * m.averagingTime =
      credited s + uncredited s + w.idle + s.probe.windows * m.averagingTime := by
    have time := balanced.time
    rw [window] at time
    exact_mod_cast time
  have gained : (credited s : ℚ) =
      w.credited + (m.averagingTime + w.carried - (w.idle + uncredited s)) := by
    linarith
  show (getConsumedEnergyJ m s - s.probe.previousTotalConsumedEnergyJ) /
    m.toSeconds m.averagingTime = _
  rw [getConsumedEnergyJ_eq sound, balanced.energy, window]
  simp only [Setting.toSeconds, gained, Nat.cast_mul, Nat.cast_add, Nat.cast_one]
  field_simp
  ring

theorem add_mul_le_add_iff {static peak share : ℚ} :
    static + peak * share ≤ static + peak ↔
      (0 < peak → share ≤ 1) ∧ (peak < 0 → 1 ≤ share) := by
  rw [add_le_add_iff_left]
  rcases lt_trichotomy peak 0 with negative | zero | positive
  · have reversed : peak * share ≤ peak ↔ 1 ≤ share := by
      constructor <;> intro bound <;> nlinarith
    simp [negative, negative.not_gt, reversed]
  · simp [zero]
  · simp [positive, positive.not_gt, mul_le_iff_le_one_right]

/-- In a window, the power is within the physical maximum exactly when the intervals that come
into it bring no more time than is idle in it or leaves it in intervals still open. -/
theorem window_power_le_iff [DecidableEq ι] {m : Setting} {prevIncState : ι → TaskState}
    {events : List (Event ι)} {s : ElementState ι} {w : Window}
    (along : Along (step m) Exclusive (simulationStart prevIncState) events)
    (reach : run (recording (step m) note) (simulationStart prevIncState, ⟨0, 0, 0⟩) events =
      some (s, w))
    {s' : ElementState ι} (measured : step m s .measure = some s') :
    s'.probe.currAvPowerW ≤ m.pe.staticPowerConsWatt + m.pe.peakDynPowerWatts ↔
      (0 < m.pe.peakDynPowerWatts → w.carried ≤ w.idle + uncredited s) ∧
        (m.pe.peakDynPowerWatts < 0 → w.idle + uncredited s ≤ w.carried) := by
  obtain ⟨sound, balanced⟩ := balanced_of_run along reach
  simp only [step, Option.ite_none_right_eq_some, Option.some.injEq] at measured
  obtain ⟨window, rfl⟩ := measured
  have length : (0 : ℚ) < m.averagingTime := by exact_mod_cast m.averagingTime_pos
  have share_le : ((m.averagingTime : ℚ) + w.carried - (w.idle + uncredited s)) / m.averagingTime
      ≤ 1 ↔ w.carried ≤ w.idle + uncredited s := by
    rw [div_le_one length, ← Nat.cast_le (α := ℚ), Nat.cast_add]
    constructor <;> intro bound <;> linarith
  have le_share : 1 ≤ ((m.averagingTime : ℚ) + w.carried - (w.idle + uncredited s)) /
      m.averagingTime ↔ w.idle + uncredited s ≤ w.carried := by
    rw [one_le_div length, ← Nat.cast_le (α := ℚ), Nat.cast_add]
    constructor <;> intro bound <;> linarith
  show (measure m s).currAvPowerW ≤ _ ↔ _
  rw [currAvPowerW_eq sound balanced window, add_mul_le_add_iff, share_le, le_share]

/-- An element of one watt at rest and one more at work, averaged over ten ticks. -/
def twoWatts : Setting where
  pe := ⟨1, 1 / 1000000000, 1, 1⟩
  resolution := 1
  averagingTime := 10
  resolution_pos := by decide
  averagingTime_pos := by decide

/-- The only task executes for four ticks. -/
def shortInterval : List (Event Unit) :=
  [.stateChange () .executing, .advance 4, .stateChange () .ready, .advance 10]

theorem shortInterval_power :
    ∃ s w s', run (recording (step twoWatts) note) (simulationStart fun _ => .ready, ⟨0, 0, 0⟩)
        shortInterval = some (s, w) ∧
      step twoWatts s .measure = some s' ∧
      s'.probe.currAvPowerW ≤ twoWatts.pe.staticPowerConsWatt + twoWatts.pe.peakDynPowerWatts := by
  have along : Along (step twoWatts) Exclusive (simulationStart fun _ => .ready) shortInterval := by
    decide +kernel
  have values : (run (recording (step twoWatts) note)
      (simulationStart fun _ => .ready, ⟨0, 0, 0⟩) shortInterval).map
        (fun x => (x.2.carried, (step twoWatts x.1 .measure).isSome)) = some (0, true) := by
    decide +kernel
  obtain ⟨⟨s, w⟩, reach, read⟩ := Option.map_eq_some_iff.mp values
  obtain ⟨carried, defined⟩ := Prod.mk.inj read
  obtain ⟨s', measured⟩ := Option.isSome_iff_exists.mp defined
  refine ⟨s, w, s', reach, measured, (window_power_le_iff along reach measured).mpr ⟨?_, ?_⟩⟩
  · intro _
    rw [carried]
    exact Nat.zero_le _
  · intro negative
    exact absurd negative (by decide +kernel)

/-- The only task executes for two windows: the energy of both is credited in the second one. -/
def longInterval : List (Event Unit) :=
  [.stateChange () .executing, .advance 10, .measure, .advance 20, .stateChange () .ready, .measure]

theorem longInterval_power :
    Along (step twoWatts) Exclusive (simulationStart fun _ => .ready) longInterval ∧
      (run (step twoWatts) (simulationStart fun _ => .ready) longInterval).map
        (fun s => s.probe.currAvPowerW) = some 3 ∧
      twoWatts.pe.staticPowerConsWatt + twoWatts.pe.peakDynPowerWatts = 2 := by
  decide +kernel

end Kista.Energy.PowerProbe
