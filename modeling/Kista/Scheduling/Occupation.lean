/- Kista/Scheduling/Occupation
   source: src/src/task_info_t.cpp, task_info_t.hpp, scheduler.cpp
   digest: The occupation time of a task, and the ends of a simulation at which it is the time
   that the task was executing. -/

import Kista.Kernel.Waveform
import Kista.Scheduling.Rtos

set_option autoImplicit false
set_option relaxedAutoImplicit false

/-!
A change of the state signal is handled in the delta after it, so at the time of the change,
unless the simulation stops in between. Energy and traces are left out.
-/

namespace Kista.Scheduling.Occupation

open Dispatch Rtos Kernel.Waveform

structure OccupationInfo where
  occupationTime : ℕ
  occupationIntervalStartTime : ℕ
  prevIncState : TaskState

/-- A run of `account_occupation_time_proc` at a time with a value of the state signal. -/
def accountOccupationTimeProc (a : OccupationInfo) (now : ℕ) (state : TaskState) : OccupationInfo :=
  if state = .executing then
    { a with occupationIntervalStartTime := now, prevIncState := .executing }
  else
    { a with
      occupationTime :=
        if a.prevIncState = .executing then
          a.occupationTime + (now - a.occupationIntervalStartTime)
        else a.occupationTime
      prevIncState := state }

/-- The initial run of the process; nothing has initialised `prev_inc_state` before. -/
def initialized (prevIncState : TaskState) : OccupationInfo :=
  accountOccupationTimeProc ⟨0, 0, prevIncState⟩ 0 .ready

def account (prevIncState : TaskState) (handled : List (ℕ × TaskState)) : OccupationInfo :=
  handled.foldl (fun a change => accountOccupationTimeProc a change.1 change.2)
    (initialized prevIncState)

def endOfSimulation (a : OccupationInfo) (now : ℕ) (state : TaskState) (sched : SchedState) :
    OccupationInfo :=
  if state = .executing ∧ a.prevIncState = .executing ∧ sched = .innactive ∨
      state = .ready ∧ a.prevIncState = .executing ∧ sched = .scheduling then
    { a with occupationTime := a.occupationTime + (now - a.occupationIntervalStartTime) }
  else a

/-- The time up to `t` at which the state signal is EXECUTING. -/
def executingTime (changes : List (ℕ × TaskState)) (t : ℕ) : ℕ :=
  timeIn (fun state => state = .executing) TaskState.ready changes t

theorem account_concat (prevIncState : TaskState) (handled : List (ℕ × TaskState))
    (change : ℕ × TaskState) :
    account prevIncState (handled ++ [change]) =
      accountOccupationTimeProc (account prevIncState handled) change.1 change.2 := by
  simp [account]

/-- The process knows the state, when it was entered if it is EXECUTING, and the time of all
occupation intervals before. -/
structure Accounts (handled : List (ℕ × TaskState)) (a : OccupationInfo) : Prop where
  state : a.prevIncState = lastValue .ready handled
  started : a.prevIncState = .executing →
    handled.getLast? = some (a.occupationIntervalStartTime, .executing)
  accounted : ∀ t, (∀ change ∈ handled, change.1 ≤ t) → executingTime handled t =
    a.occupationTime +
      if a.prevIncState = .executing then t - a.occupationIntervalStartTime else 0

theorem accounts_nil (prevIncState : TaskState) : Accounts [] (account prevIncState []) := by
  refine ⟨rfl, nofun, ?_⟩
  intro t _
  cases prevIncState <;> exact timeIn_nil t

/-- A change out of EXECUTING closes an interval, and one into it opens the next. -/
theorem Accounts.concat {handled : List (ℕ × TaskState)} {a : OccupationInfo}
    (h : Accounts handled a) {change : ℕ × TaskState}
    (ordered : ∀ earlier ∈ handled, earlier.1 ≤ change.1)
    (changes : lastValue .ready handled ≠ change.2) :
    Accounts (handled ++ [change]) (accountOccupationTimeProc a change.1 change.2) := by
  obtain ⟨now, state⟩ := change
  have before := h.accounted now ordered
  by_cases executing : state = .executing
  · subst executing
    have notBefore : a.prevIncState ≠ .executing := by
      rw [h.state]
      exact changes
    rw [if_neg notBefore, Nat.add_zero] at before
    refine ⟨by simp [accountOccupationTimeProc], ?_, ?_⟩
    · intro _
      simp [accountOccupationTimeProc]
    · intro t within
      have later : now ≤ t := within (now, .executing) (by simp)
      rw [executingTime, timeIn_concat later]
      show executingTime handled now + (t - now) = a.occupationTime + (t - now)
      rw [before]
  · refine ⟨by simp [accountOccupationTimeProc, executing], ?_, ?_⟩
    · intro now'
      simp [accountOccupationTimeProc, executing] at now'
    · intro t within
      have later : now ≤ t := within (now, state) (by simp)
      have added : executingTime (handled ++ [(now, state)]) t = executingTime handled now := by
        rw [executingTime, timeIn_concat later, if_neg executing]
        rfl
      rw [added, before]
      by_cases interval : a.prevIncState = .executing
      · simp [accountOccupationTimeProc, executing, interval]
      · simp [accountOccupationTimeProc, executing, interval]

/-- The account after any handled changes. -/
theorem accounts_of_handled (prevIncState : TaskState) {handled : List (ℕ × TaskState)}
    (ordered : handled.Pairwise fun earlier later => earlier.1 ≤ later.1)
    (changing : (TaskState.ready :: handled.map Prod.snd).IsChain fun old new => old ≠ new) :
    Accounts handled (account prevIncState handled) := by
  induction handled using List.reverseRecOn with
  | nil => exact accounts_nil prevIncState
  | append_singleton handled change ih =>
    obtain ⟨before, -, last⟩ := List.pairwise_append.mp ordered
    obtain ⟨chain, changes⟩ := changing_concat.mp changing
    rw [account_concat]
    refine (ih before chain).concat ?_ changes
    intro earlier mem
    exact last earlier mem change List.mem_cons_self

/-- When the simulation stops, all changes or all but the last one have been handled. -/
theorem accounts_of_wave (w : Wave TaskState.ready) (prevIncState : TaskState)
    {handled : List (ℕ × TaskState)}
    (stops : w.changes = handled ∨ ∃ change, w.changes = handled ++ [change]) :
    Accounts handled (account prevIncState handled) := by
  obtain ⟨changes, ordered, changing⟩ := w
  rcases stops with rfl | ⟨change, rfl⟩
  · exact accounts_of_handled prevIncState ordered changing
  · exact accounts_of_handled prevIncState (List.pairwise_append.mp ordered).1
      (changing_concat.mp changing).1

/-- What is added at the end to the account of a task that was executing. -/
theorem endOfSimulation_of_executing {a : OccupationInfo} (executing : a.prevIncState = .executing)
    (now : ℕ) (state : TaskState) (sched : SchedState) :
    (endOfSimulation a now state sched).occupationTime = a.occupationTime +
      if state = .executing ∧ sched = .innactive ∨ state = .ready ∧ sched = .scheduling then
        now - a.occupationIntervalStartTime
      else 0 := by
  simp only [endOfSimulation, executing, true_and]
  split <;> rfl

/-- The two repairs in terms of the changes. -/
theorem repaired_iff (w : Wave TaskState.ready) {handled : List (ℕ × TaskState)} {now : ℕ}
    (sched : SchedState)
    (stops : w.changes = handled ∨ ∃ state, w.changes = handled ++ [(now, state)])
    (executing : lastValue TaskState.ready handled = .executing) :
    (lastValue .ready w.changes = .executing ∧ sched = .innactive ∨
        lastValue .ready w.changes = .ready ∧ sched = .scheduling) ↔
      w.changes = handled ∧ sched = .innactive ∨
        w.changes = handled ++ [(now, .ready)] ∧ sched = .scheduling := by
  rcases stops with same | ⟨state, more⟩
  · simp [same, executing]
  · have changed : TaskState.executing ≠ state := by
      have changing := w.changing
      rw [more, changing_concat, executing] at changing
      exact changing.2
    simp [more, changed.symm]

/-- The occupation time is the time spent executing exactly when the last interval is over or
empty, or the simulation stops with the scheduler inactive and the task executing, or with the
scheduler active and the task's change to READY not yet handled. -/
theorem occupation_iff (w : Wave TaskState.ready) {handled : List (ℕ × TaskState)} {now : ℕ}
    (prevIncState : TaskState) (sched : SchedState)
    (within : ∀ change ∈ w.changes, change.1 ≤ now)
    (stops : w.changes = handled ∨ ∃ state, w.changes = handled ++ [(now, state)]) :
    (endOfSimulation (account prevIncState handled) now (lastValue .ready w.changes)
        sched).occupationTime = executingTime w.changes now ↔
      ∀ start, handled.getLast? = some (start, .executing) → start = now ∨
        w.changes = handled ∧ sched = .innactive ∨
        w.changes = handled ++ [(now, .ready)] ∧ sched = .scheduling := by
  have total : executingTime w.changes now = executingTime handled now := by
    rcases stops with same | ⟨state, more⟩
    · rw [same]
    · rw [more, executingTime, timeIn_concat (Nat.le_refl _), Nat.sub_self, ite_self]
      rfl
  have earlier : ∀ change ∈ handled, change.1 ≤ now := by
    intro change mem
    rcases stops with same | ⟨state, more⟩
    · exact within change (same ▸ mem)
    · exact within change (more ▸ List.mem_append_left _ mem)
  have accounts := accounts_of_wave w prevIncState (stops.imp_right fun ⟨state, more⟩ => ⟨_, more⟩)
  have closed := accounts.accounted now earlier
  rw [total, closed]
  generalize account prevIncState handled = a at accounts closed ⊢
  by_cases executing : a.prevIncState = .executing
  · have started := accounts.started executing
    have since : a.occupationIntervalStartTime ≤ now :=
      earlier (a.occupationIntervalStartTime, .executing) (List.mem_of_getLast? started)
    have state : lastValue TaskState.ready handled = .executing :=
      accounts.state.symm.trans executing
    rw [endOfSimulation_of_executing executing, if_pos executing, Nat.add_left_cancel_iff]
    simp only [repaired_iff w sched stops state, started, Option.some.injEq, Prod.mk.injEq,
      and_true, forall_eq']
    split
    · rename_i repaired
      exact ⟨fun _ => .inr repaired, fun _ => rfl⟩
    · rename_i lost
      constructor
      · intro empty
        left
        omega
      · rintro (rfl | repaired)
        · exact (Nat.sub_self _).symm
        · exact absurd repaired lost
  · have unchanged : endOfSimulation a now (lastValue .ready w.changes) sched = a := by
      simp [endOfSimulation, executing]
    rw [unchanged, if_neg executing, Nat.add_zero]
    refine ⟨fun _ start last => ?_, fun _ => rfl⟩
    rw [accounts.state, lastValue, last] at executing
    exact absurd rfl executing

/-- A task that is executing when the simulation is stopped from outside. -/
def twoIntervals : Wave TaskState.ready :=
  ⟨[(2, .executing), (5, .ready), (6, .executing)], by decide, by decide⟩

theorem twoIntervals_accounted :
    (endOfSimulation (account .ready twoIntervals.changes) 10
        (lastValue .ready twoIntervals.changes) .innactive).occupationTime =
      executingTime twoIntervals.changes 10 := by
  refine (occupation_iff twoIntervals .ready .innactive (by decide) (.inl rfl)).mpr ?_
  intro start last
  exact .inr (.inl ⟨rfl, rfl⟩)

def oneInterval : Wave TaskState.ready := ⟨[(2, .executing)], by decide, by decide⟩

/-- The scheduler that stops the simulation is active in the delta in which it does so; the task
has not yet left EXECUTING. -/
theorem oneInterval_lost :
    (endOfSimulation (account .ready oneInterval.changes) 10
        (lastValue .ready oneInterval.changes) .scheduling).occupationTime = 0 ∧
      executingTime oneInterval.changes 10 = 8 := by
  decide

end Kista.Scheduling.Occupation
