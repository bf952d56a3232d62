/- Kista/Scheduling/RoundRobin
   source: src/src/scheduler.cpp
   digest: The circular cursor of the cycle executive, and why no task that stays ready is passed
   over for a whole round. -/

import Kista.Scheduling.Dispatch

set_option autoImplicit false
set_option relaxedAutoImplicit false

/-!
A cursor stands at a position of the assigned tasks. The position `offset` places ahead of it is
counted around the list.
-/

namespace Kista.Scheduling.RoundRobin

open Dispatch

variable {ι : Type}

/-- The task at some places ahead of a cursor. -/
def ahead (tasks : List ι) (it offset : ℕ) : Option ι := tasks[(it + offset) % tasks.length]?

/-- One dispatch after the other, and the tasks that they return. -/
def dispatches (found : Bool) : Dispatcher ι → List (Readings ι) →
    Except Fault (List ι × Dispatcher ι)
  | d, [] => .ok ([], d)
  | d, r :: rs =>
    (dispatch r found d).bind fun (task, d) =>
      (dispatches found d rs).map fun (tasks, d) => (task :: tasks, d)

theorem next_eq {n it : ℕ} (within : it < n) : (if it + 1 = n then 0 else it + 1) = (it + 1) % n := by
  split
  next last => rw [last, Nat.mod_self]
  next more => rw [Nat.mod_eq_of_lt (by omega)]

theorem ahead_next (tasks : List ι) (it offset : ℕ) :
    ahead tasks ((it + 1) % tasks.length) offset = ahead tasks it (offset + 1) := by
  rw [ahead, ahead, Nat.mod_add_mod, Nat.add_assoc, Nat.add_comm 1]

/-- Every task is less than a round ahead of the cursor. -/
theorem exists_ahead {tasks : List ι} {t : ι} (mem : t ∈ tasks) (it : ℕ) :
    ∃ offset < tasks.length, ahead tasks it offset = some t := by
  obtain ⟨k, within, rfl⟩ := List.getElem_of_mem mem
  have reduced : it % tasks.length < tasks.length := Nat.mod_lt _ (by omega)
  have place : ∃ offset < tasks.length, (it % tasks.length + offset) % tasks.length = k := by
    by_cases behind : it % tasks.length ≤ k
    · refine ⟨k - it % tasks.length, by omega, ?_⟩
      rw [Nat.add_sub_cancel' behind, Nat.mod_eq_of_lt within]
    · refine ⟨tasks.length + k - it % tasks.length, by omega, ?_⟩
      rw [Nat.add_sub_cancel' (by omega), Nat.add_mod_left, Nat.mod_eq_of_lt within]
  obtain ⟨offset, bound, same⟩ := place
  refine ⟨offset, bound, ?_⟩
  rw [Nat.mod_add_mod] at same
  rw [ahead, same, List.getElem?_eq_getElem within]

theorem ahead_isSome {tasks : List ι} (nonempty : tasks ≠ []) (it offset : ℕ) :
    ∃ t ∈ tasks, ahead tasks it offset = some t := by
  have within : (it + offset) % tasks.length < tasks.length :=
    Nat.mod_lt _ (List.length_pos_iff.mpr nonempty)
  exact ⟨_, List.getElem_mem within, List.getElem?_eq_getElem within⟩

theorem getElem?_eq_ahead {tasks : List ι} {it : ℕ} (within : it < tasks.length) :
    tasks[it]? = ahead tasks it 0 := by
  rw [ahead, Nat.add_zero, Nat.mod_eq_of_lt within]

/-- A scan stops at the first ready task, or behind the last one of its round. -/
theorem cycleScan_spec (r : Readings ι) {tasks : List ι} (turns : ℕ) {it : ℕ}
    (within : it < tasks.length) (last : Option ι) :
    ∃ offset ≤ turns,
      cycleScan r tasks (turns + 1) it last =
        (ahead tasks it offset, (it + offset + 1) % tasks.length) ∧
      (∀ before < offset, (ahead tasks it before).map r.state ≠ some .ready) ∧
      ((ahead tasks it offset).map r.state = some .ready ∨ offset = turns) := by
  induction turns generalizing it last with
  | zero =>
    refine ⟨0, le_rfl, ?_, by simp, Or.inr rfl⟩
    rw [cycleScan, next_eq within, getElem?_eq_ahead within]
    split <;> rfl
  | succ turns ih =>
    rw [cycleScan, next_eq within, getElem?_eq_ahead within]
    by_cases ready : (ahead tasks it 0).map r.state = some .ready
    · refine ⟨0, Nat.zero_le _, ?_, by simp, Or.inl ready⟩
      simp only [ready, if_true, Nat.add_zero]
    · have within' : (it + 1) % tasks.length < tasks.length := Nat.mod_lt _ (by omega)
      obtain ⟨offset, bound, scanned, none, found⟩ := ih within' (ahead tasks it 0)
      refine ⟨offset + 1, by omega, ?_, ?_, ?_⟩
      · simp only [ready, if_false]
        rw [scanned, ahead_next, ← Nat.add_assoc, Nat.add_assoc _ offset, Nat.mod_add_mod]
        congr 2
        omega
      · intro before less
        cases before with
        | zero => exact ready
        | succ before =>
          rw [← ahead_next]
          exact none before (by omega)
      · rw [← ahead_next]
        exact found.imp_right fun whole => by rw [whole]

/-- What a dispatch of the cycle executive does: it returns the first task ready ahead of the
cursor, if there is one, and moves the cursor behind it. -/
structure Turns (r : Readings ι) (d : Dispatcher ι) (offset : ℕ) (t : ι) : Prop where
  bound : offset < d.tasksAssigned.length
  returned : ahead d.tasksAssigned d.itDynSched offset = some t
  passed : ∀ before < offset,
    (ahead d.tasksAssigned d.itDynSched before).map r.state ≠ some .ready
  ready : r.state t = .ready ∨ offset + 1 = d.tasksAssigned.length

theorem dispatch_turns (r : Readings ι) (found : Bool) {d : Dispatcher ι}
    (policy : d.schedulerPolicy = .cycleExecutive) (within : d.itDynSched < d.tasksAssigned.length) :
    ∃ offset t, Turns r d offset t ∧ dispatch r found d =
      .ok (t, { d with itDynSched := (d.itDynSched + offset + 1) % d.tasksAssigned.length }) := by
  have nonempty : d.tasksAssigned ≠ [] := List.length_pos_iff.mp (by omega)
  obtain ⟨turns, round⟩ : ∃ turns, d.tasksAssigned.length = turns + 1 :=
    Nat.exists_eq_add_one.mpr (by omega)
  obtain ⟨offset, bound, scanned, passed, stops⟩ := cycleScan_spec r turns within none
  obtain ⟨t, -, returned⟩ := ahead_isSome nonempty d.itDynSched offset
  refine ⟨offset, t, ⟨by omega, returned, passed, ?_⟩, ?_⟩
  · rw [returned] at stops
    refine stops.imp (fun ready => ?_) fun whole => ?_
    · simpa using ready
    · rw [whole, round]
  · rw [← round, returned] at scanned
    simp only [dispatch, policy, dispatchCycle, scanned]
    rfl

/-- A task is returned, or the cursor comes nearer to it. -/
theorem Turns.nearer {r : Readings ι} {d : Dispatcher ι} {offset : ℕ} {t t' : ι}
    (h : Turns r d offset t) {distance : ℕ}
    (place : ahead d.tasksAssigned d.itDynSched distance = some t') (ready : r.state t' = .ready) :
    t = t' ∨ offset < distance := by
  rcases Nat.lt_trichotomy offset distance with less | same | more
  · exact Or.inr less
  · left
    have returned := h.returned
    rw [same, place] at returned
    exact (Option.some.inj returned).symm
  · exfalso
    apply h.passed distance more
    rw [place, Option.map_some, ready]

/-- With a ready task the task returned is ready. -/
theorem Turns.ready_of_some {r : Readings ι} {d : Dispatcher ι} {offset : ℕ} {t t' : ι}
    (h : Turns r d offset t) (mem : t' ∈ d.tasksAssigned) (ready : r.state t' = .ready) :
    r.state t = .ready := by
  rcases h.ready with returned | whole
  · exact returned
  · obtain ⟨distance, bound, place⟩ := exists_ahead mem d.itDynSched
    rcases h.nearer place ready with rfl | less
    · exact ready
    · omega

/-- The dispatches of a list of readings succeed, and leave the cursor inside the list. -/
theorem dispatches_within (found : Bool) (rs : List (Readings ι)) {d : Dispatcher ι}
    (policy : d.schedulerPolicy = .cycleExecutive) (within : d.itDynSched < d.tasksAssigned.length) :
    ∃ returned it, it < d.tasksAssigned.length ∧
      dispatches found d rs = .ok (returned, { d with itDynSched := it }) := by
  induction rs generalizing d with
  | nil => exact ⟨[], d.itDynSched, within, rfl⟩
  | cons r rs ih =>
    obtain ⟨offset, t, -, dispatched⟩ := dispatch_turns r found policy within
    have within' : (d.itDynSched + offset + 1) % d.tasksAssigned.length < d.tasksAssigned.length :=
      Nat.mod_lt _ (by omega)
    obtain ⟨returned, it, bound, later⟩ := ih
      (d := { d with itDynSched := (d.itDynSched + offset + 1) % d.tasksAssigned.length })
      policy within'
    refine ⟨t :: returned, it, bound, ?_⟩
    rw [dispatches, dispatched]
    simp only [Except.bind, later, Except.map]

/-- A task that stays ready is returned by the time the cursor has come to it. -/
theorem returned_of_ready (found : Bool) {t : ι} (rs : List (Readings ι)) {d : Dispatcher ι}
    (policy : d.schedulerPolicy = .cycleExecutive) (within : d.itDynSched < d.tasksAssigned.length)
    {distance : ℕ} (place : ahead d.tasksAssigned d.itDynSched distance = some t)
    (long : distance < rs.length) (ready : ∀ r ∈ rs, r.state t = .ready)
    {returned : List ι} {d' : Dispatcher ι}
    (dispatched : dispatches found d rs = .ok (returned, d')) : t ∈ returned := by
  induction rs generalizing d distance returned d' with
  | nil => exact absurd long (Nat.not_lt_zero _)
  | cons r rs ih =>
    obtain ⟨offset, first, turns, once⟩ := dispatch_turns r found policy within
    have within' : (d.itDynSched + offset + 1) % d.tasksAssigned.length < d.tasksAssigned.length :=
      Nat.mod_lt _ (by omega)
    obtain ⟨later, it, -, rest⟩ := dispatches_within found rs
      (d := { d with itDynSched := (d.itDynSched + offset + 1) % d.tasksAssigned.length })
      policy within'
    rw [dispatches, once] at dispatched
    simp only [Except.bind, rest, Except.map, Except.ok.injEq, Prod.mk.injEq] at dispatched
    obtain ⟨rfl, -⟩ := dispatched
    rcases turns.nearer place (ready r List.mem_cons_self) with rfl | less
    · exact List.mem_cons_self
    · apply List.mem_cons_of_mem
      -- what is left of the distance is less than the number of dispatches left
      have nearer : ahead d.tasksAssigned ((d.itDynSched + offset + 1) % d.tasksAssigned.length)
          (distance - (offset + 1)) = some t := by
        rw [← place, ahead, ahead, Nat.mod_add_mod]
        congr 2
        omega
      apply ih (d := { d with itDynSched := (d.itDynSched + offset + 1) % d.tasksAssigned.length })
        policy within' nearer _ (fun r mem => ready r (List.mem_cons_of_mem _ mem)) rest
      rw [List.length_cons] at long
      omega

/-- From every position that dispatches can leave the cursor at, a task that is ready at as many
dispatches as there are tasks is returned by one of them, and with a ready task each dispatch
returns a ready one. -/
theorem cycle_executive_fair {d : Dispatcher ι} (policy : d.schedulerPolicy = .cycleExecutive)
    (nonempty : d.tasksAssigned ≠ []) (begins : d.itDynSched = 0) (found : Bool)
    (past : List (Readings ι)) :
    ∃ before d', dispatches found d past = .ok (before, d') ∧
      (∀ rs : List (Readings ι), rs.length = d.tasksAssigned.length →
        ∃ returned d'', dispatches found d' rs = .ok (returned, d'') ∧
          ∀ t ∈ d.tasksAssigned, (∀ r ∈ rs, r.state t = .ready) → t ∈ returned) ∧
      ∀ r : Readings ι, ∃ t d'', dispatch r found d' = .ok (t, d'') ∧ t ∈ d.tasksAssigned ∧
        ((∃ t' ∈ d.tasksAssigned, r.state t' = .ready) → r.state t = .ready) := by
  have within : d.itDynSched < d.tasksAssigned.length := by
    rw [begins]
    exact List.length_pos_iff.mpr nonempty
  obtain ⟨before, it, bound, reached⟩ := dispatches_within found past policy within
  refine ⟨before, { d with itDynSched := it }, reached, ?_, ?_⟩
  · intro rs round
    obtain ⟨returned, it', -, dispatched⟩ :=
      dispatches_within found rs (d := { d with itDynSched := it }) policy bound
    refine ⟨returned, _, dispatched, ?_⟩
    intro t mem ready
    obtain ⟨distance, less, place⟩ := exists_ahead mem it
    refine returned_of_ready found rs (d := { d with itDynSched := it }) policy bound place ?_
      ready dispatched
    omega
  · intro r
    obtain ⟨offset, t, turns, dispatched⟩ :=
      dispatch_turns r found (d := { d with itDynSched := it }) policy bound
    refine ⟨t, _, dispatched, ?_, ?_⟩
    · exact List.mem_of_getElem? turns.returned
    · rintro ⟨t', mem, ready⟩
      exact turns.ready_of_some mem ready

/-- A scheduler of three tasks at elaboration. -/
def threeTasks : Dispatcher (Fin 3) where
  schedulerPolicy := .cycleExecutive
  dynamicPrioritiesPolicy := .unknown
  tasksAssigned := [0, 1, 2]
  tasksByPriority := [0, 1, 2]
  staticSchedule := []
  itStaticSched := 0
  itDynSched := 0

/-- All tasks but one are ready. -/
def allReadyBut (t : Fin 3) : Readings (Fin 3) where
  state t' := if t' = t then .inactiveWaitPeriod else .ready
  timeToNextDeadline _ := 0

/-- After a first dispatch, task 0 is ready three times and so is returned. -/
theorem threeTasks_fair :
    ∃ before d', dispatches false threeTasks [allReadyBut 0] = .ok (before, d') ∧
      ∃ returned d'', dispatches false d' [allReadyBut 1, allReadyBut 2, allReadyBut 1] =
        .ok (returned, d'') ∧ 0 ∈ returned := by
  obtain ⟨before, d', reached, rounds, -⟩ := cycle_executive_fair (d := threeTasks) rfl
    (by decide) rfl false [allReadyBut 0]
  obtain ⟨returned, d'', dispatched, fair⟩ :=
    rounds [allReadyBut 1, allReadyBut 2, allReadyBut 1] rfl
  refine ⟨before, d', reached, returned, d'', dispatched, fair 0 (by decide) ?_⟩
  intro r mem
  simp only [List.mem_cons, List.not_mem_nil, or_false] at mem
  rcases mem with rfl | rfl | rfl <;> rfl

end Kista.Scheduling.RoundRobin
