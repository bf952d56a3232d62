/- Kista/Tracing/CompactTrace
   source: src/src/tikz_activity_trace.cpp
   digest: The recorder of the clustered compact activity trace, and when its entries tell who holds
   the processor. -/

import Kista.Tracing.ClusterEntry
import Kista.Tracing.RecordedInstants

set_option autoImplicit false
set_option relaxedAutoImplicit false

namespace Kista.Tracing.CompactTrace

open Containers.OrderedMap
open Containers.LinearKeys
open Kernel.Waveform
open Scheduling.Dispatch (TaskState)
open Scheduling.Rtos (SchedState)
open TimeAxis
open RecordedInstants
open UnfoldedTrace
open ClusterEntry

variable {τ ρ : Type}

section Process

variable [DecidableEq τ] (clusters : Clusters τ ρ)

/-- An event of the scheduler or of one of its tasks. -/
def clusterEvent (s : ρ) (before now : Snapshot τ ρ) : Bool :=
  decide (now.sched s ≠ before.sched s) ||
    (clusters.tasksAssigned s).any fun t => decide (now.task t ≠ before.task t)

/-- The scheduler is seen in the delta of its event only. -/
def schedFound (s : ρ) (before now : Snapshot τ ρ) : Bool :=
  decide (now.sched s ≠ before.sched s) && decide (now.sched s = .scheduling)

def taskFound (before now : Snapshot τ ρ) (t : τ) : Bool :=
  decide (now.task t ≠ before.task t) && decide (now.task t = .executing)

def dumpCompact (currentTime : ℕ) (now : Snapshot τ ρ) (activity : ρ → Entries ℕ Char) (s : ρ) :
    Entries ℕ Char :=
  writeCluster clusters.label (clusters.tasksAssigned s) true (decide (now.sched s = .scheduling))
    (fun t => decide (now.task t = .executing)) currentTime (activity s)

def collectCompact (currentTime : ℕ) (before now : Snapshot τ ρ) (activity : ρ → Entries ℕ Char)
    (s : ρ) : Entries ℕ Char :=
  writeCluster clusters.label (clusters.tasksAssigned s) (clusterEvent clusters s before now)
    (schedFound s before now) (taskFound before now) currentTime (activity s)

/-- `tikz_trace_activity_process_clustered_compact`. -/
def compact : Style (Snapshot τ ρ) (ρ → Entries ℕ Char) where
  woken := woken clusters.toRegistry
  dump := dumpCompact clusters
  collect := collectCompact clusters

/-- The trace of a run. -/
def compactTrace (settings : Settings) (run : Run (Snapshot τ ρ)) :
    Recorder (ρ → Entries ℕ Char) :=
  record (compact clusters) settings.startTraceTime settings.maxTimeStamps run.initial
    ⟨.waiting, .init, fun _ => []⟩ run.deltas

end Process

/-! ### The entries of a run -/

section Entries

variable [DecidableEq τ] (clusters : Clusters τ ρ) (s : ρ)

/-- What a delta with an event of the cluster leaves for its instant. -/
def changeMark (before now : Snapshot τ ρ) : Char :=
  mark clusters.label (clusters.tasksAssigned s) (schedFound s before now) (taskFound before now)

/-- What the initial state leaves for the start time. -/
def dumpMark (now : Snapshot τ ρ) : Char :=
  mark clusters.label (clusters.tasksAssigned s) (decide (now.sched s = .scheduling))
    fun t => decide (now.task t = .executing)

/-- The last delta of an instant with an event of the cluster has written its entry. -/
def entryOf (start : ℕ) (base : Snapshot τ ρ) (after : List (ℕ × Snapshot τ ρ)) (stamp : ℕ) :
    Option Char :=
  match lastChange (clusterEvent clusters s) stamp base after with
  | some (before, now) => some (changeMark clusters s before now)
  | none => if start = stamp then some (dumpMark clusters s base) else none

variable {clusters s} {start max : ℕ} {before now base : Snapshot τ ρ}
  {after : List (ℕ × Snapshot τ ρ)} {delta : ℕ × Snapshot τ ρ} {r : Recorder (ρ → Entries ℕ Char)}

omit [DecidableEq τ] in
theorem clusterEvent_of_sched (changed : now.sched s ≠ before.sched s) :
    clusterEvent clusters s before now = true := by
  rw [clusterEvent, decide_eq_true changed, Bool.true_or]

omit [DecidableEq τ] in
theorem clusterEvent_of_task {t : τ} (listed : t ∈ clusters.tasksAssigned s)
    (changed : now.task t ≠ before.task t) : clusterEvent clusters s before now = true := by
  rw [clusterEvent, Bool.or_eq_true, List.any_eq_true]
  exact .inr ⟨t, listed, decide_eq_true changed⟩

omit [DecidableEq τ] in
/-- The process is sensitive to the events of every cluster. -/
theorem woken_of_clusterEvent (event : clusterEvent clusters s before now = true) :
    woken clusters.toRegistry before now = true := by
  rw [clusterEvent, Bool.or_eq_true, List.any_eq_true] at event
  rw [woken, Bool.or_eq_true, List.any_eq_true, List.any_eq_true]
  rcases event with sched | ⟨t, -, changed⟩
  · exact .inr ⟨s, clusters.allScheds s, sched⟩
  · exact .inl ⟨t, clusters.allTasks t, changed⟩

theorem find_dumpCompact {activity : ρ → Entries ℕ Char} (h : Increasing (activity s))
    (t wanted : ℕ) : find less wanted (dumpCompact clusters t now activity s) =
      if t = wanted then some (dumpMark clusters s now) else find less wanted (activity s) := by
  rw [dumpCompact, find_writeCluster h (fun _ => rfl) fun _ _ _ => rfl]
  simp only [true_and]
  rfl

theorem find_collectCompact {activity : ρ → Entries ℕ Char} (h : Increasing (activity s))
    (t wanted : ℕ) : find less wanted (collectCompact clusters t before now activity s) =
      if clusterEvent clusters s before now = true ∧ t = wanted then
        some (changeMark clusters s before now)
      else find less wanted (activity s) := by
  rw [collectCompact, find_writeCluster h]
  · rfl
  · intro found
    rw [schedFound, Bool.and_eq_true, decide_eq_true_eq] at found
    exact clusterEvent_of_sched found.1
  · intro t listed found
    rw [taskFound, Bool.and_eq_true, decide_eq_true_eq] at found
    exact clusterEvent_of_task listed found.1

theorem entryOf_concat {stamp : ℕ} : entryOf clusters s start base (after ++ [delta]) stamp =
    if clusterEvent clusters s (lastValue base after) delta.2 = true ∧ delta.1 = stamp then
      some (changeMark clusters s (lastValue base after) delta.2)
    else entryOf clusters s start base after stamp := by
  by_cases here : clusterEvent clusters s (lastValue base after) delta.2 = true ∧ delta.1 = stamp
  · rw [entryOf, lastChange_concat, if_pos here.symm, if_pos here]
  · rw [entryOf, lastChange_concat, if_neg fun both => here both.symm, if_neg here]
    rfl

/-- What the table of a scheduler has for the instants so far. -/
structure Entered (clusters : Clusters τ ρ) (s : ρ) (start : ℕ) (base : Snapshot τ ρ)
    (after : List (ℕ × Snapshot τ ρ)) (r : Recorder (ρ → Entries ℕ Char)) : Prop where
  increasing : Increasing (r.tables s)
  entries : ∀ stamp, (r.phase = .ended → stamp ≤ r.axis.back) →
    find less stamp (r.tables s) = entryOf clusters s start base after stamp

theorem entered_start {axis : Axis} : Entered clusters s start base []
    ⟨.recording, axis, dumpCompact clusters start base fun _ => []⟩ where
  increasing := increasing_writeCluster increasing_nil
  entries stamp _ := by
    show find less stamp (dumpCompact clusters start base (fun _ => []) s) = _
    rw [find_dumpCompact increasing_nil]
    rfl

/-- One delta that does not come before the others. -/
theorem Entered.turn (h : Entered clusters s start base after r)
    (placed : Placed (compact clusters) start max base after r)
    (ordered : ∀ earlier ∈ (start, base) :: after, earlier.1 ≤ delta.1) :
    Entered clusters s start base (after ++ [delta])
      (TimeAxis.turn (compact clusters) start max (lastValue base after) delta r) := by
  have collected : ∀ stamp, r.phase = .recording →
      find less stamp (collectCompact clusters delta.1 (lastValue base after) delta.2 r.tables s) =
        entryOf clusters s start base (after ++ [delta]) stamp := by
    intro stamp recording
    rw [find_collectCompact h.increasing, entryOf_concat, h.entries stamp (by simp [recording])]
  have hcases := turn_cases (compact clusters) start max (lastValue base after) delta r
  generalize TimeAxis.turn (compact clusters) start max (lastValue base after) delta r = next
    at hcases
  cases hcases with
  | early waiting other => exact absurd waiting placed.begun
  | begins waiting due => exact absurd waiting placed.begun
  | silent recording none =>
    refine ⟨h.increasing, fun stamp known => ?_⟩
    have asleep : ¬ clusterEvent clusters s (lastValue base after) delta.2 = true := by
      intro event
      have awake : (compact clusters).woken (lastValue base after) delta.2 = true :=
        woken_of_clusterEvent event
      rw [none.resolve_right (Nat.not_lt.mpr (placed.back_le recording ordered))] at awake
      cases awake
    rw [entryOf_concat, if_neg fun both => asleep both.1]
    exact h.entries stamp known
  | grows recording awake later space =>
    exact ⟨increasing_writeCluster h.increasing, fun stamp _ => collected stamp recording⟩
  | ends recording awake later full =>
    refine ⟨h.increasing, fun stamp known => ?_⟩
    have other : delta.1 ≠ stamp := ((known rfl).trans_lt later).ne'
    rw [entryOf_concat, if_neg fun both => other both.2]
    exact h.entries stamp (by simp [recording])
  | merges recording awake same =>
    exact ⟨increasing_writeCluster h.increasing, fun stamp _ => collected stamp recording⟩
  | past ended =>
    refine ⟨h.increasing, fun stamp known => ?_⟩
    have other : delta.1 ≠ stamp := ((known ended).trans_lt (placed.back_lt ended ordered)).ne'
    rw [entryOf_concat, if_neg fun both => other both.2]
    exact h.entries stamp known

theorem entered_record (room : 0 < max)
    (ordered : ((start, base) :: after).Pairwise fun earlier later => earlier.1 ≤ later.1) :
    Entered clusters s start base after (record (compact clusters) start max base
      ⟨.recording, Axis.init.push start, dumpCompact clusters start base fun _ => []⟩ after) := by
  induction after using List.reverseRecOn with
  | nil => exact entered_start
  | append_singleton after delta ih =>
    rw [← List.cons_append] at ordered
    obtain ⟨hbefore, -, hlast⟩ := List.pairwise_append.mp ordered
    rw [record_concat]
    exact (ih hbefore).turn (placed_record room hbefore) fun earlier listed =>
      hlast earlier listed delta (List.mem_singleton_self delta)

end Entries

/-! ### Who holds the processor -/

/-- Whoever is executing after a delta has begun so in it. -/
structure HolderMoves (clusters : Clusters τ ρ) (s : ρ) (before now : Snapshot τ ρ) : Prop where
  sched : now.sched s = .scheduling → now.sched s ≠ before.sched s
  task : ∀ t ∈ clusters.tasksAssigned s, now.task t = .executing → now.task t ≠ before.task t

section Holder

variable [DecidableEq τ] {clusters : Clusters τ ρ} {s : ρ} {before now : Snapshot τ ρ}

theorem tells_changeMark_iff (one : AtMostOne clusters s now) :
    Tells clusters s (now.sched s = .scheduling) (fun t => now.task t = .executing)
        (some (changeMark clusters s before now)) ↔ HolderMoves clusters s before now := by
  rw [changeMark, tells_mark_iff one]
  · simp only [schedFound, taskFound, Bool.and_eq_true, decide_eq_true_eq]
    constructor
    · rintro ⟨hsched, htask⟩
      exact ⟨fun scheduling => (hsched scheduling).1, fun t ht hexec => (htask t ht hexec).1⟩
    · intro moves
      exact ⟨fun scheduling => ⟨moves.sched scheduling, scheduling⟩,
        fun t ht hexec => ⟨moves.task t ht hexec, hexec⟩⟩
  · intro found
    rw [schedFound, Bool.and_eq_true, decide_eq_true_eq, decide_eq_true_eq] at found
    exact found.2
  · intro t found
    rw [taskFound, Bool.and_eq_true, decide_eq_true_eq, decide_eq_true_eq] at found
    exact found.2

/-- The initial state is read from the states themselves. -/
theorem tells_dumpMark (one : AtMostOne clusters s now) :
    Tells clusters s (now.sched s = .scheduling) (fun t => now.task t = .executing)
      (some (dumpMark clusters s now)) := by
  rw [dumpMark, tells_mark_iff one of_decide_eq_true fun t => of_decide_eq_true]
  exact ⟨decide_eq_true, fun t _ => decide_eq_true⟩

end Holder

section Runs

variable [DecidableEq τ] (clusters : Clusters τ ρ) (settings : Settings)
  (run : Run (Snapshot τ ρ)) (s : ρ)

/-- An instant with an event of the cluster. -/
def ChangedAt (stamp : ℕ) : Prop :=
  (lastChange (clusterEvent clusters s) stamp run.initial run.deltas).isSome = true

/-- In every recorded instant the last event of the cluster is one of whoever is then executing. -/
def HolderMovesLast : Prop :=
  ∀ base after, sinceStart settings.startTraceTime run.deltas = some (base, after) →
    ∀ stamp, Recorded (woken clusters.toRegistry) settings base after stamp →
      ∀ before now, lastChange (clusterEvent clusters s) stamp base after = some (before, now) →
        HolderMoves clusters s before now

/-- The compact trace tells who holds the processor, as the unfolded trace of the run does. -/
structure CompactRight : Prop where
  entries : ∀ stamp ∈ (compactTrace clusters settings run).axis.timeStamps,
    ChangedAt clusters run s stamp →
      Tells clusters s ((run.endOf stamp).sched s = .scheduling)
        (fun t => (run.endOf stamp).task t = .executing)
        (find less stamp ((compactTrace clusters settings run).tables s))
  labels : ∀ t u, t ≠ u → clusters.label t ≠ clusters.label u
  marks : ∀ t, clusters.label t ≠ 'S' ∧ clusters.label t ≠ 'X'
  agrees : ∀ stamp ∈ (compactTrace clusters settings run).axis.timeStamps,
    ChangedAt clusters run s stamp →
      Tells clusters s
        (latest ((trace clusters.toRegistry settings run).tables.schedActivity s) stamp =
          some .scheduling)
        (fun t => latest ((trace clusters.toRegistry settings run).tables.taskActivity t) stamp =
          some .executing)
        (find less stamp ((compactTrace clusters settings run).tables s))

variable {clusters settings run s} {base : Snapshot τ ρ} {after : List (ℕ × Snapshot τ ρ)}

omit [DecidableEq τ] in
/-- The end of an instant is as its last event of the cluster has left it. -/
theorem sameCluster_of_lastChange {before now : Snapshot τ ρ} {n : ℕ}
    (ordered : after.Pairwise fun earlier later => earlier.1 ≤ later.1)
    (h : lastChange (clusterEvent clusters s) n base after = some (before, now)) :
    SameCluster clusters s (valueAt base after n) now where
  sched := view_of_lastChange (fun now => now.sched s)
    (fun _ _ => clusterEvent_of_sched) ordered h
  task t ht := view_of_lastChange (fun now => now.task t)
    (fun _ _ => clusterEvent_of_task ht) ordered h

omit [DecidableEq τ] in
theorem sameCluster_of_no_lastChange {n : ℕ}
    (ordered : after.Pairwise fun earlier later => earlier.1 ≤ later.1)
    (first : ∀ delta ∈ after, n ≤ delta.1)
    (h : lastChange (clusterEvent clusters s) n base after = none) :
    SameCluster clusters s (valueAt base after n) base where
  sched := view_of_no_lastChange (fun now => now.sched s)
    (fun _ _ => clusterEvent_of_sched) ordered first h
  task t ht := view_of_no_lastChange (fun now => now.task t)
    (fun _ _ => clusterEvent_of_task ht) ordered first h

/-- The entry of a recorded instant tells the truth unless the last event of the cluster was not one
of whoever is executing. -/
theorem tells_entryOf_iff
    (since : sinceStart settings.startTraceTime run.deltas = some (base, after)) {stamp : ℕ}
    (late : settings.startTraceTime ≤ stamp) (one : AtMostOne clusters s (run.endOf stamp))
    (changed : ChangedAt clusters run s stamp) :
    Tells clusters s ((run.endOf stamp).sched s = .scheduling)
        (fun t => (run.endOf stamp).task t = .executing)
        (entryOf clusters s settings.startTraceTime base after stamp) ↔
      ∀ before now, lastChange (clusterEvent clusters s) stamp base after = some (before, now) →
        HolderMoves clusters s before now := by
  obtain ⟨hfirst, hafter⟩ := List.pairwise_cons.mp (ordered_sinceStart run since)
  rw [endOf_sinceStart run since late] at one ⊢
  cases hlast : lastChange (clusterEvent clusters s) stamp base after with
  | some pair =>
    obtain ⟨before, now⟩ := pair
    have same := sameCluster_of_lastChange hafter hlast
    have hentry : entryOf clusters s settings.startTraceTime base after stamp =
        some (changeMark clusters s before now) := by
      rw [entryOf, hlast]
    rw [hentry]
    constructor
    · intro tells other next hpair
      cases hpair
      exact (tells_changeMark_iff (same.atMostOne one)).mp (same.symm.tells tells)
    · intro moves
      exact same.tells ((tells_changeMark_iff (same.atMostOne one)).mpr (moves before now rfl))
  | none =>
    -- the event was one of the initial state, which has been dumped
    have hstart : settings.startTraceTime = stamp := by
      obtain ⟨early, hsplit, hearly⟩ := split_of_sinceStart run.ordered since
      rw [ChangedAt, hsplit, ← List.singleton_append, ← List.append_assoc, lastChange_append,
        lastValue_concat, hlast, Option.none_or, Option.isSome_iff_exists] at changed
      obtain ⟨pair, hpair⟩ := changed
      obtain ⟨delta, listed, rfl⟩ := mem_of_lastChange hpair
      rcases List.mem_append.mp listed with before | start
      · exact absurd late (Nat.not_le.mpr (hearly delta before))
      · rw [List.mem_singleton.mp start]
    have same := sameCluster_of_no_lastChange hafter
      (fun delta listed => hstart ▸ hfirst delta listed) hlast
    have hentry : entryOf clusters s settings.startTraceTime base after stamp =
        some (dumpMark clusters s base) := by
      rw [entryOf, hlast]
      exact if_pos hstart
    rw [hentry]
    constructor
    · rintro - before now ⟨⟩
    · intro _
      exact same.tells (tells_dumpMark (same.atMostOne one))

omit [DecidableEq τ] in
/-- If at most one is executing in every delta, so it is at the end of every instant. -/
theorem atMostOne_endOf (first : AtMostOne clusters s run.initial)
    (each : ∀ delta ∈ run.deltas, AtMostOne clusters s delta.2) (instant : ℕ) :
    AtMostOne clusters s (run.endOf instant) := by
  have hmem : run.endOf instant ∈ run.initial :: run.deltas.map Prod.snd := valueAt_mem instant
  rcases List.mem_cons.mp hmem with start | later
  · rw [start]
    exact first
  · obtain ⟨delta, listed, hvalue⟩ := List.mem_map.mp later
    rw [← hvalue]
    exact each delta listed

theorem find_compactTrace
    (since : sinceStart settings.startTraceTime run.deltas = some (base, after)) {stamp : ℕ}
    (listed : stamp ∈ (compactTrace clusters settings run).axis.timeStamps) :
    find less stamp ((compactTrace clusters settings run).tables s) =
      entryOf clusters s settings.startTraceTime base after stamp := by
  have hafter := ordered_sinceStart run since
  rw [compactTrace, record_of_sinceStart run.ordered since] at listed ⊢
  exact (entered_record settings.max_pos hafter).entries stamp fun _ =>
    (placed_record settings.max_pos hafter).right.le_back listed

/-- Both traces have the same time stamps, so the compact one may be compared with the states that
the unfolded one has. -/
theorem tells_unfolded {stamp : ℕ} {entry : Option Char}
    (listed : stamp ∈ (trace clusters.toRegistry settings run).axis.timeStamps)
    (h : Tells clusters s ((run.endOf stamp).sched s = .scheduling)
      (fun t => (run.endOf stamp).task t = .executing) entry) :
    Tells clusters s
      (latest ((trace clusters.toRegistry settings run).tables.schedActivity s) stamp =
        some .scheduling)
      (fun t => latest ((trace clusters.toRegistry settings run).tables.taskActivity t) stamp =
        some .executing) entry := by
  have hsched : latest ((trace clusters.toRegistry settings run).tables.schedActivity s) stamp =
      some ((run.endOf stamp).sched s) :=
    (faithful_sched clusters.toRegistry settings run s).values stamp listed
  have htask : ∀ t, latest ((trace clusters.toRegistry settings run).tables.taskActivity t) stamp =
      some ((run.endOf stamp).task t) :=
    fun t => (faithful_task clusters.toRegistry settings run t).values stamp listed
  simp only [hsched, htask, Option.some.injEq]
  exact h

/-- The compact trace tells who holds the processor exactly if in every recorded instant the last
event of the cluster is one of whoever is then executing, and there are no more than ten tasks. -/
theorem compact_right_iff (one : ∀ instant, AtMostOne clusters s (run.endOf instant)) :
    CompactRight clusters settings run s ↔
      HolderMovesLast clusters settings run s ∧ clusters.taskVector.length ≤ 10 := by
  have recorded : ∀ {base after},
      sinceStart settings.startTraceTime run.deltas = some (base, after) →
        ∀ stamp, stamp ∈ (compactTrace clusters settings run).axis.timeStamps ↔
          Recorded (woken clusters.toRegistry) settings base after stamp :=
    fun since stamp => mem_timeStamps_record since stamp
  constructor
  · intro right
    refine ⟨?_, (labels_distinct_iff clusters).mp right.labels⟩
    intro base after since stamp hrecorded before now hlast
    have listed := (recorded since stamp).mpr hrecorded
    have changed : ChangedAt clusters run s stamp := by
      obtain ⟨early, hsplit, -⟩ := split_of_sinceStart run.ordered since
      rw [ChangedAt, hsplit, ← List.singleton_append, ← List.append_assoc, lastChange_append,
        lastValue_concat, hlast]
      rfl
    have tells := right.entries stamp listed changed
    rw [find_compactTrace since listed,
      tells_entryOf_iff since (hrecorded.start_le since) (one stamp) changed] at tells
    exact tells before now hlast
  · rintro ⟨moves, few⟩
    have entries : ∀ stamp ∈ (compactTrace clusters settings run).axis.timeStamps,
        ChangedAt clusters run s stamp →
          Tells clusters s ((run.endOf stamp).sched s = .scheduling)
            (fun t => (run.endOf stamp).task t = .executing)
            (find less stamp ((compactTrace clusters settings run).tables s)) := by
      intro stamp listed changed
      cases since : sinceStart settings.startTraceTime run.deltas with
      | none =>
        rw [compactTrace, record_before (early_of_sinceStart since)] at listed
        cases listed
      | some pair =>
        have hrecorded := (recorded since stamp).mp listed
        rw [find_compactTrace since listed,
          tells_entryOf_iff since (hrecorded.start_le since) (one stamp) changed]
        exact moves pair.1 pair.2 since stamp hrecorded
    refine ⟨entries, (labels_distinct_iff clusters).mpr few, label_ne, ?_⟩
    · intro stamp listed changed
      refine tells_unfolded ?_ (entries stamp listed changed)
      cases since : sinceStart settings.startTraceTime run.deltas with
      | none =>
        rw [compactTrace, record_before (early_of_sinceStart since)] at listed
        cases listed
      | some pair =>
        exact (mem_timeStamps_record since stamp).mpr ((recorded since stamp).mp listed)

end Runs

/-! ### Two runs -/

section Examples

theorem mem_both (t : Bool) : t ∈ [true, false] := by
  cases t with
  | true => exact List.mem_cons_self
  | false => exact List.mem_cons_of_mem _ List.mem_cons_self

/-- Two tasks of one scheduler. -/
def twoTasks : Clusters Bool Unit where
  taskInfoByName := [true, false]
  schedsByName := [()]
  allTasks := mem_both
  allScheds _ := List.mem_cons_self
  taskVector := [true, false]
  nodup := by decide
  created := mem_both
  tasksAssigned _ := [true, false]

def twoStamps : Settings := ⟨10, 2, le_rfl⟩

def states (first second : TaskState) (sched : SchedState) : Snapshot Bool Unit :=
  ⟨fun t => if t then first else second, fun _ => sched⟩

/-- The first task begins to execute after its scheduler has chosen it. -/
def started : Run (Snapshot Bool Unit) where
  initial := states .ready .inactiveWaitPeriod .innactive
  deltas := [(10, states .ready .inactiveWaitPeriod .innactive),
    (20, states .ready .inactiveWaitPeriod .scheduling),
    (20, states .ready .inactiveWaitPeriod .innactive),
    (20, states .executing .inactiveWaitPeriod .innactive)]
  ordered := by decide

/-- While the first task executes, the period of the second one ends. -/
def released : Run (Snapshot Bool Unit) where
  initial := states .executing .inactiveWaitPeriod .innactive
  deltas := [(10, states .executing .inactiveWaitPeriod .innactive),
    (20, states .executing .ready .innactive)]
  ordered := by decide

theorem atMostOne_states {first second : TaskState} {sched : SchedState}
    (idle : second ≠ .executing) (alone : sched = .scheduling → first ≠ .executing) :
    AtMostOne twoTasks () (states first second sched) where
  alone scheduling t _ := by
    cases t with
    | true => exact alone scheduling
    | false => exact idle
  unique t _ u _ hexec hother := by
    cases t with
    | false => exact absurd hexec idle
    | true =>
      cases u with
      | true => rfl
      | false => exact absurd hother idle

theorem atMostOne_started (instant : ℕ) : AtMostOne twoTasks () (started.endOf instant) := by
  refine atMostOne_endOf (atMostOne_states (by decide) (by decide)) (fun delta listed => ?_) instant
  simp only [started, List.mem_cons, List.not_mem_nil, or_false] at listed
  rcases listed with rfl | rfl | rfl | rfl <;> exact atMostOne_states (by decide) (by decide)

theorem atMostOne_released (instant : ℕ) : AtMostOne twoTasks () (released.endOf instant) := by
  refine atMostOne_endOf (atMostOne_states (by decide) (by decide)) (fun delta listed => ?_) instant
  simp only [released, List.mem_cons, List.not_mem_nil, or_false] at listed
  rcases listed with rfl | rfl <;> exact atMostOne_states (by decide) (by decide)

theorem holderMovesLast_started : HolderMovesLast twoTasks twoStamps started () := by
  intro base after since stamp _ before now hlast
  have hsince : sinceStart 10 started.deltas = some (states .ready .inactiveWaitPeriod .innactive,
      started.deltas.tail) := rfl
  cases since.symm.trans hsince
  obtain ⟨delta, listed, rfl⟩ := mem_of_lastChange hlast
  have htime : delta.1 = 20 := by
    have hall : ∀ d ∈ started.deltas.tail, d.1 = 20 := by simp [started]
    exact hall delta listed
  have hvalue : lastChange (clusterEvent twoTasks ()) 20
      (states .ready .inactiveWaitPeriod .innactive) started.deltas.tail =
        some (states .ready .inactiveWaitPeriod .innactive,
          states .executing .inactiveWaitPeriod .innactive) := rfl
  rw [htime] at hlast
  cases hlast.symm.trans hvalue
  refine ⟨by simp [states], fun t _ => ?_⟩
  cases t with
  | true => simp [states]
  | false => simp [states]

theorem started_right : CompactRight twoTasks twoStamps started () :=
  (compact_right_iff atMostOne_started).mpr ⟨holderMovesLast_started, by decide⟩

/-- The entry of the instant says that nobody executes, because only the other task has an event. -/
theorem idle_while_executing :
    (∀ instant, AtMostOne twoTasks () (released.endOf instant)) ∧
      (released.endOf 20).task true = .executing ∧
      find less 20 ((compactTrace twoTasks twoStamps released).tables ()) = some 'X' ∧
      ¬ CompactRight twoTasks twoStamps released () := by
  have hentry : find less 20 ((compactTrace twoTasks twoStamps released).tables ()) = some 'X' := by
    decide
  refine ⟨atMostOne_released, rfl, hentry, fun right => ?_⟩
  have hlabel := (right.entries 20 (by decide) rfl).task true (by simp [twoTasks]) rfl
  rw [hentry] at hlabel
  exact absurd hlabel (by decide)

end Examples

end Kista.Tracing.CompactTrace
