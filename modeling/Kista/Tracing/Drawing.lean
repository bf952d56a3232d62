/- Kista/Tracing/Drawing
   source: src/src/tikz_activity_trace.cpp, src/src/defaults.hpp, src/src/sched_types.hpp
   digest: The export of an activity trace: the locations of the time stamps, and for each task,
   scheduler or cluster the coordinates of its events and the boxes between them. -/

import Mathlib.Algebra.Order.Group.Nat
import Mathlib.Data.List.GetD
import Kista.Numeric.Binary64
import Kista.Tracing.UnfoldedTrace

set_option autoImplicit false
set_option relaxedAutoImplicit false

/-!
A picture is the list of what the export writes, without the text around it. The vertical places
are left out: each row has a base line of its own, and `e0` of a row stands at the origin of it.
This is the flat export; the two clustered ones are not modelled. Quotients of times are doubles.
-/

namespace Kista.Tracing.Drawing

open Containers.OrderedMap Containers.LinearKeys TimeAxis UnfoldedTrace
open Numeric.Binary64
open Scheduling.Dispatch (TaskState)
open Scheduling.Rtos (SchedState)

/-! ### The time axis -/

def defaultMaxXLocation : ℕ := 20

/-- `time_spans` -/
def timeSpans : List ℕ → List ℕ
  | [] => []
  | [_] => []
  | previous :: next :: rest => (next - previous) :: timeSpans (next :: rest)

def maxGap (timeStamps : List ℕ) : ℕ := (timeSpans timeStamps).foldl max 0

/-- The division of a time by a number rounds to the nearest time. -/
def spanTimeGap (timeStampsMaxSeparation : ℕ) (timeStamps : List ℕ) : ℕ :=
  ⌊rounded (rounded (maxGap timeStamps / timeStampsMaxSeparation) + 1 / 2)⌋.toNat

/-- The `normalized_distance` and one, truncated and cut. -/
def spanValue (timeStampsMaxSeparation gap curGap : ℕ) : ℕ :=
  min ⌊rounded (rounded (curGap / gap) + 1)⌋.toNat timeStampsMaxSeparation

def spanVec (timeStampsMaxSeparation : ℕ) (timeStamps : List ℕ) : List ℕ :=
  (timeSpans timeStamps).map
    (spanValue timeStampsMaxSeparation (spanTimeGap timeStampsMaxSeparation timeStamps))

/-- `x_location` from a location on. -/
def locations : ℕ → List ℕ → List ℕ
  | x, [] => [x]
  | x, span :: spans => x :: locations (x + span) spans

/-- The start of `end_of_simulation`; there are errors for less than two time stamps and, in
`draw_time_axis`, for too long an axis, and a quotient by no time at all has no value. -/
def xLocation (timeStampsMaxSeparation : ℕ) (timeStamps : List ℕ) : Option (List ℕ) :=
  if timeStamps.length < 2 ∨ timeStampsMaxSeparation = 0 ∨
      spanTimeGap timeStampsMaxSeparation timeStamps = 0 then none
  else
    let xs := locations 0 (spanVec timeStampsMaxSeparation timeStamps)
    if defaultMaxXLocation < xs.getLastD 0 then none else some xs

def getSpan (xs : List ℕ) (curIndex nextIndex : ℕ) : ℕ := xs.getD nextIndex 0 - xs.getD curIndex 0

/-! ### Coordinates and boxes -/

inductive Fill where
  | noFilling
  | lighterGrey
  | darkerGrey
  deriving DecidableEq

/-- A scope at the coordinate of an event with its text and, unless it is left out, a rectangle. -/
structure Box (α : Type) where
  reference : ℕ
  xSpan : ℕ
  state : α
  rectangle : Option Fill
  deriving DecidableEq

variable {α : Type}

/-- `time_stamps_index[time]` -/
def index (axis : Axis) (time : ℕ) : ℕ := (find less time axis.timeStampsIndex).getD 0

/-- To read `time_stamps_index[time]` enters a time that is not there, with index zero. -/
def touch (axis : Axis) (time : ℕ) : Axis :=
  match find less time axis.timeStampsIndex with
  | some _ => axis
  | none => { axis with timeStampsIndex := assign less time 0 axis.timeStampsIndex }

/-- `time_stamps_index.rbegin()->second` -/
def lastIndex (axis : Axis) : ℕ := (axis.timeStampsIndex.getLast?.map Prod.snd).getD 0

/-- The path from an event on, to the last time stamp in any case. -/
def pathFrom (xs : List ℕ) : Axis → ℕ → Entries ℕ α → List (ℕ × ℕ) × Axis
  | axis, evTime, [] =>
    if evTime ≠ axis.back then
      ([(getSpan xs (index axis evTime) (lastIndex axis), lastIndex axis)], axis)
    else ([], axis)
  | axis, evTime, (nextEvTime, _) :: rest =>
    let touched := touch axis nextEvTime
    let later := pathFrom xs touched nextEvTime rest
    ((getSpan xs (index axis evTime) (index touched nextEvTime), index touched nextEvTime) ::
      later.1, later.2)

/-- `write_task_activity_path` and its sibling, with their checks of the first event. -/
def writeActivityPath (startTraceTime : ℕ) (xs : List ℕ) (table : Entries ℕ α) (axis : Axis) :
    Option (List (ℕ × ℕ) × Axis) :=
  match table with
  | [] => none
  | (evTime, _) :: rest =>
    let touched := touch axis evTime
    if evTime ≠ startTraceTime ∨ index touched evTime ≠ 0 then none
    else some (pathFrom xs touched evTime rest)

/-- `draw_task_activity` and its sibling. At the last event `next_ev_it->first` is read past the
end, which gives `pastEnd`, and looked up as well; an event after the last time stamp is an
error. -/
def drawActivity (shade : α → Option Fill) (xs : List ℕ) (pastEnd : ℕ) :
    Entries ℕ α → Axis → Option (List (Box α) × Axis)
  | [], axis => some ([], axis)
  | [(evTime, state)], axis =>
    let touched := touch (touch axis evTime) pastEnd
    if evTime = axis.back then some ([], touched)
    else if evTime < axis.back then
      some ([⟨index touched evTime,
        getSpan xs (index touched evTime) (axis.timeStamps.length - 1), state, shade state⟩],
        touched)
    else none
  | (evTime, state) :: (nextEvTime, next) :: rest, axis =>
    let touched := touch (touch axis evTime) nextEvTime
    (drawActivity shade xs pastEnd ((nextEvTime, next) :: rest) touched).map fun later =>
      (⟨index touched evTime, getSpan xs (index touched evTime) (index touched nextEvTime), state,
        shade state⟩ :: later.1, later.2)

def taskShade (showUnactiveBoxes : Bool) : TaskState → Option Fill
  | .executing => some .noFilling
  | .ready => if showUnactiveBoxes then some .lighterGrey else none
  | _ => if showUnactiveBoxes then some .darkerGrey else none

def schedShade (showUnactiveBoxes : Bool) : SchedState → Option Fill
  | .scheduling => some .noFilling
  | _ => if showUnactiveBoxes then some .darkerGrey else none

/-- What the user sets. -/
structure Options where
  timeStampsMaxSeparation : ℕ
  showSchedulersActivity : Bool
  showUnactiveBoxes : Bool

structure Picture (τ ρ : Type) where
  xLocation : List ℕ
  schedPaths : List (ρ × List (ℕ × ℕ))
  taskPaths : List (τ × List (ℕ × ℕ))
  schedBoxes : List (ρ × List (Box SchedState))
  taskBoxes : List (τ × List (Box TaskState))

/-- One row after the other, with the index as the ones before have left it. -/
def drawRows {ι β : Type} (draw : ι → Axis → Option (β × Axis)) :
    List ι → Axis → Option (List (ι × β) × Axis)
  | [], axis => some ([], axis)
  | i :: rest, axis =>
    (draw i axis).bind fun row =>
      (drawRows draw rest row.2).map fun later => ((i, row.1) :: later.1, later.2)

def shownScheds {τ ρ : Type} (options : Options) (registry : Registry τ ρ) : List ρ :=
  if options.showSchedulersActivity then registry.schedsByName else []

/-- `draw_flat_all` after the time axis: all paths come before the boxes. -/
def drawFlatAll {τ ρ : Type} (options : Options) (registry : Registry τ ρ) (startTraceTime : ℕ)
    (schedPastEnd : ρ → ℕ) (taskPastEnd : τ → ℕ) (axis : Axis) (activity : Activity τ ρ) :
    Option (Picture τ ρ) := do
  let scheds := shownScheds options registry
  let tasks := registry.taskInfoByName
  let xs ← xLocation options.timeStampsMaxSeparation axis.timeStamps
  let schedPaths ← drawRows
    (fun s => writeActivityPath startTraceTime xs (activity.schedActivity s)) scheds axis
  let taskPaths ← drawRows
    (fun t => writeActivityPath startTraceTime xs (activity.taskActivity t)) tasks schedPaths.2
  let schedBoxes ← drawRows
    (fun s => drawActivity (schedShade options.showUnactiveBoxes) xs (schedPastEnd s)
      (activity.schedActivity s)) scheds taskPaths.2
  let taskBoxes ← drawRows
    (fun t => drawActivity (taskShade options.showUnactiveBoxes) xs (taskPastEnd t)
      (activity.taskActivity t)) tasks schedBoxes.2
  return ⟨xs, schedPaths.1, taskPaths.1, schedBoxes.1, taskBoxes.1⟩

/-! ### What a row shows -/

/-- A row has a path of relative moves to the coordinates that it names by their index. -/
structure Row (α : Type) where
  path : List (ℕ × ℕ)
  boxes : List (Box α)
  deriving DecidableEq

/-- Where a path that has come to `x` puts a coordinate; the last one of a name counts. -/
def placeFrom : ℕ → List (ℕ × ℕ) → ℕ → Option ℕ
  | _, [], _ => none
  | x, (span, name) :: rest, wanted =>
    (placeFrom (x + span) rest wanted).or (if name = wanted then some (x + span) else none)

def Row.place (row : Row α) (wanted : ℕ) : Option ℕ :=
  (placeFrom 0 row.path wanted).or (if wanted = 0 then some 0 else none)

/-- A scope takes the space of its rectangle, drawn or not. -/
def Row.covers (row : Row α) (x : ℕ) (box : Box α) : Bool :=
  match row.place box.reference with
  | some left => decide (left ≤ x ∧ x < left + box.xSpan)
  | none => false

/-- The boxes over the unit from `x` to `x + 1`. -/
def Row.boxesAt (row : Row α) (x : ℕ) : List (Box α) := row.boxes.filter (row.covers x)

/-! ### The locations -/

theorem spanValue_pos {separation gap curGap : ℕ} (positive : separation ≠ 0) :
    1 ≤ spanValue separation gap curGap := by
  have quotient : 0 ≤ rounded ((curGap : ℚ) / gap) := rounded_nonneg (by positivity)
  have one : IsDouble 1 := by exact_mod_cast isDouble_natCast (n := 1) (by norm_num)
  have sum : 1 ≤ rounded (rounded ((curGap : ℚ) / gap) + 1) :=
    one.le_rounded one_pos (by linarith)
  have floor : 1 ≤ ⌊rounded (rounded ((curGap : ℚ) / gap) + 1)⌋ :=
    Int.le_floor.mpr (by exact_mod_cast sum)
  exact Nat.le_min.mpr ⟨by omega, Nat.one_le_iff_ne_zero.mpr positive⟩

theorem spanValue_le (separation gap curGap : ℕ) : spanValue separation gap curGap ≤ separation :=
  Nat.min_le_right _ _

theorem length_timeSpans (timeStamps : List ℕ) :
    (timeSpans timeStamps).length = timeStamps.length - 1 := by
  induction timeStamps with
  | nil => rfl
  | cons first rest ih =>
    cases rest with
    | nil => rfl
    | cons second rest =>
      rw [timeSpans, List.length_cons, ih]
      simp

@[simp] theorem length_locations (x : ℕ) (spans : List ℕ) :
    (locations x spans).length = spans.length + 1 := by
  induction spans generalizing x with
  | nil => rfl
  | cons span spans ih => rw [locations, List.length_cons, ih, List.length_cons]

theorem locations_zero (x : ℕ) (spans : List ℕ) : (locations x spans).getD 0 0 = x := by
  cases spans <;> rfl

theorem locations_succ (x : ℕ) (spans : List ℕ) {i : ℕ} (inside : i < spans.length) :
    (locations x spans).getD (i + 1) 0 = (locations x spans).getD i 0 + spans.getD i 0 := by
  induction spans generalizing x i with
  | nil => cases inside
  | cons span spans ih =>
    cases i with
    | zero =>
      rw [locations, List.getD_cons_succ, locations_zero, List.getD_cons_zero, List.getD_cons_zero]
    | succ i =>
      rw [locations, List.getD_cons_succ, List.getD_cons_succ, List.getD_cons_succ]
      exact ih (x + span) (Nat.lt_of_succ_lt_succ inside)

/-- The divisions of the axis in their order, none further from the next than allowed. -/
structure Spaced (separation : ℕ) (timeStamps xs : List ℕ) : Prop where
  length : xs.length = timeStamps.length
  origin : xs.getD 0 0 = 0
  apart : ∀ i, i + 1 < xs.length → xs.getD i 0 < xs.getD (i + 1) 0
  near : ∀ i, i + 1 < xs.length → xs.getD (i + 1) 0 ≤ xs.getD i 0 + separation

theorem spaced_xLocation {separation : ℕ} {timeStamps xs : List ℕ}
    (located : xLocation separation timeStamps = some xs) : Spaced separation timeStamps xs := by
  unfold xLocation at located
  split at located
  · cases located
  · rename_i drawn
    simp only [not_or, Nat.not_lt] at drawn
    obtain ⟨two, positive, -⟩ := drawn
    dsimp only at located
    split at located
    · cases located
    · cases located
      have hlength : (spanVec separation timeStamps).length = timeStamps.length - 1 := by
        rw [spanVec, List.length_map, length_timeSpans]
      have hspan : ∀ i, i < (spanVec separation timeStamps).length →
          1 ≤ (spanVec separation timeStamps).getD i 0 ∧
            (spanVec separation timeStamps).getD i 0 ≤ separation := by
        intro i inside
        rw [List.getD_eq_getElem _ _ inside]
        have mem := List.getElem_mem inside
        obtain ⟨gap, -, value⟩ := List.mem_map.mp mem
        rw [← value]
        exact ⟨spanValue_pos positive, spanValue_le _ _ _⟩
      have inside : ∀ i, i + 1 < (locations 0 (spanVec separation timeStamps)).length →
          i < (spanVec separation timeStamps).length := by
        intro i within
        rw [length_locations] at within
        omega
      refine ⟨?_, locations_zero _ _, ?_, ?_⟩
      · rw [length_locations, hlength]
        omega
      · intro i within
        have := (hspan i (inside i within)).1
        rw [locations_succ _ _ (inside i within)]
        omega
      · intro i within
        have := (hspan i (inside i within)).2
        rw [locations_succ _ _ (inside i within)]
        omega

theorem Spaced.lt {separation : ℕ} {timeStamps xs : List ℕ} (s : Spaced separation timeStamps xs)
    {i j : ℕ} (before : i < j) (inside : j < xs.length) : xs.getD i 0 < xs.getD j 0 := by
  induction j with
  | zero => cases before
  | succ j ih =>
    have next := s.apart j inside
    rcases Nat.lt_or_eq_of_le (Nat.le_of_lt_succ before) with earlier | rfl
    · exact (ih earlier (Nat.lt_of_succ_lt inside)).trans next
    · exact next

theorem Spaced.le {separation : ℕ} {timeStamps xs : List ℕ} (s : Spaced separation timeStamps xs)
    {i j : ℕ} (before : i ≤ j) (inside : j < xs.length) : xs.getD i 0 ≤ xs.getD j 0 := by
  rcases Nat.lt_or_eq_of_le before with earlier | rfl
  · exact (s.lt earlier inside).le
  · exact le_rfl

/-- A unit between two neighbours is to the right of the events up to the first of them. -/
theorem Spaced.le_iff {separation : ℕ} {timeStamps xs : List ℕ}
    (s : Spaced separation timeStamps xs) {i n x : ℕ} (next : i + 1 < xs.length)
    (from' : xs.getD i 0 ≤ x) (before : x < xs.getD (i + 1) 0) (inside : n < xs.length) :
    xs.getD n 0 ≤ x ↔ n ≤ i := by
  constructor
  · intro left
    by_contra later
    have past : i + 1 ≤ n := by omega
    have := s.le past inside
    omega
  · intro earlier
    exact (s.le earlier (Nat.lt_of_succ_lt next)).trans from'

end Kista.Tracing.Drawing
