/- Kista/Tracing/TimeAxis
   source: src/src/tikz_activity_trace.cpp, tikz_activity_trace.hpp
   digest: The recording processes of an activity trace with what they share: the wait for the start
   time, the vector of time stamps with its index, and the limit. -/

import Mathlib.Data.List.Induction
import Kista.Containers.LinearKeys
import Kista.Kernel.Waveform

set_option autoImplicit false
set_option relaxedAutoImplicit false

/-!
A delta is seen as its time and the values that the signals have in it; the deltas of a run are
those after the initialization, in which a recorder starts its wait. A recorder waits for its start
time, and from then on runs in every delta in which a signal that it is sensitive to has changed.
The two recorders differ in the tables that they fill.
-/

namespace Kista.Tracing.TimeAxis

open Containers.OrderedMap
open Containers.LinearKeys
open Kernel.Waveform

/-- `time_stamps` with `time_stamps_index`, and the next index. -/
structure Axis where
  timeStamps : List ℕ
  timeStampsIndex : Entries ℕ ℕ
  i : ℕ
  deriving DecidableEq

def Axis.init : Axis := ⟨[], [], 0⟩

def Axis.push (a : Axis) (currentTime : ℕ) : Axis where
  timeStamps := a.timeStamps ++ [currentTime]
  timeStampsIndex := assign less currentTime a.i a.timeStampsIndex
  i := a.i + 1

/-- `time_stamps.back()`. -/
def Axis.back (a : Axis) : ℕ := a.timeStamps.getLastD 0

inductive Phase where
  | waiting
  | recording
  | ended
  deriving DecidableEq

variable {δ σ : Type}

structure Recorder (σ : Type) where
  phase : Phase
  axis : Axis
  tables : σ

/-- A simulation as a recorder sees it: the first values, and the deltas in the order of time. -/
structure Run (δ : Type) where
  initial : δ
  deltas : List (ℕ × δ)
  ordered : deltas.Pairwise fun earlier later => earlier.1 ≤ later.1

/-- The values at the end of an instant. -/
def Run.endOf (run : Run δ) (instant : ℕ) : δ := valueAt run.initial run.deltas instant

/-- The configuration of a trace. -/
structure Settings where
  startTraceTime : ℕ
  maxTimeStamps : ℕ
  two_le : 2 ≤ maxTimeStamps

theorem Settings.max_pos (settings : Settings) : 0 < settings.maxTimeStamps :=
  Nat.lt_of_lt_of_le Nat.two_pos settings.two_le

/-- What a recorder does on its own: the initial state that it dumps, and what it collects in a
delta from the values before and in it. -/
structure Style (δ σ : Type) where
  woken : δ → δ → Bool
  dump : ℕ → δ → σ → σ
  collect : ℕ → δ → δ → σ → σ

/-- The recorder in one delta. -/
def turn (style : Style δ σ) (startTraceTime maxTimeStamps : ℕ) (before : δ) (delta : ℕ × δ)
    (r : Recorder σ) : Recorder σ :=
  match r.phase with
  | .waiting =>
    if delta.1 = startTraceTime then
      ⟨.recording, r.axis.push delta.1, style.dump delta.1 delta.2 r.tables⟩
    else r
  | .recording =>
    if style.woken before delta.2 = true ∧ r.axis.back ≤ delta.1 then
      if r.axis.back < delta.1 then
        if r.axis.timeStamps.length < maxTimeStamps then
          ⟨.recording, r.axis.push delta.1, style.collect delta.1 before delta.2 r.tables⟩
        else { r with phase := .ended }
      else { r with tables := style.collect delta.1 before delta.2 r.tables }
    else r
  | .ended => r

/-- The recorder after a sequence of deltas. -/
def record (style : Style δ σ) (startTraceTime maxTimeStamps : ℕ) (initial : δ) (r : Recorder σ)
    (deltas : List (ℕ × δ)) : Recorder σ :=
  (deltas.foldl
    (fun s delta => (delta.2, turn style startTraceTime maxTimeStamps s.1 delta s.2))
    (initial, r)).2

variable {style : Style δ σ} {start max : ℕ} {initial before : δ} {r : Recorder σ}
  {deltas : List (ℕ × δ)} {delta : ℕ × δ}

@[simp] theorem record_nil : record style start max initial r [] = r := rfl

theorem fold_value : (deltas.foldl
    (fun s delta => (delta.2, turn style start max s.1 delta s.2)) (initial, r)).1 =
      lastValue initial deltas := by
  induction deltas using List.reverseRecOn with
  | nil => rfl
  | append_singleton deltas delta _ =>
    rw [List.foldl_append, lastValue_concat]
    rfl

/-- The last delta is recorded against the values before it. -/
theorem record_concat : record style start max initial r (deltas ++ [delta]) =
    turn style start max (lastValue initial deltas) delta
      (record style start max initial r deltas) := by
  rw [record, List.foldl_append, List.foldl_cons, List.foldl_nil, fold_value]
  rfl

theorem record_cons : record style start max initial r (delta :: deltas) =
    record style start max delta.2 (turn style start max initial delta r) deltas := rfl

theorem record_append {first second : List (ℕ × δ)} :
    record style start max initial r (first ++ second) =
      record style start max (lastValue initial first) (record style start max initial r first)
        second := by
  induction second using List.reverseRecOn with
  | nil => rw [List.append_nil, record_nil]
  | append_singleton second delta ih =>
    rw [← List.append_assoc, record_concat, record_concat, ih, lastValue_append]

/-- A recorder that waits for its start time does nothing before. -/
theorem record_before {tables : σ} (early : ∀ delta ∈ deltas, delta.1 ≠ start) :
    record style start max initial ⟨.waiting, .init, tables⟩ deltas =
      ⟨.waiting, .init, tables⟩ := by
  induction deltas using List.reverseRecOn with
  | nil => rfl
  | append_singleton deltas delta ih =>
    rw [record_concat, ih fun d listed => early d (List.mem_append_left _ listed)]
    exact if_neg (early delta (by simp))

/-! ### What one delta can do -/

/-- Everything that can happen in a delta. -/
inductive Turn (style : Style δ σ) (start max : ℕ) (before : δ) (delta : ℕ × δ) (r : Recorder σ) :
    Recorder σ → Prop where
  | early (waiting : r.phase = .waiting) (other : delta.1 ≠ start) :
      Turn style start max before delta r r
  | begins (waiting : r.phase = .waiting) (due : delta.1 = start) :
      Turn style start max before delta r
        ⟨.recording, r.axis.push delta.1, style.dump delta.1 delta.2 r.tables⟩
  | silent (recording : r.phase = .recording)
      (none : style.woken before delta.2 = false ∨ delta.1 < r.axis.back) :
      Turn style start max before delta r r
  | grows (recording : r.phase = .recording) (awake : style.woken before delta.2 = true)
      (later : r.axis.back < delta.1) (room : r.axis.timeStamps.length < max) :
      Turn style start max before delta r
        ⟨.recording, r.axis.push delta.1, style.collect delta.1 before delta.2 r.tables⟩
  | ends (recording : r.phase = .recording) (awake : style.woken before delta.2 = true)
      (later : r.axis.back < delta.1) (full : max ≤ r.axis.timeStamps.length) :
      Turn style start max before delta r { r with phase := .ended }
  | merges (recording : r.phase = .recording) (awake : style.woken before delta.2 = true)
      (same : delta.1 = r.axis.back) :
      Turn style start max before delta r
        { r with tables := style.collect delta.1 before delta.2 r.tables }
  | past (ended : r.phase = .ended) : Turn style start max before delta r r

theorem turn_cases (style : Style δ σ) (start max : ℕ) (before : δ) (delta : ℕ × δ)
    (r : Recorder σ) :
    Turn style start max before delta r (turn style start max before delta r) := by
  obtain ⟨phase, axis, tables⟩ := r
  cases phase with
  | waiting =>
    simp only [turn]
    split
    · rename_i due
      exact .begins rfl due
    · rename_i other
      exact .early rfl other
  | recording =>
    simp only [turn]
    split
    · rename_i awake
      split
      · rename_i later
        split
        · rename_i room
          exact .grows rfl awake.1 later room
        · rename_i full
          exact .ends rfl awake.1 later (Nat.le_of_not_lt full)
      · rename_i notLater
        exact .merges rfl awake.1 (Nat.le_antisymm (Nat.le_of_not_lt notLater) awake.2)
    · rename_i asleep
      refine .silent rfl ?_
      by_cases hwoken : style.woken before delta.2 = true
      · exact .inr (Nat.lt_of_not_le fun hle => asleep ⟨hwoken, hle⟩)
      · exact .inl (by simpa using hwoken)
  | ended => exact .past rfl

/-! ### The time stamps -/

/-- The stamps increase from the start time on, there are no more than allowed, and the index is
the inverse of the vector. -/
structure Axis.Right (start max : ℕ) (a : Axis) : Prop where
  increasing : a.timeStamps.Pairwise fun earlier later => earlier < later
  begins : a.timeStamps.head? = some start
  bounded : a.timeStamps.length ≤ max
  counter : a.i = a.timeStamps.length
  sorted : Increasing a.timeStampsIndex
  inverse : ∀ stamp n,
    find less stamp a.timeStampsIndex = some n ↔ a.timeStamps[n]? = some stamp

@[simp] theorem Axis.timeStamps_push (a : Axis) (t : ℕ) :
    (a.push t).timeStamps = a.timeStamps ++ [t] := rfl

@[simp] theorem Axis.timeStampsIndex_push (a : Axis) (t : ℕ) :
    (a.push t).timeStampsIndex = assign less t a.i a.timeStampsIndex := rfl

theorem Axis.push_init_right (room : 0 < max) : (Axis.init.push start).Right start max where
  increasing := List.pairwise_singleton _ _
  begins := rfl
  bounded := room
  counter := rfl
  sorted := increasing_nil.assign start 0
  inverse stamp n := by
    have hindex : find less stamp (Axis.init.push start).timeStampsIndex =
        if start = stamp then some 0 else none := find_assign_key increasing_nil start stamp 0
    rw [hindex]
    cases n <;> simp [Axis.init]

theorem Axis.back_push (a : Axis) (t : ℕ) : (a.push t).back = t := by
  rw [Axis.back, Axis.push, List.getLastD_concat]

namespace Axis.Right

variable {a : Axis}

theorem ne_nil (h : a.Right start max) : a.timeStamps ≠ [] := by
  intro empty
  have hbegins := h.begins
  rw [empty] at hbegins
  cases hbegins

theorem exists_split (h : a.Right start max) : ∃ earlier, a.timeStamps = earlier ++ [a.back] := by
  obtain ⟨earlier, last, hsplit⟩ := List.eq_nil_or_concat a.timeStamps |>.resolve_left h.ne_nil
  rw [List.concat_eq_append] at hsplit
  refine ⟨earlier, ?_⟩
  rw [Axis.back, hsplit, List.getLastD_concat]

theorem le_back (h : a.Right start max) {stamp : ℕ} (listed : stamp ∈ a.timeStamps) :
    stamp ≤ a.back := by
  obtain ⟨earlier, hsplit⟩ := h.exists_split
  have hincreasing := h.increasing
  rw [hsplit, List.pairwise_append] at hincreasing
  rw [hsplit] at listed
  rcases List.mem_append.mp listed with before | last
  · exact Nat.le_of_lt (hincreasing.2.2 stamp before a.back (List.mem_singleton_self _))
  · exact Nat.le_of_eq (List.mem_singleton.mp last)

theorem back_mem (h : a.Right start max) : a.back ∈ a.timeStamps := by
  obtain ⟨earlier, hsplit⟩ := h.exists_split
  rw [hsplit]
  exact List.mem_append_right _ (List.mem_singleton_self a.back)

/-- A stamp above all others is put at the end, and its index after all others. -/
theorem push (h : a.Right start max) {t : ℕ} (later : a.back < t)
    (room : a.timeStamps.length < max) : (a.push t).Right start max where
  increasing := by
    rw [Axis.push, List.pairwise_append]
    refine ⟨h.increasing, List.pairwise_singleton _ _, fun stamp listed last hlast => ?_⟩
    rw [List.mem_singleton.mp hlast]
    exact Nat.lt_of_le_of_lt (h.le_back listed) later
  begins := by
    rw [Axis.push, List.head?_append, h.begins]
    rfl
  bounded := by
    rw [Axis.push, List.length_append, List.length_singleton]
    exact room
  counter := by
    rw [Axis.push, List.length_append, List.length_singleton, h.counter]
  sorted := h.sorted.assign t a.i
  inverse stamp n := by
    have hlength : (a.push t).timeStamps[n]? = some stamp ↔
        a.timeStamps[n]? = some stamp ∨ n = a.timeStamps.length ∧ stamp = t := by
      rw [Axis.push, List.getElem?_append]
      split
      · rename_i inside
        simp only [Nat.ne_of_lt inside, false_and, or_false]
      · rename_i outside
        have habsent : a.timeStamps[n]? = none :=
          List.getElem?_eq_none (Nat.le_of_not_lt outside)
        rw [habsent, List.getElem?_singleton]
        by_cases last : n = a.timeStamps.length
        · simp [last, eq_comm]
        · have hpos : n - a.timeStamps.length ≠ 0 := by omega
          simp [hpos, last]
    rw [hlength, ← h.inverse, Axis.timeStampsIndex_push, find_assign_key h.sorted]
    by_cases same : t = stamp
    · subst same
      rw [if_pos rfl, h.counter, Option.some.injEq]
      constructor
      · intro hn
        exact .inr ⟨hn.symm, rfl⟩
      · rintro (old | ⟨hn, -⟩)
        · have hold := List.mem_of_getElem? ((h.inverse t n).mp old)
          exact absurd (h.le_back hold) (Nat.not_le.mpr later)
        · exact hn.symm
    · rw [if_neg same]
      constructor
      · exact .inl
      · rintro (old | ⟨-, hstamp⟩)
        · exact old
        · exact absurd hstamp.symm same

end Axis.Right

/-- What holds of the time stamps of a recorder after a sequence of deltas. -/
structure Timed (start max : ℕ) (deltas : List (ℕ × δ)) (r : Recorder σ) : Prop where
  waiting : r.phase = .waiting → r.axis = .init ∧ ∀ delta ∈ deltas, delta.1 ≠ start
  right : r.phase ≠ .waiting → r.axis.Right start max

theorem timed_init {tables : σ} :
    Timed start max ([] : List (ℕ × δ)) ⟨.waiting, .init, tables⟩ where
  waiting _ := ⟨rfl, by simp⟩
  right h := absurd rfl h

theorem Timed.turn (room : 0 < max) (h : Timed start max deltas r) :
    Timed start max (deltas ++ [delta]) (TimeAxis.turn style start max before delta r) := by
  have hcases := turn_cases style start max before delta r
  generalize TimeAxis.turn style start max before delta r = next at hcases
  cases hcases with
  | early waiting other =>
    obtain ⟨haxis, hnone⟩ := h.waiting waiting
    refine ⟨fun _ => ⟨haxis, fun d listed => ?_⟩, h.right⟩
    rcases List.mem_append.mp listed with earlier | this
    · exact hnone d earlier
    · rwa [List.mem_singleton.mp this]
  | begins waiting due =>
    refine ⟨by simp, fun _ => ?_⟩
    rw [(h.waiting waiting).1, due]
    exact Axis.push_init_right room
  | silent recording none => exact ⟨by simp [recording], h.right⟩
  | grows recording awake later space =>
    exact ⟨by simp, fun _ => (h.right (by simp [recording])).push later space⟩
  | ends recording awake later full => exact ⟨by simp, fun _ => h.right (by simp [recording])⟩
  | merges recording awake same => exact ⟨by simp [recording], h.right⟩
  | past ended => exact ⟨by simp [ended], h.right⟩

theorem timed_record (room : 0 < max) {tables : σ} :
    Timed start max deltas (record style start max initial ⟨.waiting, .init, tables⟩ deltas) := by
  induction deltas using List.reverseRecOn with
  | nil => exact timed_init
  | append_singleton deltas delta ih =>
    rw [record_concat]
    exact ih.turn room

/-! ### Tables of signals -/

/-- A signal that the recorder is sensitive to, with the table that it fills for it. -/
structure Watches {α : Type} (style : Style δ σ) (signal : δ → α) (table : σ → Entries ℕ α) :
    Prop where
  awake : ∀ before now, signal now ≠ signal before → style.woken before now = true
  dump : ∀ t now tables, table (style.dump t now tables) = assign less t (signal now) (table tables)
  changed : ∀ t before now tables, signal now ≠ signal before →
    table (style.collect t before now tables) = assign less t (signal now) (table tables)
  unchanged : ∀ t before now tables, signal now = signal before →
    table (style.collect t before now tables) = table tables

/-- What holds of a recorder and one of its tables after a sequence of deltas. -/
structure Faithful {α : Type} (signal : δ → α) (table : σ → Entries ℕ α)
    (initial : δ) (deltas : List (ℕ × δ)) (r : Recorder σ) : Prop where
  waiting : r.phase = .waiting → table r.tables = []
  increasing : Increasing (table r.tables)
  upTo : UpTo (table r.tables) r.axis.back
  values : ∀ stamp ∈ r.axis.timeStamps,
    latest (table r.tables) stamp = some (signal (valueAt initial deltas stamp))
  settled : r.phase = .recording →
    signal (valueAt initial deltas r.axis.back) = signal (lastValue initial deltas)
  reached : r.phase = .recording → ∃ delta ∈ deltas, r.axis.back ≤ delta.1
  passed : r.phase = .ended → ∃ delta ∈ deltas, r.axis.back < delta.1

section Faithfulness

variable {α : Type} {signal : δ → α} {table : σ → Entries ℕ α}

theorem faithful_init {tables : σ} (empty : table tables = []) :
    Faithful signal table initial [] ⟨.waiting, .init, tables⟩ where
  waiting _ := empty
  increasing := by
    rw [empty]
    exact increasing_nil
  upTo := by
    rw [empty]
    intro entry listed
    cases listed
  values _ listed := by cases listed
  settled h := by cases h
  reached h := by cases h
  passed h := by cases h

section Collecting

variable {tables : σ} {t wanted : ℕ} {now : δ}

theorem increasing_collect (watches : Watches style signal table)
    (increasing : Increasing (table tables)) :
    Increasing (table (style.collect t before now tables)) := by
  by_cases same : signal now = signal before
  · rwa [watches.unchanged t before now tables same]
  · rw [watches.changed t before now tables same]
    exact increasing.assign t _

theorem upTo_collect (watches : Watches style signal table) (upTo : UpTo (table tables) t) :
    UpTo (table (style.collect t before now tables)) t := by
  by_cases same : signal now = signal before
  · rwa [watches.unchanged t before now tables same]
  · rw [watches.changed t before now tables same]
    exact upTo.assign _

theorem latest_collect_early (watches : Watches style signal table)
    (increasing : Increasing (table tables)) (upTo : UpTo (table tables) t) (early : wanted < t) :
    latest (table (style.collect t before now tables)) wanted = latest (table tables) wanted := by
  by_cases same : signal now = signal before
  · rw [watches.unchanged t before now tables same]
  · rw [watches.changed t before now tables same, latest_assign increasing upTo,
      if_neg (Nat.not_le.mpr early)]

/-- A table that knew the value before knows the value after. -/
theorem latest_collect_late (watches : Watches style signal table)
    (increasing : Increasing (table tables)) (upTo : UpTo (table tables) t) (late : t ≤ wanted)
    (known : latest (table tables) wanted = some (signal before)) :
    latest (table (style.collect t before now tables)) wanted = some (signal now) := by
  by_cases same : signal now = signal before
  · rw [watches.unchanged t before now tables same, known, same]
  · rw [watches.changed t before now tables same, latest_assign increasing upTo, if_pos late]

end Collecting

namespace Faithful

variable (timed : Timed start max deltas r) (h : Faithful signal table initial deltas r)

include timed h

theorem early (waiting : r.phase = .waiting) :
    Faithful signal table initial (deltas ++ [delta]) r := by
  refine ⟨h.waiting, h.increasing, h.upTo, ?_, ?_, ?_, ?_⟩
  · intro stamp listed
    rw [(timed.waiting waiting).1] at listed
    cases listed
  all_goals
    intro hphase
    rw [waiting] at hphase
    cases hphase

theorem begins (watches : Watches style signal table) (waiting : r.phase = .waiting) :
    Faithful signal table initial (deltas ++ [delta])
      ⟨.recording, r.axis.push delta.1, style.dump delta.1 delta.2 r.tables⟩ := by
  have hnew : table (style.dump delta.1 delta.2 r.tables) = [(delta.1, signal delta.2)] := by
    rw [watches.dump, h.waiting waiting]
    rfl
  have hback : (r.axis.push delta.1).back = delta.1 := Axis.back_push ..
  have hvalue : valueAt initial (deltas ++ [delta]) delta.1 = delta.2 :=
    valueAt_concat_of_le le_rfl
  refine ⟨by simp, ?_, ?_, ?_, fun _ => ?_, fun _ => ?_, by simp⟩
  · rw [watches.dump]
    exact h.increasing.assign _ _
  · rw [hnew, hback]
    intro entry listed
    rw [List.mem_singleton.mp listed]
  · intro stamp listed
    rw [(timed.waiting waiting).1] at listed
    obtain rfl : stamp = delta.1 := List.mem_singleton.mp listed
    rw [hnew, hvalue]
    simp [latest]
  · rw [hback, hvalue, lastValue_concat]
  · exact ⟨delta, by simp, hback.le⟩

/-- A delta in which the recorder sleeps has not changed the signal. -/
theorem silent (watches : Watches style signal table)
    (ordered : ∀ earlier ∈ deltas, earlier.1 ≤ delta.1) (recording : r.phase = .recording)
    (none : style.woken (lastValue initial deltas) delta.2 = false ∨ delta.1 < r.axis.back) :
    Faithful signal table initial (deltas ++ [delta]) r := by
  obtain ⟨d, hd, hreached⟩ := h.reached recording
  have hright := timed.right (by simp [recording])
  have hback : r.axis.back ≤ delta.1 := hreached.trans (ordered d hd)
  have hsame : signal delta.2 = signal (lastValue initial deltas) := by
    by_contra changed
    have hwoken := watches.awake _ _ changed
    rcases none with asleep | behind
    · rw [asleep] at hwoken
      cases hwoken
    · omega
  have hvalue : ∀ stamp, stamp ≤ r.axis.back →
      signal (valueAt initial (deltas ++ [delta]) stamp) =
        signal (valueAt initial deltas stamp) := by
    intro stamp hstamp
    by_cases late : delta.1 ≤ stamp
    · obtain rfl : stamp = r.axis.back := by omega
      rw [valueAt_concat_of_le late, hsame, h.settled recording]
    · rw [valueAt_concat_of_lt (Nat.lt_of_not_le late)]
  refine ⟨by simp [recording], h.increasing, h.upTo, ?_, fun _ => ?_, fun _ => ?_,
    by simp [recording]⟩
  · intro stamp listed
    rw [hvalue stamp (hright.le_back listed)]
    exact h.values stamp listed
  · rw [hvalue _ le_rfl, h.settled recording, lastValue_concat, hsame]
  · exact ⟨d, List.mem_append_left _ hd, hreached⟩

/-- The latest entry in the present is the value before the delta. -/
theorem known (recording : r.phase = .recording) {t : ℕ} (later : r.axis.back ≤ t) :
    latest (table r.tables) t = some (signal (lastValue initial deltas)) := by
  have hright := timed.right (by simp [recording])
  rw [latest_past h.upTo later, h.values _ hright.back_mem, h.settled recording]

theorem grows (watches : Watches style signal table) (recording : r.phase = .recording)
    (later : r.axis.back < delta.1) :
    Faithful signal table initial (deltas ++ [delta])
      ⟨.recording, r.axis.push delta.1,
        style.collect delta.1 (lastValue initial deltas) delta.2 r.tables⟩ := by
  have hright := timed.right (by simp [recording])
  have hback : (r.axis.push delta.1).back = delta.1 := Axis.back_push ..
  have hupTo : UpTo (table r.tables) delta.1 := h.upTo.mono later.le
  have hvalue : valueAt initial (deltas ++ [delta]) delta.1 = delta.2 :=
    valueAt_concat_of_le le_rfl
  refine ⟨by simp, increasing_collect watches h.increasing, ?_, ?_, fun _ => ?_, fun _ => ?_,
    by simp⟩
  · rw [hback]
    exact upTo_collect watches hupTo
  · intro stamp listed
    rcases List.mem_append.mp listed with old | new
    · have early : stamp < delta.1 := (hright.le_back old).trans_lt later
      rw [latest_collect_early watches h.increasing hupTo early, valueAt_concat_of_lt early]
      exact h.values stamp old
    · obtain rfl : stamp = delta.1 := List.mem_singleton.mp new
      rw [hvalue]
      exact latest_collect_late watches h.increasing hupTo le_rfl (known timed h recording later.le)
  · rw [hback, hvalue, lastValue_concat]
  · exact ⟨delta, by simp, hback.le⟩

/-- After the last stamp nothing changes the value at a stamp. -/
theorem values_past {d : ℕ × δ} (hphase : r.phase ≠ .waiting) (later : r.axis.back < d.1) :
    ∀ stamp ∈ r.axis.timeStamps,
      latest (table r.tables) stamp = some (signal (valueAt initial (deltas ++ [d]) stamp)) := by
  intro stamp listed
  have early : stamp < d.1 := ((timed.right hphase).le_back listed).trans_lt later
  rw [valueAt_concat_of_lt early]
  exact h.values stamp listed

theorem ends (recording : r.phase = .recording) (later : r.axis.back < delta.1) :
    Faithful signal table initial (deltas ++ [delta]) { r with phase := .ended } :=
  ⟨by simp, h.increasing, h.upTo, values_past timed h (by simp [recording]) later, by simp, by simp,
    fun _ => ⟨delta, by simp, later⟩⟩

theorem merges (watches : Watches style signal table) (recording : r.phase = .recording)
    (same : delta.1 = r.axis.back) :
    Faithful signal table initial (deltas ++ [delta])
      { r with tables := style.collect delta.1 (lastValue initial deltas) delta.2 r.tables } := by
  have hright := timed.right (by simp [recording])
  have hupTo : UpTo (table r.tables) delta.1 := h.upTo.mono same.ge
  have hvalue : valueAt initial (deltas ++ [delta]) delta.1 = delta.2 :=
    valueAt_concat_of_le le_rfl
  refine ⟨by simp [recording], increasing_collect watches h.increasing, ?_, ?_, fun _ => ?_,
    fun _ => ?_, by simp [recording]⟩
  · rw [← same]
    exact upTo_collect watches hupTo
  · intro stamp listed
    by_cases early : stamp < delta.1
    · rw [latest_collect_early watches h.increasing hupTo early, valueAt_concat_of_lt early]
      exact h.values stamp listed
    · have hle : stamp ≤ delta.1 := by
        rw [same]
        exact hright.le_back listed
      obtain rfl : stamp = delta.1 := by omega
      rw [hvalue]
      exact latest_collect_late watches h.increasing hupTo le_rfl (known timed h recording same.ge)
  · rw [← same, hvalue, lastValue_concat]
  · exact ⟨delta, by simp, same.ge⟩

theorem past (ordered : ∀ earlier ∈ deltas, earlier.1 ≤ delta.1) (ended : r.phase = .ended) :
    Faithful signal table initial (deltas ++ [delta]) r := by
  obtain ⟨d, hd, hlater⟩ := h.passed ended
  have later : r.axis.back < delta.1 := hlater.trans_le (ordered d hd)
  exact ⟨by simp [ended], h.increasing, h.upTo, values_past timed h (by simp [ended]) later,
    by simp [ended], by simp [ended], fun _ => ⟨delta, by simp, later⟩⟩

/-- One delta that does not come before the others keeps the tables faithful. -/
theorem turn (watches : Watches style signal table)
    (ordered : ∀ earlier ∈ deltas, earlier.1 ≤ delta.1) :
    Faithful signal table initial (deltas ++ [delta])
      (TimeAxis.turn style start max (lastValue initial deltas) delta r) := by
  have hcases := turn_cases style start max (lastValue initial deltas) delta r
  generalize TimeAxis.turn style start max (lastValue initial deltas) delta r = next at hcases
  cases hcases with
  | early waiting other => exact early timed h waiting
  | begins waiting due => exact begins timed h watches waiting
  | silent recording none => exact silent timed h watches ordered recording none
  | grows recording awake later space => exact grows timed h watches recording later
  | ends recording awake later full => exact ends timed h recording later
  | merges recording awake same => exact merges timed h watches recording same
  | past ended => exact past timed h ordered ended

end Faithful

/-- The recorder is faithful after every sequence of deltas in the order of time. -/
theorem faithful_record (watches : Watches style signal table) (room : 0 < max) {tables : σ}
    (empty : table tables = [])
    (ordered : deltas.Pairwise fun earlier later => earlier.1 ≤ later.1) :
    Faithful signal table initial deltas
      (record style start max initial ⟨.waiting, .init, tables⟩ deltas) := by
  induction deltas using List.reverseRecOn with
  | nil => exact faithful_init empty
  | append_singleton deltas delta ih =>
    obtain ⟨hbefore, -, hlast⟩ := List.pairwise_append.mp ordered
    rw [record_concat]
    exact Faithful.turn (timed_record room) (ih hbefore) watches fun earlier listed =>
      hlast earlier listed delta (List.mem_singleton_self delta)

end Faithfulness

end Kista.Tracing.TimeAxis
