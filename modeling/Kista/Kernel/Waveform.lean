/- Kista/Kernel/Waveform
   digest: The value of a signal over time from its changes, and the time that it spends at
   some of its values. -/

import Mathlib.Data.List.Chain
import Mathlib.Data.List.Induction
import Mathlib.Data.Nat.Count

set_option autoImplicit false
set_option relaxedAutoImplicit false

/-!
A value holds from its change to the next one. Several changes may come at one instant; only the
last of them takes any time.
-/

namespace Kista.Kernel.Waveform

variable {α : Type*}

/-- The changes of a signal with their times: in order, each to a new value. -/
structure Wave (initial : α) where
  changes : List (ℕ × α)
  ordered : changes.Pairwise fun earlier later => earlier.1 ≤ later.1
  changing : (initial :: changes.map Prod.snd).IsChain fun old new => old ≠ new

/-- The value after the last of the changes. -/
def lastValue (initial : α) (changes : List (ℕ × α)) : α :=
  (changes.getLast?.map Prod.snd).getD initial

/-- The value in the unit of time that starts at `n`. -/
def valueAt (initial : α) (changes : List (ℕ × α)) (n : ℕ) : α :=
  lastValue initial (changes.filter fun change => change.1 ≤ n)

/-- How long the value meets a condition up to time `t`. -/
def timeIn (p : α → Prop) [DecidablePred p] (initial : α) (changes : List (ℕ × α)) (t : ℕ) : ℕ :=
  Nat.count (fun n => p (valueAt initial changes n)) t

variable {initial : α} {changes : List (ℕ × α)}

@[simp] theorem lastValue_nil : lastValue initial [] = initial := rfl

@[simp] theorem lastValue_concat (change : ℕ × α) :
    lastValue initial (changes ++ [change]) = change.2 := by
  simp [lastValue]

theorem lastValue_cons (change : ℕ × α) :
    lastValue initial (change :: changes) = lastValue change.2 changes := by
  rw [lastValue, List.getLast?_cons, lastValue]
  cases changes.getLast? <;> rfl

/-- A longer list of changes is changing if its last one changes the value. -/
theorem changing_concat {change : ℕ × α} :
    (initial :: (changes ++ [change]).map Prod.snd).IsChain (fun old new => old ≠ new) ↔
      (initial :: changes.map Prod.snd).IsChain (fun old new => old ≠ new) ∧
        lastValue initial changes ≠ change.2 := by
  have last : (initial :: changes.map Prod.snd).getLast? = some (lastValue initial changes) := by
    rw [List.getLast?_cons, List.getLast?_map, lastValue]
  rw [List.map_append, List.map_singleton, ← List.cons_append, List.isChain_append, last]
  simp

theorem valueAt_concat_of_lt {change : ℕ × α} {n : ℕ} (early : n < change.1) :
    valueAt initial (changes ++ [change]) n = valueAt initial changes n := by
  simp [valueAt, List.filter_append, Nat.not_le.mpr early]

theorem valueAt_concat_of_le {change : ℕ × α} {n : ℕ} (late : change.1 ≤ n) :
    valueAt initial (changes ++ [change]) n = change.2 := by
  simp [valueAt, List.filter_append, late]

theorem lastValue_append {first second : List (ℕ × α)} :
    lastValue initial (first ++ second) = lastValue (lastValue initial first) second := by
  cases hsecond : second.getLast? <;> simp [lastValue, List.getLast?_append, hsecond]

theorem valueAt_append {first second : List (ℕ × α)} {n : ℕ} :
    valueAt initial (first ++ second) n = valueAt (valueAt initial first n) second n := by
  rw [valueAt, List.filter_append, lastValue_append]
  rfl

/-- Nothing after an instant: its value is the last one. -/
theorem valueAt_of_le {n : ℕ} (early : ∀ change ∈ changes, change.1 ≤ n) :
    valueAt initial changes n = lastValue initial changes := by
  have hall : changes.filter (fun change => change.1 ≤ n) = changes := by
    rw [List.filter_eq_self]
    exact fun change listed => decide_eq_true (early change listed)
  rw [valueAt, hall]

/-- A value is the first one or one that the signal has changed to. -/
theorem valueAt_mem (n : ℕ) : valueAt initial changes n ∈ initial :: changes.map Prod.snd := by
  rw [valueAt, lastValue]
  cases hlast : (changes.filter fun change => change.1 ≤ n).getLast? with
  | none => exact List.mem_cons_self
  | some change =>
    have listed := List.mem_filter.mp (List.mem_of_getLast? hlast)
    exact List.mem_cons_of_mem _ (List.mem_map_of_mem listed.1)

section LastChange

variable {changed : α → α → Bool}

/-- The last change at an instant that passes a test, with the value before it. -/
def lastChange (changed : α → α → Bool) (n : ℕ) : α → List (ℕ × α) → Option (α × α)
  | _, [] => none
  | before, change :: changes =>
    (lastChange changed n change.2 changes).or
      (if change.1 = n ∧ changed before change.2 = true then some (before, change.2) else none)

theorem lastChange_concat {change : ℕ × α} {n : ℕ} :
    lastChange changed n initial (changes ++ [change]) =
      if change.1 = n ∧ changed (lastValue initial changes) change.2 = true then
        some (lastValue initial changes, change.2)
      else lastChange changed n initial changes := by
  induction changes generalizing initial with
  | nil =>
    rw [List.nil_append, lastValue_nil]
    rfl
  | cons first changes ih =>
    rw [List.cons_append, lastChange, ih, lastValue_cons, lastChange]
    split
    · rw [Option.some_or]
    · rfl

theorem lastChange_append {first second : List (ℕ × α)} {n : ℕ} :
    lastChange changed n initial (first ++ second) =
      (lastChange changed n (lastValue initial first) second).or
        (lastChange changed n initial first) := by
  induction second using List.reverseRecOn with
  | nil => rw [List.append_nil, lastChange, Option.none_or]
  | append_singleton second change ih =>
    rw [← List.append_assoc, lastChange_concat, lastChange_concat, lastValue_append, ih]
    split
    · rw [Option.some_or]
    · rfl

theorem mem_of_lastChange {n : ℕ} {pair : α × α}
    (h : lastChange changed n initial changes = some pair) : ∃ change ∈ changes, change.1 = n := by
  induction changes generalizing initial with
  | nil => cases h
  | cons first changes ih =>
    rw [lastChange, Option.or_eq_some_iff] at h
    rcases h with later | ⟨-, here⟩
    · obtain ⟨change, listed, hn⟩ := ih later
      exact ⟨change, List.mem_cons_of_mem _ listed, hn⟩
    · split at here
      · rename_i due
        exact ⟨first, List.mem_cons_self, due.1⟩
      · cases here

variable {β : Type*} (view : α → β)

/-- What only changes that pass the test can change is at the end of the instant as the last of
them has left it. -/
theorem view_of_lastChange
    (tested : ∀ before now, view now ≠ view before → changed before now = true)
    (ordered : changes.Pairwise fun earlier later => earlier.1 ≤ later.1) {n : ℕ} {pair : α × α}
    (h : lastChange changed n initial changes = some pair) :
    view (valueAt initial changes n) = view pair.2 := by
  induction changes using List.reverseRecOn generalizing pair with
  | nil => cases h
  | append_singleton changes change ih =>
    obtain ⟨hbefore, -, hlast⟩ := List.pairwise_append.mp ordered
    rw [lastChange_concat] at h
    split at h
    · rename_i due
      cases h
      rw [valueAt_concat_of_le due.1.le]
    · rename_i other
      by_cases late : change.1 ≤ n
      · -- the delta is at the instant and has changed nothing
        obtain ⟨earlier, listed, hn⟩ := mem_of_lastChange h
        have hchange : change.1 = n := by
          have := hlast earlier listed change (List.mem_singleton_self change)
          omega
        have hsame : view change.2 = view (lastValue initial changes) := by
          by_contra different
          exact other ⟨hchange, tested _ _ different⟩
        have hvalue : valueAt initial changes n = lastValue initial changes :=
          valueAt_of_le fun d hd => by
            have := hlast d hd change (List.mem_singleton_self change)
            omega
        rw [valueAt_concat_of_le late, hsame, ← hvalue]
        exact ih hbefore h
      · rw [valueAt_concat_of_lt (Nat.lt_of_not_le late)]
        exact ih hbefore h

/-- Without such a change at the first instant nothing has changed there. -/
theorem view_of_no_lastChange
    (tested : ∀ before now, view now ≠ view before → changed before now = true)
    (ordered : changes.Pairwise fun earlier later => earlier.1 ≤ later.1) {n : ℕ}
    (first : ∀ change ∈ changes, n ≤ change.1)
    (h : lastChange changed n initial changes = none) :
    view (valueAt initial changes n) = view initial := by
  induction changes using List.reverseRecOn with
  | nil => rfl
  | append_singleton changes change ih =>
    obtain ⟨hbefore, -, hlast⟩ := List.pairwise_append.mp ordered
    have hfirst : ∀ d ∈ changes, n ≤ d.1 := fun d hd => first d (List.mem_append_left _ hd)
    rw [lastChange_concat] at h
    split at h
    · cases h
    · rename_i other
      by_cases late : change.1 ≤ n
      · have hchange : change.1 = n := Nat.le_antisymm late (first change (by simp))
        have hsame : view change.2 = view (lastValue initial changes) := by
          by_contra different
          exact other ⟨hchange, tested _ _ different⟩
        have hvalue : valueAt initial changes n = lastValue initial changes :=
          valueAt_of_le fun d hd => by
            have := hlast d hd change (List.mem_singleton_self change)
            omega
        rw [valueAt_concat_of_le late, hsame, ← hvalue]
        exact ih hbefore hfirst h
      · rw [valueAt_concat_of_lt (Nat.lt_of_not_le late)]
        exact ih hbefore hfirst h

end LastChange

variable {p : α → Prop} [DecidablePred p]

theorem timeIn_nil (t : ℕ) : timeIn p initial [] t = if p initial then t else 0 := by
  unfold timeIn
  split
  · rename_i holds
    exact Nat.count_of_forall fun _ _ => holds
  · rename_i fails
    exact Nat.count_of_forall_not fun _ _ => fails

/-- What a change adds to the time that was spent before it. -/
theorem timeIn_concat {change : ℕ × α} {t : ℕ} (later : change.1 ≤ t) :
    timeIn p initial (changes ++ [change]) t =
      timeIn p initial changes change.1 + if p change.2 then t - change.1 else 0 := by
  obtain ⟨d, rfl⟩ := Nat.exists_eq_add_of_le later
  have before : timeIn p initial (changes ++ [change]) change.1 =
      timeIn p initial changes change.1 := by
    apply Nat.le_antisymm
    · refine Nat.count_mono_left fun n early holds => ?_
      rwa [valueAt_concat_of_lt early] at holds
    · refine Nat.count_mono_left fun n early holds => ?_
      rwa [valueAt_concat_of_lt early]
  have after : ∀ k, valueAt initial (changes ++ [change]) (change.1 + k) = change.2 := by
    intro k
    exact valueAt_concat_of_le (Nat.le_add_right _ _)
  rw [← before, timeIn, Nat.count_add, Nat.add_sub_cancel_left]
  congr 1
  split
  · rename_i holds
    refine Nat.count_of_forall fun k _ => ?_
    rwa [after]
  · rename_i fails
    refine Nat.count_of_forall_not fun k _ => ?_
    rwa [after]

end Kista.Kernel.Waveform
