/- Kista/Containers/LinearKeys
   source: maps whose keys are linearly ordered, independent of any program
   digest: Assignment and search under a linear order, and the latest entry of a table whose keys
   only grow. -/

import Mathlib.Data.Set.Basic
import Mathlib.Order.Defs.LinearOrder
import Kista.Containers.OrderedMap

set_option autoImplicit false
set_option relaxedAutoImplicit false

namespace Kista.Containers.LinearKeys

open OrderedMap

variable {κ α : Type} [LinearOrder κ]

def less (a b : κ) : Bool := decide (a < b)

theorem incomparable_iff {a b : κ} : Incomparable less a b ↔ a = b := by
  simp only [Incomparable, less, decide_eq_false_iff_not, not_lt]
  constructor
  · rintro ⟨above, below⟩
    exact le_antisymm below above
  · rintro rfl
    exact ⟨le_rfl, le_rfl⟩

theorem order : StrictWeakOn (less : κ → κ → Bool) Set.univ where
  irrefl a _ := by simp [less]
  asymm a _ b _ below := by
    simp only [less, decide_eq_true_eq, decide_eq_false_iff_not, not_lt] at below ⊢
    exact le_of_lt below
  trans a _ b _ c _ first second := by
    simp only [less, decide_eq_true_eq] at first second ⊢
    exact lt_trans first second
  incomparable_trans a _ b _ c _ first second := by
    rw [incomparable_iff] at first second ⊢
    exact first.trans second

/-- The keys increase strictly. -/
def Increasing (table : Entries κ α) : Prop := Sorted less Set.univ table

theorem increasing_nil : Increasing ([] : Entries κ α) := sorted_nil

theorem Increasing.assign {table : Entries κ α} (h : Increasing table) (key : κ) (value : α) :
    Increasing (OrderedMap.assign less key value table) :=
  Sorted.assign order (Set.mem_univ key) value h

theorem find_assign_key {table : Entries κ α} (h : Increasing table) (key wanted : κ) (value : α) :
    find less wanted (assign less key value table) =
      if key = wanted then some value else find less wanted table := by
  rw [find_assign order (Set.mem_univ key) (Set.mem_univ wanted) value h]
  simp only [incomparable_iff]

/-! ### Tables that grow at their end -/

/-- No key is above the given one. -/
def UpTo (table : Entries κ α) (key : κ) : Prop := ∀ entry ∈ table, entry.1 ≤ key

/-- The value of the last entry whose key is not above the given one. -/
def latest (table : Entries κ α) (key : κ) : Option α :=
  ((table.filter fun entry => decide (entry.1 ≤ key)).getLast?).map Prod.snd

theorem UpTo.mono {table : Entries κ α} {low high : κ} (h : UpTo table low) (hle : low ≤ high) :
    UpTo table high :=
  fun entry listed => le_trans (h entry listed) hle

theorem UpTo.assign {table : Entries κ α} {key : κ} (h : UpTo table key) (value : α) :
    UpTo (OrderedMap.assign less key value table) key := by
  intro entry listed
  rcases mem_assign listed with same | ⟨old, member, same⟩
  · exact le_of_eq same
  · rw [← same]
    exact h old member

/-- An entry at the end replaces the last one of its key, if there is one. -/
theorem assign_end {table : Entries κ α} (h : Increasing table) {key : κ} (upTo : UpTo table key)
    (value : α) : assign less key value table =
      table.filter (fun entry => decide (entry.1 < key)) ++ [(key, value)] := by
  induction table with
  | nil => rfl
  | cons first rest ih =>
    obtain ⟨k, old⟩ := first
    have hk : k ≤ key := upTo (k, old) List.mem_cons_self
    rw [assign, List.filter_cons]
    by_cases below : k < key
    · have hless : less k key = true := decide_eq_true below
      rw [if_pos hless, if_pos (decide_eq_true below), List.cons_append,
        ih h.tail fun entry listed => upTo entry (List.mem_cons_of_mem _ listed)]
    · -- the first key is the given one, so nothing comes after it
      obtain rfl : k = key := le_antisymm hk (not_lt.mp below)
      have hrest : rest = [] := by
        rw [List.eq_nil_iff_forall_not_mem]
        intro entry listed
        have above := (List.pairwise_cons.mp h.increasing).1 entry listed
        rw [less, decide_eq_true_eq] at above
        exact absurd (upTo entry (List.mem_cons_of_mem _ listed)) (not_le.mpr above)
      have hless : less k k = false := decide_eq_false (lt_irrefl k)
      rw [hless, if_neg Bool.false_ne_true, if_neg Bool.false_ne_true,
        if_neg (by simp), hrest, List.filter_nil, List.nil_append]

/-- An entry at the end is the latest one from its key on, and hidden before. -/
theorem latest_assign {table : Entries κ α} (h : Increasing table) {key : κ}
    (upTo : UpTo table key) (value : α) (wanted : κ) :
    latest (assign less key value table) wanted =
      if key ≤ wanted then some value else latest table wanted := by
  rw [latest, assign_end h upTo, List.filter_append, List.filter_filter]
  split
  · rename_i late
    have hlast : [(key, value)].filter (fun entry => decide (entry.1 ≤ wanted)) =
        [(key, value)] := by
      simp [late]
    rw [hlast, List.getLast?_concat]
    rfl
  · rename_i early
    have hnone : [(key, value)].filter (fun entry => decide (entry.1 ≤ wanted)) = [] := by
      simp [early]
    have hsame : table.filter (fun entry => decide (entry.1 ≤ wanted) && decide (entry.1 < key)) =
        table.filter fun entry => decide (entry.1 ≤ wanted) := by
      apply List.filter_congr
      intro entry _
      rw [Bool.and_eq_left_iff_imp, decide_eq_true_eq, decide_eq_true_eq]
      exact fun hle => lt_of_le_of_lt hle (not_le.mp early)
    rw [hnone, hsame, List.append_nil, latest]

/-- Past the last key the latest entry does not change any more. -/
theorem latest_past {table : Entries κ α} {low high : κ} (upTo : UpTo table low)
    (hle : low ≤ high) : latest table high = latest table low := by
  have hall : ∀ key, UpTo table key →
      table.filter (fun entry => decide (entry.1 ≤ key)) = table := by
    intro key h
    rw [List.filter_eq_self]
    exact fun entry listed => decide_eq_true (h entry listed)
  rw [latest, latest, hall high (upTo.mono hle), hall low upTo]

end Kista.Containers.LinearKeys
