/- Kista/Containers/ArrayHeap
   source: a heap of arrays with explicit allocation, independent of any program
   digest: Arrays that are allocated with arbitrary contents, deleted once and copied element by
   element with an index of limited width, also onto themselves. -/

import Mathlib.Data.List.Basic
import Mathlib.Logic.Function.Basic

set_option autoImplicit false
set_option relaxedAutoImplicit false

/-!
An address without an array is free. To delete a free address or to leave an array has no result.
-/

namespace Kista.Containers.ArrayHeap

variable {κ α : Type}

abbrev Heap (κ α : Type) := κ → Option (List α)

/-- A pointer is null or an address. -/
abbrev Pointer (κ : Type) := Option κ

def read (p : Pointer κ) (heap : Heap κ α) (i : ℕ) : Option α := (p.bind heap).bind fun xs => xs[i]?

@[simp] theorem read_none (heap : Heap κ α) (i : ℕ) : read (none : Pointer κ) heap i = none := rfl

theorem read_some {heap : Heap κ α} {a : κ} {xs : List α} (h : heap a = some xs) (i : ℕ) :
    read (some a) heap i = xs[i]? := by
  rw [read, Option.bind_some, h, Option.bind_some]

variable [DecidableEq κ]

def write (a : κ) (heap : Heap κ α) (i : ℕ) (x : α) : Option (Heap κ α) :=
  (heap a).bind fun xs =>
    if i < xs.length then some (Function.update heap a (some (xs.set i x))) else none

/-- To delete the null pointer does nothing. -/
def delete : Pointer κ → Heap κ α → Option (Heap κ α)
  | none, heap => some heap
  | some a, heap => if (heap a).isSome then some (Function.update heap a none) else none

/-- A new array holds what happens to lie in its place. -/
def allocate (a : κ) (n : ℕ) (garbage : ℕ → α) (heap : Heap κ α) : Heap κ α :=
  Function.update heap a (some ((List.range n).map garbage))

/-- The copying loop, for a budget of turns, with an index that wraps around at the width. What it
copies is read from the heap as the loop has left it. -/
def copyLoop (width size : ℕ) (source : Heap κ α → ℕ → Option α) (target : κ) :
    ℕ → ℕ → Heap κ α → Option (Heap κ α)
  | 0, _, _ => none
  | budget + 1, i, heap =>
    if i < size then
      (source heap i).bind fun x =>
        (write target heap i x).bind fun heap' =>
          copyLoop width size source target budget ((i + 1) % width) heap'
    else some heap

variable {heap heap' : Heap κ α} {a b : κ} {xs ys : List α} {n : ℕ}

theorem write_eq (h : heap a = some xs) {i : ℕ} (hi : i < xs.length) (x : α) :
    write a heap i x = some (Function.update heap a (some (xs.set i x))) := by
  rw [write, h, Option.bind_some, if_pos hi]

theorem write_other {i : ℕ} {x : α} (h : write a heap i x = some heap') (hb : b ≠ a) :
    heap' b = heap b := by
  obtain ⟨xs, -, h⟩ := Option.bind_eq_some_iff.mp h
  split at h
  · cases h
    exact Function.update_of_ne hb ..
  · cases h

theorem delete_some (h : heap a = some xs) :
    delete (some a) heap = some (Function.update heap a none) := by
  rw [delete, h, Option.isSome_some, if_pos rfl]

theorem delete_free (h : heap a = none) : delete (some a) heap = none := by
  rw [delete, h, Option.isSome_none, if_neg Bool.false_ne_true]

/-- Deleting touches no other address. -/
theorem delete_other {p : Pointer κ} (h : delete p heap = some heap') (hb : p ≠ some b) :
    heap' b = heap b := by
  cases p with
  | none =>
    cases h
    rfl
  | some a =>
    rw [delete] at h
    split at h
    · cases h
      apply Function.update_of_ne
      rintro rfl
      exact hb rfl
    · cases h

@[simp] theorem allocate_self (garbage : ℕ → α) :
    allocate a n garbage heap a = some ((List.range n).map garbage) :=
  Function.update_self ..

theorem allocate_other (garbage : ℕ → α) (hb : b ≠ a) : allocate a n garbage heap b = heap b :=
  Function.update_of_ne hb ..

section Copying

variable {width size : ℕ} {source : Heap κ α → ℕ → Option α}

/-- An index that cannot reach the size never lets the loop end. -/
theorem copyLoop_running (hwidth : 0 < width) (long : width ≤ size) {budget i : ℕ}
    (hi : i < width) : copyLoop width size source a budget i heap = none := by
  induction budget generalizing i heap with
  | zero => rfl
  | succ budget ih =>
    rw [copyLoop, if_pos (Nat.lt_of_lt_of_le hi long), Option.bind_eq_none_iff]
    intro x _
    rw [Option.bind_eq_none_iff]
    intro heap' _
    exact ih (Nat.mod_lt _ hwidth)

/-- The loop writes nothing but its target. -/
theorem copyLoop_other {budget i : ℕ} (h : copyLoop width size source a budget i heap = some heap')
    (hb : b ≠ a) : heap' b = heap b := by
  induction budget generalizing i heap with
  | zero => cases h
  | succ budget ih =>
    rw [copyLoop] at h
    split at h
    · obtain ⟨x, -, h⟩ := Option.bind_eq_some_iff.mp h
      obtain ⟨written, hwrite, h⟩ := Option.bind_eq_some_iff.mp h
      exact (ih h).trans (write_other hwrite hb)
    · cases h
      rfl

/-- What the target holds when the loop has come to an index. -/
def copied (xs ys : List α) (i : ℕ) : List α := ys.take i ++ xs.drop i

theorem copied_all (same : xs.length = ys.length) : copied xs ys ys.length = ys := by
  rw [copied, List.take_length, List.drop_of_length_le (Nat.le_of_eq same), List.append_nil]

theorem length_copied (same : xs.length = ys.length) (i : ℕ) :
    (copied xs ys i).length = ys.length := by
  rw [copied, List.length_append, List.length_take, List.length_drop]
  omega

theorem set_copied (same : xs.length = ys.length) {i : ℕ} (hi : i < ys.length) :
    (copied xs ys i).set i ys[i] = copied xs ys (i + 1) := by
  have htake : (ys.take i).length = i := List.length_take_of_le (Nat.le_of_lt hi)
  have hdrop : xs.drop i = xs[i] :: xs.drop (i + 1) := List.drop_eq_getElem_cons (same ▸ hi)
  rw [copied, copied, List.set_append_right i _ (Nat.le_of_eq htake), htake, Nat.sub_self, hdrop,
    List.set_cons_zero, List.take_succ_eq_append_getElem hi, List.append_assoc,
    List.singleton_append]

/-- The loop copies what it reads, provided that what it has written so far does not disturb what
it still has to read. -/
theorem copyLoop_eq (same : xs.length = ys.length) (short : ys.length < width)
    (reads : ∀ i (hi : i < ys.length),
      source (Function.update heap a (some (copied xs ys i))) i = some ys[i])
    {budget i : ℕ} (enough : ys.length ≤ i + budget) (hi : i ≤ ys.length) :
    copyLoop width ys.length source a (budget + 1) i
        (Function.update heap a (some (copied xs ys i))) =
      some (Function.update heap a (some ys)) := by
  induction budget generalizing i with
  | zero =>
    obtain rfl : i = ys.length := by omega
    rw [copyLoop, if_neg (Nat.lt_irrefl _), copied_all same]
  | succ budget ih =>
    by_cases hend : i < ys.length
    · have hwrap : (i + 1) % width = i + 1 := Nat.mod_eq_of_lt (by omega)
      have hlength : i < (copied xs ys i).length := by rwa [length_copied same]
      rw [copyLoop, if_pos hend, reads i hend, Option.bind_some,
        write_eq (Function.update_self ..) hlength, Option.bind_some, Function.update_idem,
        set_copied same hend, hwrap]
      exact ih (by omega) hend
    · obtain rfl : i = ys.length := by omega
      rw [copyLoop, if_neg hend, copied_all same]

/-- The same from the start of the loop on an array that is in place. -/
theorem copyLoop_array (hold : heap a = some xs) (same : xs.length = ys.length)
    (short : ys.length < width)
    (reads : ∀ i (hi : i < ys.length),
      source (Function.update heap a (some (copied xs ys i))) i = some ys[i]) :
    copyLoop width ys.length source a (ys.length + 1) 0 heap =
      some (Function.update heap a (some ys)) := by
  have hstart : Function.update heap a (some (copied xs ys 0)) = heap := by
    rw [copied, List.take_zero, List.nil_append, List.drop_zero, ← hold, Function.update_eq_self]
  have hloop : copyLoop width ys.length source a (ys.length + 1) 0
      (Function.update heap a (some (copied xs ys 0))) = some (Function.update heap a (some ys)) :=
    copyLoop_eq same short reads (by omega) (by omega)
  rwa [hstart] at hloop

end Copying

end Kista.Containers.ArrayHeap
