/- Kista/Containers/Ranges
   source: lists of inclusive ranges, independent of any program
   digest: The elements that a list of ranges covers, and what taking elements out of one range
   leaves. -/

import Mathlib.Data.List.Pairwise
import Mathlib.Data.Set.Lattice
import Mathlib.Order.CompletePartialOrder
import Mathlib.Order.Interval.Set.Basic

set_option autoImplicit false
set_option relaxedAutoImplicit false

namespace Kista.Containers.Ranges

/-- The range `(2, 4)` holds 2, 3 and 4. -/
abbrev Range := ℕ × ℕ

def elements (range : Range) : Set ℕ := Set.Icc range.1 range.2

def covered (table : List Range) : Set ℕ := {x | ∃ range ∈ table, x ∈ elements range}

/-- No range is empty and no two have an element in common. -/
structure Apart (table : List Range) : Prop where
  nonempty : ∀ range ∈ table, range.1 ≤ range.2
  disjoint : table.Pairwise fun first second => Disjoint (elements first) (elements second)

theorem mem_elements {range : Range} {x : ℕ} :
    x ∈ elements range ↔ range.1 ≤ x ∧ x ≤ range.2 := Iff.rfl

@[simp] theorem covered_nil : covered [] = ∅ := by
  ext x
  simp [covered]

@[simp] theorem covered_cons (range : Range) (table : List Range) :
    covered (range :: table) = elements range ∪ covered table := by
  ext x
  simp [covered]

@[simp] theorem covered_append (first second : List Range) :
    covered (first ++ second) = covered first ∪ covered second := by
  induction first with
  | nil => simp
  | cons range first ih => rw [List.cons_append, covered_cons, covered_cons, ih, Set.union_assoc]

/-- An element lies in one range only. -/
theorem Apart.unique {table : List Range} (h : Apart table) {range range' : Range}
    (mem : range ∈ table) (mem' : range' ∈ table) {x : ℕ} (inside : x ∈ elements range)
    (inside' : x ∈ elements range') : range = range' := by
  by_contra distinct
  have symm : Std.Symm fun first second : Range => Disjoint (elements first) (elements second) :=
    ⟨fun _ _ disjoint => disjoint.symm⟩
  exact Set.disjoint_left.mp (h.disjoint.forall mem mem' distinct) inside inside'

/-- Elements taken out of one range are covered no longer, and all others still are. -/
theorem Apart.covered_replace {before after new : List Range} {range : Range} {taken : Set ℕ}
    (h : Apart (before ++ range :: after)) (inside : taken ⊆ elements range)
    (rest : covered new = elements range \ taken) :
    covered (before ++ (new ++ after)) = covered (before ++ range :: after) \ taken := by
  have others : ∀ table, (∀ r ∈ table, Disjoint (elements range) (elements r)) →
      covered table \ taken = covered table := by
    intro table apart
    rw [sdiff_eq_left, Set.disjoint_left]
    rintro x ⟨r, mem, within⟩ out
    exact Set.disjoint_left.mp (apart r mem) (inside out) within
  obtain ⟨-, ⟨later, -⟩, earlier⟩ : _ ∧ _ ∧ _ := by
    simpa only [List.pairwise_append, List.pairwise_cons] using h.disjoint
  rw [covered_append, covered_append, covered_append, covered_cons, rest, Set.union_sdiff_distrib,
    Set.union_sdiff_distrib, others after later,
    others before fun r mem => (earlier r mem range List.mem_cons_self).symm]

end Kista.Containers.Ranges
