/- Kista/Containers/Sorting
   source: a sort that takes a comparison, independent of any program
   digest: What a sort promises under a strict weak order, and how far it may choose among
   equals. -/

import Mathlib.Data.List.Sort
import Kista.Containers.OrderedMap

set_option autoImplicit false
set_option relaxedAutoImplicit false

/-!
A sort returns a permutation in which nothing is below an element before it. Where two elements
are incomparable it may return them in either order.
-/

namespace Kista.Containers.Sorting

open Kista.Containers.OrderedMap

variable {α κ : Type*}

/-- No element is below one that comes before it. -/
def Ascending (lt : α → α → Bool) (l : List α) : Prop :=
  l.Pairwise fun x y => lt y x = false

structure Sorts (sort : (α → α → Bool) → List α → List α) : Prop where
  perm : ∀ lt l, StrictWeakOn lt Set.univ → (sort lt l).Perm l
  ascending : ∀ lt l, StrictWeakOn lt Set.univ → Ascending lt (sort lt l)

/-- A comparison of keys from a linear order is a strict weak order. -/
theorem strictWeakOn_of_key [LinearOrder κ] (key : α → κ) {lt : α → α → Bool}
    (compares : ∀ x y, lt x y = true ↔ key x < key y) : StrictWeakOn lt Set.univ where
  irrefl a _ := by
    rw [← Bool.not_eq_true, compares]
    exact lt_irrefl _
  asymm a _ b _ below := by
    rw [← Bool.not_eq_true, compares]
    exact lt_asymm ((compares a b).mp below)
  trans a _ b _ c _ first second := by
    rw [compares] at first second ⊢
    exact first.trans second
  incomparable_trans a _ b _ c _ first second := by
    simp only [Incomparable, ← Bool.not_eq_true, compares, not_lt] at first second ⊢
    exact ⟨second.1.trans first.1, first.2.trans second.2⟩

section StrictWeak

variable {lt : α → α → Bool} (weak : StrictWeakOn lt Set.univ)

include weak

theorem not_below_total (x y : α) : lt y x = false ∨ lt x y = false := by
  cases below : lt x y with
  | false => exact Or.inr rfl
  | true => exact Or.inl (weak.asymm x trivial y trivial below)

theorem not_below_trans {x y z : α} (first : lt y x = false) (second : lt z y = false) :
    lt z x = false := by
  rw [← Bool.not_eq_true] at first second ⊢
  intro below
  cases ahead : lt x y with
  | true => exact second (weak.trans z trivial x trivial y trivial below ahead)
  | false =>
    cases behind : lt y z with
    | true => exact first (weak.trans y trivial z trivial x trivial behind below)
    | false =>
      have incomparable : Incomparable lt x z :=
        weak.incomparable_trans x trivial y trivial z trivial
          ⟨ahead, by simpa using first⟩ ⟨behind, by simpa using second⟩
      rw [incomparable.2] at below
      exact Bool.false_ne_true below

end StrictWeak

/-- A stable sort. -/
def stableSort (lt : α → α → Bool) (l : List α) : List α :=
  l.insertionSort fun x y => lt y x = false

theorem stableSort_ascending {lt : α → α → Bool} (weak : StrictWeakOn lt Set.univ) (l : List α) :
    Ascending lt (stableSort lt l) := by
  have total : Std.Total fun x y => lt y x = false := ⟨not_below_total weak⟩
  have trans : IsTrans α fun x y => lt y x = false := ⟨fun _ _ _ => not_below_trans weak⟩
  exact List.pairwise_insertionSort _ l

theorem stableSort_sorts : Sorts (α := α) stableSort where
  perm _ l _ := List.perm_insertionSort _ l
  ascending _ l weak := stableSort_ascending weak l

/-- Among equals, one element comes first. -/
def favouringSort [DecidableEq α] (a : α) (lt : α → α → Bool) (l : List α) : List α :=
  stableSort lt (if a ∈ l then a :: l.erase a else l)

theorem favouringSort_sorts [DecidableEq α] (a : α) : Sorts (favouringSort a) where
  perm lt l _ := by
    apply (List.perm_insertionSort _ _).trans
    split
    next mem => exact (List.perm_cons_erase mem).symm
    next => exact List.Perm.refl l
  ascending _ _ weak := stableSort_ascending weak _

theorem favouringSort_first [DecidableEq α] {lt : α → α → Bool} {a b : α} {l : List α}
    (first : a ∈ l) (second : b ∈ l) (distinct : b ≠ a) (level : lt b a = false) :
    [a, b].Sublist (favouringSort a lt l) := by
  apply List.pair_sublist_insertionSort (r := fun x y => lt y x = false) level
  rw [if_pos first, List.cons_sublist_cons, List.singleton_sublist]
  exact (List.mem_erase_of_ne distinct).mpr second

/-- Every sort that only promises to sort by one comparison sorts by another one too exactly when
the latter is no finer on the elements. -/
theorem ascending_for_all_sorts_iff [DecidableEq α] {lt lt' : α → α → Bool}
    (weak : StrictWeakOn lt Set.univ) (weak' : StrictWeakOn lt' Set.univ) (l : List α) :
    (∀ sort, Sorts sort → Ascending lt' (sort lt l)) ↔
      ∀ a ∈ l, ∀ b ∈ l, lt b a = false → lt' b a = false := by
  constructor
  · intro always a first b second level
    by_cases same : b = a
    · rw [same]
      exact weak'.irrefl a trivial
    · have ascending := always (favouringSort a) (favouringSort_sorts a)
      have pair := ascending.sublist (favouringSort_first first second same level)
      exact List.rel_of_pairwise_cons pair List.mem_cons_self
  · intro coarser sort sorts
    have mem : ∀ x ∈ sort lt l, x ∈ l := fun x => (sorts.perm lt l weak).mem_iff.mp
    apply (sorts.ascending lt l weak).imp_of_mem
    intro x y first second level
    exact coarser x (mem x first) y (mem y second) level

end Kista.Containers.Sorting
