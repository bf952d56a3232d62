/- Kista/Order/LeastFixedPoint
   digest: Least fixed points of a monotone map of a well-ordered type are its least
   pre-fixed points, so a bound on them is one instant at which the map has met its
   argument. -/

import Mathlib.Order.Bounds.Basic
import Mathlib.Order.WellFounded

set_option autoImplicit false
set_option relaxedAutoImplicit false

namespace Kista.Order.LeastFixedPoint

variable {α : Type*} [LinearOrder α] [WellFoundedLT α] {f : α → α}

/-- A monotone map that has met its argument once has a least such argument. -/
theorem exists_isLeast_prefixed {t : α} (ht : f t ≤ t) :
    ∃ m, IsLeast {x | f x ≤ x} m ∧ m ≤ t := by
  let s : Set α := {x | f x ≤ x}
  have hs : s.Nonempty := ⟨t, ht⟩
  have least : ∀ x ∈ s, wellFounded_lt.min s hs ≤ x := fun x hx =>
    not_lt.mp (WellFounded.not_lt_min wellFounded_lt s hx)
  exact ⟨wellFounded_lt.min s hs, ⟨wellFounded_lt.min_mem s hs, least⟩, least t ht⟩

omit [WellFoundedLT α] in
theorem fixed_of_isLeast_prefixed (hf : Monotone f) {m : α}
    (hm : IsLeast {x | f x ≤ x} m) : m = f m := by
  have below : f m ≤ m := hm.1
  have above : m ≤ f m := hm.2 (hf below)
  exact le_antisymm above below

theorem isLeast_fixed_iff_isLeast_prefixed (hf : Monotone f) {m : α} :
    IsLeast {x | x = f x} m ↔ IsLeast {x | f x ≤ x} m := by
  constructor
  · intro h
    have fixed : m = f m := h.1
    obtain ⟨k, hk, hkm⟩ := exists_isLeast_prefixed (f := f) (t := m) fixed.symm.le
    have hmk : m ≤ k := h.2 (fixed_of_isLeast_prefixed hf hk)
    obtain rfl : m = k := le_antisymm hmk hkm
    exact hk
  · intro h
    exact ⟨fixed_of_isLeast_prefixed hf h, fun x hx => h.2 (le_of_eq (Eq.symm hx))⟩

/-- A least fixed point exists below `d` exactly when some argument below `d` has been met. -/
theorem exists_isLeast_fixed_le_iff (hf : Monotone f) {d : α} :
    (∃ m, IsLeast {x | x = f x} m ∧ m ≤ d) ↔ ∃ t ≤ d, f t ≤ t := by
  constructor
  · rintro ⟨m, hm, hmd⟩
    exact ⟨m, hmd, (isLeast_fixed_iff_isLeast_prefixed hf).mp hm |>.1⟩
  · rintro ⟨t, htd, ht⟩
    obtain ⟨m, hm, hmt⟩ := exists_isLeast_prefixed ht
    exact ⟨m, (isLeast_fixed_iff_isLeast_prefixed hf).mpr hm, hmt.trans htd⟩

end Kista.Order.LeastFixedPoint
