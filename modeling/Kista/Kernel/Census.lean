/- Kista/Kernel/Census
   digest: How many processes of a system stand at points of one kind, and what the step of one
   process does to that number. -/

import Mathlib.Algebra.BigOperators.Group.Finset.Piecewise
import Mathlib.Algebra.Order.BigOperators.Group.Finset
import Mathlib.Data.Fintype.Basic

set_option autoImplicit false
set_option relaxedAutoImplicit false

namespace Kista.Kernel.Census

variable {π ρ : Type*} [Fintype π]

def census (kind : ρ → Bool) (point : π → ρ) : ℕ :=
  ∑ p, (kind (point p)).toNat

theorem census_eq_zero {kind : ρ → Bool} {point : π → ρ} :
    census kind point = 0 ↔ ∀ p, kind (point p) = false := by
  simp only [census, Finset.sum_eq_zero_iff, Finset.mem_univ, true_imp_iff,
    Bool.toNat_eq_zero]

theorem census_pos {kind : ρ → Bool} {point : π → ρ} :
    0 < census kind point ↔ ∃ p, kind (point p) = true := by
  rw [Nat.pos_iff_ne_zero, Ne, census_eq_zero]
  simp only [not_forall, Bool.not_eq_false]

/-- One process leaves its point and takes another. -/
theorem census_update [DecidableEq π] (kind : ρ → Bool) (point : π → ρ) (p : π) (r : ρ) :
    census kind (Function.update point p r) + (kind (point p)).toNat =
      census kind point + (kind r).toNat := by
  have moved : (fun q => (kind (Function.update point p r q)).toNat) =
      Function.update (fun q => (kind (point q)).toNat) p (kind r).toNat := by
    ext q
    exact Function.apply_update (fun _ r => (kind r).toNat) point p r q
  have others : census kind point =
      (kind (point p)).toNat + ∑ q ∈ Finset.univ \ {p}, (kind (point q)).toNat := by
    rw [census, ← Finset.sum_update_of_mem (Finset.mem_univ p), Function.update_eq_self]
  rw [others, census, moved, Finset.sum_update_of_mem (Finset.mem_univ p)]
  omega

theorem census_move [DecidableEq π] (kind : ρ → Bool) {point : π → ρ} {p : π} {r : ρ}
    (at' : point p = r) (r' : ρ) :
    census kind (Function.update point p r') + (kind r).toNat =
      census kind point + (kind r').toNat := by
  rw [← at']
  exact census_update kind point p r'

end Kista.Kernel.Census
