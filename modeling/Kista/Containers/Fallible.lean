/- Kista/Containers/Fallible
   source: computations that may fail, independent of any program
   digest: When a computation that may fail succeeds. -/

import Mathlib.Data.Nat.Notation

set_option autoImplicit false
set_option relaxedAutoImplicit false

namespace Kista.Containers.Fallible

variable {ε α β : Type} {x : Except ε α}

theorem bind_eq_ok {f : α → Except ε β} {b : β} :
    x >>= f = .ok b ↔ ∃ a, x = .ok a ∧ f a = .ok b := by
  cases x with
  | error e => exact ⟨nofun, nofun⟩
  | ok a =>
    refine ⟨fun h => ⟨a, rfl, h⟩, ?_⟩
    rintro ⟨a', same, h⟩
    cases same
    exact h

theorem error_iff : (∃ e, x = .error e) ↔ ∀ a, x ≠ .ok a := by
  cases x with
  | error e => exact ⟨nofun, fun _ => ⟨e, rfl⟩⟩
  | ok a => exact ⟨nofun, fun never => absurd rfl (never a)⟩

end Kista.Containers.Fallible
