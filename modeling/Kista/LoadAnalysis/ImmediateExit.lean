/- Kista/LoadAnalysis/ImmediateExit
   source: src/src/load_analysis/load_analysis.cpp, load_analysis.hpp
   digest: The immediate exit leaves the verdict and every response up to the first missed
   deadline as the full analysis has them. -/

import Kista.LoadAnalysis.PreciseBound

set_option autoImplicit false
set_option relaxedAutoImplicit false

namespace Kista.LoadAnalysis.ImmediateExit

open PreciseBound

def Meets (e : Entry) : Prop := e.2.wcResponse ≤ e.2.relDeadline

instance (e : Entry) : Decidable (Meets e) := inferInstanceAs (Decidable (_ ≤ _))

/-- The unit keeps its key and all its fields but the response. -/
def OnlyResponse (e f : Entry) : Prop := ∃ R, f = store e R

/-- The unit holds the response that the loop computes for it on the given map. -/
def Responded (b : ℕ → ℕ → ℕ) (all : List Entry) (e f : Entry) : Prop :=
  ∃ R, response b all e = .ok R ∧ f = store e R

theorem onlyResponse_refl (e : Entry) : OnlyResponse e e := ⟨e.2.wcResponse, rfl⟩

section Stored

variable (b : ℕ → ℕ → ℕ)

/-- Without the immediate exit the responses follow one another to the end of the map. -/
theorem stored_false_cons (hp : List Entry) (e : Entry) (rest : List Entry) :
    stored b false hp (e :: rest) =
      store e (guessDemand b hp e.2) :: stored b false (hp ++ [e]) rest := rfl

theorem stored_true_meets {hp : List Entry} {e : Entry} (rest : List Entry)
    (fits : guessDemand b hp e.2 ≤ e.2.relDeadline) :
    stored b true hp (e :: rest) =
      store e (guessDemand b hp e.2) :: stored b true (hp ++ [e]) rest := by
  simp [stored, fits]

theorem stored_true_misses {hp : List Entry} {e : Entry} (rest : List Entry)
    (late : ¬ guessDemand b hp e.2 ≤ e.2.relDeadline) :
    stored b true hp (e :: rest) = store e (guessDemand b hp e.2) :: rest := by
  simp [stored, late]

/-- As long as nothing is missed both runs store the same, the missing unit included. -/
theorem stored_prefix {hp rest before : List Entry} {e : Entry}
    (full : before ++ [e] <+: stored b false hp rest) (met : ∀ f ∈ before, Meets f) :
    before ++ [e] <+: stored b true hp rest := by
  induction rest generalizing hp before with
  | nil => exact full
  | cons x rest ih =>
    rw [stored_false_cons] at full
    cases before with
    | nil =>
      -- the unit itself is stored before the exit is taken
      have first : e = store x (guessDemand b hp x.2) := by simpa using full
      rw [first]
      by_cases fits : guessDemand b hp x.2 ≤ x.2.relDeadline
      · simp [stored_true_meets b rest fits]
      · simp [stored_true_misses b rest fits]
    | cons y before =>
      obtain ⟨rfl, later⟩ := List.cons_prefix_cons.mp full
      have fits : Meets (store x (guessDemand b hp x.2)) := met _ List.mem_cons_self
      rw [stored_true_meets b rest fits]
      exact List.cons_prefix_cons.mpr
        ⟨rfl, ih later fun f hf => met f (List.mem_cons_of_mem _ hf)⟩

theorem stored_onlyResponse (immediateExit : Bool) (hp rest : List Entry) :
    List.Forall₂ OnlyResponse rest (stored b immediateExit hp rest) := by
  induction rest generalizing hp with
  | nil => exact .nil
  | cons x rest ih =>
    refine .cons ⟨_, rfl⟩ ?_
    split
    · exact List.forall₂_same.mpr fun e _ => onlyResponse_refl e
    · exact ih (hp ++ [x])

/-- The full analysis gives every unit its response. -/
theorem stored_responded (loaders : LoadUnitSet) {hp rest : List Entry}
    (split : loaders.entries = hp ++ rest) :
    List.Forall₂ (Responded b loaders.entries) rest (stored b false hp rest) := by
  induction rest generalizing hp with
  | nil => exact .nil
  | cons x rest ih =>
    have keys := loaders.ordered
    rw [split, List.pairwise_append] at keys
    have below : ∀ e ∈ hp, e.1 < x.1 := fun e he => keys.2.2 e he x (by simp)
    rw [stored_false_cons]
    refine .cons ⟨_, ?_, rfl⟩ (ih (by simpa using split))
    rw [split]
    exact response_eq b below

end Stored

end Kista.LoadAnalysis.ImmediateExit
