/- Kista/Containers/SkippingScan
   source: a scan of a list whose iterator moves twice after a miss, independent of any program
   digest: Which elements such a scan visits, and how it ends. -/

import Mathlib.Algebra.Group.Nat.Even
import Mathlib.Data.List.Basic

set_option autoImplicit false
set_option relaxedAutoImplicit false

/-!
An action may hit an element: it then yields a value and what takes the place of the element. After
a miss the iterator moves once in the body and once in the header of the loop.
-/

namespace Kista.Containers.SkippingScan

variable {α β : Type*}

inductive Ending (β : Type*) where
  | hit (b : β)
  | exhausted
  | beyond

def Ending.map {γ : Type*} (f : β → γ) : Ending β → Ending γ
  | hit b => hit (f b)
  | exhausted => exhausted
  | beyond => beyond

def scan (act : α → Option (β × List α)) : List α → Ending (β × List α)
  | [] => .exhausted
  | x :: rest =>
    match act x with
    | some (b, new) => .hit (b, new ++ rest)
    | none =>
      match rest with
      | [] => .beyond
      | skipped :: rest => (scan act rest).map fun found => (found.1, x :: skipped :: found.2)

/-- The elements at even positions: those that a scan without a hit visits. -/
def visited : List α → List α
  | [] => []
  | [x] => [x]
  | x :: _ :: rest => x :: visited rest

theorem exists_of_mem_visited {l : List α} {x : α} (mem : x ∈ visited l) :
    ∃ before after, l = before ++ x :: after ∧ Even before.length := by
  induction l using visited.induct with
  | case1 => cases mem
  | case2 y =>
    obtain rfl := List.mem_singleton.mp mem
    exact ⟨[], [], rfl, Even.zero⟩
  | case3 y z rest ih =>
    rcases List.mem_cons.mp mem with rfl | later
    · exact ⟨[], z :: rest, rfl, Even.zero⟩
    · obtain ⟨before, after, rfl, even⟩ := ih later
      refine ⟨y :: z :: before, after, rfl, ?_⟩
      simpa [Nat.even_add_one] using even

theorem mem_of_mem_visited {l : List α} {x : α} (mem : x ∈ visited l) : x ∈ l := by
  obtain ⟨before, after, rfl, -⟩ := exists_of_mem_visited mem
  exact List.mem_append_right before List.mem_cons_self

section Scan

variable {act : α → Option (β × List α)}

theorem scan_cons_hit {x : α} {b : β} {new : List α} (hit : act x = some (b, new))
    (rest : List α) : scan act (x :: rest) = .hit (b, new ++ rest) := by
  unfold scan
  rw [hit]

theorem scan_cons_miss {x : α} (miss : act x = none) (skipped : α) (rest : List α) :
    scan act (x :: skipped :: rest) =
      (scan act rest).map fun found => (found.1, x :: skipped :: found.2) := by
  rw [scan, miss]

/-- An even number of misses is passed as if each had been visited. -/
theorem scan_append {before : List α} (misses : ∀ x ∈ before, act x = none)
    (even : Even before.length) (rest : List α) :
    scan act (before ++ rest) =
      (scan act rest).map fun found => (found.1, before ++ found.2) := by
  induction before using visited.induct with
  | case1 =>
    rw [List.nil_append]
    cases scan act rest <;> rfl
  | case2 y => exact absurd even Nat.not_even_one
  | case3 y z before ih =>
    have even : Even before.length := by
      simpa [Nat.even_add_one] using even
    have misses' : ∀ x ∈ before, act x = none := fun x mem => misses x (by simp [mem])
    rw [List.cons_append, List.cons_append, scan_cons_miss (misses y List.mem_cons_self),
      ih misses' even]
    cases scan act rest <;> rfl

theorem scan_hit {before after new : List α} {x : α} {b : β}
    (misses : ∀ y ∈ before, act y = none) (even : Even before.length)
    (hit : act x = some (b, new)) :
    scan act (before ++ x :: after) = .hit (b, before ++ (new ++ after)) := by
  rw [scan_append misses even, scan_cons_hit hit]
  rfl

/-- After an odd number of misses the next element is not looked at. -/
theorem scan_passed {before : List α} (misses : ∀ x ∈ before, act x = none)
    (odd : ¬ Even before.length) (x : α) (after : List α) :
    scan act (before ++ x :: after) =
      (scan act after).map fun found => (found.1, before ++ x :: found.2) := by
  induction before using visited.induct with
  | case1 => exact absurd Even.zero odd
  | case2 y =>
    rw [List.singleton_append, scan_cons_miss (misses y List.mem_cons_self)]
    rfl
  | case3 y z before ih =>
    have odd : ¬ Even before.length := by
      simpa [Nat.even_add_one] using odd
    have misses' : ∀ x ∈ before, act x = none := fun x mem => misses x (by simp [mem])
    rw [List.cons_append, List.cons_append, scan_cons_miss (misses y List.mem_cons_self),
      ih misses' odd]
    cases scan act after <;> rfl

/-- A scan ends with a hit at an even position, with the end of a list of even length, or past the
end of a list of odd length. -/
theorem scan_cases (act : α → Option (β × List α)) (l : List α) :
    (∃ before x after b new, l = before ++ x :: after ∧ x ∈ visited l ∧
      act x = some (b, new) ∧ scan act l = .hit (b, before ++ (new ++ after))) ∨
    ((∀ x ∈ visited l, act x = none) ∧
      scan act l = if Even l.length then .exhausted else .beyond) := by
  induction l using visited.induct with
  | case1 => exact Or.inr ⟨by simp [visited], rfl⟩
  | case2 x =>
    cases found : act x with
    | none =>
      right
      simp [visited, scan, found]
    | some result =>
      exact Or.inl ⟨[], x, [], result.1, result.2, rfl, List.mem_singleton_self x, found,
        by simp [scan, found]⟩
  | case3 x y rest ih =>
    cases found : act x with
    | some result =>
      exact Or.inl ⟨[], x, y :: rest, result.1, result.2, rfl, List.mem_cons_self, found,
        by simp [scan, found]⟩
    | none =>
      rcases ih with ⟨before, z, after, b, new, split, visit, hit, ending⟩ | ⟨misses, ending⟩
      · refine Or.inl ⟨x :: y :: before, z, after, b, new, by rw [split]; rfl,
          List.mem_cons_of_mem x visit, hit, ?_⟩
        simp [scan, found, ending, Ending.map]
      · refine Or.inr ⟨?_, ?_⟩
        · simpa [visited, found] using misses
        · rw [scan, found]
          simp only [ending, List.length_cons, Nat.even_add_one, not_not]
          split_ifs <;> rfl

/-- What is hit is an element of the list. -/
theorem exists_of_scan_hit {l l' : List α} {b : β} (ending : scan act l = .hit (b, l')) :
    ∃ x ∈ visited l, ∃ new, act x = some (b, new) := by
  rcases scan_cases act l with ⟨_, x, _, _, new, _, visit, hit, found⟩ | ⟨-, missed⟩
  · rw [found] at ending
    cases ending
    exact ⟨x, visit, new, hit⟩
  · rw [missed] at ending
    split_ifs at ending

end Scan

end Kista.Containers.SkippingScan
