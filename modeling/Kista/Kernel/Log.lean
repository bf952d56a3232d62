/- Kista/Kernel/Log
   digest: Properties of a log that grows at its end: what holds since an entry, and entries that
   are made only while something holds of the log before them. -/

import Mathlib.Data.List.Induction
import Mathlib.Data.Nat.Notation

set_option autoImplicit false
set_option relaxedAutoImplicit false

namespace Kista.Kernel.Log

variable {α : Type*} {starts stops stops' : α → Bool} {log first second : List α} {x : α}

/-- An entry that starts has been made, and none after it that stops. -/
def since (starts stops : α → Bool) (log : List α) : Bool :=
  log.foldl (fun held x => starts x || (held && !stops x)) false

@[simp] theorem since_nil : since starts stops [] = false := rfl

@[simp] theorem since_append_singleton :
    since starts stops (log ++ [x]) = (starts x || (since starts stops log && !stops x)) := by
  simp [since]

theorem since_iff : since starts stops log = true ↔
    ∃ before x after, log = before ++ x :: after ∧ starts x = true ∧
      ∀ y ∈ after, stops y = false := by
  induction log using List.reverseRecOn with
  | nil => simp
  | append_singleton log last ih =>
    rw [since_append_singleton, Bool.or_eq_true, Bool.and_eq_true, Bool.not_eq_true', ih]
    constructor
    · rintro (hstarts | ⟨⟨before, x, after, rfl, hx, hafter⟩, hlast⟩)
      · exact ⟨log, last, [], rfl, hstarts, by simp⟩
      · refine ⟨before, x, after ++ [last], by simp, hx, ?_⟩
        intro y hy
        rcases List.mem_append.mp hy with hy | hy
        · exact hafter y hy
        · rwa [List.mem_singleton.mp hy]
    · rintro ⟨before, x, after, hlog, hx, hafter⟩
      rcases List.eq_nil_or_concat after with rfl | ⟨after, y, rfl⟩
      · left
        have hsame := List.append_inj_right' hlog rfl
        rwa [List.singleton_inj.mp hsame]
      · right
        have hsplit : log ++ [last] = (before ++ x :: after) ++ [y] := by
          simpa using hlog
        have hlast : last = y := List.singleton_inj.mp (List.append_inj_right' hsplit rfl)
        refine ⟨⟨before, x, after, List.append_inj_left' hsplit rfl, hx, ?_⟩, ?_⟩
        · intro z hz
          exact hafter z (by simp [hz])
        · rw [hlast]
          exact hafter y (by simp)

/-- What stops less lets more hold. -/
theorem since_of_stops_less (hstops : ∀ x, stops x = true → stops' x = true)
    (held : since starts stops' log = true) : since starts stops log = true := by
  obtain ⟨before, x, after, hlog, hx, hafter⟩ := since_iff.mp held
  refine since_iff.mpr ⟨before, x, after, hlog, hx, fun y hy => ?_⟩
  by_contra hstop
  have hstop' := hstops y (by simpa using hstop)
  rw [hafter y hy] at hstop'
  cases hstop'

theorem since_append (held : since starts stops (first ++ second) = true) :
    since starts stops first = true ∨ ∃ x ∈ second, starts x = true := by
  induction second using List.reverseRecOn with
  | nil =>
    left
    simpa using held
  | append_singleton second last ih =>
    rw [← List.append_assoc, since_append_singleton, Bool.or_eq_true, Bool.and_eq_true] at held
    rcases held with hstarts | ⟨held, -⟩
    · exact .inr ⟨last, by simp, hstarts⟩
    · rcases ih held with hfirst | ⟨x, hx, hstarts⟩
      · exact .inl hfirst
      · exact .inr ⟨x, List.mem_append_left _ hx, hstarts⟩

/-- Entries that need something are made only where it holds of the log before them. -/
def MadeWhile (needs : α → Prop) (holds : List α → Prop) (log : List α) : Prop :=
  ∀ before x after, log = before ++ x :: after → needs x → holds before

variable {needs : α → Prop} {holds : List α → Prop}

theorem madeWhile_nil : MadeWhile needs holds [] := by
  intro before x after hlog
  simp at hlog

theorem MadeWhile.append_singleton (h : MadeWhile needs holds log) (hx : needs x → holds log) :
    MadeWhile needs holds (log ++ [x]) := by
  intro before y after hlog hy
  rcases List.eq_nil_or_concat after with rfl | ⟨after, z, rfl⟩
  · have hsame := List.append_inj_right' hlog rfl
    rw [← List.append_inj_left' hlog rfl]
    apply hx
    rwa [List.singleton_inj.mp hsame]
  · have hsplit : log ++ [x] = (before ++ y :: after) ++ [z] := by
      simpa using hlog
    exact h before y after (List.append_inj_left' hsplit rfl) hy

theorem MadeWhile.of_append_singleton (h : MadeWhile needs holds (log ++ [x])) :
    MadeWhile needs holds log ∧ (needs x → holds log) := by
  constructor
  · intro before y after hlog
    exact h before y (after ++ [x]) (by simp [hlog])
  · exact h log x [] rfl

section Pairs

variable [DecidableEq α] {opens closes : α}

/-- Two entries that close have one between them that opens. -/
theorem mem_between (hne : opens ≠ closes)
    (h : MadeWhile (· = closes) (fun log => since (· == opens) (· == closes) log = true) log)
    {before between after : List α}
    (hlog : log = before ++ closes :: (between ++ closes :: after)) : opens ∈ between := by
  have held := h (before ++ closes :: between) closes after (by simp [hlog]) rfl
  have hsplit : before ++ closes :: between = (before ++ [closes]) ++ between := by simp
  rw [hsplit] at held
  rcases since_append held with hfirst | ⟨x, hx, hstarts⟩
  · simp [hne.symm] at hfirst
  · rwa [← beq_iff_eq.mp hstarts]

/-- No more entries close than open, and one fewer while one is open. -/
theorem count_closes_le (hne : opens ≠ closes)
    (h : MadeWhile (· = closes) (fun log => since (· == opens) (· == closes) log = true) log) :
    log.count closes + (since (· == opens) (· == closes) log).toNat ≤ log.count opens := by
  induction log using List.reverseRecOn with
  | nil => simp
  | append_singleton log last ih =>
    obtain ⟨hbefore, hlast⟩ := h.of_append_singleton
    have hle := ih hbefore
    rw [List.count_append, List.count_append, since_append_singleton]
    by_cases hcloses : last = closes
    · have held := hlast hcloses
      subst hcloses
      have hopens : (last == opens) = false := beq_eq_false_iff_ne.mpr hne.symm
      rw [held] at hle ⊢
      simpa [hopens, hne.symm] using hle
    · have hcloses' : (last == closes) = false := beq_eq_false_iff_ne.mpr hcloses
      by_cases hopens : last = opens
      · subst hopens
        simp [hne]
        omega
      · have hopens' : (last == opens) = false := beq_eq_false_iff_ne.mpr hopens
        simpa [hcloses, hopens, hcloses', hopens'] using hle

end Pairs

end Kista.Kernel.Log
