/- Kista/LoadAnalysis/Sustainability
   source: src/src/load_analysis/load_analysis.cpp
   digest: Lighter loads, longer periods and later deadlines keep an accepted set accepted with no
   response larger, exactly as long as the counts of activations fit their type. -/

import Mathlib.Tactic.GCongr
import Kista.LoadAnalysis.TimeDemand

set_option autoImplicit false
set_option relaxedAutoImplicit false

namespace Kista.LoadAnalysis.Sustainability

open PreciseBound
open TimeDemand

/-- The second unit has the key of the first and asks for no more than it does. -/
structure Relaxes (e f : Entry) : Prop where
  key : f.1 = e.1
  load : f.2.wcLoad ≤ e.2.wcLoad
  period : e.2.period ≤ f.2.period
  deadline : e.2.relDeadline ≤ f.2.relDeadline

def NoLater (e f : Entry) : Prop := f.2.wcResponse ≤ e.2.wcResponse

/-- The second set is accepted whenever the first is, for either exit flag, with no response
later; the full analysis bounds the responses even where the first set is rejected. -/
def Sustained (platform : Platform) (tight loose : LoadUnitSet) : Prop :=
  (∀ immediateExit resp,
    assessPreciseBound platform.count tight immediateExit = .ok (true, resp) →
      ∃ resp', assessPreciseBound platform.count loose immediateExit = .ok (true, resp') ∧
        List.Forall₂ NoLater resp resp') ∧
  ∀ verdict resp, assessPreciseBound platform.count tight false = .ok (verdict, resp) →
    ∃ verdict' resp', assessPreciseBound platform.count loose false = .ok (verdict', resp') ∧
      List.Forall₂ NoLater resp resp'

theorem activations_antitone {period period' : ℕ} (pos : 0 < period) (longer : period ≤ period')
    (R : ℕ) : activations R period' ≤ activations R period := by
  simp only [activations]
  gcongr

/-- The activations that the analysis counts do not grow, unless they do not fit. -/
theorem count_relaxed (platform : Platform) {e f : Entry} (relaxes : Relaxes e f)
    (pos : 0 < e.2.period) {R R' : ℕ} (shorter : R' ≤ R)
    (fits : activations R e.2.period < 2 ^ 32) :
    platform.count R' f.2.period ≤ platform.count R e.2.period := by
  have fewer : activations R' f.2.period ≤ activations R e.2.period :=
    calc activations R' f.2.period
        ≤ activations R' e.2.period := activations_antitone pos relaxes.period R'
      _ ≤ activations R e.2.period := activations_mono e.2.period shorter
  rw [platform.count_of_lt pos fits,
    platform.count_of_lt (pos.trans_le relaxes.period) (fewer.trans_lt fits)]
  exact fewer

section Units

variable {hp hp' : List Entry} {u u' : LoadUnit}

theorem totalLoad_relaxed (relaxed : List.Forall₂ Relaxes hp hp') :
    totalLoad hp' ≤ totalLoad hp := by
  induction relaxed with
  | nil => exact le_rfl
  | cons lighter _ ih =>
    rw [totalLoad_cons, totalLoad_cons]
    exact Nat.add_le_add lighter.load ih

theorem countedLoad_relaxed (platform : Platform) (relaxed : List.Forall₂ Relaxes hp hp')
    (pos : Positive hp) {R R' : ℕ} (shorter : R' ≤ R)
    (fits : ∀ e ∈ hp, activations R e.2.period < 2 ^ 32) :
    countedLoad platform.count R' hp' ≤ countedLoad platform.count R hp := by
  induction relaxed with
  | nil => exact le_rfl
  | @cons e _ _ _ lighter _ ih =>
    have triggers := count_relaxed platform lighter (pos e List.mem_cons_self).2 shorter
      (fits e List.mem_cons_self)
    rw [countedLoad_cons, countedLoad_cons]
    refine Nat.add_le_add (Nat.mul_le_mul triggers lighter.load) (ih ?_ ?_)
    · exact fun x hx => pos x (List.mem_cons_of_mem _ hx)
    · exact fun x hx => fits x (List.mem_cons_of_mem _ hx)

/-- Both terms of a response shrink: its first guess and the load of the guessed window. -/
theorem guessDemand_relaxed (platform : Platform) (relaxed : List.Forall₂ Relaxes hp hp')
    (pos : Positive hp) (lighter : u'.wcLoad ≤ u.wcLoad) (fit : CountsFit hp u) :
    guessDemand platform.count hp' u' ≤ guessDemand platform.count hp u := by
  have window : guessWindow hp' u' ≤ guessWindow hp u :=
    Nat.add_le_add lighter (totalLoad_relaxed relaxed)
  exact Nat.add_le_add window (countedLoad_relaxed platform relaxed pos window fit)

end Units

section Sets

variable {hp hp' rest rest' : List Entry}

/-- The counts of the remaining units fit. -/
def AllFit (hp : List Entry) : List Entry → Prop
  | [] => True
  | e :: rest => CountsFit hp e.2 ∧ AllFit (hp ++ [e]) rest

theorem allFit_of_counts (loaders : LoadUnitSet) (split : loaders.entries = hp ++ rest)
    (fit : ∀ e ∈ rest, CountsFit (loaders.higher e.1) e.2) : AllFit hp rest := by
  induction rest generalizing hp with
  | nil => trivial
  | cons x rest ih =>
    have own := fit x List.mem_cons_self
    rw [loaders.higher_eq split] at own
    refine ⟨own, ih (by simpa using split) ?_⟩
    exact fun e he => fit e (List.mem_cons_of_mem _ he)

theorem accepts_relaxed (platform : Platform) (higher : List.Forall₂ Relaxes hp hp')
    (relaxed : List.Forall₂ Relaxes rest rest') (pos : Positive (hp ++ rest))
    (fit : AllFit hp rest) (accepted : accepts platform.count hp rest = true) :
    accepts platform.count hp' rest' = true := by
  induction relaxed generalizing hp hp' with
  | nil => rfl
  | @cons e f rest rest' lighter _ ih =>
    simp only [accepts, Bool.and_eq_true, decide_eq_true_eq] at accepted ⊢
    obtain ⟨fits, later⟩ := accepted
    have posHigher : Positive hp := fun x hx => pos x (by simp [hx])
    constructor
    · calc guessDemand platform.count hp' f.2
          ≤ guessDemand platform.count hp e.2 :=
            guessDemand_relaxed platform higher posHigher lighter.load fit.1
        _ ≤ e.2.relDeadline := fits
        _ ≤ f.2.relDeadline := lighter.deadline
    · refine ih (List.rel_append higher (.cons lighter .nil)) ?_ fit.2 later
      simpa using pos

theorem stored_relaxed (platform : Platform) (higher : List.Forall₂ Relaxes hp hp')
    (relaxed : List.Forall₂ Relaxes rest rest') (pos : Positive (hp ++ rest))
    (fit : AllFit hp rest) :
    List.Forall₂ NoLater (stored platform.count false hp rest)
      (stored platform.count false hp' rest') := by
  induction relaxed generalizing hp hp' with
  | nil => exact .nil
  | @cons e f rest rest' lighter _ ih =>
    have posHigher : Positive hp := fun x hx => pos x (by simp [hx])
    have earlier : guessDemand platform.count hp' f.2 ≤ guessDemand platform.count hp e.2 :=
      guessDemand_relaxed platform higher posHigher lighter.load fit.1
    refine .cons earlier (ih (List.rel_append higher (.cons lighter .nil)) ?_ fit.2)
    simpa using pos

end Sets

/-- In an accepted set the exit is never taken, so its flag does not matter. -/
theorem stored_of_accepted (platform : Platform) {loaders : LoadUnitSet} (immediateExit : Bool)
    (accepted : accepts platform.count [] loaders.entries = true) :
    stored platform.count immediateExit [] loaders.entries =
      stored platform.count false [] loaders.entries := by
  rw [stored_of_accepts _ loaders immediateExit accepted, stored_full]

section Sustained

variable {tight loose : LoadUnitSet}

theorem sustained_of_fit (platform : Platform) (positive : Positive tight.entries)
    (relaxed : List.Forall₂ Relaxes tight.entries loose.entries)
    (fit : ∀ e ∈ tight.entries, CountsFit (tight.higher e.1) e.2) :
    Sustained platform tight loose := by
  have answered : ∀ {flag verdict resp},
      assessPreciseBound platform.count tight flag = .ok (verdict, resp) →
      tight.entries ≠ [] ∧ loose.entries ≠ [] := by
    intro flag verdict resp run
    have nonempty : tight.entries ≠ [] := by
      intro empty
      simp [assessPreciseBound, empty] at run
    refine ⟨nonempty, fun empty => nonempty ?_⟩
    rw [empty] at relaxed
    exact List.forall₂_nil_right_iff.mp relaxed
  have all : AllFit [] tight.entries := allFit_of_counts tight rfl fit
  have earlier := stored_relaxed platform .nil relaxed positive all
  constructor
  · intro immediateExit resp run
    obtain ⟨nonempty, nonempty'⟩ := answered run
    rw [assessPreciseBound_eq _ nonempty] at run
    obtain ⟨accepted, rfl⟩ := Prod.mk.inj (Except.ok.inj run)
    have accepted' := accepts_relaxed platform .nil relaxed positive all accepted
    refine ⟨_, by rw [assessPreciseBound_eq _ nonempty', accepted'], ?_⟩
    rw [stored_of_accepted platform immediateExit accepted,
      stored_of_accepted platform immediateExit accepted']
    exact earlier
  · intro verdict resp run
    obtain ⟨nonempty, nonempty'⟩ := answered run
    rw [assessPreciseBound_eq _ nonempty] at run
    obtain ⟨-, rfl⟩ := Prod.mk.inj (Except.ok.inj run)
    exact ⟨_, _, assessPreciseBound_eq _ nonempty' false, earlier⟩

end Sustained

/-! ### Longer periods -/

/-- The unit of the given key with a period that is not shorter than the given time. -/
def lengthen (key time : ℕ) (e : Entry) : Entry :=
  if e.1 = key then (e.1, { e.2 with period := max e.2.period time }) else e

theorem lengthen_relaxes (key time : ℕ) (e : Entry) : Relaxes e (lengthen key time e) := by
  rw [lengthen]
  split
  · exact ⟨rfl, le_rfl, le_max_left _ _, le_rfl⟩
  · exact ⟨rfl, le_rfl, le_rfl, le_rfl⟩

@[simp] theorem lengthen_key (key time : ℕ) (e : Entry) : (lengthen key time e).1 = e.1 :=
  (lengthen_relaxes key time e).key

@[simp] theorem lengthen_load (key time : ℕ) (e : Entry) :
    (lengthen key time e).2.wcLoad = e.2.wcLoad := by
  rw [lengthen]
  split <;> rfl

def lengthened (loaders : LoadUnitSet) (key time : ℕ) : LoadUnitSet where
  entries := loaders.entries.map (lengthen key time)
  ordered := List.pairwise_map.mpr (by simpa using loaders.ordered)

theorem higher_lengthened (loaders : LoadUnitSet) (key time place : ℕ) :
    (lengthened loaders key time).higher place =
      (loaders.higher place).map (lengthen key time) := by
  simp only [LoadUnitSet.higher, lengthened, List.filter_map]
  congr 2
  funext e
  simp

/-- A platform on which what does not fit becomes zero. -/
def zeroing : Platform where
  unfit _ _ := 0

/-- A count that does not fit is lost, and the longer period makes it one. -/
theorem guessDemand_lengthened {loaders : LoadUnitSet} (positive : Positive loaders.entries)
    {e f : Entry} (he : e ∈ loaders.entries) (hf : f ∈ loaders.higher e.1)
    (large : 2 ^ 32 ≤ guessCount (loaders.higher e.1) e.2 f) :
    guessDemand zeroing.count (loaders.higher e.1) e.2 <
      guessDemand zeroing.count
        ((loaders.higher e.1).map (lengthen f.1 (guessWindow (loaders.higher e.1) e.2)))
        (lengthen f.1 (guessWindow (loaders.higher e.1) e.2) e).2 := by
  have pos := positive.higher e.1
  have own : 0 < e.2.wcLoad := (positive e he).1
  obtain ⟨load, period⟩ := pos f hf
  generalize hhp : loaders.higher e.1 = hp at hf large pos
  set W := guessWindow hp e.2 with hW
  have total : totalLoad (hp.map (lengthen f.1 W)) = totalLoad hp := by
    simp [totalLoad, Function.comp_def]
  have window : guessWindow (hp.map (lengthen f.1 W)) (lengthen f.1 W e).2 = W := by
    rw [guessWindow, lengthen_load, total, hW, guessWindow]
  have within : f.2.period ≤ W := by
    by_contra longer
    have few : guessCount hp e.2 f ≤ 1 :=
      (activations_le_iff period).mpr (by rw [Nat.one_mul, ← hW]; omega)
    omega
  have positiveW : 0 < W := period.trans_le within
  rw [guessDemand, guessDemand, window, ← hW]
  apply Nat.add_lt_add_left
  rw [countedLoad, countedLoad, List.map_map]
  have counted : zeroing.count W f.2.period = 0 := zeroing.count_of_ge large
  have once : zeroing.count W (lengthen f.1 W f).2.period = 1 := by
    have longer : (lengthen f.1 W f).2.period = W := by
      rw [lengthen, if_pos rfl]
      exact max_eq_right within
    have one : activations W W = 1 := by
      apply le_antisymm ((activations_le_iff positiveW).mpr (by rw [Nat.one_mul]))
      exact activations_pos positiveW positiveW
    rw [longer, zeroing.count_of_lt positiveW (by rw [one]; norm_num), one]
  refine List.sum_lt_sum _ _ ?_ ⟨f, hf, ?_⟩
  · intro x hx
    show zeroing.count W x.2.period * x.2.wcLoad ≤
      zeroing.count W (lengthen f.1 W x).2.period * (lengthen f.1 W x).2.wcLoad
    rw [lengthen_load]
    apply Nat.mul_le_mul_right
    by_cases same : x.1 = f.1
    · have member : ∀ y ∈ hp, y ∈ loaders.entries := fun y hy =>
        List.mem_of_mem_filter (hhp ▸ hy)
      obtain rfl : x = f := entry_unique (member f hf) (member x hx) same
      rw [counted]
      exact Nat.zero_le _
    · rw [lengthen, if_neg same]
  · show zeroing.count W f.2.period * f.2.wcLoad <
      zeroing.count W (lengthen f.1 W f).2.period * (lengthen f.1 W f).2.wcLoad
    rw [counted, once, lengthen_load]
    omega

/-- The pair with a slower sampler and a filter that has less to do. -/
def relaxedPair : LoadUnitSet where
  entries := [(1, ⟨"sampler", 1, 4, 4, 0, 1⟩), (2, ⟨"filter", 8, 100, 20, 0, 2⟩)]
  ordered := by simp

/-- A tick of one unit of time under a frame of the given load. -/
def tickAndFrame (load : ℕ) : LoadUnitSet where
  entries := [(1, ⟨"tick", 1, 1, 1, 0, 1⟩), (2, ⟨"frame", load, 2 ^ 33, 5000000000, 0, 2⟩)]
  ordered := by simp

end Kista.LoadAnalysis.Sustainability
