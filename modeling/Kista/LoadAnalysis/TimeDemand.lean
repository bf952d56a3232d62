/- Kista/LoadAnalysis/TimeDemand
   source: src/src/load_analysis/load_analysis.cpp, checks/load_analysis/check_load_analysis.cpp
   digest: The Joseph and Pandya equation, and when the verdict and the stored responses of the
   precise analysis agree with its least solution. -/

import Mathlib.Algebra.BigOperators.Ring.List
import Mathlib.Tactic.NormNum
import Mathlib.Tactic.GCongr
import Kista.LoadAnalysis.PreciseBound
import Kista.Order.LeastFixedPoint

set_option autoImplicit false
set_option relaxedAutoImplicit false

namespace Kista.LoadAnalysis.TimeDemand

open PreciseBound
open Order.LeastFixedPoint

/-- The load of a window whose activations are counted exactly. -/
abbrev windowLoad (R : ℕ) (hp : List Entry) : ℕ := countedLoad activations R hp

/-- The right-hand side of the Joseph and Pandya equation. -/
def demand (hp : List Entry) (u : LoadUnit) (R : ℕ) : ℕ := u.wcLoad + windowLoad R hp

/-- The worst-case response: the least solution of the equation. -/
def IsResponseTime (hp : List Entry) (u : LoadUnit) (R : ℕ) : Prop :=
  IsLeast {x | x = demand hp u x} R

theorem activations_mono (period : ℕ) : Monotone fun R => activations R period := by
  intro R R' h
  simp only [activations]
  gcongr

theorem activations_le_iff {R period n : ℕ} (pos : 0 < period) :
    activations R period ≤ n ↔ R ≤ n * period := by
  have hpos : (0 : ℚ) < period := Nat.cast_pos.mpr pos
  rw [activations, Nat.ceil_le, div_le_iff₀ hpos]
  exact_mod_cast Iff.rfl

theorem activations_pos {R period : ℕ} (hR : 0 < R) (hT : 0 < period) :
    0 < activations R period := by
  simp only [activations, Nat.ceil_pos]
  positivity

theorem windowLoad_mono (hp : List Entry) : Monotone fun R => windowLoad R hp := by
  intro R R' h
  simp only [windowLoad, countedLoad]
  exact List.sum_le_sum fun e _ => Nat.mul_le_mul_right _ (activations_mono e.2.period h)

theorem demand_mono (hp : List Entry) (u : LoadUnit) : Monotone (demand hp u) :=
  fun _ _ h => Nat.add_le_add_left (windowLoad_mono hp h) _

/-- The response time exists and meets the deadline exactly when the demand is met at some
instant up to the deadline. -/
theorem responseTime_le_iff (hp : List Entry) (u : LoadUnit) (deadline : ℕ) :
    (∃ R, IsResponseTime hp u R ∧ R ≤ deadline) ↔ ∃ t ≤ deadline, demand hp u t ≤ t :=
  exists_isLeast_fixed_le_iff (demand_mono hp u)

def Positive (hp : List Entry) : Prop := ∀ e ∈ hp, 0 < e.2.wcLoad ∧ 0 < e.2.period

instance (hp : List Entry) : Decidable (Positive hp) :=
  inferInstanceAs (Decidable (∀ e ∈ hp, _ ∧ _))

theorem totalLoad_le_windowLoad {hp : List Entry} (pos : Positive hp) {R : ℕ} (hR : 0 < R) :
    totalLoad hp ≤ windowLoad R hp := by
  simp only [totalLoad, windowLoad, countedLoad]
  refine List.sum_le_sum fun e he => ?_
  exact Nat.le_mul_of_pos_left _ (activations_pos hR (pos e he).2)

theorem guessWindow_le_of_fixed {hp : List Entry} {u : LoadUnit} (pos : Positive hp)
    (load : 0 < u.wcLoad) {R : ℕ} (fixed : R = demand hp u R) : guessWindow hp u ≤ R := by
  have hR : 0 < R := by
    rw [fixed, demand]
    omega
  have := totalLoad_le_windowLoad pos hR
  rw [fixed, demand, guessWindow]
  omega

/-- A solution that the first guess already reaches is the least one. -/
theorem isResponseTime_of_guess {hp : List Entry} {u : LoadUnit} (pos : Positive hp)
    (load : 0 < u.wcLoad) (fixed : guessWindow hp u = demand hp u (guessWindow hp u)) :
    IsResponseTime hp u (guessWindow hp u) :=
  ⟨fixed, fun _ h => guessWindow_le_of_fixed pos load h⟩

/-! ### What the first guess counts -/

/-- The activations of a unit of higher priority in the window of the first guess. -/
def guessCount (hp : List Entry) (u : LoadUnit) (e : Entry) : ℕ :=
  activations (guessWindow hp u) e.2.period

/-- The load of the unit and, of every unit of higher priority, of one activation more than the
first guess counts. -/
def extendedLoad (hp : List Entry) (u : LoadUnit) : ℕ :=
  u.wcLoad + (hp.map fun e => (guessCount hp u e + 1) * e.2.wcLoad).sum

def CountsFit (hp : List Entry) (u : LoadUnit) : Prop := ∀ e ∈ hp, guessCount hp u e < 2 ^ 32

/-- The extended load is over before any unit of higher priority is activated a second time more
than the first guess counts. -/
structure Early (hp : List Entry) (u : LoadUnit) : Prop where
  fit : CountsFit hp u
  early : ∀ e ∈ hp, extendedLoad hp u ≤ (guessCount hp u e + 1) * e.2.period

/-- Every unit of higher priority is activated a second time more within the extended load. -/
structure Late (hp : List Entry) (u : LoadUnit) : Prop where
  fit : CountsFit hp u
  interrupted : hp ≠ []
  late : ∀ e ∈ hp, (guessCount hp u e + 1) * e.2.period < extendedLoad hp u

instance (hp : List Entry) (u : LoadUnit) : Decidable (CountsFit hp u) :=
  inferInstanceAs (Decidable (∀ e ∈ hp, _ < _))

instance (hp : List Entry) (u : LoadUnit) : Decidable (Early hp u) :=
  decidable_of_iff (CountsFit hp u ∧
    ∀ e ∈ hp, extendedLoad hp u ≤ (guessCount hp u e + 1) * e.2.period)
    ⟨fun h => ⟨h.1, h.2⟩, fun h => ⟨h.fit, h.early⟩⟩

instance (hp : List Entry) (u : LoadUnit) : Decidable (Late hp u) :=
  decidable_of_iff (CountsFit hp u ∧ hp ≠ [] ∧
    ∀ e ∈ hp, (guessCount hp u e + 1) * e.2.period < extendedLoad hp u)
    ⟨fun h => ⟨h.1, h.2.1, h.2.2⟩, fun h => ⟨h.fit, h.interrupted, h.late⟩⟩

/-- Behind a single unit of higher priority there is nothing between the two. -/
theorem early_or_late {hp : List Entry} {u : LoadUnit} (fit : CountsFit hp u)
    (single : hp.length ≤ 1) : Early hp u ∨ Late hp u := by
  match hp, single with
  | [], _ => exact Or.inl ⟨fit, by simp⟩
  | [e], _ =>
    rcases le_or_gt (extendedLoad [e] u) ((guessCount [e] u e + 1) * e.2.period) with early | late
    · exact Or.inl ⟨fit, by simpa using early⟩
    · exact Or.inr ⟨fit, by simp, by simpa using late⟩

section Unit

variable {hp : List Entry} {u : LoadUnit}

/-- Where the counts fit, the stored response is the extended load. -/
theorem guessDemand_eq_extendedLoad (platform : Platform) (pos : Positive hp)
    (fit : CountsFit hp u) : guessDemand platform.count hp u = extendedLoad hp u := by
  have counted : countedLoad platform.count (guessWindow hp u) hp =
      countedLoad activations (guessWindow hp u) hp := by
    refine congrArg List.sum (List.map_congr_left fun e he => ?_)
    rw [platform.count_of_lt (pos e he).2 (fit e he)]
  have split : (hp.map fun e => (guessCount hp u e + 1) * e.2.wcLoad).sum =
      countedLoad activations (guessWindow hp u) hp + totalLoad hp := by
    simp only [Nat.add_one_mul, List.sum_map_add]
    rfl
  rw [guessDemand, counted, extendedLoad, split, guessWindow]
  omega

theorem demand_extendedLoad_le (pos : Positive hp) (early : Early hp u) :
    demand hp u (extendedLoad hp u) ≤ extendedLoad hp u := by
  apply Nat.add_le_add_left
  refine List.sum_le_sum fun e he => Nat.mul_le_mul_right _ ?_
  exact (activations_le_iff (pos e he).2).mpr (early.early e he)

/-- Each activation that is due within the extended load takes its share of every later instant,
so that no instant up to it meets the demand. -/
theorem Late.lt_of_met (late : Late hp u) (pos : Positive hp) (load : 0 < u.wcLoad) {t : ℕ}
    (met : demand hp u t ≤ t) : extendedLoad hp u < t := by
  have positive : 0 < t := by
    rw [demand] at met
    omega
  have shares : t * (hp.map fun e => (guessCount hp u e + 1) * e.2.wcLoad).sum <
      extendedLoad hp u * windowLoad t hp := by
    rw [windowLoad, countedLoad, ← List.sum_map_mul_left, ← List.sum_map_mul_left]
    refine List.sum_lt_sum_of_ne_nil late.interrupted _ _ fun e he => ?_
    obtain ⟨load, period⟩ := pos e he
    have due : t ≤ activations t e.2.period * e.2.period := (activations_le_iff period).mp le_rfl
    calc t * ((guessCount hp u e + 1) * e.2.wcLoad)
        ≤ activations t e.2.period * e.2.period * ((guessCount hp u e + 1) * e.2.wcLoad) :=
          Nat.mul_le_mul_right _ due
      _ = (guessCount hp u e + 1) * e.2.period * (activations t e.2.period * e.2.wcLoad) := by
          ring
      _ < extendedLoad hp u * (activations t e.2.period * e.2.wcLoad) :=
          Nat.mul_lt_mul_of_pos_right (late.late e he)
            (Nat.mul_pos (activations_pos positive period) load)
  have own : extendedLoad hp u = u.wcLoad +
      (hp.map fun e => (guessCount hp u e + 1) * e.2.wcLoad).sum := rfl
  have met : u.wcLoad + windowLoad t hp ≤ t := met
  generalize (hp.map fun e => (guessCount hp u e + 1) * e.2.wcLoad).sum = S at shares own
  generalize windowLoad t hp = L at shares met
  have room : extendedLoad hp u * (u.wcLoad + L) ≤ extendedLoad hp u * t :=
    Nat.mul_le_mul_left _ met
  have less : extendedLoad hp u * u.wcLoad < t * u.wcLoad := by
    have total : t * extendedLoad hp u = t * u.wcLoad + t * S := by
      rw [own, Nat.mul_add]
    rw [Nat.mul_add] at room
    linarith [Nat.mul_comm t (extendedLoad hp u)]
  exact Nat.lt_of_mul_lt_mul_right less

end Unit

/-! ### Soundness -/

/-- An accepting verdict promises a response time within every deadline. -/
def Sound (platform : Platform) (loaders : LoadUnitSet) (immediateExit : Bool) : Prop :=
  ∀ resp, assessPreciseBound platform.count loaders immediateExit = .ok (true, resp) →
    ∀ e ∈ loaders.entries,
      ∃ R, IsResponseTime (loaders.higher e.1) e.2 R ∧ R ≤ e.2.relDeadline

/-- The set with other deadlines. -/
def withDeadlines (loaders : LoadUnitSet) (deadline : ℕ → ℕ) : LoadUnitSet where
  entries := loaders.entries.map fun e => (e.1, { e.2 with relDeadline := deadline e.1 })
  ordered := List.pairwise_map.mpr loaders.ordered

section Soundness

variable {platform : Platform} {loaders : LoadUnitSet}

theorem sound_iff (nonempty : loaders.entries ≠ []) (immediateExit : Bool) :
    Sound platform loaders immediateExit ↔ (accepts platform.count [] loaders.entries = true →
      ∀ e ∈ loaders.entries, ∃ t ≤ e.2.relDeadline, demand (loaders.higher e.1) e.2 t ≤ t) := by
  simp only [Sound, assessPreciseBound_eq _ nonempty, responseTime_le_iff]
  constructor
  · intro sound accepted
    exact sound _ (by rw [accepted])
  · intro met resp run
    exact met (Prod.mk.inj (Except.ok.inj run)).1

theorem Positive.higher (positive : Positive loaders.entries) (key : ℕ) :
    Positive (loaders.higher key) := fun e he => positive e (List.mem_of_mem_filter he)

/-- The extended load itself is an instant that meets the demand. -/
theorem sound_of_early (nonempty : loaders.entries ≠ []) (positive : Positive loaders.entries)
    (early : ∀ e ∈ loaders.entries, Early (loaders.higher e.1) e.2) (immediateExit : Bool) :
    Sound platform loaders immediateExit := by
  rw [sound_iff nonempty]
  intro accepted e he
  have pos := positive.higher e.1
  have fits := (accepts_iff platform.count loaders).mp accepted e he
  rw [guessDemand_eq_extendedLoad platform pos (early e he).fit] at fits
  exact ⟨extendedLoad (loaders.higher e.1) e.2, fits, demand_extendedLoad_le pos (early e he)⟩

theorem entry_unique {e f : Entry} (he : e ∈ loaders.entries) (hf : f ∈ loaders.entries)
    (same : f.1 = e.1) : f = e := by
  have keys : (loaders.entries.map Prod.fst).Nodup :=
    List.pairwise_map.mpr (loaders.ordered.imp ne_of_lt)
  exact List.inj_on_of_nodup_map keys hf he same

theorem loads_withDeadlines (deadline : ℕ → ℕ) (key : ℕ) :
    loads ((withDeadlines loaders deadline).higher key) = loads (loaders.higher key) := by
  simp only [LoadUnitSet.higher, withDeadlines, List.filter_map, loads, List.map_map]
  rfl

theorem guessDemand_withDeadlines (b : ℕ → ℕ → ℕ) (deadline : ℕ → ℕ) (e : Entry) :
    guessDemand b ((withDeadlines loaders deadline).higher e.1)
        { e.2 with relDeadline := deadline e.1 } = guessDemand b (loaders.higher e.1) e.2 :=
  guessDemand_congr b (loads_withDeadlines deadline e.1) _

theorem demand_withDeadlines (deadline : ℕ → ℕ) (e : Entry) (t : ℕ) :
    demand ((withDeadlines loaders deadline).higher e.1)
        { e.2 with relDeadline := deadline e.1 } t = demand (loaders.higher e.1) e.2 t := by
  simp only [demand, windowLoad, countedLoad_eq_loads, loads_withDeadlines]

/-- With the stored responses as deadlines the set is accepted, and the unit that is late has no
response time within its own. -/
theorem unsound_of_late (positive : Positive loaders.entries) {e : Entry}
    (he : e ∈ loaders.entries) (late : Late (loaders.higher e.1) e.2) (platform : Platform) :
    ∃ deadline, ∀ immediateExit,
      ¬ Sound platform (withDeadlines loaders deadline) immediateExit := by
  let responses := loaders.entries.map fun f =>
    guessDemand platform.count (loaders.higher f.1) f.2
  let deadline : ℕ → ℕ := fun key =>
    if key = e.1 then extendedLoad (loaders.higher e.1) e.2 else responses.sum
  have own : deadline e.1 = extendedLoad (loaders.higher e.1) e.2 := if_pos rfl
  have stored := guessDemand_eq_extendedLoad platform (positive.higher e.1) late.fit
  have accepted : accepts platform.count [] (withDeadlines loaders deadline).entries = true := by
    rw [accepts_iff]
    intro f' hf'
    obtain ⟨f, hf, rfl⟩ := List.mem_map.mp hf'
    show guessDemand platform.count _ _ ≤ deadline f.1
    rw [guessDemand_withDeadlines]
    by_cases same : f.1 = e.1
    · obtain rfl : f = e := entry_unique he hf same
      exact (stored.trans own.symm).le
    · have listed : guessDemand platform.count (loaders.higher f.1) f.2 ∈ responses :=
        List.mem_map_of_mem hf
      calc guessDemand platform.count (loaders.higher f.1) f.2
          ≤ responses.sum := List.le_sum_of_mem listed
        _ = deadline f.1 := (if_neg same).symm
  refine ⟨deadline, fun immediateExit sound => ?_⟩
  have nonempty : (withDeadlines loaders deadline).entries ≠ [] :=
    List.ne_nil_of_mem (List.mem_map_of_mem he)
  obtain ⟨t, within, met⟩ := (sound_iff nonempty immediateExit).mp sound accepted _
    (List.mem_map_of_mem he)
  have within : t ≤ deadline e.1 := within
  have met : demand (loaders.higher e.1) e.2 t ≤ t := by
    rw [← demand_withDeadlines deadline]
    exact met
  have past : deadline e.1 < t := by
    rw [own]
    exact late.lt_of_met (positive.higher e.1) (positive e he).1 met
  omega

/-- In a set of at most two units there is at most one of higher priority. -/
theorem length_higher_le (pair : loaders.entries.length ≤ 2) {e : Entry}
    (he : e ∈ loaders.entries) : (loaders.higher e.1).length ≤ 1 := by
  have fewer : (loaders.higher e.1).length < loaders.entries.length :=
    List.length_filter_lt_length_iff_exists.mpr ⟨e, he, by simp⟩
  omega

/-- An accepting verdict is sound, with any deadlines, where every unit is early, and with some
deadlines it is not where some unit is late. Of two units there are no others. -/
theorem early_sound_late_unsound (nonempty : loaders.entries ≠ [])
    (positive : Positive loaders.entries) (platform : Platform) :
    ((∀ e ∈ loaders.entries, Early (loaders.higher e.1) e.2) →
        ∀ immediateExit, Sound platform loaders immediateExit) ∧
      ((∃ e ∈ loaders.entries, Late (loaders.higher e.1) e.2) → ∃ deadline, ∀ immediateExit,
        ¬ Sound platform (withDeadlines loaders deadline) immediateExit) ∧
      (loaders.entries.length ≤ 2 → (∀ e ∈ loaders.entries, CountsFit (loaders.higher e.1) e.2) →
        (∀ e ∈ loaders.entries, Early (loaders.higher e.1) e.2) ∨
          ∃ e ∈ loaders.entries, Late (loaders.higher e.1) e.2) := by
  refine ⟨?_, ?_, ?_⟩
  · exact fun early immediateExit => sound_of_early nonempty positive early immediateExit
  · rintro ⟨e, he, late⟩
    exact unsound_of_late positive he late platform
  · intro pair fit
    by_cases late : ∃ e ∈ loaders.entries, Late (loaders.higher e.1) e.2
    · exact Or.inr late
    · refine Or.inl fun e he => ?_
      have either := early_or_late (fit e he) (length_higher_le pair he)
      exact either.resolve_right fun h => late ⟨e, he, h⟩

end Soundness

/-- The schedulable set of the repository's own check, times in seconds. -/
def checkSet : LoadUnitSet where
  entries :=
    [(1, ⟨"loader1", 1, 3, 3, 0, 1⟩), (2, ⟨"loader2", 1, 5, 5, 0, 2⟩),
     (3, ⟨"loader3", 1, 6, 6, 0, 3⟩), (4, ⟨"loader4", 2, 10, 10, 0, 4⟩)]
  ordered := by simp

/-- A ceiling that is too large keeps its low bits. -/
def wrapping : Platform where
  unfit R period := UInt32.ofNat (activations R period)

theorem checkSet_sound : Sound wrapping checkSet true :=
  (early_sound_late_unsound (by simp [checkSet]) (by decide) wrapping).1 (by decide +kernel) true

/-- The pair whose second unit needs twenty time units and is accepted with seventeen. -/
def tightPair : LoadUnitSet where
  entries := [(1, ⟨"sampler", 1, 2, 2, 0, 1⟩), (2, ⟨"filter", 10, 100, 17, 0, 2⟩)]
  ordered := by simp

theorem tightPair_unsound :
    ¬ Sound wrapping tightPair true ∧ ¬ Sound wrapping tightPair false := by
  have accepted : accepts wrapping.count [] tightPair.entries = true := by decide +kernel
  have unmet : ∀ t ≤ 17,
      ¬ demand (tightPair.higher 2) ⟨"filter", 10, 100, 17, 0, 2⟩ t ≤ t := by
    decide +kernel
  have unsound : ∀ flag, ¬ Sound wrapping tightPair flag := by
    intro flag sound
    rw [sound_iff (by simp [tightPair])] at sound
    obtain ⟨t, ht, met⟩ :=
      sound accepted (2, ⟨"filter", 10, 100, 17, 0, 2⟩) (by simp [tightPair])
    exact unmet t ht met
  exact ⟨unsound true, unsound false⟩

/-! ### Exactness -/

/-- The load of the unit and of the activations that the first guess counts. -/
def roundLoad (hp : List Entry) (u : LoadUnit) : ℕ := demand hp u (guessWindow hp u)

/-- No unit of higher priority is activated again within the load of the first round. -/
structure Settled (hp : List Entry) (u : LoadUnit) : Prop where
  fit : CountsFit hp u
  settled : ∀ e ∈ hp, roundLoad hp u ≤ guessCount hp u e * e.2.period

/-- Every unit of higher priority is activated exactly once more. -/
structure Repeated (hp : List Entry) (u : LoadUnit) : Prop extends Early hp u where
  repeated : ∀ e ∈ hp, guessCount hp u e * e.2.period < roundLoad hp u

instance (hp : List Entry) (u : LoadUnit) : Decidable (Settled hp u) :=
  decidable_of_iff (CountsFit hp u ∧ ∀ e ∈ hp, roundLoad hp u ≤ guessCount hp u e * e.2.period)
    ⟨fun h => ⟨h.1, h.2⟩, fun h => ⟨h.fit, h.settled⟩⟩

/-- Behind a single unit of higher priority there is nothing else. -/
theorem settled_or_repeated_or_late {hp : List Entry} {u : LoadUnit} (fit : CountsFit hp u)
    (single : hp.length ≤ 1) : Settled hp u ∨ Repeated hp u ∨ Late hp u := by
  match hp, single with
  | [], _ => exact Or.inl ⟨fit, by simp⟩
  | [e], single =>
    rcases le_or_gt (roundLoad [e] u) (guessCount [e] u e * e.2.period) with settled | repeated
    · exact Or.inl ⟨fit, by simpa using settled⟩
    · rcases early_or_late fit single with early | late
      · exact Or.inr (Or.inl ⟨early, by simpa using repeated⟩)
      · exact Or.inr (Or.inr late)

section Unit

variable {hp : List Entry} {u : LoadUnit}

theorem extendedLoad_eq (hp : List Entry) (u : LoadUnit) :
    extendedLoad hp u = roundLoad hp u + totalLoad hp := by
  simp only [extendedLoad, roundLoad, demand, Nat.add_one_mul, List.sum_map_add, ← Nat.add_assoc]
  rfl

theorem roundLoad_le_of_fixed (pos : Positive hp) (load : 0 < u.wcLoad) {R : ℕ}
    (fixed : R = demand hp u R) : roundLoad hp u ≤ R :=
  calc roundLoad hp u
      ≤ demand hp u R := demand_mono hp u (guessWindow_le_of_fixed pos load fixed)
    _ = R := fixed.symm

/-- The first round ends with the response. -/
theorem Settled.response (settled : Settled hp u) (pos : Positive hp) (load : 0 < u.wcLoad) :
    IsResponseTime hp u (roundLoad hp u) := by
  have longer : guessWindow hp u ≤ roundLoad hp u := by
    have positive : 0 < guessWindow hp u := by
      rw [guessWindow]
      omega
    exact Nat.add_le_add_left (totalLoad_le_windowLoad pos positive) _
  have again : demand hp u (roundLoad hp u) ≤ roundLoad hp u := by
    apply Nat.add_le_add_left
    refine List.sum_le_sum fun e he => Nat.mul_le_mul_right _ ?_
    exact (activations_le_iff (pos e he).2).mpr (settled.settled e he)
  constructor
  · exact le_antisymm (demand_mono hp u longer) again
  · exact fun R fixed => roundLoad_le_of_fixed pos load fixed

theorem Repeated.extendedLoad_le (repeated : Repeated hp u) (pos : Positive hp) {R : ℕ}
    (longer : roundLoad hp u ≤ R) : extendedLoad hp u ≤ demand hp u R := by
  apply Nat.add_le_add_left
  refine List.sum_le_sum fun e he => Nat.mul_le_mul_right _ ?_
  apply Nat.succ_le_of_lt
  rw [← not_le, activations_le_iff (pos e he).2, not_le]
  exact (repeated.repeated e he).trans_le longer

/-- The response takes in one activation more of every unit of higher priority. -/
theorem Repeated.response (repeated : Repeated hp u) (pos : Positive hp) (load : 0 < u.wcLoad) :
    IsResponseTime hp u (extendedLoad hp u) := by
  have longer : roundLoad hp u ≤ extendedLoad hp u := by
    rw [extendedLoad_eq]
    exact Nat.le_add_right _ _
  constructor
  · exact le_antisymm (repeated.extendedLoad_le pos longer)
      (demand_extendedLoad_le pos repeated.toEarly)
  · intro R fixed
    calc extendedLoad hp u
        ≤ demand hp u R :=
          repeated.extendedLoad_le pos (roundLoad_le_of_fixed pos load fixed)
      _ = R := fixed.symm

end Unit

/-- Every unit has a response that meets its deadline with the declared tolerance to spare. -/
def Feasible (loaders : LoadUnitSet) : Prop :=
  ∀ e ∈ loaders.entries, ∃ R, IsResponseTime (loaders.higher e.1) e.2 R ∧
    100 * R ≤ 99 * e.2.relDeadline

/-- The stored response is the least solution or exceeds it by a hundredth at most. -/
def WithinTolerance (loaders : LoadUnitSet) (e e' : Entry) : Prop :=
  e'.1 = e.1 ∧ ∀ R, IsResponseTime (loaders.higher e.1) e.2 R →
    R ≤ e'.2.wcResponse ∧ 100 * (e'.2.wcResponse - R) ≤ e'.2.wcResponse

def Exact (platform : Platform) (loaders : LoadUnitSet) (immediateExit : Bool) : Prop :=
  ∃ resp, assessPreciseBound platform.count loaders immediateExit = .ok (true, resp) ∧
    List.Forall₂ (WithinTolerance loaders) loaders.entries resp

section Exactness

variable {platform : Platform} {loaders : LoadUnitSet}

theorem withinTolerance_iff {e : Entry} {R stored : ℕ}
    (response : IsResponseTime (loaders.higher e.1) e.2 R) :
    WithinTolerance loaders e (store e stored) ↔ R ≤ stored ∧ 100 * (stored - R) ≤ stored := by
  constructor
  · exact fun within => within.2 R response
  · intro bounds
    refine ⟨rfl, fun R' response' => ?_⟩
    rw [IsLeast.unique response' response]
    exact bounds

/-- A feasible set whose responses are within the tolerance meets its deadlines. -/
theorem exact_iff (nonempty : loaders.entries ≠ []) (feasible : Feasible loaders)
    (immediateExit : Bool) :
    Exact platform loaders immediateExit ↔ ∀ e ∈ loaders.entries, WithinTolerance loaders e
      (store e (guessDemand platform.count (loaders.higher e.1) e.2)) := by
  have stored : accepts platform.count [] loaders.entries = true →
      (List.Forall₂ (WithinTolerance loaders) loaders.entries
        (stored platform.count immediateExit [] loaders.entries) ↔
      ∀ e ∈ loaders.entries, WithinTolerance loaders e
        (store e (guessDemand platform.count (loaders.higher e.1) e.2))) := by
    intro accepted
    rw [stored_of_accepts _ loaders immediateExit accepted, List.forall₂_map_right_iff,
      List.forall₂_same]
  constructor
  · rintro ⟨resp, run, close⟩
    rw [assessPreciseBound_eq _ nonempty] at run
    obtain ⟨accepted, rfl⟩ := Prod.mk.inj (Except.ok.inj run)
    exact (stored accepted).mp close
  · intro close
    have accepted : accepts platform.count [] loaders.entries = true := by
      rw [accepts_iff]
      intro e he
      obtain ⟨R, response, slack⟩ := feasible e he
      have bounds := (withinTolerance_iff response).mp (close e he)
      omega
    exact ⟨_, by rw [assessPreciseBound_eq _ nonempty, accepted], (stored accepted).mpr close⟩

/-- The first round settles and the load that it counts twice is small, or every unit of higher
priority is activated exactly once more. -/
def OneRoundSuffices (hp : List Entry) (u : LoadUnit) : Prop :=
  Settled hp u ∧ 99 * totalLoad hp ≤ roundLoad hp u ∨ Repeated hp u

/-- The first round settles but the load that it counts twice is not small, or every unit of
higher priority is activated more than once more. -/
def OneRoundFails (hp : List Entry) (u : LoadUnit) : Prop :=
  Settled hp u ∧ roundLoad hp u < 99 * totalLoad hp ∨ Late hp u

end Exactness

def lightPair : LoadUnitSet where
  entries := [(1, ⟨"tick", 1, 200, 200, 0, 1⟩), (2, ⟨"frame", 99, 200, 110, 0, 2⟩)]
  ordered := by simp

/-- Two equal loads: the second response is two hundred and three hundred are stored. -/
def evenPair : LoadUnitSet where
  entries := [(1, ⟨"left", 100, 1000, 1000, 0, 1⟩), (2, ⟨"right", 100, 1000, 1000, 0, 2⟩)]
  ordered := by simp

end Kista.LoadAnalysis.TimeDemand
