/- Kista/LoadAnalysis/PreciseBound
   source: src/src/load_analysis/load_analysis.cpp, load_analysis.hpp
   digest: The precise schedulability analysis with its shared iterator, and the closed
   form of the response it stores. -/

import Mathlib.Algebra.Order.Floor.Ring
import Mathlib.Data.Rat.Floor
import Mathlib.Tactic.Linarith
import Mathlib.Tactic.Positivity

set_option autoImplicit false
set_option relaxedAutoImplicit false

/-!
Times are exact counts of resolution units and quotients of times exact rationals. The
two sweeps over the units of higher priority share one iterator, a suffix of the map,
which the do-while loop never resets. The loops are written for any count `b` of the
activations in a window; the code's own is the ceiling converted to 32 bits.
-/

namespace Kista.LoadAnalysis.PreciseBound

structure LoadUnit where
  name : String
  wcLoad : ℕ
  period : ℕ
  relDeadline : ℕ
  wcResponse : ℕ
  priority : ℕ
  deriving DecidableEq

abbrev Entry := ℕ × LoadUnit

/-- `std::map<unsigned int, load_unit>` in iteration order, so the keys increase strictly. -/
structure LoadUnitSet where
  entries : List Entry
  ordered : entries.Pairwise (fun a b => a.1 < b.1)

inductive Halt where
  | emptyLoaders
  | iterationLimit
  | derefEnd
  deriving DecidableEq

-- MAX_RELATIVE_DIFF_FOR_PRECISE_BOUND and MAX_NUMBER_FIXED_POINT_ITERATIONS
def maxRelativeDiff : ℚ := 1 / 100
def maxIterations : ℕ := 1000

/-- `ceil(R / period)`: the activations of a unit inside a window of length `R`. -/
def activations (R period : ℕ) : ℕ := ⌈(R : ℚ) / period⌉₊

/-- What the language leaves to the platform: the conversion of a ceiling that is no 32-bit
value. -/
structure Platform where
  unfit : ℕ → ℕ → UInt32

/-- `unsigned int b = ceil(R / period)` -/
def Platform.count (platform : Platform) (R period : ℕ) : ℕ :=
  if 0 < period ∧ activations R period < 2 ^ 32 then activations R period
  else (platform.unfit R period).toNat

theorem Platform.count_of_lt (platform : Platform) {R period : ℕ} (pos : 0 < period)
    (fits : activations R period < 2 ^ 32) : platform.count R period = activations R period :=
  if_pos ⟨pos, fits⟩

theorem Platform.count_of_ge (platform : Platform) {R period : ℕ}
    (large : 2 ^ 32 ≤ activations R period) :
    platform.count R period = (platform.unfit R period).toNat :=
  if_neg fun fits => absurd fits.2 (not_lt.mpr large)

section Analysis

variable (b : ℕ → ℕ → ℕ)

def firstGuess (key : ℕ) : List Entry → ℕ → Except Halt ℕ
  | [], _ => .error .derefEnd
  | hp :: rest, R =>
    if hp.1 < key then firstGuess key rest (R + hp.2.wcLoad) else .ok R

/-- One interference sweep; the iterator is returned where it stopped. -/
def interference (key R : ℕ) : List Entry → ℕ → Except Halt (ℕ × List Entry)
  | [], _ => .error .derefEnd
  | hp :: rest, I =>
    if hp.1 < key then interference key R rest (I + b R hp.2.period * hp.2.wcLoad)
    else .ok (I, hp :: rest)

def relDiff (R next : ℕ) : ℚ :=
  if R < next then ((next : ℚ) - R) / next else ((R : ℚ) - next) / R

/-- The do-while loop. The budget is `maxIterations` less the iterations already counted;
the iterator is the one the previous iteration left behind. -/
def fixedPoint (key : ℕ) : ℕ → ℕ → List Entry → Except Halt (ℕ × ℕ)
  | 0, R, hp =>
    match interference b key R hp 0 with
    | .error h => .error h
    | .ok _ => .error .iterationLimit
  | budget + 1, R, hp =>
    match interference b key R hp 0 with
    | .error h => .error h
    | .ok (I, hp') =>
      if maxRelativeDiff < relDiff R (R + I) then fixedPoint key budget (R + I) hp'
      else .ok (R, R + I)

/-- The response of one unit, with the final update to the bigger of the last two guesses. -/
def response (all : List Entry) (load : Entry) : Except Halt ℕ :=
  match firstGuess load.1 all load.2.wcLoad with
  | .error h => .error h
  | .ok R0 =>
    match fixedPoint b load.1 maxIterations R0 all with
    | .error h => .error h
    | .ok (R, next) => .ok (if R < next then next else R)

def store (load : Entry) (R : ℕ) : Entry := (load.1, { load.2 with wcResponse := R })

/-- The loop over the map: `done` is what has been assessed, the rest is still to do. -/
def assessFrom (immediateExit : Bool) (done : List Entry) :
    List Entry → Bool → Except Halt (Bool × List Entry)
  | [], result => .ok (result, done)
  | load :: rest, result =>
    match response b (done ++ load :: rest) load with
    | .error h => .error h
    | .ok R =>
      let result := if load.2.relDeadline < R then false else result
      if immediateExit && !result then .ok (false, done ++ store load R :: rest)
      else assessFrom immediateExit (done ++ [store load R]) rest result

def assessPreciseBound (loaders : LoadUnitSet) (immediateExit : Bool) :
    Except Halt (Bool × List Entry) :=
  if loaders.entries.length < 1 then .error .emptyLoaders
  else assessFrom b immediateExit [] loaders.entries true

def totalLoad (hp : List Entry) : ℕ := (hp.map fun e => e.2.wcLoad).sum

/-- The load that one sweep counts in a window. -/
def countedLoad (R : ℕ) (hp : List Entry) : ℕ :=
  (hp.map fun e => b R e.2.period * e.2.wcLoad).sum

def guessWindow (hp : List Entry) (u : LoadUnit) : ℕ := u.wcLoad + totalLoad hp

/-- The first guess with the load of its window added once. -/
def guessDemand (hp : List Entry) (u : LoadUnit) : ℕ :=
  guessWindow hp u + countedLoad b (guessWindow hp u) hp

@[simp] theorem totalLoad_nil : totalLoad [] = 0 := rfl
@[simp] theorem totalLoad_cons (e : Entry) (hp : List Entry) :
    totalLoad (e :: hp) = e.2.wcLoad + totalLoad hp := rfl
@[simp] theorem countedLoad_nil (R : ℕ) : countedLoad b R [] = 0 := rfl
@[simp] theorem countedLoad_cons (R : ℕ) (e : Entry) (hp : List Entry) :
    countedLoad b R (e :: hp) = b R e.2.period * e.2.wcLoad + countedLoad b R hp := rfl

/-- Both sweeps stop at the unit being assessed and never pass it. -/
theorem firstGuess_stops {key : ℕ} {hp rest : List Entry} {load : Entry}
    (below : ∀ e ∈ hp, e.1 < key) (stop : ¬ load.1 < key) (R : ℕ) :
    firstGuess key (hp ++ load :: rest) R = .ok (R + totalLoad hp) := by
  induction hp generalizing R with
  | nil => simp [firstGuess, stop]
  | cons e hp ih =>
    have he : e.1 < key := below e (by simp)
    rw [List.cons_append, firstGuess, if_pos he, ih (fun x hx => below x (by simp [hx]))]
    simp [Nat.add_assoc]

theorem interference_stops {key : ℕ} {hp rest : List Entry} {load : Entry}
    (below : ∀ e ∈ hp, e.1 < key) (stop : ¬ load.1 < key) (R I : ℕ) :
    interference b key R (hp ++ load :: rest) I = .ok (I + countedLoad b R hp, load :: rest) := by
  induction hp generalizing I with
  | nil => simp [interference, stop]
  | cons e hp ih =>
    have he : e.1 < key := below e (by simp)
    rw [List.cons_append, interference, if_pos he, ih (fun x hx => below x (by simp [hx]))]
    simp [Nat.add_assoc]

theorem relDiff_self (R : ℕ) : relDiff R R = 0 := by
  simp [relDiff]

/-- Once the iterator rests on the assessed unit the sweep adds nothing, and the loop stops
with the guess it was given. -/
private theorem fixedPoint_exhausted {key : ℕ} {rest : List Entry} {load : Entry}
    (stop : ¬ load.1 < key) (budget R : ℕ) :
    fixedPoint b key (budget + 1) R (load :: rest) = .ok (R, R) := by
  have sweep : interference b key R (load :: rest) 0 = .ok (0, load :: rest) := by
    simp [interference, stop]
  rw [fixedPoint, sweep]
  simp [relDiff_self, maxRelativeDiff]

/-- The loop stops after at most two iterations: only the first one sees any interference. -/
theorem fixedPoint_two_rounds {key : ℕ} {hp rest : List Entry} {load : Entry}
    (below : ∀ e ∈ hp, e.1 < key) (stop : ¬ load.1 < key) (budget R : ℕ) :
    ∃ last, fixedPoint b key (budget + 2) R (hp ++ load :: rest)
      = .ok (last, R + countedLoad b R hp) ∧ last ≤ R + countedLoad b R hp := by
  rw [fixedPoint, interference_stops b below stop, Nat.zero_add]
  -- a far first round leads into a second one that starts at the assessed unit
  by_cases far : maxRelativeDiff < relDiff R (R + countedLoad b R hp)
  · refine ⟨R + countedLoad b R hp, ?_, le_rfl⟩
    simp only [if_pos far, fixedPoint_exhausted b stop]
  · exact ⟨R, by simp only [if_neg far], Nat.le_add_right _ _⟩

/-- The stored response is the first guess plus the load of its own window. -/
theorem response_eq {hp rest : List Entry} {load : Entry}
    (below : ∀ e ∈ hp, e.1 < load.1) :
    response b (hp ++ load :: rest) load = .ok (guessDemand b hp load.2) := by
  obtain ⟨last, run, le⟩ :=
    @fixedPoint_two_rounds b _ _ rest _ below (lt_irrefl load.1) 998 (guessWindow hp load.2)
  have run : fixedPoint b load.1 maxIterations (load.2.wcLoad + totalLoad hp)
      (hp ++ load :: rest) = .ok (last, guessDemand b hp load.2) := run
  have le : last ≤ guessDemand b hp load.2 := le
  simp only [response, firstGuess_stops below (lt_irrefl _), run]
  congr 1
  split
  · rfl
  · omega

/-- What the interference of a unit depends on: keys, loads and periods. -/
def loads (hp : List Entry) : List (ℕ × ℕ × ℕ) := hp.map fun e => (e.1, e.2.wcLoad, e.2.period)

theorem totalLoad_eq_loads (hp : List Entry) :
    totalLoad hp = ((loads hp).map fun x => x.2.1).sum := by
  simp [totalLoad, loads, Function.comp_def]

theorem countedLoad_eq_loads (R : ℕ) (hp : List Entry) :
    countedLoad b R hp = ((loads hp).map fun x => b R x.2.2 * x.2.1).sum := by
  simp [countedLoad, loads, Function.comp_def]

theorem guessDemand_congr {hp hp' : List Entry} (same : loads hp = loads hp') (u : LoadUnit) :
    guessDemand b hp u = guessDemand b hp' u := by
  simp only [guessDemand, guessWindow, totalLoad_eq_loads, countedLoad_eq_loads, same]

def accepts (hp : List Entry) : List Entry → Bool
  | [] => true
  | e :: rest => decide (guessDemand b hp e.2 ≤ e.2.relDeadline) && accepts (hp ++ [e]) rest

/-- The map the analysis leaves behind for the remaining units. -/
def stored (immediateExit : Bool) (hp : List Entry) : List Entry → List Entry
  | [] => []
  | e :: rest =>
    store e (guessDemand b hp e.2) ::
      if immediateExit && !decide (guessDemand b hp e.2 ≤ e.2.relDeadline) then rest
      else stored immediateExit (hp ++ [e]) rest

theorem assessFrom_eq (immediateExit : Bool) {done hp rest : List Entry} {result : Bool}
    (same : loads done = loads hp) (keys : (hp ++ rest).Pairwise fun x y => x.1 < y.1)
    (passed : immediateExit = true → result = true) :
    assessFrom b immediateExit done rest result =
      .ok (result && accepts b hp rest, done ++ stored b immediateExit hp rest) := by
  induction rest generalizing done hp result with
  | nil => simp [assessFrom, accepts, stored]
  | cons e rest ih =>
    have below : ∀ x ∈ done, x.1 < e.1 := by
      have keysOf : done.map Prod.fst = hp.map Prod.fst := by
        have := congrArg (List.map Prod.fst) same
        simpa [loads, Function.comp_def] using this
      intro x hx
      have member : x.1 ∈ hp.map Prod.fst := keysOf ▸ List.mem_map_of_mem hx
      obtain ⟨y, hy, hxy⟩ := List.mem_map.mp member
      exact hxy ▸ (List.pairwise_append.mp keys).2.2 y hy e (by simp)
    rw [assessFrom, response_eq b below, guessDemand_congr b same]
    have same' : loads (done ++ [store e (guessDemand b hp e.2)]) = loads (hp ++ [e]) := by
      simp only [loads, List.map_append] at same ⊢
      rw [same]
      rfl
    have keys' : ((hp ++ [e]) ++ rest).Pairwise fun x y => x.1 < y.1 := by
      simpa using keys
    by_cases fits : guessDemand b hp e.2 ≤ e.2.relDeadline
    · have verdict : ¬ e.2.relDeadline < guessDemand b hp e.2 := by omega
      simp only [if_neg verdict]
      cases hi : immediateExit with
      | true =>
        obtain rfl := passed hi
        rw [hi] at ih
        simp [ih same' keys' (fun _ => rfl), accepts, stored, fits]
      | false =>
        rw [hi] at ih
        simp [ih same' keys' (by simp), accepts, stored, fits]
    · have verdict : e.2.relDeadline < guessDemand b hp e.2 := by omega
      simp only [if_pos verdict]
      cases hi : immediateExit with
      | true => simp [accepts, stored, fits]
      | false =>
        rw [hi] at ih
        simp [ih same' keys' (by simp), accepts, stored, fits]

/-- The verdict and the stored responses of the whole analysis, for either exit flag. -/
theorem assessPreciseBound_eq {loaders : LoadUnitSet} (nonempty : loaders.entries ≠ [])
    (immediateExit : Bool) :
    assessPreciseBound b loaders immediateExit =
      .ok (accepts b [] loaders.entries, stored b immediateExit [] loaders.entries) := by
  have len : ¬ loaders.entries.length < 1 := by
    have := List.length_pos_iff.mpr nonempty
    omega
  rw [assessPreciseBound, if_neg len,
    @assessFrom_eq b immediateExit [] [] _ _ rfl (by simpa using loaders.ordered) (fun _ => rfl)]
  simp

def LoadUnitSet.higher (loaders : LoadUnitSet) (key : ℕ) : List Entry :=
  loaders.entries.filter fun e => e.1 < key

theorem LoadUnitSet.higher_eq (loaders : LoadUnitSet) {hp rest : List Entry} {e : Entry}
    (split : loaders.entries = hp ++ e :: rest) : loaders.higher e.1 = hp := by
  have keys := loaders.ordered
  rw [split, List.pairwise_append, List.pairwise_cons] at keys
  obtain ⟨-, ⟨above, -⟩, below⟩ := keys
  rw [LoadUnitSet.higher, split, List.filter_append,
    List.filter_eq_self.mpr (fun a ha => by simpa using below a ha e (by simp)),
    List.filter_eq_nil_iff.mpr, List.append_nil]
  intro a ha
  rcases List.mem_cons.mp ha with rfl | ha
  · simp
  · have := above a ha
    simp only [decide_eq_true_eq]
    omega

private theorem accepts_suffix (loaders : LoadUnitSet) {hp rest : List Entry}
    (split : loaders.entries = hp ++ rest) :
    accepts b hp rest = true ↔
      ∀ e ∈ rest, guessDemand b (loaders.higher e.1) e.2 ≤ e.2.relDeadline := by
  induction rest generalizing hp with
  | nil => simp [accepts]
  | cons x rest ih =>
    have next : loaders.entries = (hp ++ [x]) ++ rest := by simpa using split
    simp [accepts, ih next, loaders.higher_eq split]

theorem accepts_iff (loaders : LoadUnitSet) :
    accepts b [] loaders.entries = true ↔
      ∀ e ∈ loaders.entries, guessDemand b (loaders.higher e.1) e.2 ≤ e.2.relDeadline :=
  accepts_suffix b loaders rfl

private theorem stored_suffix (loaders : LoadUnitSet) {immediateExit : Bool}
    {hp rest : List Entry} (split : loaders.entries = hp ++ rest)
    (passed : immediateExit = true → accepts b hp rest = true) :
    stored b immediateExit hp rest =
      rest.map fun e => store e (guessDemand b (loaders.higher e.1) e.2) := by
  induction rest generalizing hp with
  | nil => rfl
  | cons x rest ih =>
    have next : loaders.entries = (hp ++ [x]) ++ rest := by simpa using split
    cases immediateExit with
    | false => simp [stored, ih next, loaders.higher_eq split]
    | true =>
      have all := passed rfl
      simp only [accepts, Bool.and_eq_true, decide_eq_true_eq] at all
      obtain ⟨fits, later⟩ := all
      simp [stored, fits, ih next fun _ => later, loaders.higher_eq split]

theorem stored_of_accepts (loaders : LoadUnitSet) (immediateExit : Bool)
    (all : accepts b [] loaders.entries = true) :
    stored b immediateExit [] loaders.entries =
      loaders.entries.map fun e => store e (guessDemand b (loaders.higher e.1) e.2) :=
  stored_suffix b loaders rfl fun _ => all

/-- The full analysis never stops early. -/
theorem stored_full (loaders : LoadUnitSet) : stored b false [] loaders.entries =
    loaders.entries.map fun e => store e (guessDemand b (loaders.higher e.1) e.2) :=
  stored_suffix b loaders rfl (by simp)

end Analysis

end Kista.LoadAnalysis.PreciseBound
