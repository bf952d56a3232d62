/- Kista/LoadAnalysis/Convergence
   source: src/src/load_analysis/load_analysis.cpp
   digest: The do-while loop of the precise analysis round by round: where its iterator stands, how
   it ends, and that it always ends by convergence. -/

import Kista.LoadAnalysis.TimeDemand

set_option autoImplicit false
set_option relaxedAutoImplicit false

/-!
The loop is run with a record of its rounds, for any count `b` of activations: the exact one and
those that are converted to 32 bits. An iterator is the suffix of the map from the entry
that it points to; past the unit being analysed it would be a shorter suffix than the unit's.
-/

namespace Kista.LoadAnalysis.Convergence

open PreciseBound TimeDemand

/-- The positions at which a sweep over the units of higher priority tests its iterator. -/
def positions (key : ℕ) : List Entry → List (List Entry)
  | [] => [[]]
  | hp :: rest => (hp :: rest) :: if hp.1 < key then positions key rest else []

structure Round where
  R : ℕ
  next : ℕ
  hpLoad : List Entry
  deriving DecidableEq

inductive Ending where
  | converged
  | exit
  | derefEnd
  | running
  deriving DecidableEq

section Loop

variable (b : ℕ → ℕ → ℕ)

/-- The do-while loop after so many iterations, for a budget of further ones: its rounds, with the
iterator that each starts from, and how it ends. -/
def doWhile (key : ℕ) : ℕ → ℕ → ℕ → List Entry → List Round × Ending
  | 0, _, _, _ => ([], .running)
  | budget + 1, iterations, R, hp =>
    match interference b key R hp 0 with
    | .error _ => ([], .derefEnd)
    | .ok (I, hp') =>
      if maxIterations < iterations + 1 then ([⟨R, R + I, hp⟩], .exit)
      else if maxRelativeDiff < relDiff R (R + I) then
        (⟨R, R + I, hp⟩ :: (doWhile key budget (iterations + 1) (R + I) hp').1,
          (doWhile key budget (iterations + 1) (R + I) hp').2)
      else ([⟨R, R + I, hp⟩], .converged)

/-- A sweep that starts at the given position never tests a position past the unit. -/
def StopsAtUnit (key : ℕ) (unit start : List Entry) : Prop :=
  ∀ position ∈ positions key start, unit <:+ position

/-- The analysis of the first unit of a suffix of the map: the first guess is made, the loop ends
through its test within the iterations allowed, no sweep passes the unit, and no round divides by
zero. -/
def Converges (all : List Entry) (load : Entry) (rest : List Entry) : Prop :=
  StopsAtUnit load.1 (load :: rest) all ∧
    ∃ R rounds budget, firstGuess load.1 all load.2.wcLoad = .ok R ∧
      doWhile b load.1 budget 0 R all = (rounds, .converged) ∧
      rounds.length ≤ maxIterations ∧
      ∀ round ∈ rounds, StopsAtUnit load.1 (load :: rest) round.hpLoad ∧
        0 < round.R ∧ 0 < round.next

end Loop

variable {b : ℕ → ℕ → ℕ} {key : ℕ} {hp rest : List Entry} {load : Entry}

theorem stopsAtUnit (below : ∀ e ∈ hp, e.1 < key) (stop : ¬ load.1 < key) :
    StopsAtUnit key (load :: rest) (hp ++ load :: rest) := by
  induction hp with
  | nil =>
    intro position h
    rw [List.nil_append, positions, if_neg stop, List.mem_singleton] at h
    rw [h]
  | cons e hp ih =>
    intro position h
    have he : e.1 < key := below e List.mem_cons_self
    rw [List.cons_append, positions, if_pos he, List.mem_cons] at h
    rcases h with rfl | later
    · exact List.suffix_append (e :: hp) (load :: rest)
    · exact ih (fun x hx => below x (List.mem_cons_of_mem e hx)) position later

/-- From the unit itself the sweep adds nothing, and the loop ends. -/
theorem doWhile_exhausted (stop : ¬ load.1 < key) {iterations : ℕ}
    (allowed : iterations < maxIterations) (budget R : ℕ) :
    doWhile b key (budget + 1) iterations R (load :: rest) =
      ([⟨R, R, load :: rest⟩], .converged) := by
  have sweep : interference b key R (load :: rest) 0 = .ok (0, load :: rest) := by
    simp [interference, stop]
  have close : ¬ maxRelativeDiff < relDiff R R := by
    rw [relDiff_self, maxRelativeDiff]
    norm_num
  rw [doWhile, sweep]
  simp only [Nat.add_zero, if_neg close, if_neg (show ¬ maxIterations < iterations + 1 by omega)]

/-- The loop ends by convergence in its first or its second round. -/
theorem doWhile_converges (rest : List Entry) (below : ∀ e ∈ hp, e.1 < key)
    (stop : ¬ load.1 < key) (R : ℕ) :
    doWhile b key 2 0 R (hp ++ load :: rest) =
        ([⟨R, R + countedLoad b R hp, hp ++ load :: rest⟩], .converged) ∨
      doWhile b key 2 0 R (hp ++ load :: rest) =
        ([⟨R, R + countedLoad b R hp, hp ++ load :: rest⟩,
          ⟨R + countedLoad b R hp, R + countedLoad b R hp, load :: rest⟩], .converged) := by
  have first : ¬ maxIterations < 0 + 1 := by decide
  rw [doWhile, interference_stops b below stop, Nat.zero_add]
  simp only [if_neg first]
  by_cases far : maxRelativeDiff < relDiff R (R + countedLoad b R hp)
  · right
    rw [if_pos far, doWhile_exhausted stop (by decide)]
  · left
    rw [if_neg far]

/-- A loop that converges returns what the loop without a record returns. -/
theorem fixedPoint_of_doWhile {budget iterations R : ℕ} {rounds : List Round}
    (h : doWhile b key budget iterations R hp = (rounds, .converged)) :
    ∃ last, rounds.getLast? = some last ∧
      fixedPoint b key (maxIterations - iterations) R hp = .ok (last.R, last.next) := by
  induction budget generalizing iterations R hp rounds with
  | zero => simp [doWhile] at h
  | succ budget ih =>
    rw [doWhile] at h
    split at h
    · simp at h
    · rename_i I hp' sweep
      split at h
      · simp at h
      · rename_i allowed
        obtain ⟨left, hleft⟩ : ∃ left, maxIterations - iterations = left + 1 :=
          ⟨maxIterations - (iterations + 1), by omega⟩
        rw [hleft, fixedPoint, sweep]
        split at h
        · rename_i far
          obtain ⟨hrounds, hending⟩ := Prod.mk.inj h
          obtain ⟨last, hlast, hvalue⟩ := ih (Prod.ext rfl hending)
          refine ⟨last, ?_, ?_⟩
          · rw [← hrounds, List.getLast?_cons, hlast]
            rfl
          · have hbudget : maxIterations - (iterations + 1) = left := by omega
            simpa only [if_pos far, ← hbudget] using hvalue
        · rename_i close
          obtain ⟨hrounds, -⟩ := Prod.mk.inj h
          refine ⟨⟨R, R + I, hp⟩, ?_, ?_⟩
          · rw [← hrounds]
            rfl
          · simp only [if_neg close]

theorem converges (below : ∀ e ∈ hp, e.1 < load.1) (positive : 0 < load.2.wcLoad) :
    Converges b (hp ++ load :: rest) load rest := by
  have stop : ¬ load.1 < load.1 := lt_irrefl _
  have whole : StopsAtUnit load.1 (load :: rest) (hp ++ load :: rest) := stopsAtUnit below stop
  have none : ∀ e ∈ ([] : List Entry), e.1 < load.1 := by simp
  have own : StopsAtUnit load.1 (load :: rest) (load :: rest) := stopsAtUnit none stop
  have guess : firstGuess load.1 (hp ++ load :: rest) load.2.wcLoad =
      .ok (load.2.wcLoad + totalLoad hp) := firstGuess_stops below stop _
  have hguess : 0 < load.2.wcLoad + totalLoad hp := Nat.add_pos_left positive _
  generalize load.2.wcLoad + totalLoad hp = R at guess hguess
  have hnext : 0 < R + countedLoad b R hp := Nat.add_pos_left hguess _
  refine ⟨whole, R, ?_⟩
  rcases doWhile_converges rest below stop R with once | twice
  · refine ⟨_, 2, guess, once, ?_, ?_⟩
    · rw [List.length_singleton, maxIterations]
      omega
    · intro round h
      rw [List.mem_singleton] at h
      rw [h]
      exact ⟨whole, hguess, hnext⟩
  · refine ⟨_, 2, guess, twice, ?_, ?_⟩
    · rw [List.length_cons, List.length_singleton, maxIterations]
      omega
    · intro round h
      rw [List.mem_pair] at h
      rcases h with rfl | rfl
      · exact ⟨whole, hguess, hnext⟩
      · exact ⟨own, hnext, hnext⟩

/-- The units already assessed differ from the loaded ones in their responses only. -/
theorem below_of_loads {loaders : LoadUnitSet} {before done : List Entry}
    (split : loaders.entries = before ++ load :: rest) (same : loads done = loads before) :
    ∀ e ∈ done, e.1 < load.1 := by
  have ordered := loaders.ordered
  rw [split] at ordered
  have keys : done.map Prod.fst = before.map Prod.fst := by
    have := congrArg (List.map Prod.fst) same
    simpa [loads, Function.comp_def] using this
  intro e he
  have member : e.1 ∈ before.map Prod.fst := keys ▸ List.mem_map_of_mem he
  obtain ⟨x, hx, hkey⟩ := List.mem_map.mp member
  rw [← hkey]
  exact (List.pairwise_append.mp ordered).2.2 x hx load List.mem_cons_self

/-- Whatever the utilisation and however activations are counted, the loop converges for every unit
when its turn comes, and the analysis of a set that is not empty returns a verdict. -/
theorem analysis_converges (b : ℕ → ℕ → ℕ) (loaders : LoadUnitSet)
    (positive : Positive loaders.entries) :
    (∀ before load rest done, loaders.entries = before ++ load :: rest →
      loads done = loads before → Converges b (done ++ load :: rest) load rest) ∧
    ∀ immediateExit, loaders.entries ≠ [] →
      ∃ verdict, assessPreciseBound b loaders immediateExit = .ok verdict := by
  constructor
  · intro before load rest done split same
    apply converges (below_of_loads split same)
    exact (positive load (by simp [split])).1
  · intro immediateExit nonempty
    exact ⟨_, assessPreciseBound_eq b nonempty immediateExit⟩

/-- Two units that ask for more than the processor has. -/
def overload : LoadUnitSet where
  entries := [(1, ⟨"camera", 3, 2, 2, 0, 1⟩), (2, ⟨"logger", 5, 4, 4, 0, 2⟩)]
  ordered := by simp

theorem overload_converges :
    Converges activations overload.entries (2, ⟨"logger", 5, 4, 4, 0, 2⟩) [] := by
  have positive : Positive overload.entries := by
    simp [Positive, overload]
  exact (analysis_converges activations overload positive).1 [(1, ⟨"camera", 3, 2, 2, 0, 1⟩)]
    (2, ⟨"logger", 5, 4, 4, 0, 2⟩) [] [(1, ⟨"camera", 3, 2, 2, 0, 1⟩)] rfl rfl

end Kista.LoadAnalysis.Convergence
