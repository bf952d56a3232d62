/- Kista/Kernel/Run
   digest: Runs of a labelled system whose steps may be undefined, conditions that hold along
   a run, and the two invariant rules. -/

import Mathlib.Data.Nat.Notation
import Mathlib.Data.Option.Basic
import Mathlib.Tactic.TypeStar

set_option autoImplicit false
set_option relaxedAutoImplicit false

namespace Kista.Kernel.Run

variable {σ ι : Type*} {step : σ → ι → Option σ} {ok ok' : σ → ι → Prop} {inv : σ → Prop}

/-- The state after a list of labels, if every step of it is defined. -/
def run (step : σ → ι → Option σ) : σ → List ι → Option σ
  | s, [] => some s
  | s, i :: is => (step s i).bind fun t => run step t is

/-- Every step that the run takes meets the condition in the state where it is taken. -/
def Along (step : σ → ι → Option σ) (ok : σ → ι → Prop) : σ → List ι → Prop
  | _, [] => True
  | s, i :: is => ok s i ∧ ∀ t ∈ step s i, Along step ok t is

instance alongDecidable [∀ s i, Decidable (ok s i)] :
    (s : σ) → (is : List ι) → Decidable (Along step ok s is)
  | _, [] => inferInstanceAs (Decidable True)
  | s, i :: is =>
    have : ∀ t, Decidable (Along step ok t is) := fun t => alongDecidable t is
    inferInstanceAs (Decidable (ok s i ∧ ∀ t ∈ step s i, Along step ok t is))

@[simp] theorem run_nil (s : σ) : run step s [] = some s := rfl

theorem run_cons_eq_some {s u : σ} {i : ι} {is : List ι} :
    run step s (i :: is) = some u ↔ ∃ t, step s i = some t ∧ run step t is = some u :=
  Option.bind_eq_some_iff

theorem run_append_eq_some {s u : σ} {is js : List ι} :
    run step s (is ++ js) = some u ↔ ∃ t, run step s is = some t ∧ run step t js = some u := by
  induction is generalizing s with
  | nil => simp
  | cons i is ih =>
    simp only [List.cons_append, run_cons_eq_some, ih]
    constructor
    · rintro ⟨t, ht, v, hv, hu⟩
      exact ⟨v, ⟨t, ht, hv⟩, hu⟩
    · rintro ⟨v, ⟨t, ht, hv⟩, hu⟩
      exact ⟨t, ht, v, hv, hu⟩

theorem along_cons {s : σ} {i : ι} {is : List ι} :
    Along step ok s (i :: is) ↔ ok s i ∧ ∀ t, step s i = some t → Along step ok t is :=
  Iff.rfl

theorem Along.mono {s : σ} {is : List ι} (h : Along step ok s is)
    (weaker : ∀ s i, ok s i → ok' s i) : Along step ok' s is := by
  induction is generalizing s with
  | nil => trivial
  | cons i is ih => exact ⟨weaker s i h.1, fun t ht => ih (h.2 t ht)⟩

/-- What the steps of a run keep holds in the state it reaches. -/
theorem run_invariant (keep : ∀ s i t, inv s → ok s i → step s i = some t → inv t)
    {s u : σ} {is : List ι} (start : inv s) (along : Along step ok s is)
    (reach : run step s is = some u) : inv u := by
  induction is generalizing s with
  | nil => exact Option.some.inj reach ▸ start
  | cons i is ih =>
    obtain ⟨t, ht, hu⟩ := run_cons_eq_some.mp reach
    exact ih (keep s i t start along.1 ht) (along.2 t ht) hu

/-- A run whose every step is defined where the invariant holds is defined. -/
theorem run_defined (keep : ∀ s i, inv s → ok s i → ∃ t, step s i = some t ∧ inv t)
    {s : σ} {is : List ι} (start : inv s) (along : Along step ok s is) :
    ∃ u, run step s is = some u ∧ inv u := by
  induction is generalizing s with
  | nil => exact ⟨s, rfl, start⟩
  | cons i is ih =>
    obtain ⟨t, ht, next⟩ := keep s i start along.1
    obtain ⟨u, hu, final⟩ := ih next (along.2 t ht)
    exact ⟨u, run_cons_eq_some.mpr ⟨t, ht, hu⟩, final⟩

/-- What a run costs, its steps being charged in the state where they are taken. -/
def total (step : σ → ι → Option σ) (cost : σ → ι → ℕ) : σ → List ι → ℕ
  | _, [] => 0
  | s, i :: is =>
    cost s i +
      match step s i with
      | some t => total step cost t is
      | none => 0

/-- An invariant that also bounds what has been spent. -/
theorem run_total {cost : σ → ι → ℕ} {inv : σ → ℕ → Prop}
    (keep : ∀ s i t n, inv s n → ok s i → step s i = some t → inv t (n + cost s i))
    {s u : σ} {n : ℕ} {is : List ι} (start : inv s n) (along : Along step ok s is)
    (reach : run step s is = some u) : inv u (n + total step cost s is) := by
  induction is generalizing s n with
  | nil => exact Option.some.inj reach ▸ start
  | cons i is ih =>
    obtain ⟨t, ht, hu⟩ := run_cons_eq_some.mp reach
    have := ih (keep s i t n start along.1 ht) (along.2 t ht) hu
    simpa only [total, ht, Nat.add_assoc] using this

/-- A run costs nothing if none of its steps does. -/
theorem total_eq_zero {cost : σ → ι → ℕ} {s : σ} {is : List ι} :
    total step cost s is = 0 ↔ Along step (fun s i => cost s i = 0) s is := by
  induction is generalizing s with
  | nil => exact ⟨fun _ => trivial, fun _ => rfl⟩
  | cons i is ih =>
    rw [along_cons, total, Nat.add_eq_zero_iff]
    refine and_congr_right fun _ => ?_
    cases step s i with
    | none => exact ⟨nofun, fun _ => rfl⟩
    | some t =>
      rw [ih]
      exact ⟨fun free u same => Option.some.inj same ▸ free, fun free => free t rfl⟩

section Recording

variable {η : Type*}

/-- The system with a history that its steps write and never read. -/
def recording (step : σ → ι → Option σ) (note : σ → ι → σ → η → η) (x : σ × η) (i : ι) :
    Option (σ × η) :=
  (step x.1 i).map fun t => (t, note x.1 i t x.2)

variable {note : σ → ι → σ → η → η}

theorem recording_eq_some {x y : σ × η} {i : ι} :
    recording step note x i = some y ↔ step x.1 i = some y.1 ∧ y.2 = note x.1 i y.1 x.2 := by
  simp only [recording, Option.map_eq_some_iff]
  constructor
  · rintro ⟨t, taken, rfl⟩
    exact ⟨taken, rfl⟩
  · rintro ⟨taken, noted⟩
    exact ⟨y.1, taken, Prod.ext rfl noted.symm⟩

/-- The history changes nothing in a run. -/
theorem run_recording {x : σ × η} {is : List ι} :
    (run (recording step note) x is).map Prod.fst = run step x.1 is := by
  induction is generalizing x with
  | nil => rfl
  | cons i is ih =>
    rw [run, run, recording]
    cases step x.1 i with
    | none => rfl
    | some t => exact ih

theorem along_recording {x : σ × η} {is : List ι} :
    Along (recording step note) (fun x i => ok x.1 i) x is ↔ Along step ok x.1 is := by
  induction is generalizing x with
  | nil => exact Iff.rfl
  | cons i is ih =>
    rw [along_cons, along_cons]
    refine and_congr_right fun _ => ?_
    constructor
    · intro later t taken
      exact ih.mp (later (t, note x.1 i t x.2) (recording_eq_some.mpr ⟨taken, rfl⟩))
    · intro later y taken
      exact ih.mpr (later y.1 (recording_eq_some.mp taken).1)

/-- Every run has its history. -/
theorem exists_history {s t : σ} {is : List ι} (h : η) (reach : run step s is = some t) :
    ∃ h', run (recording step note) (s, h) is = some (t, h') := by
  have same : (run (recording step note) (s, h) is).map Prod.fst = some t :=
    run_recording.trans reach
  rw [Option.map_eq_some_iff] at same
  obtain ⟨⟨t', h'⟩, recorded, rfl⟩ := same
  exact ⟨h', recorded⟩

end Recording

/-- A condition on the labels alone holds along every run. -/
theorem along_of_forall {p : ι → Prop} {s : σ} {is : List ι} (h : ∀ i ∈ is, p i) :
    Along step (fun _ i => p i) s is := by
  induction is generalizing s with
  | nil => trivial
  | cons i is ih =>
    refine ⟨h i List.mem_cons_self, fun t _ => ?_⟩
    exact ih fun j mem => h j (List.mem_cons_of_mem _ mem)

end Kista.Kernel.Run
