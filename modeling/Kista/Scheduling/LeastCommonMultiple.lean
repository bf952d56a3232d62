/- Kista/Scheduling/LeastCommonMultiple
   source: src/src/auxiliar.hpp
   digest: The least common multiple of a vector with its 32-bit index: every call of lcm2 stays
   inside 64 bits, and the loop returns exactly for vectors that the index can count. -/

import Mathlib.Algebra.GCDMonoid.Multiset
import Mathlib.Algebra.GCDMonoid.Nat
import Mathlib.Data.List.Basic

set_option autoImplicit false
set_option relaxedAutoImplicit false

/-!
The numbers are `unsigned long long int`, the index of the loop is `unsigned int`. A budget bounds
the turns of a loop; without a result the loop is still running when the budget is used up.
-/

namespace Kista.Scheduling.LeastCommonMultiple

/-- The values of an `unsigned long long int`. -/
def wordSize : ℕ := 2 ^ 64

/-- The values of an `unsigned int`. -/
def indexSize : ℕ := 2 ^ 32

/-- `gcd2` with its loop. -/
def gcd2 : ℕ → ℕ → ℕ
  | 0, n => n
  | m + 1, n => gcd2 (n % (m + 1)) (m + 1)
termination_by m => m
decreasing_by exact Nat.mod_lt n m.succ_pos

/-- `lcm2`: the larger number is divided first, and the product wraps around. -/
def lcm2 (m n : ℕ) : Option ℕ :=
  if gcd2 m n = 0 then none
  else if n < m then some (m / gcd2 m n * n % wordSize)
  else some (n / gcd2 m n * m % wordSize)

/-- The loop of `gcd2` for a number of turns. -/
def gcd2Within : ℕ → ℕ → ℕ → Option ℕ
  | _, 0, n => some n
  | 0, _ + 1, _ => none
  | budget + 1, m + 1, n => gcd2Within budget (n % (m + 1)) (m + 1)

/-- The loop of `lcm` from index `i`. A division by zero has no result. -/
def lcmLoop (periods : List ℕ) : ℕ → ℕ → ℕ → Option ℕ
  | 0, _, _ => none
  | budget + 1, i, result =>
    if h : i < periods.length then
      (lcm2 result periods[i]).bind fun next =>
        lcmLoop periods budget ((i + 1) % indexSize) next
    else some result

/-- `lcm` of a vector; there is an error for the empty one. -/
def lcm (budget : ℕ) : List ℕ → Option ℕ
  | [] => none
  | [period] => some period
  | first :: second :: periods =>
    (lcm2 first second).bind fun result =>
      lcmLoop (first :: second :: periods) budget 2 result

/-- The pairs on which the loop calls `lcm2`. -/
def loopCalls (periods : List ℕ) : ℕ → ℕ → ℕ → List (ℕ × ℕ)
  | 0, _, _ => []
  | budget + 1, i, result =>
    if h : i < periods.length then
      (result, periods[i]) ::
        match lcm2 result periods[i] with
        | some next => loopCalls periods budget ((i + 1) % indexSize) next
        | none => []
    else []

/-- The pairs on which `lcm` calls `lcm2`. -/
def calls (budget : ℕ) : List ℕ → List (ℕ × ℕ)
  | [] => []
  | [_] => []
  | first :: second :: periods =>
    (first, second) ::
      match lcm2 first second with
      | some result => loopCalls (first :: second :: periods) budget 2 result
      | none => []

/-- Positive numbers, at least one, with a least common multiple of 64 bits. -/
structure Periods where
  values : List ℕ
  nonempty : values ≠ []
  positive : 0 ∉ values
  fits : Multiset.lcm (values : Multiset ℕ) < wordSize

/-- A call of `lcm2` whose loop ends and whose quotient and product are exact. -/
structure Sound (m n : ℕ) : Prop where
  terminates : ∃ budget, gcd2Within budget m n = some (gcd2 m n)
  divisor : 0 < gcd2 m n
  product : (if n < m then m / gcd2 m n * n else n / gcd2 m n * m) < wordSize

/-- `lcm` returns the least common multiple, in whatever order, with sound calls only. -/
structure Right (periods : List ℕ) : Prop where
  calls : ∀ budget, ∀ call ∈ calls budget periods, Sound call.1 call.2
  value : ∀ order : List ℕ, order.Perm periods →
    ∃ budget, lcm budget order = some (Multiset.lcm (periods : Multiset ℕ))

/-! ### Least common multiples in words -/

theorem gcd2_eq (m n : ℕ) : gcd2 m n = Nat.gcd m n := by
  induction m, n using gcd2.induct with
  | case1 n => rw [gcd2, Nat.gcd_zero_left]
  | case2 m n ih => rw [gcd2, ih, ← Nat.gcd_rec]

theorem div_gcd_mul (m n : ℕ) : m / Nat.gcd m n * n = Nat.lcm m n := by
  rw [Nat.lcm_eq_mul_div, Nat.div_mul_right_comm (Nat.gcd_dvd_left m n)]

theorem lcm2_eq {m n : ℕ} (hm : 0 < m) (fits : Nat.lcm m n < wordSize) :
    lcm2 m n = some (Nat.lcm m n) := by
  have hgcd : Nat.gcd m n ≠ 0 := (Nat.gcd_pos_of_pos_left n hm).ne'
  have hswap : n / Nat.gcd m n * m = Nat.lcm m n := by
    rw [Nat.gcd_comm, div_gcd_mul, Nat.lcm_comm]
  rw [lcm2, gcd2_eq, if_neg hgcd, div_gcd_mul, hswap, Nat.mod_eq_of_lt fits, ite_self]

/-- A zero is not lost again. -/
theorem lcm2_zero {m n k : ℕ} (hzero : m = 0 ∨ n = 0) (h : lcm2 m n = some k) : k = 0 := by
  have hlcm : Nat.lcm m n = 0 := Nat.lcm_eq_zero_iff.mpr hzero
  have hswap : n / Nat.gcd m n * m = 0 := by
    rw [Nat.gcd_comm, div_gcd_mul, Nat.lcm_comm, hlcm]
  rw [lcm2, gcd2_eq, div_gcd_mul, hlcm, hswap] at h
  split_ifs at h <;> exact (Option.some.inj h).symm

/-! ### The loop -/

/-- An index that cannot reach the end of the vector goes round for ever. -/
theorem lcmLoop_running {values : List ℕ} (long : indexSize ≤ values.length)
    {budget i result : ℕ} (hi : i < indexSize) : lcmLoop values budget i result = none := by
  induction budget generalizing i result with
  | zero => rfl
  | succ budget ih =>
    have hwrap : (i + 1) % indexSize < indexSize := Nat.mod_lt _ (by decide)
    rw [lcmLoop, dif_pos (hi.trans_le long), Option.bind_eq_none_iff]
    exact fun next _ => ih hwrap

theorem multiple_cons (value : ℕ) (values : List ℕ) :
    Multiset.lcm ((value :: values : List ℕ) : Multiset ℕ) =
      Nat.lcm value (Multiset.lcm (values : Multiset ℕ)) := by
  rw [← Multiset.cons_coe, Multiset.lcm_cons, lcm_eq_nat_lcm]

/-- An index that reaches the end visits the rest of the vector once. -/
theorem lcmLoop_eq {values : List ℕ} (short : values.length < indexSize) {budget i result : ℕ}
    (enough : values.length ≤ i + budget) (hpos : 0 ∉ values) (hresult : 0 < result)
    (fits : Nat.lcm result (Multiset.lcm (values.drop i : Multiset ℕ)) < wordSize) :
    lcmLoop values (budget + 1) i result =
      some (Nat.lcm result (Multiset.lcm (values.drop i : Multiset ℕ))) := by
  have hend : ∀ {i : ℕ}, ¬ i < values.length →
      Multiset.lcm (values.drop i : Multiset ℕ) = 1 := by
    intro i hi
    rw [List.drop_eq_nil_of_le (Nat.le_of_not_lt hi)]
    exact Multiset.lcm_zero
  induction budget generalizing i result with
  | zero =>
    have hi : ¬ i < values.length := by omega
    rw [lcmLoop, dif_neg hi, hend hi, Nat.lcm_one_right]
  | succ budget ih =>
    by_cases hi : i < values.length
    · have hwrap : (i + 1) % indexSize = i + 1 := Nat.mod_eq_of_lt (by omega)
      have hperiod : 0 < values[i] := Nat.pos_of_ne_zero fun h => hpos (h ▸ List.getElem_mem hi)
      have hnext : 0 < Nat.lcm result values[i] := Nat.lcm_pos hresult hperiod
      have htail : 0 < Multiset.lcm (values.drop (i + 1) : Multiset ℕ) := by
        apply Nat.pos_of_ne_zero
        rw [Multiset.lcm_ne_zero_iff, Multiset.mem_coe]
        exact fun h => hpos (List.mem_of_mem_drop h)
      rw [List.drop_eq_getElem_cons hi, multiple_cons, ← Nat.lcm_assoc] at fits ⊢
      have hle := Nat.le_of_dvd (Nat.lcm_pos hnext htail) (Nat.dvd_lcm_left _ _)
      rw [lcmLoop, dif_pos hi, lcm2_eq hresult (hle.trans_lt fits), Option.bind_some, hwrap]
      exact ih (by omega) hnext fits
    · rw [lcmLoop, dif_neg hi, hend hi, Nat.lcm_one_right]

theorem lcmLoop_zero {values : List ℕ} (short : values.length < indexSize)
    {budget i result k : ℕ} (hzero : result = 0 ∨ 0 ∈ values.drop i)
    (h : lcmLoop values budget i result = some k) : k = 0 := by
  induction budget generalizing i result with
  | zero => cases h
  | succ budget ih =>
    rw [lcmLoop] at h
    split at h
    · rename_i hi
      have hwrap : (i + 1) % indexSize = i + 1 := Nat.mod_eq_of_lt (by omega)
      rw [hwrap] at h
      rw [List.drop_eq_getElem_cons hi] at hzero
      obtain ⟨next, hnext, hrest⟩ := Option.bind_eq_some_iff.mp h
      apply ih _ hrest
      rcases hzero with hresult | hmem
      · exact .inl (lcm2_zero (.inl hresult) hnext)
      · rcases List.mem_cons.mp hmem with hperiod | hlater
        · exact .inl (lcm2_zero (.inr hperiod.symm) hnext)
        · exact .inr hlater
    · rename_i hi
      rw [List.drop_eq_nil_of_le (Nat.le_of_not_lt hi)] at hzero
      rcases hzero with hresult | hmem
      · exact (Option.some.inj h).symm.trans hresult
      · cases hmem

theorem lcm_long {values : List ℕ} (long : indexSize ≤ values.length) (budget : ℕ) :
    lcm budget values = none := by
  have hlong : 2 ^ 32 ≤ values.length := long
  match values with
  | [] => simp at hlong
  | [period] => simp at hlong
  | first :: second :: rest =>
    rw [lcm, Option.bind_eq_none_iff]
    exact fun result _ => lcmLoop_running long (by decide)

/-- The least common multiple of a vector that the index can count, when it fits in a word. -/
theorem lcm_eq {values : List ℕ} (short : values.length < indexSize) (hne : values ≠ [])
    (hpos : 0 ∉ values) (fits : Multiset.lcm (values : Multiset ℕ) < wordSize) :
    lcm values.length values = some (Multiset.lcm (values : Multiset ℕ)) := by
  match values with
  | [period] =>
    rw [multiple_cons, Multiset.coe_nil, Multiset.lcm_zero, Nat.lcm_one_right]
    rfl
  | first :: second :: rest =>
    have hfirst : 0 < first := Nat.pos_of_ne_zero fun h => hpos (by simp [h])
    have hsecond : 0 < second := Nat.pos_of_ne_zero fun h => hpos (by simp [h])
    have hrest : 0 < Multiset.lcm (rest : Multiset ℕ) := by
      apply Nat.pos_of_ne_zero
      rw [Multiset.lcm_ne_zero_iff, Multiset.mem_coe]
      exact fun h => hpos (List.mem_cons_of_mem _ (List.mem_cons_of_mem _ h))
    have hnext : 0 < Nat.lcm first second := Nat.lcm_pos hfirst hsecond
    rw [multiple_cons, multiple_cons, ← Nat.lcm_assoc] at fits ⊢
    have hle := Nat.le_of_dvd (Nat.lcm_pos hnext hrest) (Nat.dvd_lcm_left _ _)
    rw [lcm, lcm2_eq hfirst (hle.trans_lt fits), Option.bind_some]
    exact lcmLoop_eq short (by simp only [List.length_cons]; omega) hpos hnext fits

theorem lcm_zero {values : List ℕ} {budget k : ℕ} (hzero : 0 ∈ values)
    (h : lcm budget values = some k) : k = 0 := by
  by_cases long : indexSize ≤ values.length
  · rw [lcm_long long] at h
    cases h
  · match values with
    | [period] =>
      rw [List.mem_singleton] at hzero
      exact (Option.some.inj h).symm.trans hzero.symm
    | first :: second :: rest =>
      obtain ⟨result, hresult, hloop⟩ := Option.bind_eq_some_iff.mp h
      apply lcmLoop_zero (Nat.lt_of_not_le long) _ hloop
      rcases List.mem_cons.mp hzero with hfirst | hlater
      · exact .inl (lcm2_zero (.inl hfirst.symm) hresult)
      · rcases List.mem_cons.mp hlater with hsecond | hrest
        · exact .inl (lcm2_zero (.inr hsecond.symm) hresult)
        · exact .inr hrest

/-! ### The calls of lcm2 -/

theorem gcd2Within_eq {budget m n : ℕ} (enough : m ≤ budget) :
    gcd2Within budget m n = some (gcd2 m n) := by
  induction budget generalizing m n with
  | zero =>
    obtain rfl : m = 0 := by omega
    rw [gcd2Within, gcd2]
  | succ budget ih =>
    cases m with
    | zero => rw [gcd2Within, gcd2]
    | succ m =>
      have less : n % (m + 1) ≤ budget := by
        have hmod : n % (m + 1) < m + 1 := Nat.mod_lt n (Nat.zero_lt_succ m)
        omega
      rw [gcd2Within, gcd2, ih less]

/-- The larger number is divided first, so no product exceeds the least common multiple. -/
theorem sound_of_lcm {m n : ℕ} (hm : 0 < m) (fits : Nat.lcm m n < wordSize) : Sound m n where
  terminates := ⟨m, gcd2Within_eq le_rfl⟩
  divisor := by
    rw [gcd2_eq]
    exact Nat.gcd_pos_of_pos_left n hm
  product := by
    have hswap : n / Nat.gcd m n * m = Nat.lcm m n := by
      rw [Nat.gcd_comm, div_gcd_mul, Nat.lcm_comm]
    rwa [gcd2_eq, div_gcd_mul, hswap, ite_self]

namespace Periods

variable (periods : Periods)

/-- The least common multiple of the vector. -/
def multiple : ℕ := Multiset.lcm (periods.values : Multiset ℕ)

theorem multiple_pos : 0 < periods.multiple := by
  apply Nat.pos_of_ne_zero
  rw [multiple, Multiset.lcm_ne_zero_iff, Multiset.mem_coe]
  exact periods.positive

variable {periods}

theorem dvd_multiple {period : ℕ} (h : period ∈ periods.values) : period ∣ periods.multiple :=
  Multiset.dvd_lcm (Multiset.mem_coe.mpr h)

theorem pos_of_dvd {m : ℕ} (h : m ∣ periods.multiple) : 0 < m :=
  Nat.pos_of_dvd_of_pos h periods.multiple_pos

/-- A result that divides the least common multiple is positive and goes on dividing it. -/
theorem lcm2_step {m n : ℕ} (hm : m ∣ periods.multiple) (hn : n ∣ periods.multiple) :
    lcm2 m n = some (Nat.lcm m n) ∧ Nat.lcm m n ∣ periods.multiple ∧ Sound m n := by
  have hdvd : Nat.lcm m n ∣ periods.multiple := Nat.lcm_dvd hm hn
  have hfits : Nat.lcm m n < wordSize :=
    (Nat.le_of_dvd periods.multiple_pos hdvd).trans_lt periods.fits
  exact ⟨lcm2_eq (pos_of_dvd hm) hfits, hdvd, sound_of_lcm (pos_of_dvd hm) hfits⟩

theorem loopCalls_sound {budget i result : ℕ} (hresult : result ∣ periods.multiple) :
    ∀ call ∈ loopCalls periods.values budget i result, Sound call.1 call.2 := by
  induction budget generalizing i result with
  | zero => simp [loopCalls]
  | succ budget ih =>
    intro call hcall
    rw [loopCalls] at hcall
    split at hcall
    · rename_i hi
      obtain ⟨hnext, hdvd, hsound⟩ := lcm2_step hresult (dvd_multiple (List.getElem_mem hi))
      rw [hnext] at hcall
      rcases List.mem_cons.mp hcall with rfl | hlater
      · exact hsound
      · exact ih hdvd call hlater
    · cases hcall

/-- Every prefix result divides the final one, so every call is sound. -/
theorem calls_sound (budget : ℕ) : ∀ call ∈ calls budget periods.values, Sound call.1 call.2 := by
  intro call hcall
  match hvalues : periods.values with
  | [] => exact absurd hvalues periods.nonempty
  | [period] =>
    rw [hvalues] at hcall
    cases hcall
  | first :: second :: rest =>
    have hfirst : first ∣ periods.multiple := dvd_multiple (by simp [hvalues])
    have hsecond : second ∣ periods.multiple := dvd_multiple (by simp [hvalues])
    obtain ⟨hnext, hdvd, hsound⟩ := lcm2_step hfirst hsecond
    rw [hvalues, calls, hnext] at hcall
    rcases List.mem_cons.mp hcall with rfl | hlater
    · exact hsound
    · rw [← hvalues] at hlater
      exact loopCalls_sound hdvd call hlater

/-- The order of a vector matters neither for what it contains nor for its multiple. -/
theorem lcm_perm (periods : Periods) {order : List ℕ} (perm : order.Perm periods.values)
    (short : periods.values.length < indexSize) :
    lcm order.length order = some periods.multiple := by
  have hsame : (order : Multiset ℕ) = periods.values := Multiset.coe_eq_coe.mpr perm
  have hne : order ≠ [] := by
    rintro rfl
    exact periods.nonempty perm.nil_eq.symm
  have hpos : 0 ∉ order := fun h => periods.positive (perm.mem_iff.mp h)
  have hfits : Multiset.lcm (order : Multiset ℕ) < wordSize := hsame ▸ periods.fits
  rw [lcm_eq (perm.length_eq ▸ short) hne hpos hfits, hsame, multiple]

end Periods

/-- The least common multiple is right exactly for vectors that the index can count. -/
theorem lcm_right_iff (periods : Periods) :
    Right periods.values ↔ periods.values.length < indexSize := by
  constructor
  · intro right
    obtain ⟨budget, hvalue⟩ := right.value periods.values (List.Perm.refl _)
    by_contra long
    rw [lcm_long (Nat.le_of_not_lt long)] at hvalue
    cases hvalue
  · intro short
    exact ⟨Periods.calls_sound, fun order perm => ⟨order.length, periods.lcm_perm perm short⟩⟩

/-- One more number than the index can count. -/
def ones : Periods where
  values := List.replicate indexSize 1
  nonempty := by
    apply List.ne_nil_of_length_pos
    rw [List.length_replicate]
    decide
  positive := by simp
  fits := by
    have hdvd : Multiset.lcm (List.replicate indexSize 1 : Multiset ℕ) ∣ 1 := by
      rw [Multiset.lcm_dvd]
      intro period h
      rw [Multiset.mem_coe, List.mem_replicate] at h
      rw [h.2]
    rw [Nat.dvd_one.mp hdvd]
    decide

/-- The index of the loop wraps around and never reaches the end. -/
theorem ones_never_end : ¬ ∀ periods : Periods, Right periods.values := by
  intro hall
  obtain ⟨budget, hvalue⟩ := (hall ones).value ones.values (List.Perm.refl _)
  have hlength : indexSize ≤ ones.values.length := List.length_replicate.ge
  rw [lcm_long hlength] at hvalue
  cases hvalue

example : lcm 6 [4, 6, 10] = some 60 ∧ calls 6 [4, 6, 10] = [(4, 6), (12, 10)] := by
  decide +kernel

end Kista.Scheduling.LeastCommonMultiple
