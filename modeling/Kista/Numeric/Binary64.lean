/- Kista/Numeric/Binary64
   source: the arithmetic of doubles, independent of any program
   digest: Rounding to 53 binary digits, what it keeps of the order, and how far a sum of rounded
   terms is from the exact one. -/

import Mathlib.Algebra.Order.Field.Power
import Mathlib.Algebra.Order.Round
import Mathlib.Data.Int.ConditionallyCompleteOrder
import Mathlib.Data.Int.Log
import Mathlib.Data.Nat.Cast.Order.Field
import Mathlib.Data.Rat.Floor
import Mathlib.Tactic.FieldSimp
import Mathlib.Tactic.Linarith
import Mathlib.Tactic.NormNum
import Mathlib.Tactic.Positivity
import Mathlib.Tactic.Ring

set_option autoImplicit false
set_option relaxedAutoImplicit false

/-!
A double is a rational with 53 binary digits at most. The exponent is not bounded: neither overflow
nor the loss of digits below the least normal number is modelled.
-/

namespace Kista.Numeric.Binary64

/-- The nearest integer, and of two the even one. -/
def nearestEven (x : ℚ) : ℤ :=
  if 2 * Int.fract x = 1 ∧ Even ⌊x⌋ then ⌊x⌋ else round x

/-- The unit in the last place. -/
def ulp (x : ℚ) : ℚ := 2 ^ (Int.log 2 |x| - 52)

/-- The nearest double, and of two the one whose last digit is even. -/
def rounded (x : ℚ) : ℚ := nearestEven (x / ulp x) * ulp x

def IsDouble (x : ℚ) : Prop := rounded x = x

instance (x : ℚ) : Decidable (IsDouble x) := inferInstanceAs (Decidable (_ = _))

example : rounded (1 / 10) = 3602879701896397 / 2 ^ 55 := by decide +kernel

/-! ### Nearest integers -/

@[simp] theorem nearestEven_intCast (n : ℤ) : nearestEven n = n := by
  simp [nearestEven]

theorem floor_le_nearestEven (x : ℚ) : ⌊x⌋ ≤ nearestEven x := by
  rw [nearestEven]
  split
  · exact le_rfl
  · rw [round_eq]
    exact Int.floor_mono (by linarith)

theorem nearestEven_le (x : ℚ) : nearestEven x ≤ ⌊x⌋ + 1 := by
  rw [nearestEven]
  split
  · omega
  · rw [round_eq, ← Int.floor_add_one]
    exact Int.floor_mono (by linarith)

theorem abs_nearestEven_sub_le (x : ℚ) : |(nearestEven x : ℚ) - x| ≤ 1 / 2 := by
  rw [nearestEven]
  split
  · rename_i tie
    have rest := Int.floor_add_fract x
    rw [abs_le]
    constructor <;> linarith [tie.1]
  · rw [abs_sub_comm]
    exact abs_sub_round x

theorem nearestEven_mono : Monotone nearestEven := by
  intro x y le
  rcases (Int.floor_mono le).lt_or_eq with below | same
  · calc nearestEven x
        ≤ ⌊x⌋ + 1 := nearestEven_le x
      _ ≤ ⌊y⌋ := below
      _ ≤ nearestEven y := floor_le_nearestEven y
  · by_cases tie : 2 * Int.fract y = 1 ∧ Even ⌊y⌋
    · -- up to the tie the other argument is rounded down as well
      have down : nearestEven x = ⌊x⌋ := by
        rw [nearestEven]
        split
        · rfl
        · rename_i other
          have half : 2 * Int.fract x ≠ 1 := fun h => other ⟨h, same ▸ tie.2⟩
          have fracts : Int.fract x ≤ Int.fract y := by
            rw [← Int.self_sub_floor, ← Int.self_sub_floor, same]
            linarith
          have less : Int.fract x < 1 / 2 := by
            apply lt_of_le_of_ne (by linarith [tie.1])
            intro h
            exact half (by linarith)
          rw [round_eq, Int.floor_eq_iff]
          constructor <;> linarith [Int.floor_add_fract x, Int.fract_nonneg x]
      rw [down, same]
      exact floor_le_nearestEven y
    · rw [nearestEven, nearestEven, if_neg tie]
      split
      · rw [same, round_eq]
        exact Int.floor_mono (by linarith)
      · rw [round_eq, round_eq]
        exact Int.floor_mono (by linarith)

/-! ### Doubles -/

theorem ulp_pos (x : ℚ) : 0 < ulp x := by
  rw [ulp]
  positivity

theorem two_zpow (e : ℤ) (n : ℕ) : (2 : ℚ) ^ (e + n) = 2 ^ n * 2 ^ e := by
  rw [zpow_add₀ (by norm_num), zpow_natCast, mul_comm]

/-- The leading digit, in units of the last place. -/
theorem leading_eq (x : ℚ) : (2 : ℚ) ^ Int.log 2 |x| = 2 ^ 52 * ulp x := by
  rw [ulp, ← two_zpow]
  congr 1
  omega

theorem rounded_zero : rounded 0 = 0 := by
  rw [rounded, zero_div, show nearestEven 0 = 0 from nearestEven_intCast 0, Int.cast_zero, zero_mul]

theorem ulp_le {x : ℚ} (pos : 0 < |x|) : 2 ^ 52 * ulp x ≤ |x| := by
  rw [← leading_eq]
  exact Int.zpow_log_le_self (by norm_num) pos

theorem lt_ulp (x : ℚ) : |x| < 2 ^ 53 * ulp x := by
  have next : |x| < 2 ^ (Int.log 2 |x| + 1) := by
    exact_mod_cast Int.lt_zpow_succ_log_self (by norm_num) |x|
  calc |x| < 2 ^ (Int.log 2 |x| + 1) := next
    _ = 2 ^ 53 * ulp x := by
      rw [zpow_add₀ (by norm_num), leading_eq]
      ring

/-- The relative error is at most half a unit of the last of 53 digits. -/
theorem abs_rounded_sub_le (x : ℚ) : |rounded x - x| ≤ |x| / 2 ^ 53 := by
  rcases eq_or_ne x 0 with rfl | nonzero
  · simp [rounded_zero]
  · have pos := ulp_pos x
    have split : rounded x - x = (nearestEven (x / ulp x) - x / ulp x) * ulp x := by
      rw [rounded, sub_mul, div_mul_cancel₀ _ pos.ne']
    rw [split, abs_mul, abs_of_pos pos]
    calc |(nearestEven (x / ulp x) : ℚ) - x / ulp x| * ulp x
        ≤ 1 / 2 * ulp x :=
          mul_le_mul_of_nonneg_right (abs_nearestEven_sub_le _) pos.le
      _ ≤ |x| / 2 ^ 53 := by linarith [ulp_le (abs_pos.mpr nonzero)]

theorem le_rounded {x : ℚ} (nonneg : 0 ≤ x) : x * (1 - 1 / 2 ^ 53) ≤ rounded x := by
  have near := (abs_le.mp (abs_rounded_sub_le x)).1
  rw [abs_of_nonneg nonneg] at near
  linarith

theorem rounded_le {x : ℚ} (nonneg : 0 ≤ x) : rounded x ≤ x * (1 + 1 / 2 ^ 53) := by
  have near := (abs_le.mp (abs_rounded_sub_le x)).2
  rw [abs_of_nonneg nonneg] at near
  linarith

theorem rounded_nonneg {x : ℚ} (nonneg : 0 ≤ x) : 0 ≤ rounded x := by
  refine le_trans ?_ (le_rounded nonneg)
  positivity

theorem rounded_pos {x : ℚ} (pos : 0 < x) : 0 < rounded x := by
  refine lt_of_lt_of_le ?_ (le_rounded pos.le)
  positivity

/-- Two roundings on, a computed relative difference is little less than the exact one. -/
theorem relative_difference {a c e : ℚ} (pos : 0 < c) (le : c ≤ a)
    (h : rounded (rounded (a - c) / c) ≤ e) : (a - c) * (1 - 1 / 2 ^ 53) ^ 2 ≤ e * c := by
  have difference := le_rounded (sub_nonneg.mpr le)
  have nonneg := rounded_nonneg (sub_nonneg.mpr le)
  have part : rounded (a - c) / c * (1 - 1 / 2 ^ 53) ≤ e :=
    (le_rounded (by positivity)).trans h
  rw [div_mul_eq_mul_div, div_le_iff₀ pos] at part
  calc (a - c) * (1 - 1 / 2 ^ 53) ^ 2
      = (a - c) * (1 - 1 / 2 ^ 53) * (1 - 1 / 2 ^ 53) := by ring
    _ ≤ rounded (a - c) * (1 - 1 / 2 ^ 53) :=
      mul_le_mul_of_nonneg_right difference (by norm_num)
    _ ≤ e * c := part

/-- Between two powers of two the digits are evenly spaced. -/
theorem rounded_within {x : ℚ} (pos : 0 < x) :
    (2 : ℚ) ^ Int.log 2 x ≤ rounded x ∧ rounded x ≤ 2 ^ (Int.log 2 x + 1) := by
  have unit := ulp_pos x
  have lower : ((2 ^ 52 : ℤ) : ℚ) ≤ x / ulp x := by
    rw [le_div_iff₀ unit]
    have := ulp_le (abs_pos.mpr pos.ne')
    rw [abs_of_pos pos] at this
    exact_mod_cast this
  have upper : x / ulp x ≤ ((2 ^ 53 : ℤ) : ℚ) := by
    rw [div_le_iff₀ unit]
    have := lt_ulp x
    rw [abs_of_pos pos] at this
    exact_mod_cast this.le
  have lower := nearestEven_mono lower
  have upper := nearestEven_mono upper
  rw [nearestEven_intCast] at lower upper
  have leading := leading_eq x
  rw [abs_of_pos pos] at leading
  rw [zpow_add₀ (by norm_num), leading, rounded]
  have lower : ((2 ^ 52 : ℤ) : ℚ) ≤ nearestEven (x / ulp x) := Int.cast_le.mpr lower
  have upper : (nearestEven (x / ulp x) : ℚ) ≤ (2 ^ 53 : ℤ) := Int.cast_le.mpr upper
  push_cast at lower upper
  constructor
  · exact mul_le_mul_of_nonneg_right lower unit.le
  · calc (nearestEven (x / ulp x) : ℚ) * ulp x
        ≤ 2 ^ 53 * ulp x := mul_le_mul_of_nonneg_right upper unit.le
      _ = 2 ^ 52 * ulp x * 2 ^ (1 : ℤ) := by ring

theorem rounded_le_rounded {x y : ℚ} (pos : 0 < x) (le : x ≤ y) : rounded x ≤ rounded y := by
  have posY := pos.trans_le le
  have logs : Int.log 2 x ≤ Int.log 2 y := Int.log_mono_right pos le
  rcases logs.lt_or_eq with below | same
  · calc rounded x
        ≤ 2 ^ (Int.log 2 x + 1) := (rounded_within pos).2
      _ ≤ 2 ^ Int.log 2 y := zpow_le_zpow_right₀ (by norm_num) below
      _ ≤ rounded y := (rounded_within posY).1
  · have unit : ulp x = ulp y := by rw [ulp, ulp, abs_of_pos pos, abs_of_pos posY, same]
    rw [rounded, rounded, unit]
    have scaled : x / ulp y ≤ y / ulp y := div_le_div_of_nonneg_right le (ulp_pos y).le
    exact mul_le_mul_of_nonneg_right (Int.cast_le.mpr (nearestEven_mono scaled)) (ulp_pos y).le

/-- An integer of 53 digits, scaled by a power of two, is a double. -/
theorem isDouble_scaled {m : ℤ} (digits : |m| < 2 ^ 53) (e : ℤ) : IsDouble (m * 2 ^ e) := by
  rcases eq_or_ne m 0 with rfl | nonzero
  · simpa [IsDouble] using rounded_zero
  · have pos : 0 < |(m : ℚ) * 2 ^ e| := by positivity
    have small : |(m : ℚ) * 2 ^ e| < 2 ^ (e + (53 : ℕ)) := by
      have digits : |(m : ℚ)| < 2 ^ 53 := by exact_mod_cast digits
      rw [abs_mul, abs_of_pos (by positivity : (0 : ℚ) < 2 ^ e), two_zpow]
      exact mul_lt_mul_of_pos_right digits (by positivity)
    have exponent : Int.log 2 |(m : ℚ) * 2 ^ e| < e + 53 :=
      (Int.lt_zpow_iff_log_lt (by norm_num) pos).mp (by exact_mod_cast small)
    obtain ⟨k, hk⟩ : ∃ k : ℕ, e = Int.log 2 |(m : ℚ) * 2 ^ e| - 52 + k :=
      ⟨(e - (Int.log 2 |(m : ℚ) * 2 ^ e| - 52)).toNat, by omega⟩
    have whole : (m : ℚ) * 2 ^ e / ulp (m * 2 ^ e) = ((m * 2 ^ k : ℤ) : ℚ) := by
      rw [div_eq_iff (ulp_pos _).ne']
      push_cast
      rw [ulp, mul_assoc, ← two_zpow, ← hk]
    rw [IsDouble, rounded, whole, nearestEven_intCast, ← whole, div_mul_cancel₀ _ (ulp_pos _).ne']

theorem isDouble_natCast {n : ℕ} (digits : n < 2 ^ 53) : IsDouble n := by
  have scaled := @isDouble_scaled n (by rw [abs_of_nonneg (by positivity)]; exact_mod_cast digits) 0
  simpa using scaled

theorem IsDouble.le_rounded {x y : ℚ} (double : IsDouble x) (pos : 0 < x) (le : x ≤ y) :
    x ≤ rounded y :=
  calc x = rounded x := double.symm
    _ ≤ rounded y := rounded_le_rounded pos le

theorem IsDouble.rounded_le {x y : ℚ} (double : IsDouble y) (pos : 0 < x) (le : x ≤ y) :
    rounded x ≤ y :=
  calc rounded x ≤ rounded y := rounded_le_rounded pos le
    _ = y := double

/-- The quotient of numbers of 53 digits is truncated to the exact one. -/
theorem floor_rounded_div {a : ℕ} (digits : a < 2 ^ 53) (b : ℕ) :
    ⌊rounded ((a : ℚ) / b)⌋₊ = a / b := by
  rcases Nat.eq_zero_or_pos b with rfl | pos
  · simp [rounded_zero]
  · have hb : (0 : ℚ) < b := Nat.cast_pos.mpr pos
    have next : (a : ℚ) + 1 ≤ ((a / b : ℕ) + 1) * b := by
      have strict := Nat.lt_mul_div_succ a pos
      rw [Nat.mul_comm] at strict
      exact_mod_cast strict
    have lower : ((a / b : ℕ) : ℚ) ≤ rounded ((a : ℚ) / b) := by
      rcases Nat.eq_zero_or_pos (a / b) with zero | some
      · rw [zero, Nat.cast_zero]
        exact rounded_nonneg (by positivity)
      · apply (isDouble_natCast ((Nat.div_le_self a b).trans_lt digits)).le_rounded
        · exact Nat.cast_pos.mpr some
        · exact Nat.cast_div_le
    have upper : rounded ((a : ℚ) / b) < (a / b : ℕ) + 1 :=
      calc rounded ((a : ℚ) / b)
          ≤ a / b * (1 + 1 / 2 ^ 53) := rounded_le (by positivity)
        _ = (a + a / 2 ^ 53) / b := by ring
        _ < (a + 1) / b := by
          have few : (a : ℚ) / 2 ^ 53 < 1 := by
            rw [div_lt_one (by norm_num)]
            exact_mod_cast digits
          exact div_lt_div_of_pos_right (by linarith) hb
        _ ≤ (a / b : ℕ) + 1 := by rwa [div_le_iff₀ hb]
    exact (Nat.floor_eq_iff (rounded_nonneg (by positivity))).mpr ⟨lower, upper⟩

/-! ### Several roundings -/

/-- The second value is the first after so many roundings, each by a half unit at most. -/
structure Within (m : ℕ) (x y : ℚ) : Prop where
  nonneg : 0 ≤ x
  lower : x * (1 - 1 / 2 ^ 53) ^ m ≤ y
  upper : y ≤ x * (1 + 1 / 2 ^ 53) ^ m

section Within

variable {m n : ℕ} {x x' y y' : ℚ}

theorem within_self (nonneg : 0 ≤ x) : Within 0 x x := by
  constructor <;> simp [nonneg]

theorem Within.nonneg' (within : Within m x y) : 0 ≤ y := by
  refine le_trans ?_ within.lower
  exact mul_nonneg within.nonneg (by positivity)

theorem Within.mono (within : Within m x y) (le : m ≤ n) : Within n x y := by
  refine ⟨within.nonneg, le_trans ?_ within.lower, within.upper.trans ?_⟩
  · apply mul_le_mul_of_nonneg_left _ within.nonneg
    exact pow_le_pow_of_le_one (by norm_num) (by norm_num) le
  · apply mul_le_mul_of_nonneg_left _ within.nonneg
    exact pow_le_pow_right₀ (by norm_num) le

theorem Within.rounded (within : Within m x y) : Within (m + 1) x (rounded y) := by
  refine ⟨within.nonneg, ?_, ?_⟩
  · calc x * (1 - 1 / 2 ^ 53) ^ (m + 1)
        = x * (1 - 1 / 2 ^ 53) ^ m * (1 - 1 / 2 ^ 53) := by ring
      _ ≤ y * (1 - 1 / 2 ^ 53) := mul_le_mul_of_nonneg_right within.lower (by norm_num)
      _ ≤ Binary64.rounded y := le_rounded within.nonneg'
  · calc Binary64.rounded y
        ≤ y * (1 + 1 / 2 ^ 53) := rounded_le within.nonneg'
      _ ≤ x * (1 + 1 / 2 ^ 53) ^ m * (1 + 1 / 2 ^ 53) :=
        mul_le_mul_of_nonneg_right within.upper (by norm_num)
      _ = x * (1 + 1 / 2 ^ 53) ^ (m + 1) := by ring

theorem Within.add (within : Within m x y) (within' : Within m x' y') :
    Within m (x + x') (y + y') := by
  refine ⟨add_nonneg within.nonneg within'.nonneg, ?_, ?_⟩
  · rw [add_mul]
    exact add_le_add within.lower within'.lower
  · rw [add_mul]
    exact add_le_add within.upper within'.upper

/-- A rounding of the divisor counts twice. -/
theorem Within.div (within : Within m x y) (within' : Within n x' y') (pos : 0 < x') :
    Within (m + 2 * n) (x / x') (y / y') := by
  have divisor : 0 < y' := by
    refine lt_of_lt_of_le ?_ within'.lower
    positivity
  have inverse : (1 : ℚ) ≤ (1 + 1 / 2 ^ 53) ^ (2 * n) * (1 - 1 / 2 ^ 53) ^ n := by
    rw [pow_mul, ← mul_pow]
    exact one_le_pow₀ (by norm_num)
  have inverse' : (1 - 1 / 2 ^ 53 : ℚ) ^ (2 * n) * (1 + 1 / 2 ^ 53) ^ n ≤ 1 := by
    rw [pow_mul, ← mul_pow]
    exact pow_le_one₀ (by norm_num) (by norm_num)
  have nonneg := within.nonneg
  refine ⟨by positivity, ?_, ?_⟩
  · rw [le_div_iff₀ divisor, div_mul_eq_mul_div, div_mul_eq_mul_div, div_le_iff₀ pos]
    calc x * (1 - 1 / 2 ^ 53) ^ (m + 2 * n) * y'
        ≤ x * (1 - 1 / 2 ^ 53) ^ (m + 2 * n) * (x' * (1 + 1 / 2 ^ 53) ^ n) :=
          mul_le_mul_of_nonneg_left within'.upper (by positivity)
      _ = x * (1 - 1 / 2 ^ 53) ^ m * x' * ((1 - 1 / 2 ^ 53) ^ (2 * n) * (1 + 1 / 2 ^ 53) ^ n) := by
        rw [pow_add]
        ring
      _ ≤ x * (1 - 1 / 2 ^ 53) ^ m * x' * 1 :=
        mul_le_mul_of_nonneg_left inverse' (by positivity)
      _ ≤ y * x' := by
        rw [mul_one]
        exact mul_le_mul_of_nonneg_right within.lower pos.le
  · rw [div_le_iff₀ divisor, div_mul_eq_mul_div, div_mul_eq_mul_div, le_div_iff₀ pos]
    calc y * x'
        ≤ x * (1 + 1 / 2 ^ 53) ^ m * x' * 1 := by
          rw [mul_one]
          exact mul_le_mul_of_nonneg_right within.upper pos.le
      _ ≤ x * (1 + 1 / 2 ^ 53) ^ m * x' * ((1 + 1 / 2 ^ 53) ^ (2 * n) * (1 - 1 / 2 ^ 53) ^ n) :=
        mul_le_mul_of_nonneg_left inverse (by positivity)
      _ = x * (1 + 1 / 2 ^ 53) ^ (m + 2 * n) * (x' * (1 - 1 / 2 ^ 53) ^ n) := by
        rw [pow_add]
        ring
      _ ≤ x * (1 + 1 / 2 ^ 53) ^ (m + 2 * n) * y' :=
        mul_le_mul_of_nonneg_left within'.lower (by positivity)

/-- So many roundings do not carry a value over the limit that it reaches or not. -/
structure Clear (m : ℕ) (x : ℚ) (reached : Prop) (limit : ℚ) : Prop where
  below : ¬ reached → x * (1 + 1 / 2 ^ 53) ^ m < limit
  reaching : reached → limit ≤ x * (1 - 1 / 2 ^ 53) ^ m

instance (m : ℕ) (x : ℚ) (reached : Prop) [Decidable reached] (limit : ℚ) :
    Decidable (Clear m x reached limit) :=
  decidable_of_iff ((¬ reached → x * (1 + 1 / 2 ^ 53) ^ m < limit) ∧
      (reached → limit ≤ x * (1 - 1 / 2 ^ 53) ^ m))
    ⟨fun h => ⟨h.1, h.2⟩, fun h => ⟨h.below, h.reaching⟩⟩

theorem Within.limit_le_iff {reached : Prop} {limit : ℚ} (within : Within m x y)
    (clear : Clear m x reached limit) : limit ≤ y ↔ reached := by
  constructor
  · intro le
    by_contra below
    exact absurd (within.upper.trans_lt (clear.below below)) (not_lt.mpr le)
  · intro reached
    exact (clear.reaching reached).trans within.lower

end Within

/-- The sum of a loop that rounds after each addition. -/
def sumFrom (s : ℚ) (xs : List ℚ) : ℚ := xs.foldl (fun s x => rounded (s + x)) s

/-- Each addition is one more rounding. -/
theorem within_sumFrom {m n : ℕ} {s t : ℚ} {xs ys : List ℚ} (start : Within n s t)
    (near : List.Forall₂ (Within m) xs ys) (le : m ≤ n) :
    Within (n + xs.length) (s + xs.sum) (sumFrom t ys) := by
  induction near generalizing n s t with
  | nil => simpa [sumFrom] using start
  | @cons x y xs ys term _ ih =>
    have next : Within (n + 1) (s + x) (rounded (t + y)) := (start.add (term.mono le)).rounded
    have rest := ih next (le.trans n.le_succ)
    rw [List.length_cons, List.sum_cons, ← add_assoc s]
    have count : n + (xs.length + 1) = n + 1 + xs.length := by omega
    rw [count]
    exact rest

end Kista.Numeric.Binary64
