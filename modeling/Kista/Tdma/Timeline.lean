/- Kista/Tdma/Timeline
   source: the timeline of a cyclic schedule of slots, independent of any bus
   digest: Filling the slots of one sender one after the other, and the closed form of the
   place where the last bit goes. -/

import Mathlib.Algebra.Field.Defs
import Mathlib.Algebra.Field.Basic
import Mathlib.Logic.Function.Iterate
import Mathlib.Tactic.Ring

set_option autoImplicit false
set_option relaxedAutoImplicit false

/-!
Time repeats in cycles, a cycle holds slots of equal length with a guard after each. A sender
owns contiguous slots of every cycle and fills them in order until no bit is left.
-/

namespace Kista.Tdma.Timeline

variable {K : Type*}

structure Sender (K : Type*) where
  slotTime : K
  guardTime : K
  cycleTime : K
  payload : ℕ
  firstSlot : ℕ
  slots : ℕ

/-- One of the sender's slots: its cycle, and its place among the slots of that cycle. -/
structure Place where
  cycle : ℕ
  position : ℕ
  deriving DecidableEq

namespace Sender

def next (a : Sender K) (place : Place) : Place :=
  if place.position + 1 < a.slots then ⟨place.cycle, place.position + 1⟩
  else ⟨place.cycle + 1, 0⟩

/-- Fills slot after slot: the slot of the last bit, and the bits that go in it. -/
def fill (a : Sender K) (place : Place) (bits : ℕ) : Place × ℕ :=
  if a.payload = 0 ∨ bits ≤ a.payload then (place, bits)
  else a.fill (a.next place) (bits - a.payload)
  termination_by bits

variable {a : Sender K}

theorem fill_last {place : Place} {bits : ℕ} (fits : bits ≤ a.payload) :
    a.fill place bits = (place, bits) := by
  rw [fill, if_pos (Or.inr fits)]

theorem fill_more {place : Place} {bits : ℕ} (carries : 0 < a.payload)
    (more : a.payload < bits) :
    a.fill place bits = a.fill (a.next place) (bits - a.payload) := by
  rw [fill, if_neg]
  omega

/-- The last bit goes in the slot after those that the bits before it fill. -/
theorem fill_eq (carries : 0 < a.payload) (place : Place) (bits : ℕ) :
    a.fill place bits =
      (a.next^[(bits - 1) / a.payload] place, bits - (bits - 1) / a.payload * a.payload) := by
  induction bits using Nat.strong_induction_on generalizing place with
  | _ bits ih =>
    by_cases fits : bits ≤ a.payload
    · have none_full : (bits - 1) / a.payload = 0 := by
        rw [Nat.div_eq_zero_iff]
        omega
      rw [fill_last fits, none_full]
      simp
    · have one_full : (bits - 1) / a.payload = (bits - a.payload - 1) / a.payload + 1 := by
        rw [← Nat.add_div_right _ carries]
        congr 1
        omega
      rw [fill_more carries (by omega), ih _ (by omega), one_full, Function.iterate_succ_apply,
        Nat.add_mul, one_mul, Nat.add_comm (_ * _), ← Nat.sub_sub bits]

theorem next_iterate (owns : 0 < a.slots) (cycle turn : ℕ) :
    a.next^[turn] ⟨cycle, 0⟩ = ⟨cycle + turn / a.slots, turn % a.slots⟩ := by
  induction turn with
  | zero => simp
  | succ turn ih =>
    rw [Function.iterate_succ_apply', ih, next]
    have small := Nat.mod_lt turn owns
    by_cases inside : turn % a.slots + 1 < a.slots
    · have same : (turn + 1) / a.slots = turn / a.slots :=
        Nat.succ_div_of_not_dvd fun divides => by
          have := Nat.mod_eq_zero_of_dvd divides
          rw [Nat.add_mod, Nat.mod_eq_of_lt (by omega : 1 < a.slots)] at this
          rw [Nat.mod_eq_of_lt inside] at this
          omega
      have moved : (turn + 1) % a.slots = turn % a.slots + 1 := by
        rw [Nat.add_mod, Nat.mod_eq_of_lt (by omega : 1 < a.slots), Nat.mod_eq_of_lt inside]
      simp [inside, same, moved]
    · have last : turn % a.slots + 1 = a.slots := by omega
      have divides : a.slots ∣ turn + 1 := by
        refine ⟨turn / a.slots + 1, ?_⟩
        have := Nat.div_add_mod turn a.slots
        rw [Nat.mul_add, mul_one]
        omega
      have next_cycle : (turn + 1) / a.slots = turn / a.slots + 1 :=
        Nat.succ_div_of_dvd divides
      simp [last, next_cycle, Nat.mod_eq_zero_of_dvd divides, Nat.add_assoc]

section Times

variable [Field K]

def slotStart (a : Sender K) (cycle slot : ℕ) : K :=
  cycle * a.cycleTime + slot * (a.slotTime + a.guardTime)

def start (a : Sender K) (place : Place) : K :=
  a.slotStart place.cycle (a.firstSlot + place.position)

/-- From the first slot of a cycle to the end of the slot with the last bit. -/
def slotDelay (a : Sender K) (cycle bits : ℕ) : K :=
  a.start (a.fill ⟨cycle, 0⟩ bits).1 + a.slotTime - a.start ⟨cycle, 0⟩

/-- From the first slot of a cycle to the last bit, which a slot only partly full sends early. -/
def bitDelay (a : Sender K) (cycle bits : ℕ) : K :=
  a.start (a.fill ⟨cycle, 0⟩ bits).1 + (a.fill ⟨cycle, 0⟩ bits).2 / a.payload * a.slotTime
    - a.start ⟨cycle, 0⟩

theorem start_sub_start (cycle cycles position : ℕ) :
    a.start ⟨cycle + cycles, position⟩ - a.start ⟨cycle, 0⟩ =
      cycles * a.cycleTime + position * (a.slotTime + a.guardTime) := by
  simp only [start, slotStart]
  push_cast
  ring

/-- Full cycles, then the slots before the last one with their guards, then the last slot. -/
theorem slotDelay_eq (carries : 0 < a.payload) (owns : 0 < a.slots) (cycle bits : ℕ) :
    a.slotDelay cycle bits =
      ((bits - 1) / a.payload / a.slots : ℕ) * a.cycleTime
        + ((bits - 1) / a.payload % a.slots : ℕ) * (a.slotTime + a.guardTime) + a.slotTime := by
  rw [slotDelay, fill_eq carries, next_iterate owns, add_sub_right_comm, start_sub_start]

theorem bitDelay_eq (carries : 0 < a.payload) (owns : 0 < a.slots) (cycle bits : ℕ) :
    a.bitDelay cycle bits =
      ((bits - 1) / a.payload / a.slots : ℕ) * a.cycleTime
        + ((bits - 1) / a.payload % a.slots : ℕ) * (a.slotTime + a.guardTime)
        + (bits - (bits - 1) / a.payload * a.payload : ℕ) / a.payload * a.slotTime := by
  rw [bitDelay, fill_eq carries, next_iterate owns, add_sub_right_comm, start_sub_start]

end Times

end Sender

end Kista.Tdma.Timeline
