/- Kista/Tdma/SlotSearch
   source: src/src/comm_res/buses/tdma_bus.cpp, tdma_bus.hpp
   digest: Both searches of the free ranges as scans that move twice after a miss, and exactly
   when each of them takes the slots it is asked for. -/

import Kista.Containers.Ranges
import Kista.Containers.SkippingScan
import Kista.Tdma.SlotAllocation

set_option autoImplicit false
set_option relaxedAutoImplicit false

namespace Kista.Tdma.SlotSearch

open SlotAllocation Kista.Containers.Ranges Kista.Containers.SkippingScan

def toRange (range : SlotRange) : Range := (range.1.toNat, range.2.toNat)

def freeSlots (table : List SlotRange) : Set ℕ := covered (table.map toRange)

/-- The slots asked for, whether the bus has them or not. -/
def requested (firstSlot reqSlots : UInt32) : Set ℕ :=
  Set.Ico firstSlot.toNat (firstSlot.toNat + reqSlots.toNat)

/-- The range has as many slots as required. -/
def holds (reqSlots : UInt32) (range : SlotRange) : Bool :=
  decide (reqSlots.toNat + range.1.toNat ≤ range.2.toNat + 1)

/-- What the automatic search does with one range. -/
def takeFirst (reqSlots : UInt32) (range : SlotRange) : Option (UInt32 × List SlotRange) :=
  if reqSlots < range.size then some (range.1, [(range.1 + reqSlots, range.2)])
  else if reqSlots = range.size then some (range.1, [])
  else none

/-- What the manual search does with one range. -/
def takeFrom (firstSlot reqSlots : UInt32) (range : SlotRange) : Option (Unit × List SlotRange) :=
  if range.1 ≤ firstSlot ∧ firstSlot ≤ range.2 ∧ reqSlots < range.size then
    some ((), [(firstSlot + reqSlots, range.2)])
  else if range.1 ≤ firstSlot ∧ firstSlot ≤ range.2 ∧ reqSlots = range.size then some ((), [])
  else none

/-- The end of a scan in the terms of the searches. -/
def outcome {β : Type} : Ending β → Search β
  | .hit b => .found b
  | .exhausted => .exhausted
  | .beyond => .pastEnd

theorem outcome_map {β γ : Type} (f : β → γ) (ending : Ending β) :
    outcome (ending.map f) = (outcome ending).map f := by
  cases ending <;> rfl

theorem search_map_map {β γ δ : Type} (f : β → γ) (g : γ → δ) (search : Search β) :
    (search.map f).map g = search.map fun b => g (f b) := by
  cases search <;> rfl

theorem searchRange_eq_scan (reqSlots : UInt32) (table : List SlotRange) :
    searchRange reqSlots table = outcome (scan (takeFirst reqSlots) table) := by
  induction table using visited.induct with
  | case1 => rfl
  | case2 range =>
    rw [searchRange, scan, takeFirst]
    split_ifs <;> rfl
  | case3 range skipped rest ih =>
    rw [searchRange, scan, takeFirst]
    split_ifs
    · rfl
    · rfl
    · rw [ih, outcome_map]

theorem searchSlot_eq_scan (firstSlot reqSlots : UInt32) (table : List SlotRange) :
    searchSlot firstSlot reqSlots table =
      (outcome (scan (takeFrom firstSlot reqSlots) table)).map Prod.snd := by
  induction table using visited.induct with
  | case1 => rfl
  | case2 range =>
    rw [searchSlot, scan, takeFrom]
    split_ifs <;> rfl
  | case3 range skipped rest ih =>
    rw [searchSlot, scan, takeFrom]
    split_ifs
    · rfl
    · rfl
    · rw [ih, outcome_map, search_map_map, search_map_map]

/-! ### One range -/

section Range

variable {range : SlotRange} {firstSlot reqSlots : UInt32}

/-- The length of a range, which wraps around for the range of all numbers only. -/
theorem size_toNat (nonempty : range.1 ≤ range.2) :
    range.size.toNat = (range.2.toNat + 1 - range.1.toNat) % 2 ^ 32 := by
  have le := UInt32.le_iff_toNat_le.mp nonempty
  have last := range.2.toNat_lt
  rw [SlotRange.size, UInt32.toNat_add, UInt32.toNat_sub_of_le _ _ nonempty, UInt32.toNat_one]
  omega

theorem size_toNat_of_pos (nonempty : range.1 ≤ range.2) (positive : 0 < range.size.toNat) :
    range.size.toNat + range.1.toNat = range.2.toNat + 1 := by
  have le := UInt32.le_iff_toNat_le.mp nonempty
  have first := range.1.toNat_lt
  have last := range.2.toNat_lt
  have size := size_toNat nonempty
  omega

/-- A remainder of the range covers what is left above the slots taken. -/
theorem covered_rest (fits : range.1.toNat + reqSlots.toNat ≤ range.2.toNat) :
    freeSlots [(range.1 + reqSlots, range.2)] =
      elements (toRange range) \ requested range.1 reqSlots := by
  have last := range.2.toNat_lt
  have sum : (range.1 + reqSlots).toNat = range.1.toNat + reqSlots.toNat := by
    rw [UInt32.toNat_add, Nat.mod_eq_of_lt]
    omega
  ext x
  simp only [freeSlots, List.map_cons, List.map_nil, covered_cons, covered_nil, Set.union_empty,
    toRange, mem_elements, sum, Set.mem_sdiff, requested, Set.mem_Ico]
  omega

/-- Taking slots from the bottom of a range leaves the ones above them. -/
theorem taken_exactly (nonempty : range.1 ≤ range.2) (some : 1 ≤ reqSlots)
    (fits : reqSlots ≤ range.size) :
    requested range.1 reqSlots ⊆ elements (toRange range) ∧
      ((reqSlots < range.size → freeSlots [(range.1 + reqSlots, range.2)] =
          elements (toRange range) \ requested range.1 reqSlots) ∧
        (reqSlots = range.size → freeSlots [] =
          elements (toRange range) \ requested range.1 reqSlots)) := by
  have some := UInt32.le_iff_toNat_le.mp some
  have fits := UInt32.le_iff_toNat_le.mp fits
  rw [UInt32.toNat_one] at some
  have size := size_toNat_of_pos nonempty (by omega)
  refine ⟨?_, ?_, ?_⟩
  · intro x taken
    simp only [requested, Set.mem_Ico] at taken
    simp only [toRange, mem_elements]
    omega
  · intro shorter
    have shorter := UInt32.lt_iff_toNat_lt.mp shorter
    exact covered_rest (by omega)
  · intro same
    have same := UInt32.toNat_inj.mpr same
    ext x
    simp only [freeSlots, List.map_nil, covered_nil, Set.mem_empty_iff_false, toRange,
      mem_elements, Set.mem_sdiff, requested, Set.mem_Ico, false_iff]
    omega

theorem takeFirst_eq_none : takeFirst reqSlots range = none ↔ ¬ reqSlots ≤ range.size := by
  rw [UInt32.le_iff_lt_or_eq, takeFirst]
  split_ifs with shorter same
  · simp [shorter]
  · simp [same]
  · simp [shorter, same]

/-- A hit of the automatic search takes the slots it is asked for from the bottom of the range. -/
theorem takeFirst_exact (nonempty : range.1 ≤ range.2) (some : 1 ≤ reqSlots) {first : UInt32}
    {new : List SlotRange} (hit : takeFirst reqSlots range = .some (first, new)) :
    first = range.1 ∧ requested range.1 reqSlots ⊆ elements (toRange range) ∧
      freeSlots new = elements (toRange range) \ requested range.1 reqSlots := by
  have fits : reqSlots ≤ range.size := by
    by_contra long
    rw [takeFirst_eq_none.mpr long] at hit
    cases hit
  obtain ⟨inside, shortened, erased⟩ := taken_exactly nonempty some fits
  rw [takeFirst] at hit
  split_ifs at hit with shorter same
  · cases hit
    exact ⟨rfl, inside, shortened shorter⟩
  · cases hit
    exact ⟨rfl, inside, erased same⟩

end Range

end Kista.Tdma.SlotSearch
