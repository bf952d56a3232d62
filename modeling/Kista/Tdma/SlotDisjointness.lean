/- Kista/Tdma/SlotDisjointness
   source: src/src/comm_res/buses/tdma_bus.cpp, tdma_bus.hpp
   digest: The ranges recorded for distinct sources stay disjoint and inside the bus along
   every run of allocations that the single free range can honour. -/

import Kista.Kernel.Run
import Kista.Tdma.SlotAllocation

set_option autoImplicit false
set_option relaxedAutoImplicit false

namespace Kista.Tdma.SlotDisjointness

open Kernel.Run SlotAllocation

variable {α : Type} [DecidableEq α]

/-- The recorded ranges of distinct sources are disjoint and lie inside the bus. -/
structure SlotsDisjoint (bus : TdmaBus α) : Prop where
  disjoint : ∀ p q, p ≠ q → Disjoint (bus.slots p) (bus.slots q)
  inside : ∀ p, bus.slots p ⊆ Finset.range bus.nChannels.toNat

def allocate (bus : TdmaBus α) (c : Call α) : Option (TdmaBus α) := (call bus c).bus?

def tooMany (bus : TdmaBus α) (requiredChannels : UInt32) : Prop :=
  bus.nChannels < requiredChannels + bus.nAllocatedChannels

/-- The count check rejects the call, or the free range holds the slots asked for and, for a
manual call, the search with exchanged arguments finds that range too. -/
def Honoured (bus : TdmaBus α) : Call α → Prop
  | .automatic _ required =>
    tooMany bus required ∨ ∀ range ∈ bus.freeSlotTable, required ≤ range.size
  | .manual _ required first =>
    tooMany bus required ∨ ∀ range ∈ bus.freeSlotTable,
      (range.1 ≤ first ∧ first.toNat + required.toNat ≤ range.2.toNat + 1) ∧
        range.1 ≤ required ∧ required ≤ range.2 ∧ first ≤ range.size

instance (bus : TdmaBus α) (required : UInt32) : Decidable (tooMany bus required) :=
  inferInstanceAs (Decidable (_ < _))

instance (bus : TdmaBus α) : (c : Call α) → Decidable (Honoured bus c)
  | .automatic _ required =>
    have := List.decidableBAll (fun range : SlotRange => required ≤ range.size) bus.freeSlotTable
    inferInstanceAs (Decidable (_ ∨ _))
  | .manual _ required first =>
    have := List.decidableBAll (fun range : SlotRange =>
      (range.1 ≤ first ∧ first.toNat + required.toNat ≤ range.2.toNat + 1) ∧
        range.1 ≤ required ∧ required ≤ range.2 ∧ first ≤ range.size) bus.freeSlotTable
    inferInstanceAs (Decidable (_ ∨ _))

/-- The free list is the one range from `free` to the last slot, or empty. -/
structure Allocated (bus : TdmaBus α) (free : ℕ) : Prop where
  positive : 0 < bus.nChannels.toNat
  bound : free ≤ bus.nChannels.toNat
  table : bus.freeSlotTable = [] ∨
    bus.freeSlotTable = [(UInt32.ofNat free, bus.nChannels - 1)]
  disjoint : ∀ p q, p ≠ q → Disjoint (bus.slots p) (bus.slots q)
  below : ∀ p, bus.slots p ⊆ Finset.range free

theorem Allocated.slotsDisjoint {bus : TdmaBus α} {free : ℕ} (h : Allocated bus free) :
    SlotsDisjoint bus :=
  ⟨h.disjoint, fun p => (h.below p).trans (Finset.range_mono h.bound)⟩

theorem allocated_configured {n : UInt32} (positive : 1 ≤ n) :
    Allocated (setNChannels (initParams : TdmaBus α) n) 0 where
  positive := by
    have := UInt32.le_iff_toNat_le.mp positive
    exact this
  bound := Nat.zero_le _
  table := Or.inr rfl
  disjoint p q _ := by simp
  below p := by simp

/-- A source takes slots of the free range; what stays free lies above them. -/
theorem Allocated.record {bus : TdmaBus α} {free free' : ℕ} (h : Allocated bus free) (src : α)
    {count first : UInt32} {table : List SlotRange} (start : free ≤ first.toNat)
    (stop : first.toNat + count.toNat ≤ free') (bound : free' ≤ bus.nChannels.toNat)
    (rest : table = [] ∨ table = [(UInt32.ofNat free', bus.nChannels - 1)]) :
    Allocated (record bus src count first table) free' := by
  have fresh : ∀ p, p ≠ src → Disjoint
      (Finset.Ico first.toNat (first.toNat + count.toNat))
      ((SlotAllocation.record bus src count first table).slots p) := by
    intro p other
    rw [slots_record_of_ne bus count first table other, Finset.disjoint_left]
    intro x hx hp
    have above := (Finset.mem_Ico.mp hx).1
    have below := Finset.mem_range.mp (h.below p hp)
    omega
  refine ⟨h.positive, bound, rest, ?_, ?_⟩
  · intro p q hpq
    by_cases hp : p = src
    · subst hp
      rw [slots_record_self]
      exact fresh q (Ne.symm hpq)
    · by_cases hq : q = src
      · subst hq
        rw [slots_record_self]
        exact (fresh p hp).symm
      · rw [slots_record_of_ne bus count first table hp,
          slots_record_of_ne bus count first table hq]
        exact h.disjoint p q hpq
  · intro p x hx
    rw [Finset.mem_range]
    by_cases hp : p = src
    · subst hp
      rw [slots_record_self] at hx
      have := (Finset.mem_Ico.mp hx).2
      omega
    · rw [slots_record_of_ne bus count first table hp] at hx
      have := Finset.mem_range.mp (h.below p hx)
      omega

theorem Allocated.manual {bus : TdmaBus α} {free : ℕ} (h : Allocated bus free) :
    Allocated { bus with manualSlotAllocation := true } free :=
  ⟨h.positive, h.bound, h.table, h.disjoint, h.below⟩

/-- The length of the free range in unsigned arithmetic, zero for the range past the end. -/
theorem size_free {bus : TdmaBus α} {free : ℕ} (h : Allocated bus free) :
    (UInt32.ofNat free).toNat = free ∧
      SlotRange.size (UInt32.ofNat free, bus.nChannels - 1)
        = UInt32.ofNat (bus.nChannels.toNat - free) := by
  have lt := bus.nChannels.toNat_lt
  have bound := h.bound
  have positive := h.positive
  have value : (UInt32.ofNat free).toNat = free := by
    rw [UInt32.toNat_ofNat']
    omega
  refine ⟨value, ?_⟩
  apply UInt32.toNat_inj.mp
  simp only [SlotRange.size, UInt32.toNat_add, UInt32.toNat_sub, UInt32.toNat_ofNat', value]
  simp only [UInt32.toNat_one]
  omega

/-- What a grant leaves of the only free range: a shorter range, or nothing. -/
def remainder (range : SlotRange) (first : UInt32) : Bool → List SlotRange
  | true => [(first, range.2)]
  | false => []

/-- A grant in the free range, with nothing left or with what begins behind it. -/
theorem Allocated.grant {bus : TdmaBus α} {free : ℕ} (h : Allocated bus free) (src : α)
    {count first : UInt32} {range : SlotRange} {left : Bool} (last : range.2 = bus.nChannels - 1)
    (start : free ≤ first.toNat) (inside : first.toNat + count.toNat ≤ bus.nChannels.toNat) :
    ∃ free', Allocated (SlotAllocation.record bus src count first
      (remainder range (first + count) left)) free' := by
  cases left with
  | false => exact ⟨_, h.record src start inside le_rfl (Or.inl rfl)⟩
  | true =>
    refine ⟨_, h.record src start le_rfl inside (Or.inr ?_)⟩
    rw [remainder, last, UInt32.ofNat_add, UInt32.ofNat_toNat, UInt32.ofNat_toNat]

theorem searchRange_single (required : UInt32) (range : SlotRange) (fits : required ≤ range.size) :
    searchRange required [range] =
      .found (range.1, remainder range (range.1 + required) (decide (required < range.size))) := by
  unfold searchRange
  by_cases shorter : required < range.size
  · simp [shorter, remainder]
  · have same : required = range.size := UInt32.le_antisymm fits (UInt32.not_lt.mp shorter)
    rw [if_neg shorter, if_pos same, decide_eq_false shorter]
    rfl

theorem searchSlot_single (firstSlot required : UInt32) (range : SlotRange)
    (low : range.1 ≤ firstSlot) (high : firstSlot ≤ range.2) (fits : required ≤ range.size) :
    searchSlot firstSlot required [range] =
      .found (remainder range (firstSlot + required) (decide (required < range.size))) := by
  unfold searchSlot
  simp only [low, high, true_and]
  by_cases shorter : required < range.size
  · simp [shorter, remainder]
  · have same : required = range.size := UInt32.le_antisymm fits (UInt32.not_lt.mp shorter)
    rw [if_neg shorter, if_pos same, decide_eq_false shorter]
    rfl

private theorem allocate_reject {bus : TdmaBus α} {free : ℕ} (h : Allocated bus free)
    {c : Call α} {r : Report}
    (reject : call bus c = .rejected r bus ∨
      call bus c = .rejected r { bus with manualSlotAllocation := true }) :
    ∃ bus', allocate bus c = some bus' ∧ ∃ free', Allocated bus' free' := by
  unfold allocate
  rcases reject with reject | reject
  · exact ⟨bus, by rw [reject]; rfl, free, h⟩
  · exact ⟨_, by rw [reject]; rfl, free, h.manual⟩

private theorem allocate_automatic {bus : TdmaBus α} {free : ℕ} (h : Allocated bus free)
    {src : α} {required : UInt32} (honoured : Honoured bus (.automatic src required)) :
    ∃ bus', allocate bus (.automatic src required) = some bus' ∧
      ∃ free', Allocated bus' free' := by
  by_cases many : tooMany bus required
  · unfold tooMany at many
    apply allocate_reject h
    exact Or.inl (by rw [call, allocateChannels, if_pos many])
  have fits := honoured.resolve_left many
  unfold tooMany at many
  rcases h.table with empty | one
  · apply allocate_reject h
    left
    simp only [call, allocateChannels, if_neg many, assignFreeSlots, empty]
    rfl
  obtain ⟨value, size⟩ := size_free h
  have bound := h.bound
  have lt := bus.nChannels.toNat_lt
  have fits := fits _ (by rw [one]; exact List.mem_singleton_self _)
  have run : allocate bus (.automatic src required) =
      some (record bus src required (UInt32.ofNat free)
        (remainder (UInt32.ofNat free, bus.nChannels - 1) (UInt32.ofNat free + required)
          (decide (required < SlotRange.size (UInt32.ofNat free, bus.nChannels - 1))))) := by
    simp only [allocate, call, allocateChannels, if_neg many, assignFreeSlots, one,
      searchRange_single required _ fits, List.length_singleton, lt_irrefl, if_false,
      Outcome.bus?]
  rw [size] at fits run
  have fits := UInt32.le_iff_toNat_le.mp fits
  have sizeNat : (UInt32.ofNat (bus.nChannels.toNat - free)).toNat
      = bus.nChannels.toNat - free := by
    rw [UInt32.toNat_ofNat']
    omega
  rw [sizeNat] at fits
  exact ⟨_, run, h.grant src rfl (by omega) (by omega)⟩

private theorem allocate_manual {bus : TdmaBus α} {free : ℕ} (h : Allocated bus free)
    {src : α} {required first : UInt32} (honoured : Honoured bus (.manual src required first)) :
    ∃ bus', allocate bus (.manual src required first) = some bus' ∧
      ∃ free', Allocated bus' free' := by
  by_cases many : tooMany bus required
  · unfold tooMany at many
    apply allocate_reject h
    exact Or.inr (by rw [call, allocateChannelsFrom, if_pos many])
  have fits := honoured.resolve_left many
  unfold tooMany at many
  rcases h.table with empty | one
  · apply allocate_reject h
    right
    simp only [call, allocateChannelsFrom, if_neg many, assignFreeSlotsFrom, empty]
    rfl
  obtain ⟨value, size⟩ := size_free h
  have bound := h.bound
  have positive := h.positive
  have lt := bus.nChannels.toNat_lt
  obtain ⟨⟨start, stop⟩, low, high, fits⟩ :=
    fits _ (by rw [one]; exact List.mem_singleton_self _)
  have run : allocate bus (.manual src required first) =
      some (record { bus with manualSlotAllocation := true } src required first
        (remainder (UInt32.ofNat free, bus.nChannels - 1) (required + first)
          (decide (first < SlotRange.size (UInt32.ofNat free, bus.nChannels - 1))))) := by
    simp only [allocate, call, allocateChannelsFrom, if_neg many, assignFreeSlotsFrom, one,
      searchSlot_single required first _ low high fits, List.length_singleton, lt_irrefl,
      if_false, Outcome.bus?]
  have last := lastSlot_toNat positive
  have start := UInt32.le_iff_toNat_le.mp start
  simp only [value, last] at start stop
  have inside : first.toNat + required.toNat ≤ bus.nChannels.toNat := by omega
  rw [UInt32.add_comm required first] at run
  exact ⟨_, run, h.manual.grant src rfl (by omega) inside⟩

/-- Every run of honoured calls is defined and leaves disjoint ranges inside the bus. -/
theorem allocations_disjoint {n : UInt32} (positive : 1 ≤ n) {calls : List (Call α)}
    (honoured : Along allocate Honoured (setNChannels initParams n) calls) :
    ∃ bus, run allocate (setNChannels initParams n) calls = some bus ∧ SlotsDisjoint bus := by
  have keep : ∀ (bus : TdmaBus α) (c : Call α), (∃ free, Allocated bus free) →
      Honoured bus c → ∃ bus', allocate bus c = some bus' ∧ ∃ free, Allocated bus' free := by
    intro bus c ⟨free, h⟩ honoured
    cases c with
    | manual src required first => exact allocate_manual h honoured
    | automatic src required => exact allocate_automatic h honoured
  obtain ⟨bus, reach, free, h⟩ :=
    run_defined keep ⟨0, allocated_configured positive⟩ honoured
  exact ⟨bus, reach, h.slotsDisjoint⟩

/-- An automatic, a manual and again an automatic allocation on a bus of eight slots. -/
theorem mixedCalls_disjoint :
    ∃ bus, run allocate (setNChannels initParams 8)
        [.automatic 0 2, .manual 1 3 3, .automatic (2 : Fin 3) 2] = some bus ∧
      SlotsDisjoint bus :=
  allocations_disjoint (by decide) (by decide +kernel)

/-- Two manual requests for slots zero and one are both granted. -/
theorem sameSlots_overlap :
    ∃ bus, run allocate (setNChannels initParams 4) [.manual false 2 0, .manual true 2 0]
        = some bus ∧ ¬ SlotsDisjoint bus := by
  refine ⟨_, rfl, fun h => ?_⟩
  have apart := Finset.disjoint_left.mp (h.disjoint false true (by decide))
  have first : (0 : ℕ) ∈ Finset.Ico 0 2 := by decide
  exact apart first first

end Kista.Tdma.SlotDisjointness
