/- Kista/Tdma/AutomaticAllocation
   source: src/src/comm_res/buses/tdma_bus.cpp
   digest: Automatic allocation alone hands the slots out from the bottom, as long as the count
   of the slots does not wrap around. -/

import Mathlib.Algebra.GroupWithZero.Nat
import Kista.Kernel.Run
import Kista.Tdma.SlotSearch

set_option autoImplicit false
set_option relaxedAutoImplicit false

namespace Kista.Tdma.AutomaticAllocation

open Kernel.Run SlotAllocation SlotSearch Kista.Containers.Ranges

variable {α : Type}

/-! ### The slots as they are meant to be granted -/

structure Grant (α : Type) where
  source : α
  first : ℕ
  count : ℕ

def Grant.slots (g : Grant α) : Set ℕ := Set.Ico g.first (g.first + g.count)

def granted (grants : List (Grant α)) : ℕ := (grants.map Grant.count).sum

/-- A source and the channels it requires. -/
abbrev Request (α : Type) := α × UInt32

/-- A request that fits in what is left gets the slots right after those granted. -/
def grant (channels : ℕ) (grants : List (Grant α)) (r : Request α) : Option (Grant α) :=
  if r.2.toNat ≤ channels - granted grants then some ⟨r.1, granted grants, r.2.toNat⟩ else none

/-- The grants after a list of requests, those before it given. -/
def ledger (channels : ℕ) : List (Grant α) → List (Request α) → List (Grant α)
  | grants, [] => grants
  | grants, r :: rs => ledger channels (grants ++ (grant channels grants r).toList) rs

/-- Each grant starts where the one before it ends. -/
def Stacked : ℕ → List (Grant α) → Prop
  | _, [] => True
  | next, g :: grants => g.first = next ∧ Stacked (next + g.count) grants

/-- The grants and the free ranges are apart from one another and make up all the channels. -/
structure Partitions (channels : ℕ) (grants : List (Grant α)) (table : List SlotRange) : Prop where
  granted : grants.Pairwise fun g g' => Disjoint g.slots g'.slots
  free : Apart (table.map toRange)
  between : ∀ g ∈ grants, Disjoint g.slots (freeSlots table)
  all : ∀ x, x < channels ↔ (∃ g ∈ grants, x ∈ g.slots) ∨ x ∈ freeSlots table

theorem granted_snoc (grants : List (Grant α)) (g : Grant α) :
    granted (grants ++ [g]) = granted grants + g.count := by
  simp [granted]

theorem Stacked.snoc {next : ℕ} {grants : List (Grant α)} (stacked : Stacked next grants)
    {g : Grant α} (last : g.first = next + granted grants) : Stacked next (grants ++ [g]) := by
  induction grants generalizing next with
  | nil => exact ⟨last, trivial⟩
  | cons g' grants ih =>
    refine ⟨stacked.1, ih stacked.2 ?_⟩
    rw [last, granted, List.map_cons, List.sum_cons, Nat.add_assoc]
    rfl

/-- Together stacked grants are one interval. -/
theorem Stacked.slots {next : ℕ} {grants : List (Grant α)} (stacked : Stacked next grants) (x : ℕ) :
    (∃ g ∈ grants, x ∈ g.slots) ↔ next ≤ x ∧ x < next + granted grants := by
  induction grants generalizing next with
  | nil => simp [granted]
  | cons g grants ih =>
    have sum : granted (g :: grants) = g.count + granted grants := rfl
    have bottom : x ∈ g.slots ↔ next ≤ x ∧ x < next + g.count := by
      rw [Grant.slots, stacked.1]
      exact Iff.rfl
    rw [List.exists_mem_cons_iff, ih stacked.2, bottom, sum]
    omega

theorem Stacked.disjoint {next : ℕ} {grants : List (Grant α)} (stacked : Stacked next grants) :
    grants.Pairwise fun g g' => Disjoint g.slots g'.slots := by
  induction grants generalizing next with
  | nil => exact .nil
  | cons g grants ih =>
    refine .cons (fun g' mem => Set.disjoint_left.mpr fun x first second => ?_) (ih stacked.2)
    have above := (stacked.2.slots x).mp ⟨g', mem, second⟩
    rw [Grant.slots, stacked.1] at first
    have below := first.2
    omega

/-! ### The bus -/

/-- The sum that the first check computes does not wrap around, or there is nothing left. -/
def Countable (bus : TdmaBus α) (r : Request α) : Prop :=
  r.2.toNat + bus.nAllocatedChannels.toNat < 2 ^ 32 ∨ bus.nAllocatedChannels = bus.nChannels

instance (bus : TdmaBus α) (r : Request α) : Decidable (Countable bus r) :=
  inferInstanceAs (Decidable (_ ∨ _))

/-- What a run leaves behind: its count and its free range are those of the grants. -/
structure Filled (channels : ℕ) (grants : List (Grant α)) (bus : TdmaBus α) : Prop where
  configured : bus.nChannels.toNat = channels
  positive : 1 ≤ channels
  count : bus.nAllocatedChannels.toNat = granted grants
  bound : granted grants ≤ channels
  stacked : Stacked 0 grants
  table : bus.freeSlotTable =
    if granted grants = channels then [] else [(bus.nAllocatedChannels, bus.nChannels - 1)]

section Filled

variable {channels : ℕ} {grants : List (Grant α)} {bus : TdmaBus α}

theorem filled_configured {n : UInt32} (positive : 1 ≤ n) :
    Filled n.toNat [] (setNChannels (initParams : TdmaBus α) n) := by
  have positive : 1 ≤ n.toNat := UInt32.le_iff_toNat_le.mp positive
  have some_left : granted ([] : List (Grant α)) ≠ n.toNat := by
    show (0 : ℕ) ≠ n.toNat
    omega
  refine ⟨rfl, positive, rfl, Nat.zero_le _, trivial, ?_⟩
  rw [if_neg some_left]
  rfl

theorem Filled.last (filled : Filled channels grants bus) :
    (bus.nChannels - 1).toNat = channels - 1 := by
  have positive := filled.positive
  rw [← filled.configured] at positive ⊢
  exact lastSlot_toNat positive

/-- What is free lies above the grants. -/
theorem Filled.freeSlots_eq (filled : Filled channels grants bus) :
    freeSlots bus.freeSlotTable = Set.Ico (granted grants) channels := by
  have positive := filled.positive
  have bound := filled.bound
  rw [filled.table]
  split_ifs with all
  · rw [all, Set.Ico_self]
    simp [freeSlots]
  · ext x
    simp only [freeSlots, List.map_cons, List.map_nil, covered_cons, covered_nil,
      Set.union_empty, toRange, mem_elements, filled.count, filled.last, Set.mem_Ico]
    omega

theorem Filled.partitions (filled : Filled channels grants bus) :
    Partitions channels grants bus.freeSlotTable := by
  have bound := filled.bound
  have slots := filled.stacked.slots
  refine ⟨filled.stacked.disjoint, ?_, ?_, ?_⟩
  · rw [filled.table]
    split_ifs with all
    · exact ⟨nofun, .nil⟩
    · refine ⟨?_, List.pairwise_singleton _ _⟩
      intro range mem
      obtain rfl := List.mem_singleton.mp mem
      show bus.nAllocatedChannels.toNat ≤ (bus.nChannels - 1).toNat
      rw [filled.count, filled.last]
      omega
  · intro g mem
    rw [filled.freeSlots_eq, Set.disjoint_left]
    intro x inside free
    have below := (slots x).mp ⟨g, mem, inside⟩
    have above := free.1
    omega
  · intro x
    rw [slots, filled.freeSlots_eq, Set.mem_Ico]
    omega

/-- The length of the free range is what is left. -/
theorem Filled.size_eq (filled : Filled channels grants bus) (left : granted grants < channels) :
    (SlotRange.size (bus.nAllocatedChannels, bus.nChannels - 1)).toNat =
      channels - granted grants := by
  have lt := bus.nChannels.toNat_lt
  have configured := filled.configured
  have nonempty : bus.nAllocatedChannels ≤ bus.nChannels - 1 := by
    rw [UInt32.le_iff_toNat_le, filled.count, filled.last]
    omega
  rw [size_toNat nonempty, filled.count, filled.last]
  omega

end Filled

/-! ### The calls -/

variable [DecidableEq α]

def request (bus : TdmaBus α) (r : Request α) : Option (TdmaBus α) :=
  (allocateChannels bus r.1 r.2).bus?

/-- The call is accepted with the slots of the grant, or rejected where there is none. -/
def Decides (channels : ℕ) (grants : List (Grant α)) (bus : TdmaBus α) (r : Request α) : Prop :=
  match grant channels grants r with
  | some g => ∃ bus', allocateChannels bus r.1 r.2 = .accepted bus' ∧
      (bus'.firstSlotAllocationTable.lookup r.1).map UInt32.toNat = some g.first ∧
      (bus'.channelAllocationTable.lookup r.1).map UInt32.toNat = some g.count
  | none => ∃ report, allocateChannels bus r.1 r.2 = .rejected report bus

section Calls

variable {channels : ℕ} {grants : List (Grant α)} {bus : TdmaBus α} {r : Request α}

theorem Filled.accept (filled : Filled channels grants bus) (some : 1 ≤ r.2.toNat)
    (fits : r.2.toNat ≤ channels - granted grants) :
    allocateChannels bus r.1 r.2 = .accepted (record bus r.1 r.2 bus.nAllocatedChannels
      (if granted grants + r.2.toNat = channels then []
        else [(bus.nAllocatedChannels + r.2, bus.nChannels - 1)])) := by
  have lt := bus.nChannels.toNat_lt
  have configured := filled.configured
  have size := filled.size_eq (by omega)
  have few : ¬ bus.nChannels < r.2 + bus.nAllocatedChannels := by
    rw [UInt32.lt_iff_toNat_lt, UInt32.toNat_add, filled.count]
    omega
  have shorter : r.2 < SlotRange.size (bus.nAllocatedChannels, bus.nChannels - 1) ↔
      ¬ granted grants + r.2.toNat = channels := by
    rw [UInt32.lt_iff_toNat_lt, size]
    omega
  have same : r.2 = SlotRange.size (bus.nAllocatedChannels, bus.nChannels - 1) ↔
      granted grants + r.2.toNat = channels := by
    rw [← UInt32.toNat_inj, size]
    omega
  have table := filled.table
  rw [if_neg (by omega)] at table
  by_cases all : granted grants + r.2.toNat = channels
  · simp [allocateChannels, few, assignFreeSlots, table, searchRange, shorter, same, all]
  · simp [allocateChannels, few, assignFreeSlots, table, searchRange, shorter, all]

theorem Filled.reject (filled : Filled channels grants bus) (countable : Countable bus r)
    (long : ¬ r.2.toNat ≤ channels - granted grants) :
    ∃ report, allocateChannels bus r.1 r.2 = .rejected report bus := by
  have bound := filled.bound
  have configured := filled.configured
  unfold allocateChannels
  by_cases many : bus.nChannels < r.2 + bus.nAllocatedChannels
  · exact ⟨_, if_pos many⟩
  · -- the sum has wrapped around, and the table is empty
    rw [if_neg many]
    rcases countable with counted | same
    · rw [UInt32.lt_iff_toNat_lt, UInt32.toNat_add, Nat.mod_eq_of_lt counted, filled.count] at many
      omega
    · have table := filled.table
      rw [if_pos (by rw [← filled.count, same, configured])] at table
      refine ⟨.emptyFreeSlotTable, ?_⟩
      rw [table]
      rfl

theorem Filled.record (filled : Filled channels grants bus)
    (fits : r.2.toNat ≤ channels - granted grants) :
    Filled channels (grants ++ [⟨r.1, granted grants, r.2.toNat⟩])
      (record bus r.1 r.2 bus.nAllocatedChannels
        (if granted grants + r.2.toNat = channels then []
          else [(bus.nAllocatedChannels + r.2, bus.nChannels - 1)])) := by
  have lt := bus.nChannels.toNat_lt
  have configured := filled.configured
  have bound := filled.bound
  refine ⟨configured, filled.positive, ?_, ?_, filled.stacked.snoc (Nat.zero_add _).symm, ?_⟩
  · show (bus.nAllocatedChannels + r.2).toNat = _
    rw [granted_snoc, UInt32.toNat_add, filled.count, Nat.mod_eq_of_lt]
    omega
  · rw [granted_snoc]
    show granted grants + r.2.toNat ≤ channels
    omega
  · rw [granted_snoc]
    rfl

/-- A request that the first check counts right is granted or rejected as it is meant to be. -/
theorem Filled.decides (filled : Filled channels grants bus) (some : 1 ≤ r.2)
    (countable : Countable bus r) :
    Decides channels grants bus r ∧ ∃ bus', request bus r = .some bus' ∧
      Filled channels (grants ++ (grant channels grants r).toList) bus' := by
  have some : 1 ≤ r.2.toNat := UInt32.le_iff_toNat_le.mp some
  by_cases fits : r.2.toNat ≤ channels - granted grants
  · have accepted := filled.accept some fits
    simp only [Decides, request, grant, if_pos fits, accepted]
    refine ⟨⟨_, rfl, ?_, ?_⟩, _, rfl, filled.record fits⟩
    · simp [SlotAllocation.record, filled.count]
    · simp [SlotAllocation.record]
  · obtain ⟨report, rejected⟩ := filled.reject countable fits
    simp only [Decides, request, grant, if_neg fits, rejected]
    refine ⟨⟨report, rfl⟩, bus, rfl, ?_⟩
    rw [Option.toList_none, List.append_nil]
    exact filled

/-- A request that is not counted right passes the check and then the end of the free list. -/
theorem Filled.undefined (filled : Filled channels grants bus)
    (uncountable : ¬ Countable bus r) : allocateChannels bus r.1 r.2 = .undefined := by
  obtain ⟨wraps, left⟩ := not_or.mp uncountable
  have configured := filled.configured
  have bound := filled.bound
  have lt := r.2.toNat_lt
  have left : granted grants ≠ channels := by
    rw [← filled.count, ← configured]
    exact fun same => left (UInt32.toNat_inj.mp same)
  have size := filled.size_eq (by omega)
  have few : ¬ bus.nChannels < r.2 + bus.nAllocatedChannels := by
    rw [filled.count] at wraps
    rw [UInt32.lt_iff_toNat_lt, UInt32.toNat_add, filled.count]
    omega
  have miss : takeFirst r.2 (bus.nAllocatedChannels, bus.nChannels - 1) = none := by
    rw [takeFirst_eq_none, UInt32.le_iff_toNat_le, size]
    rw [filled.count] at wraps
    have := bus.nChannels.toNat_lt
    omega
  have table := filled.table
  rw [if_neg left] at table
  rw [allocateChannels, if_neg few, assignFreeSlots, table, searchRange_eq_scan,
    Containers.SkippingScan.scan, miss]
  rfl

end Calls

theorem run_filled {channels : ℕ} {grants : List (Grant α)} {bus : TdmaBus α}
    {requests : List (Request α)} (filled : Filled channels grants bus)
    (some : ∀ r ∈ requests, 1 ≤ r.2) (countable : Along request Countable bus requests) :
    ∃ bus', run request bus requests = .some bus' ∧
      Filled channels (ledger channels grants requests) bus' := by
  induction requests generalizing grants bus with
  | nil => exact ⟨bus, rfl, filled⟩
  | cons r requests ih =>
    obtain ⟨-, next, step, filled'⟩ := filled.decides (some r List.mem_cons_self) countable.1
    obtain ⟨bus', reach, final⟩ :=
      ih filled' (fun r mem => some r (List.mem_cons_of_mem _ mem)) (countable.2 next step)
    exact ⟨bus', run_cons_eq_some.mpr ⟨next, step, reach⟩, final⟩

/-- Along every run of requests that are counted right the slots are granted from the bottom, and
the next request is decided as it is meant to be exactly when it is counted right. -/
theorem automatic_allocation {n : UInt32} (positive : 1 ≤ n) {requests : List (Request α)}
    (some : ∀ r ∈ requests, 1 ≤ r.2)
    (countable : Along request Countable (setNChannels initParams n) requests) :
    ∃ bus, run request (setNChannels initParams n) requests = .some bus ∧
      bus.nAllocatedChannels.toNat = granted (ledger n.toNat [] requests) ∧
      Stacked 0 (ledger n.toNat [] requests) ∧
      Partitions n.toNat (ledger n.toNat [] requests) bus.freeSlotTable ∧
      ∀ r, 1 ≤ r.2 → (Decides n.toNat (ledger n.toNat [] requests) bus r ↔ Countable bus r) := by
  obtain ⟨bus, reach, filled⟩ := run_filled (filled_configured positive) some countable
  refine ⟨bus, reach, filled.count, filled.stacked, filled.partitions, fun r some => ?_⟩
  constructor
  · intro decides
    by_contra uncountable
    have undefined := filled.undefined uncountable
    unfold Decides at decides
    split at decides
    · obtain ⟨bus', accepted, -⟩ := decides
      rw [undefined] at accepted
      cases accepted
    · obtain ⟨report, rejected⟩ := decides
      rw [undefined] at rejected
      cases rejected
  · exact fun countable => (filled.decides some countable).1

/-- Two requests of one source and one that is too long, on a bus of four slots. -/
theorem threeRequests_granted :
    ∃ bus, run request (setNChannels initParams 4) [(true, 2), (true, 1), (false, 2)] = some bus ∧
      bus.nAllocatedChannels.toNat = 3 ∧
      Partitions 4 [⟨true, 0, 2⟩, ⟨true, 2, 1⟩] bus.freeSlotTable := by
  obtain ⟨bus, reach, count, -, partitions, -⟩ := @automatic_allocation Bool _ 4 (by decide)
    [(true, 2), (true, 1), (false, 2)] (by simp) (by decide +kernel)
  exact ⟨bus, reach, count, partitions⟩

/-- Behind two slots a request for all numbers but zero wraps around to one. -/
theorem hugeRequest_undefined :
    ∃ bus, run request (setNChannels initParams 4) [(true, 2)] = some bus ∧
      allocateChannels bus false 4294967295 = .undefined ∧
      ¬ Decides 4 (ledger 4 [] [(true, 2)]) bus (false, 4294967295) := by
  refine ⟨_, rfl, rfl, ?_⟩
  rintro ⟨report, ⟨⟩⟩

end Kista.Tdma.AutomaticAllocation
