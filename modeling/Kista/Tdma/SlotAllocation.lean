/- Kista/Tdma/SlotAllocation
   source: src/src/comm_res/buses/tdma_bus.cpp, tdma_bus.hpp
   digest: Manual and automatic slot allocation over one list of free ranges, as the code
   computes it in unsigned arithmetic. -/

import Mathlib.Data.List.AList
import Mathlib.Order.Interval.Finset.Nat
import Mathlib.Order.Disjoint

set_option autoImplicit false
set_option relaxedAutoImplicit false

/-!
`SC_REPORT_ERROR` throws: the call is abandoned with what it has written so far. An iterator
moved past `end()` has no defined outcome.
-/

namespace Kista.Tdma.SlotAllocation

/-- `free_slot_range_t`: the range `(2, 4)` means slots 2, 3 and 4. -/
abbrev SlotRange := UInt32 × UInt32

def SlotRange.size (range : SlotRange) : UInt32 := range.2 - range.1 + 1

structure TdmaBus (α : Type) where
  nChannels : UInt32
  nAllocatedChannels : UInt32
  manualSlotAllocation : Bool
  freeSlotTable : List SlotRange
  channelAllocationTable : AList fun _ : α => UInt32
  firstSlotAllocationTable : AList fun _ : α => UInt32

inductive Report where
  | tooManyChannels (required available : UInt32)
  | emptyFreeSlotTable
  | noFreeSlots (required : UInt32) (table : List SlotRange)
  | noFreeSlotsFrom (required first : UInt32) (table : List SlotRange)
  deriving DecidableEq

/-- How a loop over the free ranges ends. -/
inductive Search (β : Type) where
  | found (b : β)
  | exhausted
  | pastEnd

inductive Halt where
  | report (r : Report)
  | undefined

variable {α : Type} [DecidableEq α]

def initParams : TdmaBus α where
  nChannels := 0
  nAllocatedChannels := 0
  manualSlotAllocation := false
  freeSlotTable := []
  channelAllocationTable := ∅
  firstSlotAllocationTable := ∅

def setNChannels (bus : TdmaBus α) (nChannelsPar : UInt32) : TdmaBus α :=
  { bus with
    nChannels := nChannelsPar
    freeSlotTable := bus.freeSlotTable ++ [(0, nChannelsPar - 1)] }

theorem lastSlot_toNat {n : UInt32} (some : 1 ≤ n.toNat) : (n - 1).toNat = n.toNat - 1 := by
  have lt := n.toNat_lt
  rw [UInt32.toNat_sub, UInt32.toNat_one]
  omega

namespace Search

variable {β γ : Type}

def map (f : β → γ) : Search β → Search γ
  | found b => found (f b)
  | exhausted => exhausted
  | pastEnd => pastEnd

end Search

/-- The loop of the automatic search. A range without room advances the iterator twice: once
in its own branch and once in the loop header. -/
def searchRange (reqSlots : UInt32) : List SlotRange → Search (UInt32 × List SlotRange)
  | [] => .exhausted
  | range :: rest =>
    if reqSlots < range.size then .found (range.1, (range.1 + reqSlots, range.2) :: rest)
    else if reqSlots = range.size then .found (range.1, rest)
    else match rest with
      | [] => .pastEnd
      | skipped :: rest =>
        (searchRange reqSlots rest).map fun found => (found.1, range :: skipped :: found.2)

/-- The loop of the manual search, which leaves the updated table. -/
def searchSlot (firstSlot reqSlots : UInt32) : List SlotRange → Search (List SlotRange)
  | [] => .exhausted
  | range :: rest =>
    if range.1 ≤ firstSlot ∧ firstSlot ≤ range.2 ∧ reqSlots < range.size then
      .found ((firstSlot + reqSlots, range.2) :: rest)
    else if range.1 ≤ firstSlot ∧ firstSlot ≤ range.2 ∧ reqSlots = range.size then .found rest
    else match rest with
      | [] => .pastEnd
      | skipped :: rest =>
        (searchSlot firstSlot reqSlots rest).map fun table => range :: skipped :: table

/-- `assign_free_slots(req_slots)`: the first slot and the updated table. -/
def assignFreeSlots (table : List SlotRange) (reqSlots : UInt32) :
    Except Halt (UInt32 × List SlotRange) :=
  if table.length < 1 then .error (.report .emptyFreeSlotTable)
  else match searchRange reqSlots table with
    | .found result => .ok result
    | .exhausted => .error (.report (.noFreeSlots reqSlots table))
    | .pastEnd => .error .undefined

/-- `assign_free_slots(first_slot, req_slots)`, the parameters in the order of the definition. -/
def assignFreeSlotsFrom (table : List SlotRange) (firstSlot reqSlots : UInt32) :
    Except Halt (List SlotRange) :=
  if table.length < 1 then .error (.report .emptyFreeSlotTable)
  else match searchSlot firstSlot reqSlots table with
    | .found table => .ok table
    | .exhausted => .error (.report (.noFreeSlotsFrom reqSlots firstSlot table))
    | .pastEnd => .error .undefined

inductive Outcome (α : Type) where
  | accepted (bus : TdmaBus α)
  | rejected (r : Report) (bus : TdmaBus α)
  | undefined

/-- The bus after the call, when the call has a defined outcome. -/
def Outcome.bus? : Outcome α → Option (TdmaBus α)
  | accepted bus => some bus
  | rejected _ bus => some bus
  | undefined => none

/-- The tables and the account are written once the search has succeeded. -/
def record (bus : TdmaBus α) (src : α) (requiredChannels firstSlot : UInt32)
    (table : List SlotRange) : TdmaBus α :=
  { bus with
    freeSlotTable := table
    channelAllocationTable := bus.channelAllocationTable.insert src requiredChannels
    firstSlotAllocationTable := bus.firstSlotAllocationTable.insert src firstSlot
    nAllocatedChannels := bus.nAllocatedChannels + requiredChannels }

/-- `allocate_channels(src, required_channels, first_slot)`. The call to the search passes the
required channels where the definition takes the first slot. -/
def allocateChannelsFrom (bus : TdmaBus α) (src : α) (requiredChannels firstSlot : UInt32) :
    Outcome α :=
  let bus := { bus with manualSlotAllocation := true }
  if bus.nChannels < requiredChannels + bus.nAllocatedChannels then
    .rejected
      (.tooManyChannels requiredChannels (bus.nChannels - bus.nAllocatedChannels)) bus
  else match assignFreeSlotsFrom bus.freeSlotTable requiredChannels firstSlot with
    | .error (.report r) => .rejected r bus
    | .error .undefined => .undefined
    | .ok table => .accepted (record bus src requiredChannels firstSlot table)

/-- `allocate_channels(src, required_channels)` -/
def allocateChannels (bus : TdmaBus α) (src : α) (requiredChannels : UInt32) : Outcome α :=
  if bus.nChannels < requiredChannels + bus.nAllocatedChannels then
    .rejected
      (.tooManyChannels requiredChannels (bus.nChannels - bus.nAllocatedChannels)) bus
  else match assignFreeSlots bus.freeSlotTable requiredChannels with
    | .error (.report r) => .rejected r bus
    | .error .undefined => .undefined
    | .ok (firstSlot, table) => .accepted (record bus src requiredChannels firstSlot table)

inductive Call (α : Type) where
  | manual (src : α) (requiredChannels firstSlot : UInt32)
  | automatic (src : α) (requiredChannels : UInt32)

def call (bus : TdmaBus α) : Call α → Outcome α
  | .manual src requiredChannels firstSlot =>
    allocateChannelsFrom bus src requiredChannels firstSlot
  | .automatic src requiredChannels => allocateChannels bus src requiredChannels

/-- No call changes the number of channels. -/
theorem call_nChannels {bus bus' : TdmaBus α} {c : Call α} (h : (call bus c).bus? = some bus') :
    bus'.nChannels = bus.nChannels := by
  cases c with
  | manual src requiredChannels firstSlot =>
    simp only [call, allocateChannelsFrom] at h
    split_ifs at h with many
    · cases h
      rfl
    · split at h <;> cases h <;> rfl
  | automatic src requiredChannels =>
    simp only [call, allocateChannels] at h
    split_ifs at h with many
    · cases h
      rfl
    · split at h <;> cases h <;> rfl

section Accepted

variable {bus bus' : TdmaBus α} {src : α} {requiredChannels firstSlot : UInt32}

/-- What is recorded is what the search found. -/
theorem allocateChannels_accepted
    (accepted : allocateChannels bus src requiredChannels = .accepted bus') :
    ∃ result, assignFreeSlots bus.freeSlotTable requiredChannels = .ok result ∧
      bus' = record bus src requiredChannels result.1 result.2 := by
  rw [allocateChannels] at accepted
  split_ifs at accepted with many
  cases assigned : assignFreeSlots bus.freeSlotTable requiredChannels with
  | error halt =>
    rw [assigned] at accepted
    cases halt <;> cases accepted
  | ok result =>
    rw [assigned] at accepted
    cases accepted
    exact ⟨result, rfl, rfl⟩

theorem allocateChannelsFrom_accepted
    (accepted : allocateChannelsFrom bus src requiredChannels firstSlot = .accepted bus') :
    ∃ table, assignFreeSlotsFrom bus.freeSlotTable requiredChannels firstSlot = .ok table ∧
      bus' = record { bus with manualSlotAllocation := true } src requiredChannels firstSlot
        table := by
  simp only [allocateChannelsFrom] at accepted
  split_ifs at accepted with many
  cases assigned : assignFreeSlotsFrom bus.freeSlotTable requiredChannels firstSlot with
  | error halt =>
    rw [assigned] at accepted
    cases halt <;> cases accepted
  | ok table =>
    rw [assigned] at accepted
    cases accepted
    exact ⟨table, rfl, rfl⟩

end Accepted

/-- The slots that the two tables record for a source. -/
def TdmaBus.slots (bus : TdmaBus α) (src : α) : Finset ℕ :=
  match bus.firstSlotAllocationTable.lookup src, bus.channelAllocationTable.lookup src with
  | some first, some count => Finset.Ico first.toNat (first.toNat + count.toNat)
  | _, _ => ∅

@[simp] theorem slots_initParams (src : α) : (initParams : TdmaBus α).slots src = ∅ := rfl

@[simp] theorem slots_setNChannels (bus : TdmaBus α) (n : UInt32) (src : α) :
    (setNChannels bus n).slots src = bus.slots src := rfl

@[simp] theorem slots_manual (bus : TdmaBus α) (flag : Bool) (src : α) :
    TdmaBus.slots { bus with manualSlotAllocation := flag } src = bus.slots src := rfl

theorem slots_record_self (bus : TdmaBus α) (src : α) (count first : UInt32)
    (table : List SlotRange) :
    (record bus src count first table).slots src =
      Finset.Ico first.toNat (first.toNat + count.toNat) := by
  simp [TdmaBus.slots, record]

theorem slots_record_of_ne (bus : TdmaBus α) {src p : α} (count first : UInt32)
    (table : List SlotRange) (other : p ≠ src) :
    (record bus src count first table).slots p = bus.slots p := by
  simp [TdmaBus.slots, record, AList.lookup_insert_ne other]

end Kista.Tdma.SlotAllocation
