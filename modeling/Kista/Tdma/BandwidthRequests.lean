/- Kista/Tdma/BandwidthRequests
   source: src/src/comm_res/buses/tdma_bus.cpp
   digest: The allocation of a bandwidth in slots, and exactly when it takes the fewest of them. -/

import Mathlib.Order.Bounds.Basic
import Kista.Tdma.Configuration

set_option autoImplicit false
set_option relaxedAutoImplicit false

namespace Kista.Tdma.BandwidthRequests

open Numeric.Binary64 SlotAllocation Divisions Kista.Tdma.Configuration

variable {α : Type}

/-- The quotient of the bandwidths and one more. -/
def requiredSlots (platform : Platform) (channelEBW requiredBps : UInt32) : UInt32 :=
  platform.counter (quotient requiredBps.toNat channelEBW.toNat) + 1

inductive Allocation (α : Type) where
  | allocated (bus : Bus α) (bps : UInt32)
  | rejected (r : SlotAllocation.Report) (bus : Bus α)
  | undefined

def allocateBW [DecidableEq α] (platform : Platform) (bus : Bus α) (src : α)
    (requiredBps : UInt32) : Allocation α :=
  let requiredSlots := requiredSlots platform bus.channelEBW requiredBps
  match allocateChannels bus.slots src requiredSlots with
  | .accepted slots => .allocated { bus with slots } (requiredSlots * bus.channelEBW)
  | .rejected r slots => .rejected r { bus with slots }
  | .undefined => .undefined

/-! ### The bandwidth of a slot -/

/-- The payload bits as given, or as the product of capacity and rate gives them. -/
def payloadOf (bus : Bus α) : ℕ :=
  if bus.chPayloadBits ≠ 0 then bus.chPayloadBits.toNat
  else ⌊payloadProduct bus⌋₊

/-- The cycle time as given, or that of all slots with their guards. -/
def cycleOf (bus : Bus α) : ℕ :=
  if bus.cycleTime ≠ 0 then bus.cycleTime.toNat
  else bus.slots.nChannels.toNat * (bus.slotTime.toNat + bus.guardTime.toNat)

/-- The effective bandwidth of a channel, whether or not the code has computed it yet. -/
def effectiveBW (platform : Platform) (bus : Bus α) : ℕ :=
  ⌊(payloadOf bus : ℚ) / (cycleOf bus * platform.resolution)⌋₊

/-- So many slots are allocated, and their bandwidth is the answer. -/
def Met [DecidableEq α] (platform : Platform) (bus : Bus α) (src : α) (requiredBps k : UInt32)
    (channelBandwidth : ℕ) : Prop :=
  ∃ slots bps, allocateChannels bus.slots src k = .accepted slots ∧
    allocateBW platform bus src requiredBps = .allocated { bus with slots } bps ∧
    bps.toNat = k.toNat * channelBandwidth

/-- The automatic search finds so many slots. -/
def Granted [DecidableEq α] (bus : Bus α) (src : α) (k : UInt32) : Prop :=
  ∃ slots, allocateChannels bus.slots src k = .accepted slots

/-! ### Least numbers of slots -/

section Least

variable {bandwidth required k : ℕ}

theorem bandwidth_pos (some : 1 ≤ required) (enough : required ≤ k * bandwidth) :
    0 < bandwidth := by
  apply Nat.pos_of_ne_zero
  rintro rfl
  omega

/-- Where the bandwidth does not divide the request one slot more than the quotient is needed. -/
theorem least_of_not_dvd (pos : 0 < bandwidth) (rest : ¬ bandwidth ∣ required) :
    IsLeast {n | required ≤ n * bandwidth} (required / bandwidth + 1) := by
  constructor
  · show required ≤ (required / bandwidth + 1) * bandwidth
    rw [Nat.mul_comm]
    exact (Nat.lt_mul_div_succ required pos).le
  · intro n enough
    have strict : required < n * bandwidth := by
      apply lt_of_le_of_ne enough
      rintro rfl
      exact rest (Nat.dvd_mul_left _ _)
    exact Nat.div_lt_of_lt_mul (by rwa [Nat.mul_comm])

/-- Where it does, the quotient is enough. -/
theorem least_of_dvd (whole : bandwidth ∣ required) :
    IsLeast {n | required ≤ n * bandwidth} (required / bandwidth) := by
  constructor
  · exact (Nat.div_mul_cancel whole).ge
  · intro n enough
    exact Nat.div_le_of_le_mul (by rwa [Nat.mul_comm])

theorem least_eq_succ_iff (pos : 0 < bandwidth)
    (least : IsLeast {n | required ≤ n * bandwidth} k) :
    k = required / bandwidth + 1 ↔ ¬ bandwidth ∣ required := by
  constructor
  · intro successor whole
    have quotient := least.unique (least_of_dvd whole)
    omega
  · intro rest
    exact least.unique (least_of_not_dvd pos rest)

end Least

/-! ### Requests -/

section Requests

variable {platform : Platform} {bus : Bus α} {src : α} {requiredBps k : UInt32}

theorem requiredSlots_eq (completed : bus.channelEBW ≠ 0) :
    requiredSlots platform bus.channelEBW requiredBps =
      UInt32.ofNat (requiredBps.toNat / bus.channelEBW.toNat) + 1 := by
  have digits : requiredBps.toNat < 2 ^ 53 := requiredBps.toNat_lt.trans (by norm_num)
  have floor : ⌊rounded ((requiredBps.toNat : ℚ) / bus.channelEBW.toNat)⌋₊ =
      requiredBps.toNat / bus.channelEBW.toNat := floor_rounded_div digits _
  have fits : requiredBps.toNat / bus.channelEBW.toNat < 2 ^ 32 :=
    (Nat.div_le_self _ _).trans_lt requiredBps.toNat_lt
  have positive : (bus.channelEBW.toNat : ℚ) ≠ 0 := by
    have some := one_le_toNat_iff.mpr completed
    exact_mod_cast Nat.one_le_iff_ne_zero.mp some
  have exact := counter_of_lt platform (floor ▸ fits)
  rw [requiredSlots, quotient, if_neg positive]
  congr 1
  apply UInt32.toNat_inj.mp
  rw [exact, floor, UInt32.toNat_ofNat', Nat.mod_eq_of_lt fits]

/-- The counter of the slots does not wrap around to a positive number. -/
theorem toNat_slots {quotient : ℕ} (counted : UInt32.ofNat quotient + 1 = k)
    (positive : k.toNat ≠ 0) : k.toNat = quotient % 2 ^ 32 + 1 := by
  rw [← counted, UInt32.toNat_add, UInt32.toNat_ofNat', UInt32.toNat_one] at positive ⊢
  omega

variable [DecidableEq α]

/-- Two accepted requests of a source that leave the same tables are of the same size. -/
theorem allocateChannels_injective {k' : UInt32} {slots : TdmaBus α}
    (h : allocateChannels bus.slots src k = .accepted slots)
    (h' : allocateChannels bus.slots src k' = .accepted slots) : k = k' := by
  obtain ⟨result, -, rfl⟩ := allocateChannels_accepted h
  obtain ⟨result', -, same⟩ := allocateChannels_accepted h'
  have entry : (bus.slots.channelAllocationTable.insert src k).lookup src =
      (bus.slots.channelAllocationTable.insert src k').lookup src :=
    congrArg (fun slots => slots.channelAllocationTable.lookup src) same
  rw [AList.lookup_insert, AList.lookup_insert] at entry
  exact Option.some.inj entry

theorem allocateBW_allocated {slots : TdmaBus α} {bps : UInt32}
    (h : allocateBW platform bus src requiredBps = .allocated { bus with slots } bps) :
    allocateChannels bus.slots src (requiredSlots platform bus.channelEBW requiredBps) =
        .accepted slots ∧
      bps = requiredSlots platform bus.channelEBW requiredBps * bus.channelEBW := by
  rw [allocateBW] at h
  cases outcome : allocateChannels bus.slots src
      (requiredSlots platform bus.channelEBW requiredBps) with
  | accepted table =>
    rw [outcome] at h
    injection h with same returned
    obtain rfl : table = slots := congrArg Bus.slots same
    exact ⟨rfl, returned.symm⟩
  | rejected r table =>
    rw [outcome] at h
    cases h
  | undefined =>
    rw [outcome] at h
    cases h

theorem allocateBW_of_granted {slots : TdmaBus α}
    (required : requiredSlots platform bus.channelEBW requiredBps = k)
    (granted : allocateChannels bus.slots src k = .accepted slots) :
    allocateBW platform bus src requiredBps =
      .allocated { bus with slots } (k * bus.channelEBW) := by
  rw [allocateBW, required, granted]

/-- A product that wraps around to a multiple of the same number of slots does not do so after the
request has been rounded up. -/
theorem product_eq {quotient ebw channelBandwidth : ℕ} (small : ebw < 2 ^ 32)
    (within : quotient * ebw ≤ (quotient + 1) * channelBandwidth)
    (wrapped : (quotient + 1) * ebw % 2 ^ 32 = (quotient + 1) * channelBandwidth)
    (bounded : quotient * ebw < 2 ^ 32) : ebw = channelBandwidth := by
  rw [Nat.add_mul, Nat.one_mul] at wrapped
  have exact : quotient * ebw + ebw = (quotient + 1) * channelBandwidth := by omega
  apply Nat.eq_of_mul_eq_mul_left (Nat.succ_pos quotient)
  rw [← exact, Nat.succ_mul]

section Conditions

variable {channelBandwidth : ℕ}
  (least : IsLeast {n | requiredBps.toNat ≤ n * channelBandwidth} k.toNat)

include least

/-- What is allocated for an answer with the least number of slots. -/
theorem required_of_met (some : 1 ≤ requiredBps.toNat)
    (met : Met platform bus src requiredBps k channelBandwidth) :
    k.toNat = requiredBps.toNat / bus.channelEBW.toNat + 1 ∧
      k.toNat * bus.channelEBW.toNat % 2 ^ 32 = k.toNat * channelBandwidth ∧ Granted bus src k := by
  obtain ⟨slots, bps, granted, answer, returned⟩ := met
  obtain ⟨allocated, rfl⟩ := allocateBW_allocated answer
  have requested := allocateChannels_injective granted allocated
  rw [← requested, UInt32.toNat_mul] at returned
  have enough : requiredBps.toNat ≤ k.toNat * channelBandwidth := least.1
  have positive : k.toNat ≠ 0 := by
    intro zero
    rw [zero, Nat.zero_mul] at enough
    omega
  -- before the completion the answer is zero
  have completed : bus.channelEBW ≠ 0 := by
    intro zero
    rw [zero, UInt32.toNat_zero, Nat.mul_zero, Nat.zero_mod] at returned
    omega
  rw [requiredSlots_eq completed] at requested
  have successor := toNat_slots requested.symm positive
  rw [Nat.mod_eq_of_lt ((Nat.div_le_self _ _).trans_lt requiredBps.toNat_lt)] at successor
  exact ⟨successor, returned, slots, granted⟩

theorem conditions_of_met (some : 1 ≤ requiredBps.toNat)
    (met : Met platform bus src requiredBps k channelBandwidth) :
    bus.channelEBW.toNat = channelBandwidth ∧ ¬ channelBandwidth ∣ requiredBps.toNat ∧
      k.toNat * channelBandwidth < 2 ^ 32 ∧ Granted bus src k := by
  obtain ⟨successor, returned, granted⟩ := required_of_met least some met
  have quotient := Nat.div_mul_le_self requiredBps.toNat bus.channelEBW.toNat
  have same : bus.channelEBW.toNat = channelBandwidth := by
    apply product_eq bus.channelEBW.toNat_lt (quotient.trans _) _
      (quotient.trans_lt requiredBps.toNat_lt)
    · rw [← successor]
      exact least.1
    · rw [← successor]
      exact returned
  refine ⟨same, ?_, ?_, granted⟩
  · rw [← least_eq_succ_iff (bandwidth_pos some least.1) least, successor, same]
  · rw [← returned]
    exact Nat.mod_lt _ (by omega)

theorem met_of_conditions (some : 1 ≤ requiredBps.toNat)
    (same : bus.channelEBW.toNat = channelBandwidth) (rest : ¬ channelBandwidth ∣ requiredBps.toNat)
    (fits : k.toNat * channelBandwidth < 2 ^ 32) (granted : Granted bus src k) :
    Met platform bus src requiredBps k channelBandwidth := by
  have pos := bandwidth_pos some least.1
  obtain ⟨slots, granted⟩ := granted
  have completed : bus.channelEBW ≠ 0 := by
    intro zero
    rw [zero, UInt32.toNat_zero] at same
    omega
  have successor := (least_eq_succ_iff pos least).mpr rest
  have requested : requiredSlots platform bus.channelEBW requiredBps = k := by
    rw [requiredSlots_eq completed, same]
    apply UInt32.toNat_inj.mp
    have bound := k.toNat_lt
    rw [UInt32.toNat_add, UInt32.toNat_ofNat', UInt32.toNat_one, successor]
    omega
  refine ⟨slots, k * bus.channelEBW, granted, allocateBW_of_granted requested granted, ?_⟩
  rw [UInt32.toNat_mul, same, Nat.mod_eq_of_lt fits]

end Conditions

end Requests

/-! ### The order of requests and completion -/

section Order

variable {platform : Platform} {bus bus' : Bus α}

/-- The bandwidth of a channel that the requests read is the effective one. -/
def InForce (platform : Platform) (bus : Bus α) : Prop :=
  bus.channelEBW.toNat = effectiveBW platform bus

/-- The values of the configuration fit their types, and the roundings of the seconds and of the
quotient do not carry the bandwidth over a whole number. -/
structure Exact (platform : Platform) (bus : Bus α) : Prop where
  payload : bus.chPayloadBits ≠ 0 ∨ ⌊payloadProduct bus⌋₊ < 2 ^ 32
  slots : bus.slots.nChannels.toNat * (bus.slotTime.toNat + bus.guardTime.toNat) < 2 ^ 64
  bandwidth : effectiveBW platform bus < 2 ^ 32
  truncated : ⌊rounded ((payloadOf bus : ℚ) / platform.toSeconds (cycleOf bus))⌋₊ =
    effectiveBW platform bus

theorem payloadOf_complete {bits : UInt32} (payload : completePayload platform bus = .ok bits)
    (fits : bits ≠ 0 ∨ ⌊payloadProduct bus⌋₊ < 2 ^ 32) :
    payloadOf (complete platform bus bits) = bits.toNat := by
  by_cases zero : bits = 0
  · have derived : payloadOf (complete platform bus bits) = ⌊payloadProduct bus⌋₊ :=
      if_neg (not_not.mpr zero)
    rcases completePayload_ok payload with ⟨given, same, -⟩ | ⟨-, rfl⟩
    · exact absurd (same.symm.trans zero) given
    · rw [derived, counter_of_lt platform (fits.resolve_left (not_not.mpr zero))]
  · exact if_pos zero

theorem effectiveBW_congr (platform : Platform) {slots : TdmaBus α}
    (same : slots.nChannels = bus.slots.nChannels) :
    effectiveBW platform { bus with slots } = effectiveBW platform bus := by
  rw [effectiveBW, effectiveBW, cycleOf, cycleOf, same]
  rfl

variable [LinearOrder α]

/-- The completion computes the effective bandwidth. -/
theorem inForce_of_completed (h : beforeEndOfElaboration platform bus = .ok bus')
    (fits : Exact platform bus') (pos : 0 < effectiveBW platform bus') :
    InForce platform bus' := by
  obtain ⟨bits, rfl, mandatory, payload, checked⟩ := beforeEndOfElaboration_ok h
  obtain ⟨channels, slot⟩ := checkMandatory_ok mandatory
  have positive : 0 < (complete platform bus bits).cycleTime.toNat :=
    cycle_pos channels slot fits.slots checked
  have cycle : cycleOf (complete platform bus bits) = (completeCycleTime platform bus).toNat := by
    apply if_pos
    intro zero
    rw [zero, UInt64.toNat_zero] at positive
    omega
  have truncated := fits.truncated
  rw [payloadOf_complete payload fits.payload, cycle] at truncated
  have seconds : platform.toSeconds (completeCycleTime platform bus).toNat ≠ 0 := by
    intro zero
    rw [zero, div_zero, rounded_zero, Nat.floor_zero] at truncated
    omega
  have counted : (complete platform bus bits).channelEBW = platform.counter (some (rounded
      ((bits.toNat : ℚ) / platform.toSeconds (completeCycleTime platform bus).toNat))) :=
    congrArg platform.counter (if_neg seconds)
  rw [InForce, counted, counter_of_lt platform (truncated ▸ fits.bandwidth), truncated]

/-- The states of the elaboration: configured, completed or not, with allocations at any time. -/
inductive Reached (platform : Platform) : Bool → Bus α → Prop
  | configured {steps : List (Step α)} {bus : Bus α} (h : configure steps = some bus) :
      Reached platform false bus
  | completed {bus bus' : Bus α} (reached : Reached platform false bus)
      (h : beforeEndOfElaboration platform bus = .ok bus') : Reached platform true bus'
  | allocated {done : Bool} {bus : Bus α} {c : Call α} {slots : TdmaBus α}
      (reached : Reached platform done bus) (h : (call bus.slots c).bus? = some slots) :
      Reached platform done { bus with slots }

theorem Reached.inForce (reached : Reached platform true bus) (fits : Exact platform bus)
    (pos : 0 < effectiveBW platform bus) : InForce platform bus := by
  generalize flag : true = done at reached
  induction reached with
  | configured h => cases flag
  | completed reached h => exact inForce_of_completed h fits pos
  | allocated reached h ih =>
    have same := call_nChannels h
    have effective := effectiveBW_congr platform same
    rw [InForce, effective]
    rw [effective] at pos
    refine ih ⟨fits.payload, ?_, ?_, ?_⟩ pos flag
    · rw [← same]
      exact fits.slots
    · rw [← effective]
      exact fits.bandwidth
    · rw [← effective, ← fits.truncated, cycleOf, cycleOf, same]
      rfl

theorem Reached.unfinished (reached : Reached platform false bus) : Unfinished bus := by
  generalize flag : false = done at reached
  induction reached with
  | configured h => exact unfinished_of_configure h
  | completed reached h => cases flag
  | allocated reached h ih => exact ⟨(ih flag).double, (ih flag).rate, (ih flag).bandwidth⟩

/-- The bandwidth is in force from the completion on and not before. -/
theorem inForce_iff {done : Bool} (reached : Reached platform done bus)
    (fits : Exact platform bus) (pos : 0 < effectiveBW platform bus) :
    InForce platform bus ↔ done = true := by
  cases done with
  | true => exact iff_of_true (reached.inForce fits pos) rfl
  | false =>
    apply iff_of_false
    · intro same
      rw [InForce, reached.unfinished.bandwidth, UInt32.toNat_zero] at same
      omega
    · simp

end Order

/-- Two slots of eight bits and a millisecond after the completion, the first of them allocated. -/
def eightBits : Bus ℕ := complete picoseconds (twoSlotsBus [.channelPayloadBits 8]) 8

theorem eightBits_channelEBW : eightBits.channelEBW = 4000 := by decide +kernel

theorem eightBits_bandwidth : effectiveBW picoseconds eightBits = 4000 := by decide +kernel

theorem one_least {required : ℕ} (some : 1 ≤ required) (enough : required ≤ 4000) :
    IsLeast {n | required ≤ n * 4000} 1 := by
  constructor
  · show required ≤ 1 * 4000
    omega
  · intro n sum
    have product : required ≤ n * 4000 := sum
    omega

end Kista.Tdma.BandwidthRequests
