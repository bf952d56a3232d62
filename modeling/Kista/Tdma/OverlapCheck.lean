/- Kista/Tdma/OverlapCheck
   source: src/src/comm_res/buses/tdma_bus.cpp, tdma_bus.hpp
   digest: The check of the slot allocation over all pairs of sources, the overlaps it does not
   see, and exactly when its answer is the right one. -/

import Mathlib.Data.List.Sort
import Kista.Tdma.SlotAllocation

set_option autoImplicit false
set_option relaxedAutoImplicit false

/-!
The tables are maps over addresses. `AList` keeps the entries in no particular order, and a
traversal visits them by address.
-/

namespace Kista.Tdma.OverlapCheck

open SlotAllocation

variable {α : Type} [LinearOrder α]

abbrev Table (α : Type) := AList fun _ : α => UInt32

def traversal (table : Table α) : List (α × UInt32) :=
  (table.entries.map fun entry => (entry.1, entry.2)).insertionSort fun x y => x.1 ≤ y.1

/-- What the check complains about; the flag selects the advice at the end of the message. -/
inductive CheckReport (α : Type) where
  | differentSizes (firstSlots allocatedSlots : ℕ)
  | emptyAllocation
  | notFound (manual : Bool) (source : α) (firstSlot : UInt32)
  | overlap (manual : Bool) (source₁ : α) (first₁ last₁ : UInt32)
      (source₂ : α) (first₂ last₂ : UInt32)
  deriving DecidableEq

/-- The test of one pair in unsigned arithmetic. -/
def overlapping (fs₁ nSlots₁ fs₂ nSlots₂ : UInt32) : Prop :=
  (fs₁ < fs₂ ∧ fs₂ ≤ fs₁ + nSlots₁ - 1) ∨ (fs₂ < fs₁ ∧ fs₁ ≤ fs₂ + nSlots₂ - 1)

instance (fs₁ nSlots₁ fs₂ nSlots₂ : UInt32) : Decidable (overlapping fs₁ nSlots₁ fs₂ nSlots₂) :=
  inferInstanceAs (Decidable (_ ∨ _))

/-- The body of the inner loop. -/
def checkPair (bus : TdmaBus α) (it₁ it₂ : α × UInt32) : Except (CheckReport α) Unit :=
  match bus.channelAllocationTable.lookup it₁.1, bus.channelAllocationTable.lookup it₂.1 with
  | none, _ => .error (.notFound bus.manualSlotAllocation it₁.1 it₁.2)
  | _, none => .error (.notFound bus.manualSlotAllocation it₂.1 it₂.2)
  | some nSlots₁, some nSlots₂ =>
    if overlapping it₁.2 nSlots₁ it₂.2 nSlots₂ then
      .error (.overlap bus.manualSlotAllocation it₁.1 it₁.2 (it₁.2 + nSlots₁ - 1)
        it₂.1 it₂.2 (it₂.2 + nSlots₂ - 1))
    else .ok ()

/-- The inner loop, from the second iterator to the end of the table. -/
def checkAgainst (bus : TdmaBus α) (it₁ : α × UInt32) :
    List (α × UInt32) → Except (CheckReport α) Unit
  | [] => .ok ()
  | it₂ :: rest =>
    match checkPair bus it₁ it₂ with
    | .error report => .error report
    | .ok _ => checkAgainst bus it₁ rest

/-- The outer loop, which ends when nothing follows the first iterator. -/
def checkFrom (bus : TdmaBus α) : List (α × UInt32) → Except (CheckReport α) Unit
  | [] => .ok ()
  | it₁ :: rest =>
    match checkAgainst bus it₁ rest with
    | .error report => .error report
    | .ok _ => checkFrom bus rest

def checkSlotAllocation (bus : TdmaBus α) : Except (CheckReport α) Bool :=
  let firstSlots := traversal bus.firstSlotAllocationTable
  if firstSlots.length ≠ bus.channelAllocationTable.entries.length then
    .error (.differentSizes firstSlots.length bus.channelAllocationTable.entries.length)
  else match firstSlots with
    | [] => .error .emptyAllocation
    | [_] => .ok true
    | entries => (checkFrom bus entries).map fun _ => true

/-- The tables have the same sources, at least one, and each has a slot. -/
structure Configured (bus : TdmaBus α) : Prop where
  nonempty : bus.firstSlotAllocationTable.entries ≠ []
  same : ∀ a, a ∈ bus.firstSlotAllocationTable ↔ a ∈ bus.channelAllocationTable
  counts : ∀ a n, bus.channelAllocationTable.lookup a = some n → 1 ≤ n.toNat

def DisjointSlots (bus : TdmaBus α) : Prop :=
  ∀ p q, p ≠ q → Disjoint (bus.slots p) (bus.slots q)

/-- The first slot and the number of slots of a source. -/
def TdmaBus.allocation (bus : TdmaBus α) (p : α) : Option (UInt32 × UInt32) :=
  match bus.firstSlotAllocationTable.lookup p, bus.channelAllocationTable.lookup p with
  | some first, some count => some (first, count)
  | _, _ => none

/-- The second allocation begins behind the first slot of the first one and inside of it. -/
def BeginsInside (x y : UInt32 × UInt32) : Prop :=
  x.1 < y.1 ∧ y.1.toNat < x.1.toNat + x.2.toNat ∧ x.1.toNat + x.2.toNat ≤ 2 ^ 32

/-- Both allocations begin at one slot, or the first one goes beyond the range of the counter. -/
def Hidden (x y : UInt32 × UInt32) : Prop :=
  x.1 = y.1 ∨ (x.1 < y.1 ∧ 2 ^ 32 < x.1.toNat + x.2.toNat)

/-- Two distinct sources whose allocations are so related. -/
def SomePair (related : UInt32 × UInt32 → UInt32 × UInt32 → Prop) (bus : TdmaBus α) : Prop :=
  ∃ p q, p ≠ q ∧ ∃ x y, TdmaBus.allocation bus p = some x ∧ TdmaBus.allocation bus q = some y ∧
    related x y

/-! ### One pair -/

theorem overlapping_iff {x y : UInt32 × UInt32} (hx : 1 ≤ x.2.toNat) (hy : 1 ≤ y.2.toNat) :
    overlapping x.1 x.2 y.1 y.2 ↔ BeginsInside x y ∨ BeginsInside y x := by
  have half : ∀ x y : UInt32 × UInt32, 1 ≤ x.2.toNat →
      ((x.1 < y.1 ∧ y.1 ≤ x.1 + x.2 - 1) ↔ BeginsInside x y) := by
    intro x y some
    have first := x.1.toNat_lt
    have count := x.2.toNat_lt
    have other := y.1.toNat_lt
    simp only [BeginsInside, UInt32.lt_iff_toNat_lt, UInt32.le_iff_toNat_le, UInt32.toNat_sub,
      UInt32.toNat_add, UInt32.toNat_one]
    omega
  exact or_congr (half x y hx) (half y x hy)

theorem slots_eq {bus : TdmaBus α} {p : α} {x : UInt32 × UInt32}
    (allocated : TdmaBus.allocation bus p = some x) :
    bus.slots p = Finset.Ico x.1.toNat (x.1.toNat + x.2.toNat) := by
  unfold TdmaBus.allocation at allocated
  split at allocated
  next first count hf hc =>
    cases allocated
    simp only [TdmaBus.slots, hf, hc]
  next => cases allocated

theorem slots_eq_empty {bus : TdmaBus α} {p : α} (none : TdmaBus.allocation bus p = none) :
    bus.slots p = ∅ := by
  unfold TdmaBus.allocation at none
  split at none
  next => cases none
  next missing =>
    unfold TdmaBus.slots
    split
    next first count hf hc => exact absurd hc (missing first count hf)
    next => rfl

/-- Two allocations overlap in a way that the test sees or in a way that it does not. -/
theorem not_disjoint_iff {x y : UInt32 × UInt32} (hx : 1 ≤ x.2.toNat) (hy : 1 ≤ y.2.toNat) :
    ¬ Disjoint (Finset.Ico x.1.toNat (x.1.toNat + x.2.toNat))
        (Finset.Ico y.1.toNat (y.1.toNat + y.2.toNat)) ↔
      (BeginsInside x y ∨ BeginsInside y x) ∨ Hidden x y ∨ Hidden y x := by
  have firstX := x.1.toNat_lt
  have firstY := y.1.toNat_lt
  have common : ¬ Disjoint (Finset.Ico x.1.toNat (x.1.toNat + x.2.toNat))
        (Finset.Ico y.1.toNat (y.1.toNat + y.2.toNat)) ↔
      x.1.toNat < y.1.toNat + y.2.toNat ∧ y.1.toNat < x.1.toNat + x.2.toNat := by
    rw [Finset.not_disjoint_iff]
    simp only [Finset.mem_Ico]
    constructor
    · rintro ⟨a, hax, hay⟩
      omega
    · intro ends
      exact ⟨max x.1.toNat y.1.toNat, by omega, by omega⟩
  rw [common]
  simp only [BeginsInside, Hidden, UInt32.lt_iff_toNat_lt, ← UInt32.toNat_inj]
  omega

/-! ### The loops -/

theorem checkAgainst_ok {bus : TdmaBus α} {it₁ : α × UInt32} {rest : List (α × UInt32)} :
    checkAgainst bus it₁ rest = .ok () ↔ ∀ it₂ ∈ rest, checkPair bus it₁ it₂ = .ok () := by
  induction rest with
  | nil => exact iff_of_true rfl (by simp)
  | cons it₂ rest ih =>
    rw [checkAgainst, List.forall_mem_cons, ← ih]
    cases checkPair bus it₁ it₂ with
    | error report => exact iff_of_false nofun (fun both => nomatch both.1)
    | ok _ => exact (and_iff_right rfl).symm

theorem checkFrom_ok {bus : TdmaBus α} {entries : List (α × UInt32)} :
    checkFrom bus entries = .ok () ↔
      entries.Pairwise fun it₁ it₂ => checkPair bus it₁ it₂ = .ok () := by
  induction entries with
  | nil => exact iff_of_true rfl .nil
  | cons it₁ rest ih =>
    rw [checkFrom, List.pairwise_cons, ← ih, ← checkAgainst_ok]
    cases checkAgainst bus it₁ rest with
    | error report => exact iff_of_false nofun (fun both => nomatch both.1)
    | ok _ => exact (and_iff_right rfl).symm

section Traversal

variable {table : Table α}

theorem traversal_perm :
    (traversal table).Perm (table.entries.map fun entry => (entry.1, entry.2)) :=
  List.perm_insertionSort _ _

theorem mem_traversal {p : α} {first : UInt32} :
    (p, first) ∈ traversal table ↔ table.lookup p = some first := by
  rw [traversal_perm.mem_iff, List.mem_map, ← Option.mem_def, AList.mem_lookup_iff]
  constructor
  · rintro ⟨⟨p', first'⟩, listed, same⟩
    cases same
    exact listed
  · intro listed
    exact ⟨⟨p, first⟩, listed, rfl⟩

theorem traversal_nodup : (traversal table).Nodup := by
  apply List.Nodup.of_map Prod.fst
  rw [(traversal_perm.map Prod.fst).nodup_iff, List.map_map]
  exact table.keys_nodup

theorem traversal_length (table : Table α) :
    (traversal table).length = table.entries.length := by
  rw [traversal_perm.length_eq, List.length_map]

end Traversal

section Sources

variable {bus : TdmaBus α}

theorem checkPair_symm (it₁ it₂ : α × UInt32) (fine : checkPair bus it₁ it₂ = .ok ()) :
    checkPair bus it₂ it₁ = .ok () := by
  unfold checkPair at fine ⊢
  split at fine
  next => cases fine
  next => cases fine
  next nSlots₁ nSlots₂ h₁ h₂ =>
    rw [h₁, h₂]
    by_cases seen : overlapping it₁.2 nSlots₁ it₂.2 nSlots₂
    · rw [if_pos seen] at fine
      cases fine
    · exact if_neg fun swapped => seen (Or.symm swapped)

theorem checkFrom_traversal_ok :
    checkFrom bus (traversal bus.firstSlotAllocationTable) = .ok () ↔
      ∀ p q, p ≠ q → ∀ f g, bus.firstSlotAllocationTable.lookup p = some f →
        bus.firstSlotAllocationTable.lookup q = some g →
        checkPair bus (p, f) (q, g) = .ok () := by
  rw [checkFrom_ok]
  constructor
  · intro pairs p q distinct f g hf hg
    have symm : Std.Symm fun it₁ it₂ => checkPair bus it₁ it₂ = .ok () := ⟨checkPair_symm⟩
    exact pairs.forall (mem_traversal.mpr hf)
      (mem_traversal.mpr hg) fun same => distinct (congrArg Prod.fst same)
  · intro fine
    apply traversal_nodup.pairwise_of_forall_ne
    rintro ⟨p, f⟩ hf ⟨q, g⟩ hg distinct
    have hf := mem_traversal.mp hf
    have hg := mem_traversal.mp hg
    refine fine p q (fun same => distinct ?_) f g hf hg
    subst same
    rw [hf] at hg
    cases hg
    rfl

theorem allocation_eq_some {p : α} {x : UInt32 × UInt32} :
    TdmaBus.allocation bus p = some x ↔
      bus.firstSlotAllocationTable.lookup p = some x.1 ∧
        bus.channelAllocationTable.lookup p = some x.2 := by
  unfold TdmaBus.allocation
  split
  next first count hf hc => simp [hf, hc, Prod.ext_iff]
  next none =>
    refine iff_of_false nofun ?_
    rintro ⟨hf, hc⟩
    exact none _ _ hf hc

/-- A source with a first slot has a number of slots. -/
theorem Configured.allocation (configured : Configured bus) {p : α} {first : UInt32}
    (listed : bus.firstSlotAllocationTable.lookup p = some first) :
    ∃ count, TdmaBus.allocation bus p = some (first, count) ∧ 1 ≤ count.toNat := by
  have mem : p ∈ bus.channelAllocationTable := by
    rw [← configured.same, ← AList.lookup_isSome, listed]
    rfl
  obtain ⟨count, counted⟩ := Option.isSome_iff_exists.mp (AList.lookup_isSome.mpr mem)
  exact ⟨count, allocation_eq_some.mpr ⟨listed, counted⟩, configured.counts p count counted⟩

theorem Configured.some_slot (configured : Configured bus) {p : α} {x : UInt32 × UInt32}
    (allocated : TdmaBus.allocation bus p = some x) : 1 ≤ x.2.toNat :=
  configured.counts p x.2 (allocation_eq_some.mp allocated).2

theorem checkPair_ok (configured : Configured bus) {p q : α} {x y : UInt32 × UInt32}
    (hx : TdmaBus.allocation bus p = some x) (hy : TdmaBus.allocation bus q = some y) :
    checkPair bus (p, x.1) (q, y.1) = .ok () ↔ ¬ (BeginsInside x y ∨ BeginsInside y x) := by
  rw [← overlapping_iff (configured.some_slot hx) (configured.some_slot hy), checkPair,
    (allocation_eq_some.mp hx).2, (allocation_eq_some.mp hy).2]
  by_cases seen : overlapping x.1 x.2 y.1 y.2
  · exact iff_of_false (by simp [seen]) (not_not.mpr seen)
  · exact iff_of_true (by simp [seen]) seen

theorem Configured.length_eq (configured : Configured bus) :
    (traversal bus.firstSlotAllocationTable).length =
      bus.channelAllocationTable.entries.length := by
  have perm : bus.firstSlotAllocationTable.keys.Perm bus.channelAllocationTable.keys :=
    (List.perm_ext_iff_of_nodup bus.firstSlotAllocationTable.keys_nodup
      bus.channelAllocationTable.keys_nodup).mpr configured.same
  have lengths := perm.length_eq
  rw [traversal_length]
  simpa [AList.keys, List.keys] using lengths

/-- The check passes exactly when no allocation begins inside of another one. -/
theorem checkSlotAllocation_ok (configured : Configured bus) :
    checkSlotAllocation bus = .ok true ↔ ¬ SomePair BeginsInside bus := by
  have loops : checkSlotAllocation bus =
      (checkFrom bus (traversal bus.firstSlotAllocationTable)).map fun _ => true := by
    rw [checkSlotAllocation, if_neg (not_not.mpr configured.length_eq)]
    split
    next empty =>
      have length := traversal_length bus.firstSlotAllocationTable
      rw [empty] at length
      exact absurd (List.length_eq_zero_iff.mp length.symm) configured.nonempty
    next single => rw [single]; rfl
    next => rfl
  have passed : checkSlotAllocation bus = .ok true ↔
      checkFrom bus (traversal bus.firstSlotAllocationTable) = .ok () := by
    rw [loops]
    cases checkFrom bus (traversal bus.firstSlotAllocationTable) with
    | error report => exact iff_of_false nofun nofun
    | ok _ => exact iff_of_true rfl rfl
  rw [passed, checkFrom_traversal_ok]
  constructor
  · rintro fine ⟨p, q, distinct, x, y, hx, hy, inside⟩
    have pair := fine p q distinct x.1 y.1 (allocation_eq_some.mp hx).1
      (allocation_eq_some.mp hy).1
    exact (checkPair_ok configured hx hy).mp pair (Or.inl inside)
  · intro none p q distinct f g hf hg
    obtain ⟨m, hx, -⟩ := configured.allocation hf
    obtain ⟨n, hy, -⟩ := configured.allocation hg
    refine (checkPair_ok configured hx hy).mpr ?_
    rintro (inside | inside)
    · exact none ⟨p, q, distinct, _, _, hx, hy, inside⟩
    · exact none ⟨q, p, distinct.symm, _, _, hy, hx, inside⟩

theorem disjointSlots_iff (configured : Configured bus) :
    DisjointSlots bus ↔ ¬ SomePair BeginsInside bus ∧ ¬ SomePair Hidden bus := by
  constructor
  · intro apart
    have conflict : ∀ {p q x y}, p ≠ q → TdmaBus.allocation bus p = some x →
        TdmaBus.allocation bus q = some y → ¬ (BeginsInside x y ∨ Hidden x y) := by
      intro p q x y distinct hx hy related
      have disjoint := apart p q distinct
      rw [slots_eq hx, slots_eq hy] at disjoint
      refine (not_disjoint_iff (configured.some_slot hx) (configured.some_slot hy)).mpr ?_ disjoint
      exact related.imp Or.inl Or.inl
    constructor
    · rintro ⟨p, q, distinct, x, y, hx, hy, inside⟩
      exact conflict distinct hx hy (Or.inl inside)
    · rintro ⟨p, q, distinct, x, y, hx, hy, hidden⟩
      exact conflict distinct hx hy (Or.inr hidden)
  · rintro ⟨seen, unseen⟩ p q distinct
    cases hx : TdmaBus.allocation bus p with
    | none =>
      rw [slots_eq_empty hx]
      exact Finset.disjoint_empty_left _
    | some x =>
      cases hy : TdmaBus.allocation bus q with
      | none =>
        rw [slots_eq_empty hy]
        exact Finset.disjoint_empty_right _
      | some y =>
        rw [slots_eq hx, slots_eq hy]
        by_contra overlap
        rcases (not_disjoint_iff (configured.some_slot hx) (configured.some_slot hy)).mp overlap
          with (inside | inside) | hidden | hidden
        · exact seen ⟨p, q, distinct, x, y, hx, hy, inside⟩
        · exact seen ⟨q, p, distinct.symm, y, x, hy, hx, inside⟩
        · exact unseen ⟨p, q, distinct, x, y, hx, hy, hidden⟩
        · exact unseen ⟨q, p, distinct.symm, y, x, hy, hx, hidden⟩

/-- The check gives the right answer exactly when it sees some overlap or there is none that it
cannot see. -/
theorem check_decides_iff (configured : Configured bus) :
    (checkSlotAllocation bus = .ok true ↔ DisjointSlots bus) ↔
      SomePair BeginsInside bus ∨ ¬ SomePair Hidden bus := by
  rw [checkSlotAllocation_ok configured, disjointSlots_iff configured]
  tauto

end Sources

/-- Two sources with two slots each. -/
def twoSources (first₁ first₂ : UInt32) : TdmaBus Bool where
  nChannels := 4
  nAllocatedChannels := 4
  manualSlotAllocation := true
  freeSlotTable := []
  channelAllocationTable := (∅ : AList fun _ => UInt32).insert false 2 |>.insert true 2
  firstSlotAllocationTable := (∅ : AList fun _ => UInt32).insert false first₁ |>.insert true first₂

theorem twoSources_configured (first₁ first₂ : UInt32) : Configured (twoSources first₁ first₂) where
  nonempty := by simp [twoSources]
  same a := by
    rw [← AList.lookup_isSome, ← AList.lookup_isSome]
    cases a with
    | false => exact Iff.rfl
    | true => exact Iff.rfl
  counts := by
    have counts : ∀ a, (twoSources first₁ first₂).channelAllocationTable.lookup a = some 2 := by
      intro a
      cases a with
      | false => rfl
      | true => rfl
    intro a n h
    rw [counts] at h
    cases h
    decide

/-- Slots zero and one, and slots one and two. -/
theorem oneSharedSlot_decided :
    checkSlotAllocation (twoSources 0 1) = .ok true ↔ DisjointSlots (twoSources 0 1) :=
  (check_decides_iff (twoSources_configured 0 1)).mpr
    (Or.inl ⟨false, true, by decide, (0, 2), (1, 2), rfl, rfl, by decide, by decide, by decide⟩)

/-- Two sources on the same two slots pass the check. -/
theorem sameFirstSlot_accepted :
    Configured (twoSources 0 0) ∧ checkSlotAllocation (twoSources 0 0) = .ok true ∧
      ¬ DisjointSlots (twoSources 0 0) := by
  refine ⟨twoSources_configured 0 0, by decide +kernel, fun apart => ?_⟩
  have shared : (0 : ℕ) ∈ Finset.Ico 0 2 := by decide
  exact Finset.disjoint_left.mp (apart false true (by decide)) shared shared

end Kista.Tdma.OverlapCheck
