/- Kista/Tdma/SlotAccounting
   source: src/src/comm_res/buses/tdma_bus.cpp
   digest: The count of allocated channels is that of the table, and no slot is lost, along every
   run of accepted calls by sources without slots. -/

import Mathlib.Algebra.GroupWithZero.Nat
import Kista.Kernel.Run
import Kista.Tdma.FirstFit
import Kista.Tdma.ManualSearch

set_option autoImplicit false
set_option relaxedAutoImplicit false

namespace Kista.Tdma.SlotAccounting

open Kernel.Run SlotAllocation SlotSearch Kista.Containers.Ranges Kista.Containers.SkippingScan

variable {α : Type}

/-- The channels of all sources. -/
def allocatedChannels (table : AList fun _ : α => UInt32) : ℕ :=
  (table.entries.map fun entry => entry.2.toNat).sum

variable [DecidableEq α]

/-- A step of a run is an accepted call. -/
def accept (bus : TdmaBus α) (c : Call α) : Option (TdmaBus α) :=
  match call bus c with
  | .accepted bus' => some bus'
  | _ => none

/-- The account is that of the table, and a slot that is not free belongs to some source. -/
structure Accounted (bus : TdmaBus α) : Prop where
  count : bus.nAllocatedChannels.toNat = allocatedChannels bus.channelAllocationTable
  kept : ∀ x < bus.nChannels.toNat, x ∈ freeSlots bus.freeSlotTable ∨ ∃ p, x ∈ bus.slots p

/-- The source has no slots yet, and the sum of the check does not wrap around. -/
def Fresh (bus : TdmaBus α) (src : α) (required : UInt32) : Prop :=
  (bus.channelAllocationTable.lookup src).getD 0 = 0 ∧
    required.toNat + bus.nAllocatedChannels.toNat < 2 ^ 32

/-- A manual call asks for nothing above the first slot of a free range. -/
def Accountable (bus : TdmaBus α) : Call α → Prop
  | .automatic src required => Fresh bus src required
  | .manual src required first =>
    Fresh bus src required ∧ ∀ range ∈ bus.freeSlotTable, first ≤ range.1

instance (bus : TdmaBus α) (src : α) (required : UInt32) : Decidable (Fresh bus src required) :=
  inferInstanceAs (Decidable (_ ∧ _))

instance (bus : TdmaBus α) : (c : Call α) → Decidable (Accountable bus c)
  | .automatic src required => inferInstanceAs (Decidable (Fresh bus src required))
  | .manual src required first =>
    have := List.decidableBAll (fun range : SlotRange => first ≤ range.1) bus.freeSlotTable
    inferInstanceAs (Decidable (Fresh bus src required ∧ _))

/-- Every free range goes up to the last slot. -/
def UpToLast (bus : TdmaBus α) : Prop := ∀ range ∈ bus.freeSlotTable, range.2 = bus.nChannels - 1

/-! ### The account -/

theorem sum_kerase (src : α) (entries : List (Sigma fun _ : α => UInt32)) :
    ((entries.kerase src).map fun entry => entry.2.toNat).sum +
        ((entries.dlookup src).getD 0).toNat =
      (entries.map fun entry => entry.2.toNat).sum := by
  induction entries with
  | nil => rfl
  | cons entry entries ih =>
    obtain ⟨p, count⟩ := entry
    by_cases same : src = p
    · subst same
      simp [Nat.add_comm]
    · rw [List.kerase_cons_ne same, List.dlookup_cons_ne _ _ same]
      simp only [List.map_cons, List.sum_cons, ← ih]
      omega

/-- What a source had is overwritten. -/
theorem allocatedChannels_insert (table : AList fun _ : α => UInt32) (src : α) (count : UInt32) :
    allocatedChannels (table.insert src count) + ((table.lookup src).getD 0).toNat =
      allocatedChannels table + count.toNat := by
  have erased := sum_kerase src table.entries
  simp only [allocatedChannels, AList.entries_insert, List.map_cons, List.sum_cons,
    AList.lookup]
  omega

section Record

variable {bus : TdmaBus α} {src : α} {required first : UInt32} {table : List SlotRange}

theorem slots_eq_empty (none : (bus.channelAllocationTable.lookup src).getD 0 = 0) :
    bus.slots src = ∅ := by
  unfold TdmaBus.slots
  split
  next start count hf hc =>
    rw [hc] at none
    have none : count = 0 := none
    simp [none]
  next => rfl

/-- Recording keeps the account if whatever is not free any longer is recorded. -/
theorem Accounted.record (accounted : Accounted bus) (fresh : Fresh bus src required)
    (covers : ∀ x < bus.nChannels.toNat, x ∈ freeSlots bus.freeSlotTable →
      x ∈ freeSlots table ∨ x ∈ requested first required) :
    Accounted (record bus src required first table) := by
  obtain ⟨none, counted⟩ := fresh
  constructor
  · have sum := allocatedChannels_insert bus.channelAllocationTable src required
    rw [none, UInt32.toNat_zero, Nat.add_zero] at sum
    show (bus.nAllocatedChannels + required).toNat = _
    rw [UInt32.toNat_add, Nat.add_comm, Nat.mod_eq_of_lt counted, accounted.count]
    show _ = allocatedChannels (bus.channelAllocationTable.insert src required)
    omega
  · intro x inside
    rcases accounted.kept x inside with free | ⟨p, owned⟩
    · refine (covers x inside free).imp id fun taken => ⟨src, ?_⟩
      rw [slots_record_self]
      exact Finset.mem_Ico.mpr taken
    · have other : p ≠ src := by
        rintro rfl
        rw [slots_eq_empty none] at owned
        cases owned
      refine Or.inr ⟨p, ?_⟩
      rw [slots_record_of_ne bus required first table other]
      exact owned

end Record

/-! ### The searches -/

section Range

variable {range : SlotRange} {n required first : UInt32} {new : List SlotRange} {x : ℕ}

/-- The length of a range with one of the slots of the bus does not wrap around. -/
theorem size_of_mem (last : range.2 = n - 1) (inside : x < n.toNat)
    (mem : x ∈ elements (toRange range)) :
    range.size.toNat + range.1.toNat = range.2.toNat + 1 := by
  have lt := n.toNat_lt
  have nonempty : range.1.toNat ≤ range.2.toNat := mem.1.trans mem.2
  have size := size_toNat (UInt32.le_iff_toNat_le.mpr nonempty)
  have value : range.2.toNat = n.toNat - 1 := by
    rw [last]
    exact lastSlot_toNat (by omega)
  omega

theorem takeFirst_covers (last : range.2 = n - 1) (inside : x < n.toNat)
    (mem : x ∈ elements (toRange range)) (hit : takeFirst required range = some (first, new)) :
    x ∈ freeSlots new ∨ x ∈ requested first required := by
  have size := size_of_mem last inside mem
  have low : range.1.toNat ≤ x := mem.1
  have high : x ≤ range.2.toNat := mem.2
  rw [takeFirst] at hit
  split_ifs at hit with shorter same
  · cases hit
    have shorter := UInt32.lt_iff_toNat_lt.mp shorter
    by_cases taken : x < range.1.toNat + required.toNat
    · exact Or.inr ⟨low, taken⟩
    · rw [covered_rest (by omega)]
      exact Or.inl ⟨mem, fun below => taken below.2⟩
  · cases hit
    have same := UInt32.toNat_inj.mpr same
    refine Or.inr ⟨low, ?_⟩
    omega

/-- The slots and the first slot change places in a manual call. -/
theorem takeFrom_covers (last : range.2 = n - 1) (inside : x < n.toNat)
    (mem : x ∈ elements (toRange range)) (below : first ≤ range.1)
    (hit : takeFrom required first range = some ((), new)) :
    x ∈ freeSlots new ∨ x ∈ requested first required := by
  have size := size_of_mem last inside mem
  have low : range.1.toNat ≤ x := mem.1
  have high : x ≤ range.2.toNat := mem.2
  have below := UInt32.le_iff_toNat_le.mp below
  rw [takeFrom] at hit
  split_ifs at hit with shorter same
  · cases hit
    by_cases above : (required + first).toNat ≤ x
    · exact Or.inl ⟨_, List.mem_singleton_self _, above, high⟩
    · have sum : (required + first).toNat ≤ required.toNat + first.toNat := by
        rw [UInt32.toNat_add]
        exact Nat.mod_le _ _
      refine Or.inr ⟨below.trans low, ?_⟩
      omega
  · cases hit
    have start := UInt32.le_iff_toNat_le.mp same.1
    have same := UInt32.toNat_inj.mpr same.2.2
    refine Or.inr ⟨below.trans low, ?_⟩
    omega

theorem takeFirst_upToLast (hit : takeFirst required range = some (first, new)) :
    ∀ r ∈ new, r.2 = range.2 := by
  rw [takeFirst] at hit
  split_ifs at hit
  · cases hit
    simp
  · cases hit
    simp

theorem takeFrom_upToLast (hit : takeFrom required first range = some ((), new)) :
    ∀ r ∈ new, r.2 = range.2 := by
  rw [takeFrom] at hit
  split_ifs at hit
  · cases hit
    simp
  · cases hit
    simp

end Range

/-- What the replacement of one range does not cover is all that is lost of the table. -/
theorem freeSlots_replaced {before after new : List SlotRange} {range : SlotRange} {x : ℕ}
    {taken : Set ℕ} (free : x ∈ freeSlots (before ++ range :: after))
    (covers : x ∈ elements (toRange range) → x ∈ freeSlots new ∨ x ∈ taken) :
    x ∈ freeSlots (before ++ (new ++ after)) ∨ x ∈ taken := by
  simp only [freeSlots, List.map_append, List.map_cons, covered_append, covered_cons,
    Set.mem_union] at free covers ⊢
  tauto

/-- The replacement of a range ends where the range does. -/
theorem last_replaced {before after new : List SlotRange} {range : SlotRange} {last : UInt32}
    (ends : ∀ r ∈ before ++ range :: after, r.2 = last) (same : ∀ r ∈ new, r.2 = range.2) :
    ∀ r ∈ before ++ (new ++ after), r.2 = last := by
  intro r mem
  rcases List.mem_append.mp mem with early | mem
  · exact ends r (by simp [early])
  · rcases List.mem_append.mp mem with fresh | late
    · exact (same r fresh).trans (ends range (by simp))
    · exact ends r (by simp [late])

section Step

variable {bus bus' : TdmaBus α} {src : α} {required first : UInt32}

theorem accept_eq_some {c : Call α} (accepted : accept bus c = some bus') :
    call bus c = .accepted bus' := by
  rw [accept] at accepted
  split at accepted
  next outcome => rw [outcome, Option.some.inj accepted]
  next => cases accepted

theorem accept_automatic (accepted : accept bus (.automatic src required) = some bus') :
    ∃ before range after first new, bus.freeSlotTable = before ++ range :: after ∧
      takeFirst required range = some (first, new) ∧
      bus' = record bus src required first (before ++ (new ++ after)) := by
  obtain ⟨result, assigned, rfl⟩ := allocateChannels_accepted (accept_eq_some accepted)
  rw [FirstFit.assignFreeSlots_eq] at assigned
  rcases scan_cases (takeFirst required) bus.freeSlotTable with
    ⟨before, range, after, first, new, split, -, hit, ending⟩ | ⟨-, ending⟩
  · rw [ending] at assigned
    split_ifs at assigned
    cases assigned
    exact ⟨before, range, after, first, new, split, hit, rfl⟩
  · rw [ending] at assigned
    split_ifs at assigned

theorem accept_manual (accepted : accept bus (.manual src required first) = some bus') :
    ∃ before range after new, bus.freeSlotTable = before ++ range :: after ∧
      takeFrom required first range = some ((), new) ∧
      bus' = record { bus with manualSlotAllocation := true } src required first
        (before ++ (new ++ after)) := by
  obtain ⟨table, assigned, rfl⟩ := allocateChannelsFrom_accepted (accept_eq_some accepted)
  rw [ManualSearch.assignFreeSlotsFrom_eq] at assigned
  rcases scan_cases (takeFrom required first) bus.freeSlotTable with
    ⟨before, range, after, ⟨⟩, new, split, -, hit, ending⟩ | ⟨-, ending⟩
  · rw [ending] at assigned
    cases assigned
    exact ⟨before, range, after, new, split, hit, rfl⟩
  · rw [ending] at assigned
    split_ifs at assigned

theorem Accounted.automatic (accounted : Accounted bus) (upToLast : UpToLast bus)
    (fresh : Fresh bus src required) (accepted : accept bus (.automatic src required) = some bus') :
    Accounted bus' ∧ UpToLast bus' := by
  obtain ⟨before, range, after, first, new, split, hit, rfl⟩ := accept_automatic accepted
  have last : range.2 = bus.nChannels - 1 := upToLast range (by rw [split]; simp)
  refine ⟨accounted.record fresh fun x inside free => ?_,
    last_replaced (split ▸ upToLast) (takeFirst_upToLast hit)⟩
  rw [split] at free
  exact freeSlots_replaced free fun mem => takeFirst_covers last inside mem hit

theorem Accounted.manual (accounted : Accounted bus) (upToLast : UpToLast bus)
    (accountable : Accountable bus (.manual src required first))
    (accepted : accept bus (.manual src required first) = some bus') :
    Accounted bus' ∧ UpToLast bus' := by
  obtain ⟨fresh, below⟩ := accountable
  obtain ⟨before, range, after, new, split, hit, rfl⟩ := accept_manual accepted
  have mem : range ∈ bus.freeSlotTable := by rw [split]; simp
  have flagged : Accounted { bus with manualSlotAllocation := true } :=
    ⟨accounted.count, accounted.kept⟩
  refine ⟨flagged.record fresh fun x inside free => ?_,
    last_replaced (split ▸ upToLast) (takeFrom_upToLast hit)⟩
  have free : x ∈ freeSlots bus.freeSlotTable := free
  rw [split] at free
  exact freeSlots_replaced free fun within =>
    takeFrom_covers (upToLast range mem) inside within (below range mem) hit

end Step

theorem accounted_configured (n : UInt32) :
    Accounted (setNChannels (initParams : TdmaBus α) n) ∧
      UpToLast (setNChannels (initParams : TdmaBus α) n) := by
  refine ⟨⟨rfl, fun x inside => Or.inl ?_⟩, ?_⟩
  · have inside : x < n.toNat := inside
    have last : (n - 1).toNat = n.toNat - 1 := lastSlot_toNat (by omega)
    refine ⟨_, List.mem_singleton_self _, Nat.zero_le x, ?_⟩
    show x ≤ (n - 1).toNat
    omega
  · intro range mem
    obtain rfl := List.mem_singleton.mp mem
    rfl

/-- Every run of accepted calls that are accountable keeps the account and loses no slot. -/
theorem allocations_accounted {n : UInt32} {calls : List (Call α)} {bus : TdmaBus α}
    (accountable : Along accept Accountable (setNChannels initParams n) calls)
    (reach : run accept (setNChannels initParams n) calls = some bus) : Accounted bus := by
  have keep : ∀ (bus : TdmaBus α) c bus', Accounted bus ∧ UpToLast bus → Accountable bus c →
      accept bus c = some bus' → Accounted bus' ∧ UpToLast bus' := by
    rintro bus c bus' ⟨accounted, upToLast⟩ accountable accepted
    cases c with
    | automatic src required => exact accounted.automatic upToLast accountable accepted
    | manual src required first => exact accounted.manual upToLast accountable accepted
  exact (run_invariant keep (accounted_configured n) accountable reach).1

/-- An automatic, a manual and again an automatic allocation on a bus of eight slots. -/
theorem mixedCalls_accounted :
    ∃ bus, run accept (setNChannels initParams 8)
        [.automatic 0 2, .manual 1 3 2, .automatic (2 : Fin 3) 2] = some bus ∧ Accounted bus := by
  have accountable : Along accept Accountable (setNChannels initParams 8)
      [.automatic 0 2, .manual 1 3 2, .automatic (2 : Fin 3) 2] := by decide +kernel
  exact ⟨_, rfl, allocations_accounted accountable rfl⟩

/-- A source that asks again: the count is four where the table says two, and slot zero is lost.
A manual call for two slots from the fourth one: six slots are no longer free. -/
theorem lostSlots_unaccounted :
    (∃ bus, run accept (setNChannels initParams 8) [.automatic () 2, .automatic () 2] = some bus ∧
      bus.nAllocatedChannels.toNat = 4 ∧ allocatedChannels bus.channelAllocationTable = 2 ∧
      bus.freeSlotTable = [(4, 7)] ∧ bus.slots () = Finset.Ico 2 4 ∧ ¬ Accounted bus) ∧
    ∃ bus, run accept (setNChannels initParams 8) [.manual () 2 4] = some bus ∧
      bus.freeSlotTable = [(6, 7)] ∧ bus.slots () = Finset.Ico 4 6 ∧ ¬ Accounted bus := by
  constructor
  · refine ⟨_, rfl, rfl, rfl, rfl, rfl, fun accounted => ?_⟩
    exact absurd accounted.count (by decide)
  · refine ⟨_, rfl, rfl, rfl, fun accounted => ?_⟩
    rcases accounted.kept 0 (by decide) with free | ⟨p, owned⟩
    · obtain ⟨_, mem, inside⟩ := free
      obtain rfl := List.mem_singleton.mp mem
      exact absurd inside.1 (by decide)
    · have owned : 0 ∈ Finset.Ico 4 6 := owned
      exact absurd owned (by decide)

end Kista.Tdma.SlotAccounting
