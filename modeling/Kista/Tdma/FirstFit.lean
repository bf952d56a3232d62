/- Kista/Tdma/FirstFit
   source: src/src/comm_res/buses/tdma_bus.cpp
   digest: The automatic search takes the first range that is long enough exactly when an even
   number of ranges before it are too short. -/

import Mathlib.Data.List.TakeWhile
import Kista.Tdma.SlotSearch

set_option autoImplicit false
set_option relaxedAutoImplicit false

namespace Kista.Tdma.FirstFit

open SlotAllocation SlotSearch Kista.Containers.Ranges Kista.Containers.SkippingScan

/-- The slots come from the bottom of the first range that holds them, or there is an error if
none does. -/
def TakesFirstFit (table : List SlotRange) (reqSlots : UInt32) : Prop :=
  match table.find? (holds reqSlots) with
  | some range => ∃ table', assignFreeSlots table reqSlots = .ok (range.1, table') ∧
      freeSlots table' = freeSlots table \ requested range.1 reqSlots
  | none => ∃ r, assignFreeSlots table reqSlots = .error (.report r)

/-- The ranges that the search has to pass over, by its own test. -/
def tooShort (table : List SlotRange) (reqSlots : UInt32) : List SlotRange :=
  table.takeWhile fun range => !decide (reqSlots ≤ range.size)

section Search

variable {table before after : List SlotRange} {range : SlotRange} {reqSlots : UInt32}

theorem assignFreeSlots_eq (table : List SlotRange) (reqSlots : UInt32) :
    assignFreeSlots table reqSlots =
      if table.length < 1 then .error (.report .emptyFreeSlotTable)
      else match scan (takeFirst reqSlots) table with
        | .hit result => .ok result
        | .exhausted => .error (.report (.noFreeSlots reqSlots table))
        | .beyond => .error .undefined := by
  rw [assignFreeSlots, searchRange_eq_scan]
  split_ifs
  · rfl
  · cases scan (takeFirst reqSlots) table <;> rfl

theorem holds_iff (nonempty : range.1 ≤ range.2) (proper : range.size ≠ 0) :
    holds reqSlots range = true ↔ reqSlots ≤ range.size := by
  have positive : 0 < range.size.toNat := by
    rw [Nat.pos_iff_ne_zero, ← UInt32.toNat_zero, ne_eq, UInt32.toNat_inj]
    exact proper
  have size := size_toNat_of_pos nonempty positive
  rw [holds, decide_eq_true_eq, UInt32.le_iff_toNat_le]
  omega

/-- A range whose length wraps around to zero holds every number, so there is no other one. -/
theorem eq_singleton_of_size_eq_zero (apart : Apart (table.map toRange)) (mem : range ∈ table)
    (wrapped : range.size = 0) :
    table = [range] ∧ range.1.toNat = 0 ∧ range.2.toNat = 2 ^ 32 - 1 := by
  have nonempty : ∀ r ∈ table, r.1.toNat ≤ r.2.toNat := fun r mem =>
    apart.nonempty (toRange r) (List.mem_map_of_mem mem)
  have bounds : range.1.toNat = 0 ∧ range.2.toNat = 2 ^ 32 - 1 := by
    have le := nonempty range mem
    have first := range.1.toNat_lt
    have last := range.2.toNat_lt
    have size := size_toNat (UInt32.le_iff_toNat_le.mpr le)
    rw [wrapped, UInt32.toNat_zero] at size
    omega
  obtain ⟨before, after, rfl⟩ := List.append_of_mem mem
  have others : ∀ r ∈ before ++ after, False := by
    intro r listed
    have le := nonempty r (by
      rw [List.mem_append, List.mem_cons]
      exact (List.mem_append.mp listed).imp id Or.inr)
    have last := r.2.toNat_lt
    have common : ¬ Disjoint (elements (toRange r)) (elements (toRange range)) := by
      rw [Set.not_disjoint_iff]
      refine ⟨r.1.toNat, ⟨le_rfl, le⟩, ?_, ?_⟩
      · show range.1.toNat ≤ r.1.toNat
        omega
      · show r.1.toNat ≤ range.2.toNat
        omega
    have disjoint := apart.disjoint
    rw [List.map_append, List.map_cons, List.pairwise_append, List.pairwise_cons] at disjoint
    obtain ⟨-, ⟨later, -⟩, earlier⟩ := disjoint
    rcases List.mem_append.mp listed with early | late
    · exact common (earlier _ (List.mem_map_of_mem early) _ List.mem_cons_self)
    · exact common (later _ (List.mem_map_of_mem late)).symm
  have empty : before ++ after = [] := List.eq_nil_iff_forall_not_mem.mpr others
  obtain ⟨rfl, rfl⟩ := List.append_eq_nil_iff.mp empty
  exact ⟨rfl, bounds⟩

/-- With an even number of short ranges before it the first long one is hit. -/
theorem assignFreeSlots_first (apart : Apart ((before ++ range :: after).map toRange))
    (some : 1 ≤ reqSlots) (short : ∀ r ∈ before, ¬ reqSlots ≤ r.size)
    (long : reqSlots ≤ range.size) (even : Even before.length) :
    ∃ table', assignFreeSlots (before ++ range :: after) reqSlots = .ok (range.1, table') ∧
      freeSlots table' = freeSlots (before ++ range :: after) \ requested range.1 reqSlots := by
  have nonempty : range.1 ≤ range.2 := UInt32.le_iff_toNat_le.mpr
    (apart.nonempty (toRange range) (List.mem_map_of_mem (by simp)))
  obtain ⟨⟨first, new⟩, hit⟩ : ∃ result, takeFirst reqSlots range = .some result :=
    Option.ne_none_iff_exists'.mp fun none => takeFirst_eq_none.mp none long
  obtain ⟨rfl, inside, rest⟩ := takeFirst_exact nonempty some hit
  have run := @scan_hit _ _ _ before after _ _ _
    (fun r mem => takeFirst_eq_none.mpr (short r mem)) even hit
  refine ⟨before ++ (new ++ after), ?_, ?_⟩
  · rw [assignFreeSlots_eq, run, if_neg (by simp)]
  · rw [List.map_append, List.map_cons] at apart
    have replaced := apart.covered_replace inside rest
    simpa only [freeSlots, List.map_append, List.map_cons] using replaced

/-- With an odd number of short ranges before it the first long one is passed over. -/
theorem assignFreeSlots_passed (apart : Apart ((before ++ range :: after).map toRange))
    (some : 1 ≤ reqSlots) (short : ∀ r ∈ before, ¬ reqSlots ≤ r.size)
    (odd : ¬ Even before.length) (table' : List SlotRange) :
    assignFreeSlots (before ++ range :: after) reqSlots ≠ .ok (range.1, table') := by
  intro granted
  rw [assignFreeSlots_eq, if_neg (by simp),
    scan_passed (fun r mem => takeFirst_eq_none.mpr (short r mem)) odd] at granted
  cases ending : scan (takeFirst reqSlots) after with
  | hit result =>
    rw [ending] at granted
    obtain ⟨other, visit, new, hit⟩ := exists_of_scan_hit ending
    have listed := mem_of_mem_visited visit
    have nonempty := fun r mem => apart.nonempty (toRange r) (List.mem_map_of_mem mem)
    have le := nonempty other (by simp [listed])
    have le' := nonempty range (by simp)
    -- the range that is hit would begin where the one passed over does
    obtain ⟨same, -⟩ := takeFirst_exact (UInt32.le_iff_toNat_le.mpr le) some hit
    have start : other.1 = range.1 := by
      rw [← same]
      exact (Prod.mk.inj (Except.ok.inj granted)).1
    have disjoint := apart.disjoint
    rw [List.map_append, List.map_cons, List.pairwise_append, List.pairwise_cons] at disjoint
    have apart' := disjoint.2.1.1 (toRange other) (List.mem_map_of_mem listed)
    refine Set.disjoint_left.mp apart' ⟨le_rfl, le'⟩ ⟨?_, ?_⟩
    · exact (congrArg UInt32.toNat start).le
    · exact (congrArg UInt32.toNat start).symm.le.trans le
  | exhausted =>
    rw [ending] at granted
    cases granted
  | beyond =>
    rw [ending] at granted
    cases granted

/-- If no range is long enough the search ends at the end of the list, or beyond it. -/
theorem assignFreeSlots_none (short : ∀ r ∈ table, ¬ reqSlots ≤ r.size) :
    (∃ r, assignFreeSlots table reqSlots = .error (.report r)) ↔ Even table.length := by
  rw [assignFreeSlots_eq]
  by_cases empty : table.length < 1
  · rw [if_pos empty]
    refine iff_of_true ⟨_, rfl⟩ ?_
    rw [Nat.lt_one_iff.mp empty]
    exact Even.zero
  · rw [if_neg empty]
    rcases scan_cases (takeFirst reqSlots) table with
      ⟨before, x, after, b, new, split, visit, hit, -⟩ | ⟨-, ending⟩
    · rw [takeFirst_eq_none.mpr (short x (mem_of_mem_visited visit))] at hit
      cases hit
    · rw [ending]
      split_ifs with even
      · exact iff_of_true ⟨_, rfl⟩ even
      · refine iff_of_false ?_ even
        rintro ⟨r, report⟩
        cases report

/-- A range over all values of the counter has a size of zero and is never taken. -/
theorem takesFirstFit_of_wrapped (apart : Apart (table.map toRange)) (some : 1 ≤ reqSlots)
    {range : SlotRange} (mem : range ∈ table) (wrapped : range.size = 0) :
    TakesFirstFit table reqSlots ↔ Even (tooShort table reqSlots).length := by
  obtain ⟨rfl, first, last⟩ := eq_singleton_of_size_eq_zero apart mem wrapped
  have bound := reqSlots.toNat_lt
  have positive := UInt32.le_iff_toNat_le.mp some
  have short : ¬ reqSlots ≤ range.size := by
    rw [wrapped, UInt32.le_iff_toNat_le]
    rw [UInt32.toNat_one] at positive
    rw [UInt32.toNat_zero]
    omega
  have long : holds reqSlots range = true := by
    rw [holds, decide_eq_true_eq]
    omega
  have passed : tooShort [range] reqSlots = [range] := by simp [tooShort, short]
  rw [passed]
  refine iff_of_false ?_ Nat.not_even_one
  simp only [TakesFirstFit, List.find?_cons, long]
  rintro ⟨table', granted, -⟩
  rw [assignFreeSlots_eq, if_neg (by simp), scan, takeFirst_eq_none.mpr short] at granted
  cases granted

/-- Otherwise a range holds a request that is not longer than its size. -/
theorem holds_eq_of_unwrapped (apart : Apart (table.map toRange))
    (unwrapped : ∀ range ∈ table, range.size ≠ 0) {range : SlotRange} (mem : range ∈ table) :
    holds reqSlots range = decide (reqSlots ≤ range.size) := by
  have le := apart.nonempty (toRange range) (List.mem_map_of_mem mem)
  rw [Bool.eq_iff_iff, decide_eq_true_eq]
  exact holds_iff (UInt32.le_iff_toNat_le.mpr le) (unwrapped range mem)

theorem takesFirstFit_of_none (lengths : ∀ r ∈ table, holds reqSlots r = decide (reqSlots ≤ r.size))
    (found : table.find? (holds reqSlots) = none) :
    TakesFirstFit table reqSlots ↔ Even (tooShort table reqSlots).length := by
  have short : ∀ r ∈ table, ¬ reqSlots ≤ r.size := by
    intro r mem fits
    have := List.find?_eq_none.mp found r mem
    rw [lengths r mem, decide_eq_true_eq] at this
    exact this fits
  have passed : tooShort table reqSlots = table := by
    rw [tooShort, List.takeWhile_eq_self_iff]
    simpa using short
  simp only [TakesFirstFit, found, passed]
  exact assignFreeSlots_none short

theorem takesFirstFit_of_some (apart : Apart (table.map toRange)) (some : 1 ≤ reqSlots)
    (lengths : ∀ r ∈ table, holds reqSlots r = decide (reqSlots ≤ r.size)) {range : SlotRange}
    (found : table.find? (holds reqSlots) = .some range) :
    TakesFirstFit table reqSlots ↔ Even (tooShort table reqSlots).length := by
  obtain ⟨long, before, after, rfl, early⟩ := List.find?_eq_some_iff_append.mp found
  have long : reqSlots ≤ range.size := by
    rw [lengths range (by simp), decide_eq_true_eq] at long
    exact long
  have short : ∀ r ∈ before, ¬ reqSlots ≤ r.size := by
    intro r mem
    have := early r mem
    rw [lengths r (by simp [mem])] at this
    simpa using this
  have passed : tooShort (before ++ range :: after) reqSlots = before := by
    rw [tooShort, List.takeWhile_append_of_pos (by simpa using short)]
    simp [long]
  simp only [TakesFirstFit, found, passed]
  constructor
  · rintro ⟨table', granted, -⟩
    by_contra odd
    exact assignFreeSlots_passed apart some short odd table' granted
  · exact assignFreeSlots_first apart some short long

/-- The search takes the first fit exactly when it has to pass over an even number of ranges. -/
theorem takesFirstFit_iff (apart : Apart (table.map toRange)) (some : 1 ≤ reqSlots) :
    TakesFirstFit table reqSlots ↔ Even (tooShort table reqSlots).length := by
  by_cases wrapped : ∃ range ∈ table, range.size = 0
  · obtain ⟨range, mem, wrapped⟩ := wrapped
    exact takesFirstFit_of_wrapped apart some mem wrapped
  · have unwrapped : ∀ range ∈ table, range.size ≠ 0 := fun range mem zero =>
      wrapped ⟨range, mem, zero⟩
    have lengths : ∀ r ∈ table, holds reqSlots r = decide (reqSlots ≤ r.size) := fun r =>
      holds_eq_of_unwrapped apart unwrapped
    cases found : table.find? (holds reqSlots) with
    | none => exact takesFirstFit_of_none lengths found
    | some range => exact takesFirstFit_of_some apart some lengths found

end Search

/-- Two short ranges before a long one. -/
theorem shortPair_fits : TakesFirstFit [(0, 0), (2, 2), (4, 7)] 2 := by
  refine (takesFirstFit_iff ⟨by decide, ?_⟩ (by decide)).mpr (by decide)
  simp [toRange, elements, Set.disjoint_left]
  omega

/-- One short range before two long ones: the second of these is taken. -/
theorem shortRange_passed :
    Apart ([(0, 0), (2, 3), (5, 6)].map toRange) ∧
      assignFreeSlots [(0, 0), (2, 3), (5, 6)] 2 = .ok (5, [(0, 0), (2, 3)]) ∧
      ¬ TakesFirstFit [(0, 0), (2, 3), (5, 6)] 2 := by
  refine ⟨⟨by decide, ?_⟩, rfl, ?_⟩
  · simp [toRange, elements, Set.disjoint_left]
    omega
  · rintro ⟨table', granted, -⟩
    exact absurd (Prod.mk.inj (Except.ok.inj granted)).1 (by decide)

end Kista.Tdma.FirstFit
