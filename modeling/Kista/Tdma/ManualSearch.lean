/- Kista/Tdma/ManualSearch
   source: src/src/comm_res/buses/tdma_bus.cpp, tdma_bus.hpp
   digest: The manual search takes exactly the slots it is asked for when they are the first ones
   of a range that it visits, and what else it can be asked for without harm. -/

import Kista.Tdma.SlotSearch

set_option autoImplicit false
set_option relaxedAutoImplicit false

namespace Kista.Tdma.ManualSearch

open SlotAllocation SlotSearch Kista.Containers.Ranges Kista.Containers.SkippingScan

/-- What the search reports of a table that it leaves as it is. -/
def refusal (table : List SlotRange) (firstSlot reqSlots : UInt32) : Report :=
  if table = [] then .emptyFreeSlotTable else .noFreeSlotsFrom reqSlots firstSlot table

/-- Free slots are granted, and they alone are free no longer; anything else is an error. -/
structure Exactly (table : List SlotRange) (firstSlot reqSlots : UInt32) : Prop where
  granted : requested firstSlot reqSlots ⊆ freeSlots table →
    ∃ table', assignFreeSlotsFrom table firstSlot reqSlots = .ok table' ∧
      freeSlots table' = freeSlots table \ requested firstSlot reqSlots
  refused : ¬ requested firstSlot reqSlots ⊆ freeSlots table →
    assignFreeSlotsFrom table firstSlot reqSlots =
      .error (.report (refusal table firstSlot reqSlots))

/-- The test that the search makes of a range. -/
def Takes (firstSlot reqSlots : UInt32) (range : SlotRange) : Prop :=
  range.1 ≤ firstSlot ∧ firstSlot ≤ range.2 ∧ reqSlots ≤ range.size

/-- A range that the search visits begins with the slots asked for; or they are not free, no range
that it visits passes the test, and the table has an even number of ranges. -/
def Served (table : List SlotRange) (firstSlot reqSlots : UInt32) : Prop :=
  (∃ range ∈ visited table, range.1 = firstSlot ∧ reqSlots ≤ range.size) ∨
  (¬ requested firstSlot reqSlots ⊆ freeSlots table ∧
    (∀ range ∈ visited table, ¬ Takes firstSlot reqSlots range) ∧ Even table.length)

section Search

variable {table : List SlotRange} {range : SlotRange} {firstSlot reqSlots : UInt32}

theorem assignFreeSlotsFrom_eq (table : List SlotRange) (firstSlot reqSlots : UInt32) :
    assignFreeSlotsFrom table firstSlot reqSlots =
      match scan (takeFrom firstSlot reqSlots) table with
      | .hit result => .ok result.2
      | .exhausted => .error (.report (refusal table firstSlot reqSlots))
      | .beyond => .error .undefined := by
  rw [assignFreeSlotsFrom, searchSlot_eq_scan]
  cases table with
  | nil => rfl
  | cons range rest =>
    rw [if_neg (by simp)]
    cases scan (takeFrom firstSlot reqSlots) (range :: rest) <;> rfl

theorem takeFrom_eq_none :
    takeFrom firstSlot reqSlots range = none ↔ ¬ Takes firstSlot reqSlots range := by
  have fits : reqSlots ≤ range.size ↔ reqSlots < range.size ∨ reqSlots = range.size :=
    UInt32.le_iff_lt_or_eq
  rw [Takes, fits, takeFrom]
  split_ifs with shorter same
  · simp [shorter]
  · simp [same]
  · refine iff_of_true rfl ?_
    rintro ⟨low, high, less | equal⟩
    · exact shorter ⟨low, high, less⟩
    · exact same ⟨low, high, equal⟩

/-- From the first slot of a range the search takes what the automatic one would take. -/
theorem takeFrom_first (nonempty : range.1 ≤ range.2) :
    takeFrom range.1 reqSlots range =
      (takeFirst reqSlots range).map fun result => ((), result.2) := by
  have first : range.1 ≤ range.1 := UInt32.le_refl _
  rw [takeFrom, takeFirst]
  simp only [first, nonempty, true_and]
  split_ifs <;> rfl

/-- A request inside of a range loses the slots below it, or gets none where the sum wraps. -/
theorem takeFrom_inner {new : List SlotRange} (takes : Takes firstSlot reqSlots range)
    (hit : takeFrom firstSlot reqSlots range = .some ((), new))
    (inner : range.1.toNat < firstSlot.toNat) :
    range.1.toNat ∉ freeSlots new ∨ firstSlot.toNat ∈ freeSlots new := by
  have last := range.2.toNat_lt
  have high := UInt32.le_iff_toNat_le.mp takes.2.1
  rw [takeFrom] at hit
  split_ifs at hit with shorter same
  · cases hit
    have sum : (firstSlot + reqSlots).toNat = (firstSlot.toNat + reqSlots.toNat) % 2 ^ 32 :=
      UInt32.toNat_add _ _
    have single : ∀ x, x ∈ freeSlots [(firstSlot + reqSlots, range.2)] ↔
        (firstSlot + reqSlots).toNat ≤ x ∧ x ≤ range.2.toNat := by
      intro x
      simp [freeSlots, toRange, mem_elements]
    rw [single, single]
    omega
  · cases hit
    left
    simp [freeSlots]

section Hit

variable {before after new : List SlotRange}
  (apart : Apart ((before ++ range :: after).map toRange))

include apart

/-- Of the slots of the range nothing is free outside of its replacement. -/
theorem mem_freeSlots_replaced {x : ℕ} (inside : x ∈ elements (toRange range)) :
    x ∈ freeSlots (before ++ (new ++ after)) ↔ x ∈ freeSlots new := by
  have disjoint := apart.disjoint
  rw [List.map_append, List.map_cons, List.pairwise_append, List.pairwise_cons] at disjoint
  obtain ⟨-, ⟨later, -⟩, earlier⟩ := disjoint
  have notBefore : x ∉ covered (before.map toRange) := by
    rintro ⟨r, mem, within⟩
    exact Set.disjoint_left.mp (earlier r mem _ List.mem_cons_self) within inside
  have notAfter : x ∉ covered (after.map toRange) := by
    rintro ⟨r, mem, within⟩
    exact Set.disjoint_left.mp (later r mem) inside within
  simp [freeSlots, notBefore, notAfter]

/-- What is granted is what was asked for only where the request starts with its range. -/
theorem replaced_iff (some : 1 ≤ reqSlots) (takes : Takes firstSlot reqSlots range)
    (hit : takeFrom firstSlot reqSlots range = .some ((), new)) :
    freeSlots (before ++ (new ++ after)) =
          freeSlots (before ++ range :: after) \ requested firstSlot reqSlots ∧
        requested firstSlot reqSlots ⊆ freeSlots (before ++ range :: after) ↔
      range.1 = firstSlot := by
  have listed : toRange range ∈ (before ++ range :: after).map toRange :=
    List.mem_map_of_mem (by simp)
  have le := apart.nonempty (toRange range) listed
  have nonempty : range.1 ≤ range.2 := UInt32.le_iff_toNat_le.mpr le
  have positive := UInt32.le_iff_toNat_le.mp some
  have low := UInt32.le_iff_toNat_le.mp takes.1
  have high := UInt32.le_iff_toNat_le.mp takes.2.1
  rw [UInt32.toNat_one] at positive
  constructor
  · rintro ⟨exact, free⟩
    by_contra other
    have inner : range.1.toNat < firstSlot.toNat :=
      Nat.lt_of_le_of_ne low fun same => other (UInt32.toNat_inj.mp same)
    have bottom : range.1.toNat ∈ elements (toRange range) := ⟨le_rfl, le⟩
    have inside : firstSlot.toNat ∈ elements (toRange range) := ⟨low, high⟩
    rcases takeFrom_inner takes hit inner with lost | kept
    · rw [← mem_freeSlots_replaced apart bottom, exact] at lost
      refine lost ⟨⟨_, listed, le_rfl, le⟩, ?_⟩
      simp only [requested, Set.mem_Ico]
      omega
    · rw [← mem_freeSlots_replaced apart inside, exact] at kept
      refine kept.2 ?_
      simp only [requested, Set.mem_Ico]
      omega
  · rintro rfl
    rw [takeFrom_first nonempty, Option.map_eq_some_iff] at hit
    obtain ⟨⟨first, new'⟩, found, same⟩ := hit
    cases same
    obtain ⟨-, inside, rest⟩ := takeFirst_exact nonempty some found
    rw [List.map_append, List.map_cons] at apart
    have replaced := apart.covered_replace inside rest
    constructor
    · simpa only [freeSlots, List.map_append, List.map_cons] using replaced
    · intro x taken
      exact ⟨_, listed, inside taken⟩

end Hit

theorem takes_of_hit {result : Unit × List SlotRange}
    (hit : takeFrom firstSlot reqSlots range = .some result) : Takes firstSlot reqSlots range := by
  by_contra none
  rw [takeFrom_eq_none.mpr none] at hit
  cases hit

/-- Where a visited range takes the request, it is served when it starts there. -/
theorem served_iff_of_takes (apart : Apart (table.map toRange)) (visit : range ∈ visited table)
    (takes : Takes firstSlot reqSlots range) :
    Served table firstSlot reqSlots ↔ range.1 = firstSlot := by
  constructor
  · rintro (⟨other, visit', rfl, fits⟩ | ⟨-, none, -⟩)
    · -- the slot lies in one range only
      have nonempty := apart.nonempty (toRange other)
        (List.mem_map_of_mem (mem_of_mem_visited visit'))
      have same : toRange range = toRange other := apart.unique
        (List.mem_map_of_mem (mem_of_mem_visited visit))
        (List.mem_map_of_mem (mem_of_mem_visited visit'))
        ⟨UInt32.le_iff_toNat_le.mp takes.1, UInt32.le_iff_toNat_le.mp takes.2.1⟩
        ⟨le_rfl, nonempty⟩
      exact UInt32.toNat_inj.mp (congrArg Prod.fst same)
    · exact absurd takes (none range visit)
  · rintro rfl
    exact Or.inl ⟨range, visit, rfl, takes.2.2⟩

theorem served_iff_of_missed (apart : Apart (table.map toRange))
    (none : ∀ range ∈ visited table, ¬ Takes firstSlot reqSlots range) :
    Served table firstSlot reqSlots ↔
      ¬ requested firstSlot reqSlots ⊆ freeSlots table ∧ Even table.length := by
  constructor
  · rintro (⟨range, visit, rfl, fits⟩ | ⟨taken, -, even⟩)
    · have nonempty := apart.nonempty (toRange range)
        (List.mem_map_of_mem (mem_of_mem_visited visit))
      exact absurd ⟨UInt32.le_refl _, UInt32.le_iff_toNat_le.mpr nonempty, fits⟩
        (none range visit)
    · exact ⟨taken, even⟩
  · rintro ⟨taken, even⟩
    exact Or.inr ⟨taken, none, even⟩

theorem exactly_iff_of_granted {table' : List SlotRange}
    (run : assignFreeSlotsFrom table firstSlot reqSlots = .ok table') :
    Exactly table firstSlot reqSlots ↔
      freeSlots table' = freeSlots table \ requested firstSlot reqSlots ∧
        requested firstSlot reqSlots ⊆ freeSlots table := by
  constructor
  · intro exactly
    by_cases free : requested firstSlot reqSlots ⊆ freeSlots table
    · obtain ⟨granted, same, left⟩ := exactly.granted free
      rw [run] at same
      cases same
      exact ⟨left, free⟩
    · have refused := exactly.refused free
      rw [run] at refused
      cases refused
  · rintro ⟨left, free⟩
    exact ⟨fun _ => ⟨_, run, left⟩, fun taken => absurd free taken⟩

theorem exactly_iff_of_missed
    (ending : scan (takeFrom firstSlot reqSlots) table =
      if Even table.length then .exhausted else .beyond) :
    Exactly table firstSlot reqSlots ↔
      ¬ requested firstSlot reqSlots ⊆ freeSlots table ∧ Even table.length := by
  have run := assignFreeSlotsFrom_eq table firstSlot reqSlots
  constructor
  · intro exactly
    have taken : ¬ requested firstSlot reqSlots ⊆ freeSlots table := by
      intro free
      obtain ⟨table', granted, -⟩ := exactly.granted free
      rw [run, ending] at granted
      split_ifs at granted
    refine ⟨taken, ?_⟩
    have refused := exactly.refused taken
    rw [run, ending] at refused
    by_contra odd
    rw [if_neg odd] at refused
    cases refused
  · rintro ⟨taken, even⟩
    rw [ending, if_pos even] at run
    exact ⟨fun free => absurd free taken, fun _ => run⟩

/-- The search is exact exactly for the requests it serves. -/
theorem exactly_iff (apart : Apart (table.map toRange)) (some : 1 ≤ reqSlots) :
    Exactly table firstSlot reqSlots ↔ Served table firstSlot reqSlots := by
  rcases scan_cases (takeFrom firstSlot reqSlots) table with
    ⟨before, range, after, ⟨⟩, new, rfl, visit, hit, ending⟩ | ⟨misses, ending⟩
  · have takes := takes_of_hit hit
    have run : assignFreeSlotsFrom (before ++ range :: after) firstSlot reqSlots =
        .ok (before ++ (new ++ after)) := by
      rw [assignFreeSlotsFrom_eq, ending]
    rw [served_iff_of_takes apart visit takes, exactly_iff_of_granted run]
    exact replaced_iff apart some takes hit
  · rw [exactly_iff_of_missed ending, served_iff_of_missed apart]
    intro range visit
    exact takeFrom_eq_none.mp (misses range visit)

end Search

/-- The table `(3, 7) (9, 10)` of the header. -/
def twoRanges : List SlotRange := [(3, 7), (9, 10)]

theorem twoRanges_apart : Apart (twoRanges.map toRange) where
  nonempty := by decide
  disjoint := by
    simp [twoRanges, toRange, elements, Set.disjoint_left]
    omega

theorem firstSlots_exact : Exactly twoRanges 3 2 :=
  (exactly_iff twoRanges_apart (by decide)).mpr
    (Or.inl ⟨(3, 7), List.mem_cons_self, rfl, by decide⟩)

/-- Slots five and six are granted together with three and four, slots seven and eight though
eight is not free, and the free slots nine and ten are not found. -/
theorem twoRanges_inexact :
    Apart (twoRanges.map toRange) ∧
      assignFreeSlotsFrom twoRanges 5 2 = .ok [(7, 7), (9, 10)] ∧ ¬ Exactly twoRanges 5 2 ∧
      assignFreeSlotsFrom twoRanges 7 2 = .ok [(9, 7), (9, 10)] ∧ ¬ Exactly twoRanges 7 2 ∧
      assignFreeSlotsFrom twoRanges 9 2 =
        .error (.report (.noFreeSlotsFrom 2 9 twoRanges)) ∧ ¬ Exactly twoRanges 9 2 := by
  have free : ∀ x, x ∈ freeSlots twoRanges ↔ (3 ≤ x ∧ x ≤ 7) ∨ (9 ≤ x ∧ x ≤ 10) := by
    intro x
    simp [freeSlots, twoRanges, toRange, mem_elements]
  refine ⟨twoRanges_apart, rfl, ?_, rfl, ?_, rfl, ?_⟩
  · intro exactly
    obtain ⟨table', granted, left⟩ := exactly.granted fun x taken => by
      rw [free]
      simp [requested] at taken
      omega
    cases granted
    have three : 3 ∈ freeSlots twoRanges \ requested 5 2 :=
      ⟨(free 3).mpr (by omega), by simp [requested]⟩
    rw [← left] at three
    simp [freeSlots, toRange, mem_elements] at three
  · intro exactly
    have refused := exactly.refused fun taken => by
      have eight : 8 ∈ freeSlots twoRanges := taken (by simp [requested])
      rw [free] at eight
      omega
    cases refused
  · intro exactly
    obtain ⟨table', granted, -⟩ := exactly.granted fun x taken => by
      rw [free]
      simp [requested] at taken
      omega
    cases granted

end Kista.Tdma.ManualSearch
