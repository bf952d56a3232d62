/- Kista/Resources/MappedLinks
   source: src/src/link_t.hpp, src/src/comm_res/phy_comm_res.cpp, phy_comm_res.hpp,
           src/src/mapped_links_t.cpp
   digest: The comparison of links, the sets of links on which it is an order, and the number of
   logic links mapped to a physical link. -/

import Kista.Containers.OrderedMap
import Kista.Resources.LinksTable

set_option autoImplicit false
set_option relaxedAutoImplicit false

namespace Kista.Resources.MappedLinks

open Kista.Containers.OrderedMap Kista.Resources.LinksTable

variable {A : Type} [LinearOrder A] {L : Type}

/-- `operator<` of `link_t`: the destinations are compared also where the sources differ. -/
def less (lhs rhs : Link A) : Bool :=
  if lhs.src < rhs.src then true
  else if lhs.dest < rhs.dest then true
  else false

/-- `mapped_llinks_t`: the logic links of a physical link, in the order of their mapping. -/
abbrev MappedLlinks (L : Type) := List L

def MappedLlinks.assign (mapped : MappedLlinks L) (llink : L) : MappedLlinks L := mapped ++ [llink]

def MappedLlinks.getNumberLlinks (mapped : MappedLlinks L) : ℕ := mapped.length

abbrev PlinksLlinksTable (A L : Type) := Entries (Link A) (MappedLlinks L)

inductive MapFault (A : Type)
  | entryWithoutLlinks (plink : Link A)
  | nullPointer

def map (table : PlinksLlinksTable A L) (llink : L) (plink : Link A) :
    Except (MapFault A) (PlinksLlinksTable A L) :=
  if table.length < 1 then .ok (assign less plink (MappedLlinks.assign [] llink) table)
  else match find less plink table with
    | none => .ok (assign less plink (MappedLlinks.assign [] llink) table)
    | some mapped =>
      if 0 < mapped.getNumberLlinks then .ok (assign less plink (mapped.assign llink) table)
      else .error (.entryWithoutLlinks plink)

/-- A link that is not in the table gets a null entry, which is used without a check. -/
def numberOfLlinks (table : PlinksLlinksTable A L) (plink : Link A) : Except (MapFault A) ℕ :=
  match find less plink table with
  | none => .error .nullPointer
  | some mapped => .ok mapped.getNumberLlinks

def mapAll (calls : List (L × Link A)) : Except (MapFault A) (PlinksLlinksTable A L) :=
  calls.foldlM (fun table call => map table call.1 call.2) []

/-- The links of the calls and the one asked for. -/
def used (calls : List (L × Link A)) (plink : Link A) : Set (Link A) :=
  {l | l = plink ∨ ∃ call ∈ calls, call.2 = l}

/-- The order laws hold, with equality as incomparability, and every call is counted. -/
structure Counted (calls : List (L × Link A)) (plink : Link A) : Prop where
  order : StrictWeakOn less (used calls plink)
  incomparable : ∀ a ∈ used calls plink, ∀ b ∈ used calls plink, Incomparable less a b ↔ a = b
  number : ∃ table, mapAll calls = .ok table ∧
    numberOfLlinks table plink = .ok (calls.countP fun call => call.2 = plink)

theorem less_iff (lhs rhs : Link A) :
    less lhs rhs = true ↔ lhs.src < rhs.src ∨ lhs.dest < rhs.dest := by
  rw [less]
  split_ifs with src dest
  · exact iff_of_true rfl (Or.inl src)
  · exact iff_of_true rfl (Or.inr dest)
  · exact iff_of_false not_false (not_or.mpr ⟨src, dest⟩)

theorem not_less_iff (lhs rhs : Link A) :
    less lhs rhs = false ↔ rhs.src ≤ lhs.src ∧ rhs.dest ≤ lhs.dest := by
  rw [← Bool.not_eq_true, less_iff, not_or, not_lt, not_lt]

theorem incomparable_iff (lhs rhs : Link A) : Incomparable less lhs rhs ↔ lhs = rhs := by
  rw [Incomparable, not_less_iff, not_less_iff]
  constructor
  · rintro ⟨⟨src, dest⟩, src', dest'⟩
    obtain ⟨s, d⟩ := lhs
    obtain ⟨s', d'⟩ := rhs
    congr 1
    · exact le_antisymm src' src
    · exact le_antisymm dest' dest
  · rintro rfl
    exact ⟨⟨le_rfl, le_rfl⟩, le_rfl, le_rfl⟩

/-- The comparison is a strict weak order exactly on the sets of links that sources and
destinations order the same way. -/
theorem strictWeakOn_iff (S : Set (Link A)) :
    StrictWeakOn less S ↔ ∀ a ∈ S, ∀ b ∈ S, a.src < b.src → a.dest ≤ b.dest := by
  constructor
  · intro order a ha b hb below
    exact ((not_less_iff b a).mp
      (order.asymm a ha b hb ((less_iff a b).mpr (Or.inl below)))).2
  · intro alike
    have asymm : ∀ a ∈ S, ∀ b ∈ S, less a b = true → less b a = false := by
      intro a ha b hb below
      rw [not_less_iff]
      rcases (less_iff a b).mp below with src | dest
      · exact ⟨src.le, alike a ha b hb src⟩
      · refine ⟨?_, dest.le⟩
        by_contra reverse
        exact absurd (alike b hb a ha (not_le.mp reverse)) (not_le.mpr dest)
    refine ⟨?_, asymm, ?_, ?_⟩
    · intro a _
      exact (not_less_iff a a).mpr ⟨le_rfl, le_rfl⟩
    · intro a ha b hb c hc ab bc
      obtain ⟨src, dest⟩ := (not_less_iff b a).mp (asymm a ha b hb ab)
      rw [less_iff] at bc ⊢
      rcases bc with src' | dest'
      · exact Or.inl (src.trans_lt src')
      · exact Or.inr (dest.trans_lt dest')
    · intro a _ b _ c _ ab bc
      rw [incomparable_iff] at ab bc ⊢
      exact ab.trans bc

/-- The logic links mapped to a physical link, in order. -/
def mappedTo (calls : List (L × Link A)) (plink : Link A) : List L :=
  (calls.filter fun call => call.2 = plink).map Prod.fst

theorem mappedTo_append (calls : List (L × Link A)) (call : L × Link A) (plink : Link A) :
    mappedTo (calls ++ [call]) plink =
      if call.2 = plink then mappedTo calls plink ++ [call.1] else mappedTo calls plink := by
  rw [mappedTo, List.filter_append, List.map_append]
  by_cases same : call.2 = plink <;> simp [same, mappedTo]

theorem length_mappedTo (calls : List (L × Link A)) (plink : Link A) :
    (mappedTo calls plink).length = calls.countP fun call => call.2 = plink := by
  rw [mappedTo, List.length_map, List.countP_eq_length_filter]

/-- The table after some calls: increasing keys, and under each link what was mapped to it. -/
structure Tabled (S : Set (Link A)) (calls : List (L × Link A))
    (table : PlinksLlinksTable A L) : Prop where
  sorted : Sorted less S table
  found : ∀ plink ∈ S, find less plink table =
    if mappedTo calls plink = [] then none else some (mappedTo calls plink)

section Mapping

variable {S : Set (Link A)} {calls : List (L × Link A)} {table : PlinksLlinksTable A L}
  {llink : L} {plink : Link A}

/-- Both branches for a new link and the one for an old link append to what was mapped to it. -/
theorem Tabled.map_eq (h : Tabled S calls table) (known : plink ∈ S) :
    map table llink plink =
      .ok (assign less plink (mappedTo calls plink ++ [llink]) table) := by
  have found := h.found plink known
  rw [map]
  split
  · rename_i empty
    obtain rfl : table = [] := List.length_eq_zero_iff.mp (by omega)
    by_cases fresh : mappedTo calls plink = []
    · rw [fresh]
      rfl
    · rw [if_neg fresh] at found
      cases found
  · by_cases fresh : mappedTo calls plink = []
    · rw [if_pos fresh] at found
      rw [found, fresh]
      rfl
    · rw [if_neg fresh] at found
      rw [found]
      have some_llink : 0 < (mappedTo calls plink).length := List.length_pos_iff.mpr fresh
      simp only [MappedLlinks.getNumberLlinks, some_llink, if_true]
      rfl

theorem Tabled.map (order : StrictWeakOn less S) (h : Tabled S calls table) (known : plink ∈ S) :
    Tabled S (calls ++ [(llink, plink)])
      (assign less plink (mappedTo calls plink ++ [llink]) table) where
  sorted := h.sorted.assign order known _
  found other listed := by
    rw [find_assign order known listed _ h.sorted, mappedTo_append, h.found other listed]
    by_cases same : plink = other
    · subst same
      simp [(incomparable_iff plink plink).mpr rfl]
    · have apart : ¬ Incomparable less plink other := fun close =>
        same ((incomparable_iff plink other).mp close)
      rw [if_neg apart, if_neg same]

theorem tabled_mapAll (order : StrictWeakOn less S) (known : ∀ call ∈ calls, call.2 ∈ S) :
    ∃ table, mapAll calls = .ok table ∧ Tabled S calls table := by
  induction calls using List.reverseRecOn with
  | nil =>
    refine ⟨[], rfl, sorted_nil, ?_⟩
    intro other _
    rfl
  | append_singleton calls call ih =>
    obtain ⟨table, reached, h⟩ := ih fun c listed => known c (List.mem_append_left _ listed)
    have listed := known call (by simp)
    have appended : Tabled S (calls ++ [(call.1, call.2)]) _ := h.map order listed
    refine ⟨_, ?_, appended⟩
    rw [mapAll, List.foldlM_append, ← mapAll, reached]
    simp only [List.foldlM_cons, List.foldlM_nil, bind_pure]
    exact h.map_eq listed

theorem Tabled.number (h : Tabled S calls table) (known : plink ∈ S) :
    numberOfLlinks table plink = .ok (calls.countP fun call => call.2 = plink) ↔
      ∃ call ∈ calls, call.2 = plink := by
  have count := length_mappedTo calls plink
  rw [numberOfLlinks, h.found plink known]
  by_cases fresh : mappedTo calls plink = []
  · rw [if_pos fresh]
    rw [fresh, List.length_nil] at count
    refine iff_of_false nofun ?_
    rintro ⟨call, listed, same⟩
    exact absurd (List.countP_eq_zero.mp count.symm call listed) (by simpa using same)
  · rw [if_neg fresh]
    refine iff_of_true ?_ ?_
    · rw [← count]
      rfl
    · have positive := List.length_pos_iff.mpr fresh
      rw [count, List.countP_pos_iff] at positive
      simpa using positive

end Mapping

/-- The logic links of a physical link are counted, by a table whose comparison is an order, exactly
when something was mapped to it and the links in use are ordered alike by both addresses. -/
theorem counted_iff (calls : List (L × Link A)) (plink : Link A) :
    Counted calls plink ↔
      (∀ a ∈ used calls plink, ∀ b ∈ used calls plink, a.src < b.src → a.dest ≤ b.dest) ∧
        ∃ call ∈ calls, call.2 = plink := by
  have known : ∀ call ∈ calls, call.2 ∈ used calls plink := fun call listed =>
    Or.inr ⟨call, listed, rfl⟩
  have asked : plink ∈ used calls plink := Or.inl rfl
  rw [← strictWeakOn_iff]
  constructor
  · rintro ⟨order, -, table, reached, number⟩
    obtain ⟨table', reached', h⟩ := tabled_mapAll order known
    rw [reached] at reached'
    obtain rfl := Except.ok.inj reached'
    exact ⟨order, (h.number asked).mp number⟩
  · rintro ⟨order, mapped⟩
    obtain ⟨table, reached, h⟩ := tabled_mapAll order known
    exact ⟨order, fun a _ b _ => incomparable_iff a b, table, reached,
      (h.number asked).mpr mapped⟩

/-- Two logic links over one physical link and one over another, ordered alike. -/
def threeCalls : List (String × Link ℕ) := [("a", ⟨0, 1⟩), ("b", ⟨2, 3⟩), ("c", ⟨0, 1⟩)]

theorem threeCalls_counted : Counted threeCalls ⟨0, 1⟩ := by
  refine (counted_iff threeCalls ⟨0, 1⟩).mpr ⟨?_, ("a", ⟨0, 1⟩), by simp [threeCalls], rfl⟩
  have either : ∀ l ∈ used threeCalls ⟨0, 1⟩, l = ⟨0, 1⟩ ∨ l = ⟨2, 3⟩ := by
    rintro l (rfl | ⟨call, listed, rfl⟩)
    · exact Or.inl rfl
    · simp only [threeCalls, List.mem_cons, List.not_mem_nil, or_false] at listed
      rcases listed with rfl | rfl | rfl <;> simp
  intro a ha b hb
  rcases either a ha with rfl | rfl <;> rcases either b hb with rfl | rfl <;> decide

/-- Opposite links are each below the other, and a link without logic links has no answer. -/
theorem opposite_unordered :
    less (⟨0, 1⟩ : Link ℕ) ⟨1, 0⟩ = true ∧ less (⟨1, 0⟩ : Link ℕ) ⟨0, 1⟩ = true ∧
      ¬ Counted [("a", (⟨0, 1⟩ : Link ℕ)), ("b", ⟨1, 0⟩)] ⟨0, 1⟩ ∧
      ¬ Counted ([] : List (String × Link ℕ)) ⟨0, 1⟩ := by
  have below : less (⟨0, 1⟩ : Link ℕ) ⟨1, 0⟩ = true := by decide
  have above : less (⟨1, 0⟩ : Link ℕ) ⟨0, 1⟩ = true := by decide
  refine ⟨below, above, ?_, ?_⟩
  · intro counted
    have := counted.order.asymm ⟨0, 1⟩ (Or.inl rfl) ⟨1, 0⟩
      (Or.inr ⟨("b", ⟨1, 0⟩), by simp, rfl⟩) below
    rw [above] at this
    cases this
  · intro counted
    obtain ⟨table, reached, number⟩ := counted.number
    obtain rfl := Except.ok.inj reached
    cases number

end Kista.Resources.MappedLinks
