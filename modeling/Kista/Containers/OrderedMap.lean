/- Kista/Containers/OrderedMap
   source: an ordered map over a comparison function, independent of any program
   digest: Sorted entries searched with the comparison, and what a search finds when the
   comparison is a strict weak order on the keys in use. -/

import Mathlib.Data.Set.Defs
import Mathlib.Data.List.Induction

set_option autoImplicit false
set_option relaxedAutoImplicit false

/-!
A search skips the entries below the key and stops at the first one that is not. It relies on the
comparison being a strict weak order on the keys of the map and the key searched for; nothing is
promised otherwise.
-/

namespace Kista.Containers.OrderedMap

variable {κ α : Type*} {lt : κ → κ → Bool} {S : Set κ}

/-- Neither key is below the other. -/
def Incomparable (lt : κ → κ → Bool) (a b : κ) : Prop := lt a b = false ∧ lt b a = false

instance (lt : κ → κ → Bool) (a b : κ) : Decidable (Incomparable lt a b) :=
  inferInstanceAs (Decidable (_ ∧ _))

structure StrictWeakOn (lt : κ → κ → Bool) (S : Set κ) : Prop where
  irrefl : ∀ a ∈ S, lt a a = false
  asymm : ∀ a ∈ S, ∀ b ∈ S, lt a b = true → lt b a = false
  trans : ∀ a ∈ S, ∀ b ∈ S, ∀ c ∈ S, lt a b = true → lt b c = true → lt a c = true
  incomparable_trans : ∀ a ∈ S, ∀ b ∈ S, ∀ c ∈ S,
    Incomparable lt a b → Incomparable lt b c → Incomparable lt a c

abbrev Entries (κ α : Type*) := List (κ × α)

def find (lt : κ → κ → Bool) (key : κ) : Entries κ α → Option α
  | [] => none
  | (k, value) :: rest =>
    if lt k key then find lt key rest
    else if lt key k then none
    else some value

/-- Assignment through the key: an incomparable key that is already there stays. -/
def assign (lt : κ → κ → Bool) (key : κ) (value : α) : Entries κ α → Entries κ α
  | [] => [(key, value)]
  | (k, old) :: rest =>
    if lt k key then (k, old) :: assign lt key value rest
    else if lt key k then (key, value) :: (k, old) :: rest
    else (k, value) :: rest

theorem Incomparable.symm {a b : κ} (h : Incomparable lt a b) : Incomparable lt b a :=
  ⟨h.2, h.1⟩

/-- The keys belong to the set on which the comparison is an order, and increase. -/
structure Sorted (lt : κ → κ → Bool) (S : Set κ) (entries : Entries κ α) : Prop where
  keys : ∀ entry ∈ entries, entry.1 ∈ S
  increasing : entries.Pairwise fun first second => lt first.1 second.1 = true

theorem sorted_nil : Sorted lt S ([] : Entries κ α) where
  keys _ absurd := nomatch absurd
  increasing := List.Pairwise.nil

theorem Sorted.tail {entry : κ × α} {rest : Entries κ α} (h : Sorted lt S (entry :: rest)) :
    Sorted lt S rest where
  keys e listed := h.keys e (List.mem_cons_of_mem entry listed)
  increasing := h.increasing.of_cons

/-- Being above one key or the other does not depend on the representative. -/
theorem StrictWeakOn.congr_right (h : StrictWeakOn lt S) {a b c : κ} (ha : a ∈ S) (hb : b ∈ S)
    (hc : c ∈ S) (same : Incomparable lt a b) (below : lt c a = true) : lt c b = true := by
  by_contra none
  have not_below : lt c b = false := by simpa using none
  cases reverse : lt b c with
  | false =>
    have := (h.incomparable_trans a ha b hb c hc same ⟨reverse, not_below⟩).2
    rw [below] at this
    cases this
  | true =>
    have := h.trans b hb c hc a ha reverse below
    rw [same.2] at this
    cases this

theorem mem_assign {key : κ} {value : α} {entries : Entries κ α} {entry : κ × α}
    (listed : entry ∈ assign lt key value entries) :
    entry.1 = key ∨ ∃ old ∈ entries, old.1 = entry.1 := by
  induction entries with
  | nil =>
    rw [assign, List.mem_singleton] at listed
    exact Or.inl (by rw [listed])
  | cons first rest ih =>
    obtain ⟨k, old⟩ := first
    rw [assign] at listed
    split at listed
    · rcases List.mem_cons.mp listed with rfl | later
      · exact Or.inr ⟨(k, old), List.mem_cons_self, rfl⟩
      · rcases ih later with new | ⟨e, member, same⟩
        · exact Or.inl new
        · exact Or.inr ⟨e, List.mem_cons_of_mem _ member, same⟩
    · split at listed
      · rcases List.mem_cons.mp listed with rfl | present
        · exact Or.inl rfl
        · exact Or.inr ⟨entry, present, rfl⟩
      · rcases List.mem_cons.mp listed with rfl | later
        · exact Or.inr ⟨(k, old), List.mem_cons_self, rfl⟩
        · exact Or.inr ⟨entry, List.mem_cons_of_mem _ later, rfl⟩

theorem Sorted.assign (order : StrictWeakOn lt S) {key : κ} (used : key ∈ S) (value : α)
    {entries : Entries κ α} (h : Sorted lt S entries) :
    Sorted lt S (OrderedMap.assign lt key value entries) where
  keys entry listed := by
    rcases mem_assign listed with rfl | ⟨old, member, same⟩
    · exact used
    · rw [← same]
      exact h.keys old member
  increasing := by
    induction entries with
    | nil =>
      rw [OrderedMap.assign]
      exact List.pairwise_singleton _ _
    | cons first rest ih =>
      obtain ⟨k, old⟩ := first
      have hk := h.keys (k, old) List.mem_cons_self
      obtain ⟨head, tail⟩ := List.pairwise_cons.mp h.increasing
      rw [OrderedMap.assign]
      split
      · rename_i below
        refine List.pairwise_cons.mpr ⟨fun entry listed => ?_, ih h.tail⟩
        rcases mem_assign listed with new | ⟨e, member, same⟩
        · rw [new]
          exact below
        · rw [← same]
          exact head e member
      · split
        · rename_i above
          refine List.pairwise_cons.mpr ⟨fun entry listed => ?_, h.increasing⟩
          rcases List.mem_cons.mp listed with rfl | later
          · exact above
          · exact order.trans key used k hk entry.1
              (h.keys entry (List.mem_cons_of_mem _ later)) above (head entry later)
        · exact List.pairwise_cons.mpr ⟨head, tail⟩

/-- A search finds the value assigned last to an incomparable key, and is not disturbed by an
assignment to any other. -/
theorem find_assign (order : StrictWeakOn lt S) {key wanted : κ} (used : key ∈ S)
    (asked : wanted ∈ S) (value : α) {entries : Entries κ α} (h : Sorted lt S entries) :
    find lt wanted (assign lt key value entries) =
      if Incomparable lt key wanted then some value else find lt wanted entries := by
  induction entries with
  | nil =>
    simp only [assign, find]
    cases below : lt key wanted <;> cases above : lt wanted key <;>
      simp [Incomparable, below, above]
  | cons first rest ih =>
    obtain ⟨k, old⟩ := first
    have hk := h.keys (k, old) List.mem_cons_self
    rw [assign]
    split
    · rename_i before
      rw [find, find]
      by_cases same : Incomparable lt key wanted
      · rw [if_pos (order.congr_right used asked hk same before), ih h.tail, if_pos same,
          if_pos same]
      · rw [ih h.tail, if_neg same, if_neg same]
    · rename_i not_before
      have not_before : lt k key = false := by simpa using not_before
      split
      · rename_i after
        rw [find]
        cases below : lt key wanted with
        | true =>
          have other : ¬ Incomparable lt key wanted := fun same => by
            rw [same.1] at below
            cases below
          rw [if_pos rfl, if_neg other]
        | false =>
          cases above : lt wanted key with
          | true =>
            have other : ¬ Incomparable lt key wanted := fun same => by
              rw [same.2] at above
              cases above
            have first_after := order.trans wanted asked key used k hk above after
            have not_first := order.asymm wanted asked k hk first_after
            rw [if_neg Bool.false_ne_true, if_pos rfl, if_neg other, find, not_first,
              first_after, if_neg Bool.false_ne_true, if_pos rfl]
          | false =>
            rw [if_neg Bool.false_ne_true, if_neg Bool.false_ne_true, if_pos ⟨below, above⟩]
      · rename_i not_after
        have not_after : lt key k = false := by simpa using not_after
        have at_key : Incomparable lt key k := ⟨not_after, not_before⟩
        rw [find, find]
        by_cases same : Incomparable lt key wanted
        · have at_first := order.incomparable_trans k hk key used wanted asked at_key.symm same
          rw [at_first.1, at_first.2, if_neg Bool.false_ne_true, if_neg Bool.false_ne_true,
            if_pos same]
        · rw [if_neg same]
          cases below : lt k wanted with
          | true => rw [if_pos rfl, if_pos rfl]
          | false =>
            cases above : lt wanted k with
            | true => rw [if_neg Bool.false_ne_true, if_pos rfl, if_neg Bool.false_ne_true,
                if_pos rfl]
            | false =>
              exact absurd (order.incomparable_trans key used k hk wanted asked at_key
                ⟨below, above⟩) same

section Runs

/-- A map filled by assignments, the first one first. -/
def assignAll (lt : κ → κ → Bool) (assignments : List (κ × α)) : Entries κ α :=
  assignments.foldl (fun entries entry => assign lt entry.1 entry.2 entries) []

/-- The value of the last assignment whose key cannot be told from the one wanted. -/
def lastAssigned (lt : κ → κ → Bool) (wanted : κ) (assignments : List (κ × α)) : Option α :=
  (assignments.reverse.find? fun entry => Incomparable lt entry.1 wanted).map Prod.snd

theorem assignAll_append (assignments : List (κ × α)) (key : κ) (value : α) :
    assignAll lt (assignments ++ [(key, value)]) =
      assign lt key value (assignAll lt assignments) := by
  simp [assignAll, List.foldl_append]

theorem lastAssigned_append (wanted : κ) (assignments : List (κ × α)) (key : κ) (value : α) :
    lastAssigned lt wanted (assignments ++ [(key, value)]) =
      if Incomparable lt key wanted then some value else lastAssigned lt wanted assignments := by
  rw [lastAssigned, List.reverse_append, List.reverse_singleton, List.singleton_append,
    List.find?_cons]
  by_cases same : Incomparable lt key wanted <;> simp [same, lastAssigned]

theorem sorted_assignAll (order : StrictWeakOn lt S) {assignments : List (κ × α)}
    (used : ∀ entry ∈ assignments, entry.1 ∈ S) : Sorted lt S (assignAll lt assignments) := by
  induction assignments using List.reverseRecOn with
  | nil => exact sorted_nil
  | append_singleton assignments entry ih =>
    rw [assignAll_append]
    refine (ih fun e listed => used e (List.mem_append_left _ listed)).assign order ?_ entry.2
    exact used entry (by simp)

/-- Under a strict weak order on the keys in use a search finds what was assigned last. -/
theorem find_assignAll (order : StrictWeakOn lt S) {assignments : List (κ × α)} {wanted : κ}
    (used : ∀ entry ∈ assignments, entry.1 ∈ S) (asked : wanted ∈ S) :
    find lt wanted (assignAll lt assignments) = lastAssigned lt wanted assignments := by
  induction assignments using List.reverseRecOn with
  | nil => rfl
  | append_singleton assignments entry ih =>
    have before : ∀ e ∈ assignments, e.1 ∈ S := fun e listed =>
      used e (List.mem_append_left _ listed)
    rw [assignAll_append, lastAssigned_append, ← ih before]
    exact find_assign order (used entry (by simp)) asked entry.2 (sorted_assignAll order before)

end Runs

end Kista.Containers.OrderedMap
