/- Kista/Network/SendOrder
   source: src/src/network_interface.cpp
   digest: What a dispatch takes out of a send queue that is sorted by request time. -/

import Mathlib.Data.List.Pairwise
import Kista.Network.Interface

set_option autoImplicit false
set_option relaxedAutoImplicit false

namespace Kista.Network.SendOrder

open Interface

variable {κ : Type}

/-- The order of the multimap: earlier request times first. -/
def InOrder (queue : List (SendRequest κ)) : Prop :=
  queue.Pairwise fun first second => first.requestTime ≤ second.requestTime

/-- A request of minimal time is served and, if there is a schedule, one whose link comes first in
it among those of that time; the others stay queued. -/
structure Serves [DecidableEq κ] (schedule : List κ) (queue : List (SendRequest κ))
    (req : SendRequest κ) (rest : List (SendRequest κ)) : Prop where
  taken : queue.Perm (req :: rest)
  kept : rest.Sublist queue
  earliest : ∀ other ∈ queue, req.requestTime ≤ other.requestTime
  first : schedule ≠ [] → ∀ other ∈ queue, other.requestTime = req.requestTime →
    schedule.idxOf req.logicLink ≤ schedule.idxOf other.logicLink

theorem mem_insertRequest {req other : SendRequest κ} {queue : List (SendRequest κ)} :
    other ∈ insertRequest req queue ↔ other = req ∨ other ∈ queue := by
  rw [(insertRequest_perm req queue).mem_iff, List.mem_cons]

theorem InOrder.insertRequest {queue : List (SendRequest κ)} (h : InOrder queue)
    (req : SendRequest κ) : InOrder (insertRequest req queue) := by
  induction queue with
  | nil => exact List.pairwise_singleton _ _
  | cons head rest ih =>
    obtain ⟨least, tail⟩ := List.pairwise_cons.mp h
    simp only [Interface.insertRequest]
    split
    · rename_i less
      refine List.pairwise_cons.mpr ⟨?_, h⟩
      intro other mem
      rcases List.mem_cons.mp mem with rfl | later
      · exact Nat.le_of_lt less
      · exact Nat.le_trans (Nat.le_of_lt less) (least other later)
    · rename_i notLess
      refine List.pairwise_cons.mpr ⟨?_, ih tail⟩
      intro other mem
      rcases mem_insertRequest.mp mem with rfl | later
      · exact Nat.le_of_not_lt notLess
      · exact least other later

/-- A request that is not earlier than the queued ones is put last. -/
theorem insertRequest_of_latest {req : SendRequest κ} {queue : List (SendRequest κ)}
    (latest : ∀ other ∈ queue, other.requestTime ≤ req.requestTime) :
    insertRequest req queue = queue ++ [req] := by
  induction queue with
  | nil => rfl
  | cons head rest ih =>
    have here := latest head List.mem_cons_self
    have later := ih fun other mem => latest other (List.mem_cons_of_mem _ mem)
    rw [Interface.insertRequest, if_neg (Nat.not_lt.mpr here), later]
    rfl

variable [DecidableEq κ]

theorem takeLink_eq_some {link : κ} {time : ℕ} {queue rest : List (SendRequest κ)}
    {req : SendRequest κ} (found : takeLink link time queue = some (req, rest)) :
    req.logicLink = link ∧ req.requestTime = time ∧ rest.Sublist queue := by
  induction queue generalizing rest with
  | nil => cases found
  | cons head tail ih =>
    unfold takeLink at found
    split at found
    · rename_i synchronous
      split at found
      · rename_i same
        cases found
        exact ⟨same, synchronous, List.sublist_cons_self _ _⟩
      · obtain ⟨⟨req', rest'⟩, later, same⟩ := Option.map_eq_some_iff.mp found
        cases same
        obtain ⟨links, times, kept⟩ := ih later
        exact ⟨links, times, kept.cons_cons head⟩
    · cases found

/-- The walk over the synchronous requests misses none of them. -/
theorem takeLink_eq_none {link : κ} {time : ℕ} {queue : List (SendRequest κ)}
    (sorted : InOrder queue) (least : ∀ other ∈ queue, time ≤ other.requestTime)
    (missed : takeLink link time queue = none) :
    ∀ other ∈ queue, other.requestTime = time → other.logicLink ≠ link := by
  induction queue with
  | nil => exact fun other mem => absurd mem List.not_mem_nil
  | cons head tail ih =>
    obtain ⟨before, tailSorted⟩ := List.pairwise_cons.mp sorted
    unfold takeLink at missed
    split at missed
    · split at missed
      · cases missed
      · rename_i different
        have later := ih tailSorted (fun other mem => least other (List.mem_cons_of_mem _ mem))
          (Option.map_eq_none_iff.mp missed)
        intro other mem times
        rcases List.mem_cons.mp mem with rfl | deeper
        · exact different
        · exact later other deeper times
    · rename_i notSynchronous
      -- the first request of a later time ends the range
      intro other mem times
      have first := least head List.mem_cons_self
      rcases List.mem_cons.mp mem with rfl | deeper
      · exact absurd times notSynchronous
      · have := before other deeper
        omega

/-- Among the synchronous requests the first link of the schedule wins. -/
theorem staticCommDispatch_eq_some {schedule : List κ} {time : ℕ}
    {queue rest : List (SendRequest κ)} {req : SendRequest κ} (sorted : InOrder queue)
    (least : ∀ other ∈ queue, time ≤ other.requestTime)
    (found : staticCommDispatch time queue schedule = some (req, rest)) :
    req.requestTime = time ∧ rest.Sublist queue ∧
      ∀ other ∈ queue, other.requestTime = time →
        schedule.idxOf req.logicLink ≤ schedule.idxOf other.logicLink := by
  induction schedule with
  | nil => cases found
  | cons link schedule ih =>
    rcases Option.or_eq_some_iff.mp found with here | ⟨missed, later⟩
    · obtain ⟨rfl, times, kept⟩ := takeLink_eq_some here
      refine ⟨times, kept, ?_⟩
      intro other mem same
      rw [List.idxOf_cons_self]
      exact Nat.zero_le _
    · obtain ⟨times, kept, first⟩ := ih later
      have others := takeLink_eq_none sorted least missed
      have queued : req ∈ queue :=
        (staticCommDispatch_perm later).mem_iff.mpr List.mem_cons_self
      refine ⟨times, kept, ?_⟩
      intro other mem same
      rw [List.idxOf_cons_ne _ (others req queued times).symm,
        List.idxOf_cons_ne _ (others other mem same).symm]
      exact Nat.succ_le_succ (first other mem same)

theorem staticCommDispatch_isSome {schedule : List κ} {time : ℕ} {queue : List (SendRequest κ)}
    (sorted : InOrder queue) (least : ∀ other ∈ queue, time ≤ other.requestTime)
    {req : SendRequest κ} (queued : req ∈ queue) (times : req.requestTime = time)
    (listed : req.logicLink ∈ schedule) :
    (staticCommDispatch time queue schedule).isSome = true := by
  induction schedule with
  | nil => cases listed
  | cons link schedule ih =>
    rw [staticCommDispatch, Option.isSome_or, Bool.or_eq_true]
    cases here : takeLink link time queue with
    | some found => exact .inl rfl
    | none =>
      right
      have different := takeLink_eq_none sorted least here req queued times
      exact ih ((List.mem_cons.mp listed).resolve_left different)

/-- What a dispatch takes out of a sorted queue. -/
theorem serves_of_dispatch {schedule : List κ} {queue rest : List (SendRequest κ)}
    {req : SendRequest κ} (sorted : InOrder queue)
    (found : dispatch schedule queue = some (req, rest)) : Serves schedule queue req rest := by
  have taken := dispatch_perm found
  rcases queue with _ | ⟨head, _ | ⟨second, queue⟩⟩
  · cases found
  · cases found
    refine ⟨taken, List.nil_sublist _, ?_, ?_⟩
    · intro other mem
      cases List.mem_singleton.mp mem
      exact Nat.le_refl _
    · intro _ other mem _
      cases List.mem_singleton.mp mem
      exact Nat.le_refl _
  · obtain ⟨before, -⟩ := List.pairwise_cons.mp sorted
    have least : ∀ other ∈ head :: second :: queue, head.requestTime ≤ other.requestTime := by
      intro other mem
      rcases List.mem_cons.mp mem with rfl | later
      · exact Nat.le_refl _
      · exact before other later
    simp only [dispatch] at found
    split at found
    · obtain ⟨times, kept, first⟩ := staticCommDispatch_eq_some sorted least found
      refine ⟨taken, kept, ?_, ?_⟩
      · intro other mem
        rw [times]
        exact least other mem
      · intro _ other mem same
        exact first other mem (same.trans times)
    · rename_i alone
      cases found
      refine ⟨taken, List.sublist_cons_self _ _, least, ?_⟩
      intro scheduled other mem same
      -- no other request has the time of the first one
      have apart : req.requestTime ≠ second.requestTime := fun equal => alone ⟨equal, scheduled⟩
      rcases List.mem_cons.mp mem with rfl | later
      · exact Nat.le_refl _
      · have next := before second List.mem_cons_self
        have behind : second.requestTime ≤ other.requestTime := by
          rcases List.mem_cons.mp later with rfl | deeper
          · exact Nat.le_refl _
          · exact (List.pairwise_cons.mp (List.pairwise_cons.mp sorted).2).1 other deeper
        omega

/-- What is served next is not earlier than what was served and not later than what stays. -/
theorem Serves.inOrder {schedule : List κ} {before queue rest : List (SendRequest κ)}
    {req : SendRequest κ} (h : Serves schedule queue req rest)
    (sorted : InOrder (before ++ queue)) : InOrder (before ++ [req] ++ rest) := by
  obtain ⟨served, queued, apart⟩ := List.pairwise_append.mp sorted
  rw [List.append_assoc, List.singleton_append]
  have member : ∀ other, other ∈ req :: rest → other ∈ queue := fun other mem =>
    h.taken.mem_iff.mpr mem
  refine List.pairwise_append.mpr ⟨served, List.pairwise_cons.mpr ⟨?_, ?_⟩, ?_⟩
  · intro other mem
    exact h.earliest other (member other (List.mem_cons_of_mem _ mem))
  · exact queued.sublist h.kept
  · intro done gone other mem
    exact apart done gone other (member other mem)

/-- A dispatch from a queue whose links are scheduled finds a request. -/
theorem dispatch_isSome {schedule : List κ} {queue : List (SendRequest κ)}
    (sorted : InOrder queue)
    (listed : schedule ≠ [] → ∀ req ∈ queue, req.logicLink ∈ schedule) (queued : queue ≠ []) :
    (dispatch schedule queue).isSome = true := by
  rcases queue with _ | ⟨head, _ | ⟨second, queue⟩⟩
  · exact absurd rfl queued
  · rfl
  · obtain ⟨before, -⟩ := List.pairwise_cons.mp sorted
    simp only [dispatch]
    split
    · rename_i synchronous
      refine staticCommDispatch_isSome sorted ?_ List.mem_cons_self rfl
        (listed synchronous.2 head List.mem_cons_self)
      intro other mem
      rcases List.mem_cons.mp mem with rfl | later
      · exact Nat.le_refl _
      · exact before other later
    · rfl

end Kista.Network.SendOrder
