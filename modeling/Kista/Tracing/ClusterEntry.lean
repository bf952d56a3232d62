/- Kista/Tracing/ClusterEntry
   source: src/src/tikz_activity_trace.cpp, task_info_t.cpp, sched_types.hpp
   digest: The entry that the compact activity trace writes for a scheduler and its tasks, the labels
   of the tasks, and when an entry tells who holds the processor. -/

import Kista.Tracing.UnfoldedTrace

set_option autoImplicit false
set_option relaxedAutoImplicit false

namespace Kista.Tracing.ClusterEntry

open Containers.OrderedMap
open Containers.LinearKeys
open UnfoldedTrace

variable {τ ρ : Type}

/-- The tasks in the order of their creation, and those that each scheduler has been assigned. -/
structure Clusters (τ ρ : Type) extends Registry τ ρ where
  taskVector : List τ
  nodup : taskVector.Nodup
  created : ∀ t, t ∈ taskVector
  tasksAssigned : ρ → List τ

/-- The id is an unsigned int. -/
def Clusters.kistaId [DecidableEq τ] (clusters : Clusters τ ρ) (t : τ) : ℕ :=
  clusters.taskVector.idxOf t % 2 ^ 32

/-- `std::to_string(kista_id).c_str()[0]`. -/
def firstDigit (n : ℕ) : Char := (Nat.toDigits 10 n).head Nat.toDigits_ne_nil

def Clusters.label [DecidableEq τ] (clusters : Clusters τ ρ) (t : τ) : Char :=
  firstDigit (clusters.kistaId t)

def markScheduler (schedExecutingFound : Bool) (currentTime : ℕ) (table : Entries ℕ Char) :
    Entries ℕ Char :=
  if schedExecutingFound then assign less currentTime 'S' table else table

/-- The label of every task that executes, each over the one before, with `tasks_executing`. -/
def markTasks (label : τ → Char) (tasksAssigned : List τ) (executing : τ → Bool) (currentTime : ℕ)
    (table : Entries ℕ Char) : ℕ × Entries ℕ Char :=
  tasksAssigned.foldl (fun written t =>
    if executing t then (written.1 + 1, assign less currentTime (label t) written.2)
    else written) (0, table)

/-- The entry of a cluster: the idle mark is for an event that has found nothing executing. -/
def writeCluster (label : τ → Char) (tasksAssigned : List τ)
    (clusterEvent schedExecutingFound : Bool) (executing : τ → Bool) (currentTime : ℕ)
    (table : Entries ℕ Char) : Entries ℕ Char :=
  let written := markTasks label tasksAssigned executing currentTime
    (markScheduler schedExecutingFound currentTime table)
  if clusterEvent && !schedExecutingFound && written.1 == 0 then
    assign less currentTime 'X' written.2
  else written.2

/-! ### One entry -/

/-- What is left of the writes for one cluster. -/
def mark (label : τ → Char) (tasksAssigned : List τ) (schedExecutingFound : Bool)
    (executing : τ → Bool) : Char :=
  ((tasksAssigned.filter executing).getLast?.map label).getD
    (if schedExecutingFound then 'S' else 'X')

/-- A task that has been found, or the mark of the scheduler or the idle one. -/
theorem mark_cases (label : τ → Char) (tasks : List τ) (found : Bool) (executing : τ → Bool) :
    (∃ u ∈ tasks, executing u = true ∧ mark label tasks found executing = label u) ∨
      (∀ u ∈ tasks, ¬ executing u = true) ∧
        mark label tasks found executing = if found = true then 'S' else 'X' := by
  cases hlast : (tasks.filter executing).getLast? with
  | some u =>
    obtain ⟨listed, runs⟩ := List.mem_filter.mp (List.mem_of_getLast? hlast)
    refine .inl ⟨u, listed, runs, ?_⟩
    rw [mark, hlast]
    rfl
  | none =>
    refine .inr ⟨List.filter_eq_nil_iff.mp (List.getLast?_eq_none_iff.mp hlast), ?_⟩
    rw [mark, hlast]
    rfl

section Write

variable {label : τ → Char} {tasks : List τ} {event found : Bool} {executing : τ → Bool} {t : ℕ}
  {table : Entries ℕ Char}

theorem increasing_markScheduler (h : Increasing table) :
    Increasing (markScheduler found t table) := by
  rw [markScheduler]
  split
  · exact h.assign t 'S'
  · exact h

theorem find_markScheduler (h : Increasing table) (wanted : ℕ) :
    find less wanted (markScheduler found t table) =
      if found = true ∧ t = wanted then some 'S' else find less wanted table := by
  rw [markScheduler]
  split
  · rename_i scheduling
    rw [find_assign_key h]
    simp only [scheduling, true_and]
  · rename_i idle
    exact (if_neg fun both => idle both.1).symm

theorem markTasks_concat {u : τ} : markTasks label (tasks ++ [u]) executing t table =
    if executing u = true then
      ((markTasks label tasks executing t table).1 + 1,
        assign less t (label u) (markTasks label tasks executing t table).2)
    else markTasks label tasks executing t table := by
  rw [markTasks, List.foldl_append]
  rfl

theorem markTasks_count :
    (markTasks label tasks executing t table).1 = (tasks.filter executing).length := by
  induction tasks using List.reverseRecOn with
  | nil => rfl
  | append_singleton tasks u ih =>
    rw [markTasks_concat, List.filter_append, List.length_append, ← ih]
    by_cases runs : executing u = true
    · simp [runs]
    · simp [runs]

theorem increasing_markTasks (h : Increasing table) :
    Increasing (markTasks label tasks executing t table).2 := by
  induction tasks using List.reverseRecOn with
  | nil => exact h
  | append_singleton tasks u ih =>
    rw [markTasks_concat]
    split
    · exact ih.assign t (label u)
    · exact ih

/-- The last task that executes has the entry. -/
theorem find_markTasks (h : Increasing table) (wanted : ℕ) :
    find less wanted (markTasks label tasks executing t table).2 =
      if t = wanted then
        ((tasks.filter executing).getLast?.map label).or (find less wanted table)
      else find less wanted table := by
  induction tasks using List.reverseRecOn with
  | nil =>
    split
    · rfl
    · rfl
  | append_singleton tasks u ih =>
    rw [markTasks_concat, List.filter_append]
    by_cases runs : executing u = true
    · rw [if_pos runs, find_assign_key (increasing_markTasks h), ih]
      split
      · simp [runs]
      · rfl
    · rw [if_neg runs, ih]
      simp [runs]

theorem increasing_writeCluster (h : Increasing table) :
    Increasing (writeCluster label tasks event found executing t table) := by
  have hwritten : Increasing
      (markTasks label tasks executing t (markScheduler found t table)).2 :=
    increasing_markTasks (increasing_markScheduler h)
  rw [writeCluster]
  split
  · exact hwritten.assign t 'X'
  · exact hwritten

theorem find_writeCluster_other (h : Increasing table) {wanted : ℕ} (other : t ≠ wanted) :
    find less wanted (writeCluster label tasks event found executing t table) =
      find less wanted table := by
  have hwritten : find less wanted
      (markTasks label tasks executing t (markScheduler found t table)).2 =
        find less wanted table := by
    rw [find_markTasks (increasing_markScheduler h), if_neg other, find_markScheduler h,
      if_neg fun both => other both.2]
  rw [writeCluster]
  split
  · rw [find_assign_key (increasing_markTasks (increasing_markScheduler h)), if_neg other, hwritten]
  · exact hwritten

/-- After an event the entry is the mark. -/
theorem find_writeCluster_self (h : Increasing table) :
    find less t (writeCluster label tasks true found executing t table) =
      some (mark label tasks found executing) := by
  have hsched : Increasing (markScheduler found t table) := increasing_markScheduler h
  have hfind : find less t
      (markTasks label tasks executing t (markScheduler found t table)).2 = _ :=
    find_markTasks hsched t
  rw [if_pos rfl, find_markScheduler h] at hfind
  rw [writeCluster, markTasks_count, mark]
  cases hlast : (tasks.filter executing).getLast? with
  | some u =>
    have hpos : (tasks.filter executing).length ≠ 0 := by
      rw [Ne, List.length_eq_zero_iff, ← List.getLast?_eq_none_iff, hlast]
      simp
    rw [if_neg (by simp [hpos]), hfind, hlast]
    rfl
  | none =>
    have hnone : tasks.filter executing = [] := List.getLast?_eq_none_iff.mp hlast
    rw [hnone, List.length_nil]
    cases found with
    | true =>
      rw [if_neg (by simp), hfind, hlast, if_pos ⟨rfl, rfl⟩]
      rfl
    | false =>
      rw [if_pos (by simp), find_assign_key (increasing_markTasks hsched), if_pos rfl]
      rfl

theorem find_writeCluster_silent (h : Increasing table)
    (nobody : ∀ u ∈ tasks, ¬ executing u = true) (wanted : ℕ) :
    find less wanted (writeCluster label tasks false false executing t table) =
      find less wanted table := by
  have hnone : tasks.filter executing = [] := List.filter_eq_nil_iff.mpr nobody
  rw [writeCluster, if_neg (by simp), find_markTasks (increasing_markScheduler h), hnone]
  split
  · rfl
  · rfl

/-- A cluster with an event gets its mark, a cluster without keeps its entries. -/
theorem find_writeCluster (h : Increasing table) (schedEvent : found = true → event = true)
    (taskEvent : ∀ u ∈ tasks, executing u = true → event = true) (wanted : ℕ) :
    find less wanted (writeCluster label tasks event found executing t table) =
      if event = true ∧ t = wanted then some (mark label tasks found executing)
      else find less wanted table := by
  cases event with
  | true =>
    by_cases here : t = wanted
    · subst here
      rw [find_writeCluster_self h, if_pos ⟨rfl, rfl⟩]
    · rw [find_writeCluster_other h here, if_neg fun both => here both.2]
  | false =>
    have hfound : found = false := by
      cases found with
      | true => exact (schedEvent rfl).symm
      | false => rfl
    rw [hfound, if_neg fun both => Bool.false_ne_true both.1,
      find_writeCluster_silent h fun u listed runs => Bool.false_ne_true (taskEvent u listed runs)]

end Write

/-! ### The labels -/

theorem firstDigit_isDigit (n : ℕ) : (firstDigit n).isDigit = true :=
  Nat.isDigit_of_mem_toDigits (by decide) le_rfl (List.head_mem Nat.toDigits_ne_nil)

theorem firstDigit_ne {mark : Char} (other : mark.isDigit = false) (n : ℕ) :
    firstDigit n ≠ mark := by
  rintro rfl
  rw [firstDigit_isDigit] at other
  cases other

theorem firstDigit_injective {n m : ℕ} (hn : n < 10) (hm : m < 10)
    (same : firstDigit n = firstDigit m) : n = m := by
  have hall : ∀ n < 10, ∀ m < 10, firstDigit n = firstDigit m → n = m := by decide
  exact hall n hn m hm same

section Labels

variable [DecidableEq τ] (clusters : Clusters τ ρ)

theorem kistaId_getElem {n : ℕ} (small : n < 2 ^ 32) (inside : n < clusters.taskVector.length) :
    clusters.kistaId clusters.taskVector[n] = n := by
  rw [Clusters.kistaId, clusters.nodup.idxOf_getElem, Nat.mod_eq_of_lt small]

/-- The eleventh task has the label of the second one. -/
theorem labels_distinct_iff :
    (∀ t u, t ≠ u → clusters.label t ≠ clusters.label u) ↔ clusters.taskVector.length ≤ 10 := by
  constructor
  · intro distinct
    by_contra many
    have hsecond : 1 < clusters.taskVector.length := by omega
    have heleventh : 10 < clusters.taskVector.length := by omega
    have hne : clusters.taskVector[1] ≠ clusters.taskVector[10] := by
      intro same
      have hpos := (clusters.nodup.getElem_inj_iff).mp same
      omega
    apply distinct _ _ hne
    rw [Clusters.label, Clusters.label, kistaId_getElem clusters (by norm_num),
      kistaId_getElem clusters (by norm_num)]
    decide
  · intro few t u hne same
    have hid : ∀ v, clusters.kistaId v < 10 ∧
        clusters.taskVector[clusters.kistaId v]? = some v := by
      intro v
      have hlt := List.idxOf_lt_length_iff.mpr (clusters.created v)
      have hsame : clusters.kistaId v = clusters.taskVector.idxOf v :=
        Nat.mod_eq_of_lt (by omega)
      rw [hsame]
      exact ⟨by omega, List.getElem?_idxOf (clusters.created v)⟩
    have hids := firstDigit_injective (hid t).1 (hid u).1 same
    have htask := (hid t).2
    rw [hids, (hid u).2] at htask
    exact hne (Option.some.inj htask).symm

end Labels

/-! ### Who holds the processor -/

/-- At most one of a scheduler and its tasks is executing. -/
structure AtMostOne (clusters : Clusters τ ρ) (s : ρ) (now : Snapshot τ ρ) : Prop where
  alone : now.sched s = .scheduling →
    ∀ t ∈ clusters.tasksAssigned s, now.task t ≠ .executing
  unique : ∀ t ∈ clusters.tasksAssigned s, ∀ u ∈ clusters.tasksAssigned s,
    now.task t = .executing → now.task u = .executing → t = u

/-- The entry is the mark of whoever is executing. -/
structure Tells [DecidableEq τ] (clusters : Clusters τ ρ) (s : ρ) (scheduling : Prop)
    (executing : τ → Prop) (entry : Option Char) : Prop where
  sched : scheduling → entry = some 'S'
  task : ∀ t ∈ clusters.tasksAssigned s, executing t → entry = some (clusters.label t)
  idle : entry = some 'X' ↔ ¬ scheduling ∧ ∀ t ∈ clusters.tasksAssigned s, ¬ executing t

/-- The same states of a scheduler and its tasks. -/
structure SameCluster (clusters : Clusters τ ρ) (s : ρ) (a b : Snapshot τ ρ) : Prop where
  sched : a.sched s = b.sched s
  task : ∀ t ∈ clusters.tasksAssigned s, a.task t = b.task t

section Holder

variable [DecidableEq τ] {clusters : Clusters τ ρ} {s : ρ} {before now : Snapshot τ ρ}

theorem label_ne (t : τ) : clusters.label t ≠ 'S' ∧ clusters.label t ≠ 'X' :=
  ⟨firstDigit_ne (by decide) _, firstDigit_ne (by decide) _⟩

/-- The label of the task that executes tells the truth. -/
theorem tells_label (one : AtMostOne clusters s now) {u : τ}
    (listed : u ∈ clusters.tasksAssigned s) (hu : now.task u = .executing) :
    Tells clusters s (now.sched s = .scheduling) (fun t => now.task t = .executing)
      (some (clusters.label u)) where
  sched scheduling := absurd hu (one.alone scheduling u listed)
  task t ht hexec := by rw [one.unique t ht u listed hexec hu]
  idle := by
    constructor
    · intro same
      exact absurd (Option.some.inj same) (label_ne u).2
    · intro nobody
      exact absurd hu (nobody.2 u listed)

/-- So do the other two marks while no task executes. -/
theorem tells_plain (nobody : ∀ t ∈ clusters.tasksAssigned s, now.task t ≠ .executing)
    {found : Bool} (hfound : found = true ↔ now.sched s = .scheduling) :
    Tells clusters s (now.sched s = .scheduling) (fun t => now.task t = .executing)
      (some (if found = true then 'S' else 'X')) where
  sched scheduling := by rw [if_pos (hfound.mpr scheduling)]
  task t ht hexec := absurd hexec (nobody t ht)
  idle := by
    constructor
    · intro same
      refine ⟨fun scheduling => ?_, nobody⟩
      rw [if_pos (hfound.mpr scheduling)] at same
      exact absurd (Option.some.inj same) (by decide)
    · intro idle
      rw [if_neg fun hf => idle.1 (hfound.mp hf)]

/-- A mark tells the truth if everybody who is executing has been found. -/
theorem tells_mark_iff (one : AtMostOne clusters s now) {found : Bool} {executing : τ → Bool}
    (hfound : found = true → now.sched s = .scheduling)
    (hexecuting : ∀ t, executing t = true → now.task t = .executing) :
    Tells clusters s (now.sched s = .scheduling) (fun t => now.task t = .executing)
        (some (mark clusters.label (clusters.tasksAssigned s) found executing)) ↔
      (now.sched s = .scheduling → found = true) ∧
        ∀ t ∈ clusters.tasksAssigned s, now.task t = .executing → executing t = true := by
  rcases mark_cases clusters.label (clusters.tasksAssigned s) found executing with
    ⟨u, listed, runs, hmark⟩ | ⟨hnone, hmark⟩
  · -- a task has been found, so it is the one that executes
    have hu := hexecuting u runs
    rw [hmark]
    constructor
    · intro _
      refine ⟨fun scheduling => absurd hu (one.alone scheduling u listed), fun t ht hexec => ?_⟩
      rwa [one.unique t ht u listed hexec hu]
    · exact fun _ => tells_label one listed hu
  · rw [hmark]
    constructor
    · intro tells
      constructor
      · intro scheduling
        by_contra missed
        have hentry := tells.sched scheduling
        rw [if_neg missed] at hentry
        exact absurd (Option.some.inj hentry) (by decide)
      · intro t ht hexec
        have hentry := Option.some.inj (tells.task t ht hexec)
        split at hentry
        · exact absurd hentry.symm (label_ne t).1
        · exact absurd hentry.symm (label_ne t).2
    · rintro ⟨hsched, htask⟩
      exact tells_plain (fun t ht hexec => hnone t ht (htask t ht hexec)) ⟨hfound, hsched⟩

namespace SameCluster

variable {a b : Snapshot τ ρ}

omit [DecidableEq τ] in
theorem atMostOne (same : SameCluster clusters s a b) (one : AtMostOne clusters s a) :
    AtMostOne clusters s b where
  alone scheduling t ht := by
    rw [← same.task t ht]
    exact one.alone (same.sched.trans scheduling) t ht
  unique t ht u hu hexec hother :=
    one.unique t ht u hu ((same.task t ht).trans hexec) ((same.task u hu).trans hother)

theorem tells (same : SameCluster clusters s a b) {entry : Option Char}
    (h : Tells clusters s (b.sched s = .scheduling) (fun t => b.task t = .executing) entry) :
    Tells clusters s (a.sched s = .scheduling) (fun t => a.task t = .executing) entry where
  sched scheduling := h.sched (same.sched.symm.trans scheduling)
  task t ht hexec := h.task t ht ((same.task t ht).symm.trans hexec)
  idle := by
    rw [h.idle, same.sched]
    have htasks : ∀ t ∈ clusters.tasksAssigned s, (b.task t = .executing ↔ a.task t = .executing) :=
      fun t ht => by rw [same.task t ht]
    constructor
    · rintro ⟨hsched, nobody⟩
      exact ⟨hsched, fun t ht hexec => nobody t ht ((htasks t ht).mpr hexec)⟩
    · rintro ⟨hsched, nobody⟩
      exact ⟨hsched, fun t ht hexec => nobody t ht ((htasks t ht).mp hexec)⟩

omit [DecidableEq τ] in
theorem symm (same : SameCluster clusters s a b) : SameCluster clusters s b a :=
  ⟨same.sched.symm, fun t ht => (same.task t ht).symm⟩

end SameCluster

end Holder

end Kista.Tracing.ClusterEntry
