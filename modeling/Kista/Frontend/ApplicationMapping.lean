/- Kista/Frontend/ApplicationMapping
   source: src/src/xml_if/create_app_to_platform_mapping.cpp, src/src/scheduler.cpp
   digest: The task sets that the entries of a system description make, and exactly when every task
   ends up in one of them. -/

import Mathlib.Data.List.Nodup
import Mathlib.Data.String.Basic
import Kista.Containers.LinearKeys

set_option autoImplicit false
set_option relaxedAutoImplicit false

/-!
Tasks and RTOS instances stand for the pointers to them; maps are ordered by their names. An entry
has what the XML accessors return for it, a name or the null pointer.
-/

namespace Kista.Frontend.ApplicationMapping

open Containers.OrderedMap
open Containers.LinearKeys

/-- What the earlier steps of the front-end have created. The names of modules are unique. -/
structure System (τ ρ : Type) where
  taskName : τ → String
  rtosName : ρ → String
  appTaskVec : List τ
  rtosVec : List ρ
  distinctTasks : (appTaskVec.map taskName).Nodup
  distinctRtos : (rtosVec.map rtosName).Nodup

structure MapTask where
  source : Option String
  target : Option String
  deriving DecidableEq

inductive MappingError where
  | noTaskLoaded
  | noRtosLoaded
  | noMappingRead
  | noSource
  | noTaskCalled (name : String)
  deriving DecidableEq

/-- A reported error ends the call; a null pointer that is used is undefined behaviour. -/
inductive Halt where
  | report (e : MappingError)
  | undefined
  deriving DecidableEq

abbrev TasksetByName (τ : Type) := Entries String τ

/-- `const_char_cmp`. -/
abbrev constCharCmp : String → String → Bool := less

variable {τ ρ : Type}

def getTaskInfoByName (sys : System τ ρ) (name : String) : Except Halt τ :=
  match sys.appTaskVec.find? fun t => sys.taskName t = name with
  | some t => .ok t
  | none => .error (.report (.noTaskCalled name))

/-- The task is loaded into the task set of the target. The task set of an unknown target is the
null pointer that indexing creates. -/
def loadTask (srcName : String) (task : τ) (tasksets : Entries String (TasksetByName τ)) :
    Option String → Except Halt (Entries String (TasksetByName τ))
  | none => .error .undefined
  | some tgtName =>
    match find constCharCmp tgtName tasksets with
    | none => .error .undefined
    | some currTaskset =>
      .ok (assign constCharCmp tgtName (assign constCharCmp srcName task currTaskset) tasksets)

/-- One entry of the mapping. -/
def mapTask (sys : System τ ρ) (tasksets : Entries String (TasksetByName τ)) (node : MapTask) :
    Except Halt (Entries String (TasksetByName τ)) :=
  match node.source with
  | none => .error (.report .noSource)
  | some srcName =>
    getTaskInfoByName sys srcName >>= fun task => loadTask srcName task tasksets node.target

/-- An empty task set for each RTOS. -/
def newTasksets (sys : System τ ρ) : Entries String (TasksetByName τ) :=
  assignAll constCharCmp (sys.rtosVec.map fun r => (sys.rtosName r, []))

/-- `create_app_to_platform_mapping`, with the task set that each RTOS is allocated. -/
def createAppToPlatformMapping (sys : System τ ρ) (setMapNodes : List MapTask) :
    Except Halt (ρ → Option (TasksetByName τ)) :=
  if sys.appTaskVec.length < 1 then .error (.report .noTaskLoaded)
  else if sys.rtosVec.length < 1 then .error (.report .noRtosLoaded)
  else if setMapNodes.length < 1 then .error (.report .noMappingRead)
  else
    setMapNodes.foldlM (mapTask sys) (newTasksets sys) >>= fun tasksets =>
      .ok fun r => find constCharCmp (sys.rtosName r) tasksets

/-- The task set holds the task under some name. -/
def Belongs (t : τ) (taskset : Option (TasksetByName τ)) : Prop :=
  ∃ entries name, taskset = some entries ∧ find constCharCmp name entries = some t

/-- Each task is in the task set of one RTOS, the one that its entry names, and every target is an
existing RTOS. -/
structure MappedOnce (sys : System τ ρ) (nodes : List MapTask)
    (allocated : ρ → Option (TasksetByName τ)) : Prop where
  once : ∀ t ∈ sys.appTaskVec, ∃! r, r ∈ sys.rtosVec ∧ Belongs t (allocated r)
  entry : ∀ t ∈ sys.appTaskVec, ∀ r ∈ sys.rtosVec, Belongs t (allocated r) →
    (∃ node ∈ nodes, node.source = some (sys.taskName t)) ∧
      ∀ node ∈ nodes, node.source = some (sys.taskName t) → node.target = some (sys.rtosName r)
  targets : ∀ node ∈ nodes, ∃ r ∈ sys.rtosVec, node.target = some (sys.rtosName r)

/-- Every task has an entry, the entries of one source agree, and the targets exist. -/
structure Complete (sys : System τ ρ) (nodes : List MapTask) : Prop where
  mentioned : ∀ t ∈ sys.appTaskVec, ∃ node ∈ nodes, node.source = some (sys.taskName t)
  consistent : ∀ first ∈ nodes, ∀ second ∈ nodes, first.source = second.source →
    first.target = second.target
  targets : ∀ node ∈ nodes, ∃ r ∈ sys.rtosVec, node.target = some (sys.rtosName r)

/-! ### What the entries leave in the task sets -/

section Entries

variable {sys : System τ ρ} {done nodes : List MapTask} {node : MapTask}
  {tasksets : Entries String (TasksetByName τ)}

def TargetExists (sys : System τ ρ) (node : MapTask) : Prop :=
  ∃ r ∈ sys.rtosVec, node.target = some (sys.rtosName r)

/-- The task sets are those of the RTOS instances, and hold what the entries so far name. -/
structure Inv (sys : System τ ρ) (done : List MapTask)
    (tasksets : Entries String (TasksetByName τ)) : Prop where
  sorted : Increasing tasksets
  sources : ∀ node ∈ done, ∃ t ∈ sys.appTaskVec, node.source = some (sys.taskName t)
  keys : ∀ name, (∃ taskset, find constCharCmp name tasksets = some taskset) ↔
    ∃ r ∈ sys.rtosVec, sys.rtosName r = name
  inner : ∀ name taskset, find constCharCmp name tasksets = some taskset →
    Increasing taskset
  content : ∀ name taskset, find constCharCmp name tasksets = some taskset → ∀ key t,
    find constCharCmp key taskset = some t ↔ t ∈ sys.appTaskVec ∧ sys.taskName t = key ∧
      ∃ node ∈ done, node.source = some key ∧ node.target = some name

/-- Tasks are told apart by their names. -/
theorem task_eq_of_name {t u : τ} (ht : t ∈ sys.appTaskVec) (hu : u ∈ sys.appTaskVec)
    (same : sys.taskName t = sys.taskName u) : t = u :=
  List.inj_on_of_nodup_map sys.distinctTasks ht hu same

theorem rtos_eq_of_name {r s : ρ} (hr : r ∈ sys.rtosVec) (hs : s ∈ sys.rtosVec)
    (same : sys.rtosName r = sys.rtosName s) : r = s :=
  List.inj_on_of_nodup_map sys.distinctRtos hr hs same

theorem getTaskInfoByName_cases (sys : System τ ρ) (name : String) :
    getTaskInfoByName sys name = .error (.report (.noTaskCalled name)) ∨
      ∃ t ∈ sys.appTaskVec, sys.taskName t = name ∧ getTaskInfoByName sys name = .ok t := by
  rw [getTaskInfoByName]
  cases hfind : sys.appTaskVec.find? fun t => sys.taskName t = name with
  | none => exact .inl rfl
  | some t =>
    have hname : sys.taskName t = name := by simpa using List.find?_some hfind
    exact .inr ⟨t, List.mem_of_find?_eq_some hfind, hname, rfl⟩

theorem newTasksets_inv (sys : System τ ρ) : Inv sys [] (newTasksets sys) := by
  have hused : ∀ entry ∈ sys.rtosVec.map fun r => (sys.rtosName r, ([] : TasksetByName τ)),
      entry.1 ∈ (Set.univ : Set String) := fun entry _ => Set.mem_univ entry.1
  have hfind : ∀ name, find constCharCmp name (newTasksets sys) =
      if ∃ r ∈ sys.rtosVec, sys.rtosName r = name then some [] else none := by
    intro name
    rw [newTasksets, find_assignAll order hused (Set.mem_univ name), lastAssigned]
    split
    · rename_i known
      obtain ⟨r, hr, hname⟩ := known
      cases hlast :
        (sys.rtosVec.map fun r => (sys.rtosName r, ([] : TasksetByName τ))).reverse.find?
          fun entry => Incomparable constCharCmp entry.1 name with
      | none =>
        rw [List.find?_eq_none] at hlast
        have hmiss := hlast (sys.rtosName r, []) (by simpa using ⟨r, hr, rfl⟩)
        rw [decide_eq_true_eq, incomparable_iff] at hmiss
        exact absurd hname hmiss
      | some entry =>
        have hmem := List.mem_of_find?_eq_some hlast
        rw [List.mem_reverse, List.mem_map] at hmem
        obtain ⟨s, -, rfl⟩ := hmem
        rfl
    · rename_i unknown
      rw [Option.map_eq_none_iff, List.find?_eq_none]
      intro entry hmem
      rw [List.mem_reverse, List.mem_map] at hmem
      obtain ⟨r, hr, rfl⟩ := hmem
      rw [decide_eq_true_eq, incomparable_iff]
      exact fun hname => unknown ⟨r, hr, hname⟩
  refine ⟨sorted_assignAll order hused, by simp, ?_, ?_, ?_⟩
  · intro name
    rw [hfind]
    split <;> simp_all
  · intro name taskset h
    rw [hfind] at h
    split at h
    · cases h
      exact sorted_nil
    · cases h
  · intro name taskset h key t
    rw [hfind] at h
    split at h
    · cases h
      simp [find]
    · cases h

/-- An entry that puts its task into the task set of its target. -/
theorem Inv.mapped (inv : Inv sys done tasksets) {task : τ} {srcName tgtName : String}
    {currTaskset : TasksetByName τ} (htask : task ∈ sys.appTaskVec)
    (hname : sys.taskName task = srcName)
    (hcurr : find constCharCmp tgtName tasksets = some currTaskset) :
    Inv sys (done ++ [⟨some srcName, some tgtName⟩])
      (assign constCharCmp tgtName (assign constCharCmp srcName task currTaskset) tasksets) := by
  have hinner := inv.inner tgtName currTaskset hcurr
  have hfind := find_assign_key inv.sorted tgtName
  refine ⟨inv.sorted.assign _ _, ?_, ?_, ?_, ?_⟩
  · intro node hnode
    rcases List.mem_append.mp hnode with earlier | this
    · exact inv.sources node earlier
    · rw [List.mem_singleton.mp this]
      exact ⟨task, htask, by rw [hname]⟩
  · intro name
    rw [hfind, ← inv.keys name]
    split
    · rename_i same
      subst same
      exact iff_of_true ⟨_, rfl⟩ ⟨_, hcurr⟩
    · exact Iff.rfl
  · intro name taskset h
    rw [hfind] at h
    split at h
    · cases h
      exact hinner.assign _ _
    · exact inv.inner name taskset h
  · intro name taskset h key t
    rw [hfind] at h
    split at h
    · rename_i same
      subst same
      cases h
      rw [find_assign_key hinner]
      split
      · rename_i samekey
        subst samekey
        constructor
        · intro heq
          cases heq
          exact ⟨htask, hname, ⟨some srcName, some tgtName⟩, by simp, rfl, rfl⟩
        · rintro ⟨ht, htname, -⟩
          rw [task_eq_of_name ht htask (htname.trans hname.symm)]
      · rename_i other
        rw [inv.content tgtName currTaskset hcurr]
        simp [other]
    · rename_i other
      rw [inv.content name taskset h]
      simp [other]

theorem loadTask_cases (inv : Inv sys done tasksets) {task : τ} {srcName : String}
    (htask : task ∈ sys.appTaskVec) (hname : sys.taskName task = srcName)
    (target : Option String) :
    (loadTask srcName task tasksets target = .error .undefined ∧
        ¬ TargetExists sys ⟨some srcName, target⟩) ∨
      ∃ next, loadTask srcName task tasksets target = .ok next ∧
        TargetExists sys ⟨some srcName, target⟩ ∧
        Inv sys (done ++ [⟨some srcName, target⟩]) next := by
  cases target with
  | none =>
    refine .inl ⟨rfl, ?_⟩
    rintro ⟨r, -, habsent⟩
    cases habsent
  | some tgtName =>
    cases hcurr : find constCharCmp tgtName tasksets with
    | none =>
      refine .inl ⟨by simp only [loadTask, hcurr], ?_⟩
      rintro ⟨r, hr, htarget⟩
      obtain ⟨taskset, hfound⟩ := (inv.keys tgtName).mpr ⟨r, hr, (Option.some.inj htarget).symm⟩
      rw [hcurr] at hfound
      cases hfound
    | some currTaskset =>
      obtain ⟨r, hr, hrtos⟩ := (inv.keys tgtName).mp ⟨currTaskset, hcurr⟩
      have hload : loadTask srcName task tasksets (some tgtName) =
          .ok (assign constCharCmp tgtName (assign constCharCmp srcName task currTaskset)
            tasksets) := by
        simp only [loadTask, hcurr]
      exact .inr ⟨_, hload, ⟨r, hr, by rw [hrtos]⟩, inv.mapped htask hname hcurr⟩

/-- One entry reports an error, or uses the null pointer of an unknown target, or puts its task
into the task set of its target. -/
theorem mapTask_cases (inv : Inv sys done tasksets) (node : MapTask) :
    (∃ e, mapTask sys tasksets node = .error (.report e)) ∨
      (mapTask sys tasksets node = .error .undefined ∧ ¬ TargetExists sys node) ∨
      ∃ next, mapTask sys tasksets node = .ok next ∧ TargetExists sys node ∧
        Inv sys (done ++ [node]) next := by
  obtain ⟨source, target⟩ := node
  cases source with
  | none => exact .inl ⟨_, rfl⟩
  | some srcName =>
    have hmap : mapTask sys tasksets ⟨some srcName, target⟩ =
        getTaskInfoByName sys srcName >>= fun task => loadTask srcName task tasksets target := rfl
    rcases getTaskInfoByName_cases sys srcName with unknown | ⟨task, htask, hname, hget⟩
    · left
      rw [hmap, unknown]
      exact ⟨_, rfl⟩
    · right
      rw [hmap, hget]
      exact loadTask_cases inv htask hname target

/-- The same for all entries one after the other. -/
theorem mapTasks_cases (inv : Inv sys done tasksets) (nodes : List MapTask) :
    (∃ e, nodes.foldlM (mapTask sys) tasksets = .error (.report e)) ∨
      (nodes.foldlM (mapTask sys) tasksets = .error .undefined ∧
        ¬ ∀ node ∈ nodes, TargetExists sys node) ∨
      ∃ final, nodes.foldlM (mapTask sys) tasksets = .ok final ∧
        (∀ node ∈ nodes, TargetExists sys node) ∧ Inv sys (done ++ nodes) final := by
  induction nodes generalizing done tasksets with
  | nil => exact .inr (.inr ⟨tasksets, rfl, by simp, by simpa using inv⟩)
  | cons node nodes ih =>
    rw [List.foldlM_cons]
    rcases mapTask_cases inv node with
      ⟨e, hreport⟩ | ⟨hundefined, missing⟩ | ⟨next, hok, known, inv'⟩
    · rw [hreport]
      exact .inl ⟨e, rfl⟩
    · rw [hundefined]
      exact .inr (.inl ⟨rfl, fun all => missing (all node List.mem_cons_self)⟩)
    · rw [hok]
      rcases ih inv' with hreport | ⟨hundefined, missing⟩ | ⟨final, hfinal, all, inv''⟩
      · exact .inl hreport
      · refine .inr (.inl ⟨hundefined, fun all => missing fun n hn => ?_⟩)
        exact all n (List.mem_cons_of_mem node hn)
      · refine .inr (.inr ⟨final, hfinal, ?_, ?_⟩)
        · intro n hn
          rcases List.mem_cons.mp hn with rfl | later
          · exact known
          · exact all n later
        · simpa using inv''

end Entries

/-! ### The mapping -/

section Mapping

variable {sys : System τ ρ} {nodes : List MapTask} {allocated : ρ → Option (TasksetByName τ)}

/-- A call that reports no error either completes, with the task sets that the entries name, or
uses the null pointer of a target that does not exist. -/
theorem create_cases (accepted : ∀ e, createAppToPlatformMapping sys nodes ≠ .error (.report e)) :
    (createAppToPlatformMapping sys nodes = .error .undefined ∧
        ¬ ∀ node ∈ nodes, TargetExists sys node) ∨
      ∃ final, createAppToPlatformMapping sys nodes =
          .ok (fun r => find constCharCmp (sys.rtosName r) final) ∧
        (∀ node ∈ nodes, TargetExists sys node) ∧ Inv sys nodes final := by
  simp only [createAppToPlatformMapping] at accepted ⊢
  split
  · rename_i empty
    exact absurd (if_pos empty) (accepted .noTaskLoaded)
  · rename_i tasks
    rw [if_neg tasks] at accepted
    split
    · rename_i empty
      exact absurd (if_pos empty) (accepted .noRtosLoaded)
    · rename_i rtos
      rw [if_neg rtos] at accepted
      split
      · rename_i empty
        exact absurd (if_pos empty) (accepted .noMappingRead)
      · rename_i entries
        rw [if_neg entries] at accepted
        rcases mapTasks_cases (newTasksets_inv sys) nodes with
          ⟨e, hreport⟩ | ⟨hundefined, missing⟩ | ⟨final, hfinal, all, inv⟩
        · rw [hreport] at accepted
          exact absurd rfl (accepted e)
        · rw [hundefined]
          exact .inl ⟨rfl, missing⟩
        · rw [hfinal]
          exact .inr ⟨final, rfl, all, inv⟩

/-- A task is in the task set of an RTOS exactly if some entry puts it there. -/
theorem belongs_iff {final : Entries String (TasksetByName τ)} (inv : Inv sys nodes final)
    {t : τ} (ht : t ∈ sys.appTaskVec) {r : ρ} (hr : r ∈ sys.rtosVec) :
    Belongs t (find constCharCmp (sys.rtosName r) final) ↔
      ∃ node ∈ nodes, node.source = some (sys.taskName t) ∧
        node.target = some (sys.rtosName r) := by
  obtain ⟨taskset, hfound⟩ := (inv.keys (sys.rtosName r)).mpr ⟨r, hr, rfl⟩
  have hcontent := inv.content _ taskset hfound
  constructor
  · rintro ⟨entries, key, hsame, hkey⟩
    obtain rfl : taskset = entries := Option.some.inj (hfound.symm.trans hsame)
    obtain ⟨-, rfl, hnode⟩ := (hcontent key t).mp hkey
    exact hnode
  · intro hnode
    exact ⟨taskset, sys.taskName t, hfound, (hcontent _ t).mpr ⟨ht, rfl, hnode⟩⟩

theorem mappedOnce_of_complete {final : Entries String (TasksetByName τ)}
    (inv : Inv sys nodes final) (complete : Complete sys nodes) :
    MappedOnce sys nodes fun r => find constCharCmp (sys.rtosName r) final where
  once t ht := by
    obtain ⟨node, hnode, hsource⟩ := complete.mentioned t ht
    obtain ⟨r, hr, htarget⟩ := complete.targets node hnode
    refine ⟨r, ⟨hr, (belongs_iff inv ht hr).mpr ⟨node, hnode, hsource, htarget⟩⟩, ?_⟩
    rintro s ⟨hs, hbelongs⟩
    obtain ⟨other, hother, hsource', htarget'⟩ := (belongs_iff inv ht hs).mp hbelongs
    have hsame := complete.consistent node hnode other hother (hsource.trans hsource'.symm)
    apply rtos_eq_of_name hs hr
    rw [htarget, htarget'] at hsame
    exact (Option.some.inj hsame).symm
  entry t ht r hr hbelongs := by
    obtain ⟨node, hnode, hsource, htarget⟩ := (belongs_iff inv ht hr).mp hbelongs
    refine ⟨⟨node, hnode, hsource⟩, fun other hother hsource' => ?_⟩
    rw [← htarget]
    exact complete.consistent other hother node hnode (hsource'.trans hsource.symm)
  targets := complete.targets

theorem complete_of_mappedOnce {final : Entries String (TasksetByName τ)}
    (inv : Inv sys nodes final)
    (mapped : MappedOnce sys nodes fun r => find constCharCmp (sys.rtosName r) final) :
    Complete sys nodes where
  mentioned t ht := by
    obtain ⟨r, ⟨hr, hbelongs⟩, -⟩ := mapped.once t ht
    exact (mapped.entry t ht r hr hbelongs).1
  consistent first hfirst second hsecond same := by
    obtain ⟨t, ht, hsource⟩ := inv.sources first hfirst
    obtain ⟨r, hr, htarget⟩ := mapped.targets first hfirst
    have hbelongs := (belongs_iff inv ht hr).mpr ⟨first, hfirst, hsource, htarget⟩
    rw [htarget]
    exact ((mapped.entry t ht r hr hbelongs).2 second hsecond (same.symm.trans hsource)).symm
  targets := mapped.targets

/-- Where no error is reported, every task is mapped once exactly if every task has an entry, the
entries of one source agree and every target exists. -/
theorem mappedOnce_iff
    (accepted : ∀ e, createAppToPlatformMapping sys nodes ≠ .error (.report e)) :
    (∃ allocated, createAppToPlatformMapping sys nodes = .ok allocated ∧
        MappedOnce sys nodes allocated) ↔ Complete sys nodes := by
  rcases create_cases accepted with ⟨hundefined, missing⟩ | ⟨final, hok, -, inv⟩
  · constructor
    · rintro ⟨allocated, hok, -⟩
      rw [hundefined] at hok
      cases hok
    · intro complete
      exact absurd complete.targets missing
  · constructor
    · rintro ⟨allocated, hok', mapped⟩
      obtain rfl := Except.ok.inj (hok.symm.trans hok')
      exact complete_of_mappedOnce inv mapped
    · intro complete
      exact ⟨_, hok, mappedOnce_of_complete inv complete⟩

end Mapping

/-- Two tasks and two schedulers. -/
def pair : System String String where
  taskName := id
  rtosName := id
  appTaskVec := ["T1", "T2"]
  rtosVec := ["sched1", "sched2"]
  distinctTasks := by simp
  distinctRtos := by simp

theorem pair_accepted (nodes : List MapTask)
    (done : (createAppToPlatformMapping pair nodes).toOption.isSome = true) :
    ∀ e, createAppToPlatformMapping pair nodes ≠ .error (.report e) := by
  intro e h
  rw [h] at done
  cases done

/-- One task on each scheduler. -/
theorem pair_mapped :
    ∃ allocated, createAppToPlatformMapping pair
        [⟨some "T1", some "sched1"⟩, ⟨some "T2", some "sched2"⟩] = .ok allocated ∧
      MappedOnce pair [⟨some "T1", some "sched1"⟩, ⟨some "T2", some "sched2"⟩] allocated := by
  apply (mappedOnce_iff (pair_accepted _ (by decide +kernel))).mpr
  refine ⟨?_, ?_, ?_⟩ <;> simp [pair]

/-- Two entries for one task are accepted, and put it on both schedulers. -/
theorem task_on_both :
    ¬ ∀ nodes : List MapTask,
      (∀ e, createAppToPlatformMapping pair nodes ≠ .error (.report e)) →
      ∃ allocated, createAppToPlatformMapping pair nodes = .ok allocated ∧
        MappedOnce pair nodes allocated := by
  intro hall
  have accepted := pair_accepted [⟨some "T1", some "sched1"⟩,
    ⟨some "T1", some "sched2"⟩, ⟨some "T2", some "sched2"⟩] (by decide +kernel)
  obtain ⟨allocated, hok, mapped⟩ := hall _ accepted
  rcases create_cases accepted with ⟨hundefined, -⟩ | ⟨final, hok', -, inv⟩
  · rw [hundefined] at hok
    cases hok
  · obtain rfl := Except.ok.inj (hok'.symm.trans hok)
    have same := (complete_of_mappedOnce inv mapped).consistent ⟨some "T1", some "sched1"⟩
      (by simp) ⟨some "T1", some "sched2"⟩ (by simp) rfl
    simp at same

end Kista.Frontend.ApplicationMapping
