/- Kista/Scheduling/StaticSchedule
   source: src/src/scheduler.cpp, scheduler.hpp, types.hpp, defaults.hpp
   digest: The preparation of a static schedule from task names and task pointers, and exactly
   when the dispatcher then executes the schedule that was given. -/

import Kista.Containers.Fallible
import Mathlib.Data.List.AList
import Kista.Scheduling.Dispatch

set_option autoImplicit false
set_option relaxedAutoImplicit false

/-!
A reported error aborts. `tasksAssigned` maps names to tasks; the name under which a task is
assigned need not be the name that the task has.
-/

namespace Kista.Scheduling.StaticSchedule

open Dispatch Containers.Fallible

variable {ι : Type}

abbrev TasksetByName (ι : Type) := AList fun _ : String => ι

structure StaticSetting (ι : Type) where
  staticScheduleByTaskNames : List String
  staticScheduleByTaskInfoPointers : List ι

def setStaticSchedule (s : StaticSetting ι) (schedule : List String) : StaticSetting ι :=
  { s with staticScheduleByTaskNames := schedule }

def setStaticScheduleByTaskPtrs (s : StaticSetting ι) (schedule : List ι) : StaticSetting ι :=
  { s with staticScheduleByTaskInfoPointers := schedule }

/-- The reported errors with the values in their texts. -/
inductive ScheduleError (ι : Type) where
  | notProvided
  | differentSizes (byNames byPointers : ℕ)
  | discrepance (i : ℕ) (byName byPointer : String)
  | notInTaskSet (task : String)
  | neverExecuted (task : ι)

def assigned (tasksAssigned : TasksetByName ι) : List ι :=
  tasksAssigned.entries.map Sigma.snd

/-- The entries are compared from position `i` on. -/
def compareEntries (name : ι → String) :
    ℕ → List String → List ι → Except (ScheduleError ι) Unit
  | i, given :: names, task :: tasks =>
    if given = name task then compareEntries name (i + 1) names tasks
    else .error (.discrepance i given (name task))
  | _, _, _ => .ok ()

/-- The checks before the conversion. -/
def checkFormats (name : ι → String) (s : StaticSetting ι) : Except (ScheduleError ι) Unit :=
  if s.staticScheduleByTaskNames.length = 0 ∧ s.staticScheduleByTaskInfoPointers.length = 0 then
    .error .notProvided
  else if s.staticScheduleByTaskNames.length ≠ 0 ∧
      s.staticScheduleByTaskInfoPointers.length ≠ 0 then
    if s.staticScheduleByTaskNames.length ≠ s.staticScheduleByTaskInfoPointers.length then
      .error (.differentSizes s.staticScheduleByTaskNames.length
        s.staticScheduleByTaskInfoPointers.length)
    else compareEntries name 0 s.staticScheduleByTaskNames s.staticScheduleByTaskInfoPointers
  else .ok ()

/-- The conversion loop: the task of each name is pushed behind the pointers that are there. -/
def pushByNames (tasksAssigned : TasksetByName ι) :
    List String → List ι → Except (ScheduleError ι) (List ι)
  | [], pointers => .ok pointers
  | given :: names, pointers =>
    match tasksAssigned.lookup given with
    | none => .error (.notInTaskSet given)
    | some task => pushByNames tasksAssigned names (pointers ++ [task])

/-- The loop over the assigned tasks. -/
def checkExecuted [DecidableEq ι] (pointers : List ι) : List ι → Except (ScheduleError ι) Unit
  | [] => .ok ()
  | task :: tasks =>
    if task ∈ pointers then checkExecuted pointers tasks else .error (.neverExecuted task)

def checkAndPrepareStaticSchedule [DecidableEq ι] (name : ι → String)
    (tasksAssigned : TasksetByName ι) (s : StaticSetting ι) (d : Dispatcher ι) :
    Except (ScheduleError ι) (Dispatcher ι) := do
  checkFormats name s
  let pointers ← pushByNames tasksAssigned s.staticScheduleByTaskNames
    s.staticScheduleByTaskInfoPointers
  checkExecuted pointers (assigned tasksAssigned)
  return { d with staticSchedule := pointers, itStaticSched := 0 }

/-- The scheduler after `k` dispatches. -/
def afterDispatches (d : Dispatcher ι) : ℕ → Except Fault (Dispatcher ι)
  | 0 => .ok d
  | k + 1 => (afterDispatches d k).bind fun d => (dispatchStatic d).map Prod.snd

def kthDispatch (d : Dispatcher ι) (k : ℕ) : Except Fault ι :=
  (afterDispatches d k).bind fun d => (dispatchStatic d).map Prod.fst

/-- The prepared schedule is the one that the user gave, and it is dispatched cyclically. -/
structure AsGiven (tasksAssigned : TasksetByName ι) (s : StaticSetting ι) (d : Dispatcher ι) :
    Prop where
  byNames : s.staticScheduleByTaskNames ≠ [] →
    d.staticSchedule.map some = s.staticScheduleByTaskNames.map tasksAssigned.lookup
  byPointers : s.staticScheduleByTaskInfoPointers ≠ [] →
    d.staticSchedule = s.staticScheduleByTaskInfoPointers
  onlyAssigned : ∀ task ∈ d.staticSchedule, task ∈ assigned tasksAssigned
  everyAssigned : ∀ task ∈ assigned tasksAssigned, task ∈ d.staticSchedule
  dispatched : ∀ k, ∃ task, kthDispatch d k = .ok task ∧
    (s.staticScheduleByTaskNames ≠ [] →
      s.staticScheduleByTaskNames[k % s.staticScheduleByTaskNames.length]?.bind
        tasksAssigned.lookup = some task) ∧
    (s.staticScheduleByTaskInfoPointers ≠ [] →
      s.staticScheduleByTaskInfoPointers[k % s.staticScheduleByTaskInfoPointers.length]? =
        some task)

def Disagree (name : ι → String) (s : StaticSetting ι) : Prop :=
  s.staticScheduleByTaskNames ≠ [] ∧ s.staticScheduleByTaskInfoPointers ≠ [] ∧
    s.staticScheduleByTaskNames ≠ s.staticScheduleByTaskInfoPointers.map name

/-- What has to be reported. -/
def Faulty (name : ι → String) (tasksAssigned : TasksetByName ι) (s : StaticSetting ι) : Prop :=
  Disagree name s ∨
    (∃ given ∈ s.staticScheduleByTaskNames, tasksAssigned.lookup given = none) ∨
    (∃ task ∈ s.staticScheduleByTaskInfoPointers, task ∉ assigned tasksAssigned) ∨
    ∃ task ∈ assigned tasksAssigned,
      (s.staticScheduleByTaskNames ≠ [] ∧
        ∀ given ∈ s.staticScheduleByTaskNames, tasksAssigned.lookup given ≠ some task) ∨
      (s.staticScheduleByTaskInfoPointers ≠ [] ∧ task ∉ s.staticScheduleByTaskInfoPointers)

/-- Every accepted schedule is executed as given, and every faulty one is reported. -/
def ExecutedAsGiven [DecidableEq ι] (name : ι → String) (tasksAssigned : TasksetByName ι)
    (s : StaticSetting ι) (d : Dispatcher ι) : Prop :=
  (∀ d', checkAndPrepareStaticSchedule name tasksAssigned s d = .ok d' →
    AsGiven tasksAssigned s d') ∧
  (Faulty name tasksAssigned s →
    ∃ e, checkAndPrepareStaticSchedule name tasksAssigned s d = .error e)

theorem compareEntries_eq_ok {name : ι → String} {i : ℕ} {names : List String} {tasks : List ι}
    (sizes : names.length = tasks.length) :
    compareEntries name i names tasks = .ok () ↔ names = tasks.map name := by
  induction names generalizing i tasks with
  | nil =>
    cases List.length_eq_zero_iff.mp sizes.symm
    exact ⟨fun _ => rfl, fun _ => rfl⟩
  | cons given names ih =>
    cases tasks with
    | nil => cases sizes
    | cons task tasks =>
      rw [compareEntries, List.map_cons, List.cons.injEq]
      by_cases same : given = name task
      · rw [if_pos same, ih (Nat.succ.inj sizes)]
        exact ⟨fun rest => ⟨same, rest⟩, fun both => both.2⟩
      · rw [if_neg same]
        exact ⟨nofun, fun both => absurd both.1 same⟩

theorem checkFormats_eq_ok {name : ι → String} {s : StaticSetting ι} :
    checkFormats name s = .ok () ↔
      ¬ (s.staticScheduleByTaskNames = [] ∧ s.staticScheduleByTaskInfoPointers = []) ∧
        ¬ Disagree name s := by
  unfold checkFormats Disagree
  simp only [List.length_eq_zero_iff, ne_eq]
  split
  · rename_i neither
    exact ⟨nofun, fun given => absurd neither given.1⟩
  · rename_i provided
    split
    · rename_i both
      split
      · rename_i sizes
        refine ⟨nofun, fun agree => ?_⟩
        exact absurd ⟨both.1, both.2, fun same => sizes (by rw [same, List.length_map])⟩ agree.2
      · rename_i sizes
        rw [compareEntries_eq_ok (not_not.mp sizes)]
        constructor
        · intro same
          exact ⟨provided, fun disagree => disagree.2.2 same⟩
        · intro agree
          by_contra differ
          exact agree.2 ⟨both.1, both.2, differ⟩
    · rename_i one
      exact ⟨fun _ => ⟨provided, fun disagree => one ⟨disagree.1, disagree.2.1⟩⟩, fun _ => rfl⟩

theorem pushByNames_eq_ok {tasksAssigned : TasksetByName ι} {names : List String}
    {pointers out : List ι} :
    pushByNames tasksAssigned names pointers = .ok out ↔
      ∃ tasks, tasks.map some = names.map tasksAssigned.lookup ∧ out = pointers ++ tasks := by
  induction names generalizing pointers with
  | nil =>
    simp only [pushByNames, Except.ok.injEq, List.map_nil, List.map_eq_nil_iff,
      exists_eq_left, List.append_nil]
    exact eq_comm
  | cons given names ih =>
    rw [pushByNames, List.map_cons]
    cases found : tasksAssigned.lookup given with
    | none =>
      refine ⟨nofun, ?_⟩
      rintro ⟨tasks, entries, -⟩
      cases tasks <;> cases entries
    | some task =>
      show pushByNames tasksAssigned names (pointers ++ [task]) = .ok out ↔ _
      rw [ih]
      constructor
      · rintro ⟨tasks, entries, rfl⟩
        refine ⟨task :: tasks, ?_, List.append_assoc _ _ _⟩
        rw [List.map_cons, entries]
      · rintro ⟨tasks, entries, rfl⟩
        cases tasks with
        | nil => cases entries
        | cons first rest =>
          obtain ⟨same, later⟩ := List.cons.inj entries
          cases same
          exact ⟨rest, later, (List.append_assoc pointers [task] rest).symm⟩

theorem checkExecuted_eq_ok [DecidableEq ι] {pointers tasks : List ι} :
    checkExecuted pointers tasks = .ok () ↔ ∀ task ∈ tasks, task ∈ pointers := by
  induction tasks with
  | nil => exact ⟨nofun, fun _ => rfl⟩
  | cons task tasks ih =>
    rw [checkExecuted, List.forall_mem_cons]
    by_cases here : task ∈ pointers
    · rw [if_pos here, ih]
      exact ⟨fun rest => ⟨here, rest⟩, fun both => both.2⟩
    · rw [if_neg here]
      exact ⟨nofun, fun both => absurd both.1 here⟩

theorem mem_assigned {tasksAssigned : TasksetByName ι} {task : ι} :
    task ∈ assigned tasksAssigned ↔ ∃ given, tasksAssigned.lookup given = some task := by
  simp only [assigned, List.mem_map, ← Option.mem_def, AList.mem_lookup_iff]
  constructor
  · rintro ⟨⟨given, task⟩, entry, rfl⟩
    exact ⟨given, entry⟩
  · rintro ⟨given, entry⟩
    exact ⟨⟨given, task⟩, entry, rfl⟩

/-- What is accepted, and the vector that is left: the pointers that were given and, behind them,
the tasks of the names that were given. -/
theorem prepare_eq_ok [DecidableEq ι] {name : ι → String} {tasksAssigned : TasksetByName ι}
    {s : StaticSetting ι} {d d' : Dispatcher ι} :
    checkAndPrepareStaticSchedule name tasksAssigned s d = .ok d' ↔
      ¬ (s.staticScheduleByTaskNames = [] ∧ s.staticScheduleByTaskInfoPointers = []) ∧
      ¬ Disagree name s ∧
      ∃ tasks, tasks.map some = s.staticScheduleByTaskNames.map tasksAssigned.lookup ∧
        (∀ task ∈ assigned tasksAssigned,
          task ∈ s.staticScheduleByTaskInfoPointers ++ tasks) ∧
        d' = { d with
          staticSchedule := s.staticScheduleByTaskInfoPointers ++ tasks, itStaticSched := 0 } := by
  rw [← and_assoc, ← checkFormats_eq_ok]
  rw [checkAndPrepareStaticSchedule, bind_eq_ok]
  constructor
  · rintro ⟨⟨⟩, formats, later⟩
    obtain ⟨pointers, pushed, later⟩ := bind_eq_ok.mp later
    obtain ⟨⟨⟩, executed, rest⟩ := bind_eq_ok.mp later
    obtain ⟨tasks, entries, rfl⟩ := pushByNames_eq_ok.mp pushed
    exact ⟨formats, tasks, entries, checkExecuted_eq_ok.mp executed, (Except.ok.inj rest).symm⟩
  · rintro ⟨formats, tasks, entries, executed, rfl⟩
    refine ⟨(), formats, bind_eq_ok.mpr ⟨_, pushByNames_eq_ok.mpr ⟨tasks, entries, rfl⟩, ?_⟩⟩
    exact bind_eq_ok.mpr ⟨(), checkExecuted_eq_ok.mpr executed, rfl⟩

/-- The cursor goes round the schedule. -/
theorem afterDispatches_eq {d : Dispatcher ι} (first : d.itStaticSched = 0)
    (filled : d.staticSchedule ≠ []) (k : ℕ) :
    afterDispatches d k = .ok { d with itStaticSched := k % d.staticSchedule.length } := by
  have positive := List.length_pos_iff.mpr filled
  induction k with
  | zero => rw [afterDispatches, Nat.zero_mod, ← first]
  | succ k ih =>
    have within := Nat.mod_lt k positive
    rw [afterDispatches, ih]
    simp only [Except.bind, dispatchStatic, List.getElem?_eq_getElem within, Except.map]
    split
    · rename_i last
      have back : (k + 1) % d.staticSchedule.length = 0 := by
        rw [← Nat.mod_add_mod, last, Nat.mod_self]
      rw [back]
    · rename_i notLast
      have next : (k + 1) % d.staticSchedule.length = k % d.staticSchedule.length + 1 := by
        rw [← Nat.mod_add_mod, Nat.mod_eq_of_lt (by omega)]
      rw [next]

theorem kthDispatch_eq {d : Dispatcher ι} (first : d.itStaticSched = 0)
    (filled : d.staticSchedule ≠ []) (k : ℕ) :
    ∃ task, kthDispatch d k = .ok task ∧
      d.staticSchedule[k % d.staticSchedule.length]? = some task := by
  have within := Nat.mod_lt k (List.length_pos_iff.mpr filled)
  refine ⟨d.staticSchedule[k % d.staticSchedule.length], ?_, List.getElem?_eq_getElem within⟩
  rw [kthDispatch, afterDispatches_eq first filled]
  simp only [Except.bind, dispatchStatic, List.getElem?_eq_getElem within, Except.map]

theorem mem_entries {tasksAssigned : TasksetByName ι} {names : List String} {tasks : List ι}
    (entries : tasks.map some = names.map tasksAssigned.lookup) {task : ι} :
    task ∈ tasks ↔ ∃ given ∈ names, tasksAssigned.lookup given = some task := by
  rw [← List.mem_map, ← entries]
  simp

theorem lookup_entry {tasksAssigned : TasksetByName ι} {names : List String} {tasks : List ι}
    (entries : tasks.map some = names.map tasksAssigned.lookup) {i : ℕ} {task : ι}
    (entry : tasks[i]? = some task) : names[i]?.bind tasksAssigned.lookup = some task := by
  have mapped := congrArg (fun l => l[i]?) entries
  simp only [List.getElem?_map, entry, Option.map_some] at mapped
  cases given : names[i]? with
  | none =>
    rw [given] at mapped
    cases mapped
  | some name =>
    rw [given] at mapped
    exact (Option.some.inj mapped).symm

theorem exists_entries_iff {tasksAssigned : TasksetByName ι} {names : List String} :
    (∃ tasks : List ι, tasks.map some = names.map tasksAssigned.lookup) ↔
      ∀ given ∈ names, tasksAssigned.lookup given ≠ none := by
  induction names with
  | nil => exact ⟨nofun, fun _ => ⟨[], rfl⟩⟩
  | cons given names ih =>
    rw [List.forall_mem_cons, ← ih]
    constructor
    · rintro ⟨tasks, entries⟩
      cases tasks with
      | nil => cases entries
      | cons task tasks =>
        obtain ⟨here, later⟩ := List.cons.inj entries
        refine ⟨?_, tasks, later⟩
        intro unknown
        exact Option.some_ne_none task (here.trans unknown)
    · rintro ⟨known, tasks, entries⟩
      obtain ⟨task, found⟩ := Option.ne_none_iff_exists'.mp known
      refine ⟨task :: tasks, ?_⟩
      rw [List.map_cons, List.map_cons, entries, found]

section Prepared

variable [DecidableEq ι] {name : ι → String} {tasksAssigned : TasksetByName ι}
  {s : StaticSetting ι} {d : Dispatcher ι}

/-- Names alone are converted and checked. -/
theorem executed_of_names (named : s.staticScheduleByTaskNames ≠ [])
    (alone : s.staticScheduleByTaskInfoPointers = []) :
    ExecutedAsGiven name tasksAssigned s d := by
  constructor
  · intro d' accepted
    obtain ⟨-, -, tasks, entries, every, rfl⟩ := prepare_eq_ok.mp accepted
    rw [alone, List.nil_append] at every ⊢
    have filled : tasks ≠ [] := by
      rintro rfl
      exact named (List.map_eq_nil_iff.mp entries.symm)
    have sizes : tasks.length = s.staticScheduleByTaskNames.length := by
      rw [← List.length_map (f := some), entries, List.length_map]
    refine ⟨fun _ => entries, fun given => absurd alone given, ?_, every, ?_⟩
    · intro task mem
      obtain ⟨given, -, found⟩ := (mem_entries entries).mp mem
      exact mem_assigned.mpr ⟨given, found⟩
    · intro k
      obtain ⟨task, dispatched, entry⟩ := kthDispatch_eq
        (d := { d with staticSchedule := tasks, itStaticSched := 0 }) rfl filled k
      refine ⟨task, dispatched, fun _ => ?_, fun given => absurd alone given⟩
      rw [← sizes]
      exact lookup_entry entries entry
  · intro faulty
    refine error_iff.mpr fun d' accepted => ?_
    obtain ⟨-, agree, tasks, entries, every, rfl⟩ := prepare_eq_ok.mp accepted
    rcases faulty with disagree | ⟨given, mem, unknown⟩ | ⟨task, mem, -⟩ | ⟨task, mem, missing⟩
    · exact agree disagree
    · exact exists_entries_iff.mp ⟨tasks, entries⟩ given mem unknown
    · rw [alone] at mem
      cases mem
    · rcases missing with ⟨-, nowhere⟩ | ⟨given, -⟩
      · have present := every task mem
        rw [alone, List.nil_append] at present
        obtain ⟨given, listed, found⟩ := (mem_entries entries).mp present
        exact nowhere given listed found
      · exact given alone

/-- Accepted pointers are kept, and cover the tasks that are assigned. -/
theorem prepared_pointers {d' : Dispatcher ι} (unnamed : s.staticScheduleByTaskNames = [])
    (accepted : checkAndPrepareStaticSchedule name tasksAssigned s d = .ok d') :
    s.staticScheduleByTaskInfoPointers ≠ [] ∧
      (∀ task ∈ assigned tasksAssigned, task ∈ s.staticScheduleByTaskInfoPointers) ∧
      d' = { d with
        staticSchedule := s.staticScheduleByTaskInfoPointers, itStaticSched := 0 } := by
  obtain ⟨given, -, tasks, entries, every, rfl⟩ := prepare_eq_ok.mp accepted
  rw [unnamed, List.map_nil, List.map_eq_nil_iff] at entries
  rw [entries, List.append_nil] at every ⊢
  exact ⟨fun empty => given ⟨unnamed, empty⟩, every, rfl⟩

theorem accepts_pointers (unnamed : s.staticScheduleByTaskNames = [])
    (given : s.staticScheduleByTaskInfoPointers ≠ [])
    (every : ∀ task ∈ assigned tasksAssigned, task ∈ s.staticScheduleByTaskInfoPointers) :
    checkAndPrepareStaticSchedule name tasksAssigned s d =
      .ok { d with
        staticSchedule := s.staticScheduleByTaskInfoPointers ++ [], itStaticSched := 0 } := by
  refine prepare_eq_ok.mpr ⟨fun empty => given empty.2, fun disagree => disagree.1 unnamed, [],
    ?_, ?_, rfl⟩
  · rw [unnamed]
    rfl
  · rw [List.append_nil]
    exact every

/-- Pointers alone are not checked against the task set. -/
theorem executed_iff_of_pointers (unnamed : s.staticScheduleByTaskNames = []) :
    ExecutedAsGiven name tasksAssigned s d ↔
      (∀ task ∈ s.staticScheduleByTaskInfoPointers, task ∈ assigned tasksAssigned) ∨
        ∃ task ∈ assigned tasksAssigned, task ∉ s.staticScheduleByTaskInfoPointers := by
  constructor
  · intro executed
    by_contra stray
    push Not at stray
    obtain ⟨⟨task, mem, alien⟩, every⟩ := stray
    have given : s.staticScheduleByTaskInfoPointers ≠ [] := List.ne_nil_of_mem mem
    obtain ⟨e, rejected⟩ := executed.2 (.inr (.inr (.inl ⟨task, mem, alien⟩)))
    rw [accepts_pointers unnamed given every] at rejected
    cases rejected
  · intro checked
    constructor
    · intro d' accepted
      obtain ⟨given, every, rfl⟩ := prepared_pointers unnamed accepted
      rcases checked with within | ⟨task, mem, missing⟩
      · refine ⟨fun named => absurd unnamed named, fun _ => rfl, within, every, ?_⟩
        intro k
        obtain ⟨task, dispatched, entry⟩ := kthDispatch_eq
          (d := { d with
            staticSchedule := s.staticScheduleByTaskInfoPointers, itStaticSched := 0 }) rfl given k
        exact ⟨task, dispatched, fun named => absurd unnamed named, fun _ => entry⟩
      · exact absurd (every task mem) missing
    · intro faulty
      refine error_iff.mpr fun d' accepted => ?_
      obtain ⟨given, every, rfl⟩ := prepared_pointers unnamed accepted
      rcases checked with within | ⟨task, mem, missing⟩
      · rcases faulty with disagree | ⟨entry, mem, -⟩ | ⟨task, mem, alien⟩ | ⟨task, mem, lost⟩
        · exact disagree.1 unnamed
        · rw [unnamed] at mem
          cases mem
        · exact alien (within task mem)
        · rcases lost with ⟨named, -⟩ | ⟨-, missing⟩
          · exact named unnamed
          · exact missing (every task mem)
      · exact missing (every task mem)

/-- With both formats every accepted schedule is left twice as long as it was given. -/
theorem executed_iff_of_both (named : s.staticScheduleByTaskNames ≠ [])
    (pointed : s.staticScheduleByTaskInfoPointers ≠ []) :
    ExecutedAsGiven name tasksAssigned s d ↔
      Disagree name s ∨
        (∃ given ∈ s.staticScheduleByTaskNames, tasksAssigned.lookup given = none) ∨
        ∃ task ∈ assigned tasksAssigned, task ∉ s.staticScheduleByTaskInfoPointers ∧
          ∀ given ∈ s.staticScheduleByTaskNames, tasksAssigned.lookup given ≠ some task := by
  constructor
  · intro executed
    by_contra sound
    push Not at sound
    obtain ⟨agree, known, every⟩ := sound
    obtain ⟨tasks, entries⟩ := exists_entries_iff.mpr known
    have accepted : checkAndPrepareStaticSchedule name tasksAssigned s d =
        .ok { d with
          staticSchedule := s.staticScheduleByTaskInfoPointers ++ tasks, itStaticSched := 0 } := by
      refine prepare_eq_ok.mpr ⟨fun empty => named empty.1, agree, tasks, entries, ?_, rfl⟩
      intro task mem
      by_cases pointer : task ∈ s.staticScheduleByTaskInfoPointers
      · exact List.mem_append_left _ pointer
      · exact List.mem_append_right _ ((mem_entries entries).mpr (every task mem pointer))
    have same := (executed.1 _ accepted).byPointers pointed
    have empty : tasks = [] := List.append_right_eq_self.mp same
    rw [empty] at entries
    exact named (List.map_eq_nil_iff.mp entries.symm)
  · intro reported
    have never : ∀ d', checkAndPrepareStaticSchedule name tasksAssigned s d ≠ .ok d' := by
      intro d' accepted
      obtain ⟨-, agree, tasks, entries, every, -⟩ := prepare_eq_ok.mp accepted
      rcases reported with disagree | ⟨given, mem, unknown⟩ | ⟨task, mem, missing, nowhere⟩
      · exact agree disagree
      · exact exists_entries_iff.mp ⟨tasks, entries⟩ given mem unknown
      · rcases List.mem_append.mp (every task mem) with pointer | converted
        · exact missing pointer
        · obtain ⟨given, listed, found⟩ := (mem_entries entries).mp converted
          exact nowhere given listed found
    exact ⟨fun d' accepted => absurd accepted (never d'), fun _ => error_iff.mpr never⟩

/-- A static schedule is executed as given exactly when it is not given in two formats that are
both accepted, and not given as pointers alone with an alien one that goes unnoticed. -/
theorem executed_iff :
    ExecutedAsGiven name tasksAssigned s d ↔
      (s.staticScheduleByTaskNames ≠ [] → s.staticScheduleByTaskInfoPointers ≠ [] →
        Disagree name s ∨
          (∃ given ∈ s.staticScheduleByTaskNames, tasksAssigned.lookup given = none) ∨
          ∃ task ∈ assigned tasksAssigned, task ∉ s.staticScheduleByTaskInfoPointers ∧
            ∀ given ∈ s.staticScheduleByTaskNames, tasksAssigned.lookup given ≠ some task) ∧
      (s.staticScheduleByTaskNames = [] →
        (∀ task ∈ s.staticScheduleByTaskInfoPointers, task ∈ assigned tasksAssigned) ∨
          ∃ task ∈ assigned tasksAssigned, task ∉ s.staticScheduleByTaskInfoPointers) := by
  by_cases unnamed : s.staticScheduleByTaskNames = []
  · rw [executed_iff_of_pointers unnamed]
    exact ⟨fun checked => ⟨fun named => absurd unnamed named, fun _ => checked⟩,
      fun both => both.2 unnamed⟩
  · by_cases alone : s.staticScheduleByTaskInfoPointers = []
    · exact ⟨fun _ => ⟨fun _ pointed => absurd alone pointed, fun none => absurd none unnamed⟩,
        fun _ => executed_of_names unnamed alone⟩
    · rw [executed_iff_of_both unnamed alone]
      exact ⟨fun reported => ⟨fun _ _ => reported, fun none => absurd none unnamed⟩,
        fun both => both.1 unnamed alone⟩

end Prepared

/-- The task set with the two tasks `a` and `b`. -/
def twoTasks : TasksetByName Bool :=
  (AList.singleton "a" false).insert "b" true

def twoNames (task : Bool) : String := if task then "b" else "a"

def unconfigured : Dispatcher Bool where
  schedulerPolicy := .staticScheduling
  dynamicPrioritiesPolicy := .unknown
  tasksAssigned := [false, true]
  tasksByPriority := []
  staticSchedule := []
  itStaticSched := 0
  itDynSched := 0

/-- One schedule in both formats, in two calls. -/
def bothFormats : StaticSetting Bool :=
  setStaticScheduleByTaskPtrs (setStaticSchedule ⟨[], []⟩ ["a", "b"]) [false, true]

theorem bothFormats_doubled : ¬ ExecutedAsGiven twoNames twoTasks bothFormats unconfigured := by
  intro executed
  have accepted : ∃ d, checkAndPrepareStaticSchedule twoNames twoTasks bothFormats unconfigured =
      .ok d ∧ d.staticSchedule = [false, true, false, true] := ⟨_, rfl, rfl⟩
  obtain ⟨d, accepted, doubled⟩ := accepted
  have same := (executed.1 d accepted).byPointers nofun
  rw [doubled] at same
  cases same

/-- A pointer to a task of another scheduler is accepted. -/
example : ∃ d, checkAndPrepareStaticSchedule twoNames (AList.singleton "a" false)
    ⟨[], [false, true]⟩ unconfigured = .ok d ∧ true ∈ d.staticSchedule := ⟨_, rfl, by decide⟩

end Kista.Scheduling.StaticSchedule
