/- Kista/Network/CommSchedule
   source: src/src/network_interface.cpp, src/src/logic_link.cpp, src/src/scheduler.cpp
   digest: Static communication schedules given as logic links, as their names or as pairs of task
   names, and the one schedule that a network interface makes of them. -/

import Kista.Containers.Fallible
import Mathlib.Data.List.AList
import Mathlib.Data.List.Forall2
import Mathlib.Data.List.Induction

set_option autoImplicit false
set_option relaxedAutoImplicit false

/-!
A logic link is told from another by its address, and a task as well. Sizes are not bounded, and
an error ends the preparation.
-/

namespace Kista.Network.CommSchedule

open Containers.Fallible

/-- The registered logic links: each of them once, no two of one name or between the same tasks. -/
structure Registry (P A : Type) where
  name : P → String
  src : P → A
  dest : P → A
  sysConn : List P
  once : sysConn.Nodup
  uniqueNames : ∀ p ∈ sysConn, ∀ q ∈ sysConn, name p = name q → p = q
  uniquePairs : ∀ p ∈ sysConn, ∀ q ∈ sysConn, src p = src q → dest p = dest q → p = q

/-- The tasks of the system and of the environment, by name. -/
structure Tasks (A : Type) where
  taskInfoByName : AList fun _ : String => A
  envTasksByName : AList fun _ : String => A

structure Schedules (P : Type) where
  staticCommSchedule : List P
  staticCommScheduleByName : List String
  staticCommScheduleByTaskNames : List (String × String)

/-- The reported errors with the values in their texts. -/
inductive ScheduleError where
  | noSuchConnection (name : String)
  | noSuchPair (src dest : String)
  | noAddress (task : String)
  | differentSizes (comparedTypes : String)
  | mismatch (comparedTypes : String) (i : ℕ)
  deriving DecidableEq

variable {P A : Type} [DecidableEq P] [DecidableEq A]

/-- Each constructor of a logic link assigns it to its name. -/
def registerByName (name : P → String) (sysConn : List P) : AList fun _ : String => P :=
  sysConn.foldl (fun table p => table.insert (name p) p) ∅

def Registry.sysConnByName (r : Registry P A) : AList fun _ : String => P :=
  registerByName r.name r.sysConn

def getAddressByElemName (t : Tasks A) (elemName : String) : Except ScheduleError A :=
  match t.taskInfoByName.lookup elemName with
  | some address => .ok address
  | none =>
    match t.envTasksByName.lookup elemName with
    | some address => .ok address
    | none => .error (.noAddress elemName)

/-- The loop of `get_static_comm_schedule_from_names`. -/
def pushByNames (r : Registry P A) : List String → List P → Except ScheduleError (List P)
  | [], out => .ok out
  | name :: names, out =>
    match r.sysConnByName.lookup name with
    | none => .error (.noSuchConnection name)
    | some p => pushByNames r names (out ++ [p])

def getStaticCommScheduleFromNames (r : Registry P A) (names : List String) :
    Except ScheduleError (List P) :=
  pushByNames r names []

/-- The inner loop of `get_static_comm_schedule_from_task_names`, over all logic links. -/
def pushMatching (r : Registry P A) (t : Tasks A) (pair : String × String) :
    List P → Bool → List P → Except ScheduleError (Bool × List P)
  | [], found, out => .ok (found, out)
  | p :: links, found, out => do
    let src ← getAddressByElemName t pair.1
    if r.src p = src then
      let dest ← getAddressByElemName t pair.2
      if r.dest p = dest then pushMatching r t pair links true (out ++ [p])
      else pushMatching r t pair links found out
    else pushMatching r t pair links found out

/-- The outer loop. -/
def pushByTaskNames (r : Registry P A) (t : Tasks A) :
    List (String × String) → List P → Except ScheduleError (List P)
  | [], out => .ok out
  | pair :: pairs, out => do
    let scanned ← pushMatching r t pair r.sysConn false out
    if scanned.1 then pushByTaskNames r t pairs scanned.2
    else .error (.noSuchPair pair.1 pair.2)

def getStaticCommScheduleFromTaskNames (r : Registry P A) (t : Tasks A)
    (pairs : List (String × String)) : Except ScheduleError (List P) :=
  pushByTaskNames r t pairs []

/-- The entries are compared from position `i` on. -/
def compareEntries (comparedTypes : String) :
    ℕ → List P → List P → Except ScheduleError Unit
  | i, p :: links, q :: links' =>
    if p ≠ q then .error (.mismatch comparedTypes i)
    else compareEntries comparedTypes (i + 1) links links'
  | _, _, _ => .ok ()

def compareSchedules (first second : List P) (comparedTypes : String) :
    Except ScheduleError Unit :=
  if first.length ≠ second.length then .error (.differentSizes comparedTypes)
  else compareEntries comparedTypes 0 first second

/-- The comparison of all provided schedules, and the one that is kept. -/
def compareAndKeep (s : Schedules P) (schedule2 schedule3 : List P) :
    Except ScheduleError (List P) := do
  let size1 := s.staticCommSchedule.length
  let size2 := s.staticCommScheduleByName.length
  let size3 := s.staticCommScheduleByTaskNames.length
  if size1 ≠ 0 ∧ size2 ≠ 0 ∧ size3 ≠ 0 then
    compareSchedules s.staticCommSchedule schedule2 "by logic links and by their names"
    compareSchedules s.staticCommSchedule schedule3
      "by logic links and by their src and dest task names"
    return s.staticCommSchedule
  else if size1 ≠ 0 ∧ size2 ≠ 0 then
    compareSchedules s.staticCommSchedule schedule2 "by logic links and by their names"
    return s.staticCommSchedule
  else if size1 ≠ 0 ∧ size3 ≠ 0 then
    compareSchedules s.staticCommSchedule schedule3
      "by logic links and by their src and dest task names"
    return s.staticCommSchedule
  else if size2 ≠ 0 ∧ size3 ≠ 0 then
    compareSchedules schedule2 schedule3 "by logic link names and by their src and dest task names"
    return schedule2
  else if size2 ≠ 0 then return schedule2
  else if size3 ≠ 0 then return schedule3
  else return s.staticCommSchedule

def convertNames (r : Registry P A) (s : Schedules P) : Except ScheduleError (List P) :=
  if s.staticCommScheduleByName.length ≠ 0 then
    getStaticCommScheduleFromNames r s.staticCommScheduleByName
  else .ok []

def convertTaskNames (r : Registry P A) (t : Tasks A) (s : Schedules P) :
    Except ScheduleError (List P) :=
  if s.staticCommScheduleByTaskNames.length ≠ 0 then
    getStaticCommScheduleFromTaskNames r t s.staticCommScheduleByTaskNames
  else .ok []

/-- The resulting `static_comm_schedule`. -/
def checkAndPrepareCommStaticSchedule (r : Registry P A) (t : Tasks A) (s : Schedules P) :
    Except ScheduleError (List P) :=
  if s.staticCommSchedule.length = 0 ∧ s.staticCommScheduleByName.length = 0 ∧
      s.staticCommScheduleByTaskNames.length = 0 then
    .ok s.staticCommSchedule
  else do
    let schedule2 ← convertNames r s
    let schedule3 ← convertTaskNames r t s
    compareAndKeep s schedule2 schedule3

/-- What the scheduler hands over at the end of elaboration before it has the schedule prepared:
the formats that it was given. -/
def setStaticCommScheduling (scheduler netif : Schedules P) : Schedules P where
  staticCommSchedule :=
    if 0 < scheduler.staticCommSchedule.length then scheduler.staticCommSchedule
    else netif.staticCommSchedule
  staticCommScheduleByName :=
    if 0 < scheduler.staticCommScheduleByName.length then scheduler.staticCommScheduleByName
    else netif.staticCommScheduleByName
  staticCommScheduleByTaskNames :=
    if 0 < scheduler.staticCommScheduleByTaskNames.length then
      scheduler.staticCommScheduleByTaskNames
    else netif.staticCommScheduleByTaskNames

/-! ### What the formats mean -/

/-- A task name stands for the task of the system, or else for that of the environment. -/
def Tasks.address (t : Tasks A) (elemName : String) : Option A :=
  (t.taskInfoByName.lookup elemName).or (t.envTasksByName.lookup elemName)

inductive Format where
  | links
  | names
  | taskNames
  deriving DecidableEq

def Schedules.Given (s : Schedules P) : Format → Prop
  | .links => s.staticCommSchedule ≠ []
  | .names => s.staticCommScheduleByName ≠ []
  | .taskNames => s.staticCommScheduleByTaskNames ≠ []

def Named (r : Registry P A) (name : String) (p : P) : Prop := p ∈ r.sysConn ∧ r.name p = name

def Joins (r : Registry P A) (t : Tasks A) (pair : String × String) (p : P) : Prop :=
  p ∈ r.sysConn ∧ t.address pair.1 = some (r.src p) ∧ t.address pair.2 = some (r.dest p)

/-- A list of logic links is what a format says, element by element. -/
def ResolvesTo (r : Registry P A) (t : Tasks A) (s : Schedules P) : Format → List P → Prop
  | .links, schedule => schedule = s.staticCommSchedule
  | .names, schedule => List.Forall₂ (Named r) s.staticCommScheduleByName schedule
  | .taskNames, schedule => List.Forall₂ (Joins r t) s.staticCommScheduleByTaskNames schedule

/-! ### The resolutions -/

omit [DecidableEq P] in
theorem lookup_registerByName {name : P → String} {sysConn : List P}
    (unique : ∀ p ∈ sysConn, ∀ q ∈ sysConn, name p = name q → p = q) {given : String} {p : P} :
    (registerByName name sysConn).lookup given = some p ↔ p ∈ sysConn ∧ name p = given := by
  induction sysConn using List.reverseRecOn generalizing p with
  | nil => simp [registerByName]
  | append_singleton sysConn last ih =>
    have before : ∀ p ∈ sysConn, ∀ q ∈ sysConn, name p = name q → p = q := by
      intro p hp q hq
      exact unique p (List.mem_append_left _ hp) q (List.mem_append_left _ hq)
    have step : registerByName name (sysConn ++ [last]) =
        (registerByName name sysConn).insert (name last) last := by
      rw [registerByName, List.foldl_append]
      rfl
    rw [step, List.mem_append, List.mem_singleton]
    by_cases same : given = name last
    · subst same
      rw [AList.lookup_insert, Option.some.injEq]
      constructor
      · rintro rfl
        exact ⟨.inr rfl, rfl⟩
      · rintro ⟨hp, hname⟩
        apply unique last (by simp) p _ hname.symm
        exact List.mem_append.mpr (hp.imp_right List.mem_singleton.mpr)
    · rw [AList.lookup_insert_ne same, ih before]
      constructor
      · rintro ⟨hp, hname⟩
        exact ⟨.inl hp, hname⟩
      · rintro ⟨hp | rfl, hname⟩
        · exact ⟨hp, hname⟩
        · exact absurd hname.symm same

section Resolutions

variable {r : Registry P A} {t : Tasks A}

omit [DecidableEq P] [DecidableEq A] in
theorem lookup_sysConnByName {name : String} {p : P} :
    r.sysConnByName.lookup name = some p ↔ Named r name p :=
  lookup_registerByName r.uniqueNames

omit [DecidableEq P] [DecidableEq A] in
theorem pushByNames_eq_ok {names : List String} {out result : List P} :
    pushByNames r names out = .ok result ↔
      ∃ schedule, List.Forall₂ (Named r) names schedule ∧ result = out ++ schedule := by
  induction names generalizing out with
  | nil =>
    simp only [pushByNames, Except.ok.injEq, List.forall₂_nil_left_iff, exists_eq_left,
      List.append_nil]
    exact eq_comm
  | cons name names ih =>
    rw [pushByNames]
    cases found : r.sysConnByName.lookup name with
    | none =>
      refine ⟨nofun, ?_⟩
      rintro ⟨schedule, resolved, -⟩
      cases resolved with
      | cons first rest =>
        rw [lookup_sysConnByName.mpr first] at found
        cases found
    | some p =>
      have named := lookup_sysConnByName.mp found
      show pushByNames r names (out ++ [p]) = .ok result ↔ _
      rw [ih]
      constructor
      · rintro ⟨schedule, resolved, rfl⟩
        exact ⟨p :: schedule, .cons named resolved, List.append_assoc _ _ _⟩
      · rintro ⟨schedule, resolved, rfl⟩
        cases resolved with
        | @cons _ q _ schedule first rest =>
          obtain rfl : p = q := r.uniqueNames p named.1 q first.1 (named.2.trans first.2.symm)
          exact ⟨schedule, rest, (List.append_assoc out [p] schedule).symm⟩

omit [DecidableEq P] [DecidableEq A] in
theorem getAddressByElemName_eq_ok {elemName : String} {address : A} :
    getAddressByElemName t elemName = .ok address ↔ t.address elemName = some address := by
  rw [getAddressByElemName, Tasks.address]
  cases t.taskInfoByName.lookup elemName with
  | some a => simp
  | none => cases t.envTasksByName.lookup elemName <;> simp

/-- The test of the inner loop. -/
def joins (r : Registry P A) (t : Tasks A) (pair : String × String) (p : P) : Bool :=
  decide (t.address pair.1 = some (r.src p) ∧ t.address pair.2 = some (r.dest p))

omit [DecidableEq P] in
theorem pushMatching_ok {pair : String × String} {links out : List P} {found : Bool}
    {scanned : Bool × List P} (done : pushMatching r t pair links found out = .ok scanned) :
    scanned = (found || links.any (joins r t pair), out ++ links.filter (joins r t pair)) := by
  induction links generalizing found out with
  | nil =>
    obtain rfl := Except.ok.inj done
    simp
  | cons p links ih =>
    rw [pushMatching] at done
    obtain ⟨src, hsrc, rest⟩ := bind_eq_ok.mp done
    rw [getAddressByElemName_eq_ok] at hsrc
    by_cases sameSrc : r.src p = src
    · rw [if_pos sameSrc] at rest
      obtain ⟨dest, hdest, rest⟩ := bind_eq_ok.mp rest
      rw [getAddressByElemName_eq_ok] at hdest
      by_cases sameDest : r.dest p = dest
      · rw [if_pos sameDest] at rest
        have joined : joins r t pair p = true := by
          simp [joins, hsrc, hdest, sameSrc, sameDest]
        rw [ih rest]
        simp [joined]
      · rw [if_neg sameDest] at rest
        have apart : joins r t pair p = false := by
          simp [joins, hdest, Ne.symm sameDest]
        rw [ih rest]
        simp [apart]
    · rw [if_neg sameSrc] at rest
      have apart : joins r t pair p = false := by
        simp [joins, hsrc, Ne.symm sameSrc]
      rw [ih rest]
      simp [apart]

omit [DecidableEq P] in
theorem pushMatching_defined {pair : String × String} {src dest : A}
    (hsrc : t.address pair.1 = some src) (hdest : t.address pair.2 = some dest)
    (links : List P) (found : Bool) (out : List P) :
    ∃ scanned, pushMatching r t pair links found out = .ok scanned := by
  induction links generalizing found out with
  | nil => exact ⟨_, rfl⟩
  | cons p links ih =>
    rw [pushMatching, getAddressByElemName_eq_ok.mpr hsrc, getAddressByElemName_eq_ok.mpr hdest]
    show ∃ scanned, (if r.src p = src then
      (if r.dest p = dest then pushMatching r t pair links true (out ++ [p])
        else pushMatching r t pair links found out)
      else pushMatching r t pair links found out) = .ok scanned
    split_ifs
    · exact ih true (out ++ [p])
    · exact ih found out
    · exact ih found out

omit [DecidableEq P] in
/-- At most one logic link joins two tasks, and it is registered once. -/
theorem filter_joins {pair : String × String} {p : P} (joined : Joins r t pair p) :
    r.sysConn.filter (joins r t pair) = [p] := by
  obtain ⟨member, hsrc, hdest⟩ := joined
  have only : ∀ q, q ∈ r.sysConn.filter (joins r t pair) ↔ q = p := by
    intro q
    rw [List.mem_filter, joins, decide_eq_true_iff, hsrc, hdest, Option.some.injEq,
      Option.some.injEq]
    constructor
    · rintro ⟨hq, sameSrc, sameDest⟩
      exact r.uniquePairs q hq p member sameSrc.symm sameDest.symm
    · rintro rfl
      exact ⟨member, rfl, rfl⟩
  have once : (r.sysConn.filter (joins r t pair)).Nodup := r.once.filter _
  cases filtered : r.sysConn.filter (joins r t pair) with
  | nil =>
    have here := (only p).mpr rfl
    rw [filtered] at here
    cases here
  | cons first rest =>
    rw [filtered] at only once
    obtain rfl := (only first).mp List.mem_cons_self
    have none : rest = [] := by
      apply List.eq_nil_iff_forall_not_mem.mpr
      intro q hq
      have same := (only q).mp (List.mem_cons_of_mem _ hq)
      rw [same] at hq
      exact (List.nodup_cons.mp once).1 hq
    rw [none]

omit [DecidableEq P] in
theorem any_joins {pair : String × String} :
    r.sysConn.any (joins r t pair) = true ↔ ∃ p, Joins r t pair p := by
  simp [List.any_eq_true, joins, Joins]

omit [DecidableEq P] in
theorem pushByTaskNames_eq_ok {pairs : List (String × String)} {out result : List P} :
    pushByTaskNames r t pairs out = .ok result ↔
      ∃ schedule, List.Forall₂ (Joins r t) pairs schedule ∧ result = out ++ schedule := by
  induction pairs generalizing out with
  | nil =>
    simp only [pushByTaskNames, Except.ok.injEq, List.forall₂_nil_left_iff, exists_eq_left,
      List.append_nil]
    exact eq_comm
  | cons pair pairs ih =>
    rw [pushByTaskNames, bind_eq_ok]
    constructor
    · rintro ⟨scanned, done, rest⟩
      have content := pushMatching_ok done
      subst content
      split_ifs at rest with found
      obtain ⟨p, joined⟩ := any_joins.mp (by simpa using found)
      rw [filter_joins joined] at rest
      obtain ⟨schedule, resolved, rfl⟩ := ih.mp rest
      exact ⟨p :: schedule, .cons joined resolved, List.append_assoc _ _ _⟩
    · rintro ⟨schedule, resolved, rfl⟩
      cases resolved with
      | @cons _ p _ schedule joined rest =>
        obtain ⟨scanned, done⟩ := pushMatching_defined joined.2.1 joined.2.2 r.sysConn false out
        refine ⟨scanned, done, ?_⟩
        have content := pushMatching_ok done
        rw [filter_joins joined, any_joins.mpr ⟨p, joined⟩] at content
        subst content
        show pushByTaskNames r t pairs (out ++ [p]) = .ok (out ++ p :: schedule)
        rw [ih]
        exact ⟨schedule, rest, (List.append_assoc out [p] schedule).symm⟩

end Resolutions

omit [DecidableEq A] in
theorem compareEntries_eq_ok {comparedTypes : String} {i : ℕ} {first second : List P}
    (sizes : first.length = second.length) :
    compareEntries comparedTypes i first second = .ok () ↔ first = second := by
  induction first generalizing i second with
  | nil =>
    cases List.length_eq_zero_iff.mp sizes.symm
    exact ⟨fun _ => rfl, fun _ => rfl⟩
  | cons p first ih =>
    cases second with
    | nil => cases sizes
    | cons q second =>
      rw [compareEntries, List.cons.injEq]
      by_cases same : p = q
      · rw [if_neg (not_not.mpr same), ih (Nat.succ.inj sizes)]
        exact ⟨fun rest => ⟨same, rest⟩, fun both => both.2⟩
      · rw [if_pos same]
        exact ⟨nofun, fun both => absurd both.1 same⟩

omit [DecidableEq A] in
theorem compareSchedules_eq_ok {comparedTypes : String} {first second : List P} {done : Unit} :
    compareSchedules first second comparedTypes = .ok done ↔ first = second := by
  rw [compareSchedules]
  by_cases sizes : first.length = second.length
  · rw [if_neg (not_not.mpr sizes), compareEntries_eq_ok sizes]
  · rw [if_pos sizes]
    refine ⟨nofun, ?_⟩
    rintro rfl
    exact absurd rfl sizes

omit [DecidableEq A] in
/-- Each comparison that is needed for the formats that were given is made. -/
theorem compareAndKeep_eq_ok {s : Schedules P} {schedule2 schedule3 schedule : List P} :
    compareAndKeep s schedule2 schedule3 = .ok schedule ↔
      (s.staticCommSchedule ≠ [] → schedule = s.staticCommSchedule) ∧
        (s.staticCommScheduleByName ≠ [] → schedule = schedule2) ∧
        (s.staticCommScheduleByTaskNames ≠ [] → schedule = schedule3) ∧
        (s.staticCommSchedule = [] → s.staticCommScheduleByName = [] →
          s.staticCommScheduleByTaskNames = [] → schedule = []) := by
  rw [compareAndKeep]
  by_cases h1 : s.staticCommSchedule = [] <;> by_cases h2 : s.staticCommScheduleByName = [] <;>
    by_cases h3 : s.staticCommScheduleByTaskNames = [] <;>
    simp [h1, h2, h3, bind_eq_ok, compareSchedules_eq_ok, pure, Except.pure] <;> grind

section Prepared

variable {r : Registry P A} {t : Tasks A} {s : Schedules P} {schedule : List P}

omit [DecidableEq P] [DecidableEq A] in
theorem convertNames_eq_ok : convertNames r s = .ok schedule ↔
    List.Forall₂ (Named r) s.staticCommScheduleByName schedule := by
  rw [convertNames]
  cases s.staticCommScheduleByName with
  | nil => simp [eq_comm]
  | cons name names => simp [getStaticCommScheduleFromNames, pushByNames_eq_ok]

omit [DecidableEq P] in
theorem convertTaskNames_eq_ok : convertTaskNames r t s = .ok schedule ↔
    List.Forall₂ (Joins r t) s.staticCommScheduleByTaskNames schedule := by
  rw [convertTaskNames]
  cases s.staticCommScheduleByTaskNames with
  | nil => simp [eq_comm]
  | cons pair pairs => simp [getStaticCommScheduleFromTaskNames, pushByTaskNames_eq_ok]

omit [DecidableEq P] in
/-- A list that resolves a format where it is given, and the empty list where it is not. -/
theorem exists_resolution {α : Type} {resolves : α → P → Prop} {given : List α}
    (h : given ≠ [] → List.Forall₂ resolves given schedule) :
    ∃ resolution, List.Forall₂ resolves given resolution ∧ (given ≠ [] → schedule = resolution) := by
  by_cases empty : given = []
  · refine ⟨[], ?_, fun given => absurd empty given⟩
    rw [empty]
    exact .nil
  · exact ⟨schedule, h empty, fun _ => rfl⟩

/-- The schedule is prepared exactly when every format that was given says the same. -/
theorem prepare_eq_ok :
    checkAndPrepareCommStaticSchedule r t s = .ok schedule ↔
      (∀ f, s.Given f → ResolvesTo r t s f schedule) ∧ ((∀ f, ¬ s.Given f) → schedule = []) := by
  rw [checkAndPrepareCommStaticSchedule]
  simp only [List.length_eq_zero_iff]
  by_cases nothing : s.staticCommSchedule = [] ∧ s.staticCommScheduleByName = [] ∧
      s.staticCommScheduleByTaskNames = []
  · have ungiven : ∀ f, ¬ s.Given f := by
      intro f given
      cases f with
      | links => exact given nothing.1
      | names => exact given nothing.2.1
      | taskNames => exact given nothing.2.2
    rw [if_pos nothing, nothing.1, Except.ok.injEq]
    constructor
    · rintro rfl
      exact ⟨fun f given => absurd given (ungiven f), fun _ => rfl⟩
    · intro h
      exact (h.2 ungiven).symm
  · rw [if_neg nothing, bind_eq_ok]
    constructor
    · rintro ⟨schedule2, resolved2, rest⟩
      obtain ⟨schedule3, resolved3, kept⟩ := bind_eq_ok.mp rest
      rw [convertNames_eq_ok] at resolved2
      rw [convertTaskNames_eq_ok] at resolved3
      obtain ⟨links, names, taskNames, -⟩ := compareAndKeep_eq_ok.mp kept
      constructor
      · intro f given
        cases f with
        | links => exact links given
        | names => exact (names given).symm ▸ resolved2
        | taskNames => exact (taskNames given).symm ▸ resolved3
      · intro ungiven
        refine absurd ⟨?_, ?_, ?_⟩ nothing
        · exact not_not.mp (ungiven .links)
        · exact not_not.mp (ungiven .names)
        · exact not_not.mp (ungiven .taskNames)
    · rintro ⟨resolves, -⟩
      obtain ⟨schedule2, resolved2, same2⟩ := exists_resolution (resolves .names)
      obtain ⟨schedule3, resolved3, same3⟩ := exists_resolution (resolves .taskNames)
      refine ⟨schedule2, convertNames_eq_ok.mpr resolved2, bind_eq_ok.mpr ⟨schedule3,
        convertTaskNames_eq_ok.mpr resolved3, compareAndKeep_eq_ok.mpr ?_⟩⟩
      exact ⟨resolves .links, same2, same3, fun h1 h2 h3 => absurd ⟨h1, h2, h3⟩ nothing⟩

omit [DecidableEq P] [DecidableEq A] in
/-- A format resolves to one list at most. -/
theorem resolvesTo_unique {f : Format} {first second : List P} (h : ResolvesTo r t s f first)
    (h' : ResolvesTo r t s f second) : first = second := by
  cases f with
  | links => exact h.trans h'.symm
  | names =>
    have unique : Relator.RightUnique (Named r) := by
      intro name p q hp hq
      exact r.uniqueNames p hp.1 q hq.1 (hp.2.trans hq.2.symm)
    exact unique.forall₂ h h'
  | taskNames =>
    have unique : Relator.RightUnique (Joins r t) := by
      intro pair p q hp hq
      apply r.uniquePairs p hp.1 q hq.1
      · exact Option.some.inj (hp.2.1.symm.trans hq.2.1)
      · exact Option.some.inj (hp.2.2.symm.trans hq.2.2)
    exact unique.forall₂ h h'

/-- A name of a format that was given and that stands for nothing. -/
def Unresolved (r : Registry P A) (t : Tasks A) (s : Schedules P) : Prop :=
  (∃ name ∈ s.staticCommScheduleByName, ∀ p, ¬ Named r name p) ∨
    ∃ pair ∈ s.staticCommScheduleByTaskNames, ∀ p, ¬ Joins r t pair p

/-- Two formats that were given and that stand for different lists. -/
def Conflict (r : Registry P A) (t : Tasks A) (s : Schedules P) : Prop :=
  ∃ f g first second, s.Given f ∧ s.Given g ∧ ResolvesTo r t s f first ∧
    ResolvesTo r t s g second ∧ first ≠ second

/-- What the preparation of a static communication schedule should do. -/
structure Prepares (r : Registry P A) (t : Tasks A) (s : Schedules P) : Prop where
  resolves : ∀ schedule, checkAndPrepareCommStaticSchedule r t s = .ok schedule →
    ∀ f, s.Given f → ResolvesTo r t s f schedule
  unresolved : Unresolved r t s → ∃ e, checkAndPrepareCommStaticSchedule r t s = .error e
  conflict : Conflict r t s → ∃ e, checkAndPrepareCommStaticSchedule r t s = .error e
  again : ∀ schedule, checkAndPrepareCommStaticSchedule r t s = .ok schedule →
    checkAndPrepareCommStaticSchedule r t { s with staticCommSchedule := schedule } = .ok schedule

omit [DecidableEq P] in
theorem exists_resolved {α : Type} {resolves : α → P → Prop} {given : List α} {x : α}
    (h : List.Forall₂ resolves given schedule) (member : x ∈ given) : ∃ p, resolves x p := by
  induction h with
  | nil => cases member
  | @cons y p given schedule first _ ih =>
    rcases List.mem_cons.mp member with rfl | later
    · exact ⟨p, first⟩
    · exact ih later

omit [DecidableEq P] [DecidableEq A] in
theorem not_unresolved (h : ∀ f, s.Given f → ResolvesTo r t s f schedule) :
    ¬ Unresolved r t s := by
  rintro (⟨name, given, nowhere⟩ | ⟨pair, given, nowhere⟩)
  · obtain ⟨p, named⟩ := exists_resolved (h .names (List.ne_nil_of_mem given)) given
    exact nowhere p named
  · obtain ⟨p, joined⟩ := exists_resolved (h .taskNames (List.ne_nil_of_mem given)) given
    exact nowhere p joined

omit [DecidableEq P] [DecidableEq A] in
theorem not_conflict (h : ∀ f, s.Given f → ResolvesTo r t s f schedule) : ¬ Conflict r t s := by
  rintro ⟨f, g, first, second, givenF, givenG, resolvesF, resolvesG, differ⟩
  apply differ
  calc
    first = schedule := resolvesTo_unique resolvesF (h f givenF)
    _ = second := resolvesTo_unique (h g givenG) resolvesG

/-- The schedule that was prepared agrees with the other formats when it is given itself. -/
theorem prepare_again (h : checkAndPrepareCommStaticSchedule r t s = .ok schedule) :
    checkAndPrepareCommStaticSchedule r t { s with staticCommSchedule := schedule } =
      .ok schedule := by
  obtain ⟨resolves, nothing⟩ := prepare_eq_ok.mp h
  apply prepare_eq_ok.mpr
  constructor
  · intro f given
    cases f with
    | links => rfl
    | names => exact resolves .names given
    | taskNames => exact resolves .taskNames given
  · intro ungiven
    exact not_not.mp (ungiven .links)

theorem prepares (r : Registry P A) (t : Tasks A) (s : Schedules P) : Prepares r t s where
  resolves _ h := (prepare_eq_ok.mp h).1
  unresolved faulty := by
    apply error_iff.mpr
    intro schedule h
    exact not_unresolved (prepare_eq_ok.mp h).1 faulty
  conflict faulty := by
    apply error_iff.mpr
    intro schedule h
    exact not_conflict (prepare_eq_ok.mp h).1 faulty
  again _ := prepare_again

end Prepared

end Kista.Network.CommSchedule
