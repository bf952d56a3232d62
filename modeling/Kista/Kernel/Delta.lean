/- Kista/Kernel/Delta
   digest: A discrete-event kernel with delta cycles: cooperative processes, signals that show
   a written value after the next update, and events that last for one delta. -/

import Mathlib.Data.Nat.Notation
import Mathlib.Logic.Function.Basic
import Kista.Kernel.Run

set_option autoImplicit false
set_option relaxedAutoImplicit false

/-!
An instant is a sequence of evaluation phases. In each, the ready processes run one after the
other, in any order, until their next wait. When none is left the signals are updated, and the
events notified meanwhile wake the processes that are waiting for them, and only those. Time
advances when nothing is left to do in the instant.
-/

namespace Kista.Kernel.Delta

open Run

/-- The value that is read, and the one that the next update will show. -/
structure Signal (α : Type*) where
  current : α
  next : α
  deriving DecidableEq, Repr

namespace Signal

variable {α : Type*}

def init (a : α) : Signal α := ⟨a, a⟩

def read (s : Signal α) : α := s.current

def write (s : Signal α) (a : α) : Signal α := { s with next := a }

def update (s : Signal α) : Signal α := ⟨s.next, s.next⟩

def dirty [DecidableEq α] (s : Signal α) : Bool := s.current != s.next

/-- The edges that the next update is going to show. -/
def posedge (s : Signal Bool) : Bool := !s.current && s.next

def negedge (s : Signal Bool) : Bool := s.current && !s.next

theorem of_posedge {s : Signal Bool} (rises : s.posedge = true) :
    s.current = false ∧ s.next = true := by
  simpa [posedge] using rises

/-- A low signal without a rising edge stays low. -/
theorem low_of_no_posedge {s : Signal Bool} (silent : s.posedge = false)
    (low : s.current = false) : s.next = false := by
  simpa [posedge, low] using silent

theorem high_of_no_negedge {s : Signal Bool} (silent : s.negedge = false)
    (high : s.current = true) : s.next = true := by
  simpa [negedge, high] using silent

theorem next_eq_of_clean [DecidableEq α] {s : Signal α} (clean : s.dirty = false) :
    s.next = s.current := by
  have : s.current = s.next := by simpa [dirty] using clean
  exact this.symm

@[simp] theorem init_current (a : α) : (init a).current = a := rfl
@[simp] theorem init_next (a : α) : (init a).next = a := rfl
@[simp] theorem read_eq (s : Signal α) : s.read = s.current := rfl
@[simp] theorem write_current (s : Signal α) (a : α) : (s.write a).current = s.current := rfl
@[simp] theorem write_next (s : Signal α) (a : α) : (s.write a).next = a := rfl
@[simp] theorem update_current (s : Signal α) : s.update.current = s.next := rfl
@[simp] theorem update_next (s : Signal α) : s.update.next = s.next := rfl

end Signal

/-- Where a process stands. A free process waits for something outside the system, which may
come during any evaluation phase. -/
inductive Status (ε ρ : Type*) where
  | ready (point : ρ)
  | blocked (events : List ε) (timeout : Option ℕ) (point : ρ)
  | free (point : ρ)
  deriving DecidableEq

/-- What a process does between two waits. -/
structure Segment (ε ρ σ : Type*) where
  store : σ
  notified : List ε
  status : Status ε ρ

structure Config (π ε ρ σ : Type*) where
  store : σ
  status : π → Status ε ρ
  pending : List ε
  now : ℕ

/-- The processes with their code, and the signals of the store. The choice resolves what the
code leaves to its environment. -/
structure System (π ε ρ σ χ : Type*) where
  procs : List π
  complete : ∀ p, p ∈ procs
  exec : π → ρ → χ → ℕ → σ → Option (Segment ε ρ σ)
  update : σ → σ
  edge : σ → ε → Bool
  dirty : σ → Bool

inductive Label (π χ : Type*) where
  | eval (p : π) (choice : χ)
  | delta
  | advance (t : ℕ)

variable {π ε ρ σ χ : Type*}

namespace Status

def isReady : Status ε ρ → Bool
  | ready _ => true
  | _ => false

/-- The point at which the process can be resumed now. -/
def resumable : Status ε ρ → Option ρ
  | ready r => some r
  | free r => some r
  | blocked _ _ _ => none

def point : Status ε ρ → ρ
  | ready r => r
  | blocked _ _ r => r
  | free r => r

def map {ρ' : Type*} (f : ρ → ρ') : Status ε ρ → Status ε ρ'
  | ready r => ready (f r)
  | blocked events timeout r => blocked events timeout (f r)
  | free r => free (f r)

def wake (fired : ε → Bool) (t : ℕ) : Status ε ρ → Status ε ρ
  | blocked events timeout r =>
    if events.any fired || timeout == some t then ready r else blocked events timeout r
  | s => s

/-- A wait for no time at all ends in the next delta. -/
def dueAt (t : ℕ) : Status ε ρ → Bool
  | blocked _ timeout _ => timeout == some t
  | _ => false

def latest (t : ℕ) : Status ε ρ → Bool
  | blocked _ (some u) _ => decide (t ≤ u)
  | _ => true

end Status

namespace System

variable (sys : System π ε ρ σ χ) [DecidableEq ε]

def fired (c : Config π ε ρ σ) (e : ε) : Bool := sys.edge c.store e || decide (e ∈ c.pending)

/-- No process is left to run in the evaluation phase. -/
def quiet (c : Config π ε ρ σ) : Bool := sys.procs.all fun p => !(c.status p).isReady

/-- No delta is pending. -/
def stable (c : Config π ε ρ σ) : Bool :=
  sys.quiet c && c.pending.isEmpty && !sys.dirty c.store &&
    sys.procs.all fun p => !(c.status p).dueAt c.now

variable [DecidableEq π]

def step (c : Config π ε ρ σ) : Label π χ → Option (Config π ε ρ σ)
  | .eval p choice =>
    (c.status p).resumable.bind fun r =>
      (sys.exec p r choice c.now c.store).map fun seg =>
        { c with
          store := seg.store
          status := Function.update c.status p seg.status
          pending := seg.notified ++ c.pending }
  | .delta =>
    if sys.quiet c then
      some
        { c with
          store := sys.update c.store
          status := fun p => (c.status p).wake (sys.fired c) c.now
          pending := [] }
    else none
  | .advance t =>
    if sys.stable c && decide (c.now < t) && sys.procs.all fun p => (c.status p).latest t then
      some { c with status := fun p => (c.status p).wake (fun _ => false) t, now := t }
    else none

variable {sys}

omit [DecidableEq ε] [DecidableEq π] in
theorem quiet_iff {c : Config π ε ρ σ} :
    sys.quiet c = true ↔ ∀ p r, c.status p ≠ .ready r := by
  simp only [quiet, List.all_eq_true, Bool.not_eq_true']
  constructor
  · intro h p r hp
    have := h p (sys.complete p)
    rw [hp] at this
    cases this
  · intro h p _
    cases hp : c.status p with
    | ready r => exact absurd hp (h p r)
    | blocked events timeout r => rfl
    | free r => rfl

omit [DecidableEq ε] [DecidableEq π] in
theorem stable_iff {c : Config π ε ρ σ} :
    sys.stable c = true ↔ (∀ p r, c.status p ≠ .ready r) ∧ c.pending = [] ∧
      sys.dirty c.store = false ∧
      ∀ p events timeout r, c.status p = .blocked events timeout r → timeout ≠ some c.now := by
  simp only [stable, Bool.and_eq_true, quiet_iff, List.isEmpty_iff, Bool.not_eq_true',
    List.all_eq_true, and_assoc]
  refine and_congr_right fun _ => and_congr_right fun _ => and_congr_right fun _ => ?_
  constructor
  · intro h p events timeout r hp due
    have := h p (sys.complete p)
    rw [hp, due] at this
    simp [Status.dueAt] at this
  · intro h p _
    cases hp : c.status p with
    | ready r => rfl
    | free r => rfl
    | blocked events timeout r =>
      have := h p events timeout r hp
      simpa [Status.dueAt] using this

/-- What an evaluation does: one process runs to its next wait, the others stay put. -/
theorem step_eval_eq_some {c c' : Config π ε ρ σ} {p : π} {choice : χ} :
    sys.step c (.eval p choice) = some c' ↔
      ∃ r seg, (c.status p).resumable = some r ∧
        sys.exec p r choice c.now c.store = some seg ∧
        c' = ⟨seg.store, Function.update c.status p seg.status, seg.notified ++ c.pending,
          c.now⟩ := by
  simp only [step, Option.bind_eq_some_iff, Option.map_eq_some_iff]
  constructor
  · rintro ⟨r, hr, seg, hseg, rfl⟩
    exact ⟨r, seg, hr, hseg, rfl⟩
  · rintro ⟨r, seg, hr, hseg, rfl⟩
    exact ⟨r, hr, seg, hseg, rfl⟩

theorem step_delta_eq_some {c c' : Config π ε ρ σ} :
    sys.step c .delta = some c' ↔ sys.quiet c = true ∧
      c' = ⟨sys.update c.store, fun p => (c.status p).wake (sys.fired c) c.now, [], c.now⟩ := by
  rw [step, Option.ite_none_right_eq_some, Option.some.injEq]
  exact and_congr_right fun _ => eq_comm

theorem step_advance_eq_some {c c' : Config π ε ρ σ} {t : ℕ} :
    sys.step c (.advance t) = some c' ↔
      (sys.stable c = true ∧ c.now < t ∧ ∀ p, (c.status p).latest t = true) ∧
        c' = ⟨c.store, fun p => (c.status p).wake (fun _ => false) t, c.pending, t⟩ := by
  rw [step, Option.ite_none_right_eq_some, Option.some.injEq]
  simp only [Bool.and_eq_true, decide_eq_true_eq, List.all_eq_true, and_assoc]
  have every : (∀ p ∈ sys.procs, (c.status p).latest t = true) ↔
      ∀ p, (c.status p).latest t = true :=
    ⟨fun h p => h p (sys.complete p), fun h p _ => h p⟩
  rw [every]
  exact and_congr_right fun _ => and_congr_right fun _ => and_congr_right fun _ => eq_comm

/-- An invariant that every segment, every delta and every advance of time keeps. -/
theorem keeps_of_steps {inv : Config π ε ρ σ → Prop} {ok : Config π ε ρ σ → Label π χ → Prop}
    (eval : ∀ c p r choice seg, inv c → ok c (.eval p choice) →
      (c.status p).resumable = some r → sys.exec p r choice c.now c.store = some seg →
      inv ⟨seg.store, Function.update c.status p seg.status, seg.notified ++ c.pending, c.now⟩)
    (delta : ∀ c, inv c → ok c .delta → (∀ p r, c.status p ≠ .ready r) →
      inv ⟨sys.update c.store, fun p => (c.status p).wake (sys.fired c) c.now, [], c.now⟩)
    (advance : ∀ c t, inv c → ok c (.advance t) → sys.stable c = true → c.now < t →
      (∀ p, (c.status p).latest t = true) →
      inv ⟨c.store, fun p => (c.status p).wake (fun _ => false) t, c.pending, t⟩)
    (c : Config π ε ρ σ) (l : Label π χ) (c' : Config π ε ρ σ) (h : inv c) (allowed : ok c l)
    (taken : sys.step c l = some c') : inv c' := by
  cases l with
  | eval p choice =>
    obtain ⟨r, seg, resumable, run, rfl⟩ := step_eval_eq_some.mp taken
    exact eval c p r choice seg h allowed resumable run
  | delta =>
    obtain ⟨quiet, rfl⟩ := step_delta_eq_some.mp taken
    exact delta c h allowed (quiet_iff.mp quiet)
  | advance t =>
    obtain ⟨⟨stable, later, within⟩, rfl⟩ := step_advance_eq_some.mp taken
    exact advance c t h allowed stable later within

/-- The same for an invariant between the configuration and a history of the run. -/
theorem records_of_steps {η : Type*}
    {note : Config π ε ρ σ → Label π χ → Config π ε ρ σ → η → η}
    {inv : Config π ε ρ σ → η → Prop} {ok : Label π χ → Prop}
    (eval : ∀ c h p r choice seg, inv c h → ok (.eval p choice) →
      (c.status p).resumable = some r → sys.exec p r choice c.now c.store = some seg →
      inv ⟨seg.store, Function.update c.status p seg.status, seg.notified ++ c.pending, c.now⟩
        (note c (.eval p choice) ⟨seg.store, Function.update c.status p seg.status,
          seg.notified ++ c.pending, c.now⟩ h))
    (delta : ∀ c h c', inv c h → ok .delta →
      c' = ⟨sys.update c.store, fun p => (c.status p).wake (sys.fired c) c.now, [], c.now⟩ →
      inv c' (note c .delta c' h))
    (advance : ∀ c h c' t, inv c h → ok (.advance t) → c.now < t →
      c' = ⟨c.store, fun p => (c.status p).wake (fun _ => false) t, c.pending, t⟩ →
      inv c' (note c (.advance t) c' h))
    (x : Config π ε ρ σ × η) (l : Label π χ) (y : Config π ε ρ σ × η) (h : inv x.1 x.2)
    (allowed : ok l) (taken : recording sys.step note x l = some y) : inv y.1 y.2 := by
  obtain ⟨stepped, noted⟩ := recording_eq_some.mp taken
  rw [noted]
  cases l with
  | eval p choice =>
    obtain ⟨r, seg, resumable, run, same⟩ := step_eval_eq_some.mp stepped
    rw [same]
    exact eval x.1 x.2 p r choice seg h allowed resumable run
  | delta =>
    obtain ⟨-, same⟩ := step_delta_eq_some.mp stepped
    exact delta x.1 x.2 y.1 h allowed same
  | advance t =>
    obtain ⟨⟨-, later, -⟩, same⟩ := step_advance_eq_some.mp stepped
    exact advance x.1 x.2 y.1 t h allowed later same

end System

namespace Status

variable {fired : ε → Bool} {t : ℕ} {s : Status ε ρ} {events : List ε} {timeout : Option ℕ} {r : ρ}

@[simp] theorem wake_ready : (ready r : Status ε ρ).wake fired t = .ready r := rfl

@[simp] theorem wake_free : (free r : Status ε ρ).wake fired t = .free r := rfl

@[simp] theorem wake_point : (s.wake fired t).point = s.point := by
  cases s with
  | ready r' => rfl
  | free r' => rfl
  | blocked events' timeout' r' =>
    simp only [wake]
    split <;> rfl

@[simp] theorem map_point {ρ' : Type*} (f : ρ → ρ') : (s.map f).point = f s.point := by
  cases s <;> rfl

theorem map_ne_ready {ρ' : Type*} {f : ρ → ρ'} (h : ∀ r, s ≠ .ready r) (r' : ρ') :
    s.map f ≠ .ready r' := by
  cases s with
  | ready r => exact absurd rfl (h r)
  | blocked events timeout r => simp [map]
  | free r => simp [map]

theorem resumable_point (h : s.resumable = some r) : s.point = r := by
  cases s with
  | ready r' => exact Option.some.inj h
  | free r' => exact Option.some.inj h
  | blocked events' timeout' r' => cases h

theorem wake_blocked_of_fired (e : ε) (waits : e ∈ events) (fires : fired e = true) :
    (blocked events timeout r).wake fired t = .ready r := by
  have : events.any fired = true := List.any_eq_true.mpr ⟨e, waits, fires⟩
  simp [wake, this]

theorem wake_blocked_of_due : (blocked events (some t) r).wake fired t = .ready r := by
  simp [wake]

theorem wake_blocked_of_silent (silent : ∀ e ∈ events, fired e = false) (due : timeout ≠ some t) :
    (blocked events timeout r).wake fired t = .blocked events timeout r := by
  have : events.any fired = false := by
    simpa [List.any_eq_false] using silent
  simp [wake, this, due]

/-- A wait for nothing goes on for ever. -/
@[simp] theorem wake_idle : (blocked [] none r : Status ε ρ).wake fired t = .blocked [] none r :=
  wake_blocked_of_silent (by simp) (by simp)

/-- A wait for a time alone goes on until that time. -/
theorem wake_timed {due : ℕ} (before : t ≠ due) :
    (blocked [] (some due) r : Status ε ρ).wake fired t = .blocked [] (some due) r :=
  wake_blocked_of_silent (by simp) fun same => before (Option.some.inj same).symm

/-- A wait for one event, without a timeout, goes on until the event. -/
theorem wake_waiting {e : ε} (silent : fired e = false) :
    (blocked [e] none r).wake fired t = .blocked [e] none r := by
  refine wake_blocked_of_silent ?_ (by simp)
  intro e' he'
  rw [List.mem_singleton.mp he']
  exact silent

/-- A process that is still waiting has seen none of its events. -/
theorem wake_eq_blocked :
    s.wake fired t = .blocked events timeout r ↔
      s = .blocked events timeout r ∧ (∀ e ∈ events, fired e = false) ∧ timeout ≠ some t := by
  cases s with
  | ready r' => simp
  | free r' => simp
  | blocked events' timeout' r' =>
    by_cases woken : (events'.any fired || timeout' == some t) = true
    · simp only [wake, woken, if_true, reduceCtorEq, false_iff, not_and, blocked.injEq]
      rintro ⟨rfl, rfl, rfl⟩ silent due
      rcases Bool.or_eq_true_iff.mp woken with h | h
      · obtain ⟨e, he, fires⟩ := List.any_eq_true.mp h
        rw [silent e he] at fires
        cases fires
      · exact due (by simpa using h)
    · simp only [wake, woken, Bool.false_eq_true, if_false, blocked.injEq]
      simp only [Bool.or_eq_true, List.any_eq_true, beq_iff_eq, not_or, not_exists, not_and,
        Bool.not_eq_true] at woken
      constructor
      · rintro ⟨rfl, rfl, rfl⟩
        exact ⟨⟨rfl, rfl, rfl⟩, woken⟩
      · intro h
        exact h.1

theorem wake_eq_ready :
    s.wake fired t = .ready r ↔ s = .ready r ∨ ∃ events timeout,
      s = .blocked events timeout r ∧ ((∃ e ∈ events, fired e = true) ∨ timeout = some t) := by
  cases s with
  | ready r' => simp
  | free r' => simp
  | blocked events' timeout' r' =>
    by_cases woken : (events'.any fired || timeout' == some t) = true
    · have : (∃ e ∈ events', fired e = true) ∨ timeout' = some t := by
        simpa [List.any_eq_true] using woken
      simp only [wake, woken, if_true, ready.injEq, reduceCtorEq, false_or]
      constructor
      · rintro rfl
        exact ⟨events', timeout', rfl, this⟩
      · rintro ⟨events, timeout, h, -⟩
        exact (blocked.inj h).2.2
    · have : ¬ ((∃ e ∈ events', fired e = true) ∨ timeout' = some t) := by
        simpa [List.any_eq_true] using woken
      simp only [wake, woken, Bool.false_eq_true, if_false, reduceCtorEq, false_or, false_iff,
        not_exists, not_and, blocked.injEq]
      rintro events timeout ⟨rfl, rfl, -⟩
      exact this

theorem wake_eq_free : s.wake fired t = .free r ↔ s = .free r := by
  cases s with
  | ready r' => simp
  | free r' => simp
  | blocked events' timeout' r' =>
    simp only [wake, reduceCtorEq, iff_false]
    split <;> simp

/-- A process can be resumed after a wake if it could before or if it was woken. -/
theorem wake_resumable (h : (s.wake fired t).resumable = some r) :
    s.resumable = some r ∨ ∃ events timeout,
      s = .blocked events timeout r ∧ ((∃ e ∈ events, fired e = true) ∨ timeout = some t) := by
  cases woken : s.wake fired t with
  | ready r' =>
    rw [woken] at h
    cases h
    rcases wake_eq_ready.mp woken with rfl | blocked
    · exact .inl rfl
    · exact .inr blocked
  | blocked events timeout r' =>
    rw [woken] at h
    cases h
  | free r' =>
    left
    rw [woken] at h
    rw [wake_eq_free.mp woken]
    exact h

end Status

end Kista.Kernel.Delta
