/- Kista/SynchComm/EventMemory
   source: src/src/synch_comm/registered_event.cpp
   digest: An event with a memory between one setter and one waiter: its flag is consumed at once,
   its notification comes one delta later. -/

import Kista.Kernel.Delta
import Kista.Kernel.Log

set_option autoImplicit false
set_option relaxedAutoImplicit false

/-!
Each of the two threads calls when it likes, in any delta of any instant. Both may unset the event.
-/

namespace Kista.SynchComm.EventMemory

open Kernel.Delta Kernel.Run Kernel.Log

structure RegisteredEvent where
  flag : Bool
  waitReleaseUnsetFlag : Bool
  deriving DecidableEq

inductive Thread where
  | setter
  | waiter
  deriving DecidableEq

/-- A thread is outside the event, or inside `wait` at the wait for the notification. -/
inductive Point where
  | outside
  | inWait
  deriving DecidableEq

inductive Call where
  | set
  | unset
  | wait
  deriving DecidableEq

abbrev Stretch := Segment Unit Point RegisteredEvent

def RegisteredEvent.unset (e : RegisteredEvent) : RegisteredEvent := { e with flag := false }

/-- `set` notifies with SC_ZERO_TIME. -/
def RegisteredEvent.set (e : RegisteredEvent) : Stretch where
  store := { e with flag := true }
  notified := [()]
  status := .free .outside

/-- The end of `wait`. -/
def RegisteredEvent.release (e : RegisteredEvent) : Stretch where
  store := if e.waitReleaseUnsetFlag then e.unset else e
  notified := []
  status := .free .outside

def RegisteredEvent.wait (e : RegisteredEvent) : Stretch :=
  if e.flag then e.release else ⟨e, [], .blocked [()] none .inWait⟩

def exec : Thread → Point → Call → ℕ → RegisteredEvent → Option Stretch
  | .setter, .outside, .set, _, e => some e.set
  | _, .outside, .unset, _, e => some ⟨e.unset, [], .free .outside⟩
  | .waiter, .outside, .wait, _, e => some e.wait
  | .waiter, .inWait, .wait, _, e => some e.release
  | _, _, _, _, _ => none

/-- There are no signals. -/
def system : System Thread Unit Point RegisteredEvent Call where
  procs := [.setter, .waiter]
  complete p := by cases p <;> simp
  exec := exec
  update := id
  edge _ _ := false
  dirty _ := false

abbrev State := Config Thread Unit Point RegisteredEvent

/-- The constructor, and both threads at liberty. -/
def registeredEvent (waitReleaseUnsetFlag : Bool) : State where
  store := ⟨false, waitReleaseUnsetFlag⟩
  status _ := .free .outside
  pending := []
  now := 0

/-! ### What the callers see -/

inductive Entry where
  | set
  | unset
  | waits (blocks : Bool)
  | returned
  deriving DecidableEq

/-- What an evaluation adds to the log. -/
def entries (c : State) : Label Thread Call → List Entry
  | .eval _ .set => [.set]
  | .eval _ .unset => [.unset]
  | .eval p .wait =>
    if (c.status p).point = .outside then
      if c.store.flag then [.waits false, .returned] else [.waits true]
    else [.returned]
  | _ => []

def note (c : State) (l : Label Thread Call) (_ : State) (log : List Entry) : List Entry :=
  log ++ entries c l

abbrev loggedStep : State × List Entry → Label Thread Call → Option (State × List Entry) :=
  recording system.step note

/-- A set has come since the last return of `wait`. -/
abbrev fresh : List Entry → Bool := since (· == .set) (· == .returned)

/-- A set that no return of `wait` and no unset has followed. -/
abbrev armed : List Entry → Bool := since (· == .set) fun x => x == .returned || x == .unset

/-- The waits of a log are released by its sets. -/
structure ReleasedBySets (log : List Entry) : Prop where
  between : ∀ before between after,
    log = before ++ .returned :: (between ++ .returned :: after) → .set ∈ between
  count : log.count .returned ≤ log.count .set
  prompt : ∀ before after blocks, log = before ++ .waits blocks :: after →
    armed before = true → blocks = false

/-- `wait` is not called while a notification is on its way that comes from before the last return
of `wait`. -/
def NothingStale (x : State × List Entry) : Label Thread Call → Prop
  | .eval .waiter .wait =>
    x.1.status .waiter = .free .outside → x.1.pending ≠ [] → fresh x.2 = true
  | _ => True

instance (x : State × List Entry) : (l : Label Thread Call) → Decidable (NothingStale x l)
  | .eval .waiter .wait => inferInstanceAs (Decidable
      (x.1.status .waiter = .free .outside → x.1.pending ≠ [] → fresh x.2 = true))
  | .eval .waiter .set | .eval .waiter .unset | .eval .setter _ | .delta | .advance _ =>
    inferInstanceAs (Decidable True)

/-! ### The invariant -/

/-- Between an event, the status of its waiter, the notifications on their way and the log. -/
structure Kept (e : RegisteredEvent) (waiter : Status Unit Point) (pending : List Unit)
    (log : List Entry) : Prop where
  auto : e.waitReleaseUnsetFlag = true
  waiter : waiter = .free .outside ∨
    waiter = .blocked [()] none .inWait ∧ (pending ≠ [] → fresh log = true) ∨
    waiter = .ready .inWait ∧ fresh log = true
  flag : e.flag = armed log
  released : MadeWhile (· = .returned) (fun log => fresh log = true) log
  prompt : MadeWhile (· = .waits true) (fun log => armed log = false) log

theorem fresh_of_armed {log : List Entry} (h : armed log = true) : fresh log = true := by
  apply since_of_stops_less _ h
  intro x hx
  simp only [hx, Bool.true_or]

section Entries

variable {log : List Entry} {blocks : Bool}

@[simp] theorem fresh_waits : fresh (log ++ [.waits blocks]) = fresh log := by
  have hset : (Entry.waits blocks == Entry.set) = false := rfl
  have hreturned : (Entry.waits blocks == Entry.returned) = false := rfl
  simp [fresh, hset, hreturned]

@[simp] theorem armed_waits : armed (log ++ [.waits blocks]) = armed log := by
  have hset : (Entry.waits blocks == Entry.set) = false := rfl
  have hreturned : (Entry.waits blocks == Entry.returned) = false := rfl
  have hunset : (Entry.waits blocks == Entry.unset) = false := rfl
  simp [armed, hset, hreturned, hunset]

end Entries

theorem kept_start : Kept ⟨false, true⟩ (.free .outside) [] [] where
  auto := rfl
  waiter := .inl rfl
  flag := rfl
  released := madeWhile_nil
  prompt := madeWhile_nil

section Steps

variable {e : RegisteredEvent} {waiter : Status Unit Point} {pending : List Unit}
  {log : List Entry}

theorem Kept.releasedBySets (h : Kept e waiter pending log) : ReleasedBySets log where
  between _ _ _ hlog := mem_between (by simp) h.released hlog
  count := Nat.le_trans (Nat.le_add_right _ _) (count_closes_le (by simp) h.released)
  prompt before after blocks hlog harmed := by
    cases blocks with
    | false => rfl
    | true =>
      have hunarmed := h.prompt before (.waits true) after hlog rfl
      simp only [harmed] at hunarmed
      cases hunarmed

theorem Kept.set (h : Kept e waiter pending log) :
    Kept { e with flag := true } waiter (() :: pending) (log ++ [.set]) where
  auto := h.auto
  waiter := by
    rcases h.waiter with hfree | ⟨hblocked, -⟩ | ⟨hready, -⟩
    · exact .inl hfree
    · exact .inr (.inl ⟨hblocked, fun _ => by simp⟩)
    · exact .inr (.inr ⟨hready, by simp⟩)
  flag := by simp
  released := h.released.append_singleton (by simp)
  prompt := h.prompt.append_singleton (by simp)

theorem Kept.unset (h : Kept e waiter pending log) :
    Kept e.unset waiter pending (log ++ [.unset]) where
  auto := h.auto
  waiter := by simpa using h.waiter
  flag := by simp [RegisteredEvent.unset]
  released := h.released.append_singleton (by simp)
  prompt := h.prompt.append_singleton (by simp)

/-- The end of `wait` takes the set that it was released by. -/
theorem Kept.release (h : Kept e waiter pending log) (hfresh : fresh log = true) :
    Kept e.release.store e.release.status pending (log ++ [.returned]) where
  auto := by simp [RegisteredEvent.release, RegisteredEvent.unset, h.auto]
  waiter := .inl rfl
  flag := by simp [RegisteredEvent.release, RegisteredEvent.unset, h.auto]
  released := h.released.append_singleton fun _ => hfresh
  prompt := h.prompt.append_singleton (by simp)

theorem Kept.waits (h : Kept e waiter pending log) :
    Kept e waiter pending (log ++ [.waits false]) where
  auto := h.auto
  waiter := by
    rw [fresh_waits]
    exact h.waiter
  flag := by
    rw [armed_waits]
    exact h.flag
  released := h.released.append_singleton (by simp)
  prompt := h.prompt.append_singleton (by simp)

theorem Kept.block (h : Kept e waiter pending log) (hflag : e.flag = false)
    (hstale : pending ≠ [] → fresh log = true) :
    Kept e (.blocked [()] none .inWait) pending (log ++ [.waits true]) where
  auto := h.auto
  waiter := .inr (.inl ⟨rfl, by
    rw [fresh_waits]
    exact hstale⟩)
  flag := by
    rw [armed_waits]
    exact h.flag
  released := h.released.append_singleton (by simp)
  prompt := h.prompt.append_singleton fun _ => h.flag.symm.trans hflag

theorem Kept.delta (h : Kept e waiter pending log) {fired : Unit → Bool} {now : ℕ}
    (hfired : fired () = true ↔ pending ≠ []) : Kept e (waiter.wake fired now) [] log where
  auto := h.auto
  waiter := by
    rcases h.waiter with rfl | ⟨rfl, hfresh⟩ | ⟨rfl, hfresh⟩
    · exact .inl rfl
    · by_cases hpending : pending = []
      · have hsilent : fired () = false := by
          rw [← Bool.not_eq_true, hfired]
          exact fun hne => hne hpending
        exact .inr (.inl ⟨Status.wake_waiting hsilent, fun hne => absurd rfl hne⟩)
      · have hwoken : (Status.blocked [()] none Point.inWait).wake fired now = .ready .inWait :=
          Status.wake_blocked_of_fired () (List.mem_singleton.mpr rfl) (hfired.mpr hpending)
        exact .inr (.inr ⟨hwoken, hfresh hpending⟩)
    · exact .inr (.inr ⟨rfl, hfresh⟩)
  flag := h.flag
  released := h.released
  prompt := h.prompt

theorem Kept.advance (h : Kept e waiter [] log) (t : ℕ) :
    Kept e (waiter.wake (fun _ => false) t) [] log :=
  h.delta (by simp)

end Steps

/-- The invariant of a state with the log of the run to it. -/
structure Coherent (c : State) (log : List Entry) : Prop where
  setter : c.status .setter = .free .outside
  kept : Kept c.store (c.status .waiter) c.pending log

theorem fired_iff (c : State) : system.fired c () = true ↔ c.pending ≠ [] := by
  cases hpending : c.pending with
  | nil => simp [System.fired, system, hpending]
  | cons first rest =>
    obtain ⟨⟩ := first
    simp [System.fired, system, hpending]

section Evaluations

variable {c : State} {log : List Entry} {seg : Stretch}

/-- The state after a thread has run to its next wait. -/
def after (c : State) (p : Thread) (seg : Stretch) : State :=
  ⟨seg.store, Function.update c.status p seg.status, seg.notified ++ c.pending, c.now⟩

@[simp] theorem after_status_self (p : Thread) : (after c p seg).status p = seg.status := by
  simp [after]

@[simp] theorem after_status_other {p q : Thread} (hne : q ≠ p) :
    (after c p seg).status q = c.status q := by
  simp [after, hne]

theorem coherent_setter (hstatus : seg.status = .free .outside)
    (h : Kept seg.store (c.status .waiter) (seg.notified ++ c.pending) log) :
    Coherent (after c .setter seg) log where
  setter := by rw [after_status_self, hstatus]
  kept := by
    rw [after_status_other (by simp)]
    exact h

theorem coherent_waiter (hsetter : c.status .setter = .free .outside)
    (h : Kept seg.store seg.status (seg.notified ++ c.pending) log) :
    Coherent (after c .waiter seg) log where
  setter := by rw [after_status_other (by simp), hsetter]
  kept := by
    rw [after_status_self]
    exact h

theorem coherent_setter_eval {call : Call} {point : Point} (h : Coherent c log)
    (resumable : (c.status .setter).resumable = some point)
    (executed : exec .setter point call c.now c.store = some seg) :
    Coherent (after c .setter seg) (log ++ entries c (.eval .setter call)) := by
  obtain rfl : Point.outside = point := by
    rw [h.setter] at resumable
    exact Option.some.inj resumable
  cases call with
  | set =>
    obtain rfl := Option.some.inj executed
    exact coherent_setter rfl h.kept.set
  | unset =>
    obtain rfl := Option.some.inj executed
    exact coherent_setter rfl h.kept.unset
  | wait => cases executed

theorem coherent_waiter_eval {call : Call} {point : Point} (h : Coherent c log)
    (allowed : NothingStale (c, log) (.eval .waiter call))
    (resumable : (c.status .waiter).resumable = some point)
    (executed : exec .waiter point call c.now c.store = some seg) :
    Coherent (after c .waiter seg) (log ++ entries c (.eval .waiter call)) := by
  have hkept := h.kept
  rcases hkept.waiter with hfree | ⟨hblocked, -⟩ | ⟨hready, hfresh⟩
  · obtain rfl : Point.outside = point := by
      rw [hfree] at resumable
      exact Option.some.inj resumable
    cases call with
    | set => cases executed
    | unset =>
      obtain rfl := Option.some.inj executed
      rw [hfree] at hkept
      exact coherent_waiter h.setter hkept.unset
    | wait =>
      obtain rfl := Option.some.inj executed
      have hpoint : (c.status .waiter).point = .outside := Status.resumable_point resumable
      rw [entries, if_pos hpoint, RegisteredEvent.wait]
      cases hflag : c.store.flag with
      | true =>
        -- the set that is consumed here is later than the last return
        have hfresh := fresh_of_armed (hkept.flag.symm.trans hflag)
        have hreturned := hkept.waits.release (by rwa [fresh_waits])
        rw [List.append_assoc] at hreturned
        exact coherent_waiter h.setter hreturned
      | false => exact coherent_waiter h.setter (hkept.block hflag (allowed hfree))
  · rw [hblocked] at resumable
    cases resumable
  · obtain rfl : Point.inWait = point := by
      rw [hready] at resumable
      exact Option.some.inj resumable
    cases call with
    | set => cases executed
    | unset => cases executed
    | wait =>
      obtain rfl := Option.some.inj executed
      have hpoint : (c.status .waiter).point ≠ .outside := by simp [hready, Status.point]
      rw [entries, if_neg hpoint]
      exact coherent_waiter h.setter (hkept.release hfresh)

end Evaluations

theorem coherent_step (x : State × List Entry) (l : Label Thread Call) (y : State × List Entry)
    (h : Coherent x.1 x.2) (allowed : NothingStale x l) (taken : loggedStep x l = some y) :
    Coherent y.1 y.2 := by
  obtain ⟨c, log⟩ := x
  obtain ⟨stepped, noted⟩ := recording_eq_some.mp taken
  rw [noted, note]
  cases l with
  | delta =>
    obtain ⟨-, hnext⟩ := System.step_delta_eq_some.mp stepped
    have hsilent : entries c .delta = [] := rfl
    rw [hnext, hsilent, List.append_nil]
    exact ⟨congrArg (Status.wake (system.fired c) c.now) h.setter, h.kept.delta (fired_iff c)⟩
  | advance t =>
    obtain ⟨⟨stable, -, -⟩, hnext⟩ := System.step_advance_eq_some.mp stepped
    have hpending : c.pending = [] := (System.stable_iff.mp stable).2.1
    have hkept : Kept c.store (c.status .waiter) [] log := hpending ▸ h.kept
    have hsilent : entries c (.advance t) = [] := rfl
    rw [hnext, hsilent, List.append_nil, hpending]
    exact ⟨congrArg (Status.wake (fun _ => false) t) h.setter, hkept.advance t⟩
  | eval p call =>
    obtain ⟨point, seg, resumable, executed, hnext⟩ := System.step_eval_eq_some.mp stepped
    rw [hnext]
    cases p with
    | setter => exact coherent_setter_eval h resumable executed
    | waiter => exact coherent_waiter_eval h allowed resumable executed

theorem released_of_run (labels : List (Label Thread Call)) {y : State × List Entry}
    (along : Along loggedStep NothingStale (registeredEvent true, []) labels)
    (reach : run loggedStep (registeredEvent true, []) labels = some y) : ReleasedBySets y.2 :=
  (run_invariant coherent_step ⟨rfl, kept_start⟩ along reach).kept.releasedBySets

/-- A wait that blocks until a set, and one that takes the set before it. -/
theorem two_sets_two_returns : ReleasedBySets
    [.waits true, .set, .returned, .set, .waits false, .returned] := by
  have reach : run loggedStep (registeredEvent true, [])
      [.eval .waiter .wait, .eval .setter .set, .delta, .eval .waiter .wait, .eval .setter .set,
        .eval .waiter .wait] = some (_, [.waits true, .set, .returned, .set, .waits false,
        .returned]) := rfl
  exact released_of_run _ (by decide) reach

/-- A second wait in the instant of the set is woken by the notification on its way. -/
theorem one_set_two_returns :
    ¬ ∀ (labels : List (Label Thread Call)) (y : State × List Entry),
      run loggedStep (registeredEvent true, []) labels = some y → ReleasedBySets y.2 := by
  intro hall
  have reach : run loggedStep (registeredEvent true, [])
      [.eval .setter .set, .eval .waiter .wait, .eval .waiter .wait, .delta,
        .eval .waiter .wait] = some (_, [.set, .waits false, .returned, .waits true,
        .returned]) := rfl
  have hcount := (hall _ _ reach).count
  simp at hcount

end Kista.SynchComm.EventMemory
