/- Kista/SynchComm/BlockedCalls
   source: src/src/synch_comm/fifo_buffer.hpp, src/src/network_interface.cpp
   digest: The calls of a buffer channel that cannot go on: in no run do a reader and a writer of
   one channel wait for each other. -/

import Kista.Kernel.Census
import Kista.SynchComm.ReadPermits

set_option autoImplicit false
set_option relaxedAutoImplicit false

namespace Kista.SynchComm.BlockedCalls

open Kernel.Census Kernel.Run Buffer ReadPermits

variable {τ ι ρ : Type}

def isStoring : Writer τ → Bool
  | .storing _ => true
  | _ => false

def isReading : Reader → Bool
  | .reading => true
  | _ => false

theorem isStoring_eq_true {w : Writer τ} : isStoring w = true ↔ ∃ val, w = .storing val := by
  cases w <;> simp [isStoring]

theorem isReading_eq_true {r : Reader} : isReading r = true ↔ r = .reading := by
  cases r <;> simp [isReading]

/-- A write over a link that is resolved does not begin with the buffer. -/
theorem isStoring_writeVia {val : τ} {plink : Option Route} (mapped : plink.isSome = true) :
    isStoring (writeVia val plink) = false := by
  cases plink with
  | none => cases mapped
  | some route => cases route <;> rfl

/-- The step of a call that is under way. -/
def Inner : FifoLabel τ ι ρ → Prop
  | .transferred _ => True
  | .accepted _ => True
  | .stored _ => True
  | .served => True
  | .permitted _ => True
  | .taken _ => True
  | _ => False

/-- The permits, those in use and those on their way, against the tokens, those in the buffer and
those about to enter it. -/
structure Supplied [Fintype ι] [Fintype ρ] (size : ℕ) (b : FifoBuffer τ ι ρ) (lost : ℕ) :
    Prop where
  balance : b.completedTransactions + census isReading b.reader + b.requests + lost =
    b.tokens.length + census isStoring b.writer
  fits : b.tokens.length ≤ b.size
  sized : b.size = size
  mapped : b.running = true → resolved b = true
  writers : b.running = false → ∀ i, b.writer i = .outside
  readers : b.running = false → ∀ j, b.reader j = .outside

section

variable [Fintype ι] [Fintype ρ]

theorem supplied_start (size : ℕ) : Supplied size (fifoBuffer size : FifoBuffer τ ι ρ) 0 := by
  have nobodyStores : census isStoring (fifoBuffer size : FifoBuffer τ ι ρ).writer = 0 :=
    census_eq_zero.mpr fun _ => rfl
  have nobodyReads : census isReading (fifoBuffer size : FifoBuffer τ ι ρ).reader = 0 :=
    census_eq_zero.mpr fun _ => rfl
  refine ⟨?_, Nat.zero_le _, rfl, nofun, fun _ _ => rfl, fun _ _ => rfl⟩
  rw [nobodyStores, nobodyReads]
  rfl

theorem Supplied.running_of_writer {b : FifoBuffer τ ι ρ} {size lost : ℕ}
    (s : Supplied size b lost) {i : ι} (inside : b.writer i ≠ .outside) : b.running = true := by
  by_contra stopped
  exact inside (s.writers (Bool.eq_false_iff.mpr stopped) i)

theorem Supplied.running_of_reader {b : FifoBuffer τ ι ρ} {size lost : ℕ}
    (s : Supplied size b lost) {j : ρ} (inside : b.reader j ≠ .outside) : b.running = true := by
  by_contra stopped
  exact inside (s.readers (Bool.eq_false_iff.mpr stopped) j)

theorem Supplied.initialWrite {b b' : FifoBuffer τ ι ρ} {size lost : ℕ} {val : τ}
    (s : Supplied size b lost) (elaborating : b.running = false)
    (written : Buffer.initialWrite b val = some b') :
    Supplied size b' (lost + if resolved b = true then 0 else 1) := by
  obtain ⟨pushed, push, rfl⟩ := Option.map_eq_some_iff.mp written
  obtain ⟨room, rfl⟩ := push_eq_some.mp push
  have balance := s.balance
  have sizes : (b.tokens ++ [val]).length = b.tokens.length + 1 := by simp
  have full : (b.tokens ++ [val]).length ≤ b.size := by omega
  have running : b.running = true → resolved b = true := by simp [elaborating]
  show Supplied size (if resolved b = true then post _ else _) _
  split
  · refine ⟨?_, full, s.sized, running, s.writers, s.readers⟩
    show b.completedTransactions + 1 + census isReading b.reader + b.requests + (lost + 0) =
      (b.tokens ++ [val]).length + census isStoring b.writer
    omega
  · refine ⟨?_, full, s.sized, running, s.writers, s.readers⟩
    show b.completedTransactions + census isReading b.reader + b.requests + (lost + 1) =
      (b.tokens ++ [val]).length + census isStoring b.writer
    omega

end

/-- During the simulation the balance and the capacity are all there is to keep. -/
theorem supplied_of_running [Fintype ι] [Fintype ρ] {b : FifoBuffer τ ι ρ} {size lost : ℕ}
    (running : b.running = true) (mapped : resolved b = true) (fits : b.tokens.length ≤ b.size)
    (sized : b.size = size)
    (balance : b.completedTransactions + census isReading b.reader + b.requests + lost =
      b.tokens.length + census isStoring b.writer) : Supplied size b lost := by
  have stopped : b.running ≠ false := by simp [running]
  exact ⟨balance, fits, sized, fun _ => mapped, (absurd · stopped), (absurd · stopped)⟩

variable [Fintype ι] [Fintype ρ] [DecidableEq ι] [DecidableEq ρ]

/-- Every step keeps the balance but an early initial write, which forgets one permit. -/
theorem Supplied.step {b b' : FifoBuffer τ ι ρ} {size lost : ℕ} {l : FifoLabel τ ι ρ}
    (s : Supplied size b lost) (taken : Buffer.step b l = some b') :
    Supplied size b' (lost + forgotten b l) := by
  have balance := s.balance
  cases l with
  | autoMap route =>
    simp only [Buffer.step] at taken
    split at taken
    · cases taken
    · cases taken
      exact ⟨balance, s.fits, s.sized, fun _ => rfl, s.writers, s.readers⟩
  | initialWrite val =>
    simp only [Buffer.step] at taken
    split at taken
    · cases taken
    · rename_i stopped
      exact s.initialWrite (Bool.eq_false_iff.mpr stopped) taken
  | startSimulation =>
    simp only [Buffer.step] at taken
    split at taken
    · rename_i allowed
      cases taken
      exact ⟨balance, s.fits, s.sized, fun _ => allowed.2,
        fun stopped => Bool.noConfusion stopped,
        fun stopped => Bool.noConfusion stopped⟩
    · cases taken
  | write i val =>
    simp only [Buffer.step] at taken
    split at taken
    · rename_i running outside
      cases taken
      have mapped := s.mapped running
      have moved := census_move isStoring outside (writeVia val b.assocPlink)
      rw [isStoring_writeVia mapped] at moved
      refine supplied_of_running running mapped s.fits s.sized ?_
      show _ = b.tokens.length + census isStoring (Function.update b.writer i _)
      have same : census isStoring (Function.update b.writer i (writeVia val b.assocPlink)) =
        census isStoring b.writer := moved
      rw [same]
      exact balance
    · cases taken
  | transferred i =>
    simp only [Buffer.step] at taken
    split at taken
    · rename_i val inside
      cases taken
      have running := s.running_of_writer (i := i) (by simp [inside])
      have moved := census_move isStoring inside (.storing val)
      refine supplied_of_running running (s.mapped running) s.fits s.sized ?_
      show b.completedTransactions + 1 + census isReading b.reader + b.requests + lost =
        b.tokens.length + census isStoring (Function.update b.writer i (.storing val))
      simp only [isStoring, Bool.toNat_false, Bool.toNat_true] at moved
      omega
    · cases taken
  | accepted i =>
    simp only [Buffer.step] at taken
    split at taken
    · rename_i val inside
      cases taken
      have running := s.running_of_writer (i := i) (by simp [inside])
      have moved := census_move isStoring inside (.storing val)
      refine supplied_of_running running (s.mapped running) s.fits s.sized ?_
      show b.completedTransactions + census isReading b.reader + (b.requests + 1) + lost =
        b.tokens.length + census isStoring (Function.update b.writer i (.storing val))
      simp only [isStoring, Bool.toNat_false, Bool.toNat_true] at moved
      omega
    · cases taken
  | stored i =>
    simp only [Buffer.step] at taken
    split at taken
    · rename_i val inside
      obtain ⟨pushed, push, rfl⟩ := Option.map_eq_some_iff.mp taken
      obtain ⟨room, rfl⟩ := push_eq_some.mp push
      have running := s.running_of_writer (i := i) (by simp [inside])
      have moved := census_move isStoring inside .outside
      have sizes : (b.tokens ++ [val]).length = b.tokens.length + 1 := by simp
      refine supplied_of_running running (s.mapped running) ?_ s.sized ?_
      · show (b.tokens ++ [val]).length ≤ b.size
        omega
      · show b.completedTransactions + census isReading b.reader + b.requests + lost =
          (b.tokens ++ [val]).length + census isStoring (Function.update b.writer i .outside)
        simp only [isStoring, Bool.toNat_false, Bool.toNat_true] at moved
        omega
    · cases taken
  | served =>
    simp only [Buffer.step] at taken
    split at taken
    · rename_i pending
      cases taken
      refine ⟨?_, s.fits, s.sized, s.mapped, s.writers, s.readers⟩
      show b.completedTransactions + 1 + census isReading b.reader + (b.requests - 1) + lost = _
      show _ = b.tokens.length + census isStoring b.writer
      omega
    · cases taken
  | read j =>
    simp only [Buffer.step] at taken
    split at taken
    · rename_i allowed
      cases taken
      have mapped := s.mapped allowed.1
      have moved := census_move isReading allowed.2 .waiting
      rw [if_pos mapped]
      refine supplied_of_running allowed.1 mapped s.fits s.sized ?_
      show b.completedTransactions + census isReading (Function.update b.reader j .waiting) +
        b.requests + lost = b.tokens.length + census isStoring b.writer
      have same : census isReading (Function.update b.reader j .waiting) =
        census isReading b.reader := moved
      rw [same]
      exact balance
    · cases taken
  | permitted j =>
    simp only [Buffer.step] at taken
    split at taken
    · rename_i inside
      obtain ⟨waited, wait, rfl⟩ := Option.map_eq_some_iff.mp taken
      obtain ⟨positive, rfl⟩ := wait_eq_some.mp wait
      have running := s.running_of_reader (j := j) (by simp [inside])
      have moved := census_move isReading inside .reading
      refine supplied_of_running running (s.mapped running) s.fits s.sized ?_
      show b.completedTransactions - 1 + census isReading (Function.update b.reader j .reading) +
        b.requests + lost = b.tokens.length + census isStoring b.writer
      simp only [isReading, Bool.toNat_false, Bool.toNat_true] at moved
      omega
    · cases taken
  | taken j =>
    simp only [Buffer.step] at taken
    split at taken
    · rename_i inside
      obtain ⟨popped, pop, rfl⟩ := Option.map_eq_some_iff.mp taken
      obtain ⟨val, rest, tokens, rfl⟩ := pop_eq_some.mp pop
      have running := s.running_of_reader (j := j) (by simp [inside])
      have moved := census_move isReading inside .outside
      have fits := s.fits
      have sizes : b.tokens.length = rest.length + 1 := by simp [tokens]
      refine supplied_of_running running (s.mapped running) ?_ s.sized ?_
      · show rest.length ≤ b.size
        omega
      · show b.completedTransactions + census isReading (Function.update b.reader j .outside) +
          b.requests + lost = rest.length + census isStoring b.writer
        simp only [isReading, Bool.toNat_false, Bool.toNat_true] at moved
        omega
    · cases taken

omit [Fintype ι] [Fintype ρ] in
/-- A step that leaves the readers alone reads nothing and uses no permit. -/
theorem reads_kept {b b' : FifoBuffer τ ι ρ} {h : Log τ} {l : FifoLabel τ ι ρ}
    (taken : Buffer.step b l = some b') (read : ∀ j, l ≠ .read j)
    (permitted : ∀ j, l ≠ .permitted j) (popped : ∀ j, l ≠ .taken j) :
    b'.reader = b.reader ∧ (note b l b' h).consumed = h.consumed ∧
      (note b l b' h).read = h.read := by
  cases l with
  | autoMap route =>
    simp only [Buffer.step] at taken
    split at taken <;> cases taken
    exact ⟨rfl, rfl, rfl⟩
  | initialWrite val =>
    simp only [Buffer.step] at taken
    split at taken
    · cases taken
    · obtain ⟨pushed, push, rfl⟩ := Option.map_eq_some_iff.mp taken
      obtain ⟨-, rfl⟩ := push_eq_some.mp push
      refine ⟨?_, rfl, rfl⟩
      show (if resolved b = true then post _ else _).reader = b.reader
      split <;> rfl
  | startSimulation =>
    simp only [Buffer.step] at taken
    split at taken <;> cases taken
    exact ⟨rfl, rfl, rfl⟩
  | write i val =>
    simp only [Buffer.step] at taken
    split at taken <;> cases taken
    exact ⟨rfl, rfl, rfl⟩
  | transferred i =>
    simp only [Buffer.step] at taken
    split at taken <;> cases taken
    exact ⟨rfl, rfl, rfl⟩
  | accepted i =>
    simp only [Buffer.step] at taken
    split at taken <;> cases taken
    exact ⟨rfl, rfl, rfl⟩
  | stored i =>
    simp only [Buffer.step] at taken
    split at taken
    · rename_i val inside
      obtain ⟨pushed, push, rfl⟩ := Option.map_eq_some_iff.mp taken
      obtain ⟨-, rfl⟩ := push_eq_some.mp push
      have noted : note b (.stored i) (setWriter { b with tokens := b.tokens ++ [val] } i .outside)
          h = { h with written := h.written ++ [val] } := by
        simp only [note, inside]
      rw [noted]
      exact ⟨rfl, rfl, rfl⟩
    · cases taken
  | served =>
    simp only [Buffer.step] at taken
    split at taken <;> cases taken
    exact ⟨rfl, rfl, rfl⟩
  | read j => exact absurd rfl (read j)
  | permitted j => exact absurd rfl (permitted j)
  | taken j => exact absurd rfl (popped j)

/-- The permits used up are those of the tokens read and of the readers behind their permits. -/
theorem Supplied.consumed {size lost : ℕ} {b b' : FifoBuffer τ ι ρ} {h : Log τ}
    {l : FifoLabel τ ι ρ} (s : Supplied size b lost) (taken : Buffer.step b l = some b')
    (used : h.consumed = h.read.length + census isReading b.reader) :
    (note b l b' h).consumed = (note b l b' h).read.length + census isReading b'.reader := by
  by_cases read : ∃ j, l = .read j
  · obtain ⟨j, rfl⟩ := read
    simp only [Buffer.step] at taken
    split at taken
    · rename_i allowed
      cases taken
      have moved := census_move isReading allowed.2 .waiting
      rw [if_pos (s.mapped allowed.1)]
      show h.consumed = h.read.length + census isReading (Function.update b.reader j .waiting)
      simp only [isReading, Bool.toNat_false] at moved
      omega
    · cases taken
  by_cases permitted : ∃ j, l = .permitted j
  · obtain ⟨j, rfl⟩ := permitted
    simp only [Buffer.step] at taken
    split at taken
    · rename_i inside
      obtain ⟨waited, wait, rfl⟩ := Option.map_eq_some_iff.mp taken
      obtain ⟨-, rfl⟩ := wait_eq_some.mp wait
      have moved := census_move isReading inside .reading
      show h.consumed + 1 =
        h.read.length + census isReading (Function.update b.reader j .reading)
      simp only [isReading, Bool.toNat_false, Bool.toNat_true] at moved
      omega
    · cases taken
  by_cases popped : ∃ j, l = .taken j
  · obtain ⟨j, rfl⟩ := popped
    simp only [Buffer.step] at taken
    split at taken
    · rename_i inside
      obtain ⟨popped, pop, rfl⟩ := Option.map_eq_some_iff.mp taken
      obtain ⟨val, rest, tokens, rfl⟩ := pop_eq_some.mp pop
      have moved := census_move isReading inside .outside
      have sizes : (h.read ++ b.tokens.head?.toList).length = h.read.length + 1 := by
        simp [tokens]
      show h.consumed = (h.read ++ b.tokens.head?.toList).length +
        census isReading (Function.update b.reader j .outside)
      simp only [isReading, Bool.toNat_false, Bool.toNat_true] at moved
      omega
    · cases taken
  obtain ⟨readers, consumed, reads⟩ := reads_kept (h := h) taken (fun j same => read ⟨j, same⟩)
    (fun j same => permitted ⟨j, same⟩) fun j same => popped ⟨j, same⟩
  rw [readers, consumed, reads]
  exact used

/-- What a channel is in when none of the calls under way can go on: the readers wait for tokens
that nobody has written, or the writers for room, and never both. -/
structure Settled (b : FifoBuffer τ ι ρ) (h : Log τ) : Prop where
  permits : b.completedTransactions = b.tokens.length + census isStoring b.writer
  writers : ∀ i, b.writer i = .outside ∨ ∃ val, b.writer i = .storing val
  readers : ∀ j, b.reader j ≠ .reading
  starved : (∃ j, b.reader j = .waiting) → h.read = h.written ∧ ∀ i, b.writer i = .outside
  full : (∃ i, b.writer i ≠ .outside) → b.tokens.length = b.size ∧ ∀ j, b.reader j = .outside

theorem Supplied.settled {size : ℕ} {b : FifoBuffer τ ι ρ} {h : Log τ} (s : Supplied size b 0)
    (order : h.read ++ b.tokens = h.written) (positive : 0 < size)
    (quiet : ∀ l, Inner l → Buffer.step b l = none) : Settled b h := by
  have balance := s.balance
  have fits := s.fits
  have sized := s.sized
  have writers : ∀ i, b.writer i = .outside ∨ ∃ val, b.writer i = .storing val := by
    intro i
    cases inside : b.writer i with
    | outside => exact .inl rfl
    | transferring val =>
      have moves := quiet (.transferred i) trivial
      simp only [Buffer.step, inside, reduceCtorEq] at moves
    | requesting val =>
      have moves := quiet (.accepted i) trivial
      simp only [Buffer.step, inside, reduceCtorEq] at moves
    | storing val => exact .inr ⟨val, rfl⟩
  -- a writer that stays before the buffer finds it full
  have full : ∀ i val, b.writer i = .storing val → b.tokens.length = b.size := by
    intro i val inside
    have stays := quiet (.stored i) trivial
    simp only [Buffer.step, inside, Option.map_eq_none_iff] at stays
    by_contra room
    have pushed : push b val = some { b with tokens := b.tokens ++ [val] } :=
      push_eq_some.mpr ⟨by omega, rfl⟩
    rw [pushed] at stays
    cases stays
  -- and a reader that stays behind its permit finds it empty
  have empty : ∀ j, b.reader j = .reading → b.tokens = [] := by
    intro j inside
    have stays := quiet (.taken j) trivial
    simp only [Buffer.step, inside, if_true, Option.map_eq_none_iff] at stays
    cases tokens : b.tokens with
    | nil => rfl
    | cons val rest =>
      have popped : pop b = some { b with tokens := rest } :=
        pop_eq_some.mpr ⟨val, rest, tokens, rfl⟩
      rw [popped] at stays
      cases stays
  have served : b.requests = 0 := by
    by_contra pending
    have moves := quiet .served trivial
    simp only [Buffer.step, if_pos (Nat.pos_of_ne_zero pending), reduceCtorEq] at moves
  have readers : ∀ j, b.reader j ≠ .reading := by
    intro j inside
    have tokens := congrArg List.length (empty j inside)
    have reading : 0 < census isReading b.reader :=
      census_pos.mpr ⟨j, isReading_eq_true.mpr inside⟩
    have storing : 0 < census isStoring b.writer := by
      rw [List.length_nil] at tokens
      omega
    obtain ⟨i, before⟩ := census_pos.mp storing
    obtain ⟨val, inside'⟩ := isStoring_eq_true.mp before
    have := full i val inside'
    rw [List.length_nil] at tokens
    omega
  have nobodyReads : census isReading b.reader = 0 := by
    refine census_eq_zero.mpr fun j => Bool.eq_false_iff.mpr fun reads => ?_
    exact readers j (isReading_eq_true.mp reads)
  have permits : b.completedTransactions = b.tokens.length + census isStoring b.writer := by
    omega
  have unpermitted : ∀ j, b.reader j = .waiting → b.completedTransactions = 0 := by
    intro j inside
    have stays := quiet (.permitted j) trivial
    simp only [Buffer.step, inside, if_true, Option.map_eq_none_iff] at stays
    by_contra positive
    have waited : wait b = some { b with
        completedTransactions := b.completedTransactions - 1 } :=
      wait_eq_some.mpr ⟨Nat.pos_of_ne_zero positive, rfl⟩
    rw [waited] at stays
    cases stays
  refine ⟨permits, writers, readers, ?_, ?_⟩
  · rintro ⟨j, inside⟩
    have none' := unpermitted j inside
    have tokens : b.tokens = [] := List.length_eq_zero_iff.mp (by omega)
    have nobodyStores := census_eq_zero.mp (show census isStoring b.writer = 0 by omega)
    refine ⟨?_, ?_⟩
    · rw [← order, tokens, List.append_nil]
    · intro i
      rcases writers i with outside | ⟨val, before⟩
      · exact outside
      · have := nobodyStores i
        rw [before] at this
        cases this
  · rintro ⟨i, inside⟩
    obtain ⟨val, before⟩ := (writers i).resolve_left inside
    have filled := full i val before
    refine ⟨filled, ?_⟩
    intro j
    cases at' : b.reader j with
    | outside => rfl
    | reading => exact absurd at' (readers j)
    | waiting =>
      have := unpermitted j at'
      omega

/-- In every run the permits match the tokens and those on their way. -/
theorem supplied_of_run {size : ℕ} {labels : List (FifoLabel τ ι ρ)} {b : FifoBuffer τ ι ρ}
    (mapped : Along Buffer.step Mapped (fifoBuffer size) labels)
    (reach : run Buffer.step (fifoBuffer size) labels = some b) : Supplied size b 0 := by
  have keep : ∀ (b : FifoBuffer τ ι ρ) (l : FifoLabel τ ι ρ) (b' : FifoBuffer τ ι ρ),
      Supplied size b 0 → Mapped b l → Buffer.step b l = some b' → Supplied size b' 0 := by
    intro b l b' s kept taken
    have next := s.step taken
    rwa [forgotten_eq_zero.mpr kept] at next
  exact run_invariant keep (supplied_start size) mapped reach

omit [Fintype ι] [Fintype ρ] in
theorem permits_of_run {size : ℕ} {labels : List (FifoLabel τ ι ρ)} {b : FifoBuffer τ ι ρ}
    (mapped : Along Buffer.step Mapped (fifoBuffer size) labels)
    (reach : run Buffer.step (fifoBuffer size) labels = some b) :
    ∃ h, run (recording Buffer.step note) (fifoBuffer size, noLog) labels = some (b, h) ∧
      Permits b h 0 := by
  obtain ⟨h, recorded⟩ := exists_history noLog reach
  have keep : ∀ (x : FifoBuffer τ ι ρ × Log τ) (l : FifoLabel τ ι ρ) (y : FifoBuffer τ ι ρ × Log τ),
      Permits x.1 x.2 0 → Mapped x.1 l → recording Buffer.step note x l = some y →
      Permits y.1 y.2 0 := by
    intro x l y p kept taken
    obtain ⟨stepped, noted⟩ := recording_eq_some.mp taken
    have next := p.step stepped
    rw [forgotten_eq_zero.mpr kept, ← noted] at next
    exact next
  exact ⟨h, recorded, run_invariant keep (permits_start size) (along_recording.mpr mapped) recorded⟩

/-- In every run over an interface that takes each request at once, every permit, whether free, in
use or on its way, has its own token, and once the calls under way cannot go on, no reader waits
while a writer does. -/
theorem calls_never_wait_for_each_other {size : ℕ} (positive : 0 < size)
    {labels : List (FifoLabel τ ι ρ)} {b : FifoBuffer τ ι ρ}
    (mapped : Along Buffer.step Mapped (fifoBuffer size) labels)
    (reach : run Buffer.step (fifoBuffer size) labels = some b) :
    ∃ h, run (recording Buffer.step note) (fifoBuffer size, noLog) labels = some (b, h) ∧
      b.completedTransactions + census isReading b.reader + b.requests =
        b.tokens.length + census isStoring b.writer ∧
      ((∀ l, Inner l → Buffer.step b l = none) → Settled b h) := by
  have supplied := supplied_of_run mapped reach
  obtain ⟨h, recorded, permits⟩ := permits_of_run mapped reach
  exact ⟨h, recorded, supplied.balance, supplied.settled permits.order positive⟩

/-- One place, taken by an initial token, and a writer behind it. -/
def fullBuffer : List (FifoLabel ℕ Unit Unit) :=
  [.autoMap .netif, .initialWrite 7, .startSimulation, .write () 8, .accepted (), .served]

theorem fullBuffer_settles :
    ∃ b h, run (recording Buffer.step note) (fifoBuffer 1, noLog) fullBuffer = some (b, h) ∧
      b.writer () = .storing 8 ∧ Settled b h := by
  have along : Along Buffer.step Mapped (fifoBuffer 1) fullBuffer := by decide +kernel
  obtain ⟨h, recorded, -, settles⟩ :=
    calls_never_wait_for_each_other Nat.one_pos along rfl
  refine ⟨_, h, recorded, rfl, settles ?_⟩
  intro l inner
  cases l <;> first | rfl | cases inner

end Kista.SynchComm.BlockedCalls
