/- Kista/SynchComm/ReadPermits
   source: src/src/synch_comm/fifo_buffer.hpp, src/src/network_interface.cpp
   digest: The runs of a buffer channel in which every initial token and every transfer has its
   read permit, and the order of the tokens. -/

import Kista.Kernel.Run
import Kista.SynchComm.Buffer

set_option autoImplicit false
set_option relaxedAutoImplicit false

namespace Kista.SynchComm.ReadPermits

open Kernel.Run Buffer

variable {τ ι ρ : Type}

/-- An initial token is written when the physical link of the channel is resolved. -/
def Mapped (b : FifoBuffer τ ι ρ) : FifoLabel τ ι ρ → Prop
  | .initialWrite _ => resolved b = true
  | _ => True

/-- The permits that a step forgets. -/
def forgotten (b : FifoBuffer τ ι ρ) : FifoLabel τ ι ρ → ℕ
  | .initialWrite _ => if resolved b = true then 0 else 1
  | _ => 0

instance (b : FifoBuffer τ ι ρ) : (l : FifoLabel τ ι ρ) → Decidable (Mapped b l)
  | .initialWrite _ => inferInstanceAs (Decidable (_ = true))
  | .autoMap _ => inferInstanceAs (Decidable True)
  | .startSimulation => inferInstanceAs (Decidable True)
  | .write _ _ => inferInstanceAs (Decidable True)
  | .transferred _ => inferInstanceAs (Decidable True)
  | .accepted _ => inferInstanceAs (Decidable True)
  | .stored _ => inferInstanceAs (Decidable True)
  | .served => inferInstanceAs (Decidable True)
  | .read _ => inferInstanceAs (Decidable True)
  | .permitted _ => inferInstanceAs (Decidable True)
  | .taken _ => inferInstanceAs (Decidable True)

theorem forgotten_eq_zero {b : FifoBuffer τ ι ρ} {l : FifoLabel τ ι ρ} :
    forgotten b l = 0 ↔ Mapped b l := by
  cases l <;> simp [forgotten, Mapped]

/-- Nothing has happened but initial writes. -/
structure Untouched (b : FifoBuffer τ ι ρ) (h : Log τ) : Prop where
  written : h.written = h.initial
  read : h.read = []
  consumed : h.consumed = 0
  transfers : h.transfers = 0
  requests : b.requests = 0
  writers : ∀ i, b.writer i = .outside
  readers : ∀ j, b.reader j = .outside

/-- The permits with those that were forgotten, and the tokens in their order. -/
structure Permits (b : FifoBuffer τ ι ρ) (h : Log τ) (lost : ℕ) : Prop where
  law : b.completedTransactions + h.consumed + lost = h.initial.length + h.transfers
  order : h.read ++ b.tokens = h.written
  untouched : b.running = false → Untouched b h

theorem permits_start (size : ℕ) : Permits (fifoBuffer size : FifoBuffer τ ι ρ) noLog 0 where
  law := rfl
  order := rfl
  untouched _ := ⟨rfl, rfl, rfl, rfl, rfl, fun _ => rfl, fun _ => rfl⟩

theorem push_eq_some {b b' : FifoBuffer τ ι ρ} {val : τ} :
    push b val = some b' ↔ b.tokens.length < b.size ∧
      b' = { b with tokens := b.tokens ++ [val] } := by
  rw [push, Option.ite_none_right_eq_some, Option.some.injEq]
  exact and_congr_right fun _ => eq_comm

theorem pop_eq_some {b b' : FifoBuffer τ ι ρ} :
    pop b = some b' ↔ ∃ val rest, b.tokens = val :: rest ∧ b' = { b with tokens := rest } := by
  unfold pop
  split
  · rename_i empty
    simp [empty]
  · rename_i val rest tokens
    constructor
    · intro same
      exact ⟨val, rest, tokens, (Option.some.inj same).symm⟩
    · rintro ⟨val', rest', same, rfl⟩
      rw [tokens] at same
      rw [(List.cons.inj same).2]

theorem wait_eq_some {b b' : FifoBuffer τ ι ρ} :
    wait b = some b' ↔ 0 < b.completedTransactions ∧
      b' = { b with completedTransactions := b.completedTransactions - 1 } := by
  rw [wait, Option.ite_none_right_eq_some, Option.some.injEq]
  exact and_congr_right fun _ => eq_comm

/-- An initial token comes with a permit unless the link is not resolved yet. -/
theorem Permits.initialWrite {b b' : FifoBuffer τ ι ρ} {h : Log τ} {lost : ℕ} {val : τ}
    (p : Permits b h lost) (elaborating : b.running = false)
    (written : Buffer.initialWrite b val = some b') :
    Permits b' { h with initial := h.initial ++ [val], written := h.written ++ [val] }
      (lost + if resolved b = true then 0 else 1) := by
  obtain ⟨pushed, push, rfl⟩ := Option.map_eq_some_iff.mp written
  obtain ⟨-, rfl⟩ := push_eq_some.mp push
  have law := p.law
  have order : h.read ++ (b.tokens ++ [val]) = h.written ++ [val] := by
    rw [← List.append_assoc, p.order]
  have before := p.untouched elaborating
  have sizes : (h.initial ++ [val]).length = h.initial.length + 1 := by simp
  have after : ∀ b' : FifoBuffer τ ι ρ, b'.requests = b.requests → b'.writer = b.writer →
      b'.reader = b.reader →
      Untouched b' { h with initial := h.initial ++ [val], written := h.written ++ [val] } := by
    intro b' requests writer reader
    refine ⟨congrArg (· ++ [val]) before.written, before.read, before.consumed,
      before.transfers, requests.trans before.requests, ?_, ?_⟩
    · intro i
      rw [writer]
      exact before.writers i
    · intro j
      rw [reader]
      exact before.readers j
  show Permits (if resolved b = true then post _ else _) _ _
  split
  · refine ⟨?_, order, fun _ => after _ rfl rfl rfl⟩
    show b.completedTransactions + 1 + h.consumed + (lost + 0) =
      (h.initial ++ [val]).length + h.transfers
    omega
  · refine ⟨?_, order, fun _ => after _ rfl rfl rfl⟩
    show b.completedTransactions + h.consumed + (lost + 1) =
      (h.initial ++ [val]).length + h.transfers
    omega

/-- A writer outside its calls starts one only when the simulation runs, and so does a reader. -/
theorem Permits.running {b : FifoBuffer τ ι ρ} {h : Log τ} {lost : ℕ} (p : Permits b h lost)
    (busy : (∃ i, b.writer i ≠ .outside) ∨ (∃ j, b.reader j ≠ .outside) ∨ 0 < b.requests) :
    b.running = true := by
  by_contra stopped
  have before := p.untouched (Bool.eq_false_iff.mpr stopped)
  rcases busy with ⟨i, inside⟩ | ⟨j, inside⟩ | pending
  · exact inside (before.writers i)
  · exact inside (before.readers j)
  · rw [before.requests] at pending
    cases pending

/-- During the simulation there is nothing to say about the elaboration. -/
theorem permits_of_running {b : FifoBuffer τ ι ρ} {h : Log τ} {lost : ℕ}
    (running : b.running = true)
    (law : b.completedTransactions + h.consumed + lost = h.initial.length + h.transfers)
    (order : h.read ++ b.tokens = h.written) : Permits b h lost := by
  refine ⟨law, order, fun stopped => ?_⟩
  rw [running] at stopped
  cases stopped

variable [DecidableEq ι] [DecidableEq ρ]

/-- Every step but an early initial write keeps the balance of the permits, and all of them keep
the order of the tokens. -/
theorem Permits.step {b b' : FifoBuffer τ ι ρ} {h : Log τ} {lost : ℕ} {l : FifoLabel τ ι ρ}
    (p : Permits b h lost) (taken : Buffer.step b l = some b') :
    Permits b' (note b l b' h) (lost + forgotten b l) := by
  have law := p.law
  cases l with
  | autoMap route =>
    simp only [Buffer.step] at taken
    split at taken
    · cases taken
    · cases taken
      exact ⟨law, p.order, fun stopped => { p.untouched stopped with }⟩
  | initialWrite val =>
    simp only [Buffer.step] at taken
    split at taken
    · cases taken
    · rename_i stopped
      exact p.initialWrite (Bool.eq_false_iff.mpr stopped) taken
  | startSimulation =>
    simp only [Buffer.step] at taken
    split at taken
    · cases taken
      exact ⟨law, p.order, nofun⟩
    · cases taken
  | write i val =>
    simp only [Buffer.step] at taken
    split at taken
    · rename_i running _
      cases taken
      exact permits_of_running running law p.order
    · cases taken
  | transferred i =>
    simp only [Buffer.step] at taken
    split at taken
    · rename_i val inside
      cases taken
      have running : b.running = true := p.running (.inl ⟨i, by simp [inside]⟩)
      refine permits_of_running running ?_ p.order
      show b.completedTransactions + 1 + h.consumed + lost = h.initial.length + (h.transfers + 1)
      omega
    · cases taken
  | accepted i =>
    simp only [Buffer.step] at taken
    split at taken
    · rename_i val inside
      cases taken
      have running : b.running = true := p.running (.inl ⟨i, by simp [inside]⟩)
      exact permits_of_running running law p.order
    · cases taken
  | stored i =>
    simp only [Buffer.step] at taken
    split at taken
    · rename_i val inside
      obtain ⟨pushed, push, rfl⟩ := Option.map_eq_some_iff.mp taken
      obtain ⟨-, rfl⟩ := push_eq_some.mp push
      have running : b.running = true := p.running (.inl ⟨i, by simp [inside]⟩)
      have noted : note b (.stored i) (setWriter { b with tokens := b.tokens ++ [val] } i .outside)
          h = { h with written := h.written ++ [val] } := by
        simp only [note, inside]
      rw [noted]
      refine permits_of_running running law ?_
      show h.read ++ (b.tokens ++ [val]) = h.written ++ [val]
      rw [← List.append_assoc, p.order]
    · cases taken
  | served =>
    simp only [Buffer.step] at taken
    split at taken
    · rename_i pending
      cases taken
      have running : b.running = true := p.running (.inr (.inr pending))
      refine permits_of_running running ?_ p.order
      show b.completedTransactions + 1 + h.consumed + lost = h.initial.length + (h.transfers + 1)
      omega
    · cases taken
  | read j =>
    simp only [Buffer.step] at taken
    split at taken
    · rename_i allowed
      cases taken
      exact permits_of_running allowed.1 law p.order
    · cases taken
  | permitted j =>
    simp only [Buffer.step] at taken
    split at taken
    · rename_i inside
      obtain ⟨waited, wait, rfl⟩ := Option.map_eq_some_iff.mp taken
      obtain ⟨positive, rfl⟩ := wait_eq_some.mp wait
      have running : b.running = true := p.running (.inr (.inl ⟨j, by simp [inside]⟩))
      refine permits_of_running running ?_ p.order
      show b.completedTransactions - 1 + (h.consumed + 1) + lost = h.initial.length + h.transfers
      omega
    · cases taken
  | taken j =>
    simp only [Buffer.step] at taken
    split at taken
    · rename_i inside
      obtain ⟨popped, pop, rfl⟩ := Option.map_eq_some_iff.mp taken
      obtain ⟨val, rest, tokens, rfl⟩ := pop_eq_some.mp pop
      have running : b.running = true := p.running (.inr (.inl ⟨j, by simp [inside]⟩))
      refine permits_of_running running law ?_
      show h.read ++ b.tokens.head?.toList ++ rest = h.written
      rw [tokens, ← p.order, tokens, List.append_assoc]
      rfl
    · cases taken

/-- Complete reads, one after the other. -/
def reads (readers : List ρ) : List (FifoLabel τ ι ρ) :=
  readers.flatMap fun j => [.read j, .permitted j, .taken j]

/-- One permit and one token let one read through. -/
theorem run_read {b : FifoBuffer τ ι ρ} {h : Log τ} {j : ρ} {val : τ} {rest : List τ}
    (running : b.running = true) (mapped : resolved b = true) (outside : b.reader j = .outside)
    (permit : 0 < b.completedTransactions) (tokens : b.tokens = val :: rest) :
    run (recording Buffer.step note) (b, h) [.read j, .permitted j, .taken j] =
      some ({ b with
          completedTransactions := b.completedTransactions - 1
          tokens := rest
          reader := Function.update b.reader j .outside },
        { h with consumed := h.consumed + 1, read := h.read ++ [val] }) := by
  have called : Buffer.step b (.read j) = some (setReader b j .waiting) := by
    simp only [Buffer.step, running, outside, mapped, and_self, if_true]
  have released : Buffer.step (setReader b j .waiting) (.permitted j) =
      some (setReader { setReader b j .waiting with
        completedTransactions := b.completedTransactions - 1 } j .reading) := by
    have inside : (setReader b j .waiting).reader j = .waiting := Function.update_self _ _ _
    have waited : wait (setReader b j .waiting) = some { setReader b j .waiting with
        completedTransactions := b.completedTransactions - 1 } := if_pos permit
    simp only [Buffer.step, inside, if_true, waited, Option.map_some]
  generalize reading : setReader { setReader b j .waiting with
    completedTransactions := b.completedTransactions - 1 } j .reading = c at released
  have inside : c.reader j = .reading := by
    rw [← reading]
    exact Function.update_self _ _ _
  have filled : c.tokens = val :: rest := by
    rw [← reading]
    exact tokens
  have finished : Buffer.step c (.taken j) =
      some (setReader { c with tokens := rest } j .outside) := by
    have popped : pop c = some { c with tokens := rest } := pop_eq_some.mpr ⟨val, rest, filled, rfl⟩
    simp only [Buffer.step, inside, if_true, popped, Option.map_some]
  have returned : setReader { c with tokens := rest } j .outside = { b with
      completedTransactions := b.completedTransactions - 1
      tokens := rest
      reader := Function.update b.reader j .outside } := by
    rw [← reading]
    simp only [setReader, Function.update_idem]
  simp only [run, recording, called, released, finished, Option.map_some, Option.bind_some, note,
    filled, List.head?_cons, Option.toList_some, returned]

/-- As many permits as tokens let all of them be read in their order. -/
theorem run_reads {b : FifoBuffer τ ι ρ} {h : Log τ} {readers : List ρ}
    (running : b.running = true) (mapped : resolved b = true)
    (outside : ∀ j, b.reader j = .outside) (permits : b.tokens.length ≤ b.completedTransactions)
    (sizes : readers.length = b.tokens.length) :
    ∃ x, run (recording Buffer.step note) (b, h) (reads readers) = some x ∧
      x.2.read = h.read ++ b.tokens := by
  induction readers generalizing b h with
  | nil =>
    have empty : b.tokens = [] := List.length_eq_zero_iff.mp sizes.symm
    exact ⟨(b, h), rfl, by rw [empty, List.append_nil]⟩
  | cons j readers ih =>
    cases tokens : b.tokens with
    | nil =>
      rw [tokens] at sizes
      cases sizes
    | cons val rest =>
      rw [tokens] at sizes permits
      have permit : 0 < b.completedTransactions := Nat.lt_of_lt_of_le (Nat.succ_pos _) permits
      have first := run_read (h := h) running mapped (outside j) permit tokens
      obtain ⟨x, later, order⟩ := ih (h := { h with
          consumed := h.consumed + 1, read := h.read ++ [val] })
        (b := { b with
          completedTransactions := b.completedTransactions - 1
          tokens := rest
          reader := Function.update b.reader j .outside }) running mapped
        (fun k => by
          by_cases same : k = j
          · rw [same]
            exact Function.update_self _ _ _
          · exact (Function.update_of_ne same _ _).trans (outside k))
        (Nat.le_sub_one_of_lt permits) (Nat.succ.inj sizes)
      refine ⟨x, run_append_eq_some.mpr ⟨_, first, later⟩, ?_⟩
      rw [order, List.append_assoc]
      rfl

/-- Every initial token and every transfer has one permit, reads return the tokens in the order of
the writes, and the initial tokens can be read before any write. -/
structure OnePermitEach (b : FifoBuffer τ ι ρ) (h : Log τ) : Prop where
  permits : b.completedTransactions + h.consumed = h.initial.length + h.transfers
  order : ∀ i < h.read.length, h.read[i]? = h.written[i]?
  initialReads : b.running = false → resolved b = true →
    ∀ readers : List ρ, readers.length = h.initial.length →
      ∃ x, run (recording Buffer.step note) (b, h) (.startSimulation :: reads readers) = some x ∧
        x.2.read = h.initial

theorem Permits.onePermitEach {b : FifoBuffer τ ι ρ} {h : Log τ} (p : Permits b h 0) :
    OnePermitEach b h := by
  refine ⟨p.law, ?_, ?_⟩
  · intro i within
    rw [← p.order, List.getElem?_append_left within]
  · intro elaborating mapped readers sizes
    have before := p.untouched elaborating
    have tokens : b.tokens = h.initial := by
      rw [← before.written, ← p.order, before.read, List.nil_append]
    have permits : b.tokens.length ≤ b.completedTransactions := by
      have law := p.law
      rw [before.consumed, before.transfers, ← tokens] at law
      omega
    have started : recording Buffer.step note (b, h) .startSimulation =
        some ({ b with running := true }, h) := by
      simp only [recording, Buffer.step, elaborating, mapped, and_self, if_true, Option.map_some,
        note]
    obtain ⟨x, later, read⟩ := run_reads (b := { b with running := true }) (h := h) rfl mapped
      before.readers permits (sizes.trans (congrArg List.length tokens.symm))
    refine ⟨x, run_cons_eq_some.mpr ⟨_, started, later⟩, ?_⟩
    rw [read, before.read]
    exact tokens

/-- A run has one permit for each token and transfer exactly when it writes no initial token before
the physical link is resolved. -/
theorem one_permit_each_iff {size : ℕ} {labels : List (FifoLabel τ ι ρ)} {b : FifoBuffer τ ι ρ}
    (reach : run Buffer.step (fifoBuffer size) labels = some b) :
    ∃ h, run (recording Buffer.step note) (fifoBuffer size, noLog) labels = some (b, h) ∧
      (OnePermitEach b h ↔ Along Buffer.step Mapped (fifoBuffer size) labels) := by
  obtain ⟨h, recorded⟩ := exists_history noLog reach
  have keep : ∀ (x : FifoBuffer τ ι ρ × Log τ) (l : FifoLabel τ ι ρ) (y : FifoBuffer τ ι ρ × Log τ)
      (lost : ℕ), Permits x.1 x.2 lost → True → recording Buffer.step note x l = some y →
      Permits y.1 y.2 (lost + forgotten x.1 l) := by
    intro x l y lost p _ taken
    obtain ⟨stepped, noted⟩ := recording_eq_some.mp taken
    rw [noted]
    exact p.step stepped
  have always : Along (recording Buffer.step note)
      (fun _ _ => True : FifoBuffer τ ι ρ × Log τ → FifoLabel τ ι ρ → Prop)
      (fifoBuffer size, noLog) labels := along_of_forall fun _ _ => trivial
  have permits : Permits b h (total (recording Buffer.step note) (fun x l => forgotten x.1 l)
      (fifoBuffer size, noLog) labels) := by
    have final := run_total keep (permits_start size) always recorded
    rwa [Nat.zero_add] at final
  have lost : total (recording Buffer.step note) (fun x l => forgotten x.1 l)
      (fifoBuffer size, noLog) labels = 0 ↔ Along Buffer.step Mapped (fifoBuffer size) labels := by
    rw [total_eq_zero]
    simp only [forgotten_eq_zero]
    exact along_recording
  refine ⟨h, recorded, ?_⟩
  rw [← lost]
  constructor
  · intro each
    have law := permits.law
    have exact' := each.permits
    omega
  · intro none
    rw [none] at permits
    exact permits.onePermitEach

/-- One initial token from the initialization hook, one transfer within a processing element, and
the reads of both tokens. -/
def hookToken : List (FifoLabel ℕ Unit Unit) :=
  [.autoMap .intracomm, .initialWrite 7, .startSimulation, .write () 8, .read (), .permitted (),
    .taken (), .transferred (), .stored (), .read (), .permitted (), .taken ()]

theorem hookToken_permitted :
    ∃ b h, run (recording Buffer.step note) (fifoBuffer 4, noLog) hookToken = some (b, h) ∧
      OnePermitEach b h := by
  have along : Along Buffer.step Mapped (fifoBuffer 4) hookToken := by decide +kernel
  have defined : (run Buffer.step (fifoBuffer 4) hookToken).isSome = true := by decide +kernel
  obtain ⟨b, reach⟩ := Option.isSome_iff_exists.mp defined
  obtain ⟨h, recorded, each⟩ := one_permit_each_iff reach
  exact ⟨b, h, recorded, each.mpr along⟩

/-- One initial token before the end of the elaboration, where the link is resolved. -/
def earlyToken : List (FifoLabel ℕ Unit Unit) :=
  [.initialWrite 7, .autoMap .intracomm, .startSimulation, .read ()]

/-- The reader waits for a permit that the token does not have. -/
theorem earlyToken_unpermitted :
    ∃ b h, run (recording Buffer.step note) (fifoBuffer 4, noLog) earlyToken = some (b, h) ∧
      b.tokens = [7] ∧ Buffer.step b (.permitted ()) = none ∧ ¬ OnePermitEach b h := by
  refine ⟨_, _, rfl, rfl, rfl, ?_⟩
  intro each
  cases each.permits

end Kista.SynchComm.ReadPermits
