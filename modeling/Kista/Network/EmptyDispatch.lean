/- Kista/Network/EmptyDispatch
   source: src/src/network_interface.cpp
   digest: The runs in which the transfer process never dispatches from an empty queue, for
   either kind of buffer. -/

import Kista.Network.Accounting

set_option autoImplicit false
set_option relaxedAutoImplicit false

namespace Kista.Network.EmptyDispatch

open Kernel.Delta Kernel.Run Interface Stranding Accounting

variable {ι κ : Type}

/-- The start of the simulation; no size stands for the infinite buffer. -/
def bufferStart (schedule : List κ) : Option UInt32 → NetConfig ι κ
  | some txBufferSize => simulationStart txBufferSize schedule
  | none =>
    { store := networkInterface schedule fun _ => 0
      status := fun
        | .netif => .ready .start
        | .sender _ => .free .outside
      pending := []
      now := 0 }

/-- The transfer process is about to leave the wait for a request, with nothing queued. -/
def DispatchesEmpty (c : NetConfig ι κ) : Prop :=
  (c.status .netif).resumable = some .requested ∧ c.store.sendQueue = []

/-- The sizes that the callers promise: the infinite buffer takes any. -/
def Sized : Option UInt32 → NetLabel ι κ → Prop
  | some txBufferSize, l => WellSized txBufferSize l
  | none, _ => True

instance : (buffer : Option UInt32) → (l : NetLabel ι κ) → Decidable (Sized buffer l)
  | some txBufferSize, l => inferInstanceAs (Decidable (WellSized txBufferSize l))
  | none, _ => inferInstanceAs (Decidable True)

/-- A transfer over a finite buffer that ends with an empty queue finds no request notified in
the same delta. -/
def Unannounced (c : NetConfig ι κ) : NetLabel ι κ → Prop
  | .eval .netif _ => c.store.finiteBufferFlag = true → ∀ req ∈ inTransfer c,
      c.store.sendQueue = [] → .sendRequestEv ∉ c.pending
  | _ => True

instance (c : NetConfig ι κ) : (l : NetLabel ι κ) → Decidable (Unannounced c l)
  | .eval .netif _ => inferInstanceAs (Decidable (_ = true → ∀ req ∈ inTransfer c, _ → _))
  | .eval (.sender _) _ => inferInstanceAs (Decidable True)
  | .delta => inferInstanceAs (Decidable True)
  | .advance _ => inferInstanceAs (Decidable True)

/-- A notification that the transfer process will see, or has yet to run after, comes with a
queued request. -/
structure Attentive (buffer : Option UInt32) (c : NetConfig ι κ) : Prop where
  flag : c.store.finiteBufferFlag = buffer.isSome
  balanced : ∀ txBufferSize ∈ buffer, Balanced txBufferSize c
  waits : ∀ events timeout, c.status .netif = .blocked events timeout .requested →
    events = [.sendRequestEv] ∧ timeout = none
  requested : (c.status .netif).resumable = some .requested → c.store.sendQueue ≠ []
  notified : .sendRequestEv ∈ c.pending → inTransfer c = none → c.store.sendQueue ≠ []
  stored : buffer = none → .sendRequestEv ∈ c.pending →
    (∃ r, (c.status .netif).resumable = some r) → c.store.sendQueue ≠ []

theorem attentive_start (schedule : List κ) (buffer : Option UInt32) :
    Attentive buffer (bufferStart schedule buffer : NetConfig ι κ) := by
  cases buffer with
  | none =>
    refine ⟨rfl, nofun, nofun, nofun, nofun, nofun⟩
  | some txBufferSize =>
    refine ⟨rfl, ?_, nofun, nofun, nofun, nofun⟩
    rintro size ⟨⟩
    exact balanced_start txBufferSize schedule

variable [DecidableEq ι] [DecidableEq κ]

/-- What `dispatch` reports as an error ends the run. -/
theorem DispatchesEmpty.fails {senders : List ι} {all : ∀ i, i ∈ senders} {c : NetConfig ι κ}
    (h : DispatchesEmpty c) (choice : NetChoice κ) :
    (netSystem ι κ senders all).step c (.eval .netif choice) = none := by
  rw [← Option.not_isSome_iff_eq_none, Option.isSome_iff_exists]
  rintro ⟨c', taken⟩
  obtain ⟨r, seg, resumes, ran, -⟩ := System.step_eval_eq_some.mp taken
  rw [h.1] at resumes
  cases resumes
  cases choice with
  | send link size => cases ran
  | delay d =>
    have ran : startTransfer c.store c.now d = some seg := ran
    rw [startTransfer, h.2] at ran
    cases ran

/-- A request is stored, or blocks because something is queued or in transfer. -/
theorem Attentive.sender {buffer : Option UInt32} {c : NetConfig ι κ} (h : Attentive buffer c)
    {i : ι} {r : NetPoint κ} {choice : NetChoice κ}
    {seg : Segment NetEvent (NetPoint κ) (NetworkInterface κ)}
    (sized : Sized buffer (.eval (.sender i) choice : NetLabel ι κ))
    (ran : exec (.sender i) r choice c.now c.store = some seg) :
    Attentive buffer ⟨seg.store, Function.update c.status (.sender i) seg.status,
      seg.notified ++ c.pending, c.now⟩ := by
  have same : Function.update c.status (.sender i) seg.status .netif = c.status .netif :=
    update_sender_netif c.status seg.status i
  obtain ⟨req, notified, rfl, from'⟩ := exec_sender ran
  have balanced : ∀ txBufferSize ∈ buffer, Balanced txBufferSize
      ⟨(requestLoop c.store req notified).store,
        Function.update c.status (.sender i) (requestLoop c.store req notified).status,
        (requestLoop c.store req notified).notified ++ c.pending, c.now⟩ :=
    fun size here => (h.balanced size here).requestLoop i req notified
  rcases requestLoop_cases c.store req notified with ⟨full, blocks⟩ | ⟨-, stores⟩
  · rw [blocks] at same balanced ⊢
    obtain ⟨txBufferSize, rfl⟩ : ∃ txBufferSize, buffer = some txBufferSize :=
      Option.isSome_iff_exists.mp (h.flag ▸ full.1)
    refine ⟨h.flag, balanced, ?_, ?_, ?_, nofun⟩
    · intro events timeout blocked
      exact h.waits events timeout (same ▸ blocked)
    · intro resumes
      exact h.requested (same ▸ resumes)
    · intro announced idle
      rw [inTransfer_sender] at idle
      rcases from' with ⟨-, rfl⟩ | ⟨rfl, rfl, -⟩
      · -- a sender that waits again notifies nothing
        exact h.notified announced idle
      · have fits : req.messageSize ≤ txBufferSize := sized.2
        exact ((h.balanced txBufferSize rfl).busy fits full.2).resolve_right
          (not_not.mpr idle)
  · rw [stores] at same balanced ⊢
    have queued : (store c.store req).sendQueue ≠ [] := insertRequest_ne_nil req _
    refine ⟨h.flag, balanced, ?_, fun _ => queued, fun _ _ => queued, fun _ _ _ => queued⟩
    intro events timeout blocked
    exact h.waits events timeout (same ▸ blocked)

/-- The transfer process dispatches, or waits for a notification that is not pending. -/
theorem Attentive.netif {buffer : Option UInt32} {c : NetConfig ι κ} (h : Attentive buffer c)
    {r : NetPoint κ} {choice : NetChoice κ}
    {seg : Segment NetEvent (NetPoint κ) (NetworkInterface κ)}
    (heard : Unannounced c (.eval .netif choice : NetLabel ι κ))
    (resumes : (c.status .netif).resumable = some r)
    (ran : exec (.netif : NetProc ι) r choice c.now c.store = some seg) :
    Attentive buffer ⟨seg.store, Function.update c.status .netif seg.status,
      seg.notified ++ c.pending, c.now⟩ := by
  have balanced : ∀ size ∈ buffer, Balanced size
      ⟨seg.store, Function.update c.status .netif seg.status, seg.notified ++ c.pending, c.now⟩ :=
    fun size here => (h.balanced size here).netif resumes ran
  have flag : (arrived r c.store).finiteBufferFlag = buffer.isSome := by
    rw [arrived_finite, h.flag]
  have at' := Status.resumable_point resumes
  rcases exec_netif ran with ⟨req, queue, d, found, rfl⟩ | ⟨empty, rfl⟩
  · refine ⟨flag, balanced, ?_, ?_, ?_, ?_⟩
    · intro events timeout blocked
      simp at blocked
    · intro requested
      simp [Status.resumable] at requested
    · intro _ idle
      rw [inTransfer_started] at idle
      cases idle
    · rintro - - ⟨r', resumed⟩
      simp [Status.resumable] at resumed
  · have silent : .sendRequestEv ∉ c.pending := by
      intro announced
      cases transfer : inTransfer c with
      | none => exact h.notified announced transfer empty
      | some req =>
        cases buffer with
        | none => exact h.stored rfl announced ⟨r, resumes⟩ empty
        | some size => exact heard h.flag req transfer empty announced
    refine ⟨flag, balanced, ?_, ?_, ?_, ?_⟩
    · intro events timeout blocked
      simp only [Function.update_self, Status.blocked.injEq] at blocked
      exact ⟨blocked.1.symm, blocked.2.1.symm⟩
    · intro requested
      simp [Status.resumable] at requested
    · intro announced
      exact absurd announced silent
    · intro _ announced
      exact absurd announced silent

/-- In every run over an infinite buffer, and in every run over a finite one whose transfers do not
end with an announced request and an empty queue, the queue is never empty at a dispatch. -/
theorem never_dispatches_empty {buffer : Option UInt32} {schedule : List κ} {senders : List ι}
    (all : ∀ i, i ∈ senders) {labels : List (NetLabel ι κ)} {c : NetConfig ι κ}
    (along : Along (netSystem ι κ senders all).step
      (fun c l => Sized buffer l ∧ Unannounced c l) (bufferStart schedule buffer) labels)
    (reach : run (netSystem ι κ senders all).step (bufferStart schedule buffer) labels = some c) :
    ¬ DispatchesEmpty c := by
  have keep : ∀ (c : NetConfig ι κ) (l : NetLabel ι κ) (c' : NetConfig ι κ),
      Attentive buffer c → Sized buffer l ∧ Unannounced c l →
      (netSystem ι κ senders all).step c l = some c' → Attentive buffer c' := by
    apply System.keeps_of_steps
    · intro c p r choice seg h allowed resumes ran
      cases p with
      | netif => exact h.netif allowed.2 resumes ran
      | sender i => exact h.sender allowed.1 ran
    · intro c h _ _
      have point : ((c.status .netif).wake ((netSystem ι κ senders all).fired c) c.now).point =
          (c.status .netif).point := Status.wake_point
      refine ⟨h.flag, fun size here => (h.balanced size here).wake rfl point, ?_, ?_, nofun,
        nofun⟩
      · intro events timeout blocked
        exact h.waits events timeout (Status.wake_eq_blocked.mp blocked).1
      · intro requested
        rcases Status.wake_resumable requested with before | ⟨events, timeout, waits, woken⟩
        · exact h.requested before
        · obtain ⟨rfl, rfl⟩ := h.waits events timeout waits
          have announced : NetEvent.sendRequestEv ∈ c.pending := by
            simpa [System.fired, netSystem] using woken
          have idle : (c.status .netif).point = .requested := by rw [waits]; rfl
          exact h.notified announced (inTransfer_of_requested idle)
    · intro c t h _ stable _ _
      obtain ⟨-, silent, -, -⟩ := System.stable_iff.mp stable
      have point : ((c.status .netif).wake (fun _ => false) t).point =
          (c.status .netif).point := Status.wake_point
      refine ⟨h.flag, fun size here => (h.balanced size here).wake rfl point, ?_, ?_, ?_, ?_⟩
      · intro events timeout blocked
        exact h.waits events timeout (Status.wake_eq_blocked.mp blocked).1
      · intro requested
        rcases Status.wake_resumable requested with before | ⟨events, timeout, waits, woken⟩
        · exact h.requested before
        · -- the wait for a request does not end with time
          obtain ⟨rfl, rfl⟩ := h.waits events timeout waits
          simp at woken
      · intro announced
        exact absurd announced (by simp [silent])
      · intro _ announced
        exact absurd announced (by simp [silent])
  have final := run_invariant keep (attentive_start schedule buffer) along reach
  intro empty
  exact final.requested empty.1 empty.2

/-- The second message is requested when the transfer of the first one has just ended, after the
transfer process has seen it. -/
def lateMessage : List (NetLabel Bool Unit) :=
  [.eval .netif (.delay 0), .eval (.sender false) (.send () 10), .delta,
    .eval .netif (.delay 5), .delta, .advance 5, .eval .netif (.delay 0),
    .eval (.sender true) (.send () 10), .delta, .eval .netif (.delay 5)]

theorem lateMessage_dispatched :
    ∃ c, run twoSenders.step (bufferStart [] (some 10)) lateMessage = some c ∧
      ¬ DispatchesEmpty c := by
  have along : Along twoSenders.step (fun c l => Sized (some 10) l ∧ Unannounced c l)
      (bufferStart [] (some 10)) lateMessage := by decide +kernel
  have defined : (run twoSenders.step (bufferStart [] (some 10)) lateMessage).isSome = true := by
    decide +kernel
  obtain ⟨c, reach⟩ := Option.isSome_iff_exists.mp defined
  exact ⟨c, reach, never_dispatches_empty (by decide) along reach⟩

/-- The same request just before the transfer process sees the end of the transfer: the caller
blocks for room after its notification, and the notification wakes the transfer process. -/
def crossingMessage : List (NetLabel Bool Unit) :=
  [.eval .netif (.delay 0), .eval (.sender false) (.send () 10), .delta,
    .eval .netif (.delay 5), .delta, .advance 5, .eval (.sender true) (.send () 10),
    .eval .netif (.delay 0), .delta]

theorem crossingMessage_dispatches_empty :
    (∀ l ∈ crossingMessage, Sized (some 10) l) ∧
      ∃ c, run twoSenders.step (bufferStart [] (some 10)) crossingMessage = some c ∧
        DispatchesEmpty c := by
  constructor
  · decide
  · exact ⟨_, rfl, rfl, rfl⟩

end Kista.Network.EmptyDispatch
