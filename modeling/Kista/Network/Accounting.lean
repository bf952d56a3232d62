/- Kista/Network/Accounting
   source: src/src/network_interface.cpp
   digest: The two counters of a finite transmit buffer against what is queued and in transfer,
   for any message sizes and any order of the processes. -/

import Kista.Network.Stranding

set_option autoImplicit false
set_option relaxedAutoImplicit false

namespace Kista.Network.Accounting

open Kernel.Delta Kernel.Run Interface Stranding

variable {ι κ : Type}

def queuedLoad (netif : NetworkInterface κ) : ℕ :=
  (netif.sendQueue.map fun req => req.messageSize.toNat).sum

/-- The buffer holds what is queued and in transfer, and the rest of it is room. -/
structure Balanced (txBufferSize : UInt32) (c : NetConfig ι κ) : Prop where
  finite : c.store.finiteBufferFlag = true
  room : c.store.roomInTxBuffer.toNat + load c = txBufferSize.toNat
  data : c.store.curDataInTxBuffer.toNat = load c

theorem balanced_start (txBufferSize : UInt32) (schedule : List κ) :
    Balanced txBufferSize (simulationStart txBufferSize schedule : NetConfig ι κ) where
  finite := rfl
  room := rfl
  data := rfl

theorem inTransfer_of_transferred {c : NetConfig ι κ} {req : SendRequest κ}
    (at' : (c.status .netif).point = .transferred req) : inTransfer c = some req := by
  rw [inTransfer, at']

theorem inTransfer_of_requested {c : NetConfig ι κ}
    (at' : (c.status .netif).point = .requested) : inTransfer c = none := by
  rw [inTransfer, at']

/-- The transfer process after a dispatch. -/
theorem inTransfer_started [DecidableEq ι] (status : NetProc ι → Status NetEvent (NetPoint κ))
    (netif : NetworkInterface κ) (pending : List NetEvent) (now : ℕ) (timeout : Option ℕ)
    (req : SendRequest κ) :
    inTransfer (⟨netif, Function.update status .netif (.blocked [] timeout (.transferred req)),
      pending, now⟩ : NetConfig ι κ) = some req := by
  apply inTransfer_of_transferred
  show (Function.update status .netif _ .netif).point = _
  rw [Function.update_self]
  rfl

/-- The transfer process that waits for a request. -/
theorem inTransfer_waits [DecidableEq ι] (status : NetProc ι → Status NetEvent (NetPoint κ))
    (netif : NetworkInterface κ) (pending : List NetEvent) (now : ℕ) :
    inTransfer (⟨netif, Function.update status .netif (.blocked [.sendRequestEv] none .requested),
      pending, now⟩ : NetConfig ι κ) = none := by
  apply inTransfer_of_requested
  show (Function.update status .netif _ .netif).point = _
  rw [Function.update_self]
  rfl

theorem load_eq (c : NetConfig ι κ) :
    load c = queuedLoad c.store + ((inTransfer c).map fun req => req.messageSize.toNat).getD 0 :=
  rfl

theorem queuedLoad_dispatch [DecidableEq κ] {schedule : List κ} {netif : NetworkInterface κ}
    {req : SendRequest κ} {queue : List (SendRequest κ)}
    (found : dispatch schedule netif.sendQueue = some (req, queue)) :
    queuedLoad netif =
      req.messageSize.toNat + (queue.map fun req => req.messageSize.toNat).sum := by
  have perm := ((dispatch_perm found).map fun req => req.messageSize.toNat).sum_nat
  rwa [List.map_cons, List.sum_cons] at perm

/-- Nothing in the accounts depends on who waits for what. -/
theorem Balanced.wake {txBufferSize : UInt32} {c c' : NetConfig ι κ} (h : Balanced txBufferSize c)
    (store : c'.store = c.store) (point : (c'.status .netif).point = (c.status .netif).point) :
    Balanced txBufferSize c' := by
  have same : load c' = load c := by
    rw [load, load, inTransfer_congr point, store]
  refine ⟨?_, ?_, ?_⟩
  · rw [store]
    exact h.finite
  · rw [store, same]
    exact h.room
  · rw [store, same]
    exact h.data

theorem Balanced.fits {txBufferSize : UInt32} {c : NetConfig ι κ} (h : Balanced txBufferSize c)
    {req : SendRequest κ}
    (free : ¬ (c.store.finiteBufferFlag = true ∧
      c.store.roomInTxBuffer < req.messageSize)) :
    req.messageSize ≤ c.store.roomInTxBuffer := by
  rw [← UInt32.not_lt]
  intro less
  exact free ⟨h.finite, less⟩

/-- A blocked request keeps the buffer as it is, a stored one moves its size from the room to the
data. -/
theorem Balanced.requestLoop [DecidableEq ι] {txBufferSize : UInt32} {c : NetConfig ι κ}
    (h : Balanced txBufferSize c) (i : ι) (req : SendRequest κ) (notified : List NetEvent) :
    Balanced txBufferSize
      ⟨(Interface.requestLoop c.store req notified).store,
        Function.update c.status (.sender i) (Interface.requestLoop c.store req notified).status,
        (Interface.requestLoop c.store req notified).notified ++ c.pending, c.now⟩ := by
  rcases requestLoop_cases c.store req notified with ⟨-, blocks⟩ | ⟨free, stores⟩
  · rw [blocks]
    refine h.wake rfl (congrArg Status.point ?_)
    exact update_sender_netif c.status (.blocked [.sendRequestCompleted] none (.waiting req)) i
  · rw [stores]
    have fits := h.fits free
    have less := UInt32.le_iff_toNat_le.mp fits
    have room := h.room
    have data := h.data
    have bound := txBufferSize.toNat_lt
    refine ⟨h.finite, ?_, ?_⟩
    · rw [load_store]
      show (c.store.roomInTxBuffer - req.messageSize).toNat + _ = _
      rw [UInt32.toNat_sub_of_le _ _ fits]
      omega
    · rw [load_store]
      show (c.store.curDataInTxBuffer + req.messageSize).toNat = _
      rw [UInt32.toNat_add, Nat.mod_eq_of_lt (by omega)]
      omega

/-- When the transfer process resumes, what a finished transfer occupied is room again. -/
theorem Balanced.arrived [DecidableEq κ] {txBufferSize : UInt32} {c : NetConfig ι κ}
    (h : Balanced txBufferSize c) {r : NetPoint κ} (at' : (c.status .netif).point = r) :
    (Interface.arrived r c.store).roomInTxBuffer.toNat + queuedLoad c.store =
        txBufferSize.toNat ∧
      (Interface.arrived r c.store).curDataInTxBuffer.toNat = queuedLoad c.store := by
  refine ⟨room_arrived h.room at', ?_⟩
  have data := h.data
  rw [load_eq] at data
  cases r with
  | transferred req =>
    rw [inTransfer_of_transferred at', Option.map_some, Option.getD_some] at data
    have held : req.messageSize ≤ c.store.curDataInTxBuffer := by
      rw [UInt32.le_iff_toNat_le, data]
      omega
    show (c.store.curDataInTxBuffer - req.messageSize).toNat = _
    rw [UInt32.toNat_sub_of_le _ _ held]
    omega
  | start =>
    have now : inTransfer c = none := by rw [inTransfer, at']
    rw [now] at data
    exact data
  | requested =>
    rw [inTransfer_of_requested at'] at data
    exact data
  | outside =>
    have now : inTransfer c = none := by rw [inTransfer, at']
    rw [now] at data
    exact data
  | waiting req =>
    have now : inTransfer c = none := by rw [inTransfer, at']
    rw [now] at data
    exact data

theorem arrived_finite [DecidableEq κ] (r : NetPoint κ) (netif : NetworkInterface κ) :
    (Interface.arrived r netif).finiteBufferFlag = netif.finiteBufferFlag := by
  cases r <;> rfl

theorem arrived_queue [DecidableEq κ] (r : NetPoint κ) (netif : NetworkInterface κ) :
    (Interface.arrived r netif).sendQueue = netif.sendQueue := by
  cases r <;> rfl

/-- The transfer process moves a request from the queue to the transfer, or waits with neither. -/
theorem Balanced.netif [DecidableEq ι] [DecidableEq κ] {txBufferSize : UInt32}
    {c : NetConfig ι κ} (h : Balanced txBufferSize c) {r : NetPoint κ} {choice : NetChoice κ}
    {seg : Segment NetEvent (NetPoint κ) (NetworkInterface κ)}
    (resumes : (c.status .netif).resumable = some r)
    (ran : exec (.netif : NetProc ι) r choice c.now c.store = some seg) :
    Balanced txBufferSize ⟨seg.store, Function.update c.status .netif seg.status,
      seg.notified ++ c.pending, c.now⟩ := by
  obtain ⟨room, data⟩ := h.arrived (Status.resumable_point resumes)
  have finite : (Interface.arrived r c.store).finiteBufferFlag = true := by
    rw [arrived_finite, h.finite]
  rcases exec_netif ran with ⟨req, queue, d, found, rfl⟩ | ⟨empty, rfl⟩
  · have split := queuedLoad_dispatch found
    refine ⟨finite, ?_, ?_⟩
    · rw [load_eq, inTransfer_started]
      show (Interface.arrived r c.store).roomInTxBuffer.toNat +
        ((queue.map fun req => req.messageSize.toNat).sum + req.messageSize.toNat) = _
      omega
    · rw [load_eq, inTransfer_started]
      show (Interface.arrived r c.store).curDataInTxBuffer.toNat =
        (queue.map fun req => req.messageSize.toNat).sum + req.messageSize.toNat
      omega
  · have queue : queuedLoad (Interface.arrived r c.store) = queuedLoad c.store := by
      rw [queuedLoad, arrived_queue]
      rfl
    refine ⟨finite, ?_, ?_⟩
    · rw [load_eq, inTransfer_waits, queue]
      exact room
    · rw [load_eq, inTransfer_waits, queue]
      exact data

/-- A request that does not fit finds something queued or in transfer, if it fits an empty
buffer. -/
theorem Balanced.busy {txBufferSize : UInt32} {c : NetConfig ι κ} (h : Balanced txBufferSize c)
    {req : SendRequest κ} (size : req.messageSize ≤ txBufferSize)
    (full : c.store.roomInTxBuffer < req.messageSize) :
    c.store.sendQueue ≠ [] ∨ inTransfer c ≠ none := by
  by_contra idle
  push Not at idle
  have room := h.room
  have less := UInt32.lt_iff_toNat_lt.mp full
  have bound := UInt32.le_iff_toNat_le.mp size
  rw [load_eq, queuedLoad, idle.1, idle.2] at room
  simp only [List.map_nil, List.sum_nil, Option.map_none, Option.getD_none] at room
  omega

/-- Every update of the counters that a process can make next is exact: a request that is let in
takes its size out of the room, and a transfer that ends takes its size out of the data. -/
structure Unwrapped (c : NetConfig ι κ) : Prop where
  stored : ∀ req : SendRequest κ,
    ¬ (c.store.finiteBufferFlag = true ∧ c.store.roomInTxBuffer < req.messageSize) →
      req.messageSize.toNat ≤ c.store.roomInTxBuffer.toNat ∧
        c.store.curDataInTxBuffer.toNat + req.messageSize.toNat < 2 ^ 32
  completed : ∀ req, (c.status .netif).point = .transferred req →
    req.messageSize.toNat ≤ c.store.curDataInTxBuffer.toNat ∧
      c.store.roomInTxBuffer.toNat + req.messageSize.toNat < 2 ^ 32

theorem Balanced.unwrapped {txBufferSize : UInt32} {c : NetConfig ι κ}
    (h : Balanced txBufferSize c) : Unwrapped c where
  stored req free := by
    have fits := UInt32.le_iff_toNat_le.mp (h.fits free)
    have room := h.room
    have data := h.data
    have bound := txBufferSize.toNat_lt
    refine ⟨fits, ?_⟩
    omega
  completed req at' := by
    have room := h.room
    have data := h.data
    have bound := txBufferSize.toNat_lt
    rw [load_eq, inTransfer_of_transferred at', Option.map_some, Option.getD_some] at room data
    refine ⟨?_, ?_⟩ <;> omega

/-- In every state of every run the two counters add up to the buffer, the data are what is queued
and in transfer, and neither counter is about to wrap around. -/
theorem buffer_balanced [DecidableEq ι] [DecidableEq κ] {txBufferSize : UInt32}
    {schedule : List κ} {senders : List ι} (all : ∀ i, i ∈ senders) {labels : List (NetLabel ι κ)}
    {c : NetConfig ι κ}
    (reach : run (netSystem ι κ senders all).step (simulationStart txBufferSize schedule) labels
      = some c) :
    c.store.roomInTxBuffer.toNat + c.store.curDataInTxBuffer.toNat = txBufferSize.toNat ∧
      c.store.curDataInTxBuffer.toNat = load c ∧ Unwrapped c := by
  have keep : ∀ (c : NetConfig ι κ) (l : NetLabel ι κ) (c' : NetConfig ι κ),
      Balanced txBufferSize c → True → (netSystem ι κ senders all).step c l = some c' →
      Balanced txBufferSize c' := by
    apply System.keeps_of_steps
    · intro c p r choice seg h _ resumes ran
      cases p with
      | netif => exact h.netif resumes ran
      | sender i =>
        obtain ⟨req, notified, rfl, -⟩ := exec_sender ran
        exact h.requestLoop i req notified
    · intro c h _ _
      exact h.wake rfl Status.wake_point
    · intro c t h _ _ _ _
      exact h.wake rfl Status.wake_point
  have along : Along (netSystem ι κ senders all).step (fun _ _ => True)
      (simulationStart txBufferSize schedule) labels := along_of_forall fun _ _ => trivial
  have balanced := run_invariant keep (balanced_start txBufferSize schedule) along reach
  have room := balanced.room
  have data := balanced.data
  refine ⟨?_, data, balanced.unwrapped⟩
  omega

/-- The second message does not fit before the first one is out of the buffer. -/
def racingMessages : List (NetLabel Bool Unit) :=
  [.eval .netif (.delay 0), .eval (.sender false) (.send () 6), .eval (.sender true) (.send () 6),
    .delta, .eval .netif (.delay 5), .delta, .eval (.sender true) (.delay 0), .advance 5,
    .eval .netif (.delay 0)]

theorem racingMessages_balanced :
    ∃ c, run twoSenders.step (simulationStart 10 []) racingMessages = some c ∧
      c.store.roomInTxBuffer.toNat + c.store.curDataInTxBuffer.toNat = 10 ∧
      c.store.curDataInTxBuffer.toNat = load c ∧ Unwrapped c := by
  have defined : (run twoSenders.step (simulationStart 10 []) racingMessages).isSome = true := by
    decide +kernel
  obtain ⟨c, reach⟩ := Option.isSome_iff_exists.mp defined
  exact ⟨c, reach, buffer_balanced (by decide) reach⟩

end Kista.Network.Accounting
