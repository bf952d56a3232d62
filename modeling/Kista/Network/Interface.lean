/- Kista/Network/Interface
   source: src/src/network_interface.cpp, network_interface.hpp, types.hpp
   digest: The network interface of a processing element as a system of processes: any number
   of senders, one transfer process, one send queue and a transmit buffer. -/

import Mathlib.Data.List.Basic
import Kista.Kernel.Delta

set_option autoImplicit false
set_option relaxedAutoImplicit false

/-!
A channel stands for its logic link and for the semaphore that counts its completed
transactions. The delay of a transfer is computed by the communication resource, so it is
a choice of the environment here.
-/

namespace Kista.Network.Interface

open Kernel.Delta

structure SendRequest (κ : Type) where
  logicLink : κ
  messageSize : UInt32
  requestTime : ℕ

structure NetworkInterface (κ : Type) where
  finiteBufferFlag : Bool
  txBufferSize : UInt32
  curDataInTxBuffer : UInt32
  roomInTxBuffer : UInt32
  sendQueue : List (SendRequest κ)
  staticCommSchedule : List κ
  completedTransactions : κ → ℕ

inductive NetEvent where
  | sendRequestEv
  | sendRequestCompleted
  deriving DecidableEq

inductive NetProc (ι : Type) where
  | netif
  | sender (i : ι)
  deriving DecidableEq

/-- Where a process resumes: the transfer process after each of its waits, a sender outside
any call or inside the loop that waits for room. -/
inductive NetPoint (κ : Type) where
  | start
  | requested
  | transferred (req : SendRequest κ)
  | outside
  | waiting (req : SendRequest κ)

inductive NetChoice (κ : Type) where
  | send (logicLink : κ) (messageSize : UInt32)
  | delay (commDelay : ℕ)

variable {ι κ : Type}

/-- The constructor with an infinite buffer. -/
def networkInterface (staticCommSchedule : List κ) (completedTransactions : κ → ℕ) :
    NetworkInterface κ where
  finiteBufferFlag := false
  txBufferSize := 0
  curDataInTxBuffer := 0
  roomInTxBuffer := 0
  sendQueue := []
  staticCommSchedule := staticCommSchedule
  completedTransactions := completedTransactions

def setTxBufferSize (netif : NetworkInterface κ) (txBufferSize : UInt32) : NetworkInterface κ :=
  { netif with
    finiteBufferFlag := true
    txBufferSize := txBufferSize
    curDataInTxBuffer := 0
    roomInTxBuffer := txBufferSize }

/-- `multimap::insert`: behind the requests of the same time. -/
def insertRequest (req : SendRequest κ) : List (SendRequest κ) → List (SendRequest κ)
  | [] => [req]
  | head :: rest =>
    if req.requestTime < head.requestTime then req :: head :: rest
    else head :: insertRequest req rest

/-- The first synchronous request of a link, and the queue without it. -/
def takeLink [DecidableEq κ] (link : κ) (time : ℕ) :
    List (SendRequest κ) → Option (SendRequest κ × List (SendRequest κ))
  | [] => none
  | head :: rest =>
    if head.requestTime = time then
      if head.logicLink = link then some (head, rest)
      else (takeLink link time rest).map fun found => (found.1, head :: found.2)
    else none

/-- `static_comm_dispatch`: the first link of the schedule that has a synchronous request. -/
def staticCommDispatch [DecidableEq κ] (time : ℕ) (queue : List (SendRequest κ)) :
    List κ → Option (SendRequest κ × List (SendRequest κ))
  | [] => none
  | link :: schedule => (takeLink link time queue).or (staticCommDispatch time queue schedule)

/-- `none` is the reported error: an empty queue, or synchronous requests none of which is in
the static schedule. -/
def dispatch [DecidableEq κ] (schedule : List κ) :
    List (SendRequest κ) → Option (SendRequest κ × List (SendRequest κ))
  | [] => none
  | [req] => some (req, [])
  | first :: second :: rest =>
    if first.requestTime = second.requestTime ∧ schedule ≠ [] then
      staticCommDispatch first.requestTime (first :: second :: rest) schedule
    else some (first, second :: rest)

/-- The end of `request_sending`. -/
def store (netif : NetworkInterface κ) (req : SendRequest κ) : NetworkInterface κ :=
  { netif with
    sendQueue := insertRequest req netif.sendQueue
    roomInTxBuffer := netif.roomInTxBuffer - req.messageSize
    curDataInTxBuffer := netif.curDataInTxBuffer + req.messageSize }

/-- The loop of `request_sending` that waits for room, from each of its tests. -/
def requestLoop (netif : NetworkInterface κ) (req : SendRequest κ) (notified : List NetEvent) :
    Segment NetEvent (NetPoint κ) (NetworkInterface κ) :=
  if netif.finiteBufferFlag = true ∧ netif.roomInTxBuffer < req.messageSize then
    ⟨netif, notified, .blocked [.sendRequestCompleted] none (.waiting req)⟩
  else ⟨store netif req, notified, .free .outside⟩

/-- The end of a transfer. -/
def complete [DecidableEq κ] (netif : NetworkInterface κ) (req : SendRequest κ) :
    NetworkInterface κ :=
  { netif with
    completedTransactions := Function.update netif.completedTransactions req.logicLink
      (netif.completedTransactions req.logicLink + 1)
    roomInTxBuffer := netif.roomInTxBuffer + req.messageSize
    curDataInTxBuffer := netif.curDataInTxBuffer - req.messageSize }

/-- The senders are notified when a request is dispatched, before its transfer. -/
def startTransfer [DecidableEq κ] (netif : NetworkInterface κ) (now commDelay : ℕ) :
    Option (Segment NetEvent (NetPoint κ) (NetworkInterface κ)) :=
  (dispatch netif.staticCommSchedule netif.sendQueue).map fun (req, queue) =>
    ⟨{ netif with sendQueue := queue }, [.sendRequestCompleted],
      .blocked [] (some (now + commDelay)) (.transferred req)⟩

/-- The body of the loop of `network_interface_proc`. -/
def networkInterfaceLoop [DecidableEq κ] (netif : NetworkInterface κ) (now commDelay : ℕ) :
    Option (Segment NetEvent (NetPoint κ) (NetworkInterface κ)) :=
  if netif.sendQueue.length = 0 then
    some ⟨netif, [], .blocked [.sendRequestEv] none .requested⟩
  else startTransfer netif now commDelay

def exec [DecidableEq κ] : NetProc ι → NetPoint κ → NetChoice κ → ℕ → NetworkInterface κ →
    Option (Segment NetEvent (NetPoint κ) (NetworkInterface κ))
  | .netif, .start, .delay d, now, netif => networkInterfaceLoop netif now d
  | .netif, .requested, .delay d, now, netif => startTransfer netif now d
  | .netif, .transferred req, .delay d, now, netif =>
    networkInterfaceLoop (complete netif req) now d
  | .sender _, .outside, .send link size, now, netif =>
    some (requestLoop netif ⟨link, size, now⟩ [.sendRequestEv])
  | .sender _, .waiting req, _, _, netif => some (requestLoop netif req [])
  | _, _, _, _, _ => none

def netSystem (ι κ : Type) [DecidableEq κ] (senders : List ι)
    (all : ∀ i, i ∈ senders) :
    System (NetProc ι) NetEvent (NetPoint κ) (NetworkInterface κ) (NetChoice κ) where
  procs := .netif :: senders.map .sender
  complete p := by
    cases p with
    | netif => exact List.mem_cons_self
    | sender i => exact List.mem_cons_of_mem _ (List.mem_map_of_mem (all i))
  exec := exec
  update netif := netif
  edge _ _ := false
  dirty _ := false

theorem insertRequest_perm (req : SendRequest κ) (queue : List (SendRequest κ)) :
    (insertRequest req queue).Perm (req :: queue) := by
  induction queue with
  | nil => exact List.Perm.refl _
  | cons head rest ih =>
    simp only [insertRequest]
    split
    · exact List.Perm.refl _
    · exact (ih.cons head).trans (List.Perm.swap _ _ _)

theorem insertRequest_ne_nil (req : SendRequest κ) (queue : List (SendRequest κ)) :
    insertRequest req queue ≠ [] := by
  intro empty
  have perm := insertRequest_perm req queue
  rw [empty] at perm
  exact List.cons_ne_nil _ _ perm.symm.eq_nil

theorem takeLink_perm [DecidableEq κ] {link : κ} {time : ℕ} {queue rest : List (SendRequest κ)}
    {req : SendRequest κ} (found : takeLink link time queue = some (req, rest)) :
    queue.Perm (req :: rest) := by
  induction queue generalizing rest with
  | nil => cases found
  | cons head tail ih =>
    unfold takeLink at found
    split at found
    · split at found
      · cases found
        exact List.Perm.refl _
      · obtain ⟨⟨req', rest'⟩, later, same⟩ := Option.map_eq_some_iff.mp found
        cases same
        exact ((ih later).cons head).trans (List.Perm.swap _ _ _)
    · cases found

theorem staticCommDispatch_perm [DecidableEq κ] {schedule : List κ} {time : ℕ}
    {queue rest : List (SendRequest κ)} {req : SendRequest κ}
    (found : staticCommDispatch time queue schedule = some (req, rest)) :
    queue.Perm (req :: rest) := by
  induction schedule with
  | nil => cases found
  | cons link schedule ih =>
    rcases Option.or_eq_some_iff.mp found with here | ⟨-, later⟩
    · exact takeLink_perm here
    · exact ih later

/-- A dispatch takes one request out of the queue and leaves the others. -/
theorem dispatch_perm [DecidableEq κ] {schedule : List κ} {queue rest : List (SendRequest κ)}
    {req : SendRequest κ} (found : dispatch schedule queue = some (req, rest)) :
    queue.Perm (req :: rest) := by
  rcases queue with _ | ⟨first, _ | ⟨second, queue⟩⟩
  · cases found
  · cases found
    exact List.Perm.refl _
  · simp only [dispatch] at found
    split at found
    · exact staticCommDispatch_perm found
    · cases found
      exact List.Perm.refl _

/-- The interface as the transfer process finds it when it resumes. -/
def arrived [DecidableEq κ] : NetPoint κ → NetworkInterface κ → NetworkInterface κ
  | .transferred req, netif => complete netif req
  | _, netif => netif

/-- The transfer process either starts a transfer or waits for a request with an empty queue. -/
theorem exec_netif [DecidableEq κ] {r : NetPoint κ} {choice : NetChoice κ} {now : ℕ}
    {netif : NetworkInterface κ} {seg : Segment NetEvent (NetPoint κ) (NetworkInterface κ)}
    (ran : exec (.netif : NetProc ι) r choice now netif = some seg) :
    (∃ req queue d, dispatch netif.staticCommSchedule netif.sendQueue = some (req, queue) ∧
      seg = ⟨{ arrived r netif with sendQueue := queue }, [.sendRequestCompleted],
        .blocked [] (some (now + d)) (.transferred req)⟩) ∨
    netif.sendQueue = [] ∧
      seg = ⟨arrived r netif, [], .blocked [.sendRequestEv] none .requested⟩ := by
  have loop : ∀ d, (arrived r netif).sendQueue = netif.sendQueue →
      (arrived r netif).staticCommSchedule = netif.staticCommSchedule →
      networkInterfaceLoop (arrived r netif) now d = some seg →
      (∃ req queue d, dispatch netif.staticCommSchedule netif.sendQueue = some (req, queue) ∧
        seg = ⟨{ arrived r netif with sendQueue := queue }, [.sendRequestCompleted],
          .blocked [] (some (now + d)) (.transferred req)⟩) ∨
      netif.sendQueue = [] ∧
        seg = ⟨arrived r netif, [], .blocked [.sendRequestEv] none .requested⟩ := by
    intro d sameQueue sameSchedule ran
    unfold networkInterfaceLoop at ran
    split at ran
    · rename_i empty
      rw [sameQueue] at empty
      right
      exact ⟨List.length_eq_zero_iff.mp empty, (Option.some.inj ran).symm⟩
    · obtain ⟨⟨req, queue⟩, found, rfl⟩ := Option.map_eq_some_iff.mp ran
      rw [sameQueue, sameSchedule] at found
      left
      exact ⟨req, queue, d, found, rfl⟩
  cases choice with
  | send link size => cases r <;> cases ran
  | delay d =>
    cases r with
    | start => exact loop d rfl rfl ran
    | requested =>
      obtain ⟨⟨req, queue⟩, found, rfl⟩ := Option.map_eq_some_iff.mp ran
      left
      exact ⟨req, queue, d, found, rfl⟩
    | transferred req => exact loop d rfl rfl ran
    | outside => cases ran
    | waiting req => cases ran

/-- A sender tests the room for a new request, which it has just announced, or for the one it
waits with. -/
theorem exec_sender [DecidableEq κ] {i : ι} {r : NetPoint κ} {choice : NetChoice κ} {now : ℕ}
    {netif : NetworkInterface κ} {seg : Segment NetEvent (NetPoint κ) (NetworkInterface κ)}
    (ran : exec (.sender i) r choice now netif = some seg) :
    ∃ req notified, seg = requestLoop netif req notified ∧
      (r = .waiting req ∧ notified = [] ∨
        r = .outside ∧ choice = .send req.logicLink req.messageSize ∧ req.requestTime = now) := by
  cases r with
  | outside =>
    cases choice with
    | delay d => cases ran
    | send link size =>
      exact ⟨⟨link, size, now⟩, [.sendRequestEv], (Option.some.inj ran).symm,
        .inr ⟨rfl, rfl, rfl⟩⟩
  | waiting req => exact ⟨req, [], (Option.some.inj ran).symm, .inl ⟨rfl, rfl⟩⟩
  | start => cases ran
  | requested => cases ran
  | transferred req => cases ran

/-- A request is stored unless the buffer is finite and has no room for it. -/
theorem requestLoop_cases (netif : NetworkInterface κ) (req : SendRequest κ)
    (notified : List NetEvent) :
    (netif.finiteBufferFlag = true ∧ netif.roomInTxBuffer < req.messageSize) ∧
        requestLoop netif req notified =
          ⟨netif, notified, .blocked [.sendRequestCompleted] none (.waiting req)⟩ ∨
      ¬ (netif.finiteBufferFlag = true ∧ netif.roomInTxBuffer < req.messageSize) ∧
        requestLoop netif req notified = ⟨store netif req, notified, .free .outside⟩ := by
  by_cases full : netif.finiteBufferFlag = true ∧ netif.roomInTxBuffer < req.messageSize
  · left
    exact ⟨full, if_pos full⟩
  · right
    exact ⟨full, if_neg full⟩

section Processes

variable [DecidableEq ι] (status : NetProc ι → Status NetEvent (NetPoint κ))
  (s : Status NetEvent (NetPoint κ)) (i : ι)

theorem update_sender_netif : Function.update status (.sender i) s .netif = status .netif :=
  Function.update_of_ne (by simp) _ _

theorem update_netif_sender : Function.update status .netif s (.sender i) = status (.sender i) :=
  Function.update_of_ne (by simp) _ _

end Processes

end Kista.Network.Interface
