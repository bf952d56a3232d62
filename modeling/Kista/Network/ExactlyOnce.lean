/- Kista/Network/ExactlyOnce
   source: src/src/network_interface.cpp, network_interface.hpp
   digest: Every request that enters the send queue is transferred and posted once, in the order
   of the request times and of the static schedule. -/

import Mathlib.Data.List.Count
import Kista.Network.EmptyDispatch
import Kista.Network.SendOrder

set_option autoImplicit false
set_option relaxedAutoImplicit false

namespace Kista.Network.ExactlyOnce

open Kernel.Delta Kernel.Run Interface Stranding Accounting EmptyDispatch SendOrder

variable {ι κ : Type}

/-- The requests that entered the queue, left it and were served, in the order of these events. -/
structure History (κ : Type) where
  queued : List (SendRequest κ)
  dispatched : List (SendRequest κ)
  served : List (SendRequest κ)

def noHistory : History κ := ⟨[], [], []⟩

/-- The request of the call that a sender makes or is in. -/
def offered (c : NetConfig ι κ) (i : ι) (choice : NetChoice κ) : Option (SendRequest κ) :=
  match (c.status (.sender i)).point, choice with
  | .outside, .send link size => some ⟨link, size, c.now⟩
  | .waiting req, _ => some req
  | _, _ => none

/-- `request_sending` returns when its request is in the queue. -/
def returned (c c' : NetConfig ι κ) (i : ι) (choice : NetChoice κ) : Option (SendRequest κ) :=
  match c'.status (.sender i) with
  | .free _ => offered c i choice
  | _ => none

def note (c : NetConfig ι κ) : NetLabel ι κ → NetConfig ι κ → History κ → History κ
  | .eval .netif _, c', h =>
    { h with
      dispatched := h.dispatched ++ (inTransfer c').toList
      served := h.served ++ (inTransfer c).toList }
  | .eval (.sender i) choice, c', h =>
    { h with queued := h.queued ++ (returned c c' i choice).toList }
  | .delta, _, h => h
  | .advance _, _, h => h

/-- A static schedule, if there is one, lists the links of the requests. -/
def Listed (schedule : List κ) : NetLabel ι κ → Prop
  | .eval (.sender _) (.send link _) => schedule ≠ [] → link ∈ schedule
  | _ => True

/-- Every request is queued, in transfer or served, and its link is posted once when served. -/
structure Counted [DecidableEq κ] (c : NetConfig ι κ) (h : History κ) : Prop where
  queued : h.queued.Perm (h.dispatched ++ c.store.sendQueue)
  dispatched : h.dispatched = h.served ++ (inTransfer c).toList
  posted : ∀ link, c.store.completedTransactions link =
    h.served.countP fun req => req.logicLink = link

structure Scheduled (schedule : List κ) (c : NetConfig ι κ) : Prop where
  given : c.store.staticCommSchedule = schedule
  sorted : InOrder c.store.sendQueue
  listed : schedule ≠ [] → ∀ req ∈ c.store.sendQueue, req.logicLink ∈ schedule
  waiting : schedule ≠ [] → ∀ i req, (c.status (.sender i)).point = .waiting req →
    req.logicLink ∈ schedule

/-- Over an infinite buffer no call waits, and the requests leave in the order of their times. -/
structure InTurn (c : NetConfig ι κ) (h : History κ) : Prop where
  infinite : c.store.finiteBufferFlag = false
  unblocked : ∀ i req, (c.status (.sender i)).point ≠ .waiting req
  past : ∀ req ∈ h.dispatched ++ c.store.sendQueue, req.requestTime ≤ c.now
  sorted : InOrder (h.dispatched ++ c.store.sendQueue)

structure Orderly [DecidableEq κ] (buffer : Option UInt32) (schedule : List κ)
    (c : NetConfig ι κ) (h : History κ) : Prop where
  scheduled : Scheduled schedule c
  counted : Counted c h
  turn : buffer = none → InTurn c h

instance (schedule : List κ) [DecidableEq κ] : (l : NetLabel ι κ) → Decidable (Listed schedule l)
  | .eval (.sender _) (.send link _) =>
    inferInstanceAs (Decidable (schedule ≠ [] → link ∈ schedule))
  | .eval (.sender _) (.delay _) => inferInstanceAs (Decidable True)
  | .eval .netif _ => inferInstanceAs (Decidable True)
  | .delta => inferInstanceAs (Decidable True)
  | .advance _ => inferInstanceAs (Decidable True)

variable [DecidableEq κ]

theorem counted_start (schedule : List κ) (buffer : Option UInt32) :
    Counted (bufferStart schedule buffer : NetConfig ι κ) noHistory := by
  cases buffer <;> exact ⟨List.Perm.refl _, rfl, fun link => rfl⟩

omit [DecidableEq κ] in
theorem scheduled_start (schedule : List κ) (buffer : Option UInt32) :
    Scheduled schedule (bufferStart schedule buffer : NetConfig ι κ) := by
  cases buffer <;> exact ⟨rfl, List.Pairwise.nil, nofun, nofun⟩

omit [DecidableEq κ] in
theorem inTurn_start (schedule : List κ) :
    InTurn (bufferStart schedule none : NetConfig ι κ) noHistory :=
  ⟨rfl, nofun, nofun, List.Pairwise.nil⟩

/-- A sender blocks for room with its request, or returns with the request in the queue. -/
theorem exec_sender_offered {c : NetConfig ι κ} {i : ι} {r : NetPoint κ} {choice : NetChoice κ}
    {seg : Segment NetEvent (NetPoint κ) (NetworkInterface κ)}
    (resumes : (c.status (.sender i)).resumable = some r)
    (ran : exec (.sender i) r choice c.now c.store = some seg) :
    ∃ req notified, offered c i choice = some req ∧
      (r = .waiting req ∨ r = .outside ∧ choice = .send req.logicLink req.messageSize ∧
        req.requestTime = c.now) ∧
      (c.store.finiteBufferFlag = true ∧
          seg = ⟨c.store, notified, .blocked [.sendRequestCompleted] none (.waiting req)⟩ ∨
        seg = ⟨store c.store req, notified, .free .outside⟩) := by
  obtain ⟨req, notified, rfl, from'⟩ := exec_sender ran
  have at' := Status.resumable_point resumes
  refine ⟨req, notified, ?_, ?_, ?_⟩
  · rcases from' with ⟨rfl, -⟩ | ⟨rfl, rfl, made⟩
    · simp only [offered, at']
    · simp only [offered, at', ← made]
  · rcases from' with ⟨rfl, -⟩ | outside
    · exact .inl rfl
    · exact .inr outside
  · rcases requestLoop_cases c.store req notified with ⟨full, blocks⟩ | ⟨-, stores⟩
    · exact .inl ⟨full.1, blocks⟩
    · exact .inr stores

variable [DecidableEq ι]

omit [DecidableEq κ] in
theorem returned_free (c : NetConfig ι κ) (i : ι) (choice : NetChoice κ)
    (netif : NetworkInterface κ) (pending : List NetEvent) :
    returned c ⟨netif, Function.update c.status (.sender i) (.free .outside), pending, c.now⟩ i
      choice = offered c i choice := by
  simp [returned]

omit [DecidableEq κ] in
theorem returned_blocked (c : NetConfig ι κ) (i : ι) (choice : NetChoice κ) (req : SendRequest κ)
    (netif : NetworkInterface κ) (pending : List NetEvent) :
    returned c ⟨netif, Function.update c.status (.sender i)
      (.blocked [.sendRequestCompleted] none (.waiting req)), pending, c.now⟩ i choice = none := by
  simp [returned]

/-- A request that is put in the queue is noted once. -/
theorem Counted.sender {c : NetConfig ι κ} {h : History κ} (counted : Counted c h) {i : ι}
    {r : NetPoint κ} {choice : NetChoice κ}
    {seg : Segment NetEvent (NetPoint κ) (NetworkInterface κ)}
    (resumes : (c.status (.sender i)).resumable = some r)
    (ran : exec (.sender i) r choice c.now c.store = some seg) :
    Counted ⟨seg.store, Function.update c.status (.sender i) seg.status,
        seg.notified ++ c.pending, c.now⟩
      (note c (.eval (.sender i) choice) ⟨seg.store, Function.update c.status (.sender i)
        seg.status, seg.notified ++ c.pending, c.now⟩ h) := by
  obtain ⟨req, notified, offers, -, ⟨-, rfl⟩ | rfl⟩ := exec_sender_offered resumes ran
  · refine ⟨?_, ?_, counted.posted⟩
    · rw [note, returned_blocked, Option.toList_none, List.append_nil]
      exact counted.queued
    · rw [inTransfer_sender]
      exact counted.dispatched
  · refine ⟨?_, ?_, counted.posted⟩
    · rw [note, returned_free, offers, Option.toList_some]
      show (h.queued ++ [req]).Perm (h.dispatched ++ insertRequest req c.store.sendQueue)
      calc
        List.Perm (h.queued ++ [req]) (req :: h.queued) := List.perm_append_singleton _ _
        List.Perm _ (req :: (h.dispatched ++ c.store.sendQueue)) := counted.queued.cons req
        List.Perm _ (h.dispatched ++ req :: c.store.sendQueue) := List.perm_middle.symm
        List.Perm _ (h.dispatched ++ insertRequest req c.store.sendQueue) :=
          (insertRequest_perm req _).symm.append_left _
    · rw [inTransfer_sender]
      exact counted.dispatched

omit [DecidableEq ι] in
/-- When the transfer process resumes it posts for the transfer that has ended. -/
theorem Counted.posted_arrived {c : NetConfig ι κ} {h : History κ} (counted : Counted c h)
    {r : NetPoint κ} (at' : (c.status .netif).point = r) (link : κ) :
    (arrived r c.store).completedTransactions link =
      (h.served ++ (inTransfer c).toList).countP fun req => req.logicLink = link := by
  rw [List.countP_append, ← counted.posted link]
  cases r with
  | transferred req =>
    rw [inTransfer_of_transferred at', Option.toList_some, List.countP_singleton]
    by_cases same : req.logicLink = link
    · simp [arrived, complete, same]
    · simp [arrived, complete, same, Function.update_of_ne (Ne.symm same)]
  | start => simp [arrived, inTransfer, at']
  | requested => simp [arrived, inTransfer, at']
  | outside => simp [arrived, inTransfer, at']
  | waiting req => simp [arrived, inTransfer, at']

/-- A finished transfer is posted, and a dispatch goes from the queue to the transfer. -/
theorem Counted.netif {c : NetConfig ι κ} {h : History κ} (counted : Counted c h)
    {r : NetPoint κ} {choice : NetChoice κ}
    {seg : Segment NetEvent (NetPoint κ) (NetworkInterface κ)}
    (resumes : (c.status .netif).resumable = some r)
    (ran : exec (.netif : NetProc ι) r choice c.now c.store = some seg) :
    Counted ⟨seg.store, Function.update c.status .netif seg.status,
        seg.notified ++ c.pending, c.now⟩
      (note c (.eval .netif choice) ⟨seg.store, Function.update c.status .netif seg.status,
        seg.notified ++ c.pending, c.now⟩ h) := by
  have posted := counted.posted_arrived (Status.resumable_point resumes)
  have served : h.served ++ (inTransfer c).toList = h.dispatched := counted.dispatched.symm
  rcases exec_netif ran with ⟨req, queue, d, found, rfl⟩ | ⟨empty, rfl⟩
  · refine ⟨?_, ?_, posted⟩
    · show h.queued.Perm (h.dispatched ++ (inTransfer _).toList ++ queue)
      rw [inTransfer_started, Option.toList_some, List.append_assoc, List.singleton_append]
      exact counted.queued.trans ((dispatch_perm found).append_left _)
    · show h.dispatched ++ (inTransfer _).toList = (h.served ++ (inTransfer c).toList) ++ _
      rw [served]
  · refine ⟨?_, ?_, posted⟩
    · show h.queued.Perm (h.dispatched ++ (inTransfer _).toList ++ (arrived r c.store).sendQueue)
      rw [inTransfer_waits, Option.toList_none, List.append_nil, arrived_queue]
      exact counted.queued
    · show h.dispatched ++ (inTransfer _).toList = (h.served ++ (inTransfer c).toList) ++ _
      rw [served]

omit [DecidableEq ι] in
theorem Counted.wake {c c' : NetConfig ι κ} {h : History κ} (counted : Counted c h)
    (store : c'.store = c.store) (point : (c'.status .netif).point = (c.status .netif).point) :
    Counted c' h := by
  refine ⟨?_, ?_, ?_⟩
  · rw [store]
    exact counted.queued
  · rw [inTransfer_congr point]
    exact counted.dispatched
  · rw [store]
    exact counted.posted

omit [DecidableEq ι] in
theorem arrived_schedule (r : NetPoint κ) (netif : NetworkInterface κ) :
    (arrived r netif).staticCommSchedule = netif.staticCommSchedule := by
  cases r <;> rfl

theorem Scheduled.sender {schedule : List κ} {c : NetConfig ι κ} (h : Scheduled schedule c) {i : ι}
    {r : NetPoint κ} {choice : NetChoice κ}
    {seg : Segment NetEvent (NetPoint κ) (NetworkInterface κ)}
    (lists : Listed schedule (.eval (.sender i) choice : NetLabel ι κ))
    (resumes : (c.status (.sender i)).resumable = some r)
    (ran : exec (.sender i) r choice c.now c.store = some seg) :
    Scheduled schedule ⟨seg.store, Function.update c.status (.sender i) seg.status,
      seg.notified ++ c.pending, c.now⟩ := by
  obtain ⟨req, notified, -, from', moved⟩ := exec_sender_offered resumes ran
  have link : schedule ≠ [] → req.logicLink ∈ schedule := by
    intro scheduled
    rcases from' with rfl | ⟨-, rfl, -⟩
    · exact h.waiting scheduled i req (Status.resumable_point resumes)
    · exact lists scheduled
  rcases moved with ⟨-, rfl⟩ | rfl
  · refine ⟨h.given, h.sorted, h.listed, ?_⟩
    intro scheduled j req' waits
    by_cases same : j = i
    · subst same
      simp only [Function.update_self, Status.point, NetPoint.waiting.injEq] at waits
      exact waits ▸ link scheduled
    · exact h.waiting scheduled j req' (by simpa [same] using waits)
  · refine ⟨h.given, h.sorted.insertRequest req, ?_, ?_⟩
    · intro scheduled other mem
      rcases mem_insertRequest.mp mem with rfl | queued
      · exact link scheduled
      · exact h.listed scheduled other queued
    · intro scheduled j req' waits
      by_cases same : j = i
      · subst same
        simp [Status.point] at waits
      · exact h.waiting scheduled j req' (by simpa [same] using waits)

theorem Scheduled.netif {schedule : List κ} {c : NetConfig ι κ} (h : Scheduled schedule c)
    {r : NetPoint κ} {choice : NetChoice κ}
    {seg : Segment NetEvent (NetPoint κ) (NetworkInterface κ)}
    (ran : exec (.netif : NetProc ι) r choice c.now c.store = some seg) :
    Scheduled schedule ⟨seg.store, Function.update c.status .netif seg.status,
      seg.notified ++ c.pending, c.now⟩ := by
  have waiting : schedule ≠ [] → ∀ i req,
      (Function.update c.status .netif seg.status (.sender i)).point = .waiting req →
        req.logicLink ∈ schedule := by
    intro scheduled i req waits
    exact h.waiting scheduled i req (update_netif_sender c.status seg.status i ▸ waits)
  rcases exec_netif ran with ⟨req, queue, d, found, rfl⟩ | ⟨empty, rfl⟩
  · have serves := serves_of_dispatch h.sorted found
    refine ⟨?_, h.sorted.sublist serves.kept, ?_, waiting⟩
    · exact (arrived_schedule r c.store).trans h.given
    · intro scheduled other mem
      exact h.listed scheduled other (serves.kept.subset mem)
  · refine ⟨(arrived_schedule r c.store).trans h.given, ?_, ?_, waiting⟩
    · show InOrder (arrived r c.store).sendQueue
      rw [arrived_queue]
      exact h.sorted
    · show schedule ≠ [] → ∀ req ∈ (arrived r c.store).sendQueue, _
      rw [arrived_queue]
      exact h.listed

omit [DecidableEq ι] [DecidableEq κ] in
theorem Scheduled.wake {schedule : List κ} {c c' : NetConfig ι κ} (h : Scheduled schedule c)
    (store : c'.store = c.store) (points : ∀ p, (c'.status p).point = (c.status p).point) :
    Scheduled schedule c' := by
  refine ⟨?_, ?_, ?_, ?_⟩
  · rw [store]
    exact h.given
  · rw [store]
    exact h.sorted
  · rw [store]
    exact h.listed
  · intro scheduled i req waits
    exact h.waiting scheduled i req ((points _).symm.trans waits)

/-- Over an infinite buffer a request enters the queue when it is made, behind the others. -/
theorem InTurn.sender {c : NetConfig ι κ} {h : History κ} (turn : InTurn c h) {i : ι}
    {r : NetPoint κ} {choice : NetChoice κ}
    {seg : Segment NetEvent (NetPoint κ) (NetworkInterface κ)}
    (resumes : (c.status (.sender i)).resumable = some r)
    (ran : exec (.sender i) r choice c.now c.store = some seg) :
    InTurn ⟨seg.store, Function.update c.status (.sender i) seg.status,
        seg.notified ++ c.pending, c.now⟩
      (note c (.eval (.sender i) choice) ⟨seg.store, Function.update c.status (.sender i)
        seg.status, seg.notified ++ c.pending, c.now⟩ h) := by
  obtain ⟨req, notified, -, from', ⟨finite, -⟩ | rfl⟩ := exec_sender_offered resumes ran
  · rw [turn.infinite] at finite
    cases finite
  · have made : req.requestTime = c.now := by
      rcases from' with rfl | ⟨-, -, made⟩
      · exact absurd (Status.resumable_point resumes) (turn.unblocked i req)
      · exact made
    have last : insertRequest req c.store.sendQueue = c.store.sendQueue ++ [req] := by
      apply insertRequest_of_latest
      intro other mem
      rw [made]
      exact turn.past other (List.mem_append_right _ mem)
    refine ⟨turn.infinite, ?_, ?_, ?_⟩
    · intro j req' waits
      by_cases same : j = i
      · subst same
        simp [Status.point] at waits
      · exact turn.unblocked j req' (by simpa [same] using waits)
    · show ∀ other ∈ h.dispatched ++ insertRequest req c.store.sendQueue, _
      rw [last, ← List.append_assoc]
      intro other mem
      rcases List.mem_append.mp mem with before | new
      · exact turn.past other before
      · rw [List.mem_singleton.mp new]
        exact made.le
    · show InOrder (h.dispatched ++ insertRequest req c.store.sendQueue)
      rw [last, ← List.append_assoc]
      refine List.pairwise_append.mpr ⟨turn.sorted, List.pairwise_singleton _ _, ?_⟩
      intro other before new mem
      rw [List.mem_singleton.mp mem, made]
      exact turn.past other before

theorem InTurn.netif {c : NetConfig ι κ} {h : History κ} (turn : InTurn c h)
    {r : NetPoint κ} {choice : NetChoice κ}
    {seg : Segment NetEvent (NetPoint κ) (NetworkInterface κ)}
    (ran : exec (.netif : NetProc ι) r choice c.now c.store = some seg) :
    InTurn ⟨seg.store, Function.update c.status .netif seg.status,
        seg.notified ++ c.pending, c.now⟩
      (note c (.eval .netif choice) ⟨seg.store, Function.update c.status .netif seg.status,
        seg.notified ++ c.pending, c.now⟩ h) := by
  have infinite : (arrived r c.store).finiteBufferFlag = false := by
    rw [arrived_finite, turn.infinite]
  have unblocked : ∀ i req,
      (Function.update c.status .netif seg.status (.sender i)).point ≠ .waiting req := by
    intro i req waits
    exact turn.unblocked i req (update_netif_sender c.status seg.status i ▸ waits)
  rcases exec_netif ran with ⟨req, queue, d, found, rfl⟩ | ⟨empty, rfl⟩
  · have serves := serves_of_dispatch (List.pairwise_append.mp turn.sorted).2.1 found
    refine ⟨infinite, unblocked, ?_, ?_⟩
    · show ∀ other ∈ h.dispatched ++ (inTransfer _).toList ++ queue, _
      rw [inTransfer_started, Option.toList_some, List.append_assoc, List.singleton_append]
      intro other mem
      exact turn.past other ((serves.taken.append_left _).mem_iff.mpr mem)
    · show InOrder (h.dispatched ++ (inTransfer _).toList ++ queue)
      rw [inTransfer_started]
      exact serves.inOrder turn.sorted
  · refine ⟨infinite, unblocked, ?_, ?_⟩
    · show ∀ other ∈ h.dispatched ++ (inTransfer _).toList ++ (arrived r c.store).sendQueue, _
      rw [inTransfer_waits, Option.toList_none, List.append_nil, arrived_queue]
      exact turn.past
    · show InOrder (h.dispatched ++ (inTransfer _).toList ++ (arrived r c.store).sendQueue)
      rw [inTransfer_waits, Option.toList_none, List.append_nil, arrived_queue]
      exact turn.sorted

omit [DecidableEq ι] [DecidableEq κ] in
theorem InTurn.wake {c c' : NetConfig ι κ} {h : History κ} (turn : InTurn c h)
    (store : c'.store = c.store) (points : ∀ p, (c'.status p).point = (c.status p).point)
    (later : c.now ≤ c'.now) : InTurn c' h := by
  refine ⟨?_, ?_, ?_, ?_⟩
  · rw [store]
    exact turn.infinite
  · intro i req waits
    exact turn.unblocked i req ((points _).symm.trans waits)
  · rw [store]
    intro req mem
    exact (turn.past req mem).trans later
  · rw [store]
    exact turn.sorted

omit [DecidableEq ι] in
theorem orderly_start (buffer : Option UInt32) (schedule : List κ) :
    Orderly buffer schedule (bufferStart schedule buffer : NetConfig ι κ) noHistory := by
  refine ⟨scheduled_start schedule buffer, counted_start schedule buffer, ?_⟩
  rintro rfl
  exact inTurn_start schedule

/-- What one step preserves. -/
theorem Orderly.step {buffer : Option UInt32} {schedule : List κ} {senders : List ι}
    {all : ∀ i, i ∈ senders} :
    ∀ (x : NetConfig ι κ × History κ) (l : NetLabel ι κ) (y : NetConfig ι κ × History κ),
      Orderly buffer schedule x.1 x.2 → Listed schedule l →
      recording (netSystem ι κ senders all).step note x l = some y →
      Orderly buffer schedule y.1 y.2 := by
  apply System.records_of_steps
  · rintro c h p r choice seg ⟨scheduled, counted, turn⟩ lists resumes ran
    cases p with
    | netif =>
      refine ⟨scheduled.netif ran, counted.netif resumes ran, ?_⟩
      intro infinite
      exact (turn infinite).netif ran
    | sender i =>
      refine ⟨scheduled.sender lists resumes ran, counted.sender resumes ran, ?_⟩
      intro infinite
      exact (turn infinite).sender resumes ran
  · rintro c h c' ⟨scheduled, counted, turn⟩ - rfl
    refine ⟨scheduled.wake rfl fun _ => Status.wake_point,
      counted.wake rfl Status.wake_point, ?_⟩
    intro infinite
    exact (turn infinite).wake rfl (fun _ => Status.wake_point) le_rfl
  · rintro c h c' t ⟨scheduled, counted, turn⟩ - later rfl
    refine ⟨scheduled.wake rfl fun _ => Status.wake_point,
      counted.wake rfl Status.wake_point, ?_⟩
    intro infinite
    exact (turn infinite).wake rfl (fun _ => Status.wake_point) later.le

/-- Every run has its history, and the two stay orderly. -/
theorem orderly_of_run {buffer : Option UInt32} {schedule : List κ} {senders : List ι}
    {all : ∀ i, i ∈ senders} {labels : List (NetLabel ι κ)} {c : NetConfig ι κ}
    (listed : ∀ l ∈ labels, Listed schedule l)
    (reach : run (netSystem ι κ senders all).step (bufferStart schedule buffer) labels = some c) :
    ∃ h, run (recording (netSystem ι κ senders all).step note)
        (bufferStart schedule buffer, noHistory) labels = some (c, h) ∧
      Orderly buffer schedule c h := by
  obtain ⟨h, recorded⟩ := exists_history noHistory reach
  have along : Along (recording (netSystem ι κ senders all).step note)
      (fun _ l => Listed schedule l) (bufferStart schedule buffer, noHistory) labels :=
    along_of_forall listed
  exact ⟨h, recorded, run_invariant Orderly.step (orderly_start buffer schedule) along recorded⟩

/-- In every run the dispatches follow the request times and the schedule, every queued request
goes through the transfer once and is posted once, and no request overtakes an earlier one in an
infinite buffer. -/
theorem served_once_in_order {buffer : Option UInt32} {schedule : List κ} {senders : List ι}
    (all : ∀ i, i ∈ senders) {labels : List (NetLabel ι κ)} {c : NetConfig ι κ}
    (listed : ∀ l ∈ labels, Listed schedule l)
    (reach : run (netSystem ι κ senders all).step (bufferStart schedule buffer) labels = some c) :
    (∀ choice c' req, (netSystem ι κ senders all).step c (.eval .netif choice) = some c' →
      inTransfer c' = some req → Serves schedule c.store.sendQueue req c'.store.sendQueue) ∧
    (c.store.sendQueue ≠ [] → (dispatch schedule c.store.sendQueue).isSome = true) ∧
    ∃ h, run (recording (netSystem ι κ senders all).step note)
        (bufferStart schedule buffer, noHistory) labels = some (c, h) ∧
      Counted c h ∧
      (buffer = none → InOrder (h.dispatched ++ c.store.sendQueue) ∧
        ∀ i req, (c.status (.sender i)).point ≠ .waiting req) := by
  obtain ⟨h, recorded, scheduled, counted, turn⟩ := orderly_of_run listed reach
  refine ⟨?_, ?_, h, recorded, counted, ?_⟩
  · intro choice c' req taken transfers
    obtain ⟨r, seg, resumes, ran, rfl⟩ := System.step_eval_eq_some.mp taken
    rcases exec_netif ran with ⟨req', queue, d, found, rfl⟩ | ⟨empty, rfl⟩
    · rw [inTransfer_started] at transfers
      cases transfers
      rw [scheduled.given] at found
      exact serves_of_dispatch scheduled.sorted found
    · rw [inTransfer_waits] at transfers
      cases transfers
  · intro queued
    exact dispatch_isSome scheduled.sorted scheduled.listed queued
  · intro infinite
    exact ⟨(turn infinite).sorted, (turn infinite).unblocked⟩

def twoLinks : System (NetProc Bool) NetEvent (NetPoint Bool) (NetworkInterface Bool)
    (NetChoice Bool) :=
  netSystem Bool Bool [false, true] bothSenders_listed

/-- Two requests at one time; the schedule starts with the link of the second one. -/
def synchronousMessages : List (NetLabel Bool Bool) :=
  [.eval .netif (.delay 0), .eval (.sender false) (.send false 4),
    .eval (.sender true) (.send true 4), .delta, .eval .netif (.delay 5), .delta, .advance 5,
    .eval .netif (.delay 5), .delta, .advance 10, .eval .netif (.delay 0)]

theorem synchronousMessages_served :
    ∃ c h, run (recording twoLinks.step note) (bufferStart [true, false] none, noHistory)
        synchronousMessages = some (c, h) ∧ Counted c h ∧
      InOrder (h.dispatched ++ c.store.sendQueue) := by
  have listed : ∀ l ∈ synchronousMessages, Listed [true, false] l := by decide
  have defined : (run twoLinks.step (bufferStart [true, false] none)
      synchronousMessages).isSome = true := by decide +kernel
  obtain ⟨c, reach⟩ := Option.isSome_iff_exists.mp defined
  obtain ⟨-, -, h, recorded, counted, turn⟩ := served_once_in_order (by decide) listed reach
  exact ⟨c, h, recorded, counted, (turn rfl).1⟩

example : (run (recording twoLinks.step note) (bufferStart [true, false] none, noHistory)
    synchronousMessages).map (fun x => x.2.served.map SendRequest.logicLink) =
      some [true, false] := by decide +kernel

end Kista.Network.ExactlyOnce
