/- Kista/Network/Latency
   source: src/src/network_interface.cpp
   digest: How long a message stays in a network interface with an infinite buffer: no longer than
   the transfers of what is there with it take one after the other. -/

import Kista.Network.ExactlyOnce

set_option autoImplicit false
set_option relaxedAutoImplicit false

/-!
The communication resource promises a longest transfer for each link and size. With the option for
worst-case communication that is the delay that the transfer process waits for.
-/

namespace Kista.Network.Latency

open Kernel.Delta Kernel.Run Interface Stranding Accounting EmptyDispatch SendOrder ExactlyOnce

variable {ι κ : Type}

/-- What is left of a wait for a time. -/
def remaining (now : ℕ) : Status NetEvent (NetPoint κ) → ℕ
  | .blocked _ (some due) _ => due - now
  | _ => 0

/-- The longest transfers of some requests one after the other. -/
def transferTime (bound : κ → UInt32 → ℕ) (requests : List (SendRequest κ)) : ℕ :=
  (requests.map fun req => bound req.logicLink req.messageSize).sum

/-- The time that the transfer process needs for all that is queued and in transfer. -/
def backlog (bound : κ → UInt32 → ℕ) (c : NetConfig ι κ) : ℕ :=
  remaining c.now (c.status .netif) + transferTime bound c.store.sendQueue

def madeBy (t : ℕ) (requests : List (SendRequest κ)) : List (SendRequest κ) :=
  requests.filter fun req => req.requestTime ≤ t

/-- A transfer takes no longer than promised. -/
def Timely [DecidableEq κ] (bound : κ → UInt32 → ℕ) (c : NetConfig ι κ) : NetLabel ι κ → Prop
  | .eval .netif (.delay d) => ∀ found ∈ dispatch c.store.staticCommSchedule c.store.sendQueue,
      d ≤ bound found.1.logicLink found.1.messageSize
  | _ => True

/-- The requests of the instant have all been made. -/
def After (t : ℕ) (c : NetConfig ι κ) : NetLabel ι κ → Prop
  | .eval (.sender _) _ => t < c.now
  | _ => True

instance [DecidableEq κ] (bound : κ → UInt32 → ℕ) (c : NetConfig ι κ) :
    (l : NetLabel ι κ) → Decidable (Timely bound c l)
  | .eval .netif (.delay d) => inferInstanceAs (Decidable (∀ found ∈ dispatch _ _, d ≤ _))
  | .eval .netif (.send _ _) => inferInstanceAs (Decidable True)
  | .eval (.sender _) _ => inferInstanceAs (Decidable True)
  | .delta => inferInstanceAs (Decidable True)
  | .advance _ => inferInstanceAs (Decidable True)

instance (t : ℕ) (c : NetConfig ι κ) : (l : NetLabel ι κ) → Decidable (After t c l)
  | .eval (.sender _) _ => inferInstanceAs (Decidable (t < c.now))
  | .eval .netif _ => inferInstanceAs (Decidable True)
  | .delta => inferInstanceAs (Decidable True)
  | .advance _ => inferInstanceAs (Decidable True)

/-- Where the transfer process stands: it never waits for a request while one is queued, once the
notifications of the delta have been heard. -/
inductive Standing (queue : List (SendRequest κ)) (pending : List NetEvent) (now : ℕ) :
    Status NetEvent (NetPoint κ) → Prop
  | ready (r : NetPoint κ) : Standing queue pending now (.ready r)
  | waits (heard : queue ≠ [] → .sendRequestEv ∈ pending) :
      Standing queue pending now (.blocked [.sendRequestEv] none .requested)
  | transfers (req : SendRequest κ) {due : ℕ} (within : now ≤ due) :
      Standing queue pending now (.blocked [] (some due) (.transferred req))

/-- After the requests of an instant the transfers keep to what is promised. -/
def Promised [DecidableEq κ] (bound : κ → UInt32 → ℕ) (t : ℕ) (c : NetConfig ι κ)
    (l : NetLabel ι κ) : Prop :=
  Timely bound c l ∧ After t c l

instance [DecidableEq κ] (bound : κ → UInt32 → ℕ) (t : ℕ) (c : NetConfig ι κ)
    (l : NetLabel ι κ) : Decidable (Promised bound t c l) :=
  inferInstanceAs (Decidable (_ ∧ _))

theorem madeBy_perm {t : ℕ} {first second : List (SendRequest κ)} (same : first.Perm second) :
    (madeBy t first).Perm (madeBy t second) := same.filter _

theorem madeBy_cons_of_le {t : ℕ} {req : SendRequest κ} (early : req.requestTime ≤ t)
    (rest : List (SendRequest κ)) : madeBy t (req :: rest) = req :: madeBy t rest :=
  List.filter_cons_of_pos (by simpa using early)

theorem madeBy_cons_of_lt {t : ℕ} {req : SendRequest κ} (late : t < req.requestTime)
    (rest : List (SendRequest κ)) : madeBy t (req :: rest) = madeBy t rest :=
  List.filter_cons_of_neg (by simpa using late)

theorem madeBy_eq_nil {t : ℕ} {requests : List (SendRequest κ)}
    (late : ∀ req ∈ requests, ¬ req.requestTime ≤ t) : madeBy t requests = [] :=
  List.filter_eq_nil_iff.mpr fun req mem => by simpa using late req mem

theorem madeBy_append (t : ℕ) (first second : List (SendRequest κ)) :
    madeBy t (first ++ second) = madeBy t first ++ madeBy t second :=
  List.filter_append first second

theorem transferTime_perm {bound : κ → UInt32 → ℕ} {first second : List (SendRequest κ)}
    (same : first.Perm second) : transferTime bound first = transferTime bound second :=
  (same.map _).sum_nat

theorem transferTime_madeBy_le (bound : κ → UInt32 → ℕ) (t : ℕ)
    (requests : List (SendRequest κ)) :
    transferTime bound (madeBy t requests) ≤ transferTime bound requests := by
  induction requests with
  | nil => exact le_rfl
  | cons req rest ih =>
    by_cases early : req.requestTime ≤ t
    · rw [madeBy_cons_of_le early]
      exact Nat.add_le_add_left ih _
    · rw [madeBy_cons_of_lt (not_le.mp early)]
      exact ih.trans (Nat.le_add_left _ _)

theorem point_of_inTransfer {c : NetConfig ι κ} {req : SendRequest κ}
    (transfer : inTransfer c = some req) : (c.status .netif).point = .transferred req := by
  unfold inTransfer at transfer
  split at transfer
  next req' at' =>
    obtain rfl : req' = req := Option.some.inj transfer
    exact at'
  · cases transfer

variable [DecidableEq κ]

/-- The transfer process waits for the delay that it was given. -/
theorem exec_netif_due {r r' : NetPoint κ} {d now due : ℕ} {netif : NetworkInterface κ}
    {events : List NetEvent} {seg : Segment NetEvent (NetPoint κ) (NetworkInterface κ)}
    (ran : exec (.netif : NetProc ι) r (.delay d) now netif = some seg)
    (waits : seg.status = .blocked events (some due) r') : due = now + d := by
  have transfer : ∀ netif, startTransfer netif now d = some seg → due = now + d := by
    intro netif started
    obtain ⟨found, -, rfl⟩ := Option.map_eq_some_iff.mp started
    cases waits
    rfl
  have loop : ∀ netif, networkInterfaceLoop netif now d = some seg → due = now + d := by
    intro netif ran
    unfold networkInterfaceLoop at ran
    split at ran
    · cases ran
      cases waits
    · exact transfer netif ran
  cases r with
  | start => exact loop _ ran
  | requested => exact transfer _ ran
  | transferred req => exact loop _ ran
  | outside => cases ran
  | waiting req => cases ran

/-- Over an infinite buffer a request is announced and stored at once. -/
theorem exec_sender_infinite {i : ι} {r : NetPoint κ} {choice : NetChoice κ} {now : ℕ}
    {netif : NetworkInterface κ} {seg : Segment NetEvent (NetPoint κ) (NetworkInterface κ)}
    (infinite : netif.finiteBufferFlag = false) (unblocked : ∀ req, r ≠ .waiting req)
    (ran : exec (.sender i) r choice now netif = some seg) :
    ∃ link size, seg = ⟨store netif ⟨link, size, now⟩, [.sendRequestEv], .free .outside⟩ := by
  have stores : ∀ req notified, requestLoop netif req notified =
      ⟨store netif req, notified, .free .outside⟩ := by
    intro req notified
    rw [requestLoop, if_neg (by simp [infinite])]
  cases r with
  | outside =>
    cases choice with
    | delay d => cases ran
    | send link size =>
      refine ⟨link, size, ?_⟩
      rw [← stores]
      exact (Option.some.inj ran).symm
  | waiting req => exact absurd rfl (unblocked req)
  | start => cases ran
  | requested => cases ran
  | transferred req => cases ran

/-- What every run over an infinite buffer keeps. -/
structure Steady (c : NetConfig ι κ) (h : History κ) : Prop where
  counted : Counted c h
  turn : InTurn c h
  standing : Standing c.store.sendQueue c.pending c.now (c.status .netif)

theorem steady_start (schedule : List κ) :
    Steady (bufferStart schedule none : NetConfig ι κ) noHistory :=
  ⟨counted_start schedule none, inTurn_start schedule, .ready .start⟩

theorem Steady.queue_sorted {c : NetConfig ι κ} {h : History κ} (steady : Steady c h) :
    InOrder c.store.sendQueue :=
  (List.pairwise_append.mp steady.turn.sorted).2.1

/-- Each request that has entered the queue is served, in transfer or queued. -/
theorem Steady.queued {c : NetConfig ι κ} {h : History κ} (steady : Steady c h) :
    h.queued.Perm (h.served ++ ((inTransfer c).toList ++ c.store.sendQueue)) := by
  rw [← List.append_assoc, ← steady.counted.dispatched]
  exact steady.counted.queued

theorem Steady.past {c : NetConfig ι κ} {h : History κ} (steady : Steady c h) :
    ∀ req ∈ h.queued, req.requestTime ≤ c.now := by
  intro req mem
  exact steady.turn.past req (steady.counted.queued.mem_iff.mp mem)

omit [DecidableEq κ] in
theorem Standing.delta {queue : List (SendRequest κ)} {pending : List NetEvent} {now : ℕ}
    {status : Status NetEvent (NetPoint κ)} (h : Standing queue pending now status)
    {fired : NetEvent → Bool} (hears : ∀ e ∈ pending, fired e = true) :
    Standing queue [] now (status.wake fired now) ∧
      remaining now (status.wake fired now) = remaining now status := by
  cases h with
  | ready r => exact ⟨.ready r, rfl⟩
  | waits heard =>
    cases silent : fired .sendRequestEv with
    | true =>
      rw [Status.wake_blocked_of_fired _ (List.mem_singleton.mpr rfl) silent]
      exact ⟨.ready _, rfl⟩
    | false =>
      rw [Status.wake_waiting silent]
      refine ⟨.waits fun queued => ?_, rfl⟩
      rw [hears _ (heard queued)] at silent
      cases silent
  | @transfers req due within =>
    by_cases ended : now = due
    · rw [ended, Status.wake_blocked_of_due]
      exact ⟨.ready _, (Nat.sub_self due).symm⟩
    · rw [Status.wake_timed ended]
      exact ⟨.transfers req within, rfl⟩

omit [DecidableEq κ] in
/-- Time passes only with the transfer, when there is anything to transfer. -/
theorem Standing.advance {queue : List (SendRequest κ)} {now t : ℕ}
    {status : Status NetEvent (NetPoint κ)} (h : Standing queue [] now status)
    (quiet : ∀ r, status ≠ .ready r) (latest : status.latest t = true) (later : now < t) :
    Standing queue [] t (status.wake (fun _ => false) t) ∧
      (queue ≠ [] ∨ (∃ req, status.point = .transferred req) →
        t + remaining t (status.wake (fun _ => false) t) = now + remaining now status) := by
  cases h with
  | ready r => exact absurd rfl (quiet r)
  | waits heard =>
    rw [Status.wake_waiting rfl]
    refine ⟨.waits heard, ?_⟩
    rintro (queued | ⟨req, busy⟩)
    · exact absurd (heard queued) List.not_mem_nil
    · cases busy
  | @transfers req due within =>
    have bound : t ≤ due := of_decide_eq_true latest
    by_cases ended : t = due
    · subst ended
      rw [Status.wake_blocked_of_due]
      refine ⟨.ready _, fun _ => ?_⟩
      show t + 0 = now + (t - now)
      omega
    · rw [Status.wake_timed ended]
      refine ⟨.transfers req bound, fun _ => ?_⟩
      show t + (due - t) = now + (due - now)
      omega

variable [DecidableEq ι]

theorem Steady.netif {c : NetConfig ι κ} {h : History κ} (steady : Steady c h) {r : NetPoint κ}
    {choice : NetChoice κ} {seg : Segment NetEvent (NetPoint κ) (NetworkInterface κ)}
    (resumes : (c.status .netif).resumable = some r)
    (ran : exec (.netif : NetProc ι) r choice c.now c.store = some seg) :
    Steady ⟨seg.store, Function.update c.status .netif seg.status, seg.notified ++ c.pending, c.now⟩
      (note c (.eval .netif choice) ⟨seg.store, Function.update c.status .netif seg.status,
        seg.notified ++ c.pending, c.now⟩ h) := by
  refine ⟨steady.counted.netif resumes ran, steady.turn.netif ran, ?_⟩
  show Standing _ _ _ (Function.update c.status .netif seg.status .netif)
  rw [Function.update_self]
  rcases exec_netif ran with ⟨req, queue, d, found, rfl⟩ | ⟨empty, rfl⟩
  · exact .transfers req (Nat.le_add_right _ _)
  · refine .waits fun queued => absurd ?_ queued
    show (arrived r c.store).sendQueue = []
    rw [arrived_queue, empty]

theorem Steady.sender {c : NetConfig ι κ} {h : History κ} (steady : Steady c h) {i : ι}
    {r : NetPoint κ} {choice : NetChoice κ}
    {seg : Segment NetEvent (NetPoint κ) (NetworkInterface κ)}
    (resumes : (c.status (.sender i)).resumable = some r)
    (ran : exec (.sender i) r choice c.now c.store = some seg) :
    Steady ⟨seg.store, Function.update c.status (.sender i) seg.status, seg.notified ++ c.pending,
        c.now⟩
      (note c (.eval (.sender i) choice) ⟨seg.store, Function.update c.status (.sender i)
        seg.status, seg.notified ++ c.pending, c.now⟩ h) := by
  refine ⟨steady.counted.sender resumes ran, steady.turn.sender resumes ran, ?_⟩
  obtain ⟨link, size, rfl⟩ := exec_sender_infinite steady.turn.infinite
    (fun req at' => steady.turn.unblocked i req ((Status.resumable_point resumes).trans at')) ran
  show Standing _ _ _ (Function.update c.status (.sender i) (.free .outside) .netif)
  rw [update_sender_netif]
  have standing := steady.standing
  generalize c.status .netif = status at standing
  cases standing with
  | ready r => exact .ready r
  | waits heard => exact .waits fun _ => List.mem_append_left _ (List.mem_singleton.mpr rfl)
  | transfers req within => exact .transfers req within

omit [DecidableEq ι] in
theorem Steady.delta {senders : List ι} {all : ∀ i, i ∈ senders} {c : NetConfig ι κ}
    {h : History κ} (steady : Steady c h) :
    Steady
      ⟨c.store, fun p => (c.status p).wake ((netSystem ι κ senders all).fired c) c.now, [], c.now⟩
      h where
  counted := steady.counted.wake rfl Status.wake_point
  turn := steady.turn.wake rfl (fun _ => Status.wake_point) le_rfl
  standing := (steady.standing.delta fun e raised => by simp [System.fired, raised]).1

omit [DecidableEq ι] in
theorem Steady.advance {senders : List ι} {all : ∀ i, i ∈ senders} {c : NetConfig ι κ}
    {h : History κ} {t : ℕ} (steady : Steady c h)
    (stable : (netSystem ι κ senders all).stable c = true) (later : c.now < t)
    (within : (c.status .netif).latest t = true) :
    Steady ⟨c.store, fun p => (c.status p).wake (fun _ => false) t, c.pending, t⟩ h where
  counted := steady.counted.wake rfl Status.wake_point
  turn := steady.turn.wake rfl (fun _ => Status.wake_point) later.le
  standing := by
    obtain ⟨quiet, silent, -⟩ := System.stable_iff.mp stable
    have standing := steady.standing
    rw [silent] at standing
    show Standing c.store.sendQueue c.pending t _
    rw [silent]
    exact (standing.advance (quiet _) within later).1

theorem Steady.step {senders : List ι} {all : ∀ i, i ∈ senders}
    (x : NetConfig ι κ × History κ) (l : NetLabel ι κ) (y : NetConfig ι κ × History κ)
    (steady : Steady x.1 x.2) (_ : True)
    (taken : recording (netSystem ι κ senders all).step note x l = some y) : Steady y.1 y.2 := by
  obtain ⟨stepped, noted⟩ := recording_eq_some.mp taken
  rw [noted]
  cases l with
  | eval p choice =>
    obtain ⟨r, seg, resumes, ran, same⟩ := System.step_eval_eq_some.mp stepped
    rw [same]
    cases p with
    | netif => exact steady.netif resumes ran
    | sender i => exact steady.sender resumes ran
  | delta =>
    obtain ⟨-, same⟩ := System.step_delta_eq_some.mp stepped
    rw [same]
    exact steady.delta
  | advance t =>
    obtain ⟨⟨stable, later, within⟩, same⟩ := System.step_advance_eq_some.mp stepped
    rw [same]
    exact steady.advance stable later (within .netif)

/-- Something that was requested up to an instant is queued or in transfer. -/
def Left (t : ℕ) (c : NetConfig ι κ) : Prop :=
  ∃ req ∈ (inTransfer c).toList ++ c.store.sendQueue, req.requestTime ≤ t

/-- The requests made up to an instant, as long as some are left, will all be served in time. -/
structure Draining (bound : κ → UInt32 → ℕ) (t deadline : ℕ) (queued : List (SendRequest κ))
    (c : NetConfig ι κ) (h : History κ) : Prop where
  steady : Steady c h
  made : madeBy t h.queued = queued
  inTime : Left t c → c.now + remaining c.now (c.status .netif) +
    transferTime bound (madeBy t c.store.sendQueue) ≤ deadline

section Draining

variable {bound : κ → UInt32 → ℕ} {t deadline : ℕ} {queued : List (SendRequest κ)}
  {c : NetConfig ι κ} {h : History κ}

omit [DecidableEq ι] in
theorem draining_start (bound : κ → UInt32 → ℕ) (steady : Steady c h) :
    Draining bound c.now (c.now + backlog bound c) h.queued c h where
  steady := steady
  made := List.filter_eq_self.mpr fun req mem => by simpa using steady.past req mem
  inTime _ := by
    have fewer := transferTime_madeBy_le bound c.now c.store.sendQueue
    unfold backlog
    omega

/-- The transfer process takes up the earliest request, for no longer than promised. -/
theorem Draining.netif (draining : Draining bound t deadline queued c h) {r : NetPoint κ}
    {choice : NetChoice κ} {seg : Segment NetEvent (NetPoint κ) (NetworkInterface κ)}
    (timely : Timely bound c (.eval .netif choice : NetLabel ι κ))
    (resumes : (c.status .netif).resumable = some r)
    (ran : exec (.netif : NetProc ι) r choice c.now c.store = some seg) :
    Draining bound t deadline queued
      ⟨seg.store, Function.update c.status .netif seg.status, seg.notified ++ c.pending, c.now⟩
      (note c (.eval .netif choice) ⟨seg.store, Function.update c.status .netif seg.status,
        seg.notified ++ c.pending, c.now⟩ h) := by
  refine ⟨draining.steady.netif resumes ran, draining.made, ?_⟩
  intro left
  show c.now + remaining c.now (Function.update c.status .netif seg.status .netif) +
    transferTime bound (madeBy t seg.store.sendQueue) ≤ deadline
  rw [Function.update_self]
  obtain ⟨other, mem, early⟩ := left
  rcases exec_netif ran with ⟨req, queue, d, found, rfl⟩ | ⟨empty, rfl⟩
  · have serves := serves_of_dispatch draining.steady.queue_sorted found
    have mem : other ∈ req :: queue := by
      rw [inTransfer_started] at mem
      exact mem
    have first : req.requestTime ≤ t :=
      (serves.earliest other (serves.taken.mem_iff.mpr mem)).trans early
    have before := draining.inTime
      ⟨req, List.mem_append_right _ (serves.taken.mem_iff.mpr List.mem_cons_self), first⟩
    have share : transferTime bound (madeBy t c.store.sendQueue) =
        bound req.logicLink req.messageSize + transferTime bound (madeBy t queue) := by
      rw [transferTime_perm (madeBy_perm serves.taken), madeBy_cons_of_le first]
      rfl
    have promised : d ≤ bound req.logicLink req.messageSize := by
      cases choice with
      | send link size => cases r <;> cases ran
      | delay d' =>
        have same := exec_netif_due ran rfl
        have within := timely _ found
        dsimp only at within
        omega
    show c.now + (c.now + d - c.now) + transferTime bound (madeBy t queue) ≤ deadline
    omega
  · rw [inTransfer_waits] at mem
    have mem : other ∈ (arrived r c.store).sendQueue := mem
    rw [arrived_queue, empty] at mem
    cases mem

/-- A later request neither counts nor gets in the way. -/
theorem Draining.sender (draining : Draining bound t deadline queued c h) {i : ι} {r : NetPoint κ}
    {choice : NetChoice κ} {seg : Segment NetEvent (NetPoint κ) (NetworkInterface κ)}
    (after : t < c.now) (resumes : (c.status (.sender i)).resumable = some r)
    (ran : exec (.sender i) r choice c.now c.store = some seg) :
    Draining bound t deadline queued
      ⟨seg.store, Function.update c.status (.sender i) seg.status, seg.notified ++ c.pending, c.now⟩
      (note c (.eval (.sender i) choice) ⟨seg.store, Function.update c.status (.sender i)
        seg.status, seg.notified ++ c.pending, c.now⟩ h) := by
  have steady := draining.steady
  obtain ⟨req, notified, offers, from', ⟨finite, -⟩ | rfl⟩ := exec_sender_offered resumes ran
  · rw [steady.turn.infinite] at finite
    cases finite
  · have late : t < req.requestTime := by
      rcases from' with rfl | ⟨-, -, made⟩
      · exact absurd (Status.resumable_point resumes) (steady.turn.unblocked i req)
      · rwa [made]
    refine ⟨steady.sender resumes ran, ?_, ?_⟩
    · rw [note, returned_free, offers, Option.toList_some]
      show madeBy t (h.queued ++ [req]) = queued
      rw [madeBy_append, madeBy_cons_of_lt late]
      exact (List.append_nil _).trans draining.made
    · rintro ⟨other, mem, early⟩
      have inserted := insertRequest_perm req c.store.sendQueue
      have before := draining.inTime ⟨other, ?_, early⟩
      · show c.now +
          remaining c.now (Function.update c.status (.sender i) (.free .outside) .netif) +
          transferTime bound (madeBy t (insertRequest req c.store.sendQueue)) ≤ deadline
        rwa [update_sender_netif, transferTime_perm (madeBy_perm inserted),
          madeBy_cons_of_lt late]
      · rw [inTransfer_sender] at mem
        rcases List.mem_append.mp mem with transfer | queue
        · exact List.mem_append_left _ transfer
        · refine List.mem_append_right _ ?_
          rcases mem_insertRequest.mp queue with rfl | earlier
          · exact absurd early (not_le.mpr late)
          · exact earlier

omit [DecidableEq ι] [DecidableEq κ] in
theorem Left.of_wake {c' : NetConfig ι κ} (left : Left t c') (store : c'.store = c.store)
    (point : (c'.status .netif).point = (c.status .netif).point) : Left t c := by
  obtain ⟨req, mem, early⟩ := left
  rw [inTransfer_congr point, store] at mem
  exact ⟨req, mem, early⟩

omit [DecidableEq ι] in
theorem Draining.delta {senders : List ι} {all : ∀ i, i ∈ senders}
    (draining : Draining bound t deadline queued c h) :
    Draining bound t deadline queued
      ⟨c.store, fun p => (c.status p).wake ((netSystem ι κ senders all).fired c) c.now, [], c.now⟩
      h := by
  have hears : ∀ e ∈ c.pending, (netSystem ι κ senders all).fired c e = true := by
    intro e raised
    simp [System.fired, raised]
  refine ⟨draining.steady.delta, draining.made, ?_⟩
  intro left
  show c.now + remaining c.now ((c.status .netif).wake _ c.now) + _ ≤ deadline
  rw [(draining.steady.standing.delta hears).2]
  exact draining.inTime (left.of_wake rfl Status.wake_point)

omit [DecidableEq ι] in
theorem Draining.advance {senders : List ι} {all : ∀ i, i ∈ senders} {t' : ℕ}
    (draining : Draining bound t deadline queued c h)
    (stable : (netSystem ι κ senders all).stable c = true) (later : c.now < t')
    (within : (c.status .netif).latest t' = true) :
    Draining bound t deadline queued
      ⟨c.store, fun p => (c.status p).wake (fun _ => false) t', c.pending, t'⟩ h := by
  obtain ⟨quiet, silent, -⟩ := System.stable_iff.mp stable
  have standing := draining.steady.standing
  rw [silent] at standing
  refine ⟨draining.steady.advance stable later within, draining.made, ?_⟩
  intro left
  have left : Left t c := left.of_wake rfl Status.wake_point
  have busy : c.store.sendQueue ≠ [] ∨ ∃ req, (c.status .netif).point = .transferred req := by
    obtain ⟨req, mem, -⟩ := left
    rcases List.mem_append.mp mem with transfer | queue
    · right
      exact ⟨req, point_of_inTransfer (Option.mem_toList.mp transfer)⟩
    · left
      exact List.ne_nil_of_mem queue
  show t' + remaining t' ((c.status .netif).wake (fun _ => false) t') + _ ≤ deadline
  rw [(standing.advance (quiet _) within later).2 busy]
  exact draining.inTime left

theorem Draining.step {senders : List ι} {all : ∀ i, i ∈ senders}
    (x : NetConfig ι κ × History κ) (l : NetLabel ι κ) (y : NetConfig ι κ × History κ)
    (draining : Draining bound t deadline queued x.1 x.2)
    (allowed : Promised bound t x.1 l)
    (taken : recording (netSystem ι κ senders all).step note x l = some y) :
    Draining bound t deadline queued y.1 y.2 := by
  obtain ⟨stepped, noted⟩ := recording_eq_some.mp taken
  obtain ⟨c, h⟩ := x
  obtain ⟨c', h'⟩ := y
  obtain rfl : h' = note c l c' h := noted
  cases l with
  | eval p choice =>
    obtain ⟨r, seg, resumes, ran, rfl⟩ := System.step_eval_eq_some.mp stepped
    cases p with
    | netif => exact draining.netif allowed.1 resumes ran
    | sender i => exact draining.sender allowed.2 resumes ran
  | delta =>
    obtain ⟨-, rfl⟩ := System.step_delta_eq_some.mp stepped
    exact draining.delta
  | advance t' =>
    obtain ⟨⟨stable, later, within⟩, rfl⟩ := System.step_advance_eq_some.mp stepped
    exact draining.advance stable later (within .netif)

omit [DecidableEq ι] in
theorem Draining.drained {senders : List ι} {all : ∀ i, i ∈ senders}
    (draining : Draining bound t deadline queued c h)
    (ended : deadline < c.now ∨ deadline = c.now ∧ (netSystem ι κ senders all).stable c = true) :
    ¬ Left t c := by
  intro left
  have inTime := draining.inTime left
  rcases ended with late | ⟨instant, stable⟩
  · omega
  · obtain ⟨quiet, silent, -, due⟩ := System.stable_iff.mp stable
    obtain ⟨req, mem, -⟩ := left
    have standing := draining.steady.standing
    have due := due .netif
    rw [silent] at standing
    have waiting := quiet .netif
    generalize found : c.status .netif = status at standing waiting due inTime
    cases standing with
    | ready r => exact absurd rfl (waiting r)
    | waits heard =>
      have idle : inTransfer c = none := inTransfer_of_requested (by rw [found]; rfl)
      rw [idle] at mem
      exact absurd (heard (List.ne_nil_of_mem mem)) List.not_mem_nil
    | @transfers req' end' within =>
      have later : end' ≠ c.now := fun same => due _ _ _ rfl (congrArg some same)
      have left : remaining c.now (.blocked [] (some end') (.transferred req')) = end' - c.now :=
        rfl
      omega

omit [DecidableEq ι] in
/-- What nothing is left of has been served. -/
theorem Draining.served (draining : Draining bound t deadline queued c h) (none_left : ¬ Left t c) :
    queued.Subperm h.served := by
  have none_made : madeBy t ((inTransfer c).toList ++ c.store.sendQueue) = [] :=
    madeBy_eq_nil fun req mem early => none_left ⟨req, mem, early⟩
  have all_made := madeBy_perm (t := t) draining.steady.queued
  rw [draining.made, madeBy_append, none_made, List.append_nil] at all_made
  exact all_made.subperm.trans List.filter_sublist.subperm

end Draining

/-- In every run over an infinite buffer in which the transfers take no longer than promised, all
that has been requested up to an instant is served once the backlog of that instant is over. -/
theorem served_within_backlog {bound : κ → UInt32 → ℕ} {schedule : List κ} {senders : List ι}
    (all : ∀ i, i ∈ senders) {labels₀ labels : List (NetLabel ι κ)} {c₀ c : NetConfig ι κ}
    {h₀ h : History κ}
    (reach₀ : run (recording (netSystem ι κ senders all).step note)
      (bufferStart schedule none, noHistory) labels₀ = some (c₀, h₀))
    (along : Along (netSystem ι κ senders all).step (Promised bound c₀.now) c₀ labels)
    (reach : run (recording (netSystem ι κ senders all).step note) (c₀, h₀) labels = some (c, h))
    (late : c₀.now + backlog bound c₀ < c.now ∨
      c₀.now + backlog bound c₀ = c.now ∧ (netSystem ι κ senders all).stable c = true) :
    h₀.queued.Subperm h.served := by
  have steady : Steady c₀ h₀ :=
    run_invariant Steady.step (steady_start schedule) (along_of_forall fun _ _ => trivial) reach₀
  have draining : Draining bound c₀.now (c₀.now + backlog bound c₀) h₀.queued c h :=
    run_invariant Draining.step (draining_start bound steady) (along_recording.mpr along) reach
  exact draining.served (draining.drained late)

/-- Two requests of the start, and the transfers of both, as long as promised. -/
def bothRequested : List (NetLabel Bool Bool) :=
  [.eval .netif (.delay 0), .eval (.sender false) (.send false 4),
    .eval (.sender true) (.send true 8), .delta]

def bothTransferred : List (NetLabel Bool Bool) :=
  [.eval .netif (.delay 8), .delta, .advance 5, .eval (.sender false) (.send false 4), .delta,
    .advance 8, .eval .netif (.delay 4), .delta, .advance 12, .eval .netif (.delay 4), .delta]

/-- A message takes as long as it is large. -/
def bySize (_ : Bool) (messageSize : UInt32) : ℕ := messageSize.toNat

theorem bothRequested_served :
    ∃ c₀ h₀ c h, run (recording twoLinks.step note) (bufferStart [true, false] none, noHistory)
        bothRequested = some (c₀, h₀) ∧
      run (recording twoLinks.step note) (c₀, h₀) bothTransferred = some (c, h) ∧
      c.now = 12 ∧ h₀.queued.Subperm h.served := by
  have requested : (run (recording twoLinks.step note) (bufferStart [true, false] none, noHistory)
      bothRequested).isSome = true := by decide +kernel
  obtain ⟨⟨c₀, h₀⟩, reach₀⟩ := Option.isSome_iff_exists.mp requested
  have kept : ∀ x ∈ run (recording twoLinks.step note) (bufferStart [true, false] none, noHistory)
      bothRequested, Along twoLinks.step (Promised bySize x.1.now) x.1 bothTransferred := by
    decide +kernel
  have transferred : ∀ x ∈ run (recording twoLinks.step note)
      (bufferStart [true, false] none, noHistory) bothRequested,
      (run (recording twoLinks.step note) x bothTransferred).map (fun y =>
        (y.1.now, decide (x.1.now + backlog bySize x.1 = y.1.now), twoLinks.stable y.1)) =
          some (12, true, true) := by decide +kernel
  obtain ⟨⟨c, h⟩, reach, values⟩ := Option.map_eq_some_iff.mp (transferred _ reach₀)
  obtain ⟨now, values⟩ := Prod.mk.inj values
  obtain ⟨instant, stable⟩ := Prod.mk.inj values
  exact ⟨c₀, h₀, c, h, reach₀, reach, now,
    served_within_backlog bothSenders_listed reach₀ (kept _ reach₀) reach
      (Or.inr ⟨of_decide_eq_true instant, stable⟩)⟩

end Kista.Network.Latency
