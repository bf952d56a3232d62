/- Kista/Network/LinkOrder
   source: src/src/network_interface.cpp
   digest: The requests of a link with one source are served in the order in which they entered
   the send queue, over either kind of buffer and under any static schedule. -/

import Kista.Network.ExactlyOnce

set_option autoImplicit false
set_option relaxedAutoImplicit false

namespace Kista.Network.LinkOrder

open Kernel.Delta Kernel.Run Interface Stranding Accounting EmptyDispatch SendOrder ExactlyOnce

variable {ι κ : Type}

/-- A sender requests only the links that start at it. -/
def Owned (source : κ → ι) : NetLabel ι κ → Prop
  | .eval (.sender i) (.send link _) => source link = i
  | _ => True

instance (source : κ → ι) [DecidableEq ι] : (l : NetLabel ι κ) → Decidable (Owned source l)
  | .eval (.sender i) (.send link _) => inferInstanceAs (Decidable (source link = i))
  | .eval (.sender _) (.delay _) => inferInstanceAs (Decidable True)
  | .eval .netif _ => inferInstanceAs (Decidable True)
  | .delta => inferInstanceAs (Decidable True)
  | .advance _ => inferInstanceAs (Decidable True)

/-- In a sorted queue a request is put before the later ones alone. -/
theorem insertRequest_split {queue : List (SendRequest κ)} (sorted : InOrder queue)
    (req : SendRequest κ) :
    ∃ before after, queue = before ++ after ∧ insertRequest req queue = before ++ req :: after ∧
      ∀ other ∈ after, req.requestTime < other.requestTime := by
  induction queue with
  | nil => exact ⟨[], [], rfl, rfl, nofun⟩
  | cons head rest ih =>
    obtain ⟨least, tail⟩ := List.pairwise_cons.mp sorted
    by_cases earlier : req.requestTime < head.requestTime
    · refine ⟨[], head :: rest, rfl, if_pos earlier, ?_⟩
      intro other mem
      rcases List.mem_cons.mp mem with rfl | later
      · exact earlier
      · exact Nat.lt_of_lt_of_le earlier (least other later)
    · obtain ⟨before, after, rfl, inserted, later⟩ := ih tail
      refine ⟨head :: before, after, rfl, ?_, later⟩
      rw [insertRequest, if_neg earlier, inserted]
      rfl

variable [DecidableEq κ]

/-- The requests of one link. -/
def ofLink (link : κ) (requests : List (SendRequest κ)) : List (SendRequest κ) :=
  requests.filter fun req => req.logicLink = link

@[simp] theorem ofLink_append (link : κ) (first second : List (SendRequest κ)) :
    ofLink link (first ++ second) = ofLink link first ++ ofLink link second :=
  List.filter_append first second

theorem ofLink_cons_self (req : SendRequest κ) (rest : List (SendRequest κ)) :
    ofLink req.logicLink (req :: rest) = req :: ofLink req.logicLink rest :=
  List.filter_cons_of_pos (by simp)

theorem ofLink_cons_of_ne {link : κ} {req : SendRequest κ} (other : req.logicLink ≠ link)
    (rest : List (SendRequest κ)) : ofLink link (req :: rest) = ofLink link rest :=
  List.filter_cons_of_neg (by simp [other])

theorem ofLink_eq_nil {link : κ} {requests : List (SendRequest κ)} :
    ofLink link requests = [] ↔ ∀ req ∈ requests, req.logicLink ≠ link := by
  simp [ofLink]

/-- A request not earlier than those of its link is put behind them. -/
theorem ofLink_insertRequest {queue : List (SendRequest κ)} (sorted : InOrder queue)
    {req : SendRequest κ}
    (latest : ∀ other ∈ queue, other.logicLink = req.logicLink →
      other.requestTime ≤ req.requestTime) (link : κ) :
    ofLink link (insertRequest req queue) = ofLink link (queue ++ [req]) := by
  obtain ⟨before, after, rfl, inserted, later⟩ := insertRequest_split sorted req
  rw [inserted, ofLink_append, ofLink_append, ofLink_append, List.append_assoc]
  by_cases same : req.logicLink = link
  · subst same
    have none' : ofLink req.logicLink after = [] := by
      rw [ofLink_eq_nil]
      intro other mem link
      have := latest other (List.mem_append_right _ mem) link
      have := later other mem
      omega
    rw [ofLink_cons_self, none', List.nil_append, ofLink_cons_self]
    rfl
  · rw [ofLink_cons_of_ne same, ofLink_cons_of_ne same]
    simp [ofLink]

/-- A request leaves the queue before any other of its link. -/
def First (queue : List (SendRequest κ)) (req : SendRequest κ) (rest : List (SendRequest κ)) :
    Prop :=
  ∃ before after, queue = before ++ req :: after ∧ rest = before ++ after ∧
    ∀ other ∈ before, other.logicLink ≠ req.logicLink

omit [DecidableEq κ] in
theorem first_head (req : SendRequest κ) (rest : List (SendRequest κ)) :
    First (req :: rest) req rest :=
  ⟨[], rest, rfl, rfl, nofun⟩

theorem First.of_takeLink {link : κ} {time : ℕ} {queue rest : List (SendRequest κ)}
    {req : SendRequest κ} (found : takeLink link time queue = some (req, rest)) :
    First queue req rest ∧ req.logicLink = link := by
  induction queue generalizing rest with
  | nil => cases found
  | cons head tail ih =>
    unfold takeLink at found
    split at found
    · split at found
      · rename_i same
        cases found
        exact ⟨first_head _ _, same⟩
      · rename_i different
        obtain ⟨⟨req', rest'⟩, later, same⟩ := Option.map_eq_some_iff.mp found
        cases same
        obtain ⟨⟨before, after, rfl, rfl, others⟩, links⟩ := ih later
        refine ⟨⟨head :: before, after, rfl, rfl, ?_⟩, links⟩
        intro other mem
        rcases List.mem_cons.mp mem with rfl | deeper
        · rw [links]
          exact different
        · exact others other deeper
    · cases found

theorem First.of_staticCommDispatch {schedule : List κ} {time : ℕ}
    {queue rest : List (SendRequest κ)} {req : SendRequest κ}
    (found : staticCommDispatch time queue schedule = some (req, rest)) : First queue req rest := by
  induction schedule with
  | nil => cases found
  | cons link schedule ih =>
    rcases Option.or_eq_some_iff.mp found with here | ⟨-, later⟩
    · exact (First.of_takeLink here).1
    · exact ih later

theorem First.of_dispatch {schedule : List κ} {queue rest : List (SendRequest κ)}
    {req : SendRequest κ} (found : dispatch schedule queue = some (req, rest)) :
    First queue req rest := by
  rcases queue with _ | ⟨first, _ | ⟨second, queue⟩⟩
  · cases found
  · cases found
    exact first_head req []
  · simp only [dispatch] at found
    split at found
    · exact First.of_staticCommDispatch found
    · cases found
      exact first_head req (second :: queue)

theorem First.ofLink_eq {queue rest : List (SendRequest κ)} {req : SendRequest κ}
    (first : First queue req rest) (link : κ) : ofLink link queue = ofLink link (req :: rest) := by
  obtain ⟨before, after, rfl, rfl, others⟩ := first
  by_cases same : req.logicLink = link
  · subst same
    have none' : ofLink req.logicLink before = [] := ofLink_eq_nil.mpr others
    rw [ofLink_append, ofLink_cons_self, ofLink_cons_self, ofLink_append, none']
    rfl
  · rw [ofLink_append, ofLink_cons_of_ne same, ofLink_cons_of_ne same, ofLink_append]

/-- For each link the requests that left the queue and those in it are those that entered it, in
that order. -/
structure InLink (source : κ → ι) (c : NetConfig ι κ) (h : History κ) : Prop where
  sorted : InOrder c.store.sendQueue
  order : ∀ link, ofLink link h.queued = ofLink link (h.dispatched ++ c.store.sendQueue)
  past : ∀ req ∈ c.store.sendQueue, req.requestTime ≤ c.now
  waiting : ∀ i req, (c.status (.sender i)).point = .waiting req →
    source req.logicLink = i ∧ req.requestTime ≤ c.now ∧
      ∀ other ∈ c.store.sendQueue, other.logicLink = req.logicLink →
        other.requestTime ≤ req.requestTime

theorem inLink_start (source : κ → ι) (schedule : List κ) (buffer : Option UInt32) :
    InLink source (bufferStart schedule buffer) noHistory := by
  cases buffer <;> exact ⟨List.Pairwise.nil, fun _ => rfl, nofun, nofun⟩

theorem InLink.wake {source : κ → ι} {c c' : NetConfig ι κ} {h : History κ}
    (inLink : InLink source c h) (store : c'.store = c.store)
    (points : ∀ p, (c'.status p).point = (c.status p).point) (later : c.now ≤ c'.now) :
    InLink source c' h := by
  refine ⟨?_, ?_, ?_, ?_⟩
  · rw [store]
    exact inLink.sorted
  · rw [store]
    exact inLink.order
  · rw [store]
    intro req mem
    exact (inLink.past req mem).trans later
  · rw [store]
    intro i req waits
    obtain ⟨owned, made, latest⟩ := inLink.waiting i req ((points _).symm.trans waits)
    exact ⟨owned, made.trans later, latest⟩

variable [DecidableEq ι]

/-- While a sender waits with a request of its link, nobody else requests that link. -/
theorem InLink.sender {source : κ → ι} {c : NetConfig ι κ} {h : History κ}
    (inLink : InLink source c h) {i : ι} {r : NetPoint κ} {choice : NetChoice κ}
    {seg : Segment NetEvent (NetPoint κ) (NetworkInterface κ)}
    (owns : Owned source (.eval (.sender i) choice : NetLabel ι κ))
    (resumes : (c.status (.sender i)).resumable = some r)
    (ran : exec (.sender i) r choice c.now c.store = some seg) :
    InLink source ⟨seg.store, Function.update c.status (.sender i) seg.status,
        seg.notified ++ c.pending, c.now⟩
      (note c (.eval (.sender i) choice) ⟨seg.store, Function.update c.status (.sender i)
        seg.status, seg.notified ++ c.pending, c.now⟩ h) := by
  obtain ⟨req, notified, offers, from', moved⟩ := exec_sender_offered resumes ran
  have mine : source req.logicLink = i ∧ req.requestTime ≤ c.now ∧
      ∀ other ∈ c.store.sendQueue, other.logicLink = req.logicLink →
        other.requestTime ≤ req.requestTime := by
    rcases from' with rfl | ⟨-, rfl, made⟩
    · exact inLink.waiting i req (Status.resumable_point resumes)
    · refine ⟨owns, made.le, ?_⟩
      intro other mem _
      rw [made]
      exact inLink.past other mem
  obtain ⟨owned, made, latest⟩ := mine
  rcases moved with ⟨-, rfl⟩ | rfl
  · refine ⟨inLink.sorted, ?_, inLink.past, ?_⟩
    · rw [note, returned_blocked, Option.toList_none, List.append_nil]
      exact inLink.order
    · intro j req' waits
      by_cases same : j = i
      · subst same
        simp only [Function.update_self, Status.point, NetPoint.waiting.injEq] at waits
        exact waits ▸ ⟨owned, made, latest⟩
      · exact inLink.waiting j req' (by simpa [same] using waits)
  · refine ⟨inLink.sorted.insertRequest req, ?_, ?_, ?_⟩
    · intro link
      rw [note, returned_free, offers, Option.toList_some]
      show ofLink link (h.queued ++ [req]) =
        ofLink link (h.dispatched ++ insertRequest req c.store.sendQueue)
      rw [ofLink_append, inLink.order, ofLink_append, ofLink_append link h.dispatched,
        ofLink_insertRequest inLink.sorted latest, ofLink_append link _ [req], List.append_assoc]
    · intro other mem
      rcases mem_insertRequest.mp mem with rfl | queued
      · exact made
      · exact inLink.past other queued
    · intro j req' waits
      by_cases same : j = i
      · subst same
        simp [Status.point] at waits
      · obtain ⟨owned', made', latest'⟩ := inLink.waiting j req' (by simpa [same] using waits)
        refine ⟨owned', made', ?_⟩
        intro other mem links
        rcases mem_insertRequest.mp mem with rfl | queued
        · rw [links] at owned
          exact absurd (owned'.symm.trans owned) same
        · exact latest' other queued links

theorem InLink.netif {source : κ → ι} {c : NetConfig ι κ} {h : History κ}
    (inLink : InLink source c h) {r : NetPoint κ} {choice : NetChoice κ}
    {seg : Segment NetEvent (NetPoint κ) (NetworkInterface κ)}
    (ran : exec (.netif : NetProc ι) r choice c.now c.store = some seg) :
    InLink source ⟨seg.store, Function.update c.status .netif seg.status,
        seg.notified ++ c.pending, c.now⟩
      (note c (.eval .netif choice) ⟨seg.store, Function.update c.status .netif seg.status,
        seg.notified ++ c.pending, c.now⟩ h) := by
  have waiting : ∀ i req,
      (Function.update c.status .netif seg.status (.sender i)).point = .waiting req →
        (c.status (.sender i)).point = .waiting req := by
    intro i req waits
    exact update_netif_sender c.status seg.status i ▸ waits
  rcases exec_netif ran with ⟨req, queue, d, found, rfl⟩ | ⟨empty, rfl⟩
  · have kept : queue.Sublist c.store.sendQueue := (serves_of_dispatch inLink.sorted found).kept
    have first := First.of_dispatch found
    refine ⟨inLink.sorted.sublist kept, ?_, ?_, ?_⟩
    · intro link
      show ofLink link h.queued = ofLink link (h.dispatched ++ (inTransfer _).toList ++ queue)
      rw [inTransfer_started, Option.toList_some, List.append_assoc, List.singleton_append,
        inLink.order, ofLink_append, ofLink_append, first.ofLink_eq]
    · intro other mem
      exact inLink.past other (kept.subset mem)
    · intro i req' waits
      obtain ⟨owned, made, latest⟩ := inLink.waiting i req' (waiting i req' waits)
      exact ⟨owned, made, fun other mem => latest other (kept.subset mem)⟩
  · refine ⟨?_, ?_, ?_, ?_⟩
    · show InOrder (arrived r c.store).sendQueue
      rw [arrived_queue]
      exact inLink.sorted
    · intro link
      show ofLink link h.queued =
        ofLink link (h.dispatched ++ (inTransfer _).toList ++ (arrived r c.store).sendQueue)
      rw [inTransfer_waits, Option.toList_none, List.append_nil, arrived_queue]
      exact inLink.order link
    · show ∀ other ∈ (arrived r c.store).sendQueue, _
      rw [arrived_queue]
      exact inLink.past
    · intro i req' waits
      show source req'.logicLink = i ∧ req'.requestTime ≤ c.now ∧
        ∀ other ∈ (arrived r c.store).sendQueue, _
      rw [arrived_queue]
      exact inLink.waiting i req' (waiting i req' waits)

structure Serving (source : κ → ι) (c : NetConfig ι κ) (h : History κ) : Prop where
  inLink : InLink source c h
  counted : Counted c h

theorem Serving.step {source : κ → ι} {senders : List ι} {all : ∀ i, i ∈ senders} :
    ∀ (x : NetConfig ι κ × History κ) (l : NetLabel ι κ) (y : NetConfig ι κ × History κ),
      Serving source x.1 x.2 → Owned source l →
      recording (netSystem ι κ senders all).step note x l = some y → Serving source y.1 y.2 := by
  apply System.records_of_steps
  · rintro c h p r choice seg ⟨inLink, counted⟩ owns resumes ran
    cases p with
    | netif => exact ⟨inLink.netif ran, counted.netif resumes ran⟩
    | sender i => exact ⟨inLink.sender owns resumes ran, counted.sender resumes ran⟩
  · rintro c h c' ⟨inLink, counted⟩ - rfl
    exact ⟨inLink.wake rfl (fun _ => Status.wake_point) le_rfl,
      counted.wake rfl Status.wake_point⟩
  · rintro c h c' t ⟨inLink, counted⟩ - later rfl
    exact ⟨inLink.wake rfl (fun _ => Status.wake_point) later.le,
      counted.wake rfl Status.wake_point⟩

omit [DecidableEq ι] in
theorem serving_start (source : κ → ι) (schedule : List κ) (buffer : Option UInt32) :
    Serving source (bufferStart schedule buffer) noHistory :=
  ⟨inLink_start source schedule buffer, counted_start schedule buffer⟩

omit [DecidableEq ι] in
theorem Serving.queued {source : κ → ι} {c : NetConfig ι κ} {h : History κ}
    (serving : Serving source c h) (link : κ) :
    ofLink link h.queued = ofLink link h.served ++ ofLink link (inTransfer c).toList ++
      ofLink link c.store.sendQueue := by
  rw [serving.inLink.order, serving.counted.dispatched, ofLink_append, ofLink_append]

/-- In every run in which each link has one source, the requests of a link are served, in transfer
and queued in the order in which they entered the queue. -/
theorem served_in_link_order {source : κ → ι} {buffer : Option UInt32} {schedule : List κ}
    {senders : List ι} (all : ∀ i, i ∈ senders) {labels : List (NetLabel ι κ)}
    {c : NetConfig ι κ} (owned : ∀ l ∈ labels, Owned source l)
    (reach : run (netSystem ι κ senders all).step (bufferStart schedule buffer) labels = some c) :
    ∃ h, run (recording (netSystem ι κ senders all).step note)
        (bufferStart schedule buffer, noHistory) labels = some (c, h) ∧
      ∀ link, ofLink link h.queued = ofLink link h.served ++ ofLink link (inTransfer c).toList ++
        ofLink link c.store.sendQueue := by
  obtain ⟨h, recorded⟩ := exists_history noHistory reach
  have along : Along (recording (netSystem ι κ senders all).step note)
      (fun _ l => Owned source l) (bufferStart schedule buffer, noHistory) labels :=
    along_of_forall owned
  have serving := run_invariant Serving.step (serving_start source schedule buffer) along recorded
  exact ⟨h, recorded, serving.queued⟩

/-- Two requests of one link and a third of the link that the schedule prefers. -/
def preferredMessages : List (NetLabel Bool Bool) :=
  [.eval .netif (.delay 0), .eval (.sender false) (.send false 4),
    .eval (.sender false) (.send false 8), .eval (.sender true) (.send true 4), .delta,
    .eval .netif (.delay 5), .delta, .advance 5, .eval .netif (.delay 5), .delta, .advance 10,
    .eval .netif (.delay 5)]

theorem preferredMessages_in_order :
    ∃ c h, run (recording twoLinks.step note) (bufferStart [true, false] none, noHistory)
        preferredMessages = some (c, h) ∧
      ∀ link, ofLink link h.queued = ofLink link h.served ++ ofLink link (inTransfer c).toList ++
        ofLink link c.store.sendQueue := by
  have owned : ∀ l ∈ preferredMessages, Owned id l := by decide
  have defined : (run twoLinks.step (bufferStart [true, false] none)
      preferredMessages).isSome = true := by decide +kernel
  obtain ⟨c, reach⟩ := Option.isSome_iff_exists.mp defined
  obtain ⟨h, recorded, order⟩ := served_in_link_order bothSenders_listed owned reach
  exact ⟨c, h, recorded, order⟩

example : (run (recording twoLinks.step note) (bufferStart [true, false] none, noHistory)
    preferredMessages).map (fun x => x.2.served.map SendRequest.messageSize) =
      some [4, 4] := by decide +kernel

end Kista.Network.LinkOrder
