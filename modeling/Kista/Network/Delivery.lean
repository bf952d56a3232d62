/- Kista/Network/Delivery
   source: src/src/synch_comm/fifo_buffer.hpp, src/src/network_interface.cpp
   digest: Every token that is sent through the network interface is read once, in the order of
   the writes, and not before its own message has been transferred. -/

import Kista.Network.Channels

set_option autoImplicit false
set_option relaxedAutoImplicit false

namespace Kista.Network.Delivery

open Kernel.Delta Kernel.Run Kernel.Census Interface Stranding EmptyDispatch ExactlyOnce LinkOrder
open SynchComm SynchComm.Buffer SynchComm.ReadPermits SynchComm.BlockedCalls Channels

variable {τ ι κ : Type}

/-- The token of a writer that waits for room in the buffer. -/
def storing : Writer τ → List τ
  | .storing val => [val]
  | _ => []

/-- One channel beside the history of the interface. -/
structure Joined [Fintype ι] [DecidableEq κ] (source : κ → ι) (size : ℕ) (initial : List τ)
    (link : κ) (net : History κ) (b : FifoBuffer τ ι ι) (h : Log τ)
    (sent : List (SendRequest κ × τ)) : Prop where
  permits : Permits b h 0
  supplied : Supplied size b 0
  consumed : h.consumed = h.read.length + census isReading b.reader
  running : b.running = true
  plink : b.assocPlink = some .netif
  injected : h.initial = initial
  requests : b.requests + (ofLink link net.served).length = (ofLink link net.queued).length
  transfers : h.transfers = (ofLink link net.served).length
  requested : sent.map Prod.fst = ofLink link net.queued
  tokens : h.written ++ storing (b.writer (source link)) = initial ++ sent.map Prod.snd
  others : ∀ i, i ≠ source link → b.writer i = .outside

/-- The whole network: a sender that waits for room in the transmission buffer is in a write. -/
structure Delivering [Fintype ι] [DecidableEq κ] (source : κ → ι) (size : κ → ℕ)
    (initial : κ → List τ) (s : ChannelNetwork τ ι κ) (t : Traffic τ κ) : Prop where
  serving : Serving source s.netif t.net
  joined : ∀ link, Joined source (size link) (initial link) link t.net (s.channel link)
    (t.log link) (t.sent link)
  waiting : ∀ i req, (s.netif.status (.sender i)).point = .waiting req →
    ∃ val, (s.channel req.logicLink).writer i = .requesting val

section

variable [Fintype ι] [DecidableEq κ] {source : κ → ι} {size : ℕ} {initial : List τ} {link : κ}
  {net net' : History κ} {b : FifoBuffer τ ι ι} {h : Log τ} {sent : List (SendRequest κ × τ)}

/-- A channel as its elaboration leaves it. -/
theorem joined_start [DecidableEq ι] (fits : initial.length ≤ size)
    (elaborates : run Buffer.step (fifoBuffer size) (elaboration initial) = some b) :
    Joined source size initial link noHistory b
      { noLog with initial := initial, written := initial } [] := by
  rw [run_elaboration fits] at elaborates
  obtain rfl := Option.some.inj elaborates
  have nobodyStores : census isStoring (elaborated size initial : FifoBuffer τ ι ι).writer = 0 :=
    census_eq_zero.mpr fun _ => rfl
  have nobodyReads : census isReading (elaborated size initial : FifoBuffer τ ι ι).reader = 0 :=
    census_eq_zero.mpr fun _ => rfl
  refine ⟨⟨rfl, rfl, nofun⟩, ?_, ?_, rfl, rfl, rfl, rfl, rfl, rfl, rfl, fun _ _ => rfl⟩
  · refine supplied_of_running rfl rfl fits rfl ?_
    rw [nobodyStores, nobodyReads]
    rfl
  · rw [nobodyReads]
    rfl

/-- A channel sees of the interface the requests of its own link. -/
theorem Joined.elsewhere (j : Joined source size initial link net b h sent)
    (queued : ofLink link net'.queued = ofLink link net.queued)
    (served : ofLink link net'.served = ofLink link net.served) :
    Joined source size initial link net' b h sent where
  permits := j.permits
  supplied := j.supplied
  consumed := j.consumed
  running := j.running
  plink := j.plink
  injected := j.injected
  requests := by rw [queued, served]; exact j.requests
  transfers := by rw [served]; exact j.transfers
  requested := by rw [queued]; exact j.requested
  tokens := j.tokens
  others := j.others

variable [DecidableEq ι]

omit [Fintype ι] [DecidableEq κ] in
/-- During the simulation a step keeps the mapping, the initial tokens and every permit. -/
theorem step_of_running {b' : FifoBuffer τ ι ι} {l : FifoLabel τ ι ι} (running : b.running = true)
    (taken : Buffer.step b l = some b') :
    b'.running = true ∧ b'.assocPlink = b.assocPlink ∧ (Buffer.note b l b' h).initial = h.initial ∧
      forgotten b l = 0 := by
  cases l with
  | autoMap route => simp [Buffer.step, running] at taken
  | initialWrite val => simp [Buffer.step, running] at taken
  | startSimulation => simp [Buffer.step, running] at taken
  | write i val =>
    simp only [Buffer.step] at taken
    split at taken <;> cases taken
    exact ⟨running, rfl, rfl, rfl⟩
  | transferred i =>
    simp only [Buffer.step] at taken
    split at taken <;> cases taken
    exact ⟨running, rfl, rfl, rfl⟩
  | accepted i =>
    simp only [Buffer.step] at taken
    split at taken <;> cases taken
    exact ⟨running, rfl, rfl, rfl⟩
  | stored i =>
    simp only [Buffer.step] at taken
    split at taken
    · rename_i val inside
      obtain ⟨pushed, push, rfl⟩ := Option.map_eq_some_iff.mp taken
      obtain ⟨-, rfl⟩ := push_eq_some.mp push
      have noted : Buffer.note b (.stored i)
          (setWriter { b with tokens := b.tokens ++ [val] } i .outside) h =
            { h with written := h.written ++ [val] } := by
        simp only [Buffer.note, inside]
      rw [noted]
      exact ⟨running, rfl, rfl, rfl⟩
    · cases taken
  | served =>
    simp only [Buffer.step] at taken
    split at taken <;> cases taken
    exact ⟨running, rfl, rfl, rfl⟩
  | read j =>
    simp only [Buffer.step] at taken
    split at taken <;> cases taken
    exact ⟨running, rfl, rfl, rfl⟩
  | permitted j =>
    simp only [Buffer.step] at taken
    split at taken
    · obtain ⟨waited, wait, rfl⟩ := Option.map_eq_some_iff.mp taken
      obtain ⟨-, rfl⟩ := wait_eq_some.mp wait
      exact ⟨running, rfl, rfl, rfl⟩
    · cases taken
  | taken j =>
    simp only [Buffer.step] at taken
    split at taken
    · obtain ⟨popped, pop, rfl⟩ := Option.map_eq_some_iff.mp taken
      obtain ⟨val, rest, -, rfl⟩ := pop_eq_some.mp pop
      exact ⟨running, rfl, rfl, rfl⟩
    · cases taken

/-- What a step of the channel keeps by itself; the rest joins it to the interface. -/
theorem Joined.step {b' : FifoBuffer τ ι ι} {l : FifoLabel τ ι ι} {sent' : List (SendRequest κ × τ)}
    (j : Joined source size initial link net b h sent) (taken : Buffer.step b l = some b')
    (requests : b'.requests + (ofLink link net'.served).length = (ofLink link net'.queued).length)
    (transfers : (Buffer.note b l b' h).transfers = (ofLink link net'.served).length)
    (requested : sent'.map Prod.fst = ofLink link net'.queued)
    (tokens : (Buffer.note b l b' h).written ++ storing (b'.writer (source link)) =
      initial ++ sent'.map Prod.snd)
    (others : ∀ i, i ≠ source link → b'.writer i = .outside) :
    Joined source size initial link net' b' (Buffer.note b l b' h) sent' := by
  obtain ⟨running, plink, injected, kept⟩ := step_of_running (h := h) j.running taken
  have permits := j.permits.step taken
  have supplied := j.supplied.step taken
  rw [kept] at permits supplied
  exact ⟨permits, supplied, j.supplied.consumed taken j.consumed, running, plink.trans j.plink,
    injected.trans j.injected, requests, transfers, requested, tokens, others⟩

theorem Joined.write {val : τ} {b' : FifoBuffer τ ι ι}
    (j : Joined source size initial link net b h sent)
    (taken : Buffer.step b (.write (source link) val) = some b') :
    b' = setWriter b (source link) (.requesting val) ∧
      Joined source size initial link net b' h sent := by
  have whole := taken
  simp only [Buffer.step] at taken
  split at taken
  · rename_i running outside
    rw [j.plink] at taken
    cases taken
    refine ⟨rfl, j.step whole j.requests j.transfers j.requested ?_ ?_⟩
    · have before := j.tokens
      rw [outside] at before
      show h.written ++ storing (Function.update b.writer (source link) _ (source link)) = _
      rw [Function.update_self]
      exact before
    · intro i other
      exact (Function.update_of_ne other _ _).trans (j.others i other)
  · cases taken

theorem Joined.accepted {val : τ} {req : SendRequest κ} {b' : FifoBuffer τ ι ι}
    (j : Joined source size initial link net b h sent)
    (inside : b.writer (source link) = .requesting val) (links : req.logicLink = link)
    (taken : Buffer.step b (.accepted (source link)) = some b')
    (queued : net'.queued = net.queued ++ [req]) (served : net'.served = net.served) :
    Joined source size initial link net' b' h (sent ++ [(req, val)]) ∧
      b'.writer (source link) = .storing val := by
  have whole := taken
  have one : ofLink link net'.queued = ofLink link net.queued ++ [req] := by
    rw [queued, ofLink_append, ← links, ofLink_cons_self]
    rfl
  simp only [Buffer.step, inside, Option.some.injEq] at taken
  subst taken
  refine ⟨j.step whole ?_ ?_ ?_ ?_ ?_, Function.update_self _ _ _⟩
  · show b.requests + 1 + (ofLink link net'.served).length = _
    rw [one, served, List.length_append, List.length_singleton, ← j.requests]
    omega
  · rw [served]
    exact j.transfers
  · rw [one, List.map_append, j.requested]
    rfl
  · have before := j.tokens
    rw [inside] at before
    show h.written ++ storing (Function.update b.writer (source link) _ (source link)) = _
    rw [Function.update_self, List.map_append, ← List.append_assoc, ← before]
    simp [storing]
  · intro i other
    exact (Function.update_of_ne other _ _).trans (j.others i other)

theorem Joined.served {req : SendRequest κ} {b' : FifoBuffer τ ι ι}
    (j : Joined source size initial link net b h sent) (links : req.logicLink = link)
    (taken : Buffer.step b .served = some b')
    (queued : net'.queued = net.queued) (served : net'.served = net.served ++ [req]) :
    Joined source size initial link net' b' (Buffer.note b .served b' h) sent := by
  have whole := taken
  have one : (ofLink link net'.served).length = (ofLink link net.served).length + 1 := by
    rw [served, ofLink_append, ← links, ofLink_cons_self, List.length_append]
    rfl
  simp only [Buffer.step] at taken
  split at taken
  · rename_i pending
    cases taken
    refine j.step whole ?_ ?_ ?_ j.tokens j.others
    · show b.requests - 1 + (ofLink link net'.served).length = _
      rw [one, queued, ← j.requests]
      omega
    · show h.transfers + 1 = _
      rw [one, j.transfers]
    · rw [queued]
      exact j.requested
  · cases taken

theorem Joined.stored {i : ι} {b' : FifoBuffer τ ι ι}
    (j : Joined source size initial link net b h sent)
    (taken : Buffer.step b (.stored i) = some b') :
    Joined source size initial link net b' (Buffer.note b (.stored i) b' h) sent ∧
      ∃ val, b.writer i = .storing val ∧ b'.writer = Function.update b.writer i .outside := by
  have whole := taken
  simp only [Buffer.step] at taken
  split at taken
  · rename_i val inside
    obtain ⟨pushed, push, rfl⟩ := Option.map_eq_some_iff.mp taken
    obtain ⟨-, rfl⟩ := push_eq_some.mp push
    have mine : i = source link := by
      by_contra other
      rw [j.others i other] at inside
      cases inside
    subst mine
    refine ⟨j.step whole j.requests ?_ j.requested ?_ ?_, val, inside, rfl⟩
    · simp only [Buffer.note, inside]
      exact j.transfers
    · have before := j.tokens
      rw [inside] at before
      simp only [Buffer.note, inside]
      show h.written ++ [val] ++
        storing (Function.update b.writer (source link) _ (source link)) = _
      rw [Function.update_self, ← before]
      simp [storing]
    · intro i other
      exact (Function.update_of_ne other _ _).trans (j.others i other)
  · cases taken

/-- The steps of the readers do nothing to the writers and the requests. -/
theorem Joined.reader {i : ι} {l : FifoLabel τ ι ι} {b' : FifoBuffer τ ι ι}
    (reads : l = .read i ∨ l = .permitted i ∨ l = .taken i)
    (j : Joined source size initial link net b h sent) (taken : Buffer.step b l = some b') :
    Joined source size initial link net b' (Buffer.note b l b' h) sent ∧ b'.writer = b.writer := by
  have whole := taken
  rcases reads with rfl | rfl | rfl
  · simp only [Buffer.step] at taken
    split at taken
    · cases taken
      exact ⟨j.step whole j.requests j.transfers j.requested j.tokens j.others, rfl⟩
    · cases taken
  · simp only [Buffer.step] at taken
    split at taken
    · obtain ⟨waited, wait, rfl⟩ := Option.map_eq_some_iff.mp taken
      obtain ⟨-, rfl⟩ := wait_eq_some.mp wait
      exact ⟨j.step whole j.requests j.transfers j.requested j.tokens j.others, rfl⟩
    · cases taken
  · simp only [Buffer.step] at taken
    split at taken
    · obtain ⟨popped, pop, rfl⟩ := Option.map_eq_some_iff.mp taken
      obtain ⟨val, rest, -, rfl⟩ := pop_eq_some.mp pop
      exact ⟨j.step whole j.requests j.transfers j.requested j.tokens j.others, rfl⟩
    · cases taken

end

section Network

variable [Fintype ι] [DecidableEq κ] {source : κ → ι} {size : κ → ℕ} {initial : κ → List τ}
  {s s' : ChannelNetwork τ ι κ} {t t' : Traffic τ κ} {link : κ}

/-- What a step on behalf of one link leaves alone. -/
structure Aside (link : κ) (s s' : ChannelNetwork τ ι κ) (t t' : Traffic τ κ) : Prop where
  channel : ∀ link', link' ≠ link → s'.channel link' = s.channel link'
  log : ∀ link', link' ≠ link → t'.log link' = t.log link'
  sent : ∀ link', link' ≠ link → t'.sent link' = t.sent link'
  queued : ∀ link', link' ≠ link → ofLink link' t'.net.queued = ofLink link' t.net.queued
  served : ∀ link', link' ≠ link → ofLink link' t'.net.served = ofLink link' t.net.served

theorem Delivering.of_aside (link : κ) (d : Delivering source size initial s t)
    (aside : Aside link s s' t t') (serving : Serving source s'.netif t'.net)
    (here : Joined source (size link) (initial link) link t'.net (s'.channel link) (t'.log link)
      (t'.sent link))
    (waits : ∀ i req, (s'.netif.status (.sender i)).point = .waiting req →
      req.logicLink = link ∧ (∃ val, (s'.channel link).writer i = .requesting val) ∨
        req.logicLink ≠ link ∧ (s.netif.status (.sender i)).point = .waiting req) :
    Delivering source size initial s' t' := by
  refine ⟨serving, ?_, ?_⟩
  · intro link'
    by_cases same : link' = link
    · rw [same]
      exact here
    · rw [aside.channel link' same, aside.log link' same, aside.sent link' same]
      exact (d.joined link').elsewhere (aside.queued link' same) (aside.served link' same)
  · intro i req waits'
    rcases waits i req waits' with ⟨rfl, inside⟩ | ⟨other, before⟩
    · exact inside
    · rw [aside.channel req.logicLink other]
      exact d.waiting i req before

theorem delivering_start [DecidableEq ι] (fits : ∀ link, (initial link).length ≤ size link)
    (buffer : Option UInt32) (schedule : List κ) :
    Delivering source size initial
      (startOfSimulation buffer schedule size initial : ChannelNetwork τ ι κ)
      (initialTraffic initial) := by
  refine ⟨serving_start source schedule buffer, fun link =>
    joined_start (fits link) (run_elaboration (fits link)), ?_⟩
  intro i req waits
  cases buffer <;> cases waits

variable [DecidableEq ι] {senders : List ι} {all : ∀ i, i ∈ senders}

/-- A step of one channel, noted in its log. -/
theorem Delivering.onChannel {l : FifoLabel τ ι ι} (d : Delivering source size initial s t)
    (taken : Channels.onChannel s link l = some s')
    (joined : ∀ b, Buffer.step (s.channel link) l = some b →
      Joined source (size link) (initial link) link t.net b
        (Buffer.note (s.channel link) l b (t.log link)) (t.sent link) ∧
      ∀ i val, (s.channel link).writer i = .requesting val → b.writer i = .requesting val) :
    Delivering source size initial s' (noteChannel s s' link l t) := by
  obtain ⟨b, stepped, rfl⟩ := Option.map_eq_some_iff.mp taken
  obtain ⟨here, kept⟩ := joined b stepped
  refine d.of_aside link ?_ d.serving ?_ ?_
  · refine ⟨fun link' other => Function.update_of_ne other _ _, ?_, fun _ _ => rfl,
      fun _ _ => rfl, fun _ _ => rfl⟩
    exact fun link' other => Function.update_of_ne other _ _
  · simpa only [noteChannel, Function.update_self] using here
  · intro i req waits
    by_cases same : req.logicLink = link
    · obtain ⟨val, inside⟩ := d.waiting i req waits
      rw [same] at inside
      refine .inl ⟨same, val, ?_⟩
      simpa only [Function.update_self] using kept i val inside
    · exact .inr ⟨same, waits⟩

theorem Delivering.stored {i : ι} (d : Delivering source size initial s t)
    (taken : Channels.onChannel s link (.stored i) = some s') :
    Delivering source size initial s' (noteChannel s s' link (.stored i) t) := by
  refine d.onChannel taken fun b stepped => ?_
  obtain ⟨here, val, inside, moved⟩ := (d.joined link).stored stepped
  refine ⟨here, ?_⟩
  intro k val' requesting
  rw [moved, Function.update_of_ne _ _ _, requesting]
  rintro rfl
  rw [inside] at requesting
  cases requesting

theorem Delivering.reader {i : ι} {l : FifoLabel τ ι ι}
    (reads : l = .read i ∨ l = .permitted i ∨ l = .taken i)
    (d : Delivering source size initial s t) (taken : Channels.onChannel s link l = some s') :
    Delivering source size initial s' (noteChannel s s' link l t) := by
  refine d.onChannel taken fun b stepped => ?_
  obtain ⟨here, same⟩ := (d.joined link).reader reads stepped
  refine ⟨here, ?_⟩
  intro k val requesting
  rw [same]
  exact requesting

/-- The first part of a write; nobody has seen its request yet. -/
theorem Delivering.write {val : τ} (d : Delivering source size initial s t)
    (taken : Channels.onChannel s link (.write (source link) val) = some s') :
    Delivering source size initial s' t ∧ s'.netif = s.netif ∧
      (s'.channel link).writer (source link) = .requesting val := by
  obtain ⟨b, stepped, rfl⟩ := Option.map_eq_some_iff.mp taken
  obtain ⟨rfl, here⟩ := (d.joined link).write stepped
  refine ⟨?_, rfl, ?_⟩
  · refine d.of_aside link ?_ d.serving ?_ ?_
    · exact ⟨fun link' other => Function.update_of_ne other _ _, fun _ _ => rfl, fun _ _ => rfl,
        fun _ _ => rfl, fun _ _ => rfl⟩
    · simpa only [Function.update_self] using here
    · intro i req waits
      by_cases same : req.logicLink = link
      · refine .inl ⟨same, ?_⟩
        simp only [Function.update_self, setWriter]
        by_cases mine : i = source link
        · subst mine
          exact ⟨val, Function.update_self _ _ _⟩
        · obtain ⟨val', inside⟩ := d.waiting i req waits
          rw [same] at inside
          exact ⟨val', (Function.update_of_ne mine _ _).trans inside⟩
      · exact .inr ⟨same, waits⟩
  · simp only [Function.update_self, setWriter]

/-- `request_sending` blocks for room in the transmission buffer, or takes the request and lets
the write go on to its buffer. -/
theorem Delivering.request {i : ι} {choice : NetChoice κ} {val : τ}
    (d : Delivering source size initial s t) (mine : source link = i)
    (inside : (s.channel link).writer i = .requesting val)
    (offers : ∀ req, offered s.netif i choice = some req → req.logicLink = link)
    (owns : Owned source (.eval (.sender i) choice : NetLabel ι κ))
    (taken : Channels.request senders all s i link choice = some s') :
    Delivering source size initial s' (noteRequest s s' i link choice t) := by
  obtain ⟨s₁, onNetif, rest⟩ := Option.bind_eq_some_iff.mp taken
  obtain ⟨c', stepped, rfl⟩ := Option.map_eq_some_iff.mp onNetif
  have serving := Serving.step (s.netif, t.net) (.eval (.sender i) choice)
    (c', ExactlyOnce.note s.netif (.eval (.sender i) choice) c' t.net) d.serving owns
    (recording_eq_some.mpr ⟨stepped, rfl⟩)
  obtain ⟨r, seg, resumes, ran, rfl⟩ := System.step_eval_eq_some.mp stepped
  obtain ⟨req, notified, offer, -, ⟨-, rfl⟩ | rfl⟩ := exec_sender_offered resumes ran
  · have links := offers req offer
    simp only [Function.update_self, Option.some.injEq] at rest
    subst rest
    have unsent := returned_blocked s.netif i choice req s.netif.store (notified ++ s.netif.pending)
    have noted : ExactlyOnce.note s.netif (.eval (.sender i) choice) ⟨s.netif.store,
        Function.update s.netif.status (.sender i)
          (.blocked [.sendRequestCompleted] none (.waiting req)),
        notified ++ s.netif.pending, s.netif.now⟩ t.net = t.net := by
      rw [ExactlyOnce.note, unsent, Option.toList_none, List.append_nil]
    refine d.of_aside link ?_ serving ?_ ?_
    · refine ⟨fun _ _ => rfl, fun _ _ => rfl, fun link' other => Function.update_of_ne other _ _,
        ?_, ?_⟩
      · intro link' other
        exact congrArg (fun net : History κ => ofLink link' net.queued) noted
      · intro link' other
        exact congrArg (fun net : History κ => ofLink link' net.served) noted
    · simp only [noteRequest, tokenSent, unsent, noted, Function.update_self, List.append_nil]
      exact d.joined link
    · intro k req' waits
      by_cases same : k = i
      · subst same
        simp only [Function.update_self, Status.point, NetPoint.waiting.injEq] at waits
        exact .inl ⟨waits ▸ links, val, inside⟩
      · have before : (s.netif.status (.sender k)).point = .waiting req' := by
          simpa [same] using waits
        by_cases here : req'.logicLink = link
        · exact .inl ⟨here, here ▸ d.waiting k req' before⟩
        · exact .inr ⟨here, before⟩
  · have links := offers req offer
    simp only [Function.update_self] at rest
    obtain ⟨b, accepted, rfl⟩ := Option.map_eq_some_iff.mp rest
    have sent := returned_free s.netif i choice (store s.netif.store req)
      (notified ++ s.netif.pending)
    have noted : ExactlyOnce.note s.netif (.eval (.sender i) choice) ⟨store s.netif.store req,
        Function.update s.netif.status (.sender i) (.free .outside),
        notified ++ s.netif.pending, s.netif.now⟩ t.net =
          { t.net with queued := t.net.queued ++ [req] } := by
      rw [ExactlyOnce.note, sent, offer, Option.toList_some]
    subst mine
    obtain ⟨here, writer⟩ : Joined source (size link) (initial link) link
        { t.net with queued := t.net.queued ++ [req] } b (t.log link)
        (t.sent link ++ [(req, val)]) ∧ b.writer (source link) = .storing val :=
      (d.joined link).accepted inside links accepted rfl rfl
    refine d.of_aside link ?_ serving ?_ ?_
    · refine ⟨fun link' other => Function.update_of_ne other _ _, fun _ _ => rfl,
        fun link' other => Function.update_of_ne other _ _, ?_, ?_⟩
      · intro link' other
        refine (congrArg (fun net : History κ => ofLink link' net.queued) noted).trans ?_
        show ofLink link' (t.net.queued ++ [req]) = ofLink link' t.net.queued
        rw [ofLink_append, ofLink_cons_of_ne (fun same => other (same.symm.trans links))]
        exact List.append_nil _
      · intro link' other
        exact (congrArg (fun net : History κ => ofLink link' net.served) noted).trans rfl
    · simp only [noteRequest, tokenSent, sent, offer, noted, Function.update_self, writer]
      exact here
    · intro k req' waits
      by_cases same : k = source link
      · subst same
        simp [Status.point] at waits
      · have before : (s.netif.status (.sender k)).point = .waiting req' := by
          simpa [same] using waits
        by_cases here' : req'.logicLink = link
        · obtain ⟨val', writing⟩ := d.waiting k req' before
          rw [here', (d.joined link).others k same] at writing
          cases writing
        · exact .inr ⟨here', before⟩

/-- A transfer that has ended is posted to its channel, and the interface goes on. -/
theorem Delivering.transfer {commDelay : ℕ} (d : Delivering source size initial s t)
    (taken : Channels.transfer senders all s commDelay = some s') :
    Delivering source size initial s' (noteTransfer s s' commDelay t) := by
  obtain ⟨s₁, onNetif, rest⟩ := Option.bind_eq_some_iff.mp taken
  obtain ⟨c', stepped, rfl⟩ := Option.map_eq_some_iff.mp onNetif
  have serving := Serving.step (s.netif, t.net) (.eval .netif (.delay commDelay))
    (c', ExactlyOnce.note s.netif (.eval .netif (.delay commDelay)) c' t.net) d.serving trivial
    (recording_eq_some.mpr ⟨stepped, rfl⟩)
  obtain ⟨r, seg, resumes, ran, rfl⟩ := System.step_eval_eq_some.mp stepped
  have waiting : ∀ i req, (Function.update s.netif.status .netif seg.status (.sender i)).point =
      .waiting req → (s.netif.status (.sender i)).point = .waiting req := by
    intro i req waits
    exact update_netif_sender s.netif.status seg.status i ▸ waits
  cases ended : inTransfer s.netif with
  | none =>
    simp only [ended, Option.some.injEq] at rest
    subst rest
    have silent : ∀ link, ofLink link (t.net.served ++ (inTransfer s.netif).toList) =
        ofLink link t.net.served := by
      intro link
      rw [ended, Option.toList_none, List.append_nil]
    simp only [noteTransfer, ended]
    refine ⟨serving, fun link => (d.joined link).elsewhere rfl (silent link), ?_⟩
    intro i req waits
    exact d.waiting i req (waiting i req waits)
  | some req =>
    simp only [ended] at rest
    obtain ⟨b, posted, rfl⟩ := Option.map_eq_some_iff.mp rest
    have served : t.net.served ++ (inTransfer s.netif).toList = t.net.served ++ [req] := by
      rw [ended, Option.toList_some]
    have same : b.writer = (s.channel req.logicLink).writer := by
      simp only [Buffer.step] at posted
      split at posted <;> cases posted
      rfl
    simp only [noteTransfer, ended]
    refine d.of_aside req.logicLink ?_ serving ?_ ?_
    · refine ⟨fun link' other => Function.update_of_ne other _ _,
        fun link' other => Function.update_of_ne other _ _, fun _ _ => rfl, fun _ _ => rfl, ?_⟩
      intro link' other
      show ofLink link' (t.net.served ++ (inTransfer s.netif).toList) = ofLink link' t.net.served
      rw [served, ofLink_append, ofLink_cons_of_ne (Ne.symm other)]
      exact List.append_nil _
    · simp only [noteChannel, Function.update_self]
      exact (d.joined req.logicLink).served rfl posted rfl served
    · intro i req' waits
      by_cases here : req'.logicLink = req.logicLink
      · obtain ⟨val, inside⟩ := d.waiting i req' (waiting i req' waits)
        refine .inl ⟨here, val, ?_⟩
        simp only [Function.update_self, same, ← here]
        exact inside
      · exact .inr ⟨here, waiting i req' waits⟩

/-- Time and the deltas touch no channel. -/
theorem Delivering.wake {l : NetLabel ι κ} (d : Delivering source size initial s t)
    (passes : l = .delta ∨ ∃ t', l = .advance t')
    (taken : onNetif senders all s l = some s') : Delivering source size initial s' t := by
  obtain ⟨c', stepped, rfl⟩ := Option.map_eq_some_iff.mp taken
  have noted : ExactlyOnce.note s.netif l c' t.net = t.net := by
    rcases passes with rfl | ⟨t', rfl⟩ <;> rfl
  have owns : Owned source l := by
    rcases passes with rfl | ⟨t', rfl⟩ <;> trivial
  have serving := Serving.step (s.netif, t.net) l (c', ExactlyOnce.note s.netif l c' t.net)
    d.serving owns (recording_eq_some.mpr ⟨stepped, rfl⟩)
  have points : ∀ p, (c'.status p).point = (s.netif.status p).point := by
    rcases passes with rfl | ⟨t', rfl⟩
    · obtain ⟨-, rfl⟩ := System.step_delta_eq_some.mp stepped
      exact fun _ => Status.wake_point
    · obtain ⟨-, rfl⟩ := System.step_advance_eq_some.mp stepped
      exact fun _ => Status.wake_point
  rw [noted] at serving
  refine ⟨serving, d.joined, ?_⟩
  intro i req waits
  exact d.waiting i req ((points _).symm.trans waits)

variable [Fintype κ] {messageSize : κ → UInt32}

/-- What one step of the network preserves. -/
theorem Delivering.step {l : ChannelLabel τ ι κ} (d : Delivering source size initial s t)
    (written : Written source l) (taken : Channels.step senders all messageSize s l = some s') :
    Delivering source size initial s' (Channels.note messageSize s l s' t) := by
  cases l with
  | write i link val =>
    have written : source link = i := written
    subst written
    simp only [Channels.step] at taken
    split at taken
    · rename_i outside
      obtain ⟨s₁, begun, requested⟩ := Option.bind_eq_some_iff.mp taken
      obtain ⟨d₁, netif, inside⟩ := d.write begun
      have offers : ∀ req, offered s₁.netif (source link) (.send link (messageSize link)) =
          some req → req.logicLink = link := by
        intro req offer
        rw [netif] at offer
        cases at' : (s.netif.status (.sender (source link))).point with
        | waiting req' =>
          obtain ⟨val', writing⟩ := d.waiting _ req' at'
          rw [(outside req'.logicLink).1] at writing
          cases writing
        | outside =>
          simp only [offered, at', Option.some.injEq] at offer
          exact offer ▸ rfl
        | start => simp [offered, at'] at offer
        | requested => simp [offered, at'] at offer
        | transferred req' => simp [offered, at'] at offer
      have final := d₁.request rfl inside offers rfl requested
      have same : noteRequest s₁ s' (source link) link (.send link (messageSize link)) t =
          noteRequest s s' (source link) link (.send link (messageSize link)) t := by
        simp only [noteRequest, tokenSent, netif]
      rw [same] at final
      exact final
    · cases taken
  | resume i =>
    simp only [Channels.step] at taken
    simp only [Channels.note]
    split at taken
    · rename_i req at'
      obtain ⟨val, inside⟩ := d.waiting i req at'
      have mine : source req.logicLink = i := by
        by_contra other
        rw [(d.joined req.logicLink).others i (Ne.symm other)] at inside
        cases inside
      have offers : ∀ req', offered s.netif i (.delay 0) = some req' →
          req'.logicLink = req.logicLink := by
        intro req' offer
        simp only [offered, at', Option.some.injEq] at offer
        rw [offer]
      exact d.request mine inside offers trivial taken
    · cases taken
  | stored i link => exact d.stored taken
  | read i link =>
    simp only [Channels.step] at taken
    split at taken
    · exact d.reader (.inl rfl) taken
    · cases taken
  | permitted i link => exact d.reader (.inr (.inl rfl)) taken
  | taken i link => exact d.reader (.inr (.inr rfl)) taken
  | transfer commDelay => exact d.transfer taken
  | delta => exact d.wake (.inl rfl) taken
  | advance t' => exact d.wake (.inr ⟨t', rfl⟩) taken

end Network

/-- The messages of a channel are its tokens in the order of the writes. A token that is read came
before the simulation, or its own message has been transferred. -/
structure Delivered [DecidableEq κ] (source : κ → ι) (initial : List τ) (link : κ)
    (s : ChannelNetwork τ ι κ) (t : Traffic τ κ) : Prop where
  requests : (t.sent link).map Prod.fst = ofLink link t.net.served ++
    ofLink link (inTransfer s.netif).toList ++ ofLink link s.netif.store.sendQueue
  tokens : (t.log link).read ++ (s.channel link).tokens ++
    storing ((s.channel link).writer (source link)) = initial ++ (t.sent link).map Prod.snd
  transferred : ∀ n val, (t.log link).read[initial.length + n]? = some val →
    ∃ req, (t.sent link)[n]? = some (req, val) ∧ (ofLink link t.net.served)[n]? = some req

/-- When the interface has nothing of the link, the writer is out of its call and no reader is
between its permit and its token, there are as many permits as tokens. -/
def Readable [DecidableEq κ] (source : κ → ι) (link : κ) (s : ChannelNetwork τ ι κ) : Prop :=
  ofLink link (inTransfer s.netif).toList = [] → ofLink link s.netif.store.sendQueue = [] →
    (s.channel link).writer (source link) = .outside →
    (∀ i, (s.channel link).reader i ≠ .reading) →
    (s.channel link).completedTransactions = (s.channel link).tokens.length

section Results

variable [Fintype ι] [DecidableEq κ] {source : κ → ι} {size : κ → ℕ} {initial : κ → List τ}
  {s : ChannelNetwork τ ι κ} {t : Traffic τ κ}

theorem Delivering.requests (d : Delivering source size initial s t) (link : κ) :
    (t.sent link).map Prod.fst = ofLink link t.net.served ++
      ofLink link (inTransfer s.netif).toList ++ ofLink link s.netif.store.sendQueue :=
  (d.joined link).requested.trans (d.serving.queued link)

theorem Delivering.delivered (d : Delivering source size initial s t) (link : κ) :
    Delivered source (initial link) link s t := by
  have j := d.joined link
  have requests := d.requests link
  have tokens : (t.log link).read ++ (s.channel link).tokens ++
      storing ((s.channel link).writer (source link)) =
        initial link ++ (t.sent link).map Prod.snd := by
    rw [j.permits.order]
    exact j.tokens
  refine ⟨requests, tokens, ?_⟩
  intro n val found
  have within := (List.getElem?_eq_some_iff.mp found).1
  have law := j.permits.law
  rw [j.injected, j.transfers, j.consumed] at law
  have served : n < (ofLink link t.net.served).length := by omega
  have sent : ((t.sent link).map Prod.snd)[n]? = some val := by
    have whole : (initial link ++ (t.sent link).map Prod.snd)[(initial link).length + n]? =
        some val := by
      rw [← tokens, List.append_assoc, List.getElem?_append_left within]
      exact found
    rwa [List.getElem?_append_right (Nat.le_add_right _ _), Nat.add_sub_cancel_left] at whole
  rw [List.getElem?_map, Option.map_eq_some_iff] at sent
  obtain ⟨⟨req, val'⟩, at', rfl⟩ := sent
  refine ⟨req, at', ?_⟩
  have message : ((t.sent link).map Prod.fst)[n]? = some req := by
    rw [List.getElem?_map, at']
    rfl
  rwa [requests, List.append_assoc, List.getElem?_append_left served] at message

theorem Delivering.readable (d : Delivering source size initial s t) (link : κ) :
    Readable source link s := by
  intro idle empty outside unread
  have j := d.joined link
  have balance := j.supplied.balance
  have requests := j.requests
  rw [d.serving.queued link, idle, empty, List.append_nil, List.append_nil] at requests
  have nobodyStores : census isStoring (s.channel link).writer = 0 := by
    refine census_eq_zero.mpr fun i => ?_
    by_cases mine : i = source link
    · rw [mine, outside]
      rfl
    · rw [j.others i mine]
      rfl
  have nobodyReads : census isReading (s.channel link).reader = 0 := by
    refine census_eq_zero.mpr fun i => Bool.eq_false_iff.mpr fun reads => ?_
    exact unread i (isReading_eq_true.mp reads)
  omega

variable [DecidableEq ι]

/-- No channel refuses the post of a transfer. -/
theorem Delivering.posts {senders : List ι} {all : ∀ i, i ∈ senders} {commDelay : ℕ}
    {c' : NetConfig ι κ} (d : Delivering source size initial s t)
    (stepped : (netSystem ι κ senders all).step s.netif (.eval .netif (.delay commDelay)) =
      some c') :
    ∃ s', Channels.transfer senders all s commDelay = some s' ∧ s'.netif = c' := by
  have onNetif : onNetif senders all s (.eval .netif (.delay commDelay)) =
      some { s with netif := c' } := by
    rw [Channels.onNetif, stepped]
    rfl
  rw [Channels.transfer, onNetif, Option.bind_some]
  cases ended : inTransfer s.netif with
  | none => exact ⟨_, rfl, rfl⟩
  | some req =>
    have requests := (d.joined req.logicLink).requests
    have one : ofLink req.logicLink (some req).toList = [req] := ofLink_cons_self req []
    rw [d.serving.queued req.logicLink, ended, one, List.length_append, List.length_append,
      List.length_singleton] at requests
    have pending : 0 < (s.channel req.logicLink).requests := by omega
    obtain ⟨b, posted⟩ : ∃ b, Buffer.step (s.channel req.logicLink) .served = some b :=
      ⟨_, if_pos pending⟩
    have taken : Channels.onChannel { s with netif := c' } req.logicLink .served =
        some ⟨c', Function.update s.channel req.logicLink b⟩ := by
      rw [Channels.onChannel, posted]
      rfl
    exact ⟨_, taken, rfl⟩

/-- In every run each channel delivers its tokens in their order, each after its own transfer, the
interface is never held up by a channel, and nothing sent stays unreadable. -/
theorem tokens_read_after_their_transfers [Fintype κ] {senders : List ι} (all : ∀ i, i ∈ senders)
    {messageSize : κ → UInt32} {buffer : Option UInt32} {schedule : List κ}
    (fits : ∀ link, (initial link).length ≤ size link) {labels : List (ChannelLabel τ ι κ)}
    (written : ∀ l ∈ labels, Written source l)
    (reach : run (Channels.step senders all messageSize)
      (startOfSimulation buffer schedule size initial) labels = some s) :
    ∃ t, run (recording (Channels.step senders all messageSize) (Channels.note messageSize))
        (startOfSimulation buffer schedule size initial, initialTraffic initial) labels =
          some (s, t) ∧
      (∀ link, Delivered source (initial link) link s t ∧ Readable source link s) ∧
      ∀ commDelay c', (netSystem ι κ senders all).step s.netif (.eval .netif (.delay commDelay)) =
        some c' → ∃ s', Channels.step senders all messageSize s (.transfer commDelay) = some s' ∧
          s'.netif = c' := by
  obtain ⟨t, recorded⟩ := exists_history (initialTraffic initial) reach
  have along : Along (recording (Channels.step senders all messageSize) (Channels.note messageSize))
      (fun _ l => Written source l) (startOfSimulation buffer schedule size initial,
        initialTraffic initial) labels := along_of_forall written
  have keep : ∀ (x : ChannelNetwork τ ι κ × Traffic τ κ) (l : ChannelLabel τ ι κ)
      (y : ChannelNetwork τ ι κ × Traffic τ κ), Delivering source size initial x.1 x.2 →
      Written source l → recording (Channels.step senders all messageSize)
        (Channels.note messageSize) x l = some y → Delivering source size initial y.1 y.2 := by
    intro x l y d writes taken
    obtain ⟨stepped, noted⟩ := recording_eq_some.mp taken
    rw [noted]
    exact d.step writes stepped
  have d : Delivering source size initial s t :=
    run_invariant keep (delivering_start fits buffer schedule) along recorded
  exact ⟨t, recorded, fun link => ⟨d.delivered link, d.readable link⟩, fun _ _ => d.posts⟩

end Results

def twoChannels : ChannelNetwork ℕ Bool Bool → ChannelLabel ℕ Bool Bool →
    Option (ChannelNetwork ℕ Bool Bool) :=
  Channels.step [false, true] bothSenders_listed fun _ => 4

/-- One channel has an initial token; both are written at one time and the first one is read. -/
def crossedMessages : List (ChannelLabel ℕ Bool Bool) :=
  [.transfer 0, .write false false 8, .stored false false, .write true true 9, .stored true true,
    .delta, .transfer 5, .delta, .advance 5, .transfer 5, .read true false, .permitted true false,
    .taken true false, .read true false, .permitted true false, .taken true false]

def oneInitial : Bool → List ℕ
  | false => [7]
  | true => []

theorem crossedMessages_delivered :
    ∃ s t, run (recording twoChannels (Channels.note fun _ => 4))
        (startOfSimulation none [] (fun _ => 2) oneInitial, initialTraffic oneInitial)
        crossedMessages = some (s, t) ∧
      ∀ link, Delivered id (oneInitial link) link s t ∧ Readable id link s := by
  have fits : ∀ link, (oneInitial link).length ≤ 2 := by decide
  have written : ∀ l ∈ crossedMessages, Written id l := by decide
  have defined : (run twoChannels (startOfSimulation none [] (fun _ => 2) oneInitial)
      crossedMessages).isSome = true := by decide +kernel
  obtain ⟨s, reach⟩ := Option.isSome_iff_exists.mp defined
  obtain ⟨t, recorded, delivered, -⟩ :=
    tokens_read_after_their_transfers bothSenders_listed fits written reach
  exact ⟨s, t, recorded, delivered⟩

example : (run (recording twoChannels (Channels.note fun _ => 4))
    (startOfSimulation none [] (fun _ => 2) oneInitial, initialTraffic oneInitial)
    crossedMessages).map (fun x => (x.2.log false).read) = some [7, 8] := by decide +kernel

end Kista.Network.Delivery
