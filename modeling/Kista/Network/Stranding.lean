/- Kista/Network/Stranding
   source: src/src/network_interface.cpp
   digest: Buffer accounting of the network interface, and the runs in which no sender is left
   waiting for room that is there. -/

import Mathlib.Algebra.GroupWithZero.Nat
import Mathlib.Data.Fintype.Basic
import Kista.Network.Interface

set_option autoImplicit false
set_option relaxedAutoImplicit false

namespace Kista.Network.Stranding

open Kernel.Delta Kernel.Run Interface

variable {ι κ : Type}

abbrev NetConfig (ι κ : Type) := Config (NetProc ι) NetEvent (NetPoint κ) (NetworkInterface κ)

abbrev NetLabel (ι κ : Type) := Label (NetProc ι) (NetChoice κ)

/-- The start of the simulation with a finite buffer. -/
def simulationStart (txBufferSize : UInt32) (schedule : List κ) : NetConfig ι κ where
  store := setTxBufferSize (networkInterface schedule fun _ => 0) txBufferSize
  status
    | .netif => .ready .start
    | .sender _ => .free .outside
  pending := []
  now := 0

/-- The request that is being transferred. -/
def inTransfer (c : NetConfig ι κ) : Option (SendRequest κ) :=
  match (c.status .netif).point with
  | .transferred req => some req
  | _ => none

/-- A sender blocked inside `request_sending` whose message would fit the given room. -/
def waitsFor (room : UInt32) : Status NetEvent (NetPoint κ) → Bool
  | .blocked _ _ (.waiting req) => decide (req.messageSize ≤ room)
  | _ => false

def Stranded (c : NetConfig ι κ) : Prop :=
  c.store.sendQueue = [] ∧ inTransfer c = none ∧ c.pending = [] ∧
    ∃ i, waitsFor c.store.roomInTxBuffer (c.status (.sender i)) = true

/-- The sizes that callers promise. -/
def WellSized (txBufferSize : UInt32) : NetLabel ι κ → Prop
  | .eval (.sender _) (.send _ size) => 1 ≤ size ∧ size ≤ txBufferSize
  | _ => True

def load (c : NetConfig ι κ) : ℕ :=
  (c.store.sendQueue.map fun req => req.messageSize.toNat).sum +
    ((inTransfer c).map fun req => req.messageSize.toNat).getD 0

/-- What is queued and in transfer is accounted for, and every blocked sender has something to
wait for. -/
structure Accounted (txBufferSize : UInt32) (c : NetConfig ι κ) : Prop where
  finite : c.store.finiteBufferFlag = true
  room : c.store.roomInTxBuffer.toNat + load c = txBufferSize.toNat
  sizes : ∀ i req, (c.status (.sender i)).point = .waiting req → req.messageSize ≤ txBufferSize
  attended : ∀ i events timeout req,
    c.status (.sender i) = .blocked events timeout (.waiting req) →
      c.store.sendQueue ≠ [] ∨ inTransfer c ≠ none

theorem accounted_start (txBufferSize : UInt32) (schedule : List κ) :
    Accounted txBufferSize (simulationStart txBufferSize schedule : NetConfig ι κ) where
  finite := rfl
  room := rfl
  sizes i req h := by cases h
  attended i events timeout req h := by cases h

theorem inTransfer_congr {c c' : NetConfig ι κ}
    (same : (c'.status .netif).point = (c.status .netif).point) : inTransfer c' = inTransfer c := by
  unfold inTransfer
  rw [same]

/-- Deltas and advances move no message. -/
theorem Accounted.wake {txBufferSize : UInt32} {c c' : NetConfig ι κ}
    (h : Accounted txBufferSize c) (store : c'.store = c.store)
    (points : ∀ p, (c'.status p).point = (c.status p).point)
    (blocked : ∀ p events timeout r, c'.status p = .blocked events timeout r →
      c.status p = .blocked events timeout r) : Accounted txBufferSize c' where
  finite := store ▸ h.finite
  room := by
    unfold load
    rw [inTransfer_congr (points .netif), store]
    exact h.room
  sizes i req waits := h.sizes i req ((points _).symm.trans waits)
  attended i events timeout req waits := by
    rw [inTransfer_congr (points .netif), store]
    exact h.attended i events timeout req (blocked _ _ _ _ waits)

/-- With nothing queued and nothing in transfer the whole buffer is free. -/
theorem Accounted.room_of_idle {txBufferSize : UInt32} {c : NetConfig ι κ}
    (h : Accounted txBufferSize c) (queue : c.store.sendQueue = []) (idle : inTransfer c = none) :
    c.store.roomInTxBuffer = txBufferSize := by
  have room := h.room
  simp only [load, queue, idle, List.map_nil, List.sum_nil, Option.map_none, Option.getD_none,
    Nat.add_zero] at room
  exact UInt32.toNat_inj.mp room

theorem Accounted.not_stranded {txBufferSize : UInt32} {c : NetConfig ι κ}
    (h : Accounted txBufferSize c) : ¬ Stranded c := by
  rintro ⟨queue, idle, -, i, waits⟩
  cases status : c.status (.sender i) with
  | ready r => simp [status, waitsFor] at waits
  | free r => simp [status, waitsFor] at waits
  | blocked events timeout r =>
    cases r with
    | waiting req =>
      rcases h.attended i events timeout req status with busy | busy
      · exact busy queue
      · exact busy idle
    | start => simp [status, waitsFor] at waits
    | requested => simp [status, waitsFor] at waits
    | outside => simp [status, waitsFor] at waits
    | transferred req => simp [status, waitsFor] at waits

variable [DecidableEq ι] [DecidableEq κ]

/-- A transfer that ends with an empty queue leaves no blocked sender that fits the room then
given back. -/
def NobodyLeft (c : NetConfig ι κ) : NetLabel ι κ → Prop
  | .eval .netif _ => ∀ req ∈ inTransfer c, c.store.sendQueue = [] →
      ∀ i, waitsFor (complete c.store req).roomInTxBuffer (c.status (.sender i)) = false
  | _ => True

instance (txBufferSize : UInt32) : (l : NetLabel ι κ) → Decidable (WellSized txBufferSize l)
  | .eval (.sender _) (.send _ size) => inferInstanceAs (Decidable (1 ≤ size ∧ size ≤ _))
  | .eval (.sender _) (.delay _) => inferInstanceAs (Decidable True)
  | .eval .netif _ => inferInstanceAs (Decidable True)
  | .delta => inferInstanceAs (Decidable True)
  | .advance _ => inferInstanceAs (Decidable True)

instance [Fintype ι] (c : NetConfig ι κ) : (l : NetLabel ι κ) → Decidable (NobodyLeft c l)
  | .eval .netif _ => inferInstanceAs (Decidable (∀ req ∈ inTransfer c, c.store.sendQueue = [] →
      ∀ i, waitsFor (complete c.store req).roomInTxBuffer (c.status (.sender i)) = false))
  | .eval (.sender _) _ => inferInstanceAs (Decidable True)
  | .delta => inferInstanceAs (Decidable True)
  | .advance _ => inferInstanceAs (Decidable True)

omit [DecidableEq κ] in
/-- A sender moves no message that is in transfer. -/
theorem inTransfer_sender (c : NetConfig ι κ) (i : ι) (s : Status NetEvent (NetPoint κ))
    (netif : NetworkInterface κ) (pending : List NetEvent) :
    inTransfer ⟨netif, Function.update c.status (.sender i) s, pending, c.now⟩ = inTransfer c :=
  inTransfer_congr (congrArg Status.point (update_sender_netif c.status s i))

omit [DecidableEq κ] in
/-- A stored request adds its size to the load. -/
theorem load_store (c : NetConfig ι κ) (i : ι) (s : Status NetEvent (NetPoint κ))
    (req : SendRequest κ) (pending : List NetEvent) :
    load ⟨store c.store req, Function.update c.status (.sender i) s, pending, c.now⟩ =
      req.messageSize.toNat + load c := by
  have queue := ((insertRequest_perm req c.store.sendQueue).map
    fun req => req.messageSize.toNat).sum_nat
  rw [List.map_cons, List.sum_cons] at queue
  rw [load, inTransfer_sender, load, ← Nat.add_assoc, ← queue]
  rfl

/-- A sender either blocks without room, with others queued or in transfer, or queues. -/
theorem Accounted.sender {txBufferSize : UInt32} {c : NetConfig ι κ}
    (h : Accounted txBufferSize c) {i : ι} {r : NetPoint κ} {choice : NetChoice κ}
    {seg : Segment NetEvent (NetPoint κ) (NetworkInterface κ)}
    (sized : WellSized txBufferSize (.eval (.sender i) choice : NetLabel ι κ))
    (resumes : (c.status (.sender i)).resumable = some r)
    (ran : exec (.sender i) r choice c.now c.store = some seg) :
    Accounted txBufferSize ⟨seg.store, Function.update c.status (.sender i) seg.status,
      seg.notified ++ c.pending, c.now⟩ := by
  obtain ⟨req, notified, rfl, from'⟩ := exec_sender ran
  have size : req.messageSize ≤ txBufferSize := by
    rcases from' with ⟨rfl, -⟩ | ⟨rfl, rfl, -⟩
    · exact h.sizes i req (Status.resumable_point resumes)
    · exact sized.2
  have room := h.room
  rcases requestLoop_cases c.store req notified with ⟨full, blocks⟩ | ⟨free, stores⟩
  · rw [blocks]
    have less := UInt32.lt_iff_toNat_lt.mp full.2
    have bound := UInt32.le_iff_toNat_le.mp size
    have busy : c.store.sendQueue ≠ [] ∨ inTransfer c ≠ none := by
      by_contra idle
      push Not at idle
      rw [h.room_of_idle idle.1 idle.2] at less
      omega
    refine ⟨h.finite, room, ?_, ?_⟩
    · intro j req' waits
      by_cases same : j = i
      · subst same
        simp only [Function.update_self, Status.point, NetPoint.waiting.injEq] at waits
        exact waits ▸ size
      · exact h.sizes j req' (by simpa [same] using waits)
    · intro j events timeout req' waits
      exact busy
  · rw [stores]
    have fits : req.messageSize ≤ c.store.roomInTxBuffer := by
      rw [← UInt32.not_lt]
      exact fun less => free ⟨h.finite, less⟩
    have bound := UInt32.le_iff_toNat_le.mp fits
    refine ⟨h.finite, ?_, ?_, ?_⟩
    · rw [load_store]
      show (c.store.roomInTxBuffer - req.messageSize).toNat + _ = _
      rw [UInt32.toNat_sub_of_le _ _ fits]
      omega
    · intro j req' waits
      by_cases same : j = i
      · subst same
        simp [Status.point] at waits
      · exact h.sizes j req' (by simpa [same] using waits)
    · intro j events timeout req' waits
      left
      exact insertRequest_ne_nil req _

omit [DecidableEq ι] in
/-- When the transfer process resumes, the room of a finished transfer is back. -/
theorem room_arrived {txBufferSize : UInt32} {c : NetConfig ι κ} {r : NetPoint κ}
    (room : c.store.roomInTxBuffer.toNat + load c = txBufferSize.toNat)
    (at' : (c.status .netif).point = r) :
    (arrived r c.store).roomInTxBuffer.toNat +
      (c.store.sendQueue.map fun req => req.messageSize.toNat).sum = txBufferSize.toNat := by
  have bound := txBufferSize.toNat_lt
  cases r with
  | transferred req =>
    have now : inTransfer c = some req := by rw [inTransfer, at']
    simp only [load, now, Option.map_some, Option.getD_some] at room
    simp only [arrived, complete, UInt32.toNat_add]
    omega
  | start =>
    have now : inTransfer c = none := by rw [inTransfer, at']
    simpa [load, now, arrived] using room
  | requested =>
    have now : inTransfer c = none := by rw [inTransfer, at']
    simpa [load, now, arrived] using room
  | outside =>
    have now : inTransfer c = none := by rw [inTransfer, at']
    simpa [load, now, arrived] using room
  | waiting req =>
    have now : inTransfer c = none := by rw [inTransfer, at']
    simpa [load, now, arrived] using room

/-- The transfer process takes a request over, or finds nothing queued and nobody left. -/
theorem Accounted.netif {txBufferSize : UInt32} {c : NetConfig ι κ}
    (h : Accounted txBufferSize c) {r : NetPoint κ} {choice : NetChoice κ}
    {seg : Segment NetEvent (NetPoint κ) (NetworkInterface κ)}
    (nobody : NobodyLeft c (.eval .netif choice : NetLabel ι κ))
    (resumes : (c.status .netif).resumable = some r)
    (ran : exec (.netif : NetProc ι) r choice c.now c.store = some seg) :
    Accounted txBufferSize ⟨seg.store, Function.update c.status .netif seg.status,
      seg.notified ++ c.pending, c.now⟩ := by
  have at' := Status.resumable_point resumes
  have room := room_arrived h.room at'
  have finite : (arrived r c.store).finiteBufferFlag = true := by
    have := h.finite
    cases r <;> exact this
  rcases exec_netif ran with ⟨req, queue, d, found, rfl⟩ | ⟨empty, rfl⟩
  · refine ⟨finite, ?_, ?_, ?_⟩
    · have split := ((dispatch_perm found).map fun req => req.messageSize.toNat).sum_nat
      simp only [List.map_cons, List.sum_cons] at split
      simp only [load, inTransfer, Function.update_self, Status.point, Option.map_some,
        Option.getD_some]
      omega
    · intro i req' waits
      exact h.sizes i req' (by simpa using waits)
    · intro i events timeout req' waits
      right
      simp [inTransfer, Status.point]
  · rw [empty] at room
    have queue : (arrived r c.store).sendQueue = [] := by
      cases r <;> exact empty
    refine ⟨finite, ?_, ?_, ?_⟩
    · simpa [load, inTransfer, Status.point, queue] using room
    · intro i req' waits
      exact h.sizes i req' (by simpa using waits)
    · intro i events timeout req' waits
      exfalso
      have blocked : c.status (.sender i) = .blocked events timeout (.waiting req') := by
        simpa using waits
      rcases h.attended i events timeout req' blocked with busy | busy
      · exact busy empty
      -- the transfer that has just ended gives the whole buffer back
      obtain ⟨done, now⟩ := Option.ne_none_iff_exists'.mp busy
      have point : r = .transferred done := by
        unfold inTransfer at now
        rw [at'] at now
        cases r <;> cases now
        rfl
      subst point
      have missed := nobody done now empty i
      have whole : (complete c.store done).roomInTxBuffer = txBufferSize :=
        UInt32.toNat_inj.mp (by simpa [arrived] using room)
      have size := h.sizes i req' (by rw [blocked]; rfl)
      rw [whole, blocked] at missed
      simp [waitsFor, size] at missed

/-- No run strands a sender if every transfer that ends with an empty queue finds no blocked
sender whose message then fits. -/
theorem never_stranded {txBufferSize : UInt32} {schedule : List κ} {senders : List ι}
    (all : ∀ i, i ∈ senders) {labels : List (NetLabel ι κ)} {c : NetConfig ι κ}
    (along : Along (netSystem ι κ senders all).step
      (fun c l => WellSized txBufferSize l ∧ NobodyLeft c l)
      (simulationStart txBufferSize schedule) labels)
    (reach : run (netSystem ι κ senders all).step (simulationStart txBufferSize schedule) labels
      = some c) : ¬ Stranded c := by
  have keep : ∀ (c : NetConfig ι κ) (l : NetLabel ι κ) (c' : NetConfig ι κ),
      Accounted txBufferSize c → WellSized txBufferSize l ∧ NobodyLeft c l →
      (netSystem ι κ senders all).step c l = some c' → Accounted txBufferSize c' := by
    apply System.keeps_of_steps
    · intro c p r choice seg h allowed resumes ran
      cases p with
      | netif => exact h.netif allowed.2 resumes ran
      | sender i => exact h.sender allowed.1 resumes ran
    · intro c h _ _
      exact h.wake rfl (fun _ => Status.wake_point) fun _ _ _ _ blocked =>
        (Status.wake_eq_blocked.mp blocked).1
    · intro c t h _ _ _ _
      exact h.wake rfl (fun _ => Status.wake_point) fun _ _ _ _ blocked =>
        (Status.wake_eq_blocked.mp blocked).1
  exact (run_invariant keep (accounted_start txBufferSize schedule) along reach).not_stranded

theorem bothSenders_listed : ∀ i : Bool, i ∈ [false, true] := by decide

def twoSenders : System (NetProc Bool) NetEvent (NetPoint Unit) (NetworkInterface Unit)
    (NetChoice Unit) :=
  netSystem Bool Unit [false, true] bothSenders_listed

/-- Messages that fit together, transferred one after the other. -/
def smallMessages : List (NetLabel Bool Unit) :=
  [.eval .netif (.delay 0), .eval (.sender false) (.send () 4), .eval (.sender true) (.send () 4),
    .delta, .eval .netif (.delay 5), .delta, .advance 5, .eval .netif (.delay 5), .delta,
    .advance 10, .eval .netif (.delay 0)]

/-- Messages that each fill the buffer. -/
def fullMessages : List (NetLabel Bool Unit) :=
  [.eval .netif (.delay 0), .eval (.sender false) (.send () 10),
    .eval (.sender true) (.send () 10), .delta, .eval .netif (.delay 5), .delta,
    .eval (.sender true) (.delay 0), .advance 5, .eval .netif (.delay 0)]

theorem smallMessages_served :
    ∃ c, run twoSenders.step (simulationStart 10 []) smallMessages = some c ∧ ¬ Stranded c := by
  have along : Along twoSenders.step (fun c l => WellSized 10 l ∧ NobodyLeft c l)
      (simulationStart 10 []) smallMessages := by decide +kernel
  have defined : (run twoSenders.step (simulationStart 10 []) smallMessages).isSome = true := by
    decide +kernel
  obtain ⟨c, reach⟩ := Option.isSome_iff_exists.mp defined
  exact ⟨c, reach, never_stranded (by decide) along reach⟩

/-- The second sender is woken while the first message is still in the buffer, and nothing
wakes it once the buffer is empty. -/
theorem fullMessages_strand :
    (∀ l ∈ fullMessages, WellSized 10 l) ∧
      ∃ c, run twoSenders.step (simulationStart 10 []) fullMessages = some c ∧ Stranded c := by
  constructor
  · decide
  · exact ⟨_, rfl, rfl, rfl, rfl, true, rfl⟩

end Kista.Network.Stranding
