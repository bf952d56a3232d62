/- Kista/Network/Channels
   source: src/src/synch_comm/fifo_buffer.hpp, src/src/network_interface.cpp
   digest: The buffer channels that start at a processing element together with its network
   interface: the calls of the tasks, the transfers and the reads in any order. -/

import Mathlib.Data.Fintype.Defs
import Kista.Network.LinkOrder
import Kista.SynchComm.BlockedCalls

set_option autoImplicit false
set_option relaxedAutoImplicit false

/-!
Every channel is mapped to a physical link between two processing elements and its source has the
network interface. The semaphore of a channel is the one its requests carry: the interface counts
the posts and the channel what they leave after the waits.
-/

namespace Kista.Network.Channels

open Kernel.Delta Kernel.Run Interface Stranding Accounting EmptyDispatch SendOrder ExactlyOnce
open LinkOrder SynchComm SynchComm.Buffer SynchComm.ReadPermits SynchComm.BlockedCalls

structure ChannelNetwork (τ ι κ : Type) where
  netif : NetConfig ι κ
  channel : κ → FifoBuffer τ ι ι

inductive ChannelLabel (τ ι κ : Type) where
  | write (i : ι) (link : κ) (val : τ)
  | resume (i : ι)
  | stored (i : ι) (link : κ)
  | read (i : ι) (link : κ)
  | permitted (i : ι) (link : κ)
  | taken (i : ι) (link : κ)
  | transfer (commDelay : ℕ)
  | delta
  | advance (t : ℕ)

variable {τ ι κ : Type}

/-- A channel at the start of the simulation. -/
def elaborated (size : ℕ) (initial : List τ) : FifoBuffer τ ι ι :=
  { fifoBuffer size with
    tokens := initial
    completedTransactions := initial.length
    assocPlink := some .netif
    running := true }

def startOfSimulation (buffer : Option UInt32) (schedule : List κ) (size : κ → ℕ)
    (initial : κ → List τ) : ChannelNetwork τ ι κ where
  netif := bufferStart schedule buffer
  channel link := elaborated (size link) (initial link)

instance decidableOutside : (w : Writer τ) → Decidable (w = .outside)
  | .outside => isTrue rfl
  | .transferring _ => isFalse nofun
  | .requesting _ => isFalse nofun
  | .storing _ => isFalse nofun

/-- A task is in one call at a time. -/
def Outside (s : ChannelNetwork τ ι κ) (i : ι) : Prop :=
  ∀ link, (s.channel link).writer i = .outside ∧ (s.channel link).reader i = .outside

instance [Fintype κ] (s : ChannelNetwork τ ι κ) (i : ι) : Decidable (Outside s i) :=
  inferInstanceAs (Decidable (∀ _ : κ, _ ∧ _))

section Steps

variable [DecidableEq ι] [DecidableEq κ]

def onChannel (s : ChannelNetwork τ ι κ) (link : κ) (l : FifoLabel τ ι ι) :
    Option (ChannelNetwork τ ι κ) :=
  (Buffer.step (s.channel link) l).map fun b =>
    { s with channel := Function.update s.channel link b }

variable (senders : List ι) (all : ∀ i, i ∈ senders)

def onNetif (s : ChannelNetwork τ ι κ) (l : NetLabel ι κ) : Option (ChannelNetwork τ ι κ) :=
  ((netSystem ι κ senders all).step s.netif l).map fun netif => { s with netif := netif }

/-- `write` goes on to the buffer when `request_sending` returns. -/
def request (s : ChannelNetwork τ ι κ) (i : ι) (link : κ) (choice : NetChoice κ) :
    Option (ChannelNetwork τ ι κ) :=
  (onNetif senders all s (.eval (.sender i) choice)).bind fun s =>
    match s.netif.status (.sender i) with
    | .free _ => onChannel s link (.accepted i)
    | _ => some s

/-- The interface posts for the transfer that has ended. -/
def transfer (s : ChannelNetwork τ ι κ) (commDelay : ℕ) : Option (ChannelNetwork τ ι κ) :=
  (onNetif senders all s (.eval .netif (.delay commDelay))).bind fun s' =>
    match inTransfer s.netif with
    | some req => onChannel s' req.logicLink .served
    | none => some s'

variable [Fintype κ] (messageSize : κ → UInt32)

def step (s : ChannelNetwork τ ι κ) : ChannelLabel τ ι κ → Option (ChannelNetwork τ ι κ)
  | .write i link val =>
    if Outside s i then
      (onChannel s link (.write i val)).bind fun s =>
        request senders all s i link (.send link (messageSize link))
    else none
  | .resume i =>
    match (s.netif.status (.sender i)).point with
    | .waiting req => request senders all s i req.logicLink (.delay 0)
    | _ => none
  | .stored i link => onChannel s link (.stored i)
  | .read i link => if Outside s i then onChannel s link (.read i) else none
  | .permitted i link => onChannel s link (.permitted i)
  | .taken i link => onChannel s link (.taken i)
  | .transfer commDelay => transfer senders all s commDelay
  | .delta => onNetif senders all s .delta
  | .advance t => onNetif senders all s (.advance t)

end Steps

/-- What happened in a run: at the interface, at each channel, and for each channel the requests
that the interface took with the tokens they stand for. -/
structure Traffic (τ κ : Type) where
  net : History κ
  log : κ → Log τ
  sent : κ → List (SendRequest κ × τ)

def initialTraffic (initial : κ → List τ) : Traffic τ κ where
  net := noHistory
  log link := { noLog with initial := initial link, written := initial link }
  sent _ := []

/-- The token of a request that `request_sending` has taken. -/
def tokenSent (s s' : ChannelNetwork τ ι κ) (i : ι) (link : κ) (choice : NetChoice κ) :
    List (SendRequest κ × τ) :=
  match returned s.netif s'.netif i choice, (s'.channel link).writer i with
  | some req, .storing val => [(req, val)]
  | _, _ => []

section Notes

variable [DecidableEq κ]

def noteChannel (s s' : ChannelNetwork τ ι κ) (link : κ) (l : FifoLabel τ ι ι)
    (t : Traffic τ κ) : Traffic τ κ :=
  { t with
    log := Function.update t.log link
      (Buffer.note (s.channel link) l (s'.channel link) (t.log link)) }

def noteRequest (s s' : ChannelNetwork τ ι κ) (i : ι) (link : κ) (choice : NetChoice κ)
    (t : Traffic τ κ) : Traffic τ κ :=
  { t with
    net := ExactlyOnce.note s.netif (.eval (.sender i) choice) s'.netif t.net
    sent := Function.update t.sent link (t.sent link ++ tokenSent s s' i link choice) }

def noteTransfer (s s' : ChannelNetwork τ ι κ) (commDelay : ℕ) (t : Traffic τ κ) : Traffic τ κ :=
  let t := { t with
    net := ExactlyOnce.note s.netif (.eval .netif (.delay commDelay)) s'.netif t.net }
  match inTransfer s.netif with
  | some req => noteChannel s s' req.logicLink .served t
  | none => t

def note (messageSize : κ → UInt32) (s : ChannelNetwork τ ι κ) :
    ChannelLabel τ ι κ → ChannelNetwork τ ι κ → Traffic τ κ → Traffic τ κ
  | .write i link _, s', t => noteRequest s s' i link (.send link (messageSize link)) t
  | .resume i, s', t =>
    match (s.netif.status (.sender i)).point with
    | .waiting req => noteRequest s s' i req.logicLink (.delay 0) t
    | _ => t
  | .stored i link, s', t => noteChannel s s' link (.stored i) t
  | .read i link, s', t => noteChannel s s' link (.read i) t
  | .permitted i link, s', t => noteChannel s s' link (.permitted i) t
  | .taken i link, s', t => noteChannel s s' link (.taken i) t
  | .transfer commDelay, s', t => noteTransfer s s' commDelay t
  | .delta, _, t => t
  | .advance _, _, t => t

end Notes

/-- A channel has one source task, which alone writes it. -/
def Written (source : κ → ι) : ChannelLabel τ ι κ → Prop
  | .write i link _ => source link = i
  | _ => True

instance (source : κ → ι) [DecidableEq ι] :
    (l : ChannelLabel τ ι κ) → Decidable (Written source l)
  | .write i link _ => inferInstanceAs (Decidable (source link = i))
  | .resume _ => inferInstanceAs (Decidable True)
  | .stored _ _ => inferInstanceAs (Decidable True)
  | .read _ _ => inferInstanceAs (Decidable True)
  | .permitted _ _ => inferInstanceAs (Decidable True)
  | .taken _ _ => inferInstanceAs (Decidable True)
  | .transfer _ => inferInstanceAs (Decidable True)
  | .delta => inferInstanceAs (Decidable True)
  | .advance _ => inferInstanceAs (Decidable True)

/-- The elaboration of a channel: its mapping, its initial tokens, and the start. -/
def elaboration (initial : List τ) : List (FifoLabel τ ι ι) :=
  .autoMap .netif :: initial.map .initialWrite ++ [.startSimulation]

variable [DecidableEq ι]

theorem run_initialWrites {b : FifoBuffer τ ι ι} (initial : List τ)
    (stopped : b.running = false) (mapped : resolved b = true)
    (fits : b.tokens.length + initial.length ≤ b.size) :
    run Buffer.step b (initial.map FifoLabel.initialWrite) = some { b with
      tokens := b.tokens ++ initial
      completedTransactions := b.completedTransactions + initial.length } := by
  induction initial generalizing b with
  | nil => simp
  | cons val rest ih =>
    rw [List.length_cons] at fits
    have pushed : push b val = some { b with tokens := b.tokens ++ [val] } :=
      push_eq_some.mpr ⟨by omega, rfl⟩
    have written : Buffer.step b (.initialWrite val) =
        some (post { b with tokens := b.tokens ++ [val] }) := by
      have elaborating : Buffer.step b (.initialWrite val) = Buffer.initialWrite b val :=
        if_neg (by simp [stopped])
      rw [elaborating, Buffer.initialWrite, pushed]
      exact congrArg some (if_pos mapped)
    have later := ih (b := post { b with tokens := b.tokens ++ [val] }) stopped mapped (by
      show (b.tokens ++ [val]).length + rest.length ≤ b.size
      rw [List.length_append, List.length_singleton]
      omega)
    rw [List.map_cons, run, written, Option.bind_some, later]
    simp only [post, List.append_assoc, List.singleton_append, List.length_cons]
    rw [Nat.add_right_comm, Nat.add_assoc]

/-- What the elaboration leaves when the initial tokens fit. -/
theorem run_elaboration {size : ℕ} {initial : List τ} (fits : initial.length ≤ size) :
    run Buffer.step (fifoBuffer size : FifoBuffer τ ι ι) (elaboration initial) =
      some (elaborated size initial) := by
  have mapped : Buffer.step (fifoBuffer size : FifoBuffer τ ι ι) (.autoMap .netif) =
    some { fifoBuffer size with assocPlink := some .netif } := rfl
  have tokens := run_initialWrites
    (b := { (fifoBuffer size : FifoBuffer τ ι ι) with assocPlink := some .netif }) initial rfl rfl
    (by show 0 + initial.length ≤ size; omega)
  rw [elaboration, List.cons_append, run_cons_eq_some]
  refine ⟨_, mapped, run_append_eq_some.mpr ⟨_, tokens, ?_⟩⟩
  show some _ = some _
  simp only [elaborated, fifoBuffer, List.nil_append, Nat.zero_add]

end Kista.Network.Channels
