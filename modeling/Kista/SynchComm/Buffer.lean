/- Kista/SynchComm/Buffer
   source: src/src/synch_comm/fifo_buffer.hpp, src/src/network_interface.cpp, src/src/defaults.hpp
   digest: A system-level buffer channel with its read permits: initial tokens during the
   elaboration, and any number of writers and readers during the simulation. -/

import Mathlib.Data.Nat.Notation
import Mathlib.Logic.Function.Basic

set_option autoImplicit false
set_option relaxedAutoImplicit false

/-!
The channel has the role SYSTEM_COMMSYNCH. `sc_fifo` and `sc_semaphore` are a bounded queue and
a counter, and a call that would block is undefined there. The signals by which a call hands the
processor over are left out, and the time of a delay is left to the order of the steps. Here the
network interface takes a request whenever a step says so, as with room for every message; its own
waiting is that of `Network.Interface`, which `Network.Channels` puts in its place.
-/

namespace Kista.SynchComm.Buffer

/-- The physical links that `write` supports: within a processing element, and between two of
them without or with a network interface at the source. -/
inductive Route where
  | intracomm
  | direct
  | netif
  deriving DecidableEq

/-- Where a writer stands inside `write`. -/
inductive Writer (τ : Type) where
  | outside
  | transferring (val : τ)
  | requesting (val : τ)
  | storing (val : τ)

/-- Where a reader stands inside `read`. -/
inductive Reader where
  | outside
  | waiting
  | reading
  deriving DecidableEq

/-- `assocPlink` is empty until the physical link is resolved; `requests` counts what the network
interface has accepted from this channel and not yet posted. -/
structure FifoBuffer (τ ι ρ : Type) where
  size : ℕ
  tokens : List τ
  completedTransactions : ℕ
  assocPlink : Option Route
  running : Bool
  writer : ι → Writer τ
  reader : ρ → Reader
  requests : ℕ

inductive FifoLabel (τ ι ρ : Type) where
  | autoMap (route : Route)
  | initialWrite (val : τ)
  | startSimulation
  | write (i : ι) (val : τ)
  | transferred (i : ι)
  | accepted (i : ι)
  | stored (i : ι)
  | served
  | read (j : ρ)
  | permitted (j : ρ)
  | taken (j : ρ)

variable {τ ι ρ : Type}

/-- The constructor. -/
def fifoBuffer (size : ℕ) : FifoBuffer τ ι ρ where
  size := size
  tokens := []
  completedTransactions := 0
  assocPlink := none
  running := false
  writer := fun _ => .outside
  reader := fun _ => .outside
  requests := 0

def resolved (b : FifoBuffer τ ι ρ) : Bool := b.assocPlink.isSome

/-- `sc_fifo::write` -/
def push (b : FifoBuffer τ ι ρ) (val : τ) : Option (FifoBuffer τ ι ρ) :=
  if b.tokens.length < b.size then some { b with tokens := b.tokens ++ [val] } else none

/-- `sc_fifo::read` -/
def pop (b : FifoBuffer τ ι ρ) : Option (FifoBuffer τ ι ρ) :=
  match b.tokens with
  | [] => none
  | _ :: rest => some { b with tokens := rest }

/-- `sc_semaphore::post` -/
def post (b : FifoBuffer τ ι ρ) : FifoBuffer τ ι ρ :=
  { b with completedTransactions := b.completedTransactions + 1 }

/-- `sc_semaphore::wait` -/
def wait (b : FifoBuffer τ ι ρ) : Option (FifoBuffer τ ι ρ) :=
  if 0 < b.completedTransactions then
    some { b with completedTransactions := b.completedTransactions - 1 }
  else none

def initialWrite (b : FifoBuffer τ ι ρ) (val : τ) : Option (FifoBuffer τ ι ρ) :=
  (push b val).map fun b => if resolved b then post b else b

variable [DecidableEq ι] [DecidableEq ρ]

def setWriter (b : FifoBuffer τ ι ρ) (i : ι) (w : Writer τ) : FifoBuffer τ ι ρ :=
  { b with writer := Function.update b.writer i w }

def setReader (b : FifoBuffer τ ι ρ) (j : ρ) (r : Reader) : FifoBuffer τ ι ρ :=
  { b with reader := Function.update b.reader j r }

/-- How `write` begins: with a delay, with a request to the network interface, or at once. -/
def writeVia (val : τ) : Option Route → Writer τ
  | none => .storing val
  | some .intracomm => .transferring val
  | some .direct => .transferring val
  | some .netif => .requesting val

def step (b : FifoBuffer τ ι ρ) : FifoLabel τ ι ρ → Option (FifoBuffer τ ι ρ)
  | .autoMap route => if b.running then none else some { b with assocPlink := some route }
  | .initialWrite val => if b.running then none else initialWrite b val
  | .startSimulation =>
    -- the link of the channel is resolved by then
    if b.running = false ∧ resolved b = true then some { b with running := true } else none
  | .write i val =>
    match b.running, b.writer i with
    | true, .outside => some (setWriter b i (writeVia val b.assocPlink))
    | _, _ => none
  | .transferred i =>
    match b.writer i with
    | .transferring val => some (setWriter (post b) i (.storing val))
    | _ => none
  | .accepted i =>
    match b.writer i with
    | .requesting val =>
      some (setWriter { b with requests := b.requests + 1 } i (.storing val))
    | _ => none
  | .stored i =>
    match b.writer i with
    | .storing val => (push b val).map fun b => setWriter b i .outside
    | _ => none
  | .served =>
    if 0 < b.requests then some (post { b with requests := b.requests - 1 }) else none
  | .read j =>
    if b.running = true ∧ b.reader j = .outside then
      some (setReader b j (if resolved b then .waiting else .reading))
    else none
  | .permitted j =>
    if b.reader j = .waiting then (wait b).map fun b => setReader b j .reading else none
  | .taken j =>
    if b.reader j = .reading then (pop b).map fun b => setReader b j .outside else none

/-- What happened in a run: the initial tokens, all tokens written and read, the permits
consumed and the transfers completed. -/
structure Log (τ : Type) where
  initial : List τ
  written : List τ
  read : List τ
  consumed : ℕ
  transfers : ℕ

def noLog : Log τ := ⟨[], [], [], 0, 0⟩

def note (b : FifoBuffer τ ι ρ) : FifoLabel τ ι ρ → FifoBuffer τ ι ρ → Log τ → Log τ
  | .initialWrite val, _, h =>
    { h with initial := h.initial ++ [val], written := h.written ++ [val] }
  | .transferred _, _, h => { h with transfers := h.transfers + 1 }
  | .served, _, h => { h with transfers := h.transfers + 1 }
  | .stored i, _, h =>
    match b.writer i with
    | .storing val => { h with written := h.written ++ [val] }
    | _ => h
  | .permitted _, _, h => { h with consumed := h.consumed + 1 }
  | .taken _, _, h => { h with read := h.read ++ b.tokens.head?.toList }
  | _, _, h => h

end Kista.SynchComm.Buffer
