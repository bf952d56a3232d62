/- Kista/SynchComm/MessageValues
   source: src/src/types.cpp, types.hpp
   digest: Messages with their byte arrays on a heap, what constructing, copying and assigning do
   to them, and exactly when messages behave like values. -/

import Mathlib.Algebra.GroupWithZero.Nat
import Kista.Containers.ArrayHeap
import Kista.Kernel.Run

set_option autoImplicit false
set_option relaxedAutoImplicit false

/-!
What the code does not determine is chosen by the platform: the address and the old contents of a
new array, and what the pointer of a message holds before its constructor has set it. The
assignment operator ends without returning the reference it promises; no statement uses it.
-/

namespace Kista.SynchComm.MessageValues

open Containers.ArrayHeap
open Kernel.Run

abbrev Address := ℕ

abbrev Byte := UInt8

/-- The values of the `unsigned int` that counts the bytes. -/
def indexSize : ℕ := 2 ^ 32

structure Message where
  datap : Pointer Address
  hostSize : ℕ
  deriving DecidableEq

structure Choice where
  address : Address
  garbage : ℕ → Byte
  field : Pointer Address

/-- The heap, and the messages that have been constructed. -/
structure State (μ : Type) where
  heap : Heap Address Byte
  messages : μ → Option Message

inductive Operation (μ : Type) where
  | empty (x : μ)
  | construct (x : μ) (bytes : List Byte) (c : Choice)
  | copyConstruct (x other : μ) (c : Choice)
  | assign (x other : μ) (c : Choice)

/-- What lies in a new array of so many bytes. -/
def stale (c : Choice) (n : ℕ) : List Byte := (List.range n).map c.garbage

variable {μ : Type} [DecidableEq μ]

def empty (x : μ) (s : State μ) : State μ :=
  { s with messages := Function.update s.messages x (some ⟨none, 0⟩) }

/-- The new array is filled from the source, with the messages as they are by then. -/
def fill (size : ℕ) (source : Heap Address Byte → ℕ → Option Byte) (c : Choice)
    (messages : μ → Option Message) (heap : Heap Address Byte) : Option (State μ) :=
  (copyLoop indexSize size source c.address (size + 1) 0
    (allocate c.address size c.garbage heap)).map fun filled => ⟨filled, messages⟩

/-- The message has its new array. -/
def renew (x : μ) (size : ℕ) (c : Choice) (s : State μ) : μ → Option Message :=
  Function.update s.messages x (some ⟨some c.address, size⟩)

def construct (x : μ) (bytes : List Byte) (c : Choice) (s : State μ) : Option (State μ) :=
  fill bytes.length (fun _ i => bytes[i]?) c (renew x bytes.length c s) s.heap

/-- The common body of copy constructor and assignment: the old array is deleted first, and the
other message is read when the target already has its new one. -/
def replace (datap : Pointer Address) (x other : μ) (c : Choice) (s : State μ) :
    Option (State μ) :=
  (delete datap s.heap).bind fun heap =>
    (s.messages other).bind fun source =>
      fill source.hostSize
        (fun heap i => (renew x source.hostSize c s other).bind fun m => read m.datap heap i)
        c (renew x source.hostSize c s) heap

def copyConstruct (x other : μ) (c : Choice) (s : State μ) : Option (State μ) :=
  replace c.field x other c s

def assign (x other : μ) (c : Choice) (s : State μ) : Option (State μ) :=
  (s.messages x).bind fun this => replace this.datap x other c s

/-- One operation. Without a result it deletes what is not there, leaves an array or does not
end. -/
def step (s : State μ) : Operation μ → Option (State μ)
  | .empty x => some (empty x s)
  | .construct x bytes c => construct x bytes c s
  | .copyConstruct x other c => copyConstruct x other c s
  | .assign x other c => assign x other c s

/-! ### What is asked of an operation -/

def Operation.target : Operation μ → μ
  | empty x => x
  | construct x _ _ => x
  | copyConstruct x _ _ => x
  | assign x _ _ => x

def buffer (s : State μ) (x : μ) : Pointer Address := (s.messages x).bind Message.datap

/-- The message exists and holds exactly these bytes. -/
def Holds (s : State μ) (x : μ) (bytes : List Byte) : Prop :=
  ∃ m, s.messages x = some m ∧ m.hostSize = bytes.length ∧
    (m.datap = none ∧ bytes = [] ∨ ∃ a, m.datap = some a ∧ s.heap a = some bytes)

/-- The bytes that the operation is given for its target. -/
def Given (s : State μ) : Operation μ → List Byte → Prop
  | .empty _, bytes => bytes = []
  | .construct _ given _, bytes => bytes = given
  | .copyConstruct _ other _, bytes => Holds s other bytes
  | .assign _ other _, bytes => Holds s other bytes

def Unchanged (s t : State μ) (z : μ) : Prop :=
  t.messages z = s.messages z ∧ ∀ a, buffer s z = some a → t.heap a = s.heap a

/-- No two messages share a buffer. -/
def Separate (s : State μ) : Prop :=
  ∀ x y a, buffer s x = some a → buffer s y = some a → x = y

structure ValueSemantics (s : State μ) (op : Operation μ) (t : State μ) : Prop where
  value : ∀ bytes, Given s op bytes → Holds t op.target bytes
  others : ∀ z, z ≠ op.target → Unchanged s t z
  separate : Separate t

/-- The operation ends, and with the meaning of values. -/
def StepRight (s : State μ) (op : Operation μ) : Prop :=
  ∃ t, step s op = some t ∧ ValueSemantics s op t

/-- The address of the new array is free once the old one is deleted. -/
def Free (p : Pointer Address) (c : Choice) (s : State μ) : Prop :=
  ∀ heap, delete p s.heap = some heap → heap c.address = none

/-- What programs and platforms do: new messages are constructed, existing ones are read and
assigned, and new arrays are put where there is none. -/
def Admissible (s : State μ) : Operation μ → Prop
  | .empty x => s.messages x = none
  | .construct x _ c => s.messages x = none ∧ Free none c s
  | .copyConstruct x other c =>
    s.messages x = none ∧ (∃ m, s.messages other = some m) ∧ Free c.field c s
  | .assign x other c =>
    (∃ m, s.messages x = some m) ∧ (∃ m, s.messages other = some m) ∧ Free (buffer s x) c s

/-- The bytes can be counted; a copy constructor finds a null pointer in the new message, or an
array that belongs to no message; and a message that is assigned to itself happens to get an array
with its own bytes. -/
def Harmless (s : State μ) : Operation μ → Prop
  | .empty _ => True
  | .construct _ bytes _ => bytes.length < indexSize
  | .copyConstruct _ _ c =>
    ∀ a, c.field = some a → (∃ bytes, s.heap a = some bytes) ∧ ∀ z, buffer s z ≠ some a
  | .assign x other c =>
    x = other → ∀ bytes, Holds s x bytes → stale c bytes.length = bytes

/-- Every message holds as many bytes as it says, and has them for itself. -/
structure WellFormed (s : State μ) : Prop where
  holds : ∀ x m, s.messages x = some m → ∃ bytes, Holds s x bytes ∧ bytes.length < indexSize
  separate : Separate s

/-! ### What the operations do -/

/-- A message with a new array that holds the given bytes. -/
def placed (x : μ) (bytes : List Byte) (c : Choice) (s : State μ) (heap : Heap Address Byte) :
    State μ where
  heap := Function.update heap c.address (some bytes)
  messages := renew x bytes.length c s

theorem length_stale (c : Choice) (n : ℕ) : (stale c n).length = n := by
  rw [stale, List.length_map, List.length_range]

section Effects

variable {s t : State μ} {x other z : μ} {bytes : List Byte} {c : Choice} {p : Pointer Address}
  {heap : Heap Address Byte}

omit [DecidableEq μ] in
theorem fill_eq {source : Heap Address Byte → ℕ → Option Byte} {messages : μ → Option Message}
    (short : bytes.length < indexSize)
    (reads : ∀ i (hi : i < bytes.length), source
      (Function.update heap c.address (some (copied (stale c bytes.length) bytes i))) i =
        some bytes[i]) :
    fill bytes.length source c messages heap =
      some ⟨Function.update heap c.address (some bytes), messages⟩ := by
  have harray : allocate c.address bytes.length c.garbage heap c.address =
      some (stale c bytes.length) := allocate_self _
  have hwrite : ∀ content, Function.update (allocate c.address bytes.length c.garbage heap)
      c.address content = Function.update heap c.address content :=
    fun content => Function.update_idem ..
  rw [fill, copyLoop_array harray (length_stale c _) short, hwrite, Option.map_some]
  intro i hi
  rw [hwrite]
  exact reads i hi

theorem construct_eq (short : bytes.length < indexSize) :
    construct x bytes c s = some (placed x bytes c s s.heap) := by
  rw [construct, fill_eq short, placed]
  intro i hi
  exact List.getElem?_eq_getElem hi

/-- Bytes that cannot be counted are copied for ever. -/
theorem construct_long (long : indexSize ≤ bytes.length) : construct x bytes c s = none := by
  rw [construct, fill, copyLoop_running (by decide) long (by decide), Option.map_none]

/-- Another message is copied byte by byte, if the array deleted first is not its own. -/
theorem replace_other (hne : other ≠ x) (short : bytes.length < indexSize)
    (deleted : delete p s.heap = some heap) (holds : Holds s other bytes)
    (apart : ∀ a, buffer s other = some a → p ≠ some a) (free : heap c.address = none) :
    replace p x other c s = some (placed x bytes c s heap) := by
  obtain ⟨m, hm, hsize, hdata⟩ := holds
  rw [replace, deleted, Option.bind_some, hm, Option.bind_some, hsize, fill_eq short, placed]
  intro i hi
  rw [renew, Function.update_of_ne hne, hm, Option.bind_some]
  rcases hdata with ⟨-, rfl⟩ | ⟨a, hdatap, harray⟩
  · cases hi
  · have hbuffer : buffer s other = some a := by rw [buffer, hm, Option.bind_some, hdatap]
    have hkept : heap a = some bytes := (delete_other deleted (apart a hbuffer)).trans harray
    have haddress : a ≠ c.address := by
      rintro rfl
      rw [free] at hkept
      cases hkept
    have hread : Function.update heap c.address
        (some (copied (stale c bytes.length) bytes i)) a = some bytes := by
      rw [Function.update_of_ne haddress, hkept]
    rw [hdatap, read_some hread, List.getElem?_eq_getElem hi]

/-- A message that is assigned to itself reads its new array. -/
theorem replace_self (short : bytes.length < indexSize)
    (deleted : delete p s.heap = some heap) (holds : Holds s x bytes) :
    replace p x x c s = some (placed x (stale c bytes.length) c s heap) := by
  obtain ⟨m, hm, hsize, -⟩ := holds
  have hlength : m.hostSize = (stale c bytes.length).length :=
    hsize.trans (length_stale c bytes.length).symm
  have hgarbage : stale c (stale c bytes.length).length = stale c bytes.length := by
    rw [length_stale]
  rw [replace, deleted, Option.bind_some, hm, Option.bind_some, hlength,
    fill_eq (by rwa [length_stale]), placed]
  intro i hi
  rw [hgarbage, renew, Function.update_self, Option.bind_some,
    read_some (Function.update_self ..), copied, List.take_append_drop]
  exact List.getElem?_eq_getElem hi

theorem placed_holds : Holds (placed x bytes c s heap) x bytes := by
  refine ⟨⟨some c.address, bytes.length⟩, Function.update_self .., rfl, .inr ⟨c.address, rfl, ?_⟩⟩
  exact Function.update_self ..

theorem buffer_placed_self : buffer (placed x bytes c s heap) x = some c.address := by
  have hmessage : (placed x bytes c s heap).messages x = some ⟨some c.address, bytes.length⟩ :=
    Function.update_self ..
  rw [buffer, hmessage, Option.bind_some]

theorem placed_messages_other (hz : z ≠ x) :
    (placed x bytes c s heap).messages z = s.messages z :=
  Function.update_of_ne hz ..

theorem buffer_placed_other (hz : z ≠ x) :
    buffer (placed x bytes c s heap) z = buffer s z := by
  rw [buffer, placed_messages_other hz, buffer]

omit [DecidableEq μ] in
/-- The buffer of a message is an array. -/
theorem WellFormed.array (wf : WellFormed s) {a : Address} (hz : buffer s z = some a) :
    ∃ bytes, s.heap a = some bytes := by
  obtain ⟨m, hm, hdatap⟩ := Option.bind_eq_some_iff.mp hz
  obtain ⟨held, ⟨m', hm', -, hdata⟩, -⟩ := wf.holds z m hm
  obtain rfl : m = m' := Option.some.inj (hm.symm.trans hm')
  rcases hdata with ⟨hnull, -⟩ | ⟨a', hdatap', harray⟩
  · rw [hnull] at hdatap
    cases hdatap
  · obtain rfl : a = a' := Option.some.inj (hdatap.symm.trans hdatap')
    exact ⟨held, harray⟩

omit [DecidableEq μ] in
theorem WellFormed.deletable (wf : WellFormed s) (x : μ) :
    ∃ heap, delete (buffer s x) s.heap = some heap := by
  cases hbuffer : buffer s x with
  | none => exact ⟨s.heap, rfl⟩
  | some a =>
    obtain ⟨held, harray⟩ := wf.array hbuffer
    exact ⟨_, delete_some harray⟩

omit [DecidableEq μ] in
/-- A buffer that is not deleted is still in place, so a free address is not its own. -/
theorem address_fresh (wf : WellFormed s) (deleted : delete p s.heap = some heap)
    (free : heap c.address = none) {a : Address} (hz : buffer s z = some a)
    (apart : p ≠ some a) : a ≠ c.address := by
  obtain ⟨held, harray⟩ := wf.array hz
  rintro rfl
  rw [delete_other deleted apart, harray] at free
  cases free

/-- What a step leaves to the other messages. -/
theorem placed_others (x : μ) (bytes : List Byte) (wf : WellFormed s)
    (deleted : delete p s.heap = some heap)
    (free : heap c.address = none) (apart : ∀ z a, z ≠ x → buffer s z = some a → p ≠ some a) :
    (∀ z, z ≠ x → Unchanged s (placed x bytes c s heap) z) ∧
      Separate (placed x bytes c s heap) := by
  have hfresh : ∀ z a, z ≠ x → buffer s z = some a → a ≠ c.address := fun z a hz hbuffer =>
    address_fresh wf deleted free hbuffer (apart z a hz hbuffer)
  constructor
  · intro z hz
    refine ⟨placed_messages_other hz, fun a hbuffer => ?_⟩
    have hplaced : (placed x bytes c s heap).heap a = heap a :=
      Function.update_of_ne (hfresh z a hz hbuffer) ..
    rw [hplaced, delete_other deleted (apart z a hz hbuffer)]
  · intro y z a hy hz
    by_cases hyx : y = x <;> by_cases hzx : z = x
    · rw [hyx, hzx]
    · rw [hyx, buffer_placed_self] at hy
      rw [buffer_placed_other hzx] at hz
      exact absurd (Option.some.inj hy).symm (hfresh z a hzx hz)
    · rw [hzx, buffer_placed_self] at hz
      rw [buffer_placed_other hyx] at hy
      exact absurd (Option.some.inj hz).symm (hfresh y a hyx hy)
    · rw [buffer_placed_other hyx] at hy
      rw [buffer_placed_other hzx] at hz
      exact wf.separate y z a hy hz

omit [DecidableEq μ] in
theorem Unchanged.holds (same : Unchanged s t z) (holds : Holds s z bytes) : Holds t z bytes := by
  obtain ⟨m, hm, hsize, hdata⟩ := holds
  refine ⟨m, same.1.trans hm, hsize, hdata.imp_right ?_⟩
  rintro ⟨a, hdatap, harray⟩
  have hbuffer : buffer s z = some a := by rw [buffer, hm, Option.bind_some, hdatap]
  exact ⟨a, hdatap, (same.2 a hbuffer).trans harray⟩

omit [DecidableEq μ] in
/-- A message holds one sequence of bytes. -/
theorem Holds.unique {bytes' : List Byte} (h : Holds s x bytes) (h' : Holds s x bytes') :
    bytes = bytes' := by
  obtain ⟨m, hm, -, hdata⟩ := h
  obtain ⟨m', hm', -, hdata'⟩ := h'
  obtain rfl : m = m' := Option.some.inj (hm.symm.trans hm')
  rcases hdata with ⟨hnull, rfl⟩ | ⟨a, hdatap, harray⟩
  · rcases hdata' with ⟨-, rfl⟩ | ⟨a, hdatap, -⟩
    · rfl
    · rw [hnull] at hdatap
      cases hdatap
  · rcases hdata' with ⟨hnull, -⟩ | ⟨a', hdatap', harray'⟩
    · rw [hnull] at hdatap
      cases hdatap
    · obtain rfl : a = a' := Option.some.inj (hdatap.symm.trans hdatap')
      exact Option.some.inj (harray.symm.trans harray')

/-- The invariant after a step that gives one message countable bytes and keeps the others. -/
theorem WellFormed.next (wf : WellFormed s) (others : ∀ z, z ≠ x → Unchanged s t z)
    (separate : Separate t) (holds : Holds t x bytes) (short : bytes.length < indexSize) :
    WellFormed t where
  holds z m hm := by
    by_cases hz : z = x
    · rw [hz]
      exact ⟨bytes, holds, short⟩
    · obtain ⟨held, hheld, hshort⟩ := wf.holds z m ((others z hz).1.symm.trans hm)
      exact ⟨held, (others z hz).holds hheld, hshort⟩
  separate := separate

end Effects

/-! ### One step -/

section Steps

variable {s t : State μ} {op : Operation μ}

theorem empty_right (wf : WellFormed s) (x : μ) :
    ValueSemantics s (.empty x) (empty x s) ∧ WellFormed (empty x s) := by
  have hnull : buffer (empty x s) x = none := by
    have hmessage : (empty x s).messages x = some ⟨none, 0⟩ := Function.update_self ..
    rw [buffer, hmessage, Option.bind_some]
  have hother : ∀ z, z ≠ x → (empty x s).messages z = s.messages z := fun z hz =>
    Function.update_of_ne hz ..
  have others : ∀ z, z ≠ x → Unchanged s (empty x s) z := fun z hz =>
    ⟨hother z hz, fun _ _ => rfl⟩
  have separate : Separate (empty x s) := by
    intro y z a hy hz
    have hyx : y ≠ x := by
      rintro rfl
      rw [hnull] at hy
      cases hy
    have hzx : z ≠ x := by
      rintro rfl
      rw [hnull] at hz
      cases hz
    rw [buffer, hother y hyx] at hy
    rw [buffer, hother z hzx] at hz
    exact wf.separate y z a hy hz
  have holds : Holds (empty x s) x [] :=
    ⟨⟨none, 0⟩, Function.update_self .., rfl, .inl ⟨rfl, rfl⟩⟩
  refine ⟨⟨?_, others, separate⟩, wf.next others separate holds (by decide)⟩
  rintro bytes rfl
  exact holds

/-- A new array with the bytes of the source has the meaning of values, if the array that is
deleted first is nobody else's. -/
theorem placed_right (wf : WellFormed s) {bytes : List Byte} (short : bytes.length < indexSize)
    (given : ∀ wanted, Given s op wanted → wanted = bytes) {c : Choice} {p : Pointer Address}
    {heap : Heap Address Byte} (deleted : delete p s.heap = some heap)
    (free : heap c.address = none)
    (apart : ∀ z a, z ≠ op.target → buffer s z = some a → p ≠ some a) :
    ValueSemantics s op (placed op.target bytes c s heap) ∧
      WellFormed (placed op.target bytes c s heap) := by
  obtain ⟨others, separate⟩ := placed_others op.target bytes wf deleted free apart
  refine ⟨⟨?_, others, separate⟩, wf.next others separate placed_holds short⟩
  intro wanted hwanted
  rw [given wanted hwanted]
  exact placed_holds

/-- A harmless operation has the meaning of values, and keeps the messages well-formed. -/
theorem step_of_harmless (wf : WellFormed s) (admissible : Admissible s op)
    (harmless : Harmless s op) :
    ∃ t, step s op = some t ∧ ValueSemantics s op t ∧ WellFormed t := by
  cases op with
  | empty x => exact ⟨_, rfl, empty_right wf x⟩
  | construct x bytes c =>
    obtain ⟨hnew, free⟩ := admissible
    have deleted : delete none s.heap = some s.heap := rfl
    refine ⟨_, construct_eq harmless, placed_right wf harmless (fun _ => id) deleted
      (free s.heap deleted) fun z a _ _ => ?_⟩
    exact (Option.some_ne_none a).symm
  | copyConstruct x other c =>
    obtain ⟨hnew, ⟨m, hm⟩, free⟩ := admissible
    obtain ⟨bytes, holds, short⟩ := wf.holds other m hm
    have hne : other ≠ x := by
      rintro rfl
      rw [hnew] at hm
      cases hm
    obtain ⟨heap, deleted⟩ : ∃ heap, delete c.field s.heap = some heap := by
      cases hfield : c.field with
      | none => exact ⟨s.heap, rfl⟩
      | some a =>
        obtain ⟨⟨held, harray⟩, -⟩ := harmless a hfield
        exact ⟨_, delete_some harray⟩
    have apart : ∀ z a, buffer s z = some a → c.field ≠ some a := fun z a hbuffer hfield =>
      (harmless a hfield).2 z hbuffer
    have given : ∀ wanted, Given s (.copyConstruct x other c) wanted → wanted = bytes :=
      fun wanted hwanted => Holds.unique hwanted holds
    exact ⟨_, replace_other hne short deleted holds (apart other) (free heap deleted),
      placed_right wf short given deleted (free heap deleted) fun z a _ => apart z a⟩
  | assign x other c =>
    obtain ⟨⟨this, hthis⟩, ⟨m, hm⟩, free⟩ := admissible
    obtain ⟨bytes, holds, short⟩ := wf.holds other m hm
    obtain ⟨heap, deleted⟩ := wf.deletable x
    have apart : ∀ z a, z ≠ x → buffer s z = some a → buffer s x ≠ some a :=
      fun z a hz hbuffer hx => hz (wf.separate z x a hbuffer hx)
    have hstep : step s (.assign x other c) = replace (buffer s x) x other c s := by
      rw [step, assign, buffer, hthis, Option.bind_some, Option.bind_some]
    have hplaced : step s (.assign x other c) = some (placed x bytes c s heap) := by
      rw [hstep]
      by_cases hself : x = other
      · subst hself
        rw [replace_self short deleted holds, harmless rfl bytes holds]
      · exact replace_other (Ne.symm hself) short deleted holds
          (fun a => apart other a (Ne.symm hself)) (free heap deleted)
    have given : ∀ wanted, Given s (.assign x other c) wanted → wanted = bytes :=
      fun wanted hwanted => Holds.unique hwanted holds
    exact ⟨_, hplaced, placed_right wf short given deleted (free heap deleted) apart⟩

omit [DecidableEq μ] in
/-- What filling a new array leaves behind. -/
theorem fill_frame {size : ℕ} {source : Heap Address Byte → ℕ → Option Byte} {c : Choice}
    {messages : μ → Option Message} {heap : Heap Address Byte}
    (h : fill size source c messages heap = some t) :
    t.messages = messages ∧ ∀ a, a ≠ c.address → t.heap a = heap a := by
  obtain ⟨filled, hloop, rfl⟩ := Option.map_eq_some_iff.mp h
  refine ⟨rfl, fun a ha => ?_⟩
  exact (copyLoop_other hloop ha).trans (allocate_other _ ha)

/-- The array that is deleted first is there, and belongs to no other message that keeps it. -/
theorem deleted_of_right {x other : μ} {c : Choice} {a : Address}
    (taken : replace (some a) x other c s = some t) (others : ∀ z, z ≠ x → Unchanged s t z)
    (separate : Separate t) :
    (∃ bytes, s.heap a = some bytes) ∧ ∀ z, z ≠ x → buffer s z ≠ some a := by
  obtain ⟨heap, hdelete, taken⟩ := Option.bind_eq_some_iff.mp taken
  obtain ⟨m, -, hfill⟩ := Option.bind_eq_some_iff.mp taken
  obtain ⟨hmessages, hframe⟩ := fill_frame hfill
  cases harray : s.heap a with
  | none =>
    rw [delete_free harray] at hdelete
    cases hdelete
  | some bytes =>
    refine ⟨⟨bytes, rfl⟩, fun z hz hbuffer => ?_⟩
    obtain ⟨hsame, hkept⟩ := others z hz
    -- the array is gone, or its address has been given to the target
    by_cases haddress : a = c.address
    · have htarget : buffer t x = some a := by
        rw [buffer, hmessages, renew, Function.update_self, Option.bind_some, haddress]
      have hother : buffer t z = some a := by
        rw [buffer, hsame]
        exact hbuffer
      exact hz (separate z x a hother htarget)
    · have hgone : heap a = none := by
        rw [delete_some harray] at hdelete
        cases hdelete
        exact Function.update_self ..
      have hstill := hkept a hbuffer
      rw [hframe a haddress, hgone, harray] at hstill
      cases hstill

/-- An operation that has the meaning of values is harmless. -/
theorem harmless_of_right (wf : WellFormed s) (admissible : Admissible s op)
    (right : StepRight s op) : Harmless s op := by
  obtain ⟨t, taken, semantics⟩ := right
  cases op with
  | empty x => trivial
  | construct x bytes c =>
    by_contra long
    rw [step, construct_long (Nat.le_of_not_lt long)] at taken
    cases taken
  | copyConstruct x other c =>
    intro a hfield
    rw [step, copyConstruct, hfield] at taken
    obtain ⟨harray, apart⟩ := deleted_of_right taken semantics.others semantics.separate
    refine ⟨harray, fun z hbuffer => ?_⟩
    apply apart z _ hbuffer
    rintro rfl
    rw [buffer, admissible.1] at hbuffer
    cases hbuffer
  | assign x other c =>
    rintro rfl bytes holds
    obtain ⟨m, hm⟩ := admissible.1
    obtain ⟨held, hheld, short⟩ := wf.holds x m hm
    obtain rfl : held = bytes := hheld.unique holds
    obtain ⟨heap, deleted⟩ := wf.deletable x
    have hstep : step s (.assign x x c) = replace (buffer s x) x x c s := by
      rw [step, assign, buffer, hm, Option.bind_some, Option.bind_some]
    rw [hstep, replace_self short deleted hheld] at taken
    cases taken
    exact placed_holds.unique (semantics.value held hheld)

end Steps

/-! ### Runs -/

/-- In every sequence of operations, all of them have the meaning of values exactly where all of
them are harmless. -/
theorem value_semantics_iff {s : State μ} {ops : List (Operation μ)} (wf : WellFormed s)
    (admissible : Along step Admissible s ops) :
    Along step StepRight s ops ↔ Along step Harmless s ops := by
  induction ops generalizing s with
  | nil => exact Iff.rfl
  | cons op ops ih =>
    obtain ⟨possible, later⟩ := admissible
    rw [along_cons, along_cons]
    constructor
    · rintro ⟨right, rest⟩
      have harmless := harmless_of_right wf possible right
      obtain ⟨t, taken, -, next⟩ := step_of_harmless wf possible harmless
      refine ⟨harmless, fun t' taken' => ?_⟩
      obtain rfl : t = t' := Option.some.inj (taken.symm.trans taken')
      exact (ih next (later t taken)).mp (rest t taken)
    · rintro ⟨harmless, rest⟩
      obtain ⟨t, taken, semantics, next⟩ := step_of_harmless wf possible harmless
      refine ⟨⟨t, taken, semantics⟩, fun t' taken' => ?_⟩
      obtain rfl : t = t' := Option.some.inj (taken.symm.trans taken')
      exact (ih next (later t taken)).mpr (rest t taken)

/-- Before any message is constructed, whatever else is on the heap. -/
def start (heap : Heap Address Byte) : State μ := ⟨heap, fun _ => none⟩

omit [DecidableEq μ] in
theorem wellFormed_start (heap : Heap Address Byte) : WellFormed (start heap : State μ) where
  holds _ _ h := by cases h
  separate _ _ _ h := by cases h

/-- A platform that puts arrays at an address, filled with zeros, and leaves pointers null. -/
def zeros (address : Address) : Choice := ⟨address, fun _ => 0, none⟩

/-- Nothing on the heap, no messages. -/
def nothing : State ℕ := start fun _ => none

/-- The first message, with one byte. -/
def first : State ℕ := placed 0 [65] (zeros 1000) nothing nothing.heap

theorem first_message : first.messages 0 = some ⟨some 1000, 1⟩ := rfl

theorem step_first : step nothing (.construct 0 [65] (zeros 1000)) = some first :=
  construct_eq (by decide)

/-- A second operation is taken in the state that the first one leaves. -/
theorem along_second {ok : State ℕ → Operation ℕ → Prop} {op : Operation ℕ}
    (one : ok nothing (.construct 0 [65] (zeros 1000))) (two : ok first op) :
    Along step ok nothing [.construct 0 [65] (zeros 1000), op] := by
  refine ⟨one, fun t taken => ⟨?_, fun _ _ => trivial⟩⟩
  obtain rfl : first = t := Option.some.inj (step_first.symm.trans taken)
  exact two

theorem admissible_first : Admissible nothing (.construct 0 [65] (zeros 1000)) := by
  refine ⟨rfl, fun heap h => ?_⟩
  cases h
  rfl

/-- A message of one byte is constructed and then copied. -/
theorem copy_is_value :
    Along step StepRight nothing
      [.construct 0 [65] (zeros 1000), .copyConstruct 1 0 (zeros 1001)] := by
  apply (value_semantics_iff (wellFormed_start _) (along_second admissible_first ?_)).mpr
  · apply along_second
    · show [65].length < indexSize
      decide
    · intro a h
      cases h
  · refine ⟨rfl, ⟨_, first_message⟩, fun heap h => ?_⟩
    cases h
    rfl

/-- A message that is assigned to itself loses its byte. -/
theorem self_assignment_loses :
    ¬ ∀ (s : State ℕ) (ops : List (Operation ℕ)), WellFormed s → Along step Admissible s ops →
      Along step StepRight s ops := by
  intro hall
  have possible : Admissible first (.assign 0 0 (zeros 1001)) := by
    refine ⟨⟨_, first_message⟩, ⟨_, first_message⟩, fun heap h => ?_⟩
    have hdelete : delete (some 1000) first.heap = some heap := h
    have harray : first.heap 1000 = some [65] := rfl
    rw [delete_some harray] at hdelete
    cases hdelete
    rfl
  obtain ⟨one, two⟩ := hall nothing [.construct 0 [65] (zeros 1000), .assign 0 0 (zeros 1001)]
    (wellFormed_start _) (along_second admissible_first possible)
  obtain ⟨t, taken, -, wf⟩ := step_of_harmless (wellFormed_start _) admissible_first
    (show [65].length < indexSize by decide)
  obtain rfl : first = t := Option.some.inj (step_first.symm.trans taken)
  have lost := harmless_of_right wf possible (two first step_first).1 rfl [65] placed_holds
  cases lost

end Kista.SynchComm.MessageValues
