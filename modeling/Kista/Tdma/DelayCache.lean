/- Kista/Tdma/DelayCache
   source: src/src/comm_res/buses/tdma_bus.cpp, tdma_bus.hpp
   digest: The delay getters of the bus, which cache both delays of a link and a message size in
   one record, and when their answers are the delays. -/

import Kista.Resources.LinksTable
import Kista.Tdma.TransmissionDelay

set_option autoImplicit false
set_option relaxedAutoImplicit false

namespace Kista.Tdma.DelayCache

open Kista.Resources.LinksTable Kista.Tdma.Delays Kista.Tdma.TransmissionDelay

variable {A : Type}

/-- The configuration of the bus. A source without an entry in a table reads as zero. -/
structure Bus (A : Type) where
  timing : BusTiming
  accuracyLevel : ℕ
  channelAllocationTable : A → UInt32
  firstSlotAllocationTable : A → UInt32

inductive BusFault (A : Type)
  | links (fault : Fault A)
  | noSlotAllocated (link : Link A)
  | settingFailed (link : Link A)
  | unknownAccuracyLevel
  | cyclesOverflow
  deriving DecidableEq

namespace Bus

variable [DecidableEq A] (bus : Bus A)

def calculateMaxP2Pdelay (msgSize slotsAllocated : UInt32) : Except (BusFault A) ℚ :=
  match bus.accuracyLevel with
  | 0 => .ok (calculateMaxP2PdelayL0 bus.timing msgSize slotsAllocated)
  | 1 => .ok (calculateMaxP2PdelayL1 bus.timing msgSize slotsAllocated)
  | 2 => .ok (calculateMaxP2PdelayL2 bus.timing msgSize slotsAllocated)
  | _ => .error .unknownAccuracyLevel

def setMaxP2Pdelay (r : CommRes A) (simulating : Bool) (plink : Link A) (msgSize : UInt32) :
    Except (BusFault A) (CommRes A) := do
  let slotsAllocated := bus.channelAllocationTable plink.src
  if slotsAllocated = 0 then .error (.noSlotAllocated plink)
  else
    let commDelay ← bus.calculateMaxP2Pdelay msgSize slotsAllocated
    (r.setMaxP2Pdelay simulating plink commDelay msgSize).mapError .links

/-- Only the part of the delay that does not depend on time is stored. -/
def setCurrentP2Pdelay (r : CommRes A) (simulating : Bool) (plink : Link A) (msgSize : UInt32) :
    Except (BusFault A) (CommRes A) :=
  let slotsAllocated := bus.channelAllocationTable plink.src
  if slotsAllocated = 0 then .error (.noSlotAllocated plink)
  else
    let dataTxDelay := calculateDataTxDelayL0 bus.timing msgSize slotsAllocated
    (r.setCurrentP2Pdelay simulating plink dataTxDelay msgSize).mapError .links

/-- The opening of both getters: the record, which the setter creates if there is none. -/
def properties (set : CommRes A → Bool → Link A → UInt32 → Except (BusFault A) (CommRes A))
    (r : CommRes A) (simulating : Bool) (plink : Link A) (msgSize : UInt32) :
    Except (BusFault A) (CommRes A × LinkInfo) := do
  match ← (r.getProperties plink msgSize).mapError .links with
  | some info => .ok (r, info)
  | none =>
    let r ← set r simulating plink msgSize
    match ← (r.getProperties plink msgSize).mapError .links with
    | some info => .ok (r, info)
    | none => .error (.settingFailed plink)

def getMaxP2Pdelay (r : CommRes A) (simulating : Bool) (plink : Link A) (msgSize : UInt32) :
    Except (BusFault A) (CommRes A × ℚ) := do
  let (r, info) ← properties bus.setMaxP2Pdelay r simulating plink msgSize
  .ok (r, info.maxP2Pdelay)

/-- The offset from the first allocated slot, or at level one the bound times a random draw. -/
def currentOffset (now draw : ℚ) (plink : Link A) : Except (BusFault A) ℚ :=
  match bus.accuracyLevel with
  | 0 =>
    match currentOffsetDelayL0 bus.timing now (bus.firstSlotAllocationTable plink.src) with
    | some offset => .ok offset
    | none => .error .cyclesOverflow
  | 1 => .ok (maxOffsetDelay bus.timing (bus.channelAllocationTable plink.src) * draw)
  | _ => .error .unknownAccuracyLevel

def getCurrentP2Pdelay (r : CommRes A) (simulating : Bool) (now draw : ℚ) (plink : Link A)
    (msgSize : UInt32) : Except (BusFault A) (CommRes A × ℚ) := do
  let (r, info) ← properties bus.setCurrentP2Pdelay r simulating plink msgSize
  -- The source reads the maximum here, where the setter above stores the current delay.
  let dataTxDelay := info.maxP2Pdelay
  let offset ← bus.currentOffset now draw plink
  .ok (r, offset + dataTxDelay)

end Bus

inductive Getter
  | maxP2Pdelay
  | currentP2Pdelay
  deriving DecidableEq

structure DelayCall (A : Type) where
  getter : Getter
  link : Link A
  msgSize : UInt32
  simulating : Bool
  now : ℚ
  draw : ℚ
  deriving DecidableEq

def answer [DecidableEq A] (bus : Bus A) (r : CommRes A) (call : DelayCall A) :
    Except (BusFault A) (CommRes A × ℚ) :=
  match call.getter with
  | .maxP2Pdelay => bus.getMaxP2Pdelay r call.simulating call.link call.msgSize
  | .currentP2Pdelay =>
    bus.getCurrentP2Pdelay r call.simulating call.now call.draw call.link call.msgSize

/-- The answers of a sequence of calls, and the table they leave. -/
def run [DecidableEq A] (bus : Bus A) (r : CommRes A) (calls : List (DelayCall A)) :
    Except (BusFault A) (CommRes A × List ℚ) :=
  calls.foldlM (fun (r, answers) call => do
    let (r, value) ← answer bus r call
    .ok (r, answers ++ [value])) (r, [])

/-- The inherited table as the constructor of the bus leaves it, with links added. -/
def registered [DecidableEq A] (links : List (Link A)) : CommRes A :=
  links.foldl CommRes.addLink
    { connectionsTimeInvariant := false
      connectionsMessageSizeInvariant := false
      linksTable := ∅ }

/-- The delay that a call asks for. -/
def expected (bus : Bus A) (call : DelayCall A) : Option ℚ :=
  let slots := bus.channelAllocationTable call.link.src
  match call.getter with
  | .maxP2Pdelay => (bus.calculateMaxP2Pdelay call.msgSize slots).toOption
  | .currentP2Pdelay =>
    (currentOffsetDelayL0 bus.timing call.now (bus.firstSlotAllocationTable call.link.src)).map
      fun offset => offset + calculateDataTxDelayL0 bus.timing call.msgSize slots

/-- Every call returns the delay it asks for. -/
def Coherent [DecidableEq A] (bus : Bus A) (r : CommRes A) (calls : List (DelayCall A)) : Prop :=
  ∃ r' answers, run bus r calls = .ok (r', answers) ∧
    answers.map some = calls.map (expected bus)

/-- Nothing to transmit: no bits, on a bus whose cycle is the only slot of the source. -/
def Idle (bus : Bus A) (call : DelayCall A) : Prop :=
  (call.msgSize = 0 ∧ bus.channelAllocationTable call.link.src = 1 ∧
      bus.timing.cycleTime = bus.timing.slotTime) ∧
    cyclesCompleted bus.timing call.now < 2 ^ 32

def SameRecord (call other : DelayCall A) : Prop :=
  other.link = call.link ∧ other.msgSize = call.msgSize

/-- The calls on one link and message size all use one getter, and the current delay is only asked
for where nothing is transmitted. -/
structure OneGetter (bus : Bus A) (calls : List (DelayCall A)) : Prop where
  same : ∀ call ∈ calls, ∀ other ∈ calls, SameRecord call other → other.getter = call.getter
  idle : ∀ call ∈ calls, call.getter = .currentP2Pdelay → Idle bus call

section Answers

variable [DecidableEq A] {bus : Bus A} {r r' : CommRes A} {call other : DelayCall A} {info : LinkInfo}

/-- The record that a call creates when it finds none. -/
def recordOf (bus : Bus A) (call : DelayCall A) : LinkInfo :=
  let slots := bus.channelAllocationTable call.link.src
  match call.getter with
  | .maxP2Pdelay =>
    LinkInfo.initial.setMaxP2Pdelay (calculateMaxP2PdelayL0 bus.timing call.msgSize slots)
  | .currentP2Pdelay =>
    LinkInfo.initial.setCurrentP2Pdelay (calculateDataTxDelayL0 bus.timing call.msgSize slots)

/-- What a call returns from a record at level zero. -/
def valueOf (bus : Bus A) (call : DelayCall A) (info : LinkInfo) : Option ℚ :=
  match call.getter with
  | .maxP2Pdelay => some info.maxP2Pdelay
  | .currentP2Pdelay =>
    (currentOffsetDelayL0 bus.timing call.now (bus.firstSlotAllocationTable call.link.src)).map
      fun offset => offset + info.maxP2Pdelay

def outcome (bus : Bus A) (call : DelayCall A) (r : CommRes A) (info : LinkInfo) :
    Except (BusFault A) (CommRes A × ℚ) :=
  match valueOf bus call info with
  | some value => .ok (r, value)
  | none => .error .cyclesOverflow

theorem properties_hit
    {set : CommRes A → Bool → Link A → UInt32 → Except (BusFault A) (CommRes A)}
    (present : r.record call.link call.msgSize = some info) :
    Bus.properties set r call.simulating call.link call.msgSize = .ok (r, info) := by
  have got := CommRes.getProperties_eq_ok.mpr ⟨CommRes.mem_of_record present, present⟩
  rw [Bus.properties, got]
  rfl

theorem properties_miss
    {set : CommRes A → Bool → Link A → UInt32 → Except (BusFault A) (CommRes A)}
    (known : call.link ∈ r.linksTable) (absent : r.record call.link call.msgSize = none)
    (done : set r call.simulating call.link call.msgSize = .ok r')
    (written : CommRes.Written r r' call.link call.msgSize info) :
    Bus.properties set r call.simulating call.link call.msgSize = .ok (r', info) := by
  have before := CommRes.getProperties_eq_ok.mpr ⟨known, absent⟩
  have after : r'.getProperties call.link call.msgSize = .ok (some info) := by
    refine CommRes.getProperties_eq_ok.mpr ⟨?_, ?_⟩
    · rw [written.mem_iff]
      exact Or.inr known
    · rw [written.record_eq, if_pos ⟨rfl, rfl⟩]
  simp only [Bus.properties, before, done, after, Except.mapError, bind, Except.bind]

/-- At level zero the answer of a call is the outcome for the record its getter opens with. -/
theorem answer_eq (level : bus.accuracyLevel = 0)
    (opened : Bus.properties
        (match call.getter with
          | .maxP2Pdelay => bus.setMaxP2Pdelay
          | .currentP2Pdelay => bus.setCurrentP2Pdelay)
        r call.simulating call.link call.msgSize = .ok (r', info)) :
    answer bus r call = outcome bus call r' info := by
  rw [answer, outcome, valueOf]
  cases getter : call.getter with
  | maxP2Pdelay =>
    rw [getter] at opened
    show bus.getMaxP2Pdelay r call.simulating call.link call.msgSize = _
    rw [Bus.getMaxP2Pdelay, opened]
    rfl
  | currentP2Pdelay =>
    rw [getter] at opened
    show bus.getCurrentP2Pdelay r call.simulating call.now call.draw call.link call.msgSize = _
    rw [Bus.getCurrentP2Pdelay, opened]
    show (do
      let offset ← bus.currentOffset call.now call.draw call.link
      .ok (r', offset + info.maxP2Pdelay)) = _
    rw [Bus.currentOffset, level]
    cases currentOffsetDelayL0 bus.timing call.now (bus.firstSlotAllocationTable call.link.src)
      <;> rfl

theorem answer_hit (level : bus.accuracyLevel = 0)
    (present : r.record call.link call.msgSize = some info) :
    answer bus r call = outcome bus call r info :=
  answer_eq level (properties_hit present)

theorem answer_miss (level : bus.accuracyLevel = 0)
    (time : r.connectionsTimeInvariant = false) (sizes : r.connectionsMessageSizeInvariant = false)
    (known : call.link ∈ r.linksTable) (absent : r.record call.link call.msgSize = none)
    (allocated : 1 ≤ (bus.channelAllocationTable call.link.src).toNat) :
    ∃ r', CommRes.Written r r' call.link call.msgSize (recordOf bus call) ∧
      answer bus r call = outcome bus call r' (recordOf bus call) := by
  have some_slot : bus.channelAllocationTable call.link.src ≠ 0 := by
    intro none
    rw [none] at allocated
    exact absurd allocated (by decide)
  -- the setter that the getter calls creates the record
  have created : ∀ (write : LinkInfo → ℚ → LinkInfo) (value : ℚ), ∃ r',
      r.setWith write call.simulating call.link value call.msgSize = .ok r' ∧
        CommRes.Written r r' call.link call.msgSize (write LinkInfo.initial value) := by
    intro write value
    obtain ⟨r', done⟩ : ∃ r', r.setWith write call.simulating call.link value call.msgSize =
      .ok r' := CommRes.setWith_total time sizes known
    have written := (CommRes.setWith_spec done).2
    rw [absent] at written
    exact ⟨r', done, written⟩
  cases getter : call.getter with
  | maxP2Pdelay =>
    obtain ⟨r', done, written⟩ := created LinkInfo.setMaxP2Pdelay
      (calculateMaxP2PdelayL0 bus.timing call.msgSize (bus.channelAllocationTable call.link.src))
    have set : bus.setMaxP2Pdelay r call.simulating call.link call.msgSize = .ok r' := by
      rw [Bus.setMaxP2Pdelay, if_neg some_slot, Bus.calculateMaxP2Pdelay, level]
      simp only [CommRes.setMaxP2Pdelay, bind, Except.bind, done, Except.mapError]
    rw [recordOf, getter]
    refine ⟨r', written, answer_eq level ?_⟩
    rw [getter]
    exact properties_miss known absent set written
  | currentP2Pdelay =>
    obtain ⟨r', done, written⟩ := created LinkInfo.setCurrentP2Pdelay
      (calculateDataTxDelayL0 bus.timing call.msgSize (bus.channelAllocationTable call.link.src))
    have set : bus.setCurrentP2Pdelay r call.simulating call.link call.msgSize = .ok r' := by
      rw [Bus.setCurrentP2Pdelay, if_neg some_slot]
      simp only [CommRes.setCurrentP2Pdelay, done, Except.mapError]
    rw [recordOf, getter]
    refine ⟨r', written, answer_eq level ?_⟩
    rw [getter]
    exact properties_miss known absent set written

end Answers

/-- The answers are compared on an accepted bus at level 0, where the source of every link has slots
of its own. -/
structure Configured (bus : Bus A) (links : List (Link A)) : Prop where
  accepted : Accepted bus.timing
  level : bus.accuracyLevel = 0
  allocated : ∀ link ∈ links, 1 ≤ (bus.channelAllocationTable link.src).toNat ∧
    (bus.channelAllocationTable link.src).toNat ≤ bus.timing.nChannels.toNat

section Agreement

variable {bus : Bus A} {links : List (Link A)} {calls : List (DelayCall A)}
  {r r' : CommRes A} {call other : DelayCall A}

theorem offset_isSome (bus : Bus A) (call : DelayCall A) :
    (∃ offset, currentOffsetDelayL0 bus.timing call.now
        (bus.firstSlotAllocationTable call.link.src) = some offset) ↔
      cyclesCompleted bus.timing call.now < 2 ^ 32 := by
  rw [currentOffsetDelayL0_eq]
  by_cases fits : cyclesCompleted bus.timing call.now < 2 ^ 32
  · rw [if_pos fits]
    exact iff_of_true ⟨_, rfl⟩ fits
  · rw [if_neg fits]
    exact iff_of_false nofun fits

/-- A record answers a call rightly when the getter of the call made it, and the current delay has
nothing to transmit. -/
theorem right_iff (h : Configured bus links) (known : call.link ∈ links)
    (same : SameRecord call other) :
    (∃ value, valueOf bus call (recordOf bus other) = some value ∧
        expected bus call = some value) ↔
      other.getter = call.getter ∧ (call.getter = .currentP2Pdelay → Idle bus call) := by
  obtain ⟨slots, fit⟩ := h.allocated call.link known
  obtain ⟨same_link, same_size⟩ := same
  have offset := maxOffsetDelay_pos h.accepted slots fit
  obtain ⟨tx_nonneg, tx_zero⟩ : 0 ≤ calculateDataTxDelayL0 bus.timing call.msgSize
      (bus.channelAllocationTable call.link.src) ∧ _ :=
    calculateDataTxDelayL0_eq_zero h.accepted slots
  have level : (bus.calculateMaxP2Pdelay call.msgSize
      (bus.channelAllocationTable call.link.src)).toOption =
      some (calculateMaxP2PdelayL0 bus.timing call.msgSize
        (bus.channelAllocationTable call.link.src)) := by
    rw [Bus.calculateMaxP2Pdelay, h.level]
    rfl
  rw [valueOf, expected, recordOf, same_link, same_size]
  cases asked : call.getter <;> cases made : other.getter
  · simp [level, LinkInfo.setMaxP2Pdelay]
  · simp only [level, LinkInfo.setCurrentP2Pdelay, LinkInfo.initial]
    refine iff_of_false ?_ (by simp)
    rintro ⟨value, ⟨rfl⟩, equal⟩
    have := Option.some.inj equal
    rw [calculateMaxP2PdelayL0] at this
    linarith
  · simp only [LinkInfo.setMaxP2Pdelay]
    refine iff_of_false ?_ (by simp)
    rintro ⟨value, returned, wanted⟩
    obtain ⟨d, found, rfl⟩ := Option.map_eq_some_iff.mp returned
    rw [found] at wanted
    have := Option.some.inj wanted
    rw [calculateMaxP2PdelayL0] at this
    linarith
  · simp only [LinkInfo.setCurrentP2Pdelay, LinkInfo.initial, true_and, forall_const, Idle]
    rw [← tx_zero, ← offset_isSome]
    constructor
    · rintro ⟨value, returned, wanted⟩
      obtain ⟨d, found, rfl⟩ := Option.map_eq_some_iff.mp returned
      rw [found] at wanted
      have := Option.some.inj wanted
      exact ⟨by linarith, d, found⟩
    · rintro ⟨nothing, d, found⟩
      refine ⟨d + 0, ?_, ?_⟩
      · rw [found]
        rfl
      · rw [found, nothing]
        rfl

theorem recordOf_congr (same : SameRecord call other)
    (getter : other.getter = call.getter) : recordOf bus other = recordOf bus call := by
  rw [recordOf, recordOf, getter, same.1, same.2]

theorem outcome_eq_ok {info : LinkInfo} {value : ℚ} :
    outcome bus call r info = .ok (r', value) ↔ valueOf bus call info = some value ∧ r = r' := by
  rw [outcome]
  cases valueOf bus call info <;> simp [and_comm]

theorem right_outcome {info : LinkInfo} :
    (∃ r' value, outcome bus call r info = .ok (r', value) ∧ expected bus call = some value) ↔
      ∃ value, valueOf bus call info = some value ∧ expected bus call = some value := by
  simp only [outcome_eq_ok]
  constructor
  · rintro ⟨r', value, ⟨returned, -⟩, wanted⟩
    exact ⟨value, returned, wanted⟩
  · rintro ⟨value, returned, wanted⟩
    exact ⟨r, value, ⟨returned, rfl⟩, wanted⟩

/-- A call that agrees with the earlier ones on its record may be added to them. -/
theorem same_append
    (same : ∀ call ∈ calls, ∀ other ∈ calls, SameRecord call other → other.getter = call.getter) :
    (∀ first ∈ calls ++ [call], ∀ other ∈ calls ++ [call], SameRecord first other →
        other.getter = first.getter) ↔
      ∀ other ∈ calls, SameRecord call other → other.getter = call.getter := by
  constructor
  · intro all other listed
    exact all call (by simp) other (List.mem_append_left _ listed)
  · intro agrees first first_listed other other_listed shared
    rcases List.mem_append.mp first_listed with first_old | first_new <;>
      rcases List.mem_append.mp other_listed with other_old | other_new
    · exact same first first_old other other_old shared
    · obtain rfl := List.mem_singleton.mp other_new
      exact (agrees first first_old ⟨shared.1.symm, shared.2.symm⟩).symm
    · obtain rfl := List.mem_singleton.mp first_new
      exact agrees other other_old shared
    · rw [List.mem_singleton.mp first_new, List.mem_singleton.mp other_new]

theorem oneGetter_append :
    OneGetter bus (calls ++ [call]) ↔
      OneGetter bus calls ∧
        (∀ other ∈ calls, SameRecord call other → other.getter = call.getter) ∧
        (call.getter = .currentP2Pdelay → Idle bus call) := by
  constructor
  · intro one
    have same : ∀ first ∈ calls, ∀ other ∈ calls, SameRecord first other →
        other.getter = first.getter := fun first first_listed other other_listed =>
      one.same first (List.mem_append_left _ first_listed) other
        (List.mem_append_left _ other_listed)
    refine ⟨⟨same, ?_⟩, (same_append same).mp one.same, ?_⟩
    · exact fun first listed => one.idle first (List.mem_append_left _ listed)
    · exact one.idle call (by simp)
  · rintro ⟨one, agrees, idle⟩
    refine ⟨(same_append one.same).mpr agrees, ?_⟩
    intro first listed
    rcases List.mem_append.mp listed with old | new
    · exact one.idle first old
    · obtain rfl := List.mem_singleton.mp new
      exact idle

end Agreement

/-- After calls that were all answered rightly, each record is the one its getter makes. -/
structure Cached [DecidableEq A] (bus : Bus A) (links : List (Link A)) (calls : List (DelayCall A))
    (r : CommRes A) : Prop where
  time : r.connectionsTimeInvariant = false
  sizes : r.connectionsMessageSizeInvariant = false
  known : ∀ link ∈ links, link ∈ r.linksTable
  same : ∀ call ∈ calls, ∀ other ∈ calls, SameRecord call other → other.getter = call.getter
  used : ∀ call ∈ calls, r.record call.link call.msgSize = some (recordOf bus call)
  unused : ∀ call : DelayCall A, (∀ other ∈ calls, ¬ SameRecord call other) →
    r.record call.link call.msgSize = none

section Runs

variable [DecidableEq A] {bus : Bus A} {links : List (Link A)} {calls : List (DelayCall A)}
  {r r' : CommRes A} {call : DelayCall A}

theorem cached_registered (bus : Bus A) (links : List (Link A)) :
    Cached bus links [] (registered links) := by
  rw [registered]
  induction links using List.reverseRecOn with
  | nil =>
    constructor
    · rfl
    · rfl
    · exact fun link absurd => nomatch absurd
    · exact fun call absurd => nomatch absurd
    · exact fun call absurd => nomatch absurd
    · exact fun call _ => rfl
  | append_singleton links link ih =>
    rw [List.foldl_append]
    constructor
    · exact ih.time
    · exact ih.sizes
    · intro other listed
      rw [List.foldl_cons, List.foldl_nil, CommRes.addLink, AList.mem_insert]
      rcases List.mem_append.mp listed with old | new
      · exact Or.inr (ih.known other old)
      · exact Or.inl (List.mem_singleton.mp new)
    · exact fun call absurd => nomatch absurd
    · exact fun call absurd => nomatch absurd
    · intro call none
      rw [List.foldl_cons, List.foldl_nil, CommRes.record_addLink, ih.unused call none, ite_self]

/-- The next call is answered rightly exactly when the earlier calls on its record used the same
getter and it is idle if it asks for the current delay. Then the records stay as described. -/
theorem answer_step (h : Configured bus links) (cached : Cached bus links calls r)
    (known : call.link ∈ links) :
    ((∃ r' value, answer bus r call = .ok (r', value) ∧ expected bus call = some value) ↔
        (∀ other ∈ calls, SameRecord call other → other.getter = call.getter) ∧
          (call.getter = .currentP2Pdelay → Idle bus call)) ∧
      ((∀ other ∈ calls, SameRecord call other → other.getter = call.getter) →
        ∀ r' value, answer bus r call = .ok (r', value) →
          Cached bus links (calls ++ [call]) r') := by
  by_cases earlier : ∃ other ∈ calls, SameRecord call other
  · obtain ⟨other, listed, same⟩ := earlier
    have present : r.record call.link call.msgSize = some (recordOf bus other) := by
      rw [← same.1, ← same.2]
      exact cached.used other listed
    have agree : (∀ third ∈ calls, SameRecord call third → third.getter = call.getter) ↔
        other.getter = call.getter := by
      constructor
      · intro all
        exact all other listed same
      · intro getter third third_listed third_same
        rw [← getter]
        exact cached.same other listed third third_listed
          ⟨third_same.1.trans same.1.symm, third_same.2.trans same.2.symm⟩
    rw [answer_hit h.level present]
    constructor
    · rw [right_outcome, right_iff h known same, agree]
    · intro agrees r' value done
      obtain ⟨-, rfl⟩ := outcome_eq_ok.mp done
      refine ⟨cached.time, cached.sizes, cached.known, (same_append cached.same).mpr agrees, ?_, ?_⟩
      · intro third third_listed
        rcases List.mem_append.mp third_listed with old | new
        · exact cached.used third old
        · obtain rfl := List.mem_singleton.mp new
          rw [present, recordOf_congr same (agree.mp agrees)]
      · intro third none
        exact cached.unused third fun fourth fourth_listed =>
          none fourth (List.mem_append_left _ fourth_listed)
  · have fresh : ∀ other ∈ calls, ¬ SameRecord call other :=
      fun other listed same => earlier ⟨other, listed, same⟩
    obtain ⟨r', written, answered⟩ := answer_miss h.level cached.time cached.sizes
      (cached.known call.link known) (cached.unused call fresh) (h.allocated call.link known).1
    rw [answered]
    constructor
    · rw [right_outcome, right_iff h known ⟨rfl, rfl⟩]
      refine and_congr_left' (iff_of_true rfl ?_)
      exact fun other listed same => absurd same (fresh other listed)
    · intro agrees r'' value done
      obtain ⟨-, rfl⟩ := outcome_eq_ok.mp done
      refine ⟨?_, ?_, ?_, (same_append cached.same).mpr agrees, ?_, ?_⟩
      · rw [written.time_eq, cached.time]
      · rw [written.sizes_eq, cached.sizes]
      · intro link listed
        rw [written.mem_iff]
        exact Or.inr (cached.known link listed)
      · intro third third_listed
        rw [written.record_eq]
        rcases List.mem_append.mp third_listed with old | new
        · have other : ¬ (third.link = call.link ∧ third.msgSize = call.msgSize) :=
            fresh third old
          rw [if_neg other, cached.used third old]
        · obtain rfl := List.mem_singleton.mp new
          rw [if_pos ⟨rfl, rfl⟩]
      · intro third none
        have new := none call (by simp)
        rw [written.record_eq, if_neg fun equal => new ⟨equal.1.symm, equal.2.symm⟩]
        exact cached.unused third fun fourth fourth_listed =>
          none fourth (List.mem_append_left _ fourth_listed)

theorem run_append :
    run bus r (calls ++ [call]) = (do
      let (r', answers) ← run bus r calls
      let (r'', value) ← answer bus r' call
      .ok (r'', answers ++ [value])) := by
  rw [run, List.foldlM_append]
  simp only [List.foldlM_cons, List.foldlM_nil, bind_pure]
  rfl

theorem coherent_append :
    Coherent bus r (calls ++ [call]) ↔
      ∃ r' answers, run bus r calls = .ok (r', answers) ∧
        answers.map some = calls.map (expected bus) ∧
        ∃ r'' value, answer bus r' call = .ok (r'', value) ∧ expected bus call = some value := by
  rw [Coherent, run_append]
  cases before : run bus r calls with
  | error fault =>
    refine iff_of_false ?_ nofun
    rintro ⟨r', answers, absurd, -⟩
    cases absurd
  | ok reached =>
    obtain ⟨r', answers⟩ := reached
    cases next : answer bus r' call with
    | error fault =>
      refine iff_of_false ?_ ?_
      · rintro ⟨r'', all, absurd, -⟩
        simp only [bind, Except.bind, next] at absurd
        cases absurd
      · rintro ⟨r'', all, equal, -, r3, value, absurd, -⟩
        cases equal
        rw [next] at absurd
        cases absurd
    | ok last =>
      obtain ⟨r'', value⟩ := last
      constructor
      · rintro ⟨r3, all, equal, right⟩
        simp only [bind, Except.bind, next, Except.ok.injEq, Prod.mk.injEq] at equal
        obtain ⟨rfl, rfl⟩ := equal
        rw [List.map_append, List.map_append] at right
        obtain ⟨old, new⟩ := List.append_inj' right rfl
        exact ⟨r', answers, rfl, old, r'', value, next, (List.cons.inj new).1.symm⟩
      · rintro ⟨r3, all, equal, old, r4, value', answered, wanted⟩
        cases equal
        rw [next] at answered
        cases answered
        refine ⟨r'', answers ++ [value], ?_, ?_⟩
        · simp only [bind, Except.bind, next]
        · rw [List.map_append, List.map_append, old, List.map_singleton, List.map_singleton,
            wanted]

end Runs

/-- A source with the first of four slots of ten time units. -/
def oneSource : Bus ℕ where
  timing := fourSlots
  accuracyLevel := 0
  channelAllocationTable _ := 1
  firstSlotAllocationTable _ := 0

theorem oneSource_configured : Configured oneSource [⟨0, 1⟩] where
  accepted := fourSlots_accepted
  level := rfl
  allocated _ _ := by
    show 1 ≤ (1 : UInt32).toNat ∧ (1 : UInt32).toNat ≤ (4 : UInt32).toNat
    decide

def askMax : DelayCall ℕ := ⟨.maxP2Pdelay, ⟨0, 1⟩, 1, false, 0, 0⟩

def askCurrent : DelayCall ℕ := ⟨.currentP2Pdelay, ⟨0, 1⟩, 1, false, 0, 0⟩

end Kista.Tdma.DelayCache
