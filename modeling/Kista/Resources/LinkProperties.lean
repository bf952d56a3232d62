/- Kista/Resources/LinkProperties
   source: src/src/comm_res/comm_res.hpp, src/src/link_info_t.cpp
   digest: What a getter of a link property returns after any sequence of calls, and when it is
   the value last set. -/

import Kista.Resources.LinksTable
import Mathlib.Data.List.DropRight

set_option autoImplicit false
set_option relaxedAutoImplicit false

namespace Kista.Resources.LinkProperties

open Kista.Resources.LinksTable

variable {A : Type} [DecidableEq A]

inductive Attribute
  | minBW
  | currentBW
  | avgBW
  | maxP2Pdelay
  | currentP2Pdelay
  | avgP2Pdelay
  deriving DecidableEq

namespace Attribute

def set : Attribute → CommRes A → Bool → Link A → ℚ → UInt32 → Except (Fault A) (CommRes A)
  | .minBW => CommRes.setMinBW
  | .currentBW => CommRes.setCurrentBW
  | .avgBW => CommRes.setAvgBW
  | .maxP2Pdelay => CommRes.setMaxP2Pdelay
  | .currentP2Pdelay => CommRes.setCurrentP2Pdelay
  | .avgP2Pdelay => CommRes.setAvgP2Pdelay

def get : Attribute → CommRes A → Link A → UInt32 → Except (Fault A) ℚ
  | .minBW => CommRes.getMinBW
  | .currentBW => CommRes.getCurrentBW
  | .avgBW => CommRes.getAvgBW
  | .maxP2Pdelay => CommRes.getMaxP2Pdelay
  | .currentP2Pdelay => CommRes.getCurrentP2Pdelay
  | .avgP2Pdelay => CommRes.getAvgP2Pdelay

def write : Attribute → LinkInfo → ℚ → LinkInfo
  | .minBW => LinkInfo.setMinBW
  | .currentBW => LinkInfo.setCurrentBW
  | .avgBW => LinkInfo.setAvgBW
  | .maxP2Pdelay => LinkInfo.setMaxP2Pdelay
  | .currentP2Pdelay => LinkInfo.setCurrentP2Pdelay
  | .avgP2Pdelay => LinkInfo.setAvgP2Pdelay

def read : Attribute → LinkInfo → ℚ
  | .minBW => LinkInfo.minBW
  | .currentBW => LinkInfo.currentBW
  | .avgBW => LinkInfo.avgBW
  | .maxP2Pdelay => LinkInfo.maxP2Pdelay
  | .currentP2Pdelay => LinkInfo.currentP2Pdelay
  | .avgP2Pdelay => LinkInfo.avgP2Pdelay

theorem set_eq (X : Attribute) : X.set (A := A) = CommRes.setWith X.write := by
  cases X <;> rfl

theorem get_eq (X : Attribute) : X.get (A := A) = CommRes.getWith X.read := by
  cases X <;> rfl

/-- A setter writes its own field only, and that of the average bandwidth writes nothing. -/
theorem read_write (X Y : Attribute) (info : LinkInfo) (value : ℚ) :
    Y.read (X.write info value) = if X = Y ∧ Y ≠ .avgBW then value else Y.read info := by
  cases X <;> cases Y <;> rfl

end Attribute

inductive Call (A : Type)
  | addLink (link : Link A)
  | set (X : Attribute) (simulating : Bool) (link : Link A) (value : ℚ) (msgSize : UInt32)
  | get (X : Attribute) (link : Link A) (msgSize : UInt32)
  deriving DecidableEq

def step (r : CommRes A) : Call A → Except (Fault A) (CommRes A)
  | .addLink link => .ok (r.addLink link)
  | .set X simulating link value msgSize => X.set r simulating link value msgSize
  | .get X link msgSize => (X.get r link msgSize).map fun _ => r

def run (r : CommRes A) (calls : List (Call A)) : Except (Fault A) (CommRes A) :=
  calls.foldlM step r

/-- A resource without links. -/
def fresh (timeInvariant sizeInvariant : Bool) : CommRes A where
  connectionsTimeInvariant := timeInvariant
  connectionsMessageSizeInvariant := sizeInvariant
  linksTable := ∅

section Calls

variable (X : Attribute) (link : Link A) (msgSize : UInt32)

def Call.valueSet : Call A → Option ℚ
  | .set Y _ other value size =>
    if Y = X ∧ other = link ∧ size = msgSize then some value else none
  | _ => none

def Call.writes : Call A → Prop
  | .set _ _ other _ size => other = link ∧ size = msgSize
  | _ => False

/-- The value last set for a link, a message size and an attribute. -/
def lastSet (calls : List (Call A)) : Option ℚ :=
  calls.reverse.findSome? (Call.valueSet X link msgSize)

/-- The calls after the last `add_link` of a link, or all of them. -/
def sinceAdd (calls : List (Call A)) : List (Call A) :=
  calls.rtakeWhile fun call => call ≠ .addLink link

/-- What a record of the link holds: nothing is ever stored in the average bandwidth. -/
def stored (calls : List (Call A)) : ℚ :=
  (if X = .avgBW then none else lastSet X link msgSize (sinceAdd link calls)).getD
    (X.read LinkInfo.initial)

/-- A getter called now returns the value last set, if one was. -/
def ReadsLast (r : CommRes A) (calls : List (Call A)) : Prop :=
  ∀ value, lastSet X link msgSize calls = some value → X.get r link msgSize = .ok value

/-- If a value was set, the link has a record of message size one since it was last added, and
that record holds the same value. -/
def Kept (calls : List (Call A)) : Prop :=
  ∀ value, lastSet X link msgSize calls = some value →
    (∃ call ∈ sinceAdd link calls, call.writes link 1) ∧ stored X link 1 calls = value

end Calls

section Append

variable {X : Attribute} {link other : Link A} {msgSize size : UInt32} {calls : List (Call A)}

theorem lastSet_append (call : Call A) :
    lastSet X link msgSize (calls ++ [call]) =
      (call.valueSet X link msgSize).or (lastSet X link msgSize calls) := by
  rw [lastSet, List.reverse_append, List.reverse_singleton, List.singleton_append,
    List.findSome?_cons]
  cases call.valueSet X link msgSize <;> rfl

theorem sinceAdd_add : sinceAdd link (calls ++ [.addLink link]) = [] := by
  rw [sinceAdd, List.rtakeWhile_concat_neg]
  simp

theorem sinceAdd_other {call : Call A} (other : call ≠ .addLink link) :
    sinceAdd link (calls ++ [call]) = sinceAdd link calls ++ [call] := by
  rw [sinceAdd, List.rtakeWhile_concat_pos]
  · rfl
  · simpa using other

end Append

/-- A record exists when it was written since the link was last added, and holds what was stored
since then. -/
structure Recorded (calls : List (Call A)) (r : CommRes A) (link : Link A) (msgSize : UInt32) :
    Prop where
  present : (r.record link msgSize).isSome ↔ ∃ call ∈ sinceAdd link calls, call.writes link msgSize
  holds : ∀ X : Attribute, X.read ((r.record link msgSize).getD LinkInfo.initial) =
    stored X link msgSize calls

theorem recorded_nil (time sizes : Bool) (link : Link A) (msgSize : UInt32) :
    Recorded [] (fresh time sizes) link msgSize where
  present := by
    show (none : Option LinkInfo).isSome ↔ ∃ call ∈ [], _
    simp
  holds X := by
    show X.read LinkInfo.initial = _
    rw [stored]
    split <;> rfl

theorem Recorded.addLink {calls : List (Call A)} {r : CommRes A} {link : Link A}
    {msgSize : UInt32} (h : Recorded calls r link msgSize) (added : Link A) :
    Recorded (calls ++ [.addLink added]) (r.addLink added) link msgSize := by
  by_cases same : link = added
  · subst same
    have erased : (r.addLink link).record link msgSize = none := by
      rw [CommRes.record_addLink, if_pos rfl]
    constructor
    · rw [erased, sinceAdd_add]
      simp
    · intro X
      rw [erased, stored, sinceAdd_add]
      split <;> rfl
  · have kept : (r.addLink added).record link msgSize = r.record link msgSize := by
      rw [CommRes.record_addLink, if_neg same]
    have later : sinceAdd link (calls ++ [.addLink added]) =
        sinceAdd link calls ++ [.addLink added] :=
      sinceAdd_other fun equal => same (Call.addLink.inj equal).symm
    constructor
    · rw [kept, later, h.present]
      simp [Call.writes]
    · intro X
      rw [kept, h.holds, stored, stored, later, lastSet_append]
      rfl

theorem Recorded.set {calls : List (Call A)} {r r' : CommRes A} {link written : Link A}
    {msgSize size : UInt32} {X : Attribute} {simulating : Bool} {value : ℚ}
    (h : Recorded calls r link msgSize)
    (done : X.set r simulating written value size = .ok r') :
    Recorded (calls ++ [.set X simulating written value size]) r' link msgSize := by
  have later : sinceAdd link (calls ++ [.set X simulating written value size]) =
      sinceAdd link calls ++ [.set X simulating written value size] := sinceAdd_other nofun
  rw [Attribute.set_eq] at done
  have table := (CommRes.setWith_spec done).2.record_eq link msgSize
  by_cases same : link = written ∧ msgSize = size
  · obtain ⟨rfl, rfl⟩ := same
    rw [if_pos ⟨rfl, rfl⟩] at table
    constructor
    · rw [table, later]
      simp [Call.writes]
    · intro Y
      have old := h.holds Y
      rw [stored] at old
      rw [table, Option.getD_some, Attribute.read_write, old, stored, later, lastSet_append,
        Call.valueSet]
      by_cases average : Y = .avgBW
      · simp [average]
      · by_cases own : X = Y
        · simp [average, own]
        · simp [average, own]
  · rw [if_neg same] at table
    have unwritten : ¬ (written = link ∧ size = msgSize) := by
      rintro ⟨rfl, rfl⟩
      exact same ⟨rfl, rfl⟩
    constructor
    · rw [table, later, h.present]
      simp [Call.writes, unwritten]
    · intro Y
      have no_value : ¬ (X = Y ∧ written = link ∧ size = msgSize) := fun all => unwritten all.2
      rw [table, h.holds, stored, stored, later, lastSet_append, Call.valueSet, if_neg no_value,
        Option.none_or]

theorem Recorded.get {calls : List (Call A)} {r r' : CommRes A} {link read : Link A}
    {msgSize size : UInt32} {X : Attribute} (h : Recorded calls r link msgSize)
    (done : (X.get r read size).map (fun _ => r) = .ok r') :
    Recorded (calls ++ [.get X read size]) r' link msgSize := by
  have later : sinceAdd link (calls ++ [.get X read size]) =
      sinceAdd link calls ++ [.get X read size] := sinceAdd_other nofun
  obtain rfl : r = r' := by
    cases got : X.get r read size with
    | error fault =>
      rw [got] at done
      cases done
    | ok value =>
      rw [got] at done
      exact Except.ok.inj done
  constructor
  · rw [later, h.present]
    simp [Call.writes]
  · intro Y
    rw [h.holds, stored, stored, later, lastSet_append]
    rfl

theorem recorded_of_run {time sizes : Bool} {calls : List (Call A)} {r : CommRes A}
    (reached : run (fresh time sizes) calls = .ok r) (link : Link A) (msgSize : UInt32) :
    Recorded calls r link msgSize := by
  induction calls using List.reverseRecOn generalizing r with
  | nil =>
    obtain rfl := Except.ok.inj reached
    exact recorded_nil time sizes link msgSize
  | append_singleton calls call ih =>
    rw [run, List.foldlM_append] at reached
    cases before : run (fresh time sizes) calls with
    | error fault =>
      rw [run] at before
      rw [before] at reached
      cases reached
    | ok middle =>
      have h := ih before
      rw [run] at before
      rw [before] at reached
      simp only [List.foldlM_cons, List.foldlM_nil, bind_pure] at reached
      have last : step middle call = .ok r := reached
      cases call with
      | addLink added =>
        obtain rfl := Except.ok.inj last
        exact h.addLink added
      | set X simulating written value size => exact h.set last
      | get X read size => exact h.get last

/-- The getters return the value last set exactly when the record of message size one still has
it. -/
theorem readsLast_iff {time sizes : Bool} {calls : List (Call A)} {r : CommRes A}
    (reached : run (fresh time sizes) calls = .ok r) (X : Attribute) (link : Link A)
    (msgSize : UInt32) : ReadsLast X link msgSize r calls ↔ Kept X link msgSize calls := by
  have h := recorded_of_run reached link 1
  refine forall₂_congr fun value _ => ?_
  rw [Attribute.get_eq, CommRes.getWith_eq_ok, ← h.present, ← h.holds]
  cases r.record link 1 <;> simp

/-- A link added once, with a minimum bandwidth set for message size one. -/
def oneSet : List (Call ℕ) := [.addLink ⟨0, 1⟩, .set .minBW false ⟨0, 1⟩ 5 1]

theorem oneSet_kept : ∃ r, run (fresh false false) oneSet = .ok r ∧
    ReadsLast .minBW ⟨0, 1⟩ 1 r oneSet := by
  obtain ⟨r, reached⟩ : ∃ r, run (fresh false false) oneSet = .ok r := ⟨_, rfl⟩
  refine ⟨r, reached, (readsLast_iff reached .minBW ⟨0, 1⟩ 1).mpr ?_⟩
  intro value set
  obtain rfl : 5 = value := Option.some.inj set
  refine ⟨⟨.set .minBW false ⟨0, 1⟩ 5 1, ?_, rfl, rfl⟩, ?_⟩
  · decide
  · decide

/-- A value set for another message size has no record to be read from, an average bandwidth is
not stored, and a link added again has lost its records. -/
theorem sets_lost :
    ¬ (∀ r, run (fresh false false) [.addLink ⟨0, 1⟩, .set .minBW false ⟨0, 1⟩ 5 8] = .ok r →
        ReadsLast .minBW (⟨0, 1⟩ : Link ℕ) 8 r
          [.addLink ⟨0, 1⟩, .set .minBW false ⟨0, 1⟩ 5 8]) ∧
    ¬ (∀ r, run (fresh false false) [.addLink ⟨0, 1⟩, .set .avgBW false ⟨0, 1⟩ 5 1] = .ok r →
        ReadsLast .avgBW (⟨0, 1⟩ : Link ℕ) 1 r
          [.addLink ⟨0, 1⟩, .set .avgBW false ⟨0, 1⟩ 5 1]) ∧
    ¬ (∀ r, run (fresh false false) (oneSet ++ [.addLink ⟨0, 1⟩]) = .ok r →
        ReadsLast .minBW (⟨0, 1⟩ : Link ℕ) 1 r (oneSet ++ [.addLink ⟨0, 1⟩])) := by
  refine ⟨?_, ?_, ?_⟩ <;> intro law
  · have := law _ rfl 5 (by decide)
    exact absurd this (by decide)
  · have := law _ rfl 5 (by decide)
    exact absurd this (by decide)
  · have := law _ rfl 5 (by decide)
    exact absurd this (by decide)

end Kista.Resources.LinkProperties
