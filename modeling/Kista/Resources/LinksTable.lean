/- Kista/Resources/LinksTable
   source: src/src/comm_res/comm_res.hpp, src/src/link_info_t.cpp, src/src/link_t.hpp
   digest: The two-level table of link properties of a communication resource, its setters and
   getters, and one record of it through every call. -/

import Mathlib.Data.List.AList
import Mathlib.Data.Rat.Init
import Mathlib.Algebra.Order.Ring.Rat

set_option autoImplicit false
set_option relaxedAutoImplicit false

/-!
The table is an unordered map whose hash agrees with the equality of links, so it is a finite map
on links; the message sizes of a link form a second one. Records are only reached through the
table and no two entries share one.
-/

namespace Kista.Resources.LinksTable

/-- `link_t`: two links are equal when both addresses are. -/
structure Link (A : Type) where
  src : A
  dest : A
  deriving DecidableEq

structure LinkInfo where
  minBW : ℚ
  maxP2Pdelay : ℚ
  currentBW : ℚ
  currentP2Pdelay : ℚ
  avgBW : ℚ
  avgP2Pdelay : ℚ
  deriving DecidableEq

namespace LinkInfo

/-- The constructor: a negative bandwidth stands for an infinite one. -/
def initial : LinkInfo where
  minBW := -1
  maxP2Pdelay := 0
  currentBW := -1
  currentP2Pdelay := 0
  avgBW := -1
  avgP2Pdelay := 0

def setMinBW (info : LinkInfo) (bw : ℚ) : LinkInfo := { info with minBW := bw }

def setCurrentBW (info : LinkInfo) (bw : ℚ) : LinkInfo := { info with currentBW := bw }

-- The source assigns the field to itself.
def setAvgBW (info : LinkInfo) (_bw : ℚ) : LinkInfo := { info with avgBW := info.avgBW }

def setMaxP2Pdelay (info : LinkInfo) (delay : ℚ) : LinkInfo := { info with maxP2Pdelay := delay }

def setCurrentP2Pdelay (info : LinkInfo) (delay : ℚ) : LinkInfo :=
  { info with currentP2Pdelay := delay }

def setAvgP2Pdelay (info : LinkInfo) (delay : ℚ) : LinkInfo := { info with avgP2Pdelay := delay }

end LinkInfo

/-- The errors reported by the table. Each one ends the run. -/
inductive Report (A : Type)
  | timeInvariant
  | twoMessageSizes (link : Link A) (last first : UInt32)
  | linkNotFound (link : Link A)
  deriving DecidableEq

inductive Fault (A : Type)
  | report (r : Report A)
  | nullPointer
  deriving DecidableEq

abbrev InfoByMsgSize := AList fun _ : UInt32 => LinkInfo

structure CommRes (A : Type) where
  connectionsTimeInvariant : Bool
  connectionsMessageSizeInvariant : Bool
  linksTable : AList fun _ : Link A => Option InfoByMsgSize

variable {A : Type} [DecidableEq A]

namespace CommRes

def addLink (r : CommRes A) (link : Link A) : CommRes A :=
  { r with linksTable := r.linksTable.insert link none }

/-- The smallest message size of a link, as the error names it. -/
def firstSize (sizes : InfoByMsgSize) (default : UInt32) : UInt32 :=
  sizes.keys.foldl min default

def setProperties (r : CommRes A) (simulating : Bool) (link : Link A) (info : LinkInfo)
    (msgSize : UInt32) : Except (Fault A) (CommRes A) :=
  let store (sizes : InfoByMsgSize) : CommRes A :=
    { r with linksTable := r.linksTable.insert link (some sizes) }
  if r.connectionsTimeInvariant && simulating then .error (.report .timeInvariant)
  else match r.linksTable.lookup link with
    | none => .ok (store (AList.singleton msgSize info))
    | some none => .ok (store (AList.singleton msgSize info))
    | some (some sizes) =>
      let sizes := sizes.insert msgSize info
      if r.connectionsMessageSizeInvariant ∧ 1 < sizes.keys.length then
        .error (.report (.twoMessageSizes link msgSize (firstSize sizes msgSize)))
      else .ok (store sizes)

def getProperties (r : CommRes A) (link : Link A) (msgSize : UInt32) :
    Except (Fault A) (Option LinkInfo) :=
  match r.linksTable.lookup link with
  | none => .error (.report (.linkNotFound link))
  | some none => .ok none
  | some (some sizes) => .ok (sizes.lookup msgSize)

/-- The common body of the setters. -/
def setWith (write : LinkInfo → ℚ → LinkInfo) (r : CommRes A) (simulating : Bool) (link : Link A)
    (value : ℚ) (msgSize : UInt32) : Except (Fault A) (CommRes A) := do
  let info : Option LinkInfo ← r.getProperties link msgSize
  r.setProperties simulating link (write (info.getD LinkInfo.initial) value) msgSize

def setMinBW : CommRes A → Bool → Link A → ℚ → UInt32 → Except (Fault A) (CommRes A) :=
  setWith LinkInfo.setMinBW

def setCurrentBW : CommRes A → Bool → Link A → ℚ → UInt32 → Except (Fault A) (CommRes A) :=
  setWith LinkInfo.setCurrentBW

def setAvgBW : CommRes A → Bool → Link A → ℚ → UInt32 → Except (Fault A) (CommRes A) :=
  setWith LinkInfo.setAvgBW

def setMaxP2Pdelay : CommRes A → Bool → Link A → ℚ → UInt32 → Except (Fault A) (CommRes A) :=
  setWith LinkInfo.setMaxP2Pdelay

def setCurrentP2Pdelay : CommRes A → Bool → Link A → ℚ → UInt32 → Except (Fault A) (CommRes A) :=
  setWith LinkInfo.setCurrentP2Pdelay

def setAvgP2Pdelay : CommRes A → Bool → Link A → ℚ → UInt32 → Except (Fault A) (CommRes A) :=
  setWith LinkInfo.setAvgP2Pdelay

/-- The common body of the getters. The message size is not passed on to `get_properties`, whose
default is one, and the record found there is used without a check. -/
def getWith (read : LinkInfo → ℚ) (r : CommRes A) (link : Link A) (_msgSize : UInt32) :
    Except (Fault A) ℚ := do
  match ← r.getProperties link 1 with
  | none => .error .nullPointer
  | some info => .ok (read info)

def getMinBW : CommRes A → Link A → UInt32 → Except (Fault A) ℚ := getWith LinkInfo.minBW

def getCurrentBW : CommRes A → Link A → UInt32 → Except (Fault A) ℚ := getWith LinkInfo.currentBW

def getAvgBW : CommRes A → Link A → UInt32 → Except (Fault A) ℚ := getWith LinkInfo.avgBW

def getMaxP2Pdelay : CommRes A → Link A → UInt32 → Except (Fault A) ℚ :=
  getWith LinkInfo.maxP2Pdelay

def getCurrentP2Pdelay : CommRes A → Link A → UInt32 → Except (Fault A) ℚ :=
  getWith LinkInfo.currentP2Pdelay

def getAvgP2Pdelay : CommRes A → Link A → UInt32 → Except (Fault A) ℚ :=
  getWith LinkInfo.avgP2Pdelay

/-- The record of a link and a message size, if there is one. -/
def record (r : CommRes A) (link : Link A) (msgSize : UInt32) : Option LinkInfo :=
  (r.linksTable.lookup link).join.bind fun sizes => sizes.lookup msgSize

variable {r r' : CommRes A} {link : Link A} {msgSize : UInt32}

theorem record_addLink (r : CommRes A) (added link : Link A) (msgSize : UInt32) :
    (r.addLink added).record link msgSize =
      if link = added then none else r.record link msgSize := by
  by_cases same : link = added
  · subst same
    simp [record, addLink]
  · simp [record, addLink, same, AList.lookup_insert_ne same]

theorem getProperties_eq_ok {info : Option LinkInfo} :
    r.getProperties link msgSize = .ok info ↔
      link ∈ r.linksTable ∧ r.record link msgSize = info := by
  rw [← AList.lookup_isSome, getProperties, record]
  rcases r.linksTable.lookup link with - | - | sizes <;> simp

theorem mem_of_record {info : LinkInfo} (present : r.record link msgSize = some info) :
    link ∈ r.linksTable := by
  rw [← AList.lookup_isSome]
  cases found : r.linksTable.lookup link with
  | none => simp [record, found] at present
  | some entry => rfl

/-- One record is written, and nothing else in the table changes. -/
structure Written (r r' : CommRes A) (link : Link A) (msgSize : UInt32) (info : LinkInfo) :
    Prop where
  record_eq : ∀ other size, r'.record other size =
    if other = link ∧ size = msgSize then some info else r.record other size
  mem_iff : ∀ other, other ∈ r'.linksTable ↔ other = link ∨ other ∈ r.linksTable
  sizes_eq : r'.connectionsMessageSizeInvariant = r.connectionsMessageSizeInvariant
  time_eq : r'.connectionsTimeInvariant = r.connectionsTimeInvariant

theorem written_insert {sizes : InfoByMsgSize} {info : LinkInfo}
    (written : sizes.lookup msgSize = some info)
    (kept : ∀ size, size ≠ msgSize → sizes.lookup size = r.record link size) :
    Written r { r with linksTable := r.linksTable.insert link (some sizes) } link msgSize info where
  record_eq other size := by
    by_cases same : other = link
    · subst same
      by_cases written_size : size = msgSize
      · subst written_size
        simp [record, written]
      · simp [record, written_size, kept size written_size]
    · simp [record, same, AList.lookup_insert_ne same]
  mem_iff _ := AList.mem_insert _
  sizes_eq := rfl
  time_eq := rfl

theorem written_singleton {info : LinkInfo} (fresh : (r.linksTable.lookup link).join = none) :
    Written r { r with linksTable := r.linksTable.insert link (some (AList.singleton msgSize info)) }
      link msgSize info := by
  rw [← AList.insert_empty]
  refine written_insert (AList.lookup_insert _) fun size other => ?_
  rw [AList.lookup_insert_ne other]
  simp [record, fresh]

theorem setProperties_spec {simulating : Bool} {info : LinkInfo}
    (done : r.setProperties simulating link info msgSize = .ok r') :
    Written r r' link msgSize info := by
  simp only [setProperties] at done
  split at done
  · cases done
  · cases found : r.linksTable.lookup link with
    | none =>
      simp only [found, Except.ok.injEq] at done
      rw [← done]
      exact written_singleton (by rw [found]; rfl)
    | some entry =>
      cases entry with
      | none =>
        simp only [found, Except.ok.injEq] at done
        rw [← done]
        exact written_singleton (by rw [found]; rfl)
      | some sizes =>
        simp only [found] at done
        split at done
        · cases done
        · rw [← Except.ok.inj done]
          refine written_insert (AList.lookup_insert _) fun size other => ?_
          rw [AList.lookup_insert_ne other]
          simp [record, found]

theorem setProperties_total {simulating : Bool} (info : LinkInfo)
    (time : r.connectionsTimeInvariant = false) (sizes : r.connectionsMessageSizeInvariant = false) :
    ∃ r', r.setProperties simulating link info msgSize = .ok r' := by
  simp only [setProperties, time, sizes]
  rcases r.linksTable.lookup link with - | - | sizes <;> exact ⟨_, rfl⟩

section Accessors

variable {write : LinkInfo → ℚ → LinkInfo} {read : LinkInfo → ℚ} {simulating : Bool} {value : ℚ}

theorem setWith_spec (done : r.setWith write simulating link value msgSize = .ok r') :
    link ∈ r.linksTable ∧
      Written r r' link msgSize
        (write ((r.record link msgSize).getD LinkInfo.initial) value) := by
  simp only [setWith] at done
  cases got : r.getProperties link msgSize with
  | error fault =>
    rw [got] at done
    cases done
  | ok info =>
    obtain ⟨registered, rfl⟩ := getProperties_eq_ok.mp got
    rw [got] at done
    exact ⟨registered, setProperties_spec done⟩

theorem setWith_total (time : r.connectionsTimeInvariant = false)
    (sizes : r.connectionsMessageSizeInvariant = false) (registered : link ∈ r.linksTable) :
    ∃ r', r.setWith write simulating link value msgSize = .ok r' := by
  have got := getProperties_eq_ok.mpr ⟨registered, Eq.refl (r.record link msgSize)⟩
  obtain ⟨r', done⟩ : ∃ r', r.setProperties simulating link
      (write ((r.record link msgSize).getD LinkInfo.initial) value) msgSize = .ok r' :=
    setProperties_total _ time sizes
  refine ⟨r', ?_⟩
  rw [setWith, got]
  exact done

/-- A getter answers from the record of message size one, whatever size it is asked for. -/
theorem getWith_eq_ok :
    r.getWith read link msgSize = .ok value ↔
      ∃ info, r.record link 1 = some info ∧ read info = value := by
  rw [getWith]
  cases got : r.getProperties link 1 with
  | error fault =>
    refine iff_of_false nofun ?_
    rintro ⟨info, present, -⟩
    rw [getProperties_eq_ok.mpr ⟨mem_of_record present, present⟩] at got
    cases got
  | ok info =>
    rw [(getProperties_eq_ok.mp got).2]
    cases info with
    | none => exact iff_of_false nofun nofun
    | some info =>
      show Except.ok (read info) = Except.ok value ↔ _
      simp

end Accessors

end CommRes

end Kista.Resources.LinksTable
