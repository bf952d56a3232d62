/- Kista/Resources/MessageSizes
   source: src/src/comm_res/comm_res.hpp
   digest: What a rejected call leaves in the table of links, and when a resource whose connections
   do not depend on the message size keeps one record a link. -/

import Kista.Resources.LinkProperties

set_option autoImplicit false
set_option relaxedAutoImplicit false

/-!
An error ends the call and not the program: what the call has written by then stays written. The
record that a setter finds is written in place, before `set_properties` is called with it. A record
stored under two entries is two records here: nothing below depends on what a record holds.
-/

namespace Kista.Resources.MessageSizes

open Kista.Resources.LinksTable Kista.Resources.LinkProperties

variable {A : Type} [DecidableEq A]

/-- What a call leaves behind. -/
structure Outcome (A : Type) where
  res : CommRes A
  fault : Option (Fault A)

/-- The entry of a message size in the table of a link. -/
def writeEntry (r : CommRes A) (link : Link A) (sizes : InfoByMsgSize) (info : LinkInfo)
    (msgSize : UInt32) : CommRes A :=
  { r with linksTable := r.linksTable.insert link (some (sizes.insert msgSize info)) }

/-- `set_properties` with the state that it ends in: the check of the message sizes comes after
the insertion. -/
def setProperties (r : CommRes A) (simulating : Bool) (link : Link A) (info : LinkInfo)
    (msgSize : UInt32) : Outcome A :=
  if r.connectionsTimeInvariant && simulating then ⟨r, some (.report .timeInvariant)⟩
  else match r.linksTable.lookup link with
    | none => ⟨writeEntry r link ∅ info msgSize, none⟩
    | some none => ⟨writeEntry r link ∅ info msgSize, none⟩
    | some (some sizes) =>
      let inserted := sizes.insert msgSize info
      { res := writeEntry r link sizes info msgSize
        fault :=
          if r.connectionsMessageSizeInvariant ∧ 1 < inserted.keys.length then
            some (.report (.twoMessageSizes link msgSize (CommRes.firstSize inserted msgSize)))
          else none }

/-- The outcome without the state of a failed call. -/
def Outcome.toExcept (o : Outcome A) : Except (Fault A) (CommRes A) :=
  match o.fault with
  | none => .ok o.res
  | some fault => .error fault

/-- The version that keeps what a failed call has written reports the same as the plain one. -/
theorem setProperties_toExcept (r : CommRes A) (simulating : Bool) (link : Link A)
    (info : LinkInfo) (msgSize : UInt32) :
    (setProperties r simulating link info msgSize).toExcept =
      r.setProperties simulating link info msgSize := by
  rw [setProperties, CommRes.setProperties]
  split_ifs with htime
  · rfl
  · rcases r.linksTable.lookup link with - | - | sizes
    · rfl
    · rfl
    · simp only [Outcome.toExcept]
      by_cases hsizes : r.connectionsMessageSizeInvariant ∧ 1 < (sizes.insert msgSize info).keys.length
      · rw [if_pos hsizes, if_pos hsizes]
      · rw [if_neg hsizes, if_neg hsizes]
        rfl

inductive Call (A : Type)
  | addLink (link : Link A)
  | setProperties (simulating : Bool) (link : Link A) (info : LinkInfo) (msgSize : UInt32)
  | set (X : Attribute) (simulating : Bool) (link : Link A) (value : ℚ) (msgSize : UInt32)

/-- A call of `set_properties`, and the state in which it is made. -/
structure Request (A : Type) where
  res : CommRes A
  simulating : Bool
  link : Link A
  info : LinkInfo
  msgSize : UInt32

/-- The write of a setter into the record that it has found. -/
def writeFound (r : CommRes A) (link : Link A) (info : LinkInfo) (msgSize : UInt32) : CommRes A :=
  match r.linksTable.lookup link with
  | some (some sizes) => if msgSize ∈ sizes then writeEntry r link sizes info msgSize else r
  | _ => r

/-- The call of `set_properties` that a call makes, if it does. -/
def request (r : CommRes A) : Call A → Option (Request A)
  | .addLink _ => none
  | .setProperties simulating link info msgSize => some ⟨r, simulating, link, info, msgSize⟩
  | .set X simulating link value msgSize =>
    match r.getProperties link msgSize with
    | .error _ => none
    | .ok found =>
      let info := X.write (found.getD LinkInfo.initial) value
      some ⟨writeFound r link info msgSize, simulating, link, info, msgSize⟩

def Request.outcome (q : Request A) : Outcome A :=
  setProperties q.res q.simulating q.link q.info q.msgSize

def step (r : CommRes A) : Call A → CommRes A
  | .addLink link => r.addLink link
  | .setProperties simulating link info msgSize =>
    (setProperties r simulating link info msgSize).res
  | .set X simulating link value msgSize =>
    (request r (.set X simulating link value msgSize)).elim r fun q => q.outcome.res

/-- The state after a sequence of calls. -/
def reached (time : Bool) (calls : List (Call A)) : CommRes A := calls.foldl step (fresh time true)

/-- No link has two message-size entries. -/
def OneEntry (r : CommRes A) : Prop :=
  ∀ link sizes, r.linksTable.lookup link = some (some sizes) → sizes.keys.length ≤ 1

/-- The same links, with the same message sizes and records. -/
def SameTable (r r' : CommRes A) : Prop :=
  ∀ link, (link ∈ r'.linksTable ↔ link ∈ r.linksTable) ∧
    ∀ msgSize, r'.record link msgSize = r.record link msgSize

/-- An error of `set_properties` leaves the table as it was. -/
def Atomic (r : CommRes A) (call : Call A) : Prop :=
  ∀ q ∈ request r call, q.outcome.fault.isSome → SameTable q.res q.outcome.res

/-- The link has no other message size than the one that is set, or the call is rejected for the
time. -/
def SameSize (r : CommRes A) (call : Call A) : Prop :=
  ∀ q ∈ request r call, (q.res.connectionsTimeInvariant && q.simulating) = false →
    ∀ sizes, q.res.linksTable.lookup q.link = some (some sizes) → ∀ size ∈ sizes, size = q.msgSize

/-! ### One call of `set_properties` -/

/-- After the insertion one size is left when there was no other. -/
theorem one_entry_insert_iff {sizes : InfoByMsgSize} {info : LinkInfo} {msgSize : UInt32} :
    (sizes.insert msgSize info).keys.length ≤ 1 ↔ ∀ size ∈ sizes, size = msgSize := by
  rw [AList.keys_insert, List.length_cons, Nat.succ_le_succ_iff, Nat.le_zero, List.length_eq_zero_iff]
  have hother : ∀ size, size ∈ sizes.keys.erase msgSize ↔ size ≠ msgSize ∧ size ∈ sizes :=
    fun size => sizes.keys_nodup.mem_erase_iff
  constructor
  · intro hnone size hsize
    by_contra hne
    have hmem := (hother size).mpr ⟨hne, hsize⟩
    rw [hnone] at hmem
    cases hmem
  · intro hsame
    apply List.eq_nil_iff_forall_not_mem.mpr
    intro size hmem
    obtain ⟨hne, hsize⟩ := (hother size).mp hmem
    exact hne (hsame size hsize)

theorem eq_of_one_entry {sizes : InfoByMsgSize} (hone : sizes.keys.length ≤ 1)
    {first second : UInt32} (hfirst : first ∈ sizes) (hsecond : second ∈ sizes) :
    first = second := by
  rw [AList.mem_keys] at hfirst hsecond
  cases hkeys : sizes.keys with
  | nil =>
    rw [hkeys] at hfirst
    cases hfirst
  | cons key rest =>
    rw [hkeys, List.length_cons, Nat.succ_le_succ_iff, Nat.le_zero,
      List.length_eq_zero_iff] at hone
    rw [hkeys, hone, List.mem_singleton] at hfirst hsecond
    rw [hfirst, hsecond]

theorem oneEntry_insert_iff {r : CommRes A} {link : Link A} {sizes : InfoByMsgSize} (h : OneEntry r) :
    OneEntry { r with linksTable := r.linksTable.insert link (some sizes) } ↔
      sizes.keys.length ≤ 1 := by
  constructor
  · intro hafter
    exact hafter link sizes (AList.lookup_insert r.linksTable)
  · intro hsizes other sizes' hlookup
    by_cases hsame : other = link
    · subst hsame
      have hentry := (AList.lookup_insert r.linksTable).symm.trans hlookup
      obtain rfl : sizes = sizes' := Option.some.inj (Option.some.inj hentry)
      exact hsizes
    · apply h other sizes'
      rw [← AList.lookup_insert_ne hsame]
      exact hlookup

theorem OneEntry.addLink {r : CommRes A} (h : OneEntry r) (link : Link A) :
    OneEntry (r.addLink link) := by
  intro other sizes hlookup
  by_cases hsame : other = link
  · subst hsame
    have hentry := (AList.lookup_insert r.linksTable).symm.trans hlookup
    cases hentry
  · apply h other sizes
    rw [← AList.lookup_insert_ne hsame]
    exact hlookup

/-- The record that a setter writes in place has its entry already. -/
theorem OneEntry.writeFound {r : CommRes A} (h : OneEntry r) (link : Link A) (info : LinkInfo)
    (msgSize : UInt32) : OneEntry (writeFound r link info msgSize) := by
  rw [MessageSizes.writeFound]
  split
  · rename_i sizes hlookup
    split_ifs with hmem
    · apply (oneEntry_insert_iff h).mpr
      apply one_entry_insert_iff.mpr
      intro size hsize
      exact eq_of_one_entry (h link sizes hlookup) hsize hmem
    · exact h
  · exact h

theorem sameTable_refl (r : CommRes A) : SameTable r r := fun _ => ⟨Iff.rfl, fun _ => rfl⟩

/-- Whether a call of `set_properties` is right is whether it sets the size that the link has. -/
theorem outcome_right_iff {q : Request A} (h : OneEntry q.res) :
    (OneEntry q.outcome.res ∧ (q.outcome.fault.isSome → SameTable q.res q.outcome.res)) ↔
      ((q.res.connectionsTimeInvariant && q.simulating) = false →
        ∀ sizes, q.res.linksTable.lookup q.link = some (some sizes) →
          ∀ size ∈ sizes, size = q.msgSize) := by
  rw [Request.outcome, setProperties]
  split_ifs with htime
  · simp [htime, h, sameTable_refl]
  · have hnew : OneEntry (writeEntry q.res q.link ∅ q.info q.msgSize) := by
      apply (oneEntry_insert_iff h).mpr
      apply one_entry_insert_iff.mpr
      intro size hsize
      exact absurd hsize (AList.notMem_empty size)
    cases hlookup : q.res.linksTable.lookup q.link with
    | none => simp [hnew]
    | some entry =>
      cases entry with
      | none => simp [hnew]
      | some sizes =>
        have hkept : OneEntry (writeEntry q.res q.link sizes q.info q.msgSize) ↔
            ∀ size ∈ sizes, size = q.msgSize :=
          (oneEntry_insert_iff h).trans one_entry_insert_iff
        constructor
        · rintro ⟨hone, -⟩ - sizes' hsame
          obtain rfl : sizes = sizes' := Option.some.inj (Option.some.inj hsame)
          exact hkept.mp hone
        · intro hall
          have hsame := hall (Bool.not_eq_true _ ▸ htime) sizes rfl
          refine ⟨hkept.mpr hsame, ?_⟩
          have hone : (sizes.insert q.msgSize q.info).keys.length ≤ 1 :=
            one_entry_insert_iff.mpr hsame
          dsimp only
          rw [if_neg (by omega)]
          intro hfault
          cases hfault

/-! ### Sequences of calls -/

theorem request_oneEntry {r : CommRes A} {call : Call A} {q : Request A} (h : OneEntry r)
    (hrequest : request r call = some q) : OneEntry q.res := by
  cases call with
  | addLink link => cases hrequest
  | setProperties simulating link info msgSize =>
    obtain rfl := Option.some.inj hrequest
    exact h
  | set X simulating link value msgSize =>
    rw [request] at hrequest
    split at hrequest
    · cases hrequest
    · obtain rfl := Option.some.inj hrequest
      exact h.writeFound link _ msgSize

theorem step_eq_of_request {r : CommRes A} {call : Call A} {q : Request A}
    (hrequest : request r call = some q) : step r call = q.outcome.res := by
  cases call with
  | addLink link => cases hrequest
  | setProperties simulating link info msgSize =>
    obtain rfl := Option.some.inj hrequest
    rfl
  | set X simulating link value msgSize => rw [step, hrequest, Option.elim_some]

theorem step_right_iff {r : CommRes A} (h : OneEntry r) (call : Call A) :
    OneEntry (step r call) ∧ Atomic r call ↔ SameSize r call := by
  rw [Atomic, SameSize]
  cases hrequest : request r call with
  | none =>
    have hstep : OneEntry (step r call) := by
      cases call with
      | addLink link => exact h.addLink link
      | setProperties simulating link info msgSize => cases hrequest
      | set X simulating link value msgSize =>
        rw [step, hrequest, Option.elim_none]
        exact h
    simp [hstep]
  | some q =>
    rw [step_eq_of_request hrequest]
    simpa using outcome_right_iff (request_oneEntry h hrequest)

theorem reached_append (time : Bool) (calls : List (Call A)) (call : Call A) :
    reached time (calls ++ [call]) = step (reached time calls) call := by
  rw [reached, List.foldl_append]
  rfl

/-- One record a link in every state, and every rejected call without a trace. -/
structure RightAlong (time : Bool) (calls : List (Call A)) : Prop where
  oneEntry : ∀ before after, calls = before ++ after → OneEntry (reached time before)
  atomic : ∀ before call after, calls = before ++ call :: after → Atomic (reached time before) call

theorem rightAlong_iff (time : Bool) (calls : List (Call A)) :
    RightAlong time calls ↔
      ∀ before call after, calls = before ++ call :: after →
        SameSize (reached time before) call := by
  constructor
  · intro h before call after hcalls
    have hone := h.oneEntry before (call :: after) hcalls
    apply (step_right_iff hone call).mp
    refine ⟨?_, h.atomic before call after hcalls⟩
    rw [← reached_append]
    exact h.oneEntry (before ++ [call]) after (by simp [hcalls])
  · intro h
    have hone : ∀ before after, calls = before ++ after → OneEntry (reached time before) := by
      intro before
      induction before using List.reverseRecOn with
      | nil =>
        intro after _ link sizes hlookup
        cases hlookup
      | append_singleton before call ih =>
        intro after hcalls
        have hsplit : calls = before ++ call :: after := by simp [hcalls]
        rw [reached_append]
        exact ((step_right_iff (ih _ hsplit) call).mpr
          (h before call after hsplit)).1
    refine ⟨hone, fun before call after hcalls => ?_⟩
    exact ((step_right_iff (hone before _ hcalls) call).mpr
      (h before call after hcalls)).2

/-- Two message sizes for one link: the second is rejected, and stays. -/
theorem twoSizes_not_right :
    ¬ ∀ (time : Bool) (calls : List (Call ℕ)), RightAlong time calls := by
  intro hall
  have h := (hall false [.setProperties false ⟨0, 1⟩ .initial 1,
    .setProperties false ⟨0, 1⟩ .initial 8]).oneEntry _ [] (List.append_nil _).symm
  have hsizes := h ⟨0, 1⟩ _ rfl
  simp [AList.keys_insert] at hsizes

end Kista.Resources.MessageSizes
