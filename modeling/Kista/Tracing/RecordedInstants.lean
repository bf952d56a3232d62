/- Kista/Tracing/RecordedInstants
   source: src/src/tikz_activity_trace.cpp
   digest: Which instants of a run a recorder has a time stamp for: from the start time on, the
   first ones in which it is woken. -/

import Kista.Tracing.TimeAxis

set_option autoImplicit false
set_option relaxedAutoImplicit false

namespace Kista.Tracing.RecordedInstants

open Kernel.Waveform
open TimeAxis

variable {δ σ : Type}

/-- The times of the deltas that wake a process. -/
def wakings (woken : δ → δ → Bool) : δ → List (ℕ × δ) → List ℕ
  | _, [] => []
  | before, delta :: deltas =>
    if woken before delta.2 = true then delta.1 :: wakings woken delta.2 deltas
    else wakings woken delta.2 deltas

/-- The values in the delta at the start time, and the deltas after it. -/
def sinceStart (startTraceTime : ℕ) : List (ℕ × δ) → Option (δ × List (ℕ × δ))
  | [] => none
  | delta :: deltas =>
    if delta.1 = startTraceTime then some (delta.2, deltas)
    else sinceStart startTraceTime deltas

/-- The start time and the instants of the wakings. -/
def instants (woken : δ → δ → Bool) (startTraceTime : ℕ) (base : δ) (after : List (ℕ × δ)) :
    List ℕ :=
  startTraceTime :: wakings woken base after

/-- One of the first instants, as many as there may be time stamps. -/
def Recorded (woken : δ → δ → Bool) (settings : Settings) (base : δ) (after : List (ℕ × δ))
    (stamp : ℕ) : Prop :=
  stamp ∈ instants woken settings.startTraceTime base after ∧
    Nat.count (fun n => n ∈ instants woken settings.startTraceTime base after) stamp <
      settings.maxTimeStamps

/-! ### From the start time on -/

section Start

variable {start : ℕ} {deltas after : List (ℕ × δ)} {base : δ}

theorem early_of_sinceStart (h : sinceStart start deltas = none) :
    ∀ delta ∈ deltas, delta.1 ≠ start := by
  induction deltas with
  | nil => simp
  | cons first deltas ih =>
    rw [sinceStart] at h
    split at h
    · cases h
    · rename_i other
      intro delta listed
      rcases List.mem_cons.mp listed with rfl | later
      · exact other
      · exact ih h delta later

theorem split_of_sinceStart
    (ordered : deltas.Pairwise fun earlier later => earlier.1 ≤ later.1)
    (h : sinceStart start deltas = some (base, after)) :
    ∃ early, deltas = early ++ (start, base) :: after ∧ ∀ delta ∈ early, delta.1 < start := by
  induction deltas with
  | nil => cases h
  | cons first deltas ih =>
    obtain ⟨hfirst, hrest⟩ := List.pairwise_cons.mp ordered
    rw [sinceStart] at h
    split at h
    · rename_i due
      cases h
      exact ⟨[], by rw [← due, List.nil_append], by simp⟩
    · rename_i other
      obtain ⟨early, rfl, hearly⟩ := ih hrest h
      refine ⟨first :: early, rfl, fun delta listed => ?_⟩
      rcases List.mem_cons.mp listed with rfl | later
      · exact Nat.lt_of_le_of_ne (hfirst (start, base) (by simp)) other
      · exact hearly delta later

theorem ordered_sinceStart (run : Run δ) (h : sinceStart start run.deltas = some (base, after)) :
    ((start, base) :: after).Pairwise fun earlier later => earlier.1 ≤ later.1 := by
  obtain ⟨early, hsplit, -⟩ := split_of_sinceStart run.ordered h
  have ordered := run.ordered
  rw [hsplit] at ordered
  exact (List.pairwise_append.mp ordered).2.1

/-- What a recorder does from the start time on. -/
theorem record_of_sinceStart {style : Style δ σ} {max : ℕ} {initial : δ} {tables : σ}
    (ordered : deltas.Pairwise fun earlier later => earlier.1 ≤ later.1)
    (h : sinceStart start deltas = some (base, after)) :
    record style start max initial ⟨.waiting, .init, tables⟩ deltas =
      record style start max base
        ⟨.recording, Axis.init.push start, style.dump start base tables⟩ after := by
  obtain ⟨early, rfl, hearly⟩ := split_of_sinceStart ordered h
  rw [record_append, record_before fun delta listed => (hearly delta listed).ne, record_cons]
  have hturn : turn style start max (lastValue initial early) (start, base)
      ⟨.waiting, .init, tables⟩ =
        ⟨.recording, Axis.init.push start, style.dump start base tables⟩ := if_pos rfl
  rw [hturn]

/-- From the start time on the values come from the deltas since then. -/
theorem endOf_sinceStart (run : Run δ) (h : sinceStart start run.deltas = some (base, after))
    {instant : ℕ} (late : start ≤ instant) : run.endOf instant = valueAt base after instant := by
  obtain ⟨early, hsplit, -⟩ := split_of_sinceStart run.ordered h
  rw [Run.endOf, hsplit, ← List.singleton_append, valueAt_append, valueAt_append,
    ← List.nil_append [(start, base)], valueAt_concat_of_le late]

end Start

/-! ### The time stamps of a recorder -/

section Stamps

variable {style : Style δ σ} {start max : ℕ} {base : δ} {after : List (ℕ × δ)} {delta : ℕ × δ}
  {r : Recorder σ}

theorem wakings_concat {woken : δ → δ → Bool} : wakings woken base (after ++ [delta]) =
    wakings woken base after ++
      if woken (lastValue base after) delta.2 = true then [delta.1] else [] := by
  induction after generalizing base with
  | nil => rfl
  | cons first after ih =>
    rw [List.cons_append, wakings, wakings, ih, lastValue_cons]
    split
    · rw [List.cons_append]
    · rfl

theorem mem_of_wakings {woken : δ → δ → Bool} {n : ℕ} (listed : n ∈ wakings woken base after) :
    ∃ delta ∈ after, delta.1 = n := by
  induction after generalizing base with
  | nil => cases listed
  | cons first after ih =>
    rw [wakings] at listed
    split at listed
    · rcases List.mem_cons.mp listed with rfl | later
      · exact ⟨first, List.mem_cons_self, rfl⟩
      · obtain ⟨delta, hdelta, hn⟩ := ih later
        exact ⟨delta, List.mem_cons_of_mem _ hdelta, hn⟩
    · obtain ⟨delta, hdelta, hn⟩ := ih listed
      exact ⟨delta, List.mem_cons_of_mem _ hdelta, hn⟩

theorem mem_instants_concat {woken : δ → δ → Bool} {stamp : ℕ} :
    stamp ∈ instants woken start base (after ++ [delta]) ↔
      stamp ∈ instants woken start base after ∨
        woken (lastValue base after) delta.2 = true ∧ stamp = delta.1 := by
  rw [instants, instants, wakings_concat]
  split
  · rename_i awake
    simp [awake, or_assoc]
  · rename_i asleep
    simp [asleep]

/-- Where a recorder stands after a sequence of deltas from the start time on. -/
structure Placed (style : Style δ σ) (start max : ℕ) (base : δ) (after : List (ℕ × δ))
    (r : Recorder σ) : Prop where
  begun : r.phase ≠ .waiting
  right : r.axis.Right start max
  reached : r.phase = .recording → ∃ delta ∈ (start, base) :: after, r.axis.back ≤ delta.1
  passed : r.phase = .ended →
    r.axis.timeStamps.length = max ∧ ∃ delta ∈ after, r.axis.back < delta.1
  stamped : ∀ stamp, (r.phase = .ended → stamp ≤ r.axis.back) →
    (stamp ∈ r.axis.timeStamps ↔ stamp ∈ instants style.woken start base after)

theorem placed_start (room : 0 < max) {tables : σ} :
    Placed style start max base [] ⟨.recording, Axis.init.push start, tables⟩ where
  begun := by simp
  right := Axis.push_init_right room
  reached _ := ⟨(start, base), by simp, by rw [Axis.back_push]⟩
  passed ended := by cases ended
  stamped stamp _ := Iff.rfl

namespace Placed

theorem back_le (h : Placed style start max base after r) (recording : r.phase = .recording)
    (ordered : ∀ earlier ∈ (start, base) :: after, earlier.1 ≤ delta.1) :
    r.axis.back ≤ delta.1 := by
  obtain ⟨d, listed, hreached⟩ := h.reached recording
  exact hreached.trans (ordered d listed)

theorem back_lt (h : Placed style start max base after r) (ended : r.phase = .ended)
    (ordered : ∀ earlier ∈ (start, base) :: after, earlier.1 ≤ delta.1) :
    r.axis.back < delta.1 := by
  obtain ⟨-, d, listed, hpassed⟩ := h.passed ended
  exact hpassed.trans_le (ordered d (List.mem_cons_of_mem _ listed))

/-- One delta that does not come before the others. -/
theorem turn (h : Placed style start max base after r)
    (ordered : ∀ earlier ∈ (start, base) :: after, earlier.1 ≤ delta.1) :
    Placed style start max base (after ++ [delta])
      (TimeAxis.turn style start max (lastValue base after) delta r) := by
  have hcases := turn_cases style start max (lastValue base after) delta r
  generalize TimeAxis.turn style start max (lastValue base after) delta r = next at hcases
  cases hcases with
  | early waiting other => exact absurd waiting h.begun
  | begins waiting due => exact absurd waiting h.begun
  | silent recording none =>
    have asleep : style.woken (lastValue base after) delta.2 = false :=
      none.resolve_right (Nat.not_lt.mpr (h.back_le recording ordered))
    refine ⟨h.begun, h.right, fun _ => ?_, fun ended => ?_, fun stamp known => ?_⟩
    · exact ⟨delta, by simp, h.back_le recording ordered⟩
    · rw [recording] at ended
      cases ended
    · rw [mem_instants_concat, asleep, h.stamped stamp known]
      simp
  | grows recording awake later space =>
    refine ⟨by simp, h.right.push later space, fun _ => ?_, by simp, fun stamp _ => ?_⟩
    · exact ⟨delta, by simp, by rw [Axis.back_push]⟩
    · rw [mem_instants_concat, Axis.timeStamps_push, List.mem_append, List.mem_singleton,
        h.stamped stamp (by simp [recording]), awake]
      simp
  | ends recording awake later full =>
    refine ⟨by simp, h.right, by simp, fun _ => ⟨?_, delta, by simp, later⟩, fun stamp known => ?_⟩
    · exact Nat.le_antisymm h.right.bounded full
    · have other : stamp ≠ delta.1 := ((known rfl).trans_lt later).ne
      rw [mem_instants_concat, h.stamped stamp (by simp [recording])]
      simp [other]
  | merges recording awake same =>
    refine ⟨h.begun, h.right, fun _ => ?_, fun ended => ?_, fun stamp known => ?_⟩
    · exact ⟨delta, by simp, same.ge⟩
    · exact absurd (recording.symm.trans ended) (by simp)
    · have hback := (h.stamped _ (by simp [recording])).mp h.right.back_mem
      rw [mem_instants_concat, h.stamped stamp (by simp [recording])]
      constructor
      · exact .inl
      · rintro (old | ⟨-, rfl⟩)
        · exact old
        · rwa [same]
  | past ended =>
    have later := h.back_lt ended ordered
    obtain ⟨full, -⟩ := h.passed ended
    refine ⟨h.begun, h.right, fun recording => ?_, fun _ => ⟨full, delta, by simp, later⟩,
      fun stamp known => ?_⟩
    · exact absurd (recording.symm.trans ended) (by simp)
    · have other : stamp ≠ delta.1 := ((known ended).trans_lt later).ne
      rw [mem_instants_concat, h.stamped stamp known]
      simp [other]

end Placed

theorem placed_record (room : 0 < max) {tables : σ}
    (ordered : ((start, base) :: after).Pairwise fun earlier later => earlier.1 ≤ later.1) :
    Placed style start max base after (record style start max base
      ⟨.recording, Axis.init.push start, style.dump start base tables⟩ after) := by
  induction after using List.reverseRecOn with
  | nil => exact placed_start room
  | append_singleton after delta ih =>
    rw [← List.cons_append] at ordered
    obtain ⟨hbefore, -, hlast⟩ := List.pairwise_append.mp ordered
    rw [record_concat]
    exact (ih hbefore).turn fun earlier listed =>
      hlast earlier listed delta (List.mem_singleton_self delta)

end Stamps

/-! ### Which instants have a stamp -/

theorem count_of_increasing {stamps : List ℕ}
    (increasing : stamps.Pairwise fun earlier later => earlier < later) (n : ℕ) :
    Nat.count (fun k => k ∈ stamps) n = (stamps.filter fun stamp => stamp < n).length := by
  have hnodup : (stamps.filter fun stamp => stamp < n).Nodup :=
    (increasing.imp fun below => below.ne).filter _
  rw [Nat.count_eq_card_filter_range, ← List.toFinset_card_of_nodup hnodup]
  congr 1
  ext k
  simp [and_comm]

/-- No instant is recorded before the start time. -/
theorem Recorded.start_le {woken : δ → δ → Bool} {settings : Settings} {run : Run δ} {base : δ}
    {after : List (ℕ × δ)} {stamp : ℕ}
    (since : sinceStart settings.startTraceTime run.deltas = some (base, after))
    (h : Recorded woken settings base after stamp) : settings.startTraceTime ≤ stamp := by
  have hafter := (List.pairwise_cons.mp (ordered_sinceStart run since)).1
  rcases List.mem_cons.mp h.1 with rfl | later
  · exact le_rfl
  · obtain ⟨delta, listed, rfl⟩ := mem_of_wakings later
    exact hafter delta listed

theorem filter_lt_length {stamps : List ℕ} {stamp : ℕ} (listed : stamp ∈ stamps) :
    (stamps.filter fun other => other < stamp).length < stamps.length := by
  rw [List.length_filter_lt_length_iff_exists]
  exact ⟨stamp, listed, by simp⟩

/-- The stamps are the recorded instants. -/
theorem Placed.mem_timeStamps {style : Style δ σ} {settings : Settings} {base : δ}
    {after : List (ℕ × δ)} {r : Recorder σ}
    (h : Placed style settings.startTraceTime settings.maxTimeStamps base after r) (stamp : ℕ) :
    stamp ∈ r.axis.timeStamps ↔ Recorded style.woken settings base after stamp := by
  have counted : ∀ n, (r.phase = .ended → n ≤ r.axis.back + 1) →
      Nat.count (fun k => k ∈ instants style.woken settings.startTraceTime base after) n =
        (r.axis.timeStamps.filter fun other => other < n).length := by
    intro n known
    rw [← count_of_increasing h.right.increasing]
    have hbelow : ∀ k < n, (k ∈ r.axis.timeStamps ↔
        k ∈ instants style.woken settings.startTraceTime base after) :=
      fun k hk => h.stamped k fun ended => by
        have := known ended
        omega
    apply Nat.le_antisymm
    · exact Nat.count_mono_left fun k hk listed => (hbelow k hk).mpr listed
    · exact Nat.count_mono_left fun k hk listed => (hbelow k hk).mp listed
  by_cases known : r.phase = .ended → stamp ≤ r.axis.back
  · have nearby : r.phase = .ended → stamp ≤ r.axis.back + 1 :=
      fun ended => (known ended).trans (Nat.le_succ _)
    rw [Recorded, ← h.stamped stamp known, counted stamp nearby]
    constructor
    · intro listed
      exact ⟨listed, (filter_lt_length listed).trans_le h.right.bounded⟩
    · exact fun recorded => recorded.1
  · -- after the last stamp of a trace that has as many as it may have
    obtain ⟨ended, past⟩ := Classical.not_imp.mp known
    obtain ⟨full, -⟩ := h.passed ended
    have hall : (r.axis.timeStamps.filter fun other => other < r.axis.back + 1) =
        r.axis.timeStamps := by
      rw [List.filter_eq_self]
      exact fun other listed => decide_eq_true (Nat.lt_succ_of_le (h.right.le_back listed))
    constructor
    · intro listed
      exact absurd (h.right.le_back listed) past
    · intro recorded
      have hmono := Nat.count_monotone
        (fun k => k ∈ instants style.woken settings.startTraceTime base after)
        (show r.axis.back + 1 ≤ stamp by omega)
      rw [counted (r.axis.back + 1) fun _ => le_rfl, hall, full] at hmono
      exact absurd recorded.2 (Nat.not_lt.mpr hmono)

/-- A recorder that waits from the first delta on has stamps for the recorded instants. -/
theorem mem_timeStamps_record {style : Style δ σ} {settings : Settings} {run : Run δ} {base : δ}
    {after : List (ℕ × δ)} {tables : σ}
    (h : sinceStart settings.startTraceTime run.deltas = some (base, after)) (stamp : ℕ) :
    stamp ∈ (record style settings.startTraceTime settings.maxTimeStamps run.initial
        ⟨.waiting, .init, tables⟩ run.deltas).axis.timeStamps ↔
      Recorded style.woken settings base after stamp := by
  rw [record_of_sinceStart run.ordered h]
  exact (placed_record settings.max_pos (ordered_sinceStart run h)).mem_timeStamps stamp

end Kista.Tracing.RecordedInstants
