/- Kista/Tracing/BetweenStamps
   source: src/src/tikz_activity_trace.cpp
   digest: What a recorded table says between the time stamps: from the start time to the last
   stamp its latest entry is the state of every instant. -/

import Kista.Tracing.UnfoldedTrace

set_option autoImplicit false
set_option relaxedAutoImplicit false

namespace Kista.Tracing.BetweenStamps

open Containers.OrderedMap Containers.LinearKeys Kernel.Waveform TimeAxis UnfoldedTrace

variable {δ σ α : Type} {style : Style δ σ} {start max : ℕ} {initial : δ} {r : Recorder σ}
  {deltas : List (ℕ × δ)} {delta : ℕ × δ} {signal : δ → α} {table : σ → Entries ℕ α}

/-- The first entry is that of the start time, every entry has its time stamp, and the state does
not change between the stamps. -/
structure Steady (signal : δ → α) (table : σ → Entries ℕ α) (start : ℕ) (initial : δ)
    (deltas : List (ℕ × δ)) (r : Recorder σ) : Prop where
  between : r.phase ≠ .waiting → ∀ t, start ≤ t → t ≤ r.axis.back →
    latest (table r.tables) t = some (signal (valueAt initial deltas t))
  since : r.phase = .recording → ∀ t, r.axis.back ≤ t →
    signal (valueAt initial deltas t) = signal (lastValue initial deltas)
  keyed : ∀ entry ∈ table r.tables, entry.1 ∈ r.axis.timeStamps
  first : r.phase ≠ .waiting → (table r.tables).head?.map Prod.fst = some start

theorem head_assign {entries : Entries ℕ α} {key : ℕ} (value : α)
    (first : entries.head?.map Prod.fst = some start) (late : start ≤ key) :
    (assign less key value entries).head?.map Prod.fst = some start := by
  cases entries with
  | nil => cases first
  | cons entry rest =>
    obtain ⟨k, old⟩ := entry
    obtain rfl : k = start := Option.some.inj first
    rw [assign]
    by_cases below : k < key
    · rw [if_pos (show less k key = true from decide_eq_true below)]
      rfl
    · have notAbove : less key k = false := decide_eq_false (Nat.not_lt.mpr late)
      rw [if_neg (by simpa [less] using below), notAbove]
      rfl

theorem steady_init {tables : σ} (empty : table tables = []) :
    Steady signal table start initial [] ⟨.waiting, .init, tables⟩ where
  between waiting := absurd rfl waiting
  since recording := by cases recording
  keyed := by
    rw [empty]
    intro entry listed
    cases listed
  first waiting := absurd rfl waiting

/-- A collection adds an entry of the present, if any. -/
theorem keyed_collect {axis : Axis} {tables : σ} {t : ℕ} {before now : δ}
    (watches : Watches style signal table) (present : t ∈ axis.timeStamps)
    (keyed : ∀ entry ∈ table tables, entry.1 ∈ axis.timeStamps) :
    ∀ entry ∈ table (style.collect t before now tables), entry.1 ∈ axis.timeStamps := by
  intro entry listed
  by_cases same : signal now = signal before
  · rw [watches.unchanged t before now tables same] at listed
    exact keyed entry listed
  · rw [watches.changed t before now tables same] at listed
    rcases mem_assign listed with new | ⟨old, member, key⟩
    · rw [new]
      exact present
    · rw [← key]
      exact keyed old member

theorem first_collect {tables : σ} {t : ℕ} {before now : δ}
    (watches : Watches style signal table) (late : start ≤ t)
    (first : (table tables).head?.map Prod.fst = some start) :
    (table (style.collect t before now tables)).head?.map Prod.fst = some start := by
  by_cases same : signal now = signal before
  · rwa [watches.unchanged t before now tables same]
  · rw [watches.changed t before now tables same]
    exact head_assign _ first late

theorem start_le_back {a : Axis} (right : a.Right start max) : start ≤ a.back :=
  right.le_back (List.mem_of_head? right.begins)

namespace Steady

variable (timed : Timed start max deltas r) (h : Faithful signal table initial deltas r)
  (steady : Steady signal table start initial deltas r)

include timed h steady

omit timed steady in
theorem begins (watches : Watches style signal table) (waiting : r.phase = .waiting)
    (due : delta.1 = start)
    (next : Faithful signal table initial (deltas ++ [delta])
      ⟨.recording, r.axis.push delta.1, style.dump delta.1 delta.2 r.tables⟩) :
    Steady signal table start initial (deltas ++ [delta])
      ⟨.recording, r.axis.push delta.1, style.dump delta.1 delta.2 r.tables⟩ := by
  have hnew : table (style.dump delta.1 delta.2 r.tables) = [(delta.1, signal delta.2)] := by
    rw [watches.dump, h.waiting waiting]
    rfl
  have hback : (r.axis.push delta.1).back = delta.1 := Axis.back_push ..
  have hstamps : delta.1 ∈ (r.axis.push delta.1).timeStamps := by
    rw [Axis.timeStamps_push]
    exact List.mem_append_right _ (List.mem_singleton_self _)
  refine ⟨fun _ t from' upTo => ?_, fun _ t late => ?_, ?_, fun _ => ?_⟩
  · rw [hback] at upTo
    obtain rfl : t = delta.1 := by omega
    exact next.values delta.1 hstamps
  · rw [hback] at late
    rw [valueAt_concat_of_le late, lastValue_concat]
  · rw [hnew]
    intro entry listed
    rw [List.mem_singleton.mp listed]
    exact hstamps
  · rw [hnew, ← due]
    rfl

omit timed in
theorem silent (watches : Watches style signal table)
    (ordered : ∀ earlier ∈ deltas, earlier.1 ≤ delta.1) (recording : r.phase = .recording)
    (none : style.woken (lastValue initial deltas) delta.2 = false ∨ delta.1 < r.axis.back) :
    Steady signal table start initial (deltas ++ [delta]) r := by
  obtain ⟨d, hd, hreached⟩ := h.reached recording
  have hback : r.axis.back ≤ delta.1 := hreached.trans (ordered d hd)
  have hsame : signal delta.2 = signal (lastValue initial deltas) := by
    by_contra changed
    have hwoken := watches.awake _ _ changed
    rcases none with asleep | behind
    · rw [asleep] at hwoken
      cases hwoken
    · omega
  have hvalue : ∀ t, signal (valueAt initial (deltas ++ [delta]) t) =
      if delta.1 ≤ t then signal (lastValue initial deltas)
      else signal (valueAt initial deltas t) := by
    intro t
    split
    · rename_i late
      rw [valueAt_concat_of_le late, hsame]
    · rename_i early
      rw [valueAt_concat_of_lt (Nat.lt_of_not_le early)]
  refine ⟨fun started t from' upTo => ?_, fun _ t late => ?_, steady.keyed, steady.first⟩
  · rw [steady.between started t from' upTo, hvalue]
    split
    · rename_i late
      rw [steady.since recording t (hback.trans late)]
    · rfl
  · rw [hvalue, lastValue_concat, hsame]
    split
    · rfl
    · exact steady.since recording t late

/-- The entries of the present leave the past as it was. -/
theorem collected (watches : Watches style signal table) (recording : r.phase = .recording)
    (later : r.axis.back ≤ delta.1) {t : ℕ} (from' : start ≤ t) (early : t < delta.1) :
    latest (table (style.collect delta.1 (lastValue initial deltas) delta.2 r.tables)) t =
      some (signal (valueAt initial (deltas ++ [delta]) t)) := by
  have started : r.phase ≠ .waiting := by simp [recording]
  rw [latest_collect_early watches h.increasing (h.upTo.mono later) early,
    valueAt_concat_of_lt early]
  by_cases past : t ≤ r.axis.back
  · exact steady.between started t from' past
  · have behind : r.axis.back ≤ t := by omega
    rw [h.known timed recording behind, steady.since recording t behind]

theorem grows (watches : Watches style signal table) (recording : r.phase = .recording)
    (later : r.axis.back < delta.1)
    (next : Faithful signal table initial (deltas ++ [delta])
      ⟨.recording, r.axis.push delta.1,
        style.collect delta.1 (lastValue initial deltas) delta.2 r.tables⟩) :
    Steady signal table start initial (deltas ++ [delta])
      ⟨.recording, r.axis.push delta.1,
        style.collect delta.1 (lastValue initial deltas) delta.2 r.tables⟩ := by
  have started : r.phase ≠ .waiting := by simp [recording]
  have hback : (r.axis.push delta.1).back = delta.1 := Axis.back_push ..
  have hstart := start_le_back (timed.right started)
  have hstamps : delta.1 ∈ (r.axis.push delta.1).timeStamps := by
    rw [Axis.timeStamps_push]
    exact List.mem_append_right _ (List.mem_singleton_self _)
  refine ⟨fun _ t from' upTo => ?_, fun _ t late => ?_, ?_, fun _ => ?_⟩
  · rw [hback] at upTo
    rcases Nat.lt_or_eq_of_le upTo with early | rfl
    · exact collected timed h steady watches recording later.le from' early
    · exact next.values delta.1 hstamps
  · rw [hback] at late
    rw [valueAt_concat_of_le late, lastValue_concat]
  · refine keyed_collect watches hstamps fun entry listed => ?_
    rw [Axis.timeStamps_push]
    exact List.mem_append_left _ (steady.keyed entry listed)
  · exact first_collect watches (hstart.trans later.le) (steady.first started)

theorem merges (watches : Watches style signal table) (recording : r.phase = .recording)
    (same : delta.1 = r.axis.back)
    (next : Faithful signal table initial (deltas ++ [delta])
      { r with tables := style.collect delta.1 (lastValue initial deltas) delta.2 r.tables }) :
    Steady signal table start initial (deltas ++ [delta])
      { r with tables := style.collect delta.1 (lastValue initial deltas) delta.2 r.tables } := by
  have started : r.phase ≠ .waiting := by simp [recording]
  have hright := timed.right started
  have hstamps : delta.1 ∈ r.axis.timeStamps := by
    rw [same]
    exact hright.back_mem
  refine ⟨fun _ t from' upTo => ?_, fun _ t late => ?_, ?_, fun _ => ?_⟩
  · have upTo' : t ≤ delta.1 := by
      rw [same]
      exact upTo
    rcases Nat.lt_or_eq_of_le upTo' with early | rfl
    · exact collected timed h steady watches recording same.ge from' early
    · exact next.values delta.1 hstamps
  · have late' : delta.1 ≤ t := by
      rw [same]
      exact late
    rw [valueAt_concat_of_le late', lastValue_concat]
  · exact keyed_collect watches hstamps steady.keyed
  · have hstart : start ≤ delta.1 := by
      rw [same]
      exact start_le_back hright
    exact first_collect watches hstart (steady.first started)

omit timed h in
/-- What comes after the last stamp of a trace that has ended is not recorded. -/
theorem past {phase : Phase} (started : r.phase ≠ .waiting) (ended : phase = .ended)
    (later : r.axis.back < delta.1) :
    Steady signal table start initial (deltas ++ [delta]) { r with phase := phase } := by
  refine ⟨fun _ t from' upTo => ?_, fun recording => ?_, steady.keyed,
    fun _ => steady.first started⟩
  · rw [valueAt_concat_of_lt (upTo.trans_lt later)]
    exact steady.between started t from' upTo
  · rw [ended] at recording
    cases recording

theorem turn (watches : Watches style signal table)
    (ordered : ∀ earlier ∈ deltas, earlier.1 ≤ delta.1)
    (next : Faithful signal table initial (deltas ++ [delta])
      (TimeAxis.turn style start max (lastValue initial deltas) delta r)) :
    Steady signal table start initial (deltas ++ [delta])
      (TimeAxis.turn style start max (lastValue initial deltas) delta r) := by
  have hcases := turn_cases style start max (lastValue initial deltas) delta r
  generalize TimeAxis.turn style start max (lastValue initial deltas) delta r = r' at hcases next
  cases hcases with
  | early waiting other =>
    refine ⟨absurd waiting, fun recording => ?_, steady.keyed, absurd waiting⟩
    rw [waiting] at recording
    cases recording
  | begins waiting due => exact begins h watches waiting due next
  | silent recording none => exact silent h steady watches ordered recording none
  | grows recording awake later space =>
    exact grows timed h steady watches recording later next
  | ends recording awake later full =>
    exact past steady (by simp [recording]) rfl later
  | merges recording awake same => exact merges timed h steady watches recording same next
  | past ended =>
    obtain ⟨d, hd, hlater⟩ := h.passed ended
    have kept := past steady (by simp [ended]) ended
      (hlater.trans_le (ordered d hd))
    exact kept

end Steady

/-- Every table of a recorder is steady after every sequence of deltas in the order of time. -/
theorem steady_record (watches : Watches style signal table) (room : 0 < max) {tables : σ}
    (empty : table tables = [])
    (ordered : deltas.Pairwise fun earlier later => earlier.1 ≤ later.1) :
    Steady signal table start initial deltas
      (record style start max initial ⟨.waiting, .init, tables⟩ deltas) := by
  induction deltas using List.reverseRecOn with
  | nil => exact steady_init empty
  | append_singleton deltas delta ih =>
    obtain ⟨hbefore, -, hlast⟩ := List.pairwise_append.mp ordered
    have next : Faithful signal table initial (deltas ++ [delta])
        (record style start max initial ⟨.waiting, .init, tables⟩ (deltas ++ [delta])) :=
      faithful_record watches room empty ordered
    rw [record_concat] at next ⊢
    exact Steady.turn (timed_record room) (faithful_record watches room empty hbefore)
      (ih hbefore) watches (fun earlier listed =>
        hlast earlier listed delta (List.mem_singleton_self delta)) next

end Kista.Tracing.BetweenStamps
