/- Kista/SynchComm/DataEvents
   source: src/src/synch_comm/throughput_monitor.cpp, src/src/defaults.hpp
   digest: Data events of a throughput monitor: the lags it keeps, the matches in a row and the
   stationarity read off them. -/

import Mathlib.Data.Nat.Notation
import Mathlib.Order.Monotone.Basic
import Mathlib.Tactic.SplitIfs

set_option autoImplicit false
set_option relaxedAutoImplicit false

namespace Kista.SynchComm.DataEvents

/-! ### Matches in a row of any sequence -/

/-- How many neighbours in a row are equal at the end of `c 0, ..., c n`. -/
def matchesInARow {α : Type} [DecidableEq α] (c : ℕ → α) : ℕ → ℕ
  | 0 => 0
  | n + 1 => if c (n + 1) = c n then matchesInARow c n + 1 else 0

theorem le_matchesInARow {α : Type} [DecidableEq α] (c : ℕ → α) (k n : ℕ) :
    k ≤ matchesInARow c n ↔ k ≤ n ∧ ∀ i < k, c (n - i) = c (n - (i + 1)) := by
  induction n generalizing k with
  | zero =>
    simp only [matchesInARow, Nat.le_zero]
    constructor
    · rintro rfl
      exact ⟨rfl, fun i hi => absurd hi (Nat.not_lt_zero i)⟩
    · exact And.left
  | succ n ih =>
    cases k with
    | zero => simp
    | succ k =>
      simp only [matchesInARow]
      split_ifs with heq
      · rw [Nat.add_le_add_iff_right, Nat.add_le_add_iff_right, ih]
        constructor
        · rintro ⟨hk, hall⟩
          refine ⟨hk, fun i hi => ?_⟩
          cases i with
          | zero => exact heq
          | succ i =>
            have h := hall i (by omega)
            rwa [Nat.add_sub_add_right, Nat.add_sub_add_right]
        · rintro ⟨hk, hall⟩
          refine ⟨hk, fun i hi => ?_⟩
          have h := hall (i + 1) (by omega)
          rwa [Nat.add_sub_add_right, Nat.add_sub_add_right] at h
      · constructor
        · intro h
          omega
        · rintro ⟨-, hall⟩
          exact absurd (hall 0 (Nat.succ_pos k)) heq

/-! ### The monitor -/

/-- N_REPEATED_LAGS_FOR_STATIONARY. -/
def nRepeatedLagsForStationary : ℕ := 2

/-- LAG_MATCHES_LIMIT. -/
def lagMatchesLimit : ℕ := 1000000

/-- Times are in ticks of the resolution, the data size in bits. -/
structure ThroughputMonitor where
  dataSize : ℕ
  curTime : ℕ
  prevTime : ℕ
  curLag : ℕ
  prevLag : ℕ
  nDevents : ℕ
  stationary : Bool
  lagMatches : ℕ

/-- The constructor with a data size. -/
def throughputMonitor (dataSize : ℕ) : ThroughputMonitor where
  dataSize := dataSize
  curTime := 0
  prevTime := 0
  curLag := 0
  prevLag := 0
  nDevents := 0
  stationary := false
  lagMatches := 0

/-- The comparison of the two lags that an event has just left. -/
def compareLags (m : ThroughputMonitor) : ThroughputMonitor :=
  if m.curLag = m.prevLag then
    let lagMatches := if m.lagMatches < lagMatchesLimit then m.lagMatches + 1 else m.lagMatches
    { m with
      lagMatches := lagMatches
      stationary := if nRepeatedLagsForStationary ≤ lagMatches then true else m.stationary }
  else { m with lagMatches := 0, stationary := false }

theorem compareLags_kept (m : ThroughputMonitor) :
    (compareLags m).dataSize = m.dataSize ∧ (compareLags m).nDevents = m.nDevents ∧
      (compareLags m).curTime = m.curTime ∧ (compareLags m).curLag = m.curLag := by
  unfold compareLags
  by_cases heq : m.curLag = m.prevLag
  · rw [if_pos heq]
    exact ⟨rfl, rfl, rfl, rfl⟩
  · rw [if_neg heq]
    exact ⟨rfl, rfl, rfl, rfl⟩

/-- The counter of matches saturates. -/
theorem compareLags_lagMatches {m : ThroughputMonitor} (hbound : m.lagMatches ≤ lagMatchesLimit) :
    (compareLags m).lagMatches =
      if m.curLag = m.prevLag then min lagMatchesLimit (m.lagMatches + 1) else 0 := by
  unfold compareLags
  by_cases heq : m.curLag = m.prevLag
  · rw [if_pos heq, if_pos heq]
    dsimp only
    split_ifs with hless
    · omega
    · omega
  · rw [if_neg heq, if_neg heq]

/-- The flag goes on with the counter when it went with it before. -/
theorem compareLags_stationary {m : ThroughputMonitor}
    (h : m.stationary = decide (nRepeatedLagsForStationary ≤ m.lagMatches)) :
    (compareLags m).stationary =
      decide (nRepeatedLagsForStationary ≤ (compareLags m).lagMatches) := by
  unfold compareLags
  by_cases heq : m.curLag = m.prevLag
  · have hgrow : m.lagMatches ≤
        if m.lagMatches < lagMatchesLimit then m.lagMatches + 1 else m.lagMatches := by
      split_ifs <;> omega
    rw [if_pos heq]
    dsimp only
    generalize (if m.lagMatches < lagMatchesLimit then m.lagMatches + 1
      else m.lagMatches) = lagMatches at hgrow ⊢
    by_cases hrep : nRepeatedLagsForStationary ≤ lagMatches
    · rw [if_pos hrep, decide_eq_true hrep]
    · rw [if_neg hrep, h, decide_eq_false hrep,
        decide_eq_false fun hbefore => hrep (hbefore.trans hgrow)]
  · rw [if_neg heq]
    rfl

/-- `annotate_data_event` at the time stamp `now`. -/
def annotateDataEvent (m : ThroughputMonitor) (now : ℕ) : ThroughputMonitor :=
  if m.nDevents + 1 = 1 then
    { m with nDevents := m.nDevents + 1, curTime := now, curLag := now - m.prevTime }
  else
    { compareLags
        { m with
          nDevents := m.nDevents + 1
          curTime := now
          prevLag := m.curLag
          curLag := now - m.prevTime } with
      prevTime := now }

/-- The monitor after the events at `t 1, ..., t n`. -/
def monitorAfter (dataSize : ℕ) (t : ℕ → ℕ) : ℕ → ThroughputMonitor
  | 0 => throughputMonitor dataSize
  | n + 1 => annotateDataEvent (monitorAfter dataSize t n) (t (n + 1))

/-- `get_period` without a unit. -/
def getPeriod (m : ThroughputMonitor) : ℕ :=
  if 1 < m.nDevents then if m.curTime = 0 then 0 else m.curLag else 0

/-! ### The lags that are kept -/

/-- The time that passes before the k-th event. -/
def lag (t : ℕ → ℕ) (k : ℕ) : ℕ := t k - t (k - 1)

/-- The lag that the k-th event leaves behind: the first event does not store its time, so the
second one still measures from the start. -/
def lagKept (t : ℕ → ℕ) (k : ℕ) : ℕ := if k = 2 then t 2 else lag t k

/-- What the monitor holds after the event n + 1. -/
structure Holds (dataSize : ℕ) (t : ℕ → ℕ) (n : ℕ) (m : ThroughputMonitor) : Prop where
  dataSize : m.dataSize = dataSize
  nDevents : m.nDevents = n + 1
  curTime : m.curTime = t (n + 1)
  prevTime : m.prevTime = if n = 0 then 0 else t (n + 1)
  curLag : m.curLag = lagKept t (n + 1)
  lagMatches :
    m.lagMatches = min lagMatchesLimit (matchesInARow (fun k => lagKept t (k + 1)) n)
  stationary : m.stationary = decide (nRepeatedLagsForStationary ≤ m.lagMatches)

theorem holds_first (dataSize : ℕ) {t : ℕ → ℕ} (hzero : t 0 = 0) :
    Holds dataSize t 0 (monitorAfter dataSize t 1) where
  dataSize := rfl
  nDevents := rfl
  curTime := rfl
  prevTime := rfl
  curLag := by simp [monitorAfter, annotateDataEvent, throughputMonitor, lagKept, lag, hzero]
  lagMatches := by simp [monitorAfter, annotateDataEvent, throughputMonitor, matchesInARow]
  stationary := rfl

theorem holds_next {dataSize n : ℕ} {t : ℕ → ℕ} {m : ThroughputMonitor}
    (h : Holds dataSize t n m) :
    Holds dataSize t (n + 1) (annotateDataEvent m (t (n + 2))) := by
  have hcount : ¬ m.nDevents + 1 = 1 := by
    rw [h.nDevents]
    omega
  have hlag : t (n + 2) - m.prevTime = lagKept t (n + 2) := by
    rw [h.prevTime, lagKept, lag]
    by_cases hn : n = 0
    · simp [hn]
    · rw [if_neg hn, if_neg (by omega)]
      rfl
  have hbound : m.lagMatches ≤ lagMatchesLimit := by
    rw [h.lagMatches]
    exact Nat.min_le_left _ _
  rw [annotateDataEvent, if_neg hcount, hlag]
  constructor
  · exact (compareLags_kept _).1.trans h.dataSize
  · exact (compareLags_kept _).2.1.trans (congrArg (· + 1) h.nDevents)
  · exact (compareLags_kept _).2.2.1
  · rfl
  · exact (compareLags_kept _).2.2.2
  · refine (compareLags_lagMatches ?_).trans ?_
    · exact hbound
    · dsimp only
      rw [h.curLag, h.lagMatches, matchesInARow]
      split_ifs with heq
      · omega
      · exact (Nat.min_zero _).symm
  · exact compareLags_stationary h.stationary

theorem holds_monitorAfter (dataSize : ℕ) {t : ℕ → ℕ} (hzero : t 0 = 0) (n : ℕ) :
    Holds dataSize t n (monitorAfter dataSize t (n + 1)) := by
  induction n with
  | zero => exact holds_first dataSize hzero
  | succ n ih => exact holds_next ih

/-! ### What the monitor reports -/

theorem monitorAfter_curLag (dataSize : ℕ) {t : ℕ → ℕ} (hzero : t 0 = 0) {n : ℕ} (hn : 1 ≤ n) :
    (monitorAfter dataSize t n).curLag = lagKept t n := by
  obtain ⟨n, rfl⟩ := Nat.exists_eq_succ_of_ne_zero (Nat.one_le_iff_ne_zero.mp hn)
  exact (holds_monitorAfter dataSize hzero n).curLag

theorem monitorAfter_stationary (dataSize : ℕ) {t : ℕ → ℕ} (hzero : t 0 = 0) {n : ℕ}
    (hn : 1 ≤ n) :
    (monitorAfter dataSize t n).stationary = true ↔
      3 ≤ n ∧ lagKept t n = lagKept t (n - 1) ∧ lagKept t (n - 1) = lagKept t (n - 2) := by
  obtain ⟨n, rfl⟩ := Nat.exists_eq_succ_of_ne_zero (Nat.one_le_iff_ne_zero.mp hn)
  have h := holds_monitorAfter dataSize hzero n
  have hlimit : nRepeatedLagsForStationary ≤ lagMatchesLimit := by decide
  rw [h.stationary, decide_eq_true_iff, h.lagMatches, Nat.le_min, and_iff_right hlimit,
    le_matchesInARow]
  simp only [nRepeatedLagsForStationary]
  constructor
  · rintro ⟨htwo, hall⟩
    obtain ⟨n, rfl⟩ : ∃ m, n = m + 2 := ⟨n - 2, by omega⟩
    exact ⟨by omega, hall 0 (by omega), hall 1 (by omega)⟩
  · rintro ⟨hthree, hlast, hbefore⟩
    obtain ⟨n, rfl⟩ : ∃ m, n = m + 2 := ⟨n - 2, by omega⟩
    refine ⟨by omega, fun i hi => ?_⟩
    obtain rfl | rfl : i = 0 ∨ i = 1 := by omega
    · exact hlast
    · exact hbefore

/-- `get_period` is the current lag from the second event on. -/
theorem getPeriod_eq (dataSize : ℕ) {t : ℕ → ℕ} (hzero : t 0 = 0) {n : ℕ} (hn : 2 ≤ n) :
    getPeriod (monitorAfter dataSize t n) = lagKept t n := by
  obtain ⟨n, rfl⟩ : ∃ m, n = m + 1 := ⟨n - 1, by omega⟩
  have h := holds_monitorAfter dataSize hzero n
  rw [getPeriod, h.nDevents, if_pos (by omega), h.curTime, h.curLag]
  split_ifs with htime
  · rw [lagKept, lag, htime, Nat.zero_sub]
    split_ifs with htwo
    · rw [← htwo, htime]
    · rfl
  · rfl

/-- What the monitor should report after n events. -/
def LagAndStationarity (t : ℕ → ℕ) (n : ℕ) (m : ThroughputMonitor) : Prop :=
  m.curLag = lag t n ∧
    (m.stationary = true ↔ 3 ≤ n ∧ lag t n = lag t (n - 1) ∧ lag t (n - 1) = lag t (n - 2))

/-- The time of the first event no longer matters: it is the start itself, or four further events
have come, or neither the last three lags nor the three that are kept are equal. -/
def FirstTimeIrrelevant (t : ℕ → ℕ) (n : ℕ) : Prop :=
  t 1 = 0 ∨ 5 ≤ n ∨
    n = 3 ∧ ¬ (t 2 = 2 * t 1 ∧ t 3 = 3 * t 1) ∧ ¬ (t 2 = t 1 ∧ t 3 = 2 * t 1) ∨
    n = 4 ∧ ¬ (t 3 + t 1 = 2 * t 2 ∧ t 4 + 2 * t 1 = 3 * t 2) ∧
      ¬ (t 3 = 2 * t 2 ∧ t 4 = 3 * t 2)

theorem lagKept_of_ne {t : ℕ → ℕ} {k : ℕ} (hk : k ≠ 2) : lagKept t k = lag t k := if_neg hk

theorem lag_and_stationarity_iff (dataSize : ℕ) {t : ℕ → ℕ} (hmono : Monotone t)
    (hzero : t 0 = 0) {n : ℕ} (hn : 2 ≤ n) :
    LagAndStationarity t n (monitorAfter dataSize t n) ↔ FirstTimeIrrelevant t n := by
  have hone : 1 ≤ n := by omega
  unfold LagAndStationarity FirstTimeIrrelevant
  rw [monitorAfter_curLag dataSize hzero hone, monitorAfter_stationary dataSize hzero hone]
  have h12 : t 1 ≤ t 2 := hmono (by omega)
  have h23 : t 2 ≤ t 3 := hmono (by omega)
  have h34 : t 3 ≤ t 4 := hmono (by omega)
  by_cases hfive : 5 ≤ n
  · -- none of the last three lags is the second one
    rw [lagKept_of_ne (by omega), lagKept_of_ne (by omega), lagKept_of_ne (by omega)]
    simp [hfive]
  · obtain rfl | rfl | rfl : n = 2 ∨ n = 3 ∨ n = 4 := by omega
    · simp only [lagKept, lag]
      constructor
      · rintro ⟨hlag, -⟩
        left
        simp at hlag
        omega
      · rintro (hfirst | h | h | h)
        · simp [hfirst]
        · omega
        · omega
        · omega
    · simp only [lagKept, lag, hzero]
      simp
      omega
    · simp only [lagKept, lag]
      simp
      omega

/-- A first event at the start of the simulation. -/
theorem lag_and_stationarity_of_start :
    LagAndStationarity (fun k => 10 * (k - 1)) 3
      (monitorAfter 32 (fun k => 10 * (k - 1)) 3) := by
  have hmono : Monotone (fun k : ℕ => 10 * (k - 1)) := by
    intro a b hab
    show 10 * (a - 1) ≤ 10 * (b - 1)
    omega
  exact (lag_and_stationarity_iff 32 hmono rfl (by omega)).mpr (Or.inl rfl)

/-- A strictly periodic stream: the second lag is twice the period and three equal lags are not
noticed. -/
theorem periodic_not_stationary :
    ¬ ∀ (dataSize : ℕ) (t : ℕ → ℕ), Monotone t → t 0 = 0 → ∀ n, 2 ≤ n →
      LagAndStationarity t n (monitorAfter dataSize t n) := by
  intro hall
  have hmono : Monotone (fun k : ℕ => 10 * k) := by
    intro a b hab
    exact Nat.mul_le_mul_left 10 hab
  have h := (hall 32 (fun k => 10 * k) hmono rfl 3 (by omega)).2
  rw [monitorAfter_stationary 32 rfl (by omega)] at h
  simp [lagKept, lag] at h

end Kista.SynchComm.DataEvents
