/- Kista/SynchComm/Throughput
   source: src/src/synch_comm/throughput_monitor.cpp, src/src/utils.cpp
   digest: The four throughput reports of a monitor, and which of them are right on a periodic
   stream. -/

import Kista.SynchComm.DataEvents
import Mathlib.Tactic.FieldSimp
import Mathlib.Tactic.NormNum
import Mathlib.Tactic.Positivity
import Mathlib.Tactic.Ring

set_option autoImplicit false
set_option relaxedAutoImplicit false

/-!
A unit is the list of its characters. `none` stands for the error of an unknown unit, and for a
division by zero.
-/

namespace Kista.SynchComm.Throughput

open Kista.SynchComm.DataEvents

def convDataRateFactor (unit : Char) : Option ℚ :=
  if unit = 'b' then some 1
  else if unit = 'B' then some (1 / 8)
  else if unit = 'K' ∨ unit = 'k' then some (1 / 10 ^ 3)
  else if unit = 'M' then some (1 / 10 ^ 6)
  else if unit = 'G' then some (1 / 10 ^ 9)
  else if unit = 'T' then some (1 / 10 ^ 12)
  else none

def convIsuFactor (unit : Char) : Option ℚ :=
  if unit = '-' ∨ unit.toNat = 0 then some 1
  else if unit = 'K' ∨ unit = 'k' then some (1 / 10 ^ 3)
  else if unit = 'M' then some (1 / 10 ^ 6)
  else if unit = 'G' then some (1 / 10 ^ 9)
  else if unit = 'T' then some (1 / 10 ^ 12)
  else if unit = 'm' then some (10 ^ 3)
  else if unit = 'u' then some (10 ^ 6)
  else if unit = 'n' then some (10 ^ 9)
  else if unit = 'p' then some (10 ^ 12)
  else if unit = 'f' then some (10 ^ 15)
  else none

/-- The factor by which the two throughput reports multiply. -/
def dataRateFactor : List Char → Option ℚ
  | [] => some 1
  | first :: _ => if first = 'b' then some 1 else convDataRateFactor first

/-- The factor by which the two normalized reports multiply. -/
def isuFactor : List Char → Option ℚ
  | [] => some 1
  | first :: _ => if first = 'H' ∨ first = 'h' then some 1 else convIsuFactor first

/-- `to_seconds` of a time in ticks. -/
def toSeconds (resolution : ℚ) (time : ℕ) : ℚ := time * resolution

def quotient (amount seconds : ℚ) : Option ℚ :=
  if seconds = 0 then none else some (amount / seconds)

/-- A report about all events. -/
def reportTotal (factor : List Char → Option ℚ) (resolution : ℚ) (m : ThroughputMonitor)
    (unit : List Char) : Option ℚ :=
  if 0 < m.nDevents then
    if m.curTime = 0 then some (-1)
    else (factor unit).bind fun f => quotient (f * m.nDevents) (toSeconds resolution m.curTime)
  else some 0

/-- A report about the last lag. -/
def reportLast (factor : List Char → Option ℚ) (amount resolution : ℚ) (m : ThroughputMonitor)
    (unit : List Char) : Option ℚ :=
  if 1 < m.nDevents then
    if m.curTime = 0 then some (-1)
    else (factor unit).bind fun f => quotient (f * amount) (toSeconds resolution m.curLag)
  else some 0

/-- `get_throughput`: the data size is not in it. -/
def getThroughput : ℚ → ThroughputMonitor → List Char → Option ℚ := reportTotal dataRateFactor

def getStationaryThroughput (resolution : ℚ) (m : ThroughputMonitor) :
    List Char → Option ℚ :=
  reportLast dataRateFactor m.dataSize resolution m

def getNormalizedThroughput : ℚ → ThroughputMonitor → List Char → Option ℚ :=
  reportTotal isuFactor

def getNormalizedStationaryThroughput : ℚ → ThroughputMonitor → List Char → Option ℚ :=
  reportLast isuFactor 1

/-! ### Periodic streams -/

/-- The monitor after events at `period, 2 * period, ..., n * period`. -/
def periodicMonitor (dataSize period n : ℕ) : ThroughputMonitor :=
  monitorAfter dataSize (fun k => k * period) n

variable {dataSize period n : ℕ} {resolution : ℚ}

theorem holds_periodic (dataSize period n : ℕ) :
    Holds dataSize (fun k => k * period) n (periodicMonitor dataSize period (n + 1)) :=
  holds_monitorAfter dataSize (Nat.zero_mul period) n

theorem periodic_nDevents (hn : 3 ≤ n) : (periodicMonitor dataSize period n).nDevents = n := by
  obtain ⟨n, rfl⟩ : ∃ m, n = m + 1 := ⟨n - 1, by omega⟩
  exact (holds_periodic dataSize period n).nDevents

theorem periodic_dataSize (hn : 3 ≤ n) :
    (periodicMonitor dataSize period n).dataSize = dataSize := by
  obtain ⟨n, rfl⟩ : ∃ m, n = m + 1 := ⟨n - 1, by omega⟩
  exact (holds_periodic dataSize period n).dataSize

theorem periodic_curTime (hn : 3 ≤ n) :
    (periodicMonitor dataSize period n).curTime = n * period := by
  obtain ⟨n, rfl⟩ : ∃ m, n = m + 1 := ⟨n - 1, by omega⟩
  exact (holds_periodic dataSize period n).curTime

theorem periodic_curLag (hn : 3 ≤ n) :
    (periodicMonitor dataSize period n).curLag = period := by
  rw [periodicMonitor, monitorAfter_curLag dataSize (Nat.zero_mul period) (by omega),
    lagKept_of_ne (by omega), lag, ← Nat.sub_mul]
  have hone : n - (n - 1) = 1 := by omega
  rw [hone, Nat.one_mul]

theorem reportTotal_periodic (factor : List Char → Option ℚ) (hres : 0 < resolution)
    (hperiod : 0 < period) (hn : 3 ≤ n) {unit : List Char} {f : ℚ} (hunit : factor unit = some f) :
    reportTotal factor resolution (periodicMonitor dataSize period n) unit =
      some (f / toSeconds resolution period) := by
  have htime : n * period ≠ 0 := (Nat.mul_pos (by omega) hperiod).ne'
  have hperiod' : (0 : ℚ) < period := Nat.cast_pos.mpr hperiod
  have hn' : (0 : ℚ) < n := Nat.cast_pos.mpr (by omega)
  rw [reportTotal, periodic_nDevents hn, periodic_curTime hn, if_pos (by omega), if_neg htime,
    hunit, Option.bind_some, quotient, toSeconds, toSeconds, Nat.cast_mul, if_neg (by positivity)]
  congr 1
  field_simp

theorem reportLast_periodic (factor : List Char → Option ℚ) (amount : ℚ) (hres : 0 < resolution)
    (hperiod : 0 < period) (hn : 3 ≤ n) {unit : List Char} {f : ℚ} (hunit : factor unit = some f) :
    reportLast factor amount resolution (periodicMonitor dataSize period n) unit =
      some (f * amount / toSeconds resolution period) := by
  have htime : n * period ≠ 0 := (Nat.mul_pos (by omega) hperiod).ne'
  have hperiod' : (0 : ℚ) < period := Nat.cast_pos.mpr hperiod
  rw [reportLast, periodic_nDevents hn, periodic_curTime hn, periodic_curLag hn,
    if_pos (by omega), if_neg htime, hunit, Option.bind_some, quotient, toSeconds,
    if_neg (by positivity)]

/-- What the four reports should say of a stream with one item of data a period. -/
structure ReportsAgree (resolution : ℚ) (dataSize period : ℕ) (m : ThroughputMonitor) : Prop where
  overall : ∀ unit f, dataRateFactor unit = some f →
    getThroughput resolution m unit = some (dataSize / toSeconds resolution period * f)
  stationary : ∀ unit f, dataRateFactor unit = some f →
    getStationaryThroughput resolution m unit =
      some (dataSize / toSeconds resolution period * f)
  normalized : ∀ unit f, isuFactor unit = some f →
    getNormalizedThroughput resolution m unit = some (1 / toSeconds resolution period * f)
  normalizedStationary : ∀ unit f, isuFactor unit = some f →
    getNormalizedStationaryThroughput resolution m unit =
      some (1 / toSeconds resolution period * f)
  proportional : ∀ unit unit' f, dataRateFactor unit = some f → isuFactor unit' = some f →
    ∃ x, getNormalizedThroughput resolution m unit' = some x ∧
      getThroughput resolution m unit = some (dataSize * x)

/-- Three of the four are right on every periodic stream. -/
theorem stationary_reports_right (hres : 0 < resolution) (hperiod : 0 < period) (hn : 3 ≤ n) :
    (∀ unit f, dataRateFactor unit = some f →
      getStationaryThroughput resolution (periodicMonitor dataSize period n) unit =
        some (dataSize / toSeconds resolution period * f)) ∧
    ∀ unit f, isuFactor unit = some f →
      getNormalizedThroughput resolution (periodicMonitor dataSize period n) unit =
        some (1 / toSeconds resolution period * f) ∧
      getNormalizedStationaryThroughput resolution (periodicMonitor dataSize period n) unit =
        some (1 / toSeconds resolution period * f) := by
  constructor
  · intro unit f hunit
    rw [getStationaryThroughput, reportLast_periodic _ _ hres hperiod hn hunit,
      periodic_dataSize hn]
    congr 1
    ring
  · intro unit f hunit
    rw [getNormalizedThroughput, getNormalizedStationaryThroughput,
      reportTotal_periodic _ hres hperiod hn hunit, reportLast_periodic _ _ hres hperiod hn hunit]
    constructor
    · congr 1
      ring
    · congr 1
      ring

theorem reports_agree_iff (hres : 0 < resolution) (hperiod : 0 < period) (hn : 3 ≤ n) :
    ReportsAgree resolution dataSize period (periodicMonitor dataSize period n) ↔
      dataSize = 1 := by
  have hseconds : 0 < toSeconds resolution period :=
    mul_pos (Nat.cast_pos.mpr hperiod) hres
  have hoverall : ∀ unit f, dataRateFactor unit = some f →
      getThroughput resolution (periodicMonitor dataSize period n) unit =
        some (f / toSeconds resolution period) := fun unit f hunit =>
    reportTotal_periodic _ hres hperiod hn hunit
  obtain ⟨hstationary, hnormalized⟩ := stationary_reports_right hres hperiod hn
  constructor
  · intro h
    have hbits := (hoverall [] 1 rfl).symm.trans (h.overall [] 1 rfl)
    rw [Option.some.injEq, mul_one, div_left_inj' hseconds.ne'] at hbits
    exact_mod_cast hbits.symm
  · intro hone
    refine ⟨?_, hstationary, fun unit f hunit => (hnormalized unit f hunit).1,
      fun unit f hunit => (hnormalized unit f hunit).2, ?_⟩
    · intro unit f hunit
      rw [hoverall unit f hunit, hone, Nat.cast_one, div_mul_eq_mul_div, one_mul]
    · intro unit unit' f hunit hunit'
      refine ⟨_, (hnormalized unit' f hunit').1, ?_⟩
      rw [hoverall unit f hunit, hone, Nat.cast_one, div_mul_eq_mul_div, one_mul, one_mul]

/-- One bit every 10 ticks of a picosecond. -/
theorem reports_agree_for_bits :
    ReportsAgree (1 / 10 ^ 12) 1 10 (periodicMonitor 1 10 3) :=
  (reports_agree_iff (by norm_num) (by omega) (by omega)).mpr rfl

/-- Messages of 32 bits: `get_throughput` reports the frequency of the messages. -/
theorem reports_disagree_for_words :
    ¬ ∀ (resolution : ℚ) (dataSize period n : ℕ), 0 < resolution → 0 < period → 3 ≤ n →
      ReportsAgree resolution dataSize period (periodicMonitor dataSize period n) := by
  intro hall
  have hreport := (hall (1 / 10 ^ 12) 32 10 3 (by norm_num) (by omega) (by omega)).overall [] 1 rfl
  rw [getThroughput, reportTotal_periodic _ (by norm_num) (by omega) (by omega) rfl] at hreport
  norm_num [toSeconds] at hreport

end Kista.SynchComm.Throughput
