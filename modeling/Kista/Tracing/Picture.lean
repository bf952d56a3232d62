/- Kista/Tracing/Picture
   source: src/src/tikz_activity_trace.cpp
   digest: The picture of a recorded run shows, over the time between two divisions of its axis,
   the state that every task and scheduler had all that time. -/

import Kista.Tracing.BetweenStamps
import Kista.Tracing.Drawing

set_option autoImplicit false
set_option relaxedAutoImplicit false

namespace Kista.Tracing.Picture

open Containers.OrderedMap Containers.LinearKeys Kernel.Waveform
open TimeAxis UnfoldedTrace BetweenStamps Drawing

/-! ### Entries of a map -/

section Maps

variable {κ α : Type} [LinearOrder κ] {table : Entries κ α}

theorem find_of_mem (h : Increasing table) {entry : κ × α} (listed : entry ∈ table) :
    find less entry.1 table = some entry.2 := by
  induction table with
  | nil => cases listed
  | cons first rest ih =>
    obtain ⟨k, value⟩ := first
    rcases List.mem_cons.mp listed with rfl | later
    · simp [find, less]
    · have below := (List.pairwise_cons.mp h.increasing).1 entry later
      rw [find, if_pos below]
      exact ih h.tail later

theorem mem_of_find {key : κ} {value : α} (found : find less key table = some value) :
    (key, value) ∈ table := by
  induction table with
  | nil => cases found
  | cons first rest ih =>
    obtain ⟨k, old⟩ := first
    rw [find] at found
    split at found
    · exact List.mem_cons_of_mem _ (ih found)
    · split at found
      · cases found
      · rename_i notBelow notAbove
        simp only [less, decide_eq_true_eq, not_lt] at notBelow notAbove
        obtain rfl : k = key := le_antisymm notAbove notBelow
        cases found
        exact List.mem_cons_self

/-- The first entry is the latest one as long as no other has come. -/
theorem latest_head {key : κ} {first : κ × α} {rest : Entries κ α} (come : first.1 ≤ key)
    (ahead : ∀ entry ∈ rest, key < entry.1) : latest (first :: rest) key = some first.2 := by
  have none' : rest.filter (fun entry => decide (entry.1 ≤ key)) = [] := by
    rw [List.filter_eq_nil_iff]
    intro entry listed upTo
    exact absurd (of_decide_eq_true upTo) (not_le.mpr (ahead entry listed))
  rw [latest, List.filter_cons_of_pos (by simpa using come), none']
  rfl

theorem latest_tail {key : κ} {first entry : κ × α} {rest : Entries κ α} (listed : entry ∈ rest)
    (come : entry.1 ≤ key) : latest (first :: rest) key = latest rest key := by
  have nonempty : rest.filter (fun entry => decide (entry.1 ≤ key)) ≠ [] :=
    List.ne_nil_of_mem (List.mem_filter.mpr ⟨listed, decide_eq_true come⟩)
  rw [latest, latest, List.filter_cons]
  split
  · rw [List.getLast?_cons_of_ne_nil nonempty]
  · rfl

end Maps

/-! ### The indices of the stamps -/

section Indices

variable {axis : Axis} {start max : ℕ}

theorem index_of_stamp (right : axis.Right start max) {n stamp : ℕ}
    (at' : axis.timeStamps[n]? = some stamp) : index axis stamp = n := by
  rw [index, (right.inverse stamp n).mpr at']
  rfl

theorem exists_index (right : axis.Right start max) {stamp : ℕ}
    (listed : stamp ∈ axis.timeStamps) :
    axis.timeStamps[index axis stamp]? = some stamp := by
  obtain ⟨n, at'⟩ := List.getElem?_of_mem listed
  rw [index_of_stamp right at']
  exact at'

theorem index_lt_length (right : axis.Right start max) {stamp : ℕ}
    (listed : stamp ∈ axis.timeStamps) : index axis stamp < axis.timeStamps.length :=
  (List.getElem?_eq_some_iff.mp (exists_index right listed)).1

theorem stamp_lt_of_lt (right : axis.Right start max) {n m a b : ℕ}
    (first : axis.timeStamps[n]? = some a) (second : axis.timeStamps[m]? = some b)
    (before : n < m) : a < b := by
  obtain ⟨hn, rfl⟩ := List.getElem?_eq_some_iff.mp first
  obtain ⟨hm, rfl⟩ := List.getElem?_eq_some_iff.mp second
  exact List.pairwise_iff_getElem.mp right.increasing n m hn hm before

/-- The index is in the order of the stamps. -/
theorem index_le_iff (right : axis.Right start max) {a b : ℕ} (ha : a ∈ axis.timeStamps)
    (hb : b ∈ axis.timeStamps) : index axis a ≤ index axis b ↔ a ≤ b := by
  have first := exists_index right ha
  have second := exists_index right hb
  constructor
  · intro le
    rcases Nat.lt_or_eq_of_le le with lt | same
    · exact (stamp_lt_of_lt right first second lt).le
    · rw [same, second] at first
      exact (Option.some.inj first).ge
  · intro le
    by_contra later
    have := stamp_lt_of_lt right second first (Nat.lt_of_not_le later)
    omega

theorem index_lt_iff (right : axis.Right start max) {a b : ℕ} (ha : a ∈ axis.timeStamps)
    (hb : b ∈ axis.timeStamps) : index axis a < index axis b ↔ a < b := by
  rw [← Nat.not_le, ← Nat.not_le, index_le_iff right hb ha]

theorem index_start (right : axis.Right start max) : index axis start = 0 :=
  index_of_stamp right (by rw [← List.head?_eq_getElem?, right.begins])

theorem index_back (right : axis.Right start max) :
    index axis axis.back = axis.timeStamps.length - 1 := by
  obtain ⟨earlier, split⟩ := right.exists_split
  refine index_of_stamp right ?_
  have length : axis.timeStamps.length - 1 = earlier.length := by
    rw [split]
    simp
  rw [length, split]
  exact List.getElem?_concat_length

/-- The last entry of the index is that of the last stamp. -/
theorem lastIndex_eq (right : axis.Right start max) :
    lastIndex axis = axis.timeStamps.length - 1 := by
  have last : (axis.back, axis.timeStamps.length - 1) ∈ axis.timeStampsIndex := by
    refine mem_of_find ((right.inverse _ _).mpr ?_)
    rw [← index_back right]
    exact exists_index right right.back_mem
  have nonempty : axis.timeStampsIndex ≠ [] := List.ne_nil_of_mem last
  obtain ⟨before, entry, split⟩ :=
    (List.eq_nil_or_concat axis.timeStampsIndex).resolve_left nonempty
  rw [List.concat_eq_append] at split
  have listed : entry ∈ axis.timeStampsIndex := by
    rw [split]
    exact List.mem_append_right _ (List.mem_singleton_self entry)
  have stamp := List.mem_of_getElem? ((right.inverse _ _).mp (find_of_mem right.sorted listed))
  have same : entry = (axis.back, axis.timeStamps.length - 1) := by
    have sorted := right.sorted.increasing
    rw [split, List.pairwise_append] at sorted
    rw [split] at last
    rcases List.mem_append.mp last with earlier | this
    · have below := sorted.2.2 _ earlier entry (List.mem_singleton_self entry)
      rw [less, decide_eq_true_eq] at below
      exact absurd (right.le_back stamp) (Nat.not_le.mpr below)
    · exact (List.mem_singleton.mp this).symm
  rw [lastIndex, split, List.getLast?_concat, same]
  rfl

/-- A map that is read like the index of an axis: its stamps have the same indices. -/
structure Reads (axis touched : Axis) : Prop where
  timeStamps : touched.timeStamps = axis.timeStamps
  sorted : Increasing touched.timeStampsIndex
  found : ∀ stamp ∈ axis.timeStamps,
    find less stamp touched.timeStampsIndex = some (index axis stamp)

theorem reads_self (right : axis.Right start max) : Reads axis axis where
  timeStamps := rfl
  sorted := right.sorted
  found _ listed := (right.inverse _ _).mpr (exists_index right listed)

theorem Reads.index {touched : Axis} (reads : Reads axis touched) {stamp : ℕ}
    (listed : stamp ∈ axis.timeStamps) : index touched stamp = index axis stamp := by
  rw [Drawing.index, reads.found stamp listed]
  rfl

theorem Reads.back {touched : Axis} (reads : Reads axis touched) : touched.back = axis.back := by
  rw [Axis.back, reads.timeStamps, Axis.back]

/-- What a reading enters is not a stamp. -/
theorem Reads.touch {touched : Axis} (reads : Reads axis touched) (time : ℕ) :
    Reads axis (touch touched time) := by
  rw [Drawing.touch]
  split
  · exact reads
  · rename_i unknown
    refine ⟨reads.timeStamps, reads.sorted.assign time 0, ?_⟩
    intro stamp listed
    have known := reads.found stamp listed
    have other : time ≠ stamp := by
      rintro rfl
      rw [known] at unknown
      cases unknown
    rw [find_assign_key reads.sorted, if_neg other, known]

/-- Before anything else has been read, reading a stamp enters nothing. -/
theorem touch_stamp (right : axis.Right start max) {stamp : ℕ}
    (listed : stamp ∈ axis.timeStamps) : touch axis stamp = axis := by
  rw [touch, (reads_self right).found stamp listed]

end Indices

/-! ### One row -/

/-- A table as the recorder leaves it: increasing, with an entry for stamps alone. -/
structure OnAxis {α : Type} (axis : Axis) (table : Entries ℕ α) : Prop where
  increasing : Increasing table
  keyed : ∀ entry ∈ table, entry.1 ∈ axis.timeStamps

section Rows

variable {α : Type} {axis : Axis} {start max separation : ℕ} {xs : List ℕ}
  {table rest : Entries ℕ α} {shade : α → Option Fill}

theorem OnAxis.tail {entry : ℕ × α} (on : OnAxis axis (entry :: rest)) : OnAxis axis rest :=
  ⟨on.increasing.tail, fun later listed => on.keyed later (List.mem_cons_of_mem _ listed)⟩

theorem OnAxis.later {entry : ℕ × α} (on : OnAxis axis (entry :: rest)) :
    ∀ later ∈ rest, entry.1 < later.1 := by
  intro later listed
  have below := (List.pairwise_cons.mp on.increasing.increasing).1 later listed
  rwa [less, decide_eq_true_eq] at below

section Paths

variable (right : axis.Right start max)

include right

theorem pathFrom_cons {evTime : ℕ} {next : ℕ × α} (listed : next.1 ∈ axis.timeStamps) :
    pathFrom xs axis evTime (next :: rest) =
      ((getSpan xs (index axis evTime) (index axis next.1), index axis next.1) ::
        (pathFrom xs axis next.1 rest).1, (pathFrom xs axis next.1 rest).2) := by
  rw [pathFrom, touch_stamp right listed]

/-- The paths leave the index as it is. -/
theorem axis_pathFrom {entry : ℕ × α} (on : OnAxis axis (entry :: rest)) :
    (pathFrom xs axis entry.1 rest).2 = axis := by
  induction rest generalizing entry with
  | nil =>
    rw [pathFrom]
    split <;> rfl
  | cons next rest ih =>
    rw [pathFrom_cons right (on.tail.keyed next List.mem_cons_self)]
    exact ih on.tail

/-- A path never names a coordinate up to the one it starts from. -/
theorem placeFrom_before {entry : ℕ × α} (on : OnAxis axis (entry :: rest)) {n : ℕ}
    (behind : n ≤ index axis entry.1) (x : ℕ) :
    placeFrom x (pathFrom xs axis entry.1 rest).1 n = none := by
  induction rest generalizing entry x with
  | nil =>
    rw [pathFrom]
    split
    · rename_i inside
      have here := on.keyed entry List.mem_cons_self
      have before : entry.1 < axis.back := Nat.lt_of_le_of_ne (right.le_back here) inside
      have ahead := (index_lt_iff right here right.back_mem).mpr before
      rw [index_back right] at ahead
      have other : lastIndex axis ≠ n := by
        rw [lastIndex_eq right]
        omega
      simp only [placeFrom, if_neg other, Option.or_none]
    · rfl
  | cons next rest ih =>
    have nextStamp := on.tail.keyed next List.mem_cons_self
    have ahead := (index_lt_iff right (on.keyed entry List.mem_cons_self) nextStamp).mpr
      (on.later next List.mem_cons_self)
    have other : index axis next.1 ≠ n := by omega
    rw [pathFrom_cons right nextStamp, placeFrom, ih on.tail (behind.trans ahead.le), if_neg other]
    rfl

/-- Each coordinate of a path stands at the division of its index. -/
theorem placeFrom_key (spaced : Spaced separation axis.timeStamps xs) {entry : ℕ × α}
    (on : OnAxis axis (entry :: rest)) {later : ℕ × α} (listed : later ∈ rest) :
    placeFrom (xs.getD (index axis entry.1) 0) (pathFrom xs axis entry.1 rest).1
      (index axis later.1) = some (xs.getD (index axis later.1) 0) := by
  induction rest generalizing entry with
  | nil => cases listed
  | cons next rest ih =>
    have nextStamp := on.tail.keyed next List.mem_cons_self
    have ahead := (index_le_iff right (on.keyed entry List.mem_cons_self) nextStamp).mpr
      (on.later next List.mem_cons_self).le
    have moved : xs.getD (index axis entry.1) 0 +
        getSpan xs (index axis entry.1) (index axis next.1) = xs.getD (index axis next.1) 0 := by
      have := spaced.le ahead (by rw [spaced.length]; exact index_lt_length right nextStamp)
      rw [getSpan]
      omega
    rw [pathFrom_cons right nextStamp, placeFrom, moved]
    rcases List.mem_cons.mp listed with rfl | deeper
    · rw [placeFrom_before right on.tail le_rfl, if_pos rfl]
      rfl
    · rw [ih on.tail deeper]
      rfl

/-- Every event at the division of its index. -/
def Placed (axis : Axis) (xs : List ℕ) (table : Entries ℕ α) (path : List (ℕ × ℕ)) : Prop :=
  ∀ entry ∈ table, ∀ boxes : List (Box α),
    (⟨path, boxes⟩ : Row α).place (index axis entry.1) = some (xs.getD (index axis entry.1) 0)

/-- The path of a row is written without an error and puts every event at its division. -/
theorem placed_path (spaced : Spaced separation axis.timeStamps xs) (on : OnAxis axis table)
    (first : table.head?.map Prod.fst = some start) :
    ∃ path, writeActivityPath start xs table axis = some (path, axis) ∧
      Placed axis xs table path := by
  cases table with
  | nil => cases first
  | cons entry rest =>
    obtain rfl : entry.1 = start := Option.some.inj first
    have origin := index_start right
    refine ⟨(pathFrom xs axis entry.1 rest).1, ?_, ?_⟩
    · rw [writeActivityPath, touch_stamp right (on.keyed entry List.mem_cons_self)]
      have fine : ¬ (entry.1 ≠ entry.1 ∨ index axis entry.1 ≠ 0) := by simp [origin]
      rw [if_neg fine]
      congr 1
      exact Prod.ext rfl (axis_pathFrom right on)
    · intro later listed boxes
      rcases List.mem_cons.mp listed with rfl | deeper
      · rw [Row.place, placeFrom_before right on le_rfl, if_pos origin, origin, spaced.origin]
        rfl
      · have placed := placeFrom_key right spaced on deeper
        rw [origin, spaced.origin] at placed
        rw [Row.place, placed]
        rfl

end Paths

/-- The boxes of a table with entries for stamps alone. -/
def boxesOf (shade : α → Option Fill) (axis : Axis) (xs : List ℕ) : Entries ℕ α → List (Box α)
  | [] => []
  | [(evTime, state)] =>
    if evTime = axis.back then []
    else [⟨index axis evTime, getSpan xs (index axis evTime) (axis.timeStamps.length - 1), state,
      shade state⟩]
  | (evTime, state) :: (nextEvTime, next) :: rest =>
    ⟨index axis evTime, getSpan xs (index axis evTime) (index axis nextEvTime), state,
      shade state⟩ :: boxesOf shade axis xs ((nextEvTime, next) :: rest)

/-- No event of a recorded table is after the last stamp, so its boxes are drawn without an error,
whatever the rows before and the reading past the end have entered in the index. -/
theorem drawActivity_eq (right : axis.Right start max) (on : OnAxis axis table) (pastEnd : ℕ)
    {touched : Axis} (reads : Reads axis touched) :
    ∃ last, drawActivity shade xs pastEnd table touched =
      some (boxesOf shade axis xs table, last) ∧ Reads axis last := by
  induction table generalizing touched with
  | nil => exact ⟨touched, rfl, reads⟩
  | cons entry rest ih =>
    obtain ⟨evTime, state⟩ := entry
    have listed : evTime ∈ axis.timeStamps := on.keyed (evTime, state) List.mem_cons_self
    cases rest with
    | nil =>
      have upTo := right.le_back listed
      have after := (reads.touch evTime).touch pastEnd
      refine ⟨_, ?_, after⟩
      rw [drawActivity, boxesOf, reads.back, after.index listed, reads.timeStamps]
      split
      · rfl
      · rename_i other
        rw [if_pos (Nat.lt_of_le_of_ne upTo other)]
    | cons following rest =>
      obtain ⟨nextEvTime, next⟩ := following
      have after := (reads.touch evTime).touch nextEvTime
      obtain ⟨last, drawn, reads'⟩ := ih on.tail after
      refine ⟨last, ?_, reads'⟩
      rw [drawActivity, drawn, after.index listed, after.index (on.tail.keyed _ List.mem_cons_self)]
      rfl

section Boxes

variable (right : axis.Right start max) (spaced : Spaced separation axis.timeStamps xs)
  {row : Row α} {i x stamp : ℕ}

include right spaced

/-- A box from an event to a later stamp is over the units between them. -/
theorem covers_iff {evTime : ℕ} (untilIndex : ℕ) (state : α) (rectangle : Option Fill)
    (listed : evTime ∈ axis.timeStamps)
    (placed : row.place (index axis evTime) = some (xs.getD (index axis evTime) 0))
    (forwards : index axis evTime ≤ untilIndex) (inside : untilIndex < xs.length)
    (next : i + 1 < xs.length) (from' : xs.getD i 0 ≤ x) (before : x < xs.getD (i + 1) 0) :
    row.covers x ⟨index axis evTime, getSpan xs (index axis evTime) untilIndex, state,
      rectangle⟩ = true ↔ index axis evTime ≤ i ∧ i < untilIndex := by
  have ahead := spaced.le forwards inside
  have reach : xs.getD (index axis evTime) 0 + getSpan xs (index axis evTime) untilIndex =
      xs.getD untilIndex 0 := by
    rw [getSpan]
    omega
  have inside' : index axis evTime < xs.length := by
    rw [spaced.length]
    exact index_lt_length right listed
  simp only [Row.covers, placed, decide_eq_true_eq, reach]
  rw [spaced.le_iff next from' before inside', ← Nat.not_le,
    spaced.le_iff next from' before inside, Nat.not_le]

/-- Over a unit between two neighbouring stamps there is the box of the latest entry alone. -/
theorem boxes_between (on : OnAxis axis table)
    (placed : ∀ entry ∈ table, row.place (index axis entry.1) =
      some (xs.getD (index axis entry.1) 0))
    (at' : axis.timeStamps[i]? = some stamp) (next : i + 1 < xs.length)
    (from' : xs.getD i 0 ≤ x) (before : x < xs.getD (i + 1) 0) :
    ((∀ entry ∈ table, stamp < entry.1) →
        (boxesOf shade axis xs table).filter (row.covers x) = []) ∧
      ∀ entry ∈ table.head?, entry.1 ≤ stamp →
        ∃ box, (boxesOf shade axis xs table).filter (row.covers x) = [box] ∧
          latest table stamp = some box.state ∧ box.rectangle = shade box.state := by
  have stampListed := List.mem_of_getElem? at'
  have stampIndex := index_of_stamp right at'
  have early : stamp < axis.back := by
    have length := spaced.length
    rw [← index_lt_iff right stampListed right.back_mem, stampIndex, index_back right]
    omega
  have behind : ∀ evTime ∈ axis.timeStamps, index axis evTime ≤ i ↔ evTime ≤ stamp := by
    intro evTime listed
    rw [← index_le_iff right listed stampListed, stampIndex]
  induction table with
  | nil => exact ⟨fun _ => rfl, nofun⟩
  | cons entry rest ih =>
    obtain ⟨evTime, state⟩ := entry
    have listed : evTime ∈ axis.timeStamps := on.keyed (evTime, state) List.mem_cons_self
    have here := placed (evTime, state) List.mem_cons_self
    cases rest with
    | nil =>
      rw [boxesOf]
      split
      · rename_i last
        refine ⟨fun _ => rfl, ?_⟩
        rintro entry ⟨⟩ come
        exact absurd (last ▸ come) (Nat.not_le.mpr early)
      · have length := spaced.length
        have forwards : index axis evTime ≤ axis.timeStamps.length - 1 := by
          have := index_lt_length right listed
          omega
        have covers := covers_iff right spaced (axis.timeStamps.length - 1) state (shade state)
          listed here forwards (by omega) next from' before
        have inside : i < axis.timeStamps.length - 1 := by omega
        simp only [inside, and_true, behind evTime listed] at covers
        refine ⟨fun ahead => ?_, ?_⟩
        · have missed := ahead (evTime, state) List.mem_cons_self
          have : ¬ evTime ≤ stamp := Nat.not_le.mpr missed
          rw [← covers] at this
          simp [this]
        · rintro entry ⟨⟩ come
          refine ⟨_, List.filter_eq_self.mpr ?_, latest_head come nofun, rfl⟩
          simpa using covers.mpr come
    | cons following rest =>
      obtain ⟨nextEvTime, next'⟩ := following
      rw [boxesOf]
      have nextListed := on.tail.keyed (nextEvTime, next') List.mem_cons_self
      have later : evTime < nextEvTime := on.later (nextEvTime, next') List.mem_cons_self
      have inside : index axis nextEvTime < xs.length := by
        rw [spaced.length]
        exact index_lt_length right nextListed
      have covers := covers_iff right spaced (index axis nextEvTime) state (shade state) listed
        here ((index_le_iff right listed nextListed).mpr later.le) inside next from' before
      rw [behind evTime listed, ← Nat.not_le, behind nextEvTime nextListed] at covers
      obtain ⟨none', one⟩ := ih on.tail
        fun entry mem => placed entry (List.mem_cons_of_mem _ mem)
      refine ⟨fun ahead => ?_, ?_⟩
      · have missed := ahead (evTime, state) List.mem_cons_self
        have outside : ¬ row.covers x _ = true :=
          covers.not.mpr fun inside => Nat.not_le.mpr missed inside.1
        rw [List.filter_cons_of_neg outside]
        exact none' fun entry mem => ahead entry (List.mem_cons_of_mem _ mem)
      · rintro entry ⟨⟩ come
        by_cases arrived : nextEvTime ≤ stamp
        · have outside : ¬ row.covers x _ = true := covers.not.mpr fun inside => inside.2 arrived
          obtain ⟨box, only, state', rectangle⟩ := one (nextEvTime, next') rfl arrived
          have tail : latest ((evTime, state) :: (nextEvTime, next') :: rest) stamp =
              latest ((nextEvTime, next') :: rest) stamp :=
            latest_tail List.mem_cons_self arrived
          rw [List.filter_cons_of_neg outside, tail]
          exact ⟨box, only, state', rectangle⟩
        · have ahead : ∀ entry ∈ (nextEvTime, next') :: rest, stamp < entry.1 := by
            intro entry mem
            rcases List.mem_cons.mp mem with rfl | deeper
            · exact Nat.lt_of_not_le arrived
            · exact (Nat.lt_of_not_le arrived).trans (on.tail.later entry deeper)
          rw [List.filter_cons_of_pos (covers.mpr ⟨come, arrived⟩), none' ahead]
          exact ⟨_, rfl, latest_head come ahead, rfl⟩

/-- No box reaches over the last division. -/
theorem boxes_after (on : OnAxis axis table)
    (placed : ∀ entry ∈ table, row.place (index axis entry.1) =
      some (xs.getD (index axis entry.1) 0))
    (past : xs.getD (axis.timeStamps.length - 1) 0 ≤ x) :
    (boxesOf shade axis xs table).filter (row.covers x) = [] := by
  have short : ∀ {evTime untilIndex : ℕ} (state : α) (rectangle : Option Fill),
      row.place (index axis evTime) = some (xs.getD (index axis evTime) 0) →
      index axis evTime ≤ untilIndex → untilIndex < axis.timeStamps.length →
      row.covers x ⟨index axis evTime, getSpan xs (index axis evTime) untilIndex, state,
        rectangle⟩ = false := by
    intro evTime untilIndex state rectangle here forwards inside
    have length := spaced.length
    have ahead := spaced.le forwards (by omega)
    have reach := spaced.le (Nat.le_sub_one_of_lt inside) (by omega)
    simp only [Row.covers, here]
    refine decide_eq_false ?_
    rintro ⟨left, right'⟩
    rw [getSpan] at right'
    omega
  induction table with
  | nil => rfl
  | cons entry rest ih =>
    obtain ⟨evTime, state⟩ := entry
    have listed : evTime ∈ axis.timeStamps := on.keyed (evTime, state) List.mem_cons_self
    have here := placed (evTime, state) List.mem_cons_self
    have inside := index_lt_length right listed
    cases rest with
    | nil =>
      rw [boxesOf]
      split
      · rfl
      · have missed := short state (shade state) here (Nat.le_sub_one_of_lt inside) (by omega)
        rw [List.filter_cons_of_neg (by simp [missed])]
        rfl
    | cons following rest =>
      obtain ⟨nextEvTime, next'⟩ := following
      rw [boxesOf]
      have nextListed := on.tail.keyed (nextEvTime, next') List.mem_cons_self
      have later : evTime < nextEvTime := on.later (nextEvTime, next') List.mem_cons_self
      have missed := short state (shade state) here
        ((index_le_iff right listed nextListed).mpr later.le) (index_lt_length right nextListed)
      rw [List.filter_cons_of_neg (by simp [missed])]
      exact ih on.tail fun entry mem => placed entry (List.mem_cons_of_mem _ mem)

end Boxes

/-- Over the units between two neighbouring divisions a row has one box, of the value at every
instant between their stamps, and after the last division none. -/
def Shows (row : Row α) (shade : α → Option Fill) (value : ℕ → α) (axis : Axis) (xs : List ℕ) :
    Prop :=
  (∀ i x first second instant, axis.timeStamps[i]? = some first →
      axis.timeStamps[i + 1]? = some second → xs.getD i 0 ≤ x → x < xs.getD (i + 1) 0 →
      first ≤ instant → instant < second →
      ∃ box, row.boxesAt x = [box] ∧ box.state = value instant ∧
        box.rectangle = shade box.state) ∧
    ∀ x, xs.getD (axis.timeStamps.length - 1) 0 ≤ x → row.boxesAt x = []

/-- The row of a table that knows the values up to the last stamp. -/
theorem shows_of_latest (right : axis.Right start max)
    (spaced : Spaced separation axis.timeStamps xs) (on : OnAxis axis table)
    (first : table.head?.map Prod.fst = some start) {path : List (ℕ × ℕ)}
    (placed : Placed axis xs table path) {value : ℕ → α}
    (known : ∀ t, start ≤ t → t ≤ axis.back → latest table t = some (value t)) :
    Shows ⟨path, boxesOf shade axis xs table⟩ shade value axis xs := by
  constructor
  · intro i x stamp next instant at' at'' from' before since until'
    have inside := (List.getElem?_eq_some_iff.mp at'').1
    have stampListed := List.mem_of_getElem? at'
    have nextListed := List.mem_of_getElem? at''
    have startLe : start ≤ stamp := by
      have index := (index_le_iff right (List.mem_of_head? right.begins) stampListed).mp
      rw [index_start right] at index
      exact index (Nat.zero_le _)
    have upTo := right.le_back nextListed
    obtain ⟨entry, head, come⟩ : ∃ entry ∈ table.head?, entry.1 ≤ stamp := by
      obtain ⟨entry, head, rfl⟩ := Option.map_eq_some_iff.mp first
      exact ⟨entry, head, startLe⟩
    obtain ⟨box, only, state, rectangle⟩ : ∃ box,
        (⟨path, boxesOf shade axis xs table⟩ : Row α).boxesAt x = [box] ∧
          latest table stamp = some box.state ∧ box.rectangle = shade box.state :=
      (boxes_between right spaced on (fun entry listed => placed entry listed _) at'
        (by rw [spaced.length]; exact inside) from' before).2 entry head come
    refine ⟨box, only, ?_, rectangle⟩
    -- between the two stamps there is no entry, so the latest one stays
    have same : latest table instant = latest table stamp := by
      rw [latest, latest]
      congr 2
      apply List.filter_congr
      intro entry listed
      rw [decide_eq_decide]
      constructor
      · intro upToInstant
        by_contra later
        have stamped := on.keyed entry listed
        have above := (index_lt_iff right stampListed stamped).mpr (Nat.lt_of_not_le later)
        have below := (index_lt_iff right stamped nextListed).mpr (by omega)
        rw [index_of_stamp right at'] at above
        rw [index_of_stamp right at''] at below
        omega
      · intro upToStamp
        exact upToStamp.trans since
    have now := known instant (startLe.trans since) (until'.le.trans upTo)
    rw [same, state] at now
    exact Option.some.inj now
  · intro x past
    exact boxes_after right spaced on (fun entry listed => placed entry listed _) past

end Rows

/-! ### The picture of a run -/

/-- Rows that keep what is asked of the index are drawn one after the other. -/
theorem drawRows_all {ι β : Type} (draw : ι → Axis → Option (β × Axis)) (result : ι → β)
    {P : Axis → Prop}
    (each : ∀ i axis, P axis → ∃ last, draw i axis = some (result i, last) ∧ P last)
    (rows : List ι) {axis : Axis} (before : P axis) :
    ∃ last, drawRows draw rows axis = some (rows.map fun i => (i, result i), last) ∧ P last := by
  induction rows generalizing axis with
  | nil => exact ⟨axis, rfl, before⟩
  | cons i rest ih =>
    obtain ⟨next, here, between⟩ := each i axis before
    obtain ⟨last, later, after⟩ := ih between
    refine ⟨last, ?_, after⟩
    rw [drawRows, here, Option.bind_some, later]
    rfl

section Pictures

variable {τ ρ : Type} {registry : Registry τ ρ} {options : Options} {axis : Axis}
  {activity : Activity τ ρ} {start max : ℕ} {xs : List ℕ} {schedPath : ρ → List (ℕ × ℕ)}
  {taskPath : τ → List (ℕ × ℕ)}

/-- The paths leave the index as it is, the boxes the indices of the stamps. -/
theorem drawFlatAll_rows (right : axis.Right start max)
    (located : xLocation options.timeStampsMaxSeparation axis.timeStamps = some xs)
    (scheds : ∀ s, OnAxis axis (activity.schedActivity s) ∧
      writeActivityPath start xs (activity.schedActivity s) axis = some (schedPath s, axis))
    (tasks : ∀ t, OnAxis axis (activity.taskActivity t) ∧
      writeActivityPath start xs (activity.taskActivity t) axis = some (taskPath t, axis))
    (schedPastEnd : ρ → ℕ) (taskPastEnd : τ → ℕ) :
    drawFlatAll options registry start schedPastEnd taskPastEnd axis activity = some
      { xLocation := xs
        schedPaths := (shownScheds options registry).map fun s => (s, schedPath s)
        taskPaths := registry.taskInfoByName.map fun t => (t, taskPath t)
        schedBoxes := (shownScheds options registry).map fun s =>
          (s, boxesOf (schedShade options.showUnactiveBoxes) axis xs (activity.schedActivity s))
        taskBoxes := registry.taskInfoByName.map fun t =>
          (t, boxesOf (taskShade options.showUnactiveBoxes) axis xs (activity.taskActivity t))
      } := by
  obtain ⟨_, schedPaths, schedKept⟩ := drawRows_all
    (fun s => writeActivityPath start xs (activity.schedActivity s)) schedPath (P := (axis = ·))
    (fun s _ same => ⟨axis, same ▸ (scheds s).2, rfl⟩) (shownScheds options registry) rfl
  obtain ⟨_, taskPaths, taskKept⟩ := drawRows_all
    (fun t => writeActivityPath start xs (activity.taskActivity t)) taskPath (P := (axis = ·))
    (fun t _ same => ⟨axis, same ▸ (tasks t).2, rfl⟩) registry.taskInfoByName schedKept
  have afterPaths := reads_self right
  nth_rewrite 2 [taskKept] at afterPaths
  obtain ⟨_, schedBoxes, reads⟩ := drawRows_all
    (fun s => drawActivity (schedShade options.showUnactiveBoxes) xs (schedPastEnd s)
      (activity.schedActivity s)) _
    (fun s _ => drawActivity_eq right (scheds s).1 (schedPastEnd s))
    (shownScheds options registry) afterPaths
  obtain ⟨_, taskBoxes, -⟩ := drawRows_all
    (fun t => drawActivity (taskShade options.showUnactiveBoxes) xs (taskPastEnd t)
      (activity.taskActivity t)) _
    (fun t _ => drawActivity_eq right (tasks t).1 (taskPastEnd t)) registry.taskInfoByName reads
  simp only [drawFlatAll, located, schedPaths, taskPaths, schedBoxes, taskBoxes,
    Option.bind_eq_bind, Option.bind_some]
  rfl

end Pictures

section Runs

variable {τ ρ : Type} (registry : Registry τ ρ) (settings : Settings) (run : Run (Snapshot τ ρ))

/-- A signal that has a table in the unfolded trace has a row that shows it. -/
theorem signal_row {α : Type} {signal : Snapshot τ ρ → α} {table : Activity τ ρ → Entries ℕ α}
    (watches : Watches (unfolded registry) signal table) (empty : table .void = [])
    {separation : ℕ} {xs : List ℕ}
    (spaced : Spaced separation (trace registry settings run).axis.timeStamps xs)
    (started : (trace registry settings run).phase ≠ .waiting) (shade : α → Option Fill) :
    OnAxis (trace registry settings run).axis (table (trace registry settings run).tables) ∧
      ∃ path, writeActivityPath settings.startTraceTime xs
          (table (trace registry settings run).tables) (trace registry settings run).axis =
            some (path, (trace registry settings run).axis) ∧
        Shows ⟨path, boxesOf shade (trace registry settings run).axis xs
            (table (trace registry settings run).tables)⟩ shade
          (fun instant => signal (run.endOf instant)) (trace registry settings run).axis xs := by
  have faithful : Faithful signal table run.initial run.deltas (trace registry settings run) :=
    faithful_record watches settings.max_pos empty run.ordered
  have steady : Steady signal table settings.startTraceTime run.initial run.deltas
      (trace registry settings run) :=
    steady_record watches settings.max_pos empty run.ordered
  have right := (timed registry settings run).right started
  have on : OnAxis (trace registry settings run).axis
      (table (trace registry settings run).tables) := ⟨faithful.increasing, steady.keyed⟩
  obtain ⟨path, written, placed⟩ := placed_path right spaced on (steady.first started)
  exact ⟨on, path, written,
    shows_of_latest right spaced on (steady.first started) placed (steady.between started)⟩

/-- When the time axis can be drawn so can the whole picture, whatever the readings past the ends
of the tables give, and it shows the states of every task and, unless they are left out, of every
scheduler, at every instant from the start of the trace to its last stamp. -/
theorem picture_shows_states (options : Options) (schedPastEnd : ρ → ℕ) (taskPastEnd : τ → ℕ)
    {xs : List ℕ} (located : xLocation options.timeStampsMaxSeparation
      (trace registry settings run).axis.timeStamps = some xs) :
    ∃ picture, drawFlatAll options registry settings.startTraceTime schedPastEnd taskPastEnd
        (trace registry settings run).axis (trace registry settings run).tables = some picture ∧
      picture.xLocation = xs ∧
      Spaced options.timeStampsMaxSeparation (trace registry settings run).axis.timeStamps xs ∧
      (∀ t, ∃ path boxes, (t, path) ∈ picture.taskPaths ∧ (t, boxes) ∈ picture.taskBoxes ∧
        Shows ⟨path, boxes⟩ (taskShade options.showUnactiveBoxes)
          (fun instant => (run.endOf instant).task t) (trace registry settings run).axis xs) ∧
      (options.showSchedulersActivity = true → ∀ s, ∃ path boxes,
        (s, path) ∈ picture.schedPaths ∧ (s, boxes) ∈ picture.schedBoxes ∧
        Shows ⟨path, boxes⟩ (schedShade options.showUnactiveBoxes)
          (fun instant => (run.endOf instant).sched s) (trace registry settings run).axis xs) := by
  have spaced := spaced_xLocation located
  have started : (trace registry settings run).phase ≠ .waiting := by
    intro waiting
    have axis := ((timed registry settings run).waiting waiting).1
    rw [axis] at located
    cases located
  have right := (timed registry settings run).right started
  have taskRow := fun t => signal_row registry settings run (watches_task registry t) rfl spaced
    started (taskShade options.showUnactiveBoxes)
  have schedRow := fun s => signal_row registry settings run (watches_sched registry s) rfl spaced
    started (schedShade options.showUnactiveBoxes)
  choose taskOn taskPath taskWritten taskShown using taskRow
  choose schedOn schedPath schedWritten schedShown using schedRow
  refine ⟨_, drawFlatAll_rows right located (fun s => ⟨schedOn s, schedWritten s⟩)
    (fun t => ⟨taskOn t, taskWritten t⟩) schedPastEnd taskPastEnd, rfl, spaced, ?_, ?_⟩
  · intro t
    have listed := registry.allTasks t
    exact ⟨_, _, List.mem_map_of_mem listed, List.mem_map_of_mem listed, taskShown t⟩
  · intro shown s
    have listed : s ∈ shownScheds options registry := by
      rw [shownScheds, if_pos shown]
      exact registry.allScheds s
    exact ⟨_, _, List.mem_map_of_mem listed, List.mem_map_of_mem listed, schedShown s⟩

end Runs

/-- One task that executes from the first stamp to the second. -/
def oneTask : Registry Unit Unit where
  taskInfoByName := [()]
  schedsByName := [()]
  allTasks task := List.mem_singleton_self task
  allScheds sched := List.mem_singleton_self sched

def threeStamps : Settings := ⟨10, 3, Nat.le_succ 2⟩

def stateOf (task : Scheduling.Dispatch.TaskState) (sched : Scheduling.Rtos.SchedState) :
    Snapshot Unit Unit :=
  ⟨fun _ => task, fun _ => sched⟩

def oneSlot : Run (Snapshot Unit Unit) where
  initial := stateOf .ready .innactive
  deltas := [(10, stateOf .ready .scheduling), (10, stateOf .executing .innactive),
    (25, stateOf .ready .scheduling), (30, stateOf .finished .innactive)]
  ordered := by simp

theorem oneSlot_shown :
    ∃ picture, drawFlatAll ⟨2, true, true⟩ oneTask 10 (fun _ => 25) (fun _ => 40)
        (trace oneTask threeStamps oneSlot).axis
        (trace oneTask threeStamps oneSlot).tables = some picture ∧
      ∃ path boxes, ((), path) ∈ picture.taskPaths ∧ ((), boxes) ∈ picture.taskBoxes ∧
        Shows ⟨path, boxes⟩ (taskShade true) (fun instant => (oneSlot.endOf instant).task ())
          (trace oneTask threeStamps oneSlot).axis [0, 2, 3] := by
  have located : xLocation 2 (trace oneTask threeStamps oneSlot).axis.timeStamps =
      some [0, 2, 3] := by decide +kernel
  obtain ⟨picture, drawn, -, -, shown, -⟩ :=
    picture_shows_states oneTask threeStamps oneSlot ⟨2, true, true⟩ (fun _ => 25) (fun _ => 40)
      located
  exact ⟨picture, drawn, shown ()⟩

end Kista.Tracing.Picture
