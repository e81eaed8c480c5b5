import Mathlib.Algebra.Order.Ring.Int
import Mathlib.Order.Monotone.Basic
import Mathlib.Tactic.SplitIfs

/-!
# Dates

The part of MySQL's calendar that `maintain_partitions` uses.  Years are not bounded.

* `Month`, `Date` : months and dates that exist, in their order.
* `Date.addDay`, `Date.addMonth` : `DATE_ADD` by one day and by one month, which clamps the day.
* `Date.toMonth_addMonth` : clamped or not, the date is in the next month.
* `prefill`, `prefill_injective` : a number with leading zeros.
* `TimeZone` : when the days begin; `TimeZone.ofOffset` has a fixed offset from UTC.
-/

namespace LiteMonitor

/-- The leap years of the Gregorian calendar. -/
def IsLeap (year : ℕ) : Prop := year % 4 = 0 ∧ (year % 100 ≠ 0 ∨ year % 400 = 0)

instance : DecidablePred IsLeap := fun _ => inferInstanceAs (Decidable (_ ∧ _))

/-- The number of days of a month. -/
def daysInMonth (year month : ℕ) : ℕ :=
  if month = 2 then if IsLeap year then 29 else 28
  else if month = 4 ∨ month = 6 ∨ month = 9 ∨ month = 11 then 30
  else 31

theorem le_daysInMonth (year month : ℕ) : 28 ≤ daysInMonth year month := by
  unfold daysInMonth
  split_ifs <;> omega

theorem daysInMonth_le (year month : ℕ) : daysInMonth year month ≤ 31 := by
  unfold daysInMonth
  split_ifs <;> omega

/-! ### Months -/

/-- A month of a year. -/
structure Month where
  year : ℕ
  month : ℕ
  month_mem : 1 ≤ month ∧ month ≤ 12
  deriving DecidableEq

/-- A date. -/
structure Date where
  year : ℕ
  month : ℕ
  day : ℕ
  month_mem : 1 ≤ month ∧ month ≤ 12
  day_mem : 1 ≤ day ∧ day ≤ daysInMonth year month
  deriving DecidableEq

namespace Month

/-- The months in one row. -/
def number (m : Month) : ℕ := m.year * 12 + m.month

theorem number_injective : Function.Injective number := by
  rintro ⟨y, m, hm⟩ ⟨y', m', hm'⟩ h
  have hnumber : y * 12 + m = y' * 12 + m' := h
  obtain rfl : y = y' := by omega
  obtain rfl : m = m' := by omega
  rfl

instance : LinearOrder Month := LinearOrder.lift' number number_injective

/-- The month after it. -/
def next (m : Month) : Month :=
  if h : m.month < 12 then ⟨m.year, m.month + 1, by omega⟩
  else ⟨m.year + 1, 1, by omega⟩

theorem number_next (m : Month) : m.next.number = m.number + 1 := by
  have hm := m.month_mem
  unfold next
  split_ifs with h <;> simp only [number] <;> omega

theorem next_strictMono : StrictMono next := by
  intro m m' h
  have hlt : m.number < m'.number := h
  show m.next.number < m'.next.number
  rw [number_next, number_next]
  omega

/-- Its first day. -/
def first (m : Month) : Date :=
  ⟨m.year, m.month, 1, m.month_mem, le_rfl, le_trans (by omega) (le_daysInMonth _ _)⟩

end Month

/-! ### Dates -/

namespace Date

/-- The dates in one row, with room for 31 days in each month. -/
def key (d : Date) : ℕ := (d.year * 12 + d.month) * 32 + d.day

theorem day_le (d : Date) : d.day ≤ 31 := le_trans d.day_mem.2 (daysInMonth_le _ _)

theorem key_injective : Function.Injective key := by
  intro d d' h
  have hd := d.day_le
  have hd' := d'.day_le
  obtain ⟨y, m, a, hm, ha⟩ := d
  obtain ⟨y', m', a', hm', ha'⟩ := d'
  simp only [key] at h hd hd'
  obtain rfl : a = a' := by omega
  obtain rfl : y = y' := by omega
  obtain rfl : m = m' := by omega
  rfl

instance : LinearOrder Date := LinearOrder.lift' key key_injective

/-- The month it is in. -/
def toMonth (d : Date) : Month := ⟨d.year, d.month, d.month_mem⟩

theorem toMonth_mono : Monotone toMonth := by
  intro d d' h
  have hd := d.day_le
  have hd' := d'.day_le
  have hkey : d.key ≤ d'.key := h
  unfold key at hkey
  show d.year * 12 + d.month ≤ d'.year * 12 + d'.month
  omega

theorem first_strictMono : StrictMono Month.first := by
  intro m m' h
  have hlt : m.year * 12 + m.month < m'.year * 12 + m'.month := h
  show (m.year * 12 + m.month) * 32 + 1 < (m'.year * 12 + m'.month) * 32 + 1
  omega

theorem lt_first {d : Date} {m : Month} (h : d.toMonth < m) : d < m.first := by
  have hd := d.day_le
  have hlt : d.year * 12 + d.month < m.year * 12 + m.month := h
  show (d.year * 12 + d.month) * 32 + d.day < (m.year * 12 + m.month) * 32 + 1
  omega

/-- `DATE_ADD(d, INTERVAL 1 DAY)`. -/
def addDay (d : Date) : Date :=
  if h : d.day < daysInMonth d.year d.month then
    ⟨d.year, d.month, d.day + 1, d.month_mem, by omega, h⟩
  else d.toMonth.next.first

/-- `DATE_ADD(d, INTERVAL 1 MONTH)`: the same day of the next month, or its last day if it is
shorter. -/
def addMonth (d : Date) : Date :=
  ⟨d.toMonth.next.year, d.toMonth.next.month,
    min d.day (daysInMonth d.toMonth.next.year d.toMonth.next.month), d.toMonth.next.month_mem,
    le_min d.day_mem.1 (le_trans (by omega) (le_daysInMonth _ _)), min_le_right _ _⟩

/-- The date that the text `DATE_FORMAT(d, '%Y-%m-01')` stands for. -/
def firstOfMonth (d : Date) : Date := d.toMonth.first

/-- The day that is clamped does not matter: the date is in the next month. -/
@[simp] theorem toMonth_addMonth (d : Date) : d.addMonth.toMonth = d.toMonth.next := rfl

example :
    Date.addMonth ⟨2028, 1, 31, by decide, by decide⟩ = ⟨2028, 2, 29, by decide, by decide⟩ := by
  decide

theorem firstOfMonth_addMonth (d : Date) : d.addMonth.firstOfMonth = d.toMonth.next.first := by
  unfold firstOfMonth
  rw [toMonth_addMonth]

theorem lt_addDay (d : Date) : d < d.addDay := by
  unfold addDay
  split_ifs with h
  · show d.key < (d.year * 12 + d.month) * 32 + (d.day + 1)
    unfold key
    omega
  · refine lt_first ?_
    show d.toMonth.number < d.toMonth.next.number
    rw [Month.number_next]
    omega

theorem addDay_le {d e : Date} (h : d < e) : d.addDay ≤ e := by
  have hd := d.day_le
  have he := e.day_mem
  have hkey : d.key < e.key := h
  unfold key at hkey
  unfold addDay
  split_ifs with hday
  · show (d.year * 12 + d.month) * 32 + (d.day + 1) ≤ e.key
    unfold key
    omega
  · have hmonth : d.toMonth.number < e.toMonth.number := by
      by_contra hle
      have hle' : e.year * 12 + e.month ≤ d.year * 12 + d.month := Nat.le_of_not_lt hle
      have hem := e.month_mem
      have hdm := d.month_mem
      obtain ⟨hyear, hmon⟩ : e.year = d.year ∧ e.month = d.month := by
        have hel := e.day_le
        omega
      rw [hyear, hmon] at he
      omega
    have hnext : d.toMonth.next.number ≤ e.toMonth.number := by
      rw [Month.number_next]
      exact hmonth
    have hnext' : d.toMonth.next.year * 12 + d.toMonth.next.month ≤ e.year * 12 + e.month := hnext
    show (d.toMonth.next.year * 12 + d.toMonth.next.month) * 32 + 1 ≤ e.key
    unfold key
    omega

theorem addDay_strictMono : StrictMono addDay := by
  intro d e h
  exact lt_of_le_of_lt (addDay_le h) (lt_addDay e)

theorem addDay_le_first (d : Date) : d.addDay ≤ d.toMonth.next.first := by
  refine addDay_le (lt_first ?_)
  show d.toMonth.number < d.toMonth.next.number
  rw [Month.number_next]
  omega

end Date

/-! ### Numbers as text -/

/-- The decimal digits of `n`, with zeros in front up to `width` characters. -/
def prefill (width n : ℕ) : String :=
  String.ofList (List.leftpad width '0' (toString n).toList)

theorem toList_prefill (width n : ℕ) :
    (prefill width n).toList = List.leftpad width '0' (Nat.toDigits 10 n) := by
  simp [prefill]

theorem prefill_injective (width : ℕ) : Function.Injective (prefill width) := by
  have hvalue : ∀ n, Nat.ofDigitChars 10 (prefill width n).toList 0 = n := by
    intro n
    rw [toList_prefill, List.leftpad, Nat.ofDigitChars_append]
    simp
  intro n n' h
  rw [← hvalue n, h, hvalue n']

theorem length_prefill {width n : ℕ} (hw : 0 < width) (h : n < 10 ^ width) :
    (prefill width n).length = width := by
  have hle := (Nat.length_toDigits_le_iff (by decide) hw).2 h
  rw [← String.length_toList, toList_prefill, List.length_leftpad]
  exact max_eq_left hle

theorem le_length_prefill (width n : ℕ) : width ≤ (prefill width n).length := by
  rw [← String.length_toList, toList_prefill, List.length_leftpad]
  exact le_max_left _ _

/-! ### Time zones -/

/-- The UNIX time at which each day begins; of two days the later one begins later. -/
structure TimeZone where
  midnight : Date → ℤ
  midnight_lt : ∀ {d e : Date}, d < e → midnight d < midnight e

/-- The days of the year before the month. -/
def daysBeforeMonth (year : ℕ) : ℕ → ℕ
  | 0 | 1 => 0
  | month + 2 => daysBeforeMonth year (month + 1) + daysInMonth year (month + 1)

/-- The days from the first day of the year 0 to the first day of the year. -/
def daysBeforeYear (year : ℕ) : ℕ :=
  365 * year + (year + 3) / 4 + (year + 399) / 400 - (year + 99) / 100

theorem daysBeforeMonth_mono (year : ℕ) : Monotone (daysBeforeMonth year) := by
  refine monotone_nat_of_le_succ ?_
  intro month
  cases month with
  | zero => exact le_rfl
  | succ month => exact Nat.le_add_right _ _

theorem daysBeforeMonth_last (year : ℕ) :
    daysBeforeMonth year 13 = if IsLeap year then 366 else 365 := by
  split_ifs with h <;> simp [daysBeforeMonth, daysInMonth, h]

/-- The number of multiples of `k` below `n` grows by one at each of them. -/
theorem ceilDiv_succ {k : ℕ} (hk : 0 < k) (n : ℕ) :
    (n + k) / k = (n + (k - 1)) / k + if k ∣ n then 1 else 0 := by
  obtain ⟨j, rfl⟩ : ∃ j, k = j + 1 := ⟨k - 1, by omega⟩
  rw [← Nat.add_assoc, Nat.succ_div, Nat.add_sub_cancel]
  have hdvd : j + 1 ∣ n + j + 1 ↔ j + 1 ∣ n := by
    rw [Nat.add_assoc]
    exact Nat.dvd_add_self_right
  simp only [hdvd]

theorem isLeap_iff {year : ℕ} : IsLeap year ↔ 4 ∣ year ∧ (¬ 100 ∣ year ∨ 400 ∣ year) := by
  simp only [IsLeap, Nat.dvd_iff_mod_eq_zero, ne_eq]

theorem daysBeforeYear_succ (year : ℕ) :
    daysBeforeYear (year + 1) = daysBeforeYear year + daysBeforeMonth year 13 := by
  have hsum : daysBeforeYear (year + 1) =
      365 * (year + 1) + (year + 4) / 4 + (year + 400) / 400 - (year + 100) / 100 := by
    unfold daysBeforeYear
    simp only [Nat.add_assoc, Nat.reduceAdd]
  have hle : (year + 99) / 100 ≤ 365 * year := by omega
  have h100 : 100 ∣ year → 4 ∣ year := dvd_trans (by decide)
  have h400 : 400 ∣ year → 100 ∣ year := dvd_trans (by decide)
  rw [daysBeforeMonth_last, hsum, ceilDiv_succ (by decide), ceilDiv_succ (by decide),
    ceilDiv_succ (by decide)]
  unfold daysBeforeYear
  simp only [isLeap_iff, Nat.reduceSub]
  split_ifs <;> omega

theorem daysBeforeYear_mono : Monotone daysBeforeYear := by
  refine monotone_nat_of_le_succ ?_
  intro year
  rw [daysBeforeYear_succ]
  exact Nat.le_add_right _ _

namespace Date

/-- The days up to this one, from the first day of the year 0. -/
def dayNumber (d : Date) : ℕ := daysBeforeYear d.year + daysBeforeMonth d.year d.month + d.day

theorem dayNumber_le (d : Date) :
    d.dayNumber ≤ daysBeforeYear d.year + daysBeforeMonth d.year (d.month + 1) := by
  have hday := d.day_mem
  unfold dayNumber
  obtain ⟨m, hm⟩ : ∃ m, d.month = m + 1 := ⟨d.month - 1, by have := d.month_mem; omega⟩
  rw [hm] at hday ⊢
  simp only [daysBeforeMonth]
  omega

theorem dayNumber_strictMono : StrictMono dayNumber := by
  intro d e h
  have hkey : d.key < e.key := h
  have hdm := d.month_mem
  have hem := e.month_mem
  have hd := d.day_le
  have he := e.day_le
  have hle := d.dayNumber_le
  unfold key at hkey
  by_cases hyear : d.year < e.year
  · have hmonth := daysBeforeMonth_mono d.year (show d.month + 1 ≤ 13 by omega)
    have hnext := daysBeforeYear_mono (show d.year + 1 ≤ e.year from hyear)
    rw [daysBeforeYear_succ] at hnext
    have hpos := e.day_mem.1
    unfold dayNumber at hle ⊢
    omega
  · have hyear' : d.year = e.year := by omega
    by_cases hmonth : d.month < e.month
    · have hnext := daysBeforeMonth_mono d.year (show d.month + 1 ≤ e.month from hmonth)
      have hpos := e.day_mem.1
      unfold dayNumber at hle ⊢
      rw [← hyear']
      omega
    · have hmonth' : d.month = e.month := by omega
      unfold dayNumber
      rw [← hyear', ← hmonth']
      omega

end Date

/-- A zone whose clocks are `offset` seconds ahead of UTC.  The first day of 1970 has the number
719529. -/
def TimeZone.ofOffset (offset : ℤ) : TimeZone where
  midnight d := 86400 * ((d.dayNumber : ℤ) - 719529) - offset
  midnight_lt := by
    intro d e h
    have hlt := Date.dayNumber_strictMono h
    show 86400 * ((d.dayNumber : ℤ) - 719529) - offset <
      86400 * ((e.dayNumber : ℤ) - 719529) - offset
    omega

example : (TimeZone.ofOffset 0).midnight ⟨1970, 1, 1, by decide, by decide⟩ = 0 := by decide

end LiteMonitor
