import LiteMonitor.Partition.Calendar
import LiteMonitor.Partition.RangeTable

/-!
# Partition maintenance

`maintain_partitions` on the tables of `init.sql`.  The rows, the other tables and `v_today_ts`,
that nothing reads, are left out.

* `maintainTable` : one of the four blocks of the procedure.
* `maintainPartitions` : the procedure; `none` when an `ALTER` is rejected.
* `Maintained` : every table has the partitions of the days, or of the months, so far.
* `maintained_step`, `maintained_run` : one call, and any number of them, keep it.
* `tables_wellPartitioned` : **calls at non-decreasing dates are never rejected and cover every
  clock.**
-/

namespace LiteMonitor

/-! ### The procedure -/

/-- `DATE_FORMAT(d, '%Y%m%d')`. -/
def dateFormatYmd (d : Date) : String := prefill 4 d.year ++ prefill 2 d.month ++ prefill 2 d.day

/-- `DATE_FORMAT(d, '%Y_%m')`. -/
def dateFormatYm (d : Date) : String := prefill 4 d.year ++ "_" ++ prefill 2 d.month

/-- `UNIX_TIMESTAMP(d)`, which is 0 outside of the range of a timestamp. -/
def TimeZone.unixTimestamp (z : TimeZone) (d : Date) : ℤ :=
  if 0 < z.midnight d ∧ z.midnight d < 2 ^ 31 then z.midnight d else 0

/-- `PARTITION p_init VALUES LESS THAN (0)`. -/
def pInit : Part String ℤ := ⟨"p_init", 0⟩

/-- The partitioned tables of `lite_monitor`. -/
structure Database where
  historyUint : RangeTable String ℤ
  historyFloat : RangeTable String ℤ
  trendsUint : RangeTable String ℤ
  trendsFloat : RangeTable String ℤ

/-- The tables that `init.sql` creates. -/
def Database.init : Database :=
  ⟨.single pInit, .single pInit, .single pInit, .single pInit⟩

/-- The block for one table: the partition is counted by its name, and added if there is none. -/
def maintainTable (t : RangeTable String ℤ) (v : String) (ts : ℤ) :
    Option (RangeTable String ℤ) :=
  let vCnt := t.parts.countP (·.name = "p_" ++ v)
  if vCnt = 0 then t.addPartition ⟨"p_" ++ v, ts⟩ else some t

/-- `maintain_partitions()` on the date `curdate`. -/
def maintainPartitions (z : TimeZone) (db : Database) (curdate : Date) : Option Database := do
  let vToday := dateFormatYmd curdate
  let vTomorrowTs := z.unixTimestamp curdate.addDay
  let vMonth := dateFormatYm curdate
  let vNextMonthTs := z.unixTimestamp curdate.addMonth.firstOfMonth
  let historyUint ← maintainTable db.historyUint vToday vTomorrowTs
  let historyFloat ← maintainTable db.historyFloat vToday vTomorrowTs
  let trendsUint ← maintainTable db.trendsUint vMonth vNextMonthTs
  let trendsFloat ← maintainTable db.trendsFloat vMonth vNextMonthTs
  return ⟨historyUint, historyFloat, trendsUint, trendsFloat⟩

/-- The block is `RangeTable.ensure`. -/
theorem maintainTable_eq (t : RangeTable String ℤ) (v : String) (ts : ℤ) :
    maintainTable t v ts = t.ensure ⟨"p_" ++ v, ts⟩ := by
  have hcount : t.parts.countP (·.name = "p_" ++ v) = 0 ↔ "p_" ++ v ∉ t.parts.map Part.name := by
    rw [List.countP_eq_zero, List.mem_map]
    simp
  unfold maintainTable RangeTable.ensure
  by_cases h : "p_" ++ v ∈ t.parts.map Part.name
  · rw [if_neg (fun h0 => hcount.1 h0 h), if_pos h]
  · rw [if_pos (hcount.2 h), if_neg h]

/-! ### The names -/

theorem append_prefill_inj {s s' : String} {n n' : ℕ} (hn : n < 100) (hn' : n' < 100)
    (h : s ++ prefill 2 n = s' ++ prefill 2 n') : s = s' ∧ n = n' := by
  have hlist : s.toList ++ (prefill 2 n).toList = s'.toList ++ (prefill 2 n').toList := by
    rw [← String.toList_append, ← String.toList_append, h]
  have hlength : (prefill 2 n).toList.length = (prefill 2 n').toList.length := by
    rw [String.length_toList, String.length_toList, length_prefill (by decide) hn,
      length_prefill (by decide) hn']
  obtain ⟨hs, hp⟩ := List.append_inj' hlist hlength
  exact ⟨String.toList_inj.1 hs, prefill_injective 2 (String.toList_inj.1 hp)⟩

theorem dateFormatYmd_injective : Function.Injective dateFormatYmd := by
  intro d e h
  have hd := d.day_le
  have he := e.day_le
  have hdm := d.month_mem
  have hem := e.month_mem
  obtain ⟨hrest, hday⟩ := append_prefill_inj (by omega) (by omega) h
  obtain ⟨hyear, hmonth⟩ := append_prefill_inj (by omega) (by omega) hrest
  have hyear' := prefill_injective 4 hyear
  apply Date.key_injective
  unfold Date.key
  rw [hyear', hmonth, hday]

theorem dateFormatYm_injective : Function.Injective fun m : Month => dateFormatYm m.first := by
  intro m m' h
  have hm := m.month_mem
  have hm' := m'.month_mem
  have hmonths : m.month < 100 ∧ m'.month < 100 := by omega
  obtain ⟨hrest, hmonth⟩ := append_prefill_inj hmonths.1 hmonths.2 h
  have hyear : m.year = m'.year := prefill_injective 4 ((String.append_left_inj "_").1 hrest)
  apply Month.number_injective
  unfold Month.number
  rw [hyear, hmonth]

theorem four_lt_length_dateFormatYmd (d : Date) : 4 < (dateFormatYmd d).length := by
  have hyear := le_length_prefill 4 d.year
  have hday := le_length_prefill 2 d.day
  unfold dateFormatYmd
  rw [String.length_append, String.length_append]
  omega

theorem four_lt_length_dateFormatYm (d : Date) : 4 < (dateFormatYm d).length := by
  have hyear := le_length_prefill 4 d.year
  have hmonth := le_length_prefill 2 d.month
  unfold dateFormatYm
  rw [String.length_append, String.length_append]
  omega

theorem concat_ne_pInit {v : String} (h : 4 < v.length) : "p_" ++ v ≠ pInit.name := by
  intro heq
  have hlength := congrArg String.length heq
  have hinit : pInit.name.length = 6 := rfl
  have hp : "p_".length = 2 := rfl
  rw [String.length_append, hinit, hp] at hlength
  omega

/-! ### The calendars of the tables -/

/-- The timestamps that a call at `d` computes are in range. -/
def TimeZone.Fits (z : TimeZone) (d : Date) : Prop :=
  0 < z.midnight d.addDay ∧ z.midnight d.toMonth.next.first < 2 ^ 31

instance (z : TimeZone) (d : Date) : Decidable (z.Fits d) :=
  inferInstanceAs (Decidable (_ ∧ _))

namespace TimeZone

variable {z : TimeZone} {d e : Date}

theorem midnight_mono (h : d ≤ e) : z.midnight d ≤ z.midnight e := by
  obtain rfl | hlt := eq_or_lt_of_le h
  · exact le_rfl
  · exact (z.midnight_lt hlt).le

theorem unixTimestamp_of_mem (h : 0 < z.midnight d ∧ z.midnight d < 2 ^ 31) :
    z.unixTimestamp d = z.midnight d := if_pos h

theorem Fits.tomorrow (h : z.Fits d) : z.unixTimestamp d.addDay = z.midnight d.addDay :=
  unixTimestamp_of_mem ⟨h.1, lt_of_le_of_lt (midnight_mono d.addDay_le_first) h.2⟩

theorem Fits.nextMonth (h : z.Fits d) :
    0 < z.midnight d.toMonth.next.first ∧ z.midnight d.toMonth.next.first < 2 ^ 31 :=
  ⟨lt_of_lt_of_le h.1 (midnight_mono d.addDay_le_first), h.2⟩

/-- Each day has its partition in the history tables. -/
def daily (z : TimeZone) : Schedule Date String ℤ where
  part d := ⟨"p_" ++ dateFormatYmd d, z.unixTimestamp d.addDay⟩
  first := pInit
  valid := {d | z.Fits d}
  name_injective := by
    intro d e h
    exact dateFormatYmd_injective ((String.append_right_inj "p_").1 h)
  name_ne d := concat_ne_pInit (four_lt_length_dateFormatYmd d)
  bound_strictMono := by
    intro d hd e he h
    show z.unixTimestamp d.addDay < z.unixTimestamp e.addDay
    rw [Fits.tomorrow hd, Fits.tomorrow he]
    exact z.midnight_lt (Date.addDay_strictMono h)
  first_lt := by
    intro d hd
    show 0 < z.unixTimestamp d.addDay
    rw [Fits.tomorrow hd]
    exact hd.1

/-- Each month has its partition in the trends tables. -/
def monthly (z : TimeZone) : Schedule Month String ℤ where
  part m := ⟨"p_" ++ dateFormatYm m.first, z.unixTimestamp m.next.first⟩
  first := pInit
  valid := {m | 0 < z.midnight m.next.first ∧ z.midnight m.next.first < 2 ^ 31}
  name_injective := by
    intro m m' h
    exact dateFormatYm_injective ((String.append_right_inj "p_").1 h)
  name_ne m := concat_ne_pInit (four_lt_length_dateFormatYm m.first)
  bound_strictMono := by
    intro m hm m' hm' h
    show z.unixTimestamp m.next.first < z.unixTimestamp m'.next.first
    rw [unixTimestamp_of_mem hm, unixTimestamp_of_mem hm']
    exact z.midnight_lt (Date.first_strictMono (Month.next_strictMono h))
  first_lt := by
    intro m hm
    show 0 < z.unixTimestamp m.next.first
    rw [unixTimestamp_of_mem hm]
    exact hm.1

end TimeZone

/-! ### Calls -/

/-- After calls at the dates `ds`, each table has the partitions of their days or months. -/
structure Maintained (z : TimeZone) (ds : List Date) (db : Database) : Prop where
  historyUint : z.daily.Tracks ds db.historyUint
  historyFloat : z.daily.Tracks ds db.historyFloat
  trendsUint : z.monthly.Tracks (ds.map Date.toMonth) db.trendsUint
  trendsFloat : z.monthly.Tracks (ds.map Date.toMonth) db.trendsFloat

section Calls

variable {z : TimeZone} {ds es : List Date} {db : Database} {d : Date}

theorem maintained_init (z : TimeZone) : Maintained z [] Database.init :=
  ⟨z.daily.tracks_nil, z.daily.tracks_nil, z.monthly.tracks_nil, z.monthly.tracks_nil⟩

theorem maintainPartitions_eq_some {db' : Database}
    (h₁ : db.historyUint.ensure (z.daily.part d) = some db'.historyUint)
    (h₂ : db.historyFloat.ensure (z.daily.part d) = some db'.historyFloat)
    (h₃ : db.trendsUint.ensure (z.monthly.part d.toMonth) = some db'.trendsUint)
    (h₄ : db.trendsFloat.ensure (z.monthly.part d.toMonth) = some db'.trendsFloat) :
    maintainPartitions z db d = some db' := by
  have hmonth : (⟨"p_" ++ dateFormatYm d, z.unixTimestamp d.addMonth.firstOfMonth⟩ :
      Part String ℤ) = z.monthly.part d.toMonth := by
    rw [Date.firstOfMonth_addMonth]
    rfl
  have hday : (⟨"p_" ++ dateFormatYmd d, z.unixTimestamp d.addDay⟩ : Part String ℤ) =
      z.daily.part d := rfl
  unfold maintainPartitions
  simp only [maintainTable_eq, hday, hmonth, h₁, h₂, h₃, h₄]
  rfl

/-- A call at a date that is not before the others is not rejected. -/
theorem maintained_step (h : Maintained z ds db) (hd : z.Fits d) (hle : ∀ e ∈ ds, e ≤ d) :
    ∃ db', maintainPartitions z db d = some db' ∧ Maintained z (ds ++ [d]) db' := by
  have hle' : ∀ m ∈ ds.map Date.toMonth, m ≤ d.toMonth := by
    intro m hm
    obtain ⟨e, he, rfl⟩ := List.mem_map.1 hm
    exact Date.toMonth_mono (hle e he)
  obtain ⟨t₁, h₁, ht₁⟩ := h.historyUint.ensure hd hle
  obtain ⟨t₂, h₂, ht₂⟩ := h.historyFloat.ensure hd hle
  obtain ⟨t₃, h₃, ht₃⟩ := h.trendsUint.ensure hd.nextMonth hle'
  obtain ⟨t₄, h₄, ht₄⟩ := h.trendsFloat.ensure hd.nextMonth hle'
  refine ⟨⟨t₁, t₂, t₃, t₄⟩, maintainPartitions_eq_some h₁ h₂ h₃ h₄, ht₁, ht₂, ?_, ?_⟩
  · rw [List.map_append]
    exact ht₃
  · rw [List.map_append]
    exact ht₄

/-- **Calls at non-decreasing dates are not rejected.** -/
theorem maintained_run (h : Maintained z es db) (hfit : ∀ d ∈ ds, z.Fits d)
    (hds : (es ++ ds).Pairwise (· ≤ ·)) :
    ∃ db', ds.foldlM (maintainPartitions z) db = some db' ∧ Maintained z (es ++ ds) db' := by
  induction ds generalizing es db with
  | nil => exact ⟨db, rfl, by rwa [List.append_nil]⟩
  | cons d ds ih =>
    have hle : ∀ e ∈ es, e ≤ d := by
      intro e he
      exact (List.pairwise_append.1 hds).2.2 e he d List.mem_cons_self
    obtain ⟨db₁, h₁, hdb₁⟩ := maintained_step h (hfit d List.mem_cons_self) hle
    rw [List.append_cons] at hds ⊢
    obtain ⟨db', h', hdb'⟩ := ih hdb₁ (fun e he => hfit e (List.mem_cons_of_mem _ he)) hds
    refine ⟨db', ?_, hdb'⟩
    rw [List.foldlM_cons, h₁]
    exact h'

theorem Maintained.again (h : Maintained z ds db) (hd : d ∈ ds) :
    maintainPartitions z db d = some db :=
  have hm := List.mem_map_of_mem (f := Date.toMonth) hd
  maintainPartitions_eq_some (h.historyUint.ensure_eq hd) (h.historyFloat.ensure_eq hd)
    (h.trendsUint.ensure_eq hm) (h.trendsFloat.ensure_eq hm)

theorem Maintained.covers_day {t : RangeTable String ℤ} {c : ℤ} (h : z.daily.Tracks ds t)
    (hd : d ∈ ds) (hfit : z.Fits d) (hc : c < z.midnight d.addDay) : ∃! p, t.Belongs c p := by
  refine h.existsUnique_belongs hd ?_
  show c < z.unixTimestamp d.addDay
  rwa [hfit.tomorrow]

theorem Maintained.covers_month {t : RangeTable String ℤ} {c : ℤ}
    (h : z.monthly.Tracks (ds.map Date.toMonth) t) (hd : d ∈ ds) (hfit : z.Fits d)
    (hc : c < z.midnight d.toMonth.next.first) : ∃! p, t.Belongs c p := by
  refine h.existsUnique_belongs (List.mem_map_of_mem hd) ?_
  show c < z.unixTimestamp d.toMonth.next.first
  rwa [TimeZone.unixTimestamp_of_mem hfit.nextMonth]

end Calls

/-- The bounds increase and the names are distinct. -/
def RangeTable.WellPartitioned (t : RangeTable String ℤ) : Prop :=
  (t.parts.map Part.bound).Pairwise (· < ·) ∧ (t.parts.map Part.name).Nodup

theorem RangeTable.wellPartitioned (t : RangeTable String ℤ) : t.WellPartitioned :=
  ⟨List.pairwise_map.2 t.increasing, t.nodup⟩

/-- **Calls at non-decreasing dates keep the tables well partitioned:** none is rejected, a
repeated one changes nothing, and after each the clocks until the end of its day, or of its month,
are in exactly one partition. -/
theorem tables_wellPartitioned (z : TimeZone) (ds : List Date) (hfit : ∀ d ∈ ds, z.Fits d)
    (hds : ds.Pairwise (· ≤ ·)) :
    ∃ db, ds.foldlM (maintainPartitions z) Database.init = some db ∧
      (db.historyUint.WellPartitioned ∧ db.historyFloat.WellPartitioned ∧
        db.trendsUint.WellPartitioned ∧ db.trendsFloat.WellPartitioned) ∧
      ∀ d ∈ ds, maintainPartitions z db d = some db ∧
        (∀ c < z.midnight d.addDay,
          (∃! p, db.historyUint.Belongs c p) ∧ ∃! p, db.historyFloat.Belongs c p) ∧
        ∀ c < z.midnight d.toMonth.next.first,
          (∃! p, db.trendsUint.Belongs c p) ∧ ∃! p, db.trendsFloat.Belongs c p := by
  obtain ⟨db, hrun, hdb⟩ := maintained_run (maintained_init z) hfit hds
  refine ⟨db, hrun, ⟨RangeTable.wellPartitioned _, RangeTable.wellPartitioned _,
    RangeTable.wellPartitioned _, RangeTable.wellPartitioned _⟩, ?_⟩
  intro d hd
  refine ⟨hdb.again hd, ?_, ?_⟩
  · intro c hc
    exact ⟨Maintained.covers_day hdb.historyUint hd (hfit d hd) hc,
      Maintained.covers_day hdb.historyFloat hd (hfit d hd) hc⟩
  · intro c hc
    exact ⟨Maintained.covers_month hdb.trendsUint hd (hfit d hd) hc,
      Maintained.covers_month hdb.trendsFloat hd (hfit d hd) hc⟩

/-- A month without a 31st, a leap day and the end of a year, eight hours ahead of UTC. -/
theorem tables_wellPartitioned_leapDay :
    ∃ db, [(⟨2027, 12, 31, by decide, by decide⟩ : Date), ⟨2028, 1, 31, by decide, by decide⟩,
        ⟨2028, 1, 31, by decide, by decide⟩, ⟨2028, 2, 29, by decide, by decide⟩].foldlM
          (maintainPartitions (.ofOffset 28800)) Database.init = some db ∧
      ∃! p, db.historyUint.Belongs 1835400000 p := by
  obtain ⟨db, hrun, -, hdates⟩ := tables_wellPartitioned (.ofOffset 28800)
    [⟨2027, 12, 31, by decide, by decide⟩, ⟨2028, 1, 31, by decide, by decide⟩,
      ⟨2028, 1, 31, by decide, by decide⟩, ⟨2028, 2, 29, by decide, by decide⟩]
    (by decide) (by decide)
  have hlast := hdates ⟨2028, 2, 29, by decide, by decide⟩ (by decide)
  exact ⟨db, hrun, (hlast.2.1 1835400000 (by decide)).1⟩

end LiteMonitor
