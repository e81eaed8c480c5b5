import LiteMonitor.Partition.Maintain

/-!
# Where a row is stored

The rows of the history and trends tables are stored by their clock.  The maintenance makes a
partition for the day, or the month, on which it is called, and on no other; so a row is not always
in the partition of its own day.

* `TimeZone.OnDay z e c` : the clock `c` is on the day `e`.
* `OnDay.daily`, `OnDay.monthly` : its period in the calendars of the tables.
* `rows_placed` : **a row is stored with the first day, or month, of a call that is not before its
  own**, and rejected if there has been none.
-/

namespace LiteMonitor

/-- The clock is on the day, in this time zone. -/
structure TimeZone.OnDay (z : TimeZone) (e : Date) (c : ℤ) : Prop where
  nonneg : 0 ≤ c
  le : z.midnight e ≤ c
  lt : c < z.midnight e.addDay

theorem Date.first_le (e : Date) : e.toMonth.first ≤ e := by
  have hday := e.day_mem
  change (e.year * 12 + e.month) * 32 + 1 ≤ (e.year * 12 + e.month) * 32 + e.day
  omega

namespace TimeZone

variable {z : TimeZone} {e : Date} {c : ℤ}

theorem OnDay.daily (h : z.OnDay e c) : z.daily.In e c := by
  refine ⟨h.nonneg, fun d hd => ?_⟩
  change c < z.unixTimestamp d.addDay ↔ e ≤ d
  rw [hd.tomorrow]
  constructor
  · intro hlt
    by_contra hde
    have hle := midnight_mono (z := z) (Date.addDay_le (not_le.1 hde))
    exact absurd hlt (not_lt.2 (hle.trans h.le))
  · intro hed
    exact lt_of_lt_of_le h.lt (midnight_mono (Date.addDay_strictMono.monotone hed))

theorem OnDay.monthly (h : z.OnDay e c) : z.monthly.In e.toMonth c := by
  refine ⟨h.nonneg, fun m hm => ?_⟩
  change c < z.unixTimestamp m.next.first ↔ e.toMonth ≤ m
  rw [unixTimestamp_of_mem hm]
  constructor
  · intro hlt
    by_contra hme
    -- the month `m` is over on the day `e`
    have hnext : m.next ≤ e.toMonth := by
      have hnumber : m.number < e.toMonth.number := not_le.1 hme
      change m.next.number ≤ e.toMonth.number
      rw [Month.number_next]
      exact hnumber
    have hle := midnight_mono (z := z) ((Date.first_strictMono.monotone hnext).trans e.first_le)
    exact absurd hlt (not_lt.2 (hle.trans h.le))
  · intro hem
    have hfirst := Date.first_strictMono.monotone (Month.next_strictMono.monotone hem)
    exact lt_of_lt_of_le h.lt (midnight_mono (e.addDay_le_first.trans hfirst))

end TimeZone

/-- The partition of the first of the days `ds` that is not before `e`. -/
def DayPart (z : TimeZone) (ds : List Date) (e : Date) (p : Part String ℤ) : Prop :=
  ∃ d ∈ ds, e ≤ d ∧ (∀ d' ∈ ds, e ≤ d' → d ≤ d') ∧
    p = ⟨"p_" ++ dateFormatYmd d, z.midnight d.addDay⟩

/-- The partition of the first month of the days `ds` that is not before the month of `e`. -/
def MonthPart (z : TimeZone) (ds : List Date) (e : Date) (p : Part String ℤ) : Prop :=
  ∃ d ∈ ds, e.toMonth ≤ d.toMonth ∧ (∀ d' ∈ ds, e.toMonth ≤ d'.toMonth → d.toMonth ≤ d'.toMonth) ∧
    p = ⟨"p_" ++ dateFormatYm d, z.midnight d.toMonth.next.first⟩

section Rows

variable {z : TimeZone} {ds : List Date} {e : Date} {c : ℤ} {t : RangeTable String ℤ}
  {p : Part String ℤ}

theorem locate_history (h : z.daily.Tracks ds t) (hfit : ∀ d ∈ ds, z.Fits d) (hc : z.OnDay e c) :
    t.locate c = some p ↔ DayPart z ds e p := by
  rw [h.locate_eq_some_iff hc.daily]
  refine exists_congr fun d => and_congr_right fun hd => ?_
  have hpart : z.daily.part d = ⟨"p_" ++ dateFormatYmd d, z.midnight d.addDay⟩ :=
    congrArg (Part.mk _) (hfit d hd).tomorrow
  rw [hpart]

theorem locate_trends (h : z.monthly.Tracks (ds.map Date.toMonth) t) (hfit : ∀ d ∈ ds, z.Fits d)
    (hc : z.OnDay e c) : t.locate c = some p ↔ MonthPart z ds e p := by
  rw [h.locate_eq_some_iff hc.monthly]
  simp only [List.mem_map, exists_exists_and_eq_and, forall_exists_index, and_imp,
    forall_apply_eq_imp_iff₂]
  refine exists_congr fun d => and_congr_right fun hd => ?_
  have hpart : z.monthly.part d.toMonth =
      ⟨"p_" ++ dateFormatYm d, z.midnight d.toMonth.next.first⟩ :=
    congrArg (Part.mk _) (TimeZone.unixTimestamp_of_mem (hfit d hd).nextMonth)
  rw [hpart]

end Rows

/-- **A row is stored with the first day, or month, of a call that is not before its own**, and is
rejected as long as there has been no such call: for any number of calls at non-decreasing dates,
with gaps, a row of the day `e` goes to the partition of the first of these dates from `e` on, and
in the trends tables to that of the first of their months from the month of `e` on. -/
theorem rows_placed (z : TimeZone) (ds : List Date) (hfit : ∀ d ∈ ds, z.Fits d)
    (hds : ds.Pairwise (· ≤ ·)) :
    ∃ db, ds.foldlM (maintainPartitions z) Database.init = some db ∧
      ∀ e c, z.OnDay e c →
        (∀ t ∈ [db.historyUint, db.historyFloat], ∀ p,
          t.locate c = some p ↔ DayPart z ds e p) ∧
        ∀ t ∈ [db.trendsUint, db.trendsFloat], ∀ p, t.locate c = some p ↔ MonthPart z ds e p := by
  obtain ⟨db, hrun, hdb⟩ := maintained_run (maintained_init z) hfit hds
  rw [List.nil_append] at hdb
  refine ⟨db, hrun, fun e c hc => ⟨?_, ?_⟩⟩
  · simp only [List.forall_mem_cons, List.not_mem_nil, false_imp_iff, implies_true, and_true]
    exact ⟨fun p => locate_history hdb.historyUint hfit hc,
      fun p => locate_history hdb.historyFloat hfit hc⟩
  · simp only [List.forall_mem_cons, List.not_mem_nil, false_imp_iff, implies_true, and_true]
    exact ⟨fun p => locate_trends hdb.trendsUint hfit hc,
      fun p => locate_trends hdb.trendsFloat hfit hc⟩

/-- Nobody calls between the end of 2027 and the leap day: a row of the middle of January is stored
with the leap day, and one of March is rejected. -/
theorem rows_placed_gap :
    ∃ db, [(⟨2027, 12, 31, by decide, by decide⟩ : Date),
        ⟨2028, 2, 29, by decide, by decide⟩].foldlM (maintainPartitions (.ofOffset 28800))
        Database.init = some db ∧
      db.historyUint.locate 1831482000 = some ⟨"p_20280229", 1835366400 + 86400⟩ ∧
      db.historyUint.locate 1835456400 = none := by
  let ds : List Date := [⟨2027, 12, 31, by decide, by decide⟩, ⟨2028, 2, 29, by decide, by decide⟩]
  obtain ⟨db, hrun, hrows⟩ := rows_placed (.ofOffset 28800) ds (by decide) (by decide)
  refine ⟨db, hrun, ?_, ?_⟩
  · have hc : (TimeZone.ofOffset 28800).OnDay ⟨2028, 1, 15, by decide, by decide⟩ 1831482000 :=
      ⟨by decide, by decide, by decide⟩
    refine ((hrows _ _ hc).1 _ List.mem_cons_self _).2 ?_
    exact ⟨⟨2028, 2, 29, by decide, by decide⟩, by decide, by decide, by decide, by decide⟩
  · have hc : (TimeZone.ofOffset 28800).OnDay ⟨2028, 3, 1, by decide, by decide⟩ 1835456400 :=
      ⟨by decide, by decide, by decide⟩
    refine Option.eq_none_iff_forall_ne_some.2 fun p hp => ?_
    obtain ⟨d, hd, hle, -⟩ := ((hrows _ _ hc).1 _ List.mem_cons_self p).1 hp
    exact absurd hle (by revert d; decide)

end LiteMonitor
