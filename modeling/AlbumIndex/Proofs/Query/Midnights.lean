import AlbumIndex.Proofs.Calendar.Civil
import AlbumIndex.Proofs.Calendar.Reading
import AlbumIndex.Proofs.Outcomes
import AlbumIndex.Query.Node

/-!
# The ends of the periods that tokens name

Whatever text is taken for a date, its period runs between two local midnights, and the calendar has
both of them.  A year, a range of years and a month look for the second midnight as they look for the
first, and name no period if the calendar does not have it.  A day counts on from its midnight
instead.  So the only date that fails is the last day of the calendar, wherever local time is not
ahead of UTC: its end is the first instant after the calendar.

## Main definitions

* `Span.ofDays` — the span between two local midnights.
* `Span.InCalendar` — the calendar has both ends of a span.
* `dateLeaves` — the conditions that read their token as a date.
* `Scope.DateLeaves` — what these conditions come to.

## Main results

* `yearsBetween?_eq_some_iff`, `monthFrom?_eq_some_iff`, `dayPeriod_eq_some_iff` — **the periods of
  all texts.**
* `dayPeriod_eq_error_iff` — which day fails.
* `date_leaves_in_calendar` — **a date names a period of the calendar or none**, but for one day.
-/

namespace AlbumIndex

namespace Calendar

/-- The span from the beginning of one local day to that of another. -/
def Span.ofDays (offset : Offset) (first next : Int) : Span :=
  ⟨localMidnight offset first, localMidnight offset next⟩

/-- The calendar has both ends of the span. -/
structure Span.InCalendar (s : Span) : Prop where
  start_mem : Instant.InRange s.start.seconds
  stop_mem : Instant.InRange s.stop.seconds

theorem Span.inCalendar_ofDays_iff {offset : Offset} {first next : Int} :
    (ofDays offset first next).InCalendar ↔
      Instant.InRange (localMidnight offset first).seconds ∧
        Instant.InRange (localMidnight offset next).seconds :=
  ⟨fun h => ⟨h.start_mem, h.stop_mem⟩, fun h => ⟨h.1, h.2⟩⟩

/-- The days of the calendar begin in it, but for the first where local time is ahead of UTC; there the
day after the last begins in it too. -/
theorem inRange_localMidnight_iff {offset : Offset} {day : Int} :
    Instant.InRange (localMidnight offset day).seconds ↔
      dayOf minYear 1 1 * 86400 + offset.seconds ≤ day * 86400 ∧
        day * 86400 < dayOf (maxYear + 1) 1 1 * 86400 + offset.seconds := by
  have hmin := Instant.minSeconds_eq
  have hmax := Instant.maxSeconds_succ_eq
  simp only [Instant.secondsPerDay] at hmin hmax
  simp only [Instant.InRange, localMidnight, Instant.ofSeconds, Instant.secondsPerDay]
  omega

end Calendar

namespace Query

open Calendar Text

variable {offset : Offset} {token : String} {span : Span}

/-! ### Years -/

/-- A year has a beginning if the calendar has the year and the midnight. -/
theorem yearStart?_eq_some_iff {year : Int} {t : Instant} :
    yearStart? offset year = some t ↔ (minYear ≤ year ∧ year ≤ maxYear) ∧
      Instant.InRange (localMidnight offset (dayOf year 1 1)).seconds ∧
        t = localMidnight offset (dayOf year 1 1) := by
  have hstart : ∀ d, Date.startOfYear? year = some d → d.dayNumber = dayOf year 1 1 := by
    intro d hd
    obtain ⟨hy, hm, hd⟩ := Date.of?_eq_some_iff.1 hd
    rw [Date.dayNumber_eq, hy, hm, hd]
  rw [yearStart?, Option.bind_eq_some_iff]
  constructor
  · rintro ⟨d, hd, hmidnight⟩
    obtain ⟨hyear, -, -⟩ := Date.of?_eq_some_iff.1 hd
    rw [Offset.midnight?_eq_some_iff, hstart d hd] at hmidnight
    exact ⟨hyear ▸ d.year_mem, hmidnight⟩
  · rintro ⟨hyear, hmidnight⟩
    obtain ⟨d, hd⟩ := Date.exists_of? hyear (by decide)
      ⟨Nat.le_refl 1, one_le_daysInMonth year 1⟩
    refine ⟨d, hd, ?_⟩
    rwa [Offset.midnight?_eq_some_iff, hstart d hd]

/-- **The period between two years** begins and ends with midnights of the calendar. -/
theorem yearsBetween?_eq_some_iff {first next : Int} :
    yearsBetween? offset first next = some span ↔
      ((minYear ≤ first ∧ first ≤ maxYear) ∧ minYear ≤ next ∧ next ≤ maxYear) ∧
        span = .ofDays offset (dayOf first 1 1) (dayOf next 1 1) ∧ span.InCalendar := by
  simp only [yearsBetween?, Option.bind_eq_bind, Option.bind_eq_some_iff, Option.pure_def,
    Option.some.injEq, yearStart?_eq_some_iff]
  constructor
  · rintro ⟨start, ⟨hfirst, hstart, rfl⟩, stop, ⟨hnext, hstop, rfl⟩, rfl⟩
    exact ⟨⟨hfirst, hnext⟩, rfl, hstart, hstop⟩
  · rintro ⟨⟨hfirst, hnext⟩, rfl, hstart, hstop⟩
    exact ⟨_, ⟨hfirst, hstart, rfl⟩, _, ⟨hnext, hstop, rfl⟩, rfl⟩

/-- A year that has a next one. -/
theorem yearPeriod?_midnights :
    yearPeriod? offset token = some span ↔
      ∃ y, readYear? token.toList = some y ∧ (minYear ≤ y ∧ y < maxYear) ∧
        span = .ofDays offset (dayOf y 1 1) (dayOf (y + 1) 1 1) ∧ span.InCalendar := by
  simp only [yearPeriod?, Option.bind_eq_bind, Option.bind_eq_some_iff, yearsBetween?_eq_some_iff]
  refine exists_congr fun y => and_congr_right fun _ => and_congr_left fun _ => ?_
  omega

/-- Two years, in either order. -/
theorem yearRangePeriod?_midnights :
    yearRangePeriod? offset token = some span ↔
      ∃ ys zs y z, cutAt? ['-', '-'] token.toList = some (ys, zs) ∧
        readYear? ys = some y ∧ readYear? zs = some z ∧
        ((minYear ≤ y ∧ y ≤ maxYear) ∧ minYear ≤ z ∧ z ≤ maxYear) ∧
        span = .ofDays offset (dayOf y 1 1) (dayOf z 1 1) ∧ span.InCalendar := by
  simp only [yearRangePeriod?, Option.bind_eq_bind, Option.bind_eq_some_iff, Prod.exists,
    yearsBetween?_eq_some_iff]
  constructor
  · rintro ⟨ys, zs, hcut, y, hy, z, hz, hspan⟩
    exact ⟨ys, zs, y, z, hcut, hy, hz, hspan⟩
  · rintro ⟨ys, zs, y, z, hcut, hy, hz, hspan⟩
    exact ⟨ys, zs, hcut, y, hy, z, hz, hspan⟩

/-! ### Months -/

/-- The span from one date up to the same day of the following month. -/
def monthFrom? (offset : Offset) (first : Date) : Option Span := do
  let next ← first.nextMonth?
  let start ← offset.midnight? first
  let stop ← offset.midnight? next
  return ⟨start, stop⟩

/-- **The period of a month** ends where the next month begins. -/
theorem monthFrom?_eq_some_iff {first : Date} (h : first.day = 1) :
    monthFrom? offset first = some span ↔ (first.year < maxYear ∨ first.month < 12) ∧
      span = .ofDays offset first.dayNumber
        (first.dayNumber + daysInMonth first.year first.month) ∧ span.InCalendar := by
  simp only [monthFrom?, Option.bind_eq_bind, Option.bind_eq_some_iff, Option.pure_def,
    Option.some.injEq, Offset.midnight?_eq_some_iff]
  constructor
  · rintro ⟨next, hnext, start, ⟨hstart, rfl⟩, stop, ⟨hstop, rfl⟩, rfl⟩
    have hlater := Date.exists_nextMonth?_iff.1 ⟨next, hnext⟩
    rw [← (Date.nextMonth?_eq_some_iff h).1 hnext]
    exact ⟨hlater, rfl, hstart, hstop⟩
  · rintro ⟨hlater, rfl, hstart, hstop⟩
    obtain ⟨next, hnext⟩ := Date.exists_nextMonth?_iff.2 hlater
    have hnumber := (Date.nextMonth?_eq_some_iff h).1 hnext
    rw [← hnumber] at hstop ⊢
    exact ⟨next, hnext, _, ⟨hstart, rfl⟩, _, ⟨hstop, rfl⟩, rfl⟩

theorem monthPeriod?_midnights :
    monthPeriod? offset token = some span ↔
      ∃ first, readDate? isoPattern (token.toList ++ "-01".toList) = some first ∧
        (first.year < maxYear ∨ first.month < 12) ∧
        span = .ofDays offset first.dayNumber
          (first.dayNumber + daysInMonth first.year first.month) ∧ span.InCalendar := by
  have hperiod : monthPeriod? offset token =
      (readDate? isoPattern (token.toList ++ "-01".toList)).bind (monthFrom? offset) := rfl
  rw [hperiod, Option.bind_eq_some_iff]
  refine exists_congr fun first => and_congr_right fun hread => ?_
  exact monthFrom?_eq_some_iff (day_eq_one_of_readDate? hread)

/-! ### Days -/

/-- What a text comes to that is read as a day. -/
theorem dayPeriod_eq_of_readDate? {d : Date} (h : readDate? isoPattern token.toList = some d) :
    dayPeriod offset token =
      if Instant.InRange (localMidnight offset d.dayNumber).seconds then
        if Instant.InRange (localMidnight offset (d.dayNumber + 1)).seconds
        then .ok (some (.ofDays offset d.dayNumber (d.dayNumber + 1)))
        else .error ⟨(localMidnight offset (d.dayNumber + 1)).seconds⟩
      else .ok none := by
  rw [dayPeriod, h, Option.bind_some]
  by_cases hstart : Instant.InRange (localMidnight offset d.dayNumber).seconds
  · rw [if_pos hstart, Offset.midnight?_eq_some_iff.2 ⟨hstart, rfl⟩]
    dsimp only
    rw [addSeconds_localMidnight]
    split <;> rfl
  · have hnone : offset.midnight? d = none := if_neg hstart
    rw [if_neg hstart, hnone]

theorem dayPeriod_eq_of_readDate?_eq_none (h : readDate? isoPattern token.toList = none) :
    dayPeriod offset token = .ok none := by
  rw [dayPeriod, h]
  rfl

/-- **The period of a day** ends a day after it began. -/
theorem dayPeriod_eq_some_iff :
    dayPeriod offset token = .ok (some span) ↔
      ∃ d, readDate? isoPattern token.toList = some d ∧
        span = .ofDays offset d.dayNumber (d.dayNumber + 1) ∧ span.InCalendar := by
  cases hread : readDate? isoPattern token.toList with
  | none => simp [dayPeriod_eq_of_readDate?_eq_none hread]
  | some d =>
    rw [dayPeriod_eq_of_readDate? hread]
    simp only [Option.some.injEq, exists_eq_left']
    constructor
    · intro h
      split at h
      · next hstart =>
        split at h
        · next hstop =>
          obtain rfl := Option.some.inj (Except.ok.inj h)
          exact ⟨rfl, hstart, hstop⟩
        · cases h
      · cases h
    · rintro ⟨rfl, hspan⟩
      obtain ⟨hstart, hstop⟩ := Span.inCalendar_ofDays_iff.1 hspan
      rw [if_pos hstart, if_pos hstop]

/-- **The one day that fails** is the last of the calendar, unless local time is ahead of UTC. -/
theorem dayPeriod_eq_error_iff :
    (∃ e, dayPeriod offset token = .error e) ↔
      readDate? isoPattern token.toList = some .last ∧ offset.seconds ≤ 0 := by
  cases hread : readDate? isoPattern token.toList with
  | none => simp [dayPeriod_eq_of_readDate?_eq_none hread]
  | some d =>
    have hbounds := d.dayNumber_bounds
    have hoffset := offset.seconds_mem
    rw [dayPeriod_eq_of_readDate? hread, Option.some.injEq, Date.eq_last_iff]
    simp only [inRange_localMidnight_iff]
    split
    · split
      · simp only [reduceCtorEq, exists_false, false_iff]
        omega
      · simp only [Except.error.injEq, exists_eq', true_iff]
        omega
    · simp only [reduceCtorEq, exists_false, false_iff]
      omega

/-! ### Leaves -/

/-- The conditions that read a token as a date. -/
def dateLeaves (token : String) : List Node :=
  [.year token, .yearRange token, .month token, .day token]

/-- What the conditions on dates come to for a token. -/
structure Scope.DateLeaves (s : Scope) (token : String) : Prop where
  /-- A year runs up to the next one. -/
  year : ∀ span, yearPeriod? s.offset token = some span ↔
    ∃ y, readYear? token.toList = some y ∧ (minYear ≤ y ∧ y < maxYear) ∧
      span = .ofDays s.offset (dayOf y 1 1) (dayOf (y + 1) 1 1) ∧ span.InCalendar
  /-- The number of the next year is only asked for where it is one of 32 bits. -/
  next_year : ∀ y start, yearStart? s.offset y = some start → y + 1 ≤ 2147483647
  /-- A range of years runs from the beginning of the first to that of the second. -/
  yearRange : ∀ span, yearRangePeriod? s.offset token = some span ↔
    ∃ ys zs y z, cutAt? ['-', '-'] token.toList = some (ys, zs) ∧
      readYear? ys = some y ∧ readYear? zs = some z ∧
      ((minYear ≤ y ∧ y ≤ maxYear) ∧ minYear ≤ z ∧ z ≤ maxYear) ∧
      span = .ofDays s.offset (dayOf y 1 1) (dayOf z 1 1) ∧ span.InCalendar
  /-- A month runs through all of its days. -/
  month : ∀ span, monthPeriod? s.offset token = some span ↔
    ∃ first, readDate? isoPattern (token.toList ++ "-01".toList) = some first ∧
      (first.year < maxYear ∨ first.month < 12) ∧
      span = .ofDays s.offset first.dayNumber
        (first.dayNumber + daysInMonth first.year first.month) ∧ span.InCalendar
  /-- A day runs up to the next one. -/
  day : ∀ span, dayPeriod s.offset token = .ok (some span) ↔
    ∃ d, readDate? isoPattern token.toList = some d ∧
      span = .ofDays s.offset d.dayNumber (d.dayNumber + 1) ∧ span.InCalendar
  /-- Only the last day of the calendar fails, unless local time is ahead of UTC. -/
  fails_iff : ∀ node ∈ dateLeaves token, (∃ e, node.open s = .error e) ↔
    node = .day token ∧ readDate? isoPattern token.toList = some .last ∧ s.offset.seconds ≤ 0
  /-- What does not fail is without a cursor, or looks through the images for a span of the
  calendar. -/
  opens : ∀ node ∈ dateLeaves token, ∀ c, node.open s = .ok c →
    c = none ∨ ∃ span : Span, span.InCalendar ∧
      c = some (s.scan fun image => span.contains image.itemTime)

/-- A condition on a period is without a cursor, or looks through the images for it. -/
theorem Scope.period_eq {s : Scope} {period : Option Span}
    (h : ∀ span, period = some span → span.InCalendar) :
    s.period period = none ∨ ∃ span : Span, span.InCalendar ∧
      s.period period = some (s.scan fun image => span.contains image.itemTime) := by
  cases period with
  | none => exact .inl rfl
  | some span => exact .inr ⟨span, h span rfl, rfl⟩

/-- **A date names a period of the calendar or none**, whatever the text and wherever local time is,
but for one day: the last of the calendar has no end where local time is not ahead of UTC. -/
theorem date_leaves_in_calendar (s : Scope) (token : String) : s.DateLeaves token := by
  constructor
  case year => exact fun _ => yearPeriod?_midnights
  case next_year =>
    intro y start hstart
    obtain ⟨⟨-, hle⟩, -⟩ := yearStart?_eq_some_iff.1 hstart
    unfold maxYear at hle
    omega
  case yearRange => exact fun _ => yearRangePeriod?_midnights
  case month => exact fun _ => monthPeriod?_midnights
  case day => exact fun _ => dayPeriod_eq_some_iff
  case fails_iff =>
    simp only [dateLeaves, List.forall_mem_cons]
    refine ⟨?year, ?yearRange, ?month, ?day, nofun⟩
    case year | yearRange | month => simp [Node.open]
    case day =>
      rw [Node.open, exists_map_eq_error_iff, dayPeriod_eq_error_iff]
      simp
  case opens =>
    simp only [dateLeaves, List.forall_mem_cons]
    refine ⟨?year, ?yearRange, ?month, ?day, nofun⟩
    case year =>
      rintro c ⟨⟩
      refine Scope.period_eq fun span hspan => ?_
      obtain ⟨-, -, -, -, hin⟩ := yearPeriod?_midnights.1 hspan
      exact hin
    case yearRange =>
      rintro c ⟨⟩
      refine Scope.period_eq fun span hspan => ?_
      obtain ⟨-, -, -, -, -, -, -, -, -, hin⟩ := yearRangePeriod?_midnights.1 hspan
      exact hin
    case month =>
      rintro c ⟨⟩
      refine Scope.period_eq fun span hspan => ?_
      obtain ⟨-, -, -, -, hin⟩ := monthPeriod?_midnights.1 hspan
      exact hin
    case day =>
      intro c hc
      obtain ⟨period, hperiod, rfl⟩ := map_eq_ok_iff.1 hc
      refine Scope.period_eq fun span hspan => ?_
      obtain ⟨-, -, -, hin⟩ := dayPeriod_eq_some_iff.1 (hspan ▸ hperiod)
      exact hin

/-- The last day of the calendar is read and begins in the calendar.  Its end is not looked for, but
counted, and so the condition fails on every catalog. -/
theorem last_day_fails :
    readDate? isoPattern "+262142-12-31".toList = some .last ∧
      Instant.InRange (localMidnight .utc Date.last.dayNumber).seconds ∧
      ∀ catalog, (Node.day "+262142-12-31").open ⟨catalog, .ranked, .utc⟩ =
        .error ⟨Instant.maxSeconds + 1⟩ := by
  have hday : dayPeriod .utc "+262142-12-31" = .error ⟨Instant.maxSeconds + 1⟩ := by rfl
  refine ⟨by decide, by decide, fun catalog => ?_⟩
  rw [Node.open, hday]
  rfl

/-- The last month of the calendar has no end in it either, and is no period. -/
example : monthPeriod? .utc "+262142-12" = none := by rfl

end Query
end AlbumIndex
