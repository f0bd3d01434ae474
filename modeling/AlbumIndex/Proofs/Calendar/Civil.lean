import AlbumIndex.Calendar.Instant

/-!
# Day numbers and dates

A day number and the date written for it determine each other.  The years partition the day numbers,
each from its first of January up to the next; inside a year the months do the same, and inside a
month the days.  A guess at the year from the mean length of a year is never more than one year off,
which is what the reading of a day number rests on.

## Main definitions

* `dayOf` — the number of a day given by year, month and day.
* `Date.last` — the last day of the calendar.
* `monthLater` — the month after a month.
* `localDate` — the date of an instant at a fixed offset from UTC.
* `localMidnight` — the instant at which a day begins there.

## Main results

* `civil_eq_iff` — **the reading of a day number is the date of that day**, and of no other.
* `civil_year_eq_iff`, `civil_month_eq_iff` — the days of a year, and those of a month.
* `Date.nextMonth?_eq_some_iff` — the first of the following month.
* `Offset.midnight?_eq_some_iff`, `addSeconds_localMidnight` — which days begin and end in the
  calendar.
* `Span.contains_midnights` — the instants between two local midnights.
-/

namespace AlbumIndex
namespace Calendar

/-! ### Years -/

/-- The days of a year. -/
def daysInYear (year : Int) : Int := if isLeap year then 366 else 365

theorem isLeap_iff (year : Int) :
    isLeap year = true ↔ year % 4 = 0 ∧ (year % 100 ≠ 0 ∨ year % 400 = 0) := by
  simp [isLeap]

theorem daysBeforeYear_succ (year : Int) :
    daysBeforeYear (year + 1) = daysBeforeYear year + daysInYear year := by
  have hleap := isLeap_iff year
  unfold daysBeforeYear daysInYear
  split
  · next h =>
    have := hleap.1 h
    omega
  · next h =>
    have : ¬ (year % 4 = 0 ∧ (year % 100 ≠ 0 ∨ year % 400 = 0)) := fun h' => h (hleap.2 h')
    omega

theorem daysBeforeYear_mono {a b : Int} (h : a ≤ b) : daysBeforeYear a ≤ daysBeforeYear b := by
  unfold daysBeforeYear
  omega

/-- The year of a day is the one whose days it is among. -/
theorem yearOfDays_spec (days : Int) :
    daysBeforeYear (yearOfDays days) ≤ days ∧ days < daysBeforeYear (yearOfDays days + 1) := by
  unfold yearOfDays
  -- the mean year has 146097 / 400 days
  have hguess : 146097 * (400 * days / 146097) ≤ 400 * days ∧
      400 * days < 146097 * (400 * days / 146097) + 146097 := by omega
  generalize 400 * days / 146097 = guess at hguess
  dsimp only
  -- the guess is one year off at most, in either direction
  by_cases hlt : days < daysBeforeYear guess
  · rw [if_pos hlt, Int.sub_add_cancel]
    refine ⟨?_, hlt⟩
    unfold daysBeforeYear at hlt ⊢
    omega
  · rw [if_neg hlt]
    by_cases hge : daysBeforeYear (guess + 1) ≤ days
    · rw [if_pos hge]
      unfold daysBeforeYear at hge ⊢
      omega
    · rw [if_neg hge]
      exact ⟨Int.not_lt.1 hlt, Int.not_le.1 hge⟩

theorem yearOfDays_eq_iff {days year : Int} :
    yearOfDays days = year ↔ daysBeforeYear year ≤ days ∧ days < daysBeforeYear (year + 1) := by
  constructor
  · rintro rfl
    exact yearOfDays_spec days
  · rintro ⟨hlo, hhi⟩
    obtain ⟨hlo', hhi'⟩ := yearOfDays_spec days
    rcases Int.lt_trichotomy (yearOfDays days) year with h | h | h
    · have := daysBeforeYear_mono (show yearOfDays days + 1 ≤ year by omega)
      omega
    · exact h
    · have := daysBeforeYear_mono (show year + 1 ≤ yearOfDays days by omega)
      omega

/-! ### Months -/

theorem daysBeforeMonth_succ (year : Int) {month : Nat} (h : 1 ≤ month) :
    daysBeforeMonth year (month + 1) = daysBeforeMonth year month + daysInMonth year month := by
  cases month with
  | zero => omega
  | succ m => rfl

theorem daysBeforeMonth_mono (year : Int) {a b : Nat} (ha : 1 ≤ a) (h : a ≤ b) :
    daysBeforeMonth year a ≤ daysBeforeMonth year b := by
  induction b with
  | zero => omega
  | succ b ih =>
    rcases Nat.lt_or_ge b a with hlt | hge
    · obtain rfl : a = b + 1 := by omega
      exact Nat.le_refl _
    · rw [daysBeforeMonth_succ year (Nat.le_trans ha hge)]
      have := ih hge
      omega

theorem daysBeforeMonth_thirteen (year : Int) :
    (daysBeforeMonth year 13 : Int) = daysInYear year := by
  unfold daysInYear
  cases h : isLeap year <;> simp [daysBeforeMonth, daysInMonth, h]

theorem one_le_daysInMonth (year : Int) (month : Nat) : 1 ≤ daysInMonth year month := by
  unfold daysInMonth
  split
  · split <;> omega
  all_goals omega

theorem daysInMonth_le (year : Int) (month : Nat) : daysInMonth year month ≤ 31 := by
  unfold daysInMonth
  split
  · split <;> omega
  all_goals omega

theorem monthOfDay_spec (year : Int) (day : Nat) {last : Nat} (h : 1 ≤ last) :
    1 ≤ monthOfDay year day last ∧ monthOfDay year day last ≤ last ∧
      daysBeforeMonth year (monthOfDay year day last) ≤ day ∧
      (monthOfDay year day last < last →
        day < daysBeforeMonth year (monthOfDay year day last + 1)) := by
  induction last with
  | zero => omega
  | succ last ih =>
    cases last with
    | zero => exact ⟨Nat.le_refl _, Nat.le_refl _, Nat.zero_le _, fun h => absurd h (Nat.lt_irrefl _)⟩
    | succ m =>
      rw [monthOfDay]
      split
      · next hle => exact ⟨by omega, Nat.le_refl _, hle, fun h => by omega⟩
      · next hgt =>
        -- the search goes down: the months after the one found begin behind the day
        obtain ⟨h₁, h₂, h₃, h₄⟩ := ih (by omega)
        refine ⟨h₁, by omega, h₃, fun _ => ?_⟩
        rcases Nat.lt_or_ge (monthOfDay year day (m + 1)) (m + 1) with hlt | hge
        · exact h₄ hlt
        · rw [show monthOfDay year day (m + 1) = m + 1 by omega]
          exact Nat.not_le.1 hgt

/-! ### Days -/

/-- The days from 1 January 1970 to the day of the given numbers. -/
def dayOf (year : Int) (month day : Nat) : Int :=
  daysBeforeYear year - daysBeforeYear 1970 + daysBeforeMonth year month + (day - 1)

theorem Date.dayNumber_eq (d : Date) : d.dayNumber = dayOf d.year d.month d.day := rfl

theorem dayOf_year_succ (year : Int) : dayOf (year + 1) 1 1 = dayOf year 1 1 + daysInYear year := by
  have := daysBeforeYear_succ year
  simp only [dayOf, daysBeforeMonth]
  omega

theorem dayOf_year_mono {a b : Int} (h : a ≤ b) : dayOf a 1 1 ≤ dayOf b 1 1 := by
  have := daysBeforeYear_mono h
  simp only [dayOf, daysBeforeMonth]
  omega

/-- The day number lies in the year. -/
theorem civil_year_eq_iff {n year : Int} :
    (civil n).1 = year ↔ dayOf year 1 1 ≤ n ∧ n < dayOf (year + 1) 1 1 := by
  have h : (civil n).1 = yearOfDays (n + daysBeforeYear 1970) := rfl
  rw [h, yearOfDays_eq_iff]
  simp only [dayOf, daysBeforeMonth]
  omega

theorem dayOf_le_iff {n year : Int} : dayOf year 1 1 ≤ n ↔ year ≤ (civil n).1 := by
  obtain ⟨hlo, hhi⟩ := civil_year_eq_iff.1 (rfl : (civil n).1 = (civil n).1)
  constructor
  · intro h
    apply Int.not_lt.1
    intro hlt
    have := dayOf_year_mono (show (civil n).1 + 1 ≤ year by omega)
    omega
  · intro h
    have := dayOf_year_mono h
    omega

theorem lt_dayOf_iff {n year : Int} : n < dayOf year 1 1 ↔ (civil n).1 < year := by
  rw [← Int.not_le, dayOf_le_iff, Int.not_le]

/-- The reading of a day inside its year. -/
theorem monthOfDay_eq_iff {year : Int} {dayOfYear month : Nat} (h : dayOfYear < daysInYear year)
    (hm : 1 ≤ month ∧ month ≤ 12) :
    monthOfDay year dayOfYear 12 = month ↔
      daysBeforeMonth year month ≤ dayOfYear ∧ dayOfYear < daysBeforeMonth year (month + 1) := by
  have hend := daysBeforeMonth_thirteen year
  obtain ⟨h₁, h₂, h₃, h₄⟩ := monthOfDay_spec year dayOfYear (show 1 ≤ 12 by decide)
  have hhi : dayOfYear < daysBeforeMonth year (monthOfDay year dayOfYear 12 + 1) := by
    rcases Nat.lt_or_ge (monthOfDay year dayOfYear 12) 12 with hlt | hge
    · exact h₄ hlt
    · rw [show monthOfDay year dayOfYear 12 = 12 by omega]
      show dayOfYear < daysBeforeMonth year 13
      omega
  constructor
  · rintro rfl
    exact ⟨h₃, hhi⟩
  · rintro ⟨hlo, hhi'⟩
    rcases Nat.lt_trichotomy (monthOfDay year dayOfYear 12) month with hlt | heq | hgt
    · have := daysBeforeMonth_mono year (by omega) (show monthOfDay year dayOfYear 12 + 1 ≤ month by
        omega)
      omega
    · exact heq
    · have := daysBeforeMonth_mono year (by omega) (show month + 1 ≤ monthOfDay year dayOfYear 12 by
        omega)
      omega

/-- **The reading of a day number is the date of that day**, and the date of no other day. -/
theorem civil_eq_iff {n year : Int} {month day : Nat} :
    civil n = (year, month, day) ↔ (1 ≤ month ∧ month ≤ 12) ∧
      (1 ≤ day ∧ day ≤ daysInMonth year month) ∧ n = dayOf year month day := by
  have hyear : (civil n).1 = yearOfDays (n + daysBeforeYear 1970) := rfl
  constructor
  · intro h
    rw [h] at hyear
    dsimp only at hyear
    obtain ⟨hlo, hhi⟩ := yearOfDays_eq_iff.1 hyear.symm
    have hsucc := daysBeforeYear_succ year
    -- month and day are read from the day of the year, counted from zero
    have hmd : (civil n).2 = (month, day) := by rw [h]
    have hcivil : (civil n).2 =
        (monthOfDay year (n + daysBeforeYear 1970 - daysBeforeYear year).toNat 12,
          (n + daysBeforeYear 1970 - daysBeforeYear year).toNat -
            daysBeforeMonth year
              (monthOfDay year (n + daysBeforeYear 1970 - daysBeforeYear year).toNat 12) + 1) := by
      rw [hyear]
      rfl
    rw [hmd, Prod.mk.injEq] at hcivil
    obtain ⟨hmonth, hday⟩ := hcivil
    obtain ⟨h₁, h₂, -, -⟩ := monthOfDay_spec year
      (n + daysBeforeYear 1970 - daysBeforeYear year).toNat (show 1 ≤ 12 by decide)
    rw [← hmonth] at h₁ h₂ hday
    obtain ⟨hml, hmh⟩ := (monthOfDay_eq_iff (by omega) ⟨h₁, h₂⟩).1 hmonth.symm
    rw [daysBeforeMonth_succ year h₁] at hmh
    refine ⟨⟨h₁, h₂⟩, ⟨by omega, by omega⟩, ?_⟩
    unfold dayOf
    omega
  · intro hex
    obtain ⟨hm, hd, hn⟩ := hex
    have hsucc := daysBeforeYear_succ year
    have hmsucc := daysBeforeMonth_succ year hm.1
    have hmend := daysBeforeMonth_mono year (by omega) (show month + 1 ≤ 13 by omega)
    have hend := daysBeforeMonth_thirteen year
    unfold dayOf at hn
    -- the day lies in the year and, inside it, in the month, and both are unique
    have hy : yearOfDays (n + daysBeforeYear 1970) = year :=
      yearOfDays_eq_iff.2 ⟨by omega, by omega⟩
    have hmonth : monthOfDay year (n + daysBeforeYear 1970 - daysBeforeYear year).toNat 12 = month :=
      (monthOfDay_eq_iff (by omega) hm).2 ⟨by omega, by omega⟩
    unfold civil
    dsimp only
    rw [hy, hmonth]
    congr 2
    omega

theorem dayOf_month_succ (year : Int) {month : Nat} (h : 1 ≤ month) :
    dayOf year (month + 1) 1 = dayOf year month 1 + daysInMonth year month := by
  have := daysBeforeMonth_succ year h
  simp only [dayOf]
  omega

theorem civil_month_mem (n : Int) : 1 ≤ (civil n).2.1 ∧ (civil n).2.1 ≤ 12 :=
  (civil_eq_iff.1 (rfl : civil n = ((civil n).1, (civil n).2.1, (civil n).2.2))).1

/-- The day number lies in the month. -/
theorem civil_month_eq_iff {n year : Int} {month : Nat} (hm : 1 ≤ month ∧ month ≤ 12) :
    ((civil n).1 = year ∧ (civil n).2.1 = month) ↔
      dayOf year month 1 ≤ n ∧ n < dayOf year month 1 + daysInMonth year month := by
  constructor
  · rintro ⟨rfl, rfl⟩
    obtain ⟨-, hd, hn⟩ := civil_eq_iff.1 (show civil n = ((civil n).1, (civil n).2.1, (civil n).2.2)
      from rfl)
    unfold dayOf at hn ⊢
    omega
  · rintro ⟨hlo, hhi⟩
    have h : civil n = (year, month, (n - dayOf year month 1).toNat + 1) := by
      refine civil_eq_iff.2 ⟨hm, ⟨by omega, by omega⟩, ?_⟩
      unfold dayOf at hlo hhi ⊢
      omega
    rw [h]
    exact ⟨rfl, rfl⟩

/-! ### Dates -/

theorem civil_dayNumber (date : Date) :
    civil date.dayNumber = (date.year, date.month, date.day) :=
  civil_eq_iff.2 ⟨date.month_mem, date.day_mem, date.dayNumber_eq⟩

theorem civil_injective {m n : Int} (h : civil m = civil n) : m = n := by
  obtain ⟨-, -, hm⟩ := civil_eq_iff.1
    (show civil m = ((civil n).1, (civil n).2.1, (civil n).2.2) from h)
  obtain ⟨-, -, hn⟩ := civil_eq_iff.1
    (show civil n = ((civil n).1, (civil n).2.1, (civil n).2.2) from rfl)
  exact hm.trans hn.symm

/-- A date is told by the number of its day. -/
theorem Date.dayNumber_injective {a b : Date} (h : a.dayNumber = b.dayNumber) : a = b := by
  have hcivil : (a.year, a.month, a.day) = (b.year, b.month, b.day) := by
    rw [← civil_dayNumber, ← civil_dayNumber, h]
  simp only [Prod.mk.injEq] at hcivil
  exact Date.ext hcivil.1 hcivil.2.1 hcivil.2.2

theorem Date.exists_of? {year : Int} {month day : Nat} (hy : minYear ≤ year ∧ year ≤ maxYear)
    (hm : 1 ≤ month ∧ month ≤ 12) (hd : 1 ≤ day ∧ day ≤ daysInMonth year month) :
    ∃ date, of? year month day = some date :=
  ⟨⟨year, month, day, hy, hm, hd⟩, of?_eq_some_iff.2 ⟨rfl, rfl, rfl⟩⟩

/-- The days of the calendar are those from the first of its first year to the last of its last. -/
theorem Date.dayNumber_bounds (d : Date) :
    dayOf minYear 1 1 ≤ d.dayNumber ∧ d.dayNumber < dayOf (maxYear + 1) 1 1 := by
  rw [dayOf_le_iff, lt_dayOf_iff, civil_dayNumber]
  exact ⟨d.year_mem.1, Int.lt_add_one_iff.2 d.year_mem.2⟩

/-- The last day of the calendar. -/
def Date.last : Date := ⟨maxYear, 12, 31, by decide, by decide, by decide⟩

theorem Date.eq_last_iff {d : Date} : d = last ↔ d.dayNumber + 1 = dayOf (maxYear + 1) 1 1 := by
  have hlast : last.dayNumber + 1 = dayOf (maxYear + 1) 1 1 := by decide
  constructor
  · rintro rfl
    exact hlast
  · intro h
    exact dayNumber_injective (by omega)

/-- Year and month of the month after a month. -/
def monthLater (year : Int) (month : Nat) : Int × Nat :=
  if month = 12 then (year + 1, 1) else (year, month + 1)

theorem monthLater_mem (year : Int) {month : Nat} (h : 1 ≤ month ∧ month ≤ 12) :
    1 ≤ (monthLater year month).2 ∧ (monthLater year month).2 ≤ 12 := by
  unfold monthLater
  split <;> dsimp only <;> omega

/-- A month ends where the next one begins. -/
theorem dayOf_monthLater (year : Int) {month : Nat} (h : 1 ≤ month ∧ month ≤ 12) :
    dayOf (monthLater year month).1 (monthLater year month).2 1 =
      dayOf year month 1 + daysInMonth year month := by
  rw [← dayOf_month_succ year h.1]
  by_cases hdec : month = 12
  · -- the thirteenth month of a year would be the first of the next
    have hend := daysBeforeMonth_thirteen year
    rw [monthLater, if_pos hdec, hdec, dayOf_year_succ, dayOf, dayOf, hend]
    simp only [daysBeforeMonth]
    omega
  · rw [monthLater, if_neg hdec]

/-- The month after the one of a first of the month begins behind its last day. -/
theorem Date.nextMonth?_eq_some_iff {d next : Date} (h : d.day = 1) :
    d.nextMonth? = some next ↔ next.dayNumber = d.dayNumber + daysInMonth d.year d.month := by
  have hday : d.dayNumber = dayOf d.year d.month 1 := by rw [dayNumber_eq, h]
  have hfirst : min d.day (daysInMonth (monthLater d.year d.month).1
      (monthLater d.year d.month).2) = 1 := by
    rw [h, Nat.min_eq_left (one_le_daysInMonth _ _)]
  have hnext : d.nextMonth? =
      of? (monthLater d.year d.month).1 (monthLater d.year d.month).2 1 := by
    rw [← hfirst]
    rfl
  rw [hnext, of?_eq_some_iff, hday, ← dayOf_monthLater d.year d.month_mem]
  constructor
  · rintro ⟨hy, hm, hd⟩
    rw [dayNumber_eq, hy, hm, hd]
  · intro hnumber
    have hcivil := civil_eq_iff.2 ⟨monthLater_mem d.year d.month_mem,
      ⟨Nat.le_refl 1, one_le_daysInMonth _ _⟩, hnumber⟩
    rw [civil_dayNumber] at hcivil
    simpa only [Prod.mk.injEq] using hcivil

/-- A date has a date one month after it, but for those of the last month of the calendar. -/
theorem Date.exists_nextMonth?_iff {d : Date} :
    (∃ next, d.nextMonth? = some next) ↔ d.year < maxYear ∨ d.month < 12 := by
  have hy := d.year_mem
  have hm := d.month_mem
  constructor
  · rintro ⟨next, hnext⟩
    have hyear := next.year_mem
    by_cases hdec : d.month = 12
    · rw [nextMonth?, if_pos hdec] at hnext
      obtain ⟨h, -, -⟩ := of?_eq_some_iff.1 hnext
      omega
    · omega
  · intro h
    have hday : ∀ year month, 1 ≤ min d.day (daysInMonth year month) ∧
        min d.day (daysInMonth year month) ≤ daysInMonth year month := fun year month =>
      ⟨Nat.le_min.2 ⟨d.day_mem.1, one_le_daysInMonth year month⟩, Nat.min_le_right _ _⟩
    by_cases hdec : d.month = 12
    · rw [nextMonth?, if_pos hdec]
      exact exists_of? ⟨by omega, by omega⟩ (by decide) (hday _ _)
    · rw [nextMonth?, if_neg hdec]
      exact exists_of? hy ⟨by omega, by omega⟩ (hday _ _)

/-! ### Local time -/

/-- Year, month and day of an instant at a fixed offset from UTC. -/
def localDate (offset : Offset) (t : Instant) : Int × Nat × Nat :=
  civil ((t.seconds + offset.seconds) / Instant.secondsPerDay)

/-- The instant at which a day begins in local time. -/
def localMidnight (offset : Offset) (day : Int) : Instant :=
  Instant.ofSeconds (day * Instant.secondsPerDay - offset.seconds)

theorem Instant.minSeconds_eq : minSeconds = dayOf minYear 1 1 * secondsPerDay := by decide

theorem Instant.maxSeconds_succ_eq :
    maxSeconds + 1 = dayOf (maxYear + 1) 1 1 * secondsPerDay := by decide

/-- A date has a midnight if the calendar has that instant. -/
theorem Offset.midnight?_eq_some_iff {offset : Offset} {date : Date} {t : Instant} :
    offset.midnight? date = some t ↔
      Instant.InRange (localMidnight offset date.dayNumber).seconds ∧
        t = localMidnight offset date.dayNumber := by
  rw [midnight?, Option.ite_none_right_eq_some, Option.some.injEq, eq_comm (b := t)]
  rfl

/-- A midnight is the beginning of a second. -/
theorem Offset.eq_ofSeconds_of_midnight? {offset : Offset} {date : Date} {start : Instant}
    (h : offset.midnight? date = some start) : start = Instant.ofSeconds start.seconds := by
  obtain ⟨-, rfl⟩ := midnight?_eq_some_iff.1 h
  rfl

/-- From a whole second one comes to a whole second, or out of the calendar. -/
theorem Instant.addSeconds_ofSeconds_eq (seconds n : Int) :
    (ofSeconds seconds).addSeconds n =
      if InRange (seconds + n) then .ok (ofSeconds (seconds + n)) else .error ⟨seconds + n⟩ := rfl

theorem Instant.addSeconds_ofSeconds {seconds n : Int} (h : InRange (seconds + n)) :
    (ofSeconds seconds).addSeconds n = .ok (ofSeconds (seconds + n)) := if_pos h

theorem Instant.exists_addSeconds_ofSeconds_iff {seconds n : Int} :
    (∃ t, (ofSeconds seconds).addSeconds n = .ok t) ↔ InRange (seconds + n) := by
  rw [addSeconds_ofSeconds_eq]
  split <;> simp [*]

/-- A day ends where the next one begins, if the calendar has that instant. -/
theorem addSeconds_localMidnight (offset : Offset) (day : Int) :
    (localMidnight offset day).addSeconds Instant.secondsPerDay =
      if Instant.InRange (localMidnight offset (day + 1)).seconds
      then .ok (localMidnight offset (day + 1))
      else .error ⟨(localMidnight offset (day + 1)).seconds⟩ := by
  have hsum : day * Instant.secondsPerDay - offset.seconds + Instant.secondsPerDay =
      (day + 1) * Instant.secondsPerDay - offset.seconds := by
    rw [Int.add_mul]
    omega
  rw [localMidnight, Instant.addSeconds_ofSeconds_eq, hsum]
  rfl

/-- The instants between two local midnights are those of the local days between. -/
theorem Span.contains_midnights (offset : Offset) (first next : Int) (t : Instant) :
    (Span.mk (localMidnight offset first) (localMidnight offset next)).contains t = true ↔
      first ≤ (t.seconds + offset.seconds) / Instant.secondsPerDay ∧
        (t.seconds + offset.seconds) / Instant.secondsPerDay < next := by
  simp only [Span.contains, Bool.and_eq_true, decide_eq_true_eq, Instant.le_def, Instant.lt_def,
    localMidnight, Instant.ofSeconds, Instant.secondsPerDay]
  omega

end Calendar
end AlbumIndex
