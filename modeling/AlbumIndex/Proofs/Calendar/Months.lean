import AlbumIndex.Proofs.Calendar.Civil
import AlbumIndex.Recent

/-!
# A month ago

The instant one month before another has the same time of day.  Its date is the same day of the
month before, or the last day of that month if it is shorter.  There is such an instant unless the
calendar begins in the later month: an instant at least 31 days after the beginning of the calendar,
which is in January, has a month before it.

## Main definitions

* `monthEarlier` — the date one month before another.
* `IsMonthBefore` — one instant lies a month before another.

## Main results

* `monthBefore_spec` — **the instant found is the one that lies a month before.**
* `IsMonthBefore.unique` — there is only one.
-/

namespace AlbumIndex
namespace Calendar

/-! ### Dates -/

/-- The same day of the month before, or the last day of that month. -/
def monthEarlier (date : Int × Nat × Nat) : Int × Nat × Nat :=
  let (year, month) := if date.2.1 = 1 then (date.1 - 1, 12) else (date.1, date.2.1 - 1)
  (year, month, min date.2.2 (daysInMonth year month))

theorem Date.ofDayNumber?_eq_some_iff {n : Int} {date : Date} :
    ofDayNumber? n = some date ↔ civil n = (date.year, date.month, date.day) := by
  unfold ofDayNumber?
  dsimp only
  rw [of?_eq_some_iff, Prod.ext_iff, Prod.ext_iff]
  constructor
  · rintro ⟨hy, hm, hd⟩
    exact ⟨hy.symm, hm.symm, hd.symm⟩
  · rintro ⟨hy, hm, hd⟩
    exact ⟨hy.symm, hm.symm, hd.symm⟩

theorem Date.monthBefore?_eq_some_iff {date before : Date} :
    date.monthBefore? = some before ↔
      (before.year, before.month, before.day) =
        monthEarlier (date.year, date.month, date.day) := by
  unfold monthBefore? monthEarlier
  dsimp only
  rw [of?_eq_some_iff, Prod.mk.injEq, Prod.mk.injEq]

/-- A date has a date one month before it, but for those of the first month of the calendar. -/
theorem Date.exists_monthBefore? {date : Date} (h : minYear < date.year ∨ 1 < date.month) :
    ∃ before, date.monthBefore? = some before := by
  have hy := date.year_mem
  have hm := date.month_mem
  have hd := date.day_mem
  unfold monthBefore?
  dsimp only
  split
  · have := one_le_daysInMonth (date.year - 1) 12
    apply exists_of?
    · dsimp only
      omega
    · dsimp only
      omega
    · dsimp only
      omega
  · have := one_le_daysInMonth date.year (date.month - 1)
    apply exists_of?
    · exact hy
    · dsimp only
      omega
    · dsimp only
      omega

/-- The calendar has the day of each of its seconds. -/
theorem exists_ofDayNumber? {seconds : Int} (h : Instant.InRange seconds) :
    ∃ date, Date.ofDayNumber? (seconds / Instant.secondsPerDay) = some date := by
  obtain ⟨hlo, hhi⟩ := h
  rw [Instant.minSeconds_eq] at hlo
  rw [← Int.lt_add_one_iff, Instant.maxSeconds_succ_eq] at hhi
  unfold Instant.secondsPerDay at *
  have hylo := dayOf_le_iff.1 (show dayOf minYear 1 1 ≤ seconds / 86400 by omega)
  have hyhi := lt_dayOf_iff.1 (show seconds / 86400 < dayOf (maxYear + 1) 1 1 by omega)
  obtain ⟨hm, hd, -⟩ := civil_eq_iff.1
    (show civil (seconds / 86400) = ((civil (seconds / 86400)).1, (civil (seconds / 86400)).2.1,
      (civil (seconds / 86400)).2.2) from rfl)
  exact Date.exists_of? ⟨hylo, Int.lt_add_one_iff.1 hyhi⟩ hm hd

/-! ### Instants -/

/-- The first instant lies one calendar month before the second, at the same time of day. -/
structure IsMonthBefore (since now : Instant) : Prop where
  date_eq : localDate .utc since = monthEarlier (localDate .utc now)
  second_eq : since.seconds % Instant.secondsPerDay = now.seconds % Instant.secondsPerDay
  nanos_eq : since.nanos = now.nanos

theorem localDate_utc (t : Instant) :
    localDate .utc t = civil (t.seconds / Instant.secondsPerDay) := by
  rw [localDate, Offset.utc, Int.add_zero]

/-- One instant only lies a month before another. -/
theorem IsMonthBefore.unique {since since' now : Instant} (h : IsMonthBefore since now)
    (h' : IsMonthBefore since' now) : since = since' := by
  have hday : since.seconds / Instant.secondsPerDay = since'.seconds / Instant.secondsPerDay := by
    apply civil_injective
    rw [← localDate_utc, ← localDate_utc, h.date_eq, h'.date_eq]
  have hsecond := h.second_eq.trans h'.second_eq.symm
  apply Instant.ext
  · unfold Instant.secondsPerDay at hday hsecond
    omega
  · exact h.nanos_eq.trans h'.nanos_eq.symm

/-- The instant thirty days earlier, which is only needed at the beginning of the calendar, has to
be in the calendar in any case. -/
theorem exists_thirtyDaysBefore {now : Instant} (hnow : Instant.InRange now.seconds)
    (hmonth : Instant.minSeconds + 31 * Instant.secondsPerDay ≤ now.seconds) :
    ∃ t, now.addSeconds (-thirtyDays) = .ok t := by
  obtain ⟨-, hmax⟩ := hnow
  have hdays : Instant.InRange (now.seconds + -thirtyDays) ∧
      Instant.InRange (now.seconds + 1 + -thirtyDays) := by
    unfold Instant.InRange thirtyDays Instant.secondsPerDay at *
    omega
  have hne : ¬-thirtyDays = 0 := by decide
  have hneg : ¬0 < -thirtyDays := by decide
  unfold Instant.addSeconds
  simp only [hne, hneg, decide_false, Bool.or_false, decide_eq_true_eq, if_false]
  -- a leap second counts as the second after it
  by_cases hleap : now.nanos < 1000000000
  · rw [if_pos hleap]
    exact ⟨_, if_pos hdays.1⟩
  · rw [if_neg hleap]
    exact ⟨_, if_pos hdays.2⟩

/-- An instant at least 31 days after the beginning of the calendar is not in its first month. -/
theorem later_of_ofDayNumber? {seconds : Int} {date : Date}
    (h : Instant.minSeconds + 31 * Instant.secondsPerDay ≤ seconds)
    (hdate : Date.ofDayNumber? (seconds / Instant.secondsPerDay) = some date) :
    minYear < date.year ∨ 1 < date.month := by
  refine Decidable.byContradiction fun hnot => ?_
  have hy := date.year_mem
  have hm := date.month_mem
  have hd := date.day_mem
  obtain ⟨hyear, hmonth⟩ : date.year = minYear ∧ date.month = 1 := by omega
  obtain ⟨-, -, hday⟩ := civil_eq_iff.1 (Date.ofDayNumber?_eq_some_iff.1 hdate)
  rw [hyear, hmonth] at hday hd
  have hjanuary : daysInMonth minYear 1 = 31 := rfl
  have hfirst : dayOf minYear 1 date.day = dayOf minYear 1 1 + (date.day - 1) := by
    unfold dayOf
    omega
  rw [Instant.minSeconds_eq] at h
  unfold Instant.secondsPerDay at *
  omega

/-- **The instant found is the one that lies a month before**, and it is found for every instant
that has one. -/
theorem monthBefore_spec {now : Instant} (hnow : Instant.InRange now.seconds)
    (hmonth : Instant.minSeconds + 31 * Instant.secondsPerDay ≤ now.seconds) :
    ∃ since, monthBefore now = .ok since ∧ IsMonthBefore since now := by
  obtain ⟨fallback, hfallback⟩ := exists_thirtyDaysBefore hnow hmonth
  obtain ⟨date, hdate⟩ := exists_ofDayNumber? hnow
  have hcivil := Date.ofDayNumber?_eq_some_iff.1 hdate
  have hlater := later_of_ofDayNumber? hmonth hdate
  obtain ⟨before, hbefore⟩ := Date.exists_monthBefore? hlater
  refine ⟨⟨before.dayNumber * Instant.secondsPerDay + now.seconds % Instant.secondsPerDay,
    now.nanos⟩, ?_, ?_⟩
  · unfold monthBefore
    simp only [hfallback, Instant.dayAndSecond, hdate, Option.bind_some, hbefore, bind, Except.bind,
      pure, Except.pure]
  · have hmod := Int.emod_nonneg now.seconds (show Instant.secondsPerDay ≠ 0 by decide)
    have hlt := Int.emod_lt_of_pos now.seconds (show 0 < Instant.secondsPerDay by decide)
    refine ⟨?_, ?_, rfl⟩
    · rw [localDate_utc, localDate_utc, hcivil, ← Date.monthBefore?_eq_some_iff.1 hbefore,
        ← civil_dayNumber]
      congr 1
      unfold Instant.secondsPerDay at *
      dsimp only
      omega
    · unfold Instant.secondsPerDay at *
      dsimp only
      omega

end Calendar
end AlbumIndex
