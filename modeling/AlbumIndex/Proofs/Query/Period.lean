import AlbumIndex.Proofs.Query.Midnights
import AlbumIndex.Query.Compile

/-!
# The dates that tokens name

A token in the shape of a date names a year, a month, a day or two years if all of its digits are
ASCII digits.  Its period is then the one between two local midnights, which for years of four
digits always lie in the calendar, and an instant is in the period exactly if its local date is one
of those named.  A month or a day that the calendar does not have is no period, and no instant has
such a date.

## Main definitions

* `NamesYear`, `NamesYears`, `NamesMonth`, `NamesDay` — the numbers that a token writes.

## Main results

* `yearPeriod?_eq_some_iff` and its like for the other shapes — the period of a token.
* `yearPeriod?_contains_iff` and its like — **the instants of the period are those with a local date
  that the token names.**
-/

namespace AlbumIndex
namespace Query

open Calendar Text

/-! ### Shapes -/

/-- The token is the number of a year. -/
def NamesYear (token : List Char) (year : Nat) : Prop := Writes 4 year token

/-- The token is the numbers of two years, with two hyphens between. -/
def NamesYears (token : List Char) (first next : Nat) : Prop :=
  ∃ ys zs, token = ys ++ '-' :: '-' :: zs ∧ Writes 4 first ys ∧ Writes 4 next zs

/-- The token is the numbers of a year and a month, with a hyphen between. -/
def NamesMonth (token : List Char) (year month : Nat) : Prop :=
  ∃ ys ms, token = ys ++ '-' :: ms ∧ Writes 4 year ys ∧ Writes 2 month ms

/-- The token is the numbers of a year, a month and a day, with hyphens between. -/
def NamesDay (token : List Char) (year month day : Nat) : Prop :=
  ∃ ys ms ds, token = ys ++ '-' :: (ms ++ '-' :: ds) ∧
    Writes 4 year ys ∧ Writes 2 month ms ∧ Writes 2 day ds

theorem hasShape_hyphen {shape cs : List Char} :
    hasShape ('-' :: shape) cs = true ↔ ∃ tail, cs = '-' :: tail ∧ hasShape shape tail = true := by
  cases cs with
  | nil => simp [hasShape]
  | cons c cs =>
    simp only [hasShape, show ('-' = '#') = False by decide, if_false, Bool.and_eq_true, beq_iff_eq]
    constructor
    · rintro ⟨rfl, h⟩
      exact ⟨cs, rfl, h⟩
    · intro hex
      obtain ⟨tail, heq, h⟩ := hex
      obtain ⟨rfl, rfl⟩ := List.cons.inj heq
      exact ⟨rfl, h⟩

theorem hasShape_digits {shape cs : List Char} (width : Nat) :
    hasShape (List.replicate width '#' ++ shape) cs = true ↔
      ∃ ds tail, cs = ds ++ tail ∧ DigitRun width ds ∧ hasShape shape tail = true := by
  induction width generalizing cs with
  | zero =>
    constructor
    · exact fun h => ⟨[], cs, rfl, ⟨rfl, nofun⟩, h⟩
    · intro hex
      obtain ⟨ds, tail, rfl, ⟨hlen, -⟩, h⟩ := hex
      rw [List.eq_nil_of_length_eq_zero hlen]
      exact h
  | succ width ih =>
    rw [List.replicate_succ, List.cons_append]
    cases cs with
    | nil =>
      constructor
      · exact nofun
      · intro hex
        obtain ⟨ds, tail, heq, ⟨hlen, -⟩, -⟩ := hex
        rw [(List.append_eq_nil_iff.1 heq.symm).1] at hlen
        cases hlen
    | cons c cs =>
      rw [hasShape, if_pos rfl, Bool.and_eq_true, ih]
      constructor
      · intro hex
        obtain ⟨hc, ds, tail, rfl, ⟨hlen, hdig⟩, h⟩ := hex
        exact ⟨c :: ds, tail, rfl, ⟨congrArg (· + 1) hlen, List.forall_mem_cons.2 ⟨hc, hdig⟩⟩, h⟩
      · intro hex
        obtain ⟨ds, tail, heq, ⟨hlen, hdig⟩, h⟩ := hex
        cases ds with
        | nil => cases hlen
        | cons d ds =>
          obtain ⟨rfl, rfl⟩ := List.cons.inj heq
          obtain ⟨hc, hdig⟩ := List.forall_mem_cons.1 hdig
          exact ⟨hc, ds, tail, rfl, ⟨Nat.succ.inj hlen, hdig⟩, h⟩

/-- A shape that ends with digits. -/
theorem hasShape_digits_end {cs : List Char} (width : Nat) :
    hasShape (List.replicate width '#') cs = true ↔ DigitRun width cs := by
  rw [← List.append_nil (List.replicate width '#'), hasShape_digits]
  constructor
  · intro hex
    obtain ⟨ds, tail, rfl, hds, h⟩ := hex
    cases tail with
    | nil => rwa [List.append_nil]
    | cons c tail => cases h
  · exact fun h => ⟨cs, [], (List.append_nil cs).symm, h, rfl⟩

theorem hasShape_year {cs : List Char} : hasShape "####".toList cs = true ↔ DigitRun 4 cs :=
  hasShape_digits_end 4

theorem hasShape_month {cs : List Char} : hasShape "####-##".toList cs = true ↔
    ∃ ys ms, cs = ys ++ '-' :: ms ∧ DigitRun 4 ys ∧ DigitRun 2 ms := by
  rw [show "####-##".toList = List.replicate 4 '#' ++ '-' :: List.replicate 2 '#' by decide,
    hasShape_digits]
  simp only [hasShape_hyphen, hasShape_digits_end]
  constructor
  · intro h
    obtain ⟨ys, tail, rfl, hy, ms, rfl, hm⟩ := h
    exact ⟨ys, ms, rfl, hy, hm⟩
  · intro h
    obtain ⟨ys, ms, rfl, hy, hm⟩ := h
    exact ⟨ys, _, rfl, hy, ms, rfl, hm⟩

theorem hasShape_day {cs : List Char} : hasShape "####-##-##".toList cs = true ↔
    ∃ ys ms ds, cs = ys ++ '-' :: (ms ++ '-' :: ds) ∧
      DigitRun 4 ys ∧ DigitRun 2 ms ∧ DigitRun 2 ds := by
  rw [show "####-##-##".toList = List.replicate 4 '#' ++ '-' ::
    (List.replicate 2 '#' ++ '-' :: List.replicate 2 '#') by decide, hasShape_digits]
  simp only [hasShape_hyphen, hasShape_digits, hasShape_digits_end]
  constructor
  · intro h
    obtain ⟨ys, _, rfl, hy, _, rfl, ms, _, rfl, hm, ds, rfl, hd⟩ := h
    exact ⟨ys, ms, ds, rfl, hy, hm, hd⟩
  · intro h
    obtain ⟨ys, ms, ds, rfl, hy, hm, hd⟩ := h
    exact ⟨ys, _, rfl, hy, _, rfl, ms, _, rfl, hm, ds, rfl, hd⟩

theorem hasShape_yearRange {cs : List Char} : hasShape "####--####".toList cs = true ↔
    ∃ ys zs, cs = ys ++ '-' :: '-' :: zs ∧ DigitRun 4 ys ∧ DigitRun 4 zs := by
  rw [show "####--####".toList = List.replicate 4 '#' ++ '-' :: '-' :: List.replicate 4 '#' by decide,
    hasShape_digits]
  simp only [hasShape_hyphen, hasShape_digits_end]
  constructor
  · intro h
    obtain ⟨ys, _, rfl, hy, _, rfl, zs, rfl, hz⟩ := h
    exact ⟨ys, zs, rfl, hy, hz⟩
  · intro h
    obtain ⟨ys, zs, rfl, hy, hz⟩ := h
    exact ⟨ys, _, rfl, hy, _, rfl, zs, rfl, hz⟩

/-! ### Years of four digits -/

theorem readYear?_digits_eq_some_iff {cs : List Char} (h : DigitRun 4 cs) {year : Int} :
    readYear? cs = some year ↔ ∃ y : Nat, NamesYear cs y ∧ year = y := by
  -- no digit is a sign, so the text is read without one
  have hread : readYear? cs = ((readDigits? cs).map Int.ofNat).filter
      fun n => decide (-2147483648 ≤ n) && decide (n ≤ 2147483647) := by
    cases cs with
    | nil => exact absurd h.1 (by decide)
    | cons c cs =>
      have hc := h.2 c List.mem_cons_self
      simp only [readYear?, readInt?]
      split
      · next heq => exact absurd (List.cons.inj heq).1 (ne_hyphen_of_isDigit hc)
      · next heq => exact absurd (List.cons.inj heq).1 (ne_plus_of_isDigit hc)
      · rfl
  have hne : cs.isEmpty = false := by
    cases cs with
    | nil => exact absurd h.1 (by decide)
    | cons c cs => rfl
  rw [hread, readDigits?, hne, Bool.not_false, Bool.true_and]
  by_cases hall : cs.all isAsciiDigit = true
  · have hw : Writes 4 (digitsValue cs) cs := ⟨h.1, hall, rfl⟩
    have hlt := hw.lt
    rw [if_pos hall, Option.map_some, Option.filter_some, if_pos (by simp; omega),
      Option.some.injEq]
    constructor
    · rintro rfl
      exact ⟨_, hw, rfl⟩
    · intro hex
      obtain ⟨y, hy, rfl⟩ := hex
      rw [hw.unique hy]
      rfl
  · rw [if_neg hall]
    constructor
    · exact nofun
    · intro hex
      obtain ⟨y, hy, -⟩ := hex
      exact absurd hy.2.1 hall

theorem cutAt?_digits {ys zs : List Char} (h : ∀ c ∈ ys, isDigit c = true) :
    cutAt? ['-', '-'] (ys ++ '-' :: '-' :: zs) = some (ys, zs) := by
  induction ys with
  | nil => rfl
  | cons c ys ih =>
    obtain ⟨hc, hys⟩ := List.forall_mem_cons.1 h
    have hne : ('-' == c) = false := beq_eq_false_iff_ne.2 (ne_hyphen_of_isDigit hc).symm
    rw [List.cons_append, cutAt?, List.isPrefixOf, hne, ih hys]
    rfl

/-! ### Midnights inside the calendar -/

/-- The calendar holds every year of four digits, and the year after the last of them. -/
theorem year_mem_of_le {year : Nat} (h : year ≤ 10000) :
    minYear ≤ (year : Int) ∧ (year : Int) ≤ maxYear := by
  unfold minYear maxYear
  omega

theorem first_mem (year : Int) (month : Nat) : 1 ≤ 1 ∧ 1 ≤ daysInMonth year month :=
  ⟨Nat.le_refl 1, one_le_daysInMonth year month⟩

/-- A day of a year of four digits, or of the year after the last of them, is near enough. -/
theorem dayOf_bounds {year month day : Nat} (hy : year ≤ 10000) (hm : 1 ≤ month ∧ month ≤ 12)
    (hd : 1 ≤ day ∧ day ≤ daysInMonth year month) :
    -719528 ≤ dayOf year month day ∧ dayOf year month day < 2933464 := by
  have hmonth := daysBeforeMonth_mono year (show 1 ≤ month + 1 by omega)
    (show month + 1 ≤ 13 by omega)
  rw [daysBeforeMonth_succ year hm.1] at hmonth
  have hyear : (daysBeforeMonth year 13 : Int) ≤ 366 := by
    rw [daysBeforeMonth_thirteen, daysInYear]
    split <;> decide
  unfold dayOf daysBeforeYear
  omega

theorem inRange_midnight (offset : Offset) {day : Int} (hlo : -719528 ≤ day) (hhi : day ≤ 2933464) :
    Instant.InRange (day * Instant.secondsPerDay - offset.seconds) := by
  obtain ⟨seconds, h₁, h₂⟩ := offset
  simp only [Instant.InRange, Instant.minSeconds, Instant.maxSeconds, Instant.secondsPerDay]
  omega

/-- The local midnight of a date in a year of four digits. -/
theorem midnight?_of_le (offset : Offset) {date : Date} {year : Nat} (hy : year ≤ 10000)
    (h : date.year = year) :
    offset.midnight? date = some (localMidnight offset (dayOf year date.month date.day)) := by
  obtain ⟨hlo, hhi⟩ := dayOf_bounds hy date.month_mem (h ▸ date.day_mem)
  rw [← h, ← Date.dayNumber_eq] at hlo hhi ⊢
  exact Offset.midnight?_eq_some_iff.2 ⟨inRange_midnight offset hlo (Int.le_of_lt hhi), rfl⟩

/-- Days of these years, and the day after the last of them, have their midnights in the calendar. -/
theorem inCalendar_ofDays (offset : Offset) {first next : Int}
    (hfirst : -719528 ≤ first ∧ first ≤ 2933464) (hnext : -719528 ≤ next ∧ next ≤ 2933464) :
    (Span.ofDays offset first next).InCalendar :=
  ⟨inRange_midnight offset hfirst.1 hfirst.2, inRange_midnight offset hnext.1 hnext.2⟩

theorem yearsBetween?_of_le (offset : Offset) {first next : Nat} (hf : first ≤ 10000)
    (hn : next ≤ 10000) :
    yearsBetween? offset first next =
      some ⟨localMidnight offset (dayOf first 1 1), localMidnight offset (dayOf next 1 1)⟩ := by
  have hfirst := dayOf_bounds hf (by decide) (first_mem first 1)
  have hnext := dayOf_bounds hn (by decide) (first_mem next 1)
  refine yearsBetween?_eq_some_iff.2 ⟨⟨year_mem_of_le hf, year_mem_of_le hn⟩, rfl, ?_⟩
  exact inCalendar_ofDays offset (by omega) (by omega)

theorem monthFrom?_of_first (offset : Offset) {d : Date} {year : Nat} (hy : year < 10000)
    (h : d.year = year) (hd : d.day = 1) :
    monthFrom? offset d = some ⟨localMidnight offset (dayOf year d.month 1),
      localMidnight offset (dayOf year d.month 1 + daysInMonth year d.month)⟩ := by
  have hnumber : d.dayNumber = dayOf year d.month 1 := by rw [Date.dayNumber_eq, h, hd]
  have hdays := one_le_daysInMonth year d.month
  have hfirst := dayOf_bounds (Nat.le_of_lt hy) d.month_mem (first_mem year d.month)
  have hlast := dayOf_bounds (Nat.le_of_lt hy) d.month_mem ⟨hdays, Nat.le_refl _⟩
  have hnext : dayOf year d.month 1 + daysInMonth year d.month =
      dayOf year d.month (daysInMonth year d.month) + 1 := by
    unfold dayOf
    omega
  refine (monthFrom?_eq_some_iff hd).2 ⟨.inl (by unfold maxYear; omega), ?_, ?_⟩
  · rw [hnumber, h]
    rfl
  · exact inCalendar_ofDays offset (by omega) (by omega)

/-! ### The period of a token -/

variable {offset : Offset} {token : String} {span : Span}

theorem yearPeriod?_eq_some_iff (h : hasShape "####".toList token.toList = true) :
    yearPeriod? offset token = some span ↔ ∃ y, NamesYear token.toList y ∧
      span = ⟨localMidnight offset (dayOf y 1 1), localMidnight offset (dayOf (y + 1) 1 1)⟩ := by
  simp only [yearPeriod?, Option.bind_eq_bind, Option.bind_eq_some_iff,
    readYear?_digits_eq_some_iff (hasShape_year.1 h)]
  have hbetween : ∀ y : Nat, NamesYear token.toList y →
      yearsBetween? offset y (y + 1) =
        some ⟨localMidnight offset (dayOf y 1 1), localMidnight offset (dayOf (y + 1) 1 1)⟩ := by
    intro y hy
    have hlt : y < 10000 := hy.lt
    exact yearsBetween?_of_le offset (show y ≤ 10000 by omega) (show y + 1 ≤ 10000 by omega)
  constructor
  · intro hex
    obtain ⟨_, ⟨y, hy, rfl⟩, hspan⟩ := hex
    rw [hbetween y hy] at hspan
    exact ⟨y, hy, (Option.some.inj hspan).symm⟩
  · intro hex
    obtain ⟨y, hy, rfl⟩ := hex
    exact ⟨y, ⟨y, hy, rfl⟩, hbetween y hy⟩

theorem yearRangePeriod?_eq_some_iff (h : hasShape "####--####".toList token.toList = true) :
    yearRangePeriod? offset token = some span ↔ ∃ y z, NamesYears token.toList y z ∧
      span = ⟨localMidnight offset (dayOf y 1 1), localMidnight offset (dayOf z 1 1)⟩ := by
  obtain ⟨ys, zs, heq, hy, hz⟩ := hasShape_yearRange.1 h
  have hperiod : yearRangePeriod? offset token =
      (readYear? ys).bind fun y => (readYear? zs).bind fun z => yearsBetween? offset y z := by
    rw [yearRangePeriod?, heq, cutAt?_digits hy.2]
    rfl
  have hbetween : ∀ y z : Nat, Writes 4 y ys → Writes 4 z zs → yearsBetween? offset y z =
      some ⟨localMidnight offset (dayOf y 1 1), localMidnight offset (dayOf z 1 1)⟩ := by
    intro y z hwy hwz
    have hly : y < 10000 := hwy.lt
    have hlz : z < 10000 := hwz.lt
    exact yearsBetween?_of_le offset (by omega) (by omega)
  rw [hperiod, heq]
  simp only [Option.bind_eq_some_iff, readYear?_digits_eq_some_iff hy,
    readYear?_digits_eq_some_iff hz]
  constructor
  · intro hex
    obtain ⟨_, ⟨y, hwy, rfl⟩, _, ⟨z, hwz, rfl⟩, hspan⟩ := hex
    rw [hbetween y z hwy hwz] at hspan
    exact ⟨y, z, ⟨ys, zs, rfl, hwy, hwz⟩, (Option.some.inj hspan).symm⟩
  · intro hex
    obtain ⟨y, z, ⟨ys', zs', heq', hwy, hwz⟩, rfl⟩ := hex
    -- both halves have four characters before the hyphens
    obtain ⟨rfl, hrest⟩ := List.append_inj heq' (hy.1.trans hwy.1.symm)
    obtain rfl := (List.cons.inj (List.cons.inj hrest).2).2
    exact ⟨y, ⟨y, hwy, rfl⟩, z, ⟨z, hwz, rfl⟩, hbetween y z hwy hwz⟩

/-- The numbers of a token are read off its digits, which the hyphens separate. -/
theorem namesMonth_append_iff {ys ms : List Char} (hy : DigitRun 4 ys) {year month : Nat} :
    NamesMonth (ys ++ '-' :: ms) year month ↔ Writes 4 year ys ∧ Writes 2 month ms := by
  constructor
  · intro h
    obtain ⟨ys', ms', heq, hwy, hwm⟩ := h
    obtain ⟨rfl, hrest⟩ := List.append_inj heq (hy.1.trans hwy.1.symm)
    obtain rfl := (List.cons.inj hrest).2
    exact ⟨hwy, hwm⟩
  · rintro ⟨hwy, hwm⟩
    exact ⟨ys, ms, rfl, hwy, hwm⟩

theorem namesDay_append_iff {ys ms ds : List Char} (hy : DigitRun 4 ys) (hm : DigitRun 2 ms)
    {year month day : Nat} :
    NamesDay (ys ++ '-' :: (ms ++ '-' :: ds)) year month day ↔
      Writes 4 year ys ∧ Writes 2 month ms ∧ Writes 2 day ds := by
  constructor
  · intro h
    obtain ⟨ys', ms', ds', heq, hwy, hwm, hwd⟩ := h
    obtain ⟨rfl, hrest⟩ := List.append_inj heq (hy.1.trans hwy.1.symm)
    obtain ⟨rfl, hlast⟩ := List.append_inj (List.cons.inj hrest).2 (hm.1.trans hwm.1.symm)
    obtain rfl := (List.cons.inj hlast).2
    exact ⟨hwy, hwm, hwd⟩
  · intro h
    obtain ⟨hwy, hwm, hwd⟩ := h
    exact ⟨ys, ms, ds, rfl, hwy, hwm, hwd⟩

theorem monthPeriod?_eq_some_iff (h : hasShape "####-##".toList token.toList = true) :
    monthPeriod? offset token = some span ↔ ∃ y m, NamesMonth token.toList y m ∧
      (1 ≤ m ∧ m ≤ 12) ∧ span = ⟨localMidnight offset (dayOf y m 1),
        localMidnight offset (dayOf y m 1 + daysInMonth y m)⟩ := by
  obtain ⟨ys, ms, heq, hy, hm⟩ := hasShape_month.1 h
  have hfirst : DigitRun 2 "01".toList :=
    ⟨rfl, List.all_eq_true.1 (show "01".toList.all isDigit = true by decide)⟩
  have hone : ∀ {n}, Writes 2 n "01".toList ↔ n = 1 := by
    intro n
    have hwrites : Writes 2 1 "01".toList := by decide
    constructor
    · exact fun hn => hn.unique hwrites
    · rintro rfl
      exact hwrites
  have htext : token.toList ++ "-01".toList = ys ++ '-' :: (ms ++ '-' :: "01".toList) := by
    rw [heq, List.append_assoc]
    rfl
  have hperiod : monthPeriod? offset token =
      (readDate? isoPattern (ys ++ '-' :: (ms ++ '-' :: "01".toList))).bind (monthFrom? offset) := by
    rw [monthPeriod?, htext]
    rfl
  rw [hperiod, heq]
  simp only [Option.bind_eq_some_iff, readDate?_digits_eq_some_iff hy hm hfirst,
    namesMonth_append_iff hy, hone]
  constructor
  · intro hex
    obtain ⟨d, ⟨⟨y, hwy, hdy⟩, hwm, hdd⟩, hd⟩ := hex
    rw [monthFrom?_of_first offset hwy.lt hdy hdd] at hd
    exact ⟨y, d.month, ⟨hwy, hwm⟩, d.month_mem, (Option.some.inj hd).symm⟩
  · intro hex
    obtain ⟨y, m, ⟨hwy, hwm⟩, hmm, rfl⟩ := hex
    have hlt : y < 10000 := hwy.lt
    have hyear := year_mem_of_le (Nat.le_of_lt hlt)
    exact ⟨⟨y, m, 1, hyear, hmm, first_mem y m⟩, ⟨⟨y, hwy, rfl⟩, hwm, rfl⟩,
      monthFrom?_of_first offset hlt rfl rfl⟩

theorem dayPeriod_eq (offset : Offset) (h : hasShape "####-##-##".toList token.toList = true) :
    ∃ period, dayPeriod offset token = .ok period ∧ ∀ span, period = some span ↔
      ∃ y m d, NamesDay token.toList y m d ∧ (1 ≤ m ∧ m ≤ 12) ∧ (1 ≤ d ∧ d ≤ daysInMonth y m) ∧
        span = ⟨localMidnight offset (dayOf y m d), localMidnight offset (dayOf y m d + 1)⟩ := by
  obtain ⟨ys, ms, ds, heq, hy, hm, hd⟩ := hasShape_day.1 h
  simp only [heq, namesDay_append_iff hy hm]
  cases hread : readDate? isoPattern (ys ++ '-' :: (ms ++ '-' :: ds)) with
  | none =>
    -- a day of the calendar would have been read
    refine ⟨none, dayPeriod_eq_of_readDate?_eq_none (heq ▸ hread), fun span => ⟨nofun, ?_⟩⟩
    intro hex
    obtain ⟨y, m, d, ⟨hwy, hwm, hwd⟩, hmm, hdd, -⟩ := hex
    have hyear := year_mem_of_le (Nat.le_of_lt hwy.lt)
    rw [(readDate?_digits_eq_some_iff (d := ⟨y, m, d, hyear, hmm, hdd⟩) hy hm hd).2
      ⟨⟨y, hwy, rfl⟩, hwm, hwd⟩] at hread
    cases hread
  | some date =>
    obtain ⟨⟨y, hwy, hyear⟩, hwm, hwd⟩ := (readDate?_digits_eq_some_iff hy hm hd).1 hread
    have hlt : y < 10000 := hwy.lt
    have hdd := date.day_mem
    rw [hyear] at hdd
    obtain ⟨hlo, hhi⟩ := dayOf_bounds (Nat.le_of_lt hlt) date.month_mem hdd
    have hnumber : date.dayNumber = dayOf y date.month date.day := by
      rw [Date.dayNumber_eq, hyear]
    refine ⟨some ⟨localMidnight offset (dayOf y date.month date.day),
      localMidnight offset (dayOf y date.month date.day + 1)⟩, ?_, fun span => ?_⟩
    · refine dayPeriod_eq_some_iff.2 ⟨date, heq ▸ hread, by rw [hnumber]; rfl, ?_⟩
      exact inCalendar_ofDays offset (by omega) (by omega)
    · rw [Option.some.injEq]
      constructor
      · rintro rfl
        exact ⟨y, date.month, date.day, ⟨hwy, hwm, hwd⟩, date.month_mem, hdd, rfl⟩
      · intro hex
        obtain ⟨y', m, d, ⟨hwy', hwm', hwd'⟩, -, -, rfl⟩ := hex
        rw [hwy.unique hwy', hwm.unique hwm', hwd.unique hwd']

/-! ### The instants of a period -/

/-- The instant is in the period, if there is one. -/
def InPeriod (period : Option Span) (t : Instant) : Prop :=
  ∃ span, period = some span ∧ span.contains t = true

variable {t : Instant}

/-- **The instants of a year.** -/
theorem yearPeriod?_contains_iff (h : hasShape "####".toList token.toList = true) :
    InPeriod (yearPeriod? offset token) t ↔
      ∃ y, NamesYear token.toList y ∧ (localDate offset t).1 = y := by
  simp only [InPeriod, yearPeriod?_eq_some_iff h]
  constructor
  · intro hex
    obtain ⟨span, ⟨y, hy, rfl⟩, ht⟩ := hex
    rw [Span.contains_midnights] at ht
    exact ⟨y, hy, civil_year_eq_iff.2 ht⟩
  · intro hex
    obtain ⟨y, hy, ht⟩ := hex
    exact ⟨_, ⟨y, hy, rfl⟩, (Span.contains_midnights _ _ _ _).2 (civil_year_eq_iff.1 ht)⟩

/-- **The instants between two years**, the first of them included. -/
theorem yearRangePeriod?_contains_iff (h : hasShape "####--####".toList token.toList = true) :
    InPeriod (yearRangePeriod? offset token) t ↔
      ∃ y z, NamesYears token.toList y z ∧
        y ≤ (localDate offset t).1 ∧ (localDate offset t).1 < z := by
  have hbetween : ∀ y z : Nat, (dayOf y 1 1 ≤ (t.seconds + offset.seconds) / Instant.secondsPerDay ∧
      (t.seconds + offset.seconds) / Instant.secondsPerDay < dayOf z 1 1) ↔
      (y ≤ (localDate offset t).1 ∧ (localDate offset t).1 < z) := by
    intro y z
    rw [dayOf_le_iff, lt_dayOf_iff]
    rfl
  simp only [InPeriod, yearRangePeriod?_eq_some_iff h]
  constructor
  · intro hex
    obtain ⟨span, ⟨y, z, hyz, rfl⟩, ht⟩ := hex
    rw [Span.contains_midnights] at ht
    exact ⟨y, z, hyz, (hbetween y z).1 ht⟩
  · intro hex
    obtain ⟨y, z, hyz, ht⟩ := hex
    exact ⟨_, ⟨y, z, hyz, rfl⟩, (Span.contains_midnights _ _ _ _).2 ((hbetween y z).2 ht)⟩

/-- **The instants of a month.** -/
theorem monthPeriod?_contains_iff (h : hasShape "####-##".toList token.toList = true) :
    InPeriod (monthPeriod? offset token) t ↔
      ∃ y m, NamesMonth token.toList y m ∧
        (localDate offset t).1 = y ∧ (localDate offset t).2.1 = m := by
  simp only [InPeriod, monthPeriod?_eq_some_iff h]
  constructor
  · intro hex
    obtain ⟨span, ⟨y, m, hym, hm, rfl⟩, ht⟩ := hex
    rw [Span.contains_midnights] at ht
    exact ⟨y, m, hym, (civil_month_eq_iff hm).2 ht⟩
  · intro hex
    obtain ⟨y, m, hym, hdate⟩ := hex
    -- a date that an instant has is one of the calendar
    have hm : 1 ≤ m ∧ m ≤ 12 := hdate.2 ▸ civil_month_mem _
    exact ⟨_, ⟨y, m, hym, hm, rfl⟩,
      (Span.contains_midnights _ _ _ _).2 ((civil_month_eq_iff hm).1 hdate)⟩

/-- **The instants of a day.** -/
theorem dayPeriod_contains_iff (h : hasShape "####-##-##".toList token.toList = true) :
    (∃ period, dayPeriod offset token = .ok period ∧ InPeriod period t) ↔
      ∃ y m d, NamesDay token.toList y m d ∧ localDate offset t = ((y : Int), m, d) := by
  obtain ⟨period, hok, heq⟩ := dayPeriod_eq offset h
  simp only [hok, Except.ok.injEq, exists_eq_left', InPeriod, heq]
  constructor
  · intro hex
    obtain ⟨span, ⟨y, m, d, hymd, hm, hd, rfl⟩, ht⟩ := hex
    rw [Span.contains_midnights] at ht
    exact ⟨y, m, d, hymd, civil_eq_iff.2 ⟨hm, hd, by omega⟩⟩
  · intro hex
    obtain ⟨y, m, d, hymd, hdate⟩ := hex
    obtain ⟨hm, hd, hday⟩ := civil_eq_iff.1 hdate
    exact ⟨_, ⟨y, m, d, hymd, hm, hd, rfl⟩, (Span.contains_midnights _ _ _ _).2 (by omega)⟩

end Query
end AlbumIndex
