import AlbumIndex.Proofs.Query.Draining
import Mathlib.Data.List.Nodup

/-!
# Dates part the images

The conditions on a year of four digits and on a month and a day of two find exactly the images that
were taken then, in local time.  Each of them comes to the ends of its period in a way of its own,
but the ends meet: what is found for the months of a year is what is found for the year, and no image
is found for two of them.  So it is with the days of a month and with the years of a range.

## Main definitions

* `yearToken`, `monthToken`, `dayToken`, `yearsToken` — the tokens of dates.
* `Scope.Finds`, `Scope.found` — the images that a condition finds, and their ranks.
* `Scope.ReadsDates` — what the conditions on dates find.

## Main results

* `Scope.Finds.found_perm` — what a condition finds that falls into parts.
* `Scope.readsDates` — the conditions on dates find the images of these dates.
* `dates_part_images` — **years fall into months, months into days and ranges into years.**
-/

namespace AlbumIndex
namespace Query

open Calendar Text

/-! ### Tokens of dates -/

def yearToken (year : Nat) : String := String.ofList (padded 4 year)

def yearsToken (first next : Nat) : String :=
  String.ofList (padded 4 first ++ '-' :: '-' :: padded 4 next)

def monthToken (year month : Nat) : String :=
  String.ofList (padded 4 year ++ '-' :: padded 2 month)

def dayToken (year month day : Nat) : String :=
  String.ofList (padded 4 year ++ '-' :: (padded 2 month ++ '-' :: padded 2 day))

theorem toList_yearToken (y : Nat) : (yearToken y).toList = padded 4 y := String.toList_ofList

theorem toList_yearsToken (y z : Nat) :
    (yearsToken y z).toList = padded 4 y ++ '-' :: '-' :: padded 4 z := String.toList_ofList

theorem toList_monthToken (y m : Nat) :
    (monthToken y m).toList = padded 4 y ++ '-' :: padded 2 m := String.toList_ofList

theorem toList_dayToken (y m d : Nat) :
    (dayToken y m d).toList = padded 4 y ++ '-' :: (padded 2 m ++ '-' :: padded 2 d) :=
  String.toList_ofList

section Tokens

variable {y z m d : Nat}

theorem writes_four (h : y ≤ 9999) : Writes 4 y (padded 4 y) :=
  writes_padded ((Nat.length_toDigits_le_iff (by decide) (by decide)).2 (by omega))

theorem writes_two (h : m ≤ 99) : Writes 2 m (padded 2 m) :=
  writes_padded ((Nat.length_toDigits_le_iff (by decide) (by decide)).2 (by omega))

/-- What is written is no other number. -/
theorem writes_iff {width n n' : Nat} {cs : List Char} (h : Writes width n cs) :
    Writes width n' cs ↔ n' = n := by
  constructor
  · intro h'
    exact h'.unique h
  · rintro rfl
    exact h

theorem hasShape_yearToken (hy : y ≤ 9999) :
    hasShape "####".toList (yearToken y).toList = true := by
  rw [toList_yearToken]
  exact hasShape_year.2 (writes_four hy).digitRun

theorem hasShape_yearsToken (hy : y ≤ 9999) (hz : z ≤ 9999) :
    hasShape "####--####".toList (yearsToken y z).toList = true := by
  rw [toList_yearsToken]
  exact hasShape_yearRange.2 ⟨_, _, rfl, (writes_four hy).digitRun, (writes_four hz).digitRun⟩

theorem hasShape_monthToken (hy : y ≤ 9999) (hm : m ≤ 99) :
    hasShape "####-##".toList (monthToken y m).toList = true := by
  rw [toList_monthToken]
  exact hasShape_month.2 ⟨_, _, rfl, (writes_four hy).digitRun, (writes_two hm).digitRun⟩

theorem hasShape_dayToken (hy : y ≤ 9999) (hm : m ≤ 99) (hd : d ≤ 99) :
    hasShape "####-##-##".toList (dayToken y m d).toList = true := by
  rw [toList_dayToken]
  exact hasShape_day.2
    ⟨_, _, _, rfl, (writes_four hy).digitRun, (writes_two hm).digitRun, (writes_two hd).digitRun⟩

/-- A token names its own year and no other. -/
theorem namesYear_yearToken (hy : y ≤ 9999) {y' : Nat} :
    NamesYear (yearToken y).toList y' ↔ y' = y := by
  rw [toList_yearToken, NamesYear, writes_iff (writes_four hy)]

theorem namesMonth_monthToken (hy : y ≤ 9999) (hm : m ≤ 99) {y' m' : Nat} :
    NamesMonth (monthToken y m).toList y' m' ↔ y' = y ∧ m' = m := by
  rw [toList_monthToken, namesMonth_append_iff (writes_four hy).digitRun,
    writes_iff (writes_four hy), writes_iff (writes_two hm)]

theorem namesDay_dayToken (hy : y ≤ 9999) (hm : m ≤ 99) (hd : d ≤ 99) {y' m' d' : Nat} :
    NamesDay (dayToken y m d).toList y' m' d' ↔ y' = y ∧ m' = m ∧ d' = d := by
  rw [toList_dayToken, namesDay_append_iff (writes_four hy).digitRun (writes_two hm).digitRun,
    writes_iff (writes_four hy), writes_iff (writes_two hm), writes_iff (writes_two hd)]

theorem namesYears_yearsToken (hy : y ≤ 9999) (hz : z ≤ 9999) {y' z' : Nat} :
    NamesYears (yearsToken y z).toList y' z' ↔ y' = y ∧ z' = z := by
  rw [toList_yearsToken]
  constructor
  · intro h
    obtain ⟨ys, zs, heq, hys, hzs⟩ := h
    obtain ⟨rfl, hrest⟩ := List.append_inj heq ((writes_four hy).1.trans hys.1.symm)
    obtain rfl := (List.cons.inj (List.cons.inj hrest).2).2
    exact ⟨hys.unique (writes_four hy), hzs.unique (writes_four hz)⟩
  · rintro ⟨rfl, rfl⟩
    exact ⟨_, _, rfl, writes_four hy, writes_four hz⟩

/-! ### Periods of such tokens -/

variable {offset : Offset} {t : Instant}

theorem inPeriod_yearToken (hy : y ≤ 9999) :
    InPeriod (yearPeriod? offset (yearToken y)) t ↔ (localDate offset t).1 = y := by
  rw [yearPeriod?_contains_iff (hasShape_yearToken hy)]
  constructor
  · rintro ⟨y', hnames, hdate⟩
    rwa [(namesYear_yearToken hy).1 hnames] at hdate
  · intro hdate
    exact ⟨y, (namesYear_yearToken hy).2 rfl, hdate⟩

theorem inPeriod_yearsToken (hy : y ≤ 9999) (hz : z ≤ 9999) :
    InPeriod (yearRangePeriod? offset (yearsToken y z)) t ↔
      y ≤ (localDate offset t).1 ∧ (localDate offset t).1 < z := by
  rw [yearRangePeriod?_contains_iff (hasShape_yearsToken hy hz)]
  constructor
  · rintro ⟨y', z', hnames, hdate⟩
    obtain ⟨rfl, rfl⟩ := (namesYears_yearsToken hy hz).1 hnames
    exact hdate
  · intro hdate
    exact ⟨y, z, (namesYears_yearsToken hy hz).2 ⟨rfl, rfl⟩, hdate⟩

theorem inPeriod_monthToken (hy : y ≤ 9999) (hm : m ≤ 99) :
    InPeriod (monthPeriod? offset (monthToken y m)) t ↔
      (localDate offset t).1 = y ∧ (localDate offset t).2.1 = m := by
  rw [monthPeriod?_contains_iff (hasShape_monthToken hy hm)]
  constructor
  · rintro ⟨y', m', hnames, hdate⟩
    obtain ⟨rfl, rfl⟩ := (namesMonth_monthToken hy hm).1 hnames
    exact hdate
  · intro hdate
    exact ⟨y, m, (namesMonth_monthToken hy hm).2 ⟨rfl, rfl⟩, hdate⟩

/-- Only a month that no year has is without a period. -/
theorem monthPeriod?_monthToken_eq_none_iff (hy : y ≤ 9999) (hm : m ≤ 99) :
    monthPeriod? offset (monthToken y m) = none ↔ ¬ (1 ≤ m ∧ m ≤ 12) := by
  have hperiod := fun span => @monthPeriod?_eq_some_iff offset _ span (hasShape_monthToken hy hm)
  constructor
  · intro hnone hmonth
    have hsome := (hperiod _).2 ⟨y, m, (namesMonth_monthToken hy hm).2 ⟨rfl, rfl⟩, hmonth, rfl⟩
    exact Option.some_ne_none _ (hsome.symm.trans hnone)
  · intro hmonth
    rw [Option.eq_none_iff_forall_ne_some]
    intro span hspan
    obtain ⟨y', m', hnames, hmonth', -⟩ := (hperiod span).1 hspan
    rw [((namesMonth_monthToken hy hm).1 hnames).2] at hmonth'
    exact hmonth hmonth'

/-- The period of a day, of which only a day that its month does not have is without. -/
theorem exists_dayPeriod_dayToken (hy : y ≤ 9999) (hm : m ≤ 99) (hd : d ≤ 99) (offset : Offset) :
    ∃ period, dayPeriod offset (dayToken y m d) = .ok period ∧
      (∀ t, InPeriod period t ↔ localDate offset t = ((y : Int), m, d)) ∧
      (period = none ↔ ¬ ((1 ≤ m ∧ m ≤ 12) ∧ 1 ≤ d ∧ d ≤ daysInMonth y m)) := by
  have hshape := hasShape_dayToken hy hm hd
  obtain ⟨period, hok, hperiod⟩ := dayPeriod_eq offset hshape
  refine ⟨period, hok, fun t => ?_, ?_⟩
  · have hcontains := @dayPeriod_contains_iff offset _ t hshape
    simp only [hok, Except.ok.injEq, exists_eq_left'] at hcontains
    rw [hcontains]
    constructor
    · rintro ⟨y', m', d', hnames, hdate⟩
      obtain ⟨rfl, rfl, rfl⟩ := (namesDay_dayToken hy hm hd).1 hnames
      exact hdate
    · intro hdate
      exact ⟨y, m, d, (namesDay_dayToken hy hm hd).2 ⟨rfl, rfl, rfl⟩, hdate⟩
  · constructor
    · rintro hnone ⟨hmonth, hday⟩
      have hsome := (hperiod _).2
        ⟨y, m, d, (namesDay_dayToken hy hm hd).2 ⟨rfl, rfl, rfl⟩, hmonth, hday, rfl⟩
      exact Option.some_ne_none _ (hsome.symm.trans hnone)
    · intro hdate
      rw [Option.eq_none_iff_forall_ne_some]
      intro span hspan
      obtain ⟨y', m', d', hnames, hmonth, hday, -⟩ := (hperiod span).1 hspan
      obtain ⟨rfl, rfl, rfl⟩ := (namesDay_dayToken hy hm hd).1 hnames
      exact hdate ⟨hmonth, hday⟩

end Tokens

/-! ### What a condition finds -/

namespace Scope

/-- The condition finds exactly the images of a property: its search begins and hands them out. -/
def Finds (s : Scope) (node : Node) (P : ImageRef → Prop) : Prop :=
  ∃ search, Search.begin s node = .ok search ∧ search.catalog = s.catalog ∧ search.HandsOut P

/-- The ranks of the images that a condition finds. -/
def found (s : Scope) (node : Node) : List Rank :=
  ((Search.begin s node).toOption.map Search.ranks).getD []

variable {s : Scope} {node : Node} {P : ImageRef → Prop}

namespace Finds

theorem pairwise (h : s.Finds node P) : (s.found node).Pairwise (· < ·) := by
  obtain ⟨search, hbegin, -, hout⟩ := h
  rw [found, hbegin]
  exact hout.ascending

theorem nodup (h : s.Finds node P) : (s.found node).Nodup :=
  h.pairwise.imp fun hlt => Nat.ne_of_lt hlt

theorem mem_found (h : s.Finds node P) {r : Rank} :
    r ∈ s.found node ↔ ∃ ref, s.catalog.ref? r = some ref ∧ P ref := by
  obtain ⟨search, hbegin, hcatalog, hout⟩ := h
  rw [found, hbegin, ← hcatalog]
  exact hout.mem_ranks r

/-- **What a condition finds that falls into parts** is found for one of the parts, and for one
only. -/
theorem found_perm (h : s.Finds node P) {keys : List Nat} (hkeys : keys.Nodup) {part : Nat → Node}
    {Q : Nat → ImageRef → Prop} (hpart : ∀ k ∈ keys, s.Finds (part k) (Q k))
    (hone : ∀ {i j ref}, Q i ref → Q j ref → i = j)
    (hcover : ∀ ref, P ref ↔ ∃ k ∈ keys, Q k ref) :
    (s.found node).Perm (keys.flatMap fun k => s.found (part k)) := by
  have happart : keys.Pairwise (Function.onFun List.Disjoint fun k => s.found (part k)) := by
    refine hkeys.imp_of_mem ?_
    intro i j hi hj hne r hri hrj
    obtain ⟨ref, href, hQi⟩ := (hpart i hi).mem_found.1 hri
    obtain ⟨ref', href', hQj⟩ := (hpart j hj).mem_found.1 hrj
    obtain rfl := Option.some.inj (href.symm.trans href')
    exact hne (hone hQi hQj)
  have hnodup := List.nodup_flatMap.2 ⟨fun k hk => (hpart k hk).nodup, happart⟩
  rw [List.perm_ext_iff_of_nodup h.nodup hnodup]
  intro r
  rw [h.mem_found, List.mem_flatMap]
  constructor
  · intro hex
    obtain ⟨ref, href, hP⟩ := hex
    obtain ⟨k, hk, hQ⟩ := (hcover ref).1 hP
    exact ⟨k, hk, (hpart k hk).mem_found.2 ⟨ref, href, hQ⟩⟩
  · intro hex
    obtain ⟨k, hk, hr⟩ := hex
    obtain ⟨ref, href, hQ⟩ := (hpart k hk).mem_found.1 hr
    exact ⟨ref, href, (hcover ref).2 ⟨k, hk, hQ⟩⟩

end Finds

/-- A condition on a period finds the images of the period, in whatever way keywords are used. -/
theorem finds_period (hbuilt : ∃ albums people, s.catalog = Catalog.ofAlbums albums people)
    {period : Option Span} (hopen : node.open s = .ok (s.period period))
    (hP : ∀ ref, InPeriod period ref.image.itemTime ↔ P ref) : s.Finds node P := by
  have hordered : Scope.Ordered { s with mode := .literal } := ⟨hbuilt, nofun⟩
  have hselects := (hordered.selects_period period).congr fun _ ref _ => hP ref
  refine ⟨⟨s.catalog, s.period period, false⟩, ?_, rfl, hselects.handsOut⟩
  rw [Search.begin, hopen]
  rfl

/-! ### What the conditions on dates find -/

/-- Year, month and day of an image, in local time. -/
def dateOf (s : Scope) (ref : ImageRef) : Int × Nat × Nat := localDate s.offset ref.image.itemTime

/-- The conditions on dates find the images of these dates, and make no sense where the calendar has
no such month or day. -/
structure ReadsDates (s : Scope) : Prop where
  year : ∀ y ≤ 9999, s.Finds (.year (yearToken y)) fun ref => (s.dateOf ref).1 = y
  month : ∀ y ≤ 9999, ∀ m ≤ 99, s.Finds (.month (monthToken y m)) fun ref =>
    (s.dateOf ref).1 = y ∧ (s.dateOf ref).2.1 = m
  month_absent : ∀ y ≤ 9999, ∀ m ≤ 99,
    ((Node.month (monthToken y m)).open s = .ok none ↔ ¬ (1 ≤ m ∧ m ≤ 12))
  day : ∀ y ≤ 9999, ∀ m ≤ 99, ∀ d ≤ 99, s.Finds (.day (dayToken y m d)) fun ref =>
    s.dateOf ref = ((y : Int), m, d)
  day_absent : ∀ y ≤ 9999, ∀ m ≤ 99, ∀ d ≤ 99, ((Node.day (dayToken y m d)).open s = .ok none ↔
    ¬ ((1 ≤ m ∧ m ≤ 12) ∧ 1 ≤ d ∧ d ≤ daysInMonth y m))
  yearRange : ∀ a ≤ 9999, ∀ b ≤ 9999, s.Finds (.yearRange (yearsToken a b)) fun ref =>
    a ≤ (s.dateOf ref).1 ∧ (s.dateOf ref).1 < b

/-- A condition on a period makes no sense if there is none. -/
theorem period_eq_none_iff {period : Option Span} : s.period period = none ↔ period = none :=
  Option.map_eq_none_iff

theorem open_day_eq {token : String} {period : Option Span}
    (h : dayPeriod s.offset token = .ok period) : (Node.day token).open s = .ok (s.period period) := by
  rw [Node.open, h]
  rfl

/-- **The conditions on dates find the images of these dates.** -/
theorem readsDates (hbuilt : ∃ albums people, s.catalog = Catalog.ofAlbums albums people) :
    s.ReadsDates where
  year := by
    intro y hy
    exact finds_period hbuilt rfl fun ref => inPeriod_yearToken hy
  month := by
    intro y hy m hm
    exact finds_period hbuilt rfl fun ref => inPeriod_monthToken hy hm
  month_absent := by
    intro y hy m hm
    rw [Node.open, Except.ok.injEq, period_eq_none_iff]
    exact monthPeriod?_monthToken_eq_none_iff hy hm
  day := by
    intro y hy m hm d hd
    obtain ⟨period, hok, hdates, -⟩ := exists_dayPeriod_dayToken hy hm hd s.offset
    exact finds_period hbuilt (open_day_eq hok) fun ref => hdates _
  day_absent := by
    intro y hy m hm d hd
    obtain ⟨period, hok, -, hnone⟩ := exists_dayPeriod_dayToken hy hm hd s.offset
    rw [open_day_eq hok, Except.ok.injEq, period_eq_none_iff]
    exact hnone
  yearRange := by
    intro a ha b hb
    exact finds_period hbuilt rfl fun ref => inPeriod_yearsToken ha hb

/-! ### Parts -/

/-- A year falls into its months. -/
theorem ReadsDates.year_perm (h : s.ReadsDates) {y : Nat} (hy : y ≤ 9999) :
    (s.found (.year (yearToken y))).Perm
      ((List.range' 1 12).flatMap fun m => s.found (.month (monthToken y m))) := by
  refine (h.year y hy).found_perm List.nodup_range' (fun m hm => h.month y hy m ?_) ?_ fun ref => ?_
  · rw [List.mem_range'_1] at hm
    omega
  · rintro m m' ref ⟨-, hm⟩ ⟨-, hm'⟩
    exact hm.symm.trans hm'
  · constructor
    · intro hyear
      have hmonth : 1 ≤ (s.dateOf ref).2.1 ∧ (s.dateOf ref).2.1 ≤ 12 := civil_month_mem _
      exact ⟨_, List.mem_range'_1.2 (by omega), hyear, rfl⟩
    · rintro ⟨m, -, hyear, -⟩
      exact hyear

/-- A month falls into its days. -/
theorem ReadsDates.month_perm (h : s.ReadsDates) {y m : Nat} (hy : y ≤ 9999) (hm : m ≤ 99) :
    (s.found (.month (monthToken y m))).Perm
      ((List.range' 1 (daysInMonth y m)).flatMap fun d => s.found (.day (dayToken y m d))) := by
  have hdays := daysInMonth_le y m
  refine (h.month y hy m hm).found_perm List.nodup_range' (fun d hd => h.day y hy m hm d ?_) ?_
    fun ref => ?_
  · rw [List.mem_range'_1] at hd
    omega
  · intro d d' ref hd hd'
    exact (Prod.mk.inj (Prod.mk.inj (hd.symm.trans hd')).2).2
  · constructor
    · rintro ⟨hyear, hmonth⟩
      obtain ⟨-, hday, -⟩ := civil_eq_iff.1 (show s.dateOf ref =
        ((s.dateOf ref).1, (s.dateOf ref).2.1, (s.dateOf ref).2.2) from rfl)
      rw [hyear, hmonth] at hday
      refine ⟨(s.dateOf ref).2.2, List.mem_range'_1.2 (by omega), ?_⟩
      rw [← hyear, ← hmonth]
    · rintro ⟨d, -, hdate⟩
      rw [hdate]
      exact ⟨rfl, rfl⟩

/-- A range falls into its years. -/
theorem ReadsDates.yearRange_perm (h : s.ReadsDates) {a b : Nat} (ha : a ≤ 9999) (hb : b ≤ 9999) :
    (s.found (.yearRange (yearsToken a b))).Perm
      ((List.range' a (b - a)).flatMap fun y => s.found (.year (yearToken y))) := by
  refine (h.yearRange a ha b hb).found_perm List.nodup_range' (fun y hy => h.year y ?_) ?_ fun ref => ?_
  · rw [List.mem_range'_1] at hy
    omega
  · intro y y' ref hy hy'
    omega
  · constructor
    · rintro ⟨hlo, hhi⟩
      refine ⟨(s.dateOf ref).1.toNat, List.mem_range'_1.2 (by omega), by omega⟩
    · rintro ⟨y, hy, hyear⟩
      rw [List.mem_range'_1] at hy
      omega

end Scope

/-- **The conditions on dates find the images of these dates, and part them**: what is found for a
year is found for one of its months, what is found for a month for one of its days, and what is found
for a range for one of its years. -/
theorem dates_part_images (albums : List Album) (people : Aliases) (mode : KeywordMode)
    (offset : Offset) :
    let s : Scope := ⟨Catalog.ofAlbums albums people, mode, offset⟩
    s.ReadsDates ∧
      (∀ y ≤ 9999, (s.found (.year (yearToken y))).Perm
        ((List.range' 1 12).flatMap fun m => s.found (.month (monthToken y m)))) ∧
      (∀ y ≤ 9999, ∀ m ≤ 99, (s.found (.month (monthToken y m))).Perm
        ((List.range' 1 (daysInMonth y m)).flatMap fun d => s.found (.day (dayToken y m d)))) ∧
      ∀ a ≤ 9999, ∀ b ≤ 9999, (s.found (.yearRange (yearsToken a b))).Perm
          ((List.range' a (b - a)).flatMap fun y => s.found (.year (yearToken y))) ∧
        (b ≤ a → s.found (.yearRange (yearsToken a b)) = []) := by
  intro s
  have hreads : s.ReadsDates := Scope.readsDates ⟨albums, people, rfl⟩
  refine ⟨hreads, fun y hy => hreads.year_perm hy, fun y hy m hm => hreads.month_perm hy hm, ?_⟩
  intro a ha b hb
  have hyears := hreads.yearRange_perm ha hb
  refine ⟨hyears, fun hempty => ?_⟩
  rw [Nat.sub_eq_zero_of_le hempty] at hyears
  exact hyears.eq_nil

/-- Half an hour before the new year and half a second before the first of March, for which local
time is one hour ahead. -/
theorem dates_part_images_at_midnight :
    let images := [Image.new "a.jpg" [] .epoch ⟨1577835000, 0⟩,
      Image.new "b.jpg" [] .epoch ⟨1583017199, 500000000⟩]
    let s : Scope := ⟨Catalog.ofAlbums [⟨"walks", .epoch, .epoch, images⟩] .empty, .priority,
      Offset.ofHours 1⟩
    2020 ≤ 9999 ∧ 2 ≤ 99 ∧ s.found (.yearRange (yearsToken 2019 2021)) = [0, 1] ∧
      s.found (.year (yearToken 2019)) = [] ∧
      s.found (.month (monthToken 2020 2)) = [1] ∧
      (s.found (.month (monthToken 2020 2))).Perm
        ((List.range' 1 29).flatMap fun d => s.found (.day (dayToken 2020 2 d))) := by
  intro images s
  obtain ⟨-, -, hmonth, -⟩ := dates_part_images [⟨"walks", .epoch, .epoch, images⟩] .empty .priority
    (Offset.ofHours 1)
  refine ⟨by decide, by decide, ?_, ?_, ?_, hmonth 2020 (by decide) 2 (by decide)⟩
  · decide +kernel
  · decide +kernel
  · decide +kernel

end Query
end AlbumIndex
