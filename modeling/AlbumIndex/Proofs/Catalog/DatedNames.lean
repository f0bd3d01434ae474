import AlbumIndex.Album
import AlbumIndex.Proofs.Query.Partition
import AlbumIndex.Proofs.Text.Pieces

/-!
# Dates in the names of albums

A path names the date that its last component begins with; a component without a date leaves that to
the components before it.  Whatever follows in the name, a day, a month or a year that it begins with
is read back, provided that no hyphen follows the month or the year.  For four patterns are tried,
each on so many bytes of the name, and a pattern for more than the name says is tried before the
right one.  But the reader takes the digits of a number whole, so it gets stuck at the first character
that follows them: all that could carry it on is a hyphen.  Where the bytes end inside a character,
or the name is too short, the pattern is not even tried.

## Main definitions

* `Undated` — no pattern reads a date at the beginning of a name.
* `Leads` — the front of a path, up to its last component.

## Main results

* `dateOfName?_day`, `dateOfName?_month`, `dateOfName?_year` — what a name begins with is read back.
* `dateOfPath?_append` — a path names the date of its last component, or that of the path before it.
* `written_dates_read_back` — **dates written into the names of albums are read back.**
-/

namespace AlbumIndex

open Calendar Text
open Query (yearToken monthToken dayToken toList_yearToken toList_monthToken toList_dayToken
  writes_four writes_two)

/-! ### Written numbers -/

namespace Calendar

variable {width n : Nat} {cs : List Char}

theorem Writes.byteLength_eq (h : Writes width n cs) : byteLength cs = width := by
  rw [byteLength_of_lt, h.1]
  intro c hc
  have hdigit := List.all_eq_true.1 h.2.1 c hc
  simp only [isAsciiDigit, Bool.and_eq_true, decide_eq_true_eq] at hdigit
  have hle : c.toNat ≤ 57 := hdigit.2
  omega

theorem Writes.slash_notMem (h : Writes width n cs) : '/' ∉ cs :=
  fun hc => absurd (List.all_eq_true.1 h.2.1 _ hc) (by decide)

end Calendar

/-! ### Names that begin with a date -/

/-- No pattern reads a date at the beginning of the name. -/
structure Undated (name : List Char) : Prop where
  day : fullDateOfName? name = none
  month : monthOfName? name = none
  year : yearOfName? name = none
  named_twelve : namedDateOfName? 12 name = none
  named_eleven : namedDateOfName? 11 name = none

theorem Undated.dateOfName? {name : List Char} (h : Undated name) : dateOfName? name = none := by
  rw [AlbumIndex.dateOfName?, h.day, h.month, h.year, h.named_twelve, h.named_eleven]
  rfl

section Names

variable {y : Nat} {ys ms ds q rest : List Char} {date : Date}

theorem bytePrefix?_of_byteLength {k n : Nat} (hq : byteLength q = k) (hk : k ≤ n) :
    bytePrefix? n (q ++ rest) = (bytePrefix? (n - k) rest).map (q ++ ·) := by
  rw [← bytePrefix?_append_add, hq, Nat.add_sub_cancel' hk]

/-- What is read in more bytes than the front takes goes on with the character that follows it. -/
theorem bind_bytePrefix?_eq_none {k n : Nat} (hq : byteLength q = k) (hk : k < n)
    (hrest : rest.head? ≠ some '-') {f : List Char → Option Date}
    (hf : ∀ c cs, c ≠ '-' → f (q ++ c :: cs) = none) : (bytePrefix? n (q ++ rest)).bind f = none := by
  rw [bytePrefix?_of_byteLength hq (Nat.le_of_lt hk)]
  cases hcut : bytePrefix? (n - k) rest with
  | none => rfl
  | some p =>
    obtain ⟨c, cs, p', rfl, rfl⟩ := eq_cons_of_bytePrefix? (Nat.sub_pos_of_lt hk) hcut
    apply hf
    rintro rfl
    exact hrest rfl

/-- **A name that begins with a day is of that day**, whatever follows. -/
theorem dateOfName?_day (hy : Writes 4 y ys) (hyear : date.year = y) (hm : Writes 2 date.month ms)
    (hd : Writes 2 date.day ds) :
    dateOfName? (ys ++ '-' :: (ms ++ '-' :: ds) ++ rest) = some date := by
  have hlen : byteLength (ys ++ '-' :: (ms ++ '-' :: ds)) = 10 := by
    simp [byteLength_append, hy.byteLength_eq, hm.byteLength_eq, hd.byteLength_eq,
      utf8Size_of_lt (c := '-') (by decide)]
  have hfull : fullDateOfName? (ys ++ '-' :: (ms ++ '-' :: ds) ++ rest) = some date := by
    rw [fullDateOfName?, ← hlen, bytePrefix?_append, Option.bind_some]
    exact (readDate?_digits_eq_some_iff hy.digitRun hm.digitRun hd.digitRun).2
      ⟨⟨y, hy, hyear⟩, hm, hd⟩
  rw [dateOfName?, hfull]
  rfl

/-- **A name that begins with a month is of the first of that month**, unless a hyphen follows. -/
theorem dateOfName?_month (hy : Writes 4 y ys) (hyear : date.year = y) (hm : Writes 2 date.month ms)
    (hday : date.day = 1) (hrest : rest.head? ≠ some '-') :
    dateOfName? (ys ++ '-' :: ms ++ rest) = some date := by
  have hlen : byteLength (ys ++ '-' :: ms) = 7 := by
    simp [byteLength_append, hy.byteLength_eq, hm.byteLength_eq,
      utf8Size_of_lt (c := '-') (by decide)]
  have hfull : fullDateOfName? (ys ++ '-' :: ms ++ rest) = none :=
    bind_bytePrefix?_eq_none hlen (by decide) hrest fun _ _ hc => readDate?_month_stuck hy hm hc
  have hfirst : Writes 2 date.day "01".toList := by
    rw [hday]
    decide
  have hmonth : monthOfName? (ys ++ '-' :: ms ++ rest) = some date := by
    rw [monthOfName?, ← hlen, bytePrefix?_append, Option.bind_some, List.append_assoc]
    exact (readDate?_digits_eq_some_iff hy.digitRun hm.digitRun hfirst.digitRun).2
      ⟨⟨y, hy, hyear⟩, hm, hfirst⟩
  rw [dateOfName?, hfull, hmonth]
  rfl

/-- **A name that begins with a year is of the first of January**, unless a hyphen follows. -/
theorem dateOfName?_year (hy : Writes 4 y ys) (hyear : date.year = y) (hmonth : date.month = 1)
    (hday : date.day = 1) (hrest : rest.head? ≠ some '-') :
    dateOfName? (ys ++ rest) = some date := by
  have hlen : byteLength ys = 4 := hy.byteLength_eq
  have hfull : fullDateOfName? (ys ++ rest) = none :=
    bind_bytePrefix?_eq_none hlen (by decide) hrest fun _ _ hc => readDate?_year_stuck hy hc
  have hnoMonth : monthOfName? (ys ++ rest) = none := by
    apply bind_bytePrefix?_eq_none hlen (by decide) hrest
    intro c cs hc
    rw [List.append_assoc]
    exact readDate?_year_stuck hy hc
  have hstart : yearOfName? (ys ++ rest) = some date := by
    rw [yearOfName?, ← hlen, bytePrefix?_append, Option.bind_some, if_pos hy.2.1, hy.2.2]
    exact Date.of?_eq_some_iff.2 ⟨hyear, hmonth, hday⟩
  rw [dateOfName?, hfull, hnoMonth, hstart]
  rfl

end Names

/-! ### Paths -/

/-- The text leads from the path before it to a last component: it is empty, and so is the path, or
it is the path and a slash. -/
def Leads (dir parent : String) : Prop := (dir = "" ∧ parent = "") ∨ dir = parent ++ "/"

instance (dir parent : String) : Decidable (Leads dir parent) := inferInstanceAs (Decidable (_ ∨ _))

section Paths

variable {dir parent name : String}

/-- **A path names the date of its last component**, or else that of the path before it. -/
theorem dateOfPath?_append (hdir : Leads dir parent) (hname : '/' ∉ name.toList) :
    dateOfPath? (dir ++ name) = (dateOfName? name.toList).or (dateOfPath? parent) := by
  have hpiece : pieces (· == '/') name.toList = [name.toList] := by
    apply pieces_of_forall_not
    intro c hc
    apply beq_eq_false_iff_ne.2
    rintro rfl
    exact hname hc
  rcases hdir with ⟨rfl, rfl⟩ | rfl
  · have hroot : dateOfPath? "" = none := by decide +kernel
    rw [String.empty_append, hroot, Option.or_none, dateOfPath?, hpiece]
    simp
  · have hlist : (parent ++ "/" ++ name).toList = parent.toList ++ '/' :: name.toList := by simp
    rw [dateOfPath?, hlist, pieces_append (by decide), hpiece, List.reverse_append,
      List.reverse_singleton, List.singleton_append, List.findSome?_cons]
    cases dateOfName? name.toList <;> rfl

theorem guessInstant?_of_name (hdir : Leads dir parent) (hname : '/' ∉ name.toList) {date : Date}
    {y : Nat} (hdate : dateOfName? name.toList = some date) (hy : y ≤ 9999) (hyear : date.year = y)
    (offset : Offset) :
    guessInstant? (dir ++ name) offset =
      some (localMidnight offset (dayOf y date.month date.day)) := by
  rw [guessInstant?, dateOfPath?_append hdir hname, hdate, Option.some_or, Option.bind_some]
  exact Query.midnight?_of_le offset (by omega) hyear

end Paths

/-- **Dates written into the names of albums are read back.**  A path whose last component begins
with a day, with four, two and two digits, names the midnight of that day, in local time at any
offset.  If the component begins with a month or a year, and not with a hyphen after that, the path
names the first day of it.  A last component without a date leaves it to the path before. -/
theorem written_dates_read_back (offset : Offset) {dir parent rest : String}
    (hdir : Leads dir parent) (hrest : '/' ∉ rest.toList) :
    (∀ (date : Date) (y : Nat), y ≤ 9999 → date.year = y →
      guessInstant? (dir ++ dayToken y date.month date.day ++ rest) offset =
        some (localMidnight offset date.dayNumber)) ∧
      (rest.toList.head? ≠ some '-' → ∀ y m : Nat, y ≤ 9999 → 1 ≤ m ∧ m ≤ 12 →
        guessInstant? (dir ++ monthToken y m ++ rest) offset =
            some (localMidnight offset (dayOf y m 1)) ∧
          guessInstant? (dir ++ yearToken y ++ rest) offset =
            some (localMidnight offset (dayOf y 1 1))) ∧
      (Undated rest.toList → guessInstant? (dir ++ rest) offset = guessInstant? parent offset) := by
  refine ⟨?day, ?month_and_year, ?undated⟩
  case day =>
    intro date y hy hyear
    have hdays := daysInMonth_le date.year date.month
    have hm : Writes 2 date.month (padded 2 date.month) :=
      writes_two (Nat.le_trans date.month_mem.2 (by decide))
    have hd : Writes 2 date.day (padded 2 date.day) :=
      writes_two (Nat.le_trans date.day_mem.2 (by omega))
    have hname : (dayToken y date.month date.day ++ rest).toList =
        padded 4 y ++ '-' :: (padded 2 date.month ++ '-' :: padded 2 date.day) ++ rest.toList := by
      rw [String.toList_append, toList_dayToken]
    have hread : dateOfName? (dayToken y date.month date.day ++ rest).toList = some date := by
      rw [hname]
      exact dateOfName?_day (writes_four hy) hyear hm hd
    rw [String.append_assoc, date.dayNumber_eq, hyear]
    refine guessInstant?_of_name hdir ?_ hread hy hyear offset
    simp [hname, (writes_four hy).slash_notMem, hm.slash_notMem, hd.slash_notMem, hrest]
  case month_and_year =>
    intro hhead y m hy hmonth
    have hyear := Query.year_mem_of_le (Nat.le_succ_of_le hy)
    have hm : Writes 2 m (padded 2 m) := writes_two (by omega)
    have hmonthName : (monthToken y m ++ rest).toList =
        padded 4 y ++ '-' :: padded 2 m ++ rest.toList := by
      rw [String.toList_append, toList_monthToken]
    have hyearName : (yearToken y ++ rest).toList = padded 4 y ++ rest.toList := by
      rw [String.toList_append, toList_yearToken]
    have hmonthRead : dateOfName? (monthToken y m ++ rest).toList =
        some ⟨y, m, 1, hyear, hmonth, Query.first_mem y m⟩ := by
      rw [hmonthName]
      exact dateOfName?_month (writes_four hy) rfl hm rfl hhead
    have hyearRead : dateOfName? (yearToken y ++ rest).toList =
        some ⟨y, 1, 1, hyear, by decide, Query.first_mem y 1⟩ := by
      rw [hyearName]
      exact dateOfName?_year (writes_four hy) rfl rfl rfl hhead
    rw [String.append_assoc, String.append_assoc]
    constructor
    · refine guessInstant?_of_name hdir ?_ hmonthRead hy rfl offset
      simp [hmonthName, (writes_four hy).slash_notMem, hm.slash_notMem, hrest]
    · refine guessInstant?_of_name hdir ?_ hyearRead hy rfl offset
      simp [hyearName, (writes_four hy).slash_notMem, hrest]
  case undated =>
    intro h
    rw [guessInstant?, dateOfPath?_append hdir hrest, h.dateOfName?, Option.none_or, guessInstant?]

/-- A pattern may end inside a character of what follows, and another date may stand before. -/
theorem written_dates_before_accents :
    Leads "1990/" "1990" ∧ '/' ∉ "éé".toList ∧
      guessInstant? "1990/2019-07-14éé" (Offset.ofHours (-8)) = some (.ofSeconds 1563091200) ∧
      guessInstant? "1990/2018-03éé" (Offset.ofHours (-8)) = some (.ofSeconds 1519891200) ∧
      guessInstant? "1990/2018éé" (Offset.ofHours (-8)) = some (.ofSeconds 1514793600) ∧
      guessInstant? "1990/éé" (Offset.ofHours (-8)) = guessInstant? "1990" (Offset.ofHours (-8)) := by
  have hdir : Leads "1990/" "1990" := by decide
  have hrest : '/' ∉ "éé".toList := by decide
  have haccents : Undated "éé".toList := by constructor <;> decide +kernel
  obtain ⟨hday, hmonth, hundated⟩ := written_dates_read_back (Offset.ofHours (-8)) hdir hrest
  have hjuly := hday ⟨2019, 7, 14, by decide, by decide, by decide⟩ 2019 (by decide) rfl
  obtain ⟨hmarch, hyear⟩ := hmonth (by decide) 2018 3 (by decide) (by decide)
  exact ⟨hdir, hrest, hjuly, hmarch, hyear, hundated haccents⟩

end AlbumIndex
