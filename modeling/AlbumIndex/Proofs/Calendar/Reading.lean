import AlbumIndex.Calendar.Reading
import Mathlib.Data.List.TakeWhile

/-!
# Dates written with digits

Where a year, a month and a day stand with four, two and two digits and hyphens between, the reader
of dates takes each of them whole: no blank, no sign and no shorter number can be meant.  The digits
may be those of any script, though, and the reader knows only ten of them.  At any other it stops in
the middle of its number, and then neither a hyphen nor the end follows.

## Main definitions

* `DigitRun` — a number of digits of any script.
* `Writes` — a number written with a number of ASCII digits.

## Main results

* `readDate?_digits_eq_some_iff` — **the date that such a text writes.**
* `day_eq_one_of_readDate?` — what is read of a month with its first day behind it.
* `readDate?_year_stuck`, `readDate?_month_stuck` — a text that goes on without a hyphen is no date.
-/

namespace AlbumIndex
namespace Calendar

open Text

/-! ### Digits and blanks -/

theorem inRanges_eq_false {rs ss : List (Nat × Nat)} {c : Char}
    (h : ∀ r ∈ rs, ∀ s ∈ ss, r.2 < s.1 ∨ s.2 < r.1) (hc : inRanges rs c = true) :
    inRanges ss c = false := by
  simp only [inRanges, List.any_eq_true, Bool.and_eq_true, decide_eq_true_eq] at hc
  obtain ⟨r, hr, hlo, hhi⟩ := hc
  simp only [inRanges, List.any_eq_false, Bool.and_eq_true, decide_eq_true_eq]
  intro s hs hin
  have := h r hr s hs
  omega

theorem isBlank_of_isDigit {c : Char} (h : isDigit c = true) : isBlank c = false :=
  inRanges_eq_false (by decide) h

theorem ne_hyphen_of_isDigit {c : Char} (h : isDigit c = true) : c ≠ '-' := by
  rintro rfl
  revert h
  decide

theorem ne_plus_of_isDigit {c : Char} (h : isDigit c = true) : c ≠ '+' := by
  rintro rfl
  revert h
  decide

/-- The text consists of so many decimal digits, of any script. -/
def DigitRun (width : Nat) (cs : List Char) : Prop :=
  cs.length = width ∧ ∀ c ∈ cs, isDigit c = true

/-- The text writes the number with so many ASCII digits. -/
def Writes (width n : Nat) (cs : List Char) : Prop :=
  cs.length = width ∧ cs.all isAsciiDigit = true ∧ digitsValue cs = n

instance (width n : Nat) (cs : List Char) : Decidable (Writes width n cs) :=
  inferInstanceAs (Decidable (_ ∧ _ ∧ _))

theorem digitValue_le {c : Char} (h : isAsciiDigit c = true) : digitValue c ≤ 9 := by
  simp only [isAsciiDigit, Bool.and_eq_true, decide_eq_true_eq] at h
  have h₁ : '0'.toNat ≤ c.toNat := h.1
  have h₂ : c.toNat ≤ '9'.toNat := h.2
  have h₀ : '0'.toNat = 48 := rfl
  have h₉ : '9'.toNat = 57 := rfl
  unfold digitValue
  omega

/-- A number of four digits lies below ten thousand. -/
theorem Writes.lt {n : Nat} {cs : List Char} (h : Writes 4 n cs) : n < 10000 := by
  obtain ⟨hlen, hall, rfl⟩ := h
  match cs, hlen, hall with
  | [a, b, c, d], _, hall =>
    have hdigits := List.all_eq_true.1 hall
    have ha := digitValue_le (hdigits a (by simp))
    have hb := digitValue_le (hdigits b (by simp))
    have hc := digitValue_le (hdigits c (by simp))
    have hd := digitValue_le (hdigits d (by simp))
    simp only [digitsValue, List.foldl_cons, List.foldl_nil]
    omega

theorem Writes.unique {width n m : Nat} {cs : List Char} (h : Writes width n cs)
    (h' : Writes width m cs) : n = m := h.2.2.symm.trans h'.2.2

theorem isDigit_of_isAsciiDigit {c : Char} (h : isAsciiDigit c = true) : isDigit c = true := by
  have hfirst : (decide (48 ≤ c.toNat) && decide (c.toNat ≤ 57)) = true := h
  rw [isDigit, inRanges, digitRanges, List.any_cons, hfirst, Bool.true_or]

theorem Writes.digitRun {width n : Nat} {cs : List Char} (h : Writes width n cs) :
    DigitRun width cs :=
  ⟨h.1, fun c hc => isDigit_of_isAsciiDigit (List.all_eq_true.1 h.2.1 c hc)⟩

/-- A number with no more digits than there are places is written with leading zeros. -/
theorem writes_padded {width n : Nat} (h : (natDigits n).length ≤ width) :
    Writes width n (padded width n) := by
  have hvalue : ∀ cs, digitsValue cs = Nat.ofDigitChars 10 cs 0 := by
    intro cs
    rw [Nat.ofDigitChars_eq_foldl]
    rfl
  refine ⟨?_, ?_, ?_⟩
  · rw [padded, List.length_append, List.length_replicate]
    omega
  · rw [padded, List.all_append, Bool.and_eq_true, List.all_eq_true, List.all_eq_true]
    constructor
    · intro c hc
      rw [List.eq_of_mem_replicate hc]
      rfl
    · exact fun c hc => Nat.isDigit_of_mem_toDigits (by decide) (by decide) hc
  · rw [hvalue, padded, Nat.ofDigitChars_append, Nat.ofDigitChars_replicate_zero, Nat.mul_zero,
      natDigits, Nat.ofDigitChars_ten_toDigits]

/-! ### Numbers -/

section Numbers

variable {width n m : Nat} {ds rest : List Char}

/-- The digits that the reader looks at are those of the run. -/
theorem readNumber?_append (h : ds.length = width) :
    readNumber? (some width) (ds ++ rest) =
      if (ds.takeWhile isAsciiDigit).isEmpty then none
      else some (digitsValue (ds.takeWhile isAsciiDigit),
        (ds ++ rest).drop (ds.takeWhile isAsciiDigit).length) := by
  simp [readNumber?, ← h]

theorem readNumber?_of_writes (h : Writes (width + 1) n ds) :
    readNumber? (some (width + 1)) (ds ++ rest) = some (n, rest) := by
  obtain ⟨hlen, hall, rfl⟩ := h
  have htake : ds.takeWhile isAsciiDigit = ds :=
    List.takeWhile_eq_self_iff.2 (List.all_eq_true.1 hall)
  have hne : ds.isEmpty = false := by
    cases ds with
    | nil => cases hlen
    | cons c ds => rfl
  rw [readNumber?_append hlen, htake, hne]
  simp

/-- At a digit of another script the reader stops in front of it. -/
theorem readNumber?_stuck (h : DigitRun width ds) (hn : ∀ n, ¬ Writes width n ds)
    {left : List Char} (hr : readNumber? (some width) (ds ++ rest) = some (m, left)) :
    ∃ c cs, left = c :: cs ∧ isDigit c = true := by
  obtain ⟨hlen, hdig⟩ := h
  have hall : ds.all isAsciiDigit ≠ true := fun hall => hn _ ⟨hlen, hall, rfl⟩
  rw [readNumber?_append hlen] at hr
  split at hr
  · cases hr
  · obtain ⟨-, rfl⟩ := Prod.mk.inj (Option.some.inj hr)
    have hsplit := List.takeWhile_append_dropWhile (p := isAsciiDigit) (l := ds)
    cases hdrop : ds.dropWhile isAsciiDigit with
    | nil =>
      rw [hdrop, List.append_nil] at hsplit
      exact absurd (List.all_eq_true.2 (List.takeWhile_eq_self_iff.1 hsplit)) hall
    | cons c cs =>
      refine ⟨c, cs ++ rest, ?_, hdig c ?_⟩
      · have hds : ds = ds.takeWhile isAsciiDigit ++ c :: cs := hdrop ▸ hsplit.symm
        generalize ds.takeWhile isAsciiDigit = pre at hds
        subst hds
        rw [List.append_assoc, List.drop_left]
        rfl
      · rw [← hsplit, hdrop]
        simp

end Numbers

/-! ### Fields -/

section Fields

variable {r r' : Reading} {ds rest left : List Char}

theorem trimStart_digits {width : Nat} (h : DigitRun (width + 1) ds) :
    trimStart (ds ++ rest) = ds ++ rest := by
  cases ds with
  | nil => exact absurd h.1 (by simp)
  | cons c ds =>
    have hc := isBlank_of_isDigit (h.2 c List.mem_cons_self)
    simp [trimStart, hc]

/-- A year of four digits has no sign. -/
theorem read?_year (h : DigitRun 4 ds) :
    Field.year.read? r (ds ++ rest) = (readNumber? (some 4) (ds ++ rest)).map fun x =>
      ({ r with year := (x.1 : Int) }, x.2) := by
  rw [Field.read?, trimStart_digits h]
  cases ds with
  | nil => exact absurd h.1 (by decide)
  | cons c ds =>
    have hc := h.2 c List.mem_cons_self
    split
    · next heq => exact absurd (List.cons.inj heq).1 (ne_hyphen_of_isDigit hc)
    · next heq => exact absurd (List.cons.inj heq).1 (ne_plus_of_isDigit hc)
    · rfl

theorem read?_month (h : DigitRun 2 ds) :
    Field.month.read? r (ds ++ rest) = (readNumber? (some 2) (ds ++ rest)).map fun x =>
      ({ r with month := x.1 }, x.2) := by
  rw [Field.read?, trimStart_digits h]

theorem read?_day (h : DigitRun 2 ds) :
    Field.day.read? r (ds ++ rest) = (readNumber? (some 2) (ds ++ rest)).map fun x =>
      ({ r with day := x.1 }, x.2) := by
  rw [Field.read?, trimStart_digits h]

theorem readFields?_mark {fields : List Field} :
    readFields? (.mark '-' :: fields) r ('-' :: rest) = readFields? fields r rest := rfl

theorem readFields?_mark_of_ne {fields : List Field} {c : Char} (hc : c ≠ '-') :
    readFields? (.mark '-' :: fields) r (c :: rest) = none := by
  simp [readFields?, Field.read?, hc]

/-- No hyphen and no end of the text follows where a number breaks off before a digit. -/
theorem readFields?_stuck {fields : List Field} {c : Char} {cs : List Char} (hc : isDigit c = true)
    (hf : fields = [] ∨ ∃ fs, fields = .mark '-' :: fs) : readFields? fields r (c :: cs) = none := by
  rcases hf with rfl | ⟨fs, rfl⟩
  · rfl
  · exact readFields?_mark_of_ne (ne_hyphen_of_isDigit hc)

/-- A field that reads a run of digits, before a hyphen or the end. -/
theorem readFields?_digits {width : Nat} {field : Field} {fields : List Field}
    {f : Nat → Reading} (hd : DigitRun (width + 1) ds)
    (hread : field.read? r (ds ++ rest) =
      (readNumber? (some (width + 1)) (ds ++ rest)).map fun x => (f x.1, x.2))
    (hf : fields = [] ∨ ∃ fs, fields = .mark '-' :: fs) :
    readFields? (field :: fields) r (ds ++ rest) = some r' ↔
      ∃ n, Writes (width + 1) n ds ∧ readFields? fields (f n) rest = some r' := by
  rw [readFields?, hread]
  by_cases hw : ∃ n, Writes (width + 1) n ds
  · obtain ⟨n, hw⟩ := hw
    rw [readNumber?_of_writes hw]
    exact ⟨fun h => ⟨n, hw, h⟩, fun ⟨m, hm, h⟩ => hw.unique hm ▸ h⟩
  · constructor
    · intro h
      -- whatever number is read, the reader is left before a digit of the run
      obtain ⟨⟨s, left⟩, hx, hrest⟩ := Option.bind_eq_some_iff.1 h
      obtain ⟨⟨n, left'⟩, hnum, heq⟩ := Option.map_eq_some_iff.1 hx
      obtain ⟨-, rfl⟩ := Prod.mk.inj heq
      obtain ⟨c, cs, rfl, hc⟩ := readNumber?_stuck hd (fun n hn => hw ⟨n, hn⟩) hnum
      exact absurd ((readFields?_stuck hc hf).symm.trans hrest) nofun
    · intro hex
      obtain ⟨n, hn, -⟩ := hex
      exact absurd ⟨n, hn⟩ hw

theorem readFields?_year {fields : List Field} {y : Nat} (h : Writes 4 y ds) :
    readFields? (.year :: fields) r (ds ++ rest) = readFields? fields { r with year := y } rest := by
  rw [readFields?, read?_year h.digitRun, readNumber?_of_writes h]
  rfl

theorem readFields?_month {fields : List Field} {m : Nat} (h : Writes 2 m ds) :
    readFields? (.month :: fields) r (ds ++ rest) = readFields? fields { r with month := m } rest := by
  rw [readFields?, read?_month h.digitRun, readNumber?_of_writes h]
  rfl

end Fields

/-! ### What is left of a text -/

section Left

variable {r r' : Reading} {cs rest : List Char}

/-- The reader of numbers takes digits, and leaves what follows them. -/
theorem eq_append_of_readNumber? {width : Option Nat} {n : Nat}
    (h : readNumber? width cs = some (n, rest)) :
    ∃ ds, ds.all isAsciiDigit = true ∧ cs = ds ++ rest := by
  obtain ⟨ds, hdigits, hprefix, hread⟩ : ∃ ds, ds.all isAsciiDigit = true ∧ ds <+: cs ∧
      readNumber? width cs =
        if ds.isEmpty then none else some (digitsValue ds, cs.drop ds.length) := by
    cases width with
    | none => exact ⟨_, List.all_takeWhile, List.takeWhile_prefix _, rfl⟩
    | some w =>
      exact ⟨_, List.all_takeWhile, (List.takeWhile_prefix _).trans (List.take_prefix w cs), rfl⟩
  rw [hread, Option.ite_none_left_eq_some] at h
  obtain ⟨-, rfl⟩ := Prod.mk.inj (Option.some.inj h.2)
  exact ⟨ds, hdigits, List.prefix_iff_eq_append.1 hprefix |>.symm⟩

/-- A field reads on from where it begins. -/
theorem Field.read?_suffix {field : Field} (h : field.read? r cs = some (r', rest)) :
    rest <:+ cs := by
  have htrim : trimStart cs <:+ cs := List.dropWhile_suffix _
  have hnumber : ∀ {width : Option Nat} {ds : List Char}
      {f : Nat × List Char → Reading × List Char}, (∀ x, (f x).2 = x.2) → ds <:+ cs →
      (readNumber? width ds).map f = some (r', rest) → rest <:+ cs := by
    intro width ds f hf hds hmap
    obtain ⟨⟨n, left⟩, hread, heq⟩ := Option.map_eq_some_iff.1 hmap
    obtain ⟨taken, -, rfl⟩ := eq_append_of_readNumber? hread
    have hleft : rest = left := (congrArg Prod.snd heq).symm.trans (hf (n, left))
    rw [hleft]
    exact (List.suffix_append taken left).trans hds
  cases field with
  | year =>
    rw [Field.read?] at h
    split at h
    · next ds heq => exact hnumber (fun _ => rfl) ((List.suffix_cons _ ds).trans (heq ▸ htrim)) h
    · next ds heq => exact hnumber (fun _ => rfl) ((List.suffix_cons _ ds).trans (heq ▸ htrim)) h
    · exact hnumber (fun _ => rfl) htrim h
  | month | day => exact hnumber (fun _ => rfl) htrim h
  | monthName =>
    obtain ⟨m, -, heq⟩ := Option.map_eq_some_iff.1 h
    obtain ⟨-, rfl⟩ := Prod.mk.inj heq
    exact List.drop_suffix 3 cs
  | gap =>
    obtain ⟨-, rfl⟩ := Prod.mk.inj (Option.some.inj h)
    exact htrim
  | mark c =>
    cases cs with
    | nil => cases h
    | cons d cs =>
      obtain ⟨-, hread⟩ := Option.ite_none_right_eq_some.1 h
      obtain ⟨-, rfl⟩ := Prod.mk.inj (Option.some.inj hread)
      exact List.suffix_cons d _

/-- A text that begins with a field that was read, and goes on with the others. -/
theorem readFields?_cons_eq_some_iff {field : Field} {fields : List Field} :
    readFields? (field :: fields) r cs = some r' ↔
      ∃ r₁ left, field.read? r cs = some (r₁, left) ∧ readFields? fields r₁ left = some r' := by
  rw [readFields?, Option.bind_eq_some_iff, Prod.exists]

/-- A day at the end of a text has no hyphen in it. -/
theorem hyphen_notMem_of_day (h : readFields? [.day] r cs = some r') : '-' ∉ cs := by
  obtain ⟨r₁, left, hday, hend⟩ := readFields?_cons_eq_some_iff.1 h
  obtain ⟨hnil, -⟩ := Option.ite_none_right_eq_some.1 hend
  obtain ⟨⟨n, left'⟩, hread, heq⟩ := Option.map_eq_some_iff.1 hday
  obtain ⟨-, rfl⟩ := Prod.mk.inj heq
  obtain ⟨ds, hdigits, htrim⟩ := eq_append_of_readNumber? hread
  rw [List.isEmpty_iff.1 hnil, List.append_nil] at htrim
  -- what was trimmed are blanks, and the rest are digits
  have hsplit := List.takeWhile_append_dropWhile (p := isBlank) (l := cs)
  rw [← hsplit, show cs.dropWhile isBlank = ds from htrim, List.mem_append]
  rintro (hblank | hdigit)
  · exact absurd (List.mem_takeWhile_imp hblank) (by decide)
  · exact absurd (List.all_eq_true.1 hdigits _ hdigit) (by decide)

/-- The text goes on with a hyphen, and the rest of the fields behind it. -/
theorem readFields?_hyphen_eq_some {fields : List Field}
    (h : readFields? (.mark '-' :: fields) r cs = some r') :
    ∃ left, cs = '-' :: left ∧ readFields? fields r left = some r' := by
  cases cs with
  | nil => cases h
  | cons c left =>
    by_cases hc : c = '-'
    · subst hc
      exact ⟨left, rfl, h⟩
    · rw [readFields?_mark_of_ne hc] at h
      cases h

end Left

/-! ### Dates -/

/-- **A month with its first day behind it is read as that day**: the last hyphen of the text is the
one in front of the day. -/
theorem day_eq_one_of_readDate? {cs : List Char} {d : Date}
    (h : readDate? isoPattern (cs ++ "-01".toList) = some d) : d.day = 1 := by
  obtain ⟨r, hfields, hdate⟩ := Option.bind_eq_some_iff.1 h
  obtain ⟨-, -, hday⟩ := Date.of?_eq_some_iff.1 hdate
  obtain ⟨r₁, left, hyear, hmark⟩ := readFields?_cons_eq_some_iff.1 hfields
  obtain ⟨left₁, rfl, hbehind⟩ := readFields?_hyphen_eq_some hmark
  obtain ⟨r₂, left₂, hmonth, hmark₂⟩ := readFields?_cons_eq_some_iff.1 hbehind
  obtain ⟨left₃, rfl, hlastField⟩ := readFields?_hyphen_eq_some hmark₂
  have hnone := hyphen_notMem_of_day hlastField
  have hleft : '-' :: left₃ <:+ cs ++ "-01".toList :=
    (Field.read?_suffix hmonth).trans
      ((List.suffix_cons '-' left₁).trans (Field.read?_suffix hyear))
  -- of two ends of a text one is an end of the other, and neither has a second hyphen
  have hlast : left₃ = "01".toList := by
    rcases List.suffix_or_suffix_of_suffix hleft (List.suffix_append cs "-01".toList) with hend | hend
    · rcases List.suffix_cons_iff.1 hend with heq | hend
      · exact (List.cons.inj heq).2
      · exact absurd (hend.subset List.mem_cons_self) (by decide)
    · rcases List.suffix_cons_iff.1 hend with heq | hend
      · exact (List.cons.inj heq).2.symm
      · exact absurd (hend.subset List.mem_cons_self) hnone
  subst hlast
  have hone : r = { r₂ with day := 1 } := (Option.some.inj hlastField).symm
  rw [hday, hone]

/-- **The date of four, two and two digits** is the one of the three numbers, if all digits are those
of ASCII and the calendar has it. -/
theorem readDate?_digits_eq_some_iff {ys ms ds : List Char} (hy : DigitRun 4 ys)
    (hm : DigitRun 2 ms) (hd : DigitRun 2 ds) {d : Date} :
    readDate? isoPattern (ys ++ '-' :: (ms ++ '-' :: ds)) = some d ↔
      (∃ y : Nat, Writes 4 y ys ∧ d.year = y) ∧ Writes 2 d.month ms ∧ Writes 2 d.day ds := by
  have hfields : ∀ r', readFields? isoPattern ⟨0, 0, 0⟩ (ys ++ '-' :: (ms ++ '-' :: ds)) = some r' ↔
      ∃ y, Writes 4 y ys ∧ ∃ m, Writes 2 m ms ∧ ∃ n, Writes 2 n ds ∧ r' = ⟨y, m, n⟩ := by
    intro r'
    rw [isoPattern, readFields?_digits (f := fun n => ⟨n, 0, 0⟩) hy (read?_year hy)
      (.inr ⟨_, rfl⟩)]
    refine exists_congr fun y => and_congr_right fun _ => ?_
    rw [readFields?_mark, readFields?_digits (f := fun n => ⟨y, n, 0⟩) hm (read?_month hm)
      (.inr ⟨_, rfl⟩)]
    refine exists_congr fun m => and_congr_right fun _ => ?_
    rw [readFields?_mark, ← List.append_nil ds, readFields?_digits (f := fun n => ⟨y, m, n⟩) hd
      (read?_day hd) (.inl rfl)]
    refine exists_congr fun n => ?_
    rw [List.append_nil, readFields?, List.isEmpty_nil, if_pos rfl, Option.some.injEq, eq_comm]
  simp only [readDate?, Option.bind_eq_some_iff, hfields, Date.of?_eq_some_iff]
  constructor
  · intro h
    obtain ⟨_, ⟨y, hwy, m, hwm, n, hwn, rfl⟩, h₁, h₂, h₃⟩ := h
    exact ⟨⟨y, hwy, h₁⟩, h₂ ▸ hwm, h₃ ▸ hwn⟩
  · intro h
    obtain ⟨⟨y, hwy, h₁⟩, hwm, hwn⟩ := h
    exact ⟨_, ⟨y, hwy, _, hwm, _, hwn, rfl⟩, h₁, rfl, rfl⟩

/-- Behind a year the reader goes on with a hyphen only. -/
theorem readDate?_year_stuck {y : Nat} {ys rest : List Char} {c : Char} (hy : Writes 4 y ys)
    (hc : c ≠ '-') : readDate? isoPattern (ys ++ c :: rest) = none := by
  rw [readDate?, isoPattern, readFields?_year hy, readFields?_mark_of_ne hc]
  rfl

/-- Behind a month the reader goes on with a hyphen only. -/
theorem readDate?_month_stuck {y m : Nat} {ys ms rest : List Char} {c : Char} (hy : Writes 4 y ys)
    (hm : Writes 2 m ms) (hc : c ≠ '-') :
    readDate? isoPattern (ys ++ '-' :: ms ++ c :: rest) = none := by
  rw [List.append_assoc, List.cons_append, readDate?, isoPattern, readFields?_year hy,
    readFields?_mark, readFields?_month hm, readFields?_mark_of_ne hc]
  rfl

end Calendar
end AlbumIndex
