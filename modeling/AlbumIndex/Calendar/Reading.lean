import AlbumIndex.Calendar.Date
import AlbumIndex.Text.Numeral
import AlbumIndex.Text.Pieces

/-!
# Reading dates

A date is read by a pattern, field after field.  Blanks before a number do not count, nor do blanks
where the pattern has a gap.  A year without a sign has at most four digits, with a sign as many as
there are; months and days have one or two.  The whole text must be used up.

## Main definitions

* `Field` — a field of a pattern.
* `readDate?` — the date that a text writes in a pattern.
* `isoPattern`, `namedPattern` — the two patterns in use, `2019-07-14` and `Jul 14, 2019`.
-/

namespace AlbumIndex
namespace Calendar

open Text

/-! ### Fields -/

/-- A field of a date pattern. -/
inductive Field where
  /-- A year, with an optional sign. -/
  | year
  /-- A month as a number. -/
  | month
  /-- A month by the first three letters of its English name, in any case. -/
  | monthName
  | day
  /-- Any number of blanks. -/
  | gap
  /-- The character itself. -/
  | mark (c : Char)

/-- The numbers read so far. -/
structure Reading where
  year : Int
  month : Nat
  day : Nat

/-- The first digits of a text, at most `width` of them if there is a limit, as a number; there has
to be one.  The second part of the answer is the rest of the text. -/
def readNumber? (width : Option Nat) (cs : List Char) : Option (Nat × List Char) :=
  let ds := match width with
    | some w => (cs.take w).takeWhile isAsciiDigit
    | none => cs.takeWhile isAsciiDigit
  if ds.isEmpty then none else some (digitsValue ds, cs.drop ds.length)

/-- The three letters that stand for the months. -/
def monthNames : List (List Char × Nat) :=
  [("jan".toList, 1), ("feb".toList, 2), ("mar".toList, 3), ("apr".toList, 4), ("may".toList, 5),
   ("jun".toList, 6), ("jul".toList, 7), ("aug".toList, 8), ("sep".toList, 9), ("oct".toList, 10),
   ("nov".toList, 11), ("dec".toList, 12)]

/-- The ASCII small letter of a letter. -/
def asciiLower (c : Char) : Char :=
  if 'A' ≤ c ∧ c ≤ 'Z' then Char.ofNat (c.toNat + 32) else c

/-- One field read from the beginning of a text, and the rest of the text. -/
def Field.read? (field : Field) (r : Reading) (cs : List Char) : Option (Reading × List Char) :=
  match field with
  | .year =>
    match trimStart cs with
    | '-' :: ds => (readNumber? none ds).map fun (n, rest) => ({ r with year := -(n : Int) }, rest)
    | '+' :: ds => (readNumber? none ds).map fun (n, rest) => ({ r with year := (n : Int) }, rest)
    | ds => (readNumber? (some 4) ds).map fun (n, rest) => ({ r with year := (n : Int) }, rest)
  | .month =>
    (readNumber? (some 2) (trimStart cs)).map fun (n, rest) => ({ r with month := n }, rest)
  | .monthName =>
    (monthNames.lookup ((cs.take 3).map asciiLower)).map fun m => ({ r with month := m }, cs.drop 3)
  | .day =>
    (readNumber? (some 2) (trimStart cs)).map fun (n, rest) => ({ r with day := n }, rest)
  | .gap => some (r, trimStart cs)
  | .mark c =>
    match cs with
    | d :: rest => if d = c then some (r, rest) else none
    | [] => none

/-! ### Patterns -/

/-- The fields one after the other, and the end of the text after the last. -/
def readFields? : List Field → Reading → List Char → Option Reading
  | [], r, cs => if cs.isEmpty then some r else none
  | f :: fs, r, cs => (f.read? r cs).bind fun (r', rest) => readFields? fs r' rest

/-- The date that a text writes in a pattern, if it writes one and the calendar has it. -/
def readDate? (pattern : List Field) (cs : List Char) : Option Date :=
  (readFields? pattern ⟨0, 0, 0⟩ cs).bind fun r => Date.of? r.year r.month r.day

/-- Year, month and day with hyphens between. -/
def isoPattern : List Field := [.year, .mark '-', .month, .mark '-', .day]

/-- The month's name, the day, a comma and the year. -/
def namedPattern : List Field := [.monthName, .gap, .day, .mark ',', .gap, .year]

end Calendar
end AlbumIndex
