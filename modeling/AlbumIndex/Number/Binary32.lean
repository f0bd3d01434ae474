import AlbumIndex.Text.Numeral

/-!
# Binary numbers of 32 bits, and their decimal texts

A 32-bit number is kept as its bits, so that every not-a-number keeps its payload.  Its decimal text
uses the fewest digits that read back as the same number, and of those the nearest: the numbers that
read back form an interval around the value, and the first power of ten, counted downwards, that
has a multiple in the interval gives the digits.  Two such decimals may be equally near; which of
them is taken is part of a layout.  All of this is exact arithmetic on naturals.

## Main definitions

* `Binary32` — the bits of a number, and its `Binary32.Class`.
* `TieRule`, `shortestDecimal` — the fewest digits that read back.
* `Layout`, `Layout.write` — where the decimal point goes and when an exponent is written.
-/

namespace AlbumIndex
namespace Number

open Text

/-! ### The bits -/

/-- A 32-bit binary number, given by its bits: sign, eight bits of exponent, 23 of fraction. -/
structure Binary32 where
  bits : UInt32
deriving DecidableEq, Inhabited

namespace Binary32

/-- The sign bit, the highest of the 32, is set. -/
def isNegative (x : Binary32) : Bool := decide (0x80000000 ≤ x.bits.toNat)

/-- The number of values of the 23 bits of the fraction. -/
def fractions : Nat := 0x800000

def exponentBits (x : Binary32) : Nat := x.bits.toNat / fractions % 256

def fractionBits (x : Binary32) : Nat := x.bits.toNat % fractions

/-- What the bits stand for, the sign apart. -/
inductive Class where
  /-- No number at all, whatever the payload. -/
  | notANumber
  /-- One of the two infinities. -/
  | infinite
  /-- The number `significand · 2 ^ (power - 149)`. -/
  | finite (significand power : Nat)

/-- What the bits stand for. -/
def classify (x : Binary32) : Class :=
  let e := x.exponentBits
  let f := x.fractionBits
  if e = 255 then (if f = 0 then .infinite else .notANumber)
  else if e = 0 then .finite f 0
  else .finite (f + fractions) (e - 1)

end Binary32

/-! ### The fewest digits -/

/-- The number `digits · 10 ^ exponent`. -/
structure Decimal where
  digits : Nat
  exponent : Int
deriving DecidableEq

/-- Which of two decimals is taken that are equally near. -/
inductive TieRule where
  /-- The one whose last digit is even. -/
  | toEven
  /-- The one farther from zero. -/
  | away
deriving DecidableEq

/-- The rule takes the upper of `n` and `n + 1`. -/
def TieRule.takesUpper : TieRule → Nat → Bool
  | .toEven, n => n % 2 == 1
  | .away, _ => true

/-- A value and the interval that reads back as it, as multiples of `1 / unit`; the ends belong to
the interval if `closed`. -/
structure Rounding where
  low : Nat
  value : Nat
  high : Nat
  unit : Nat
  closed : Bool

namespace Rounding

/-- The interval around `significand · 2 ^ (power - 149)`.  A quarter of the last place is the
measure, because just above a power of two the neighbour below is only half as far away. -/
def around (significand power : Nat) : Rounding :=
  let scale := Nat.pow 2 power
  let below := if significand = Binary32.fractions ∧ 0 < power then 1 else 2
  ⟨(4 * significand - below) * scale, 4 * significand * scale, (4 * significand + 2) * scale,
    4 * Nat.pow 2 149, significand % 2 == 0⟩

/-- The multiple `n` of the grid reads back as the value. -/
def holds (r : Rounding) (grid n : Nat) : Bool :=
  if r.closed then decide (r.low ≤ n * grid) && decide (n * grid ≤ r.high)
  else decide (r.low < n * grid) && decide (n * grid < r.high)

/-- The multiple of the grid that reads back and is nearest to the value; of two at the same
distance the one that the rule takes. -/
def nearest? (r : Rounding) (ties : TieRule) (grid : Nat) : Option Nat :=
  let n := r.value / grid
  let gap := r.value - n * grid
  let upper := if 2 * gap = grid then ties.takesUpper n else decide (grid < 2 * gap)
  let (first, second) := if upper then (n + 1, n) else (n, n + 1)
  if r.holds grid first && first != 0 then some first
  else if r.holds grid second && second != 0 then some second
  else none

/-- The interval measured against the power of ten `k`: the interval in a finer unit, and the size
of the power in that unit. -/
def against (r : Rounding) (k : Int) : Rounding × Nat :=
  if 0 ≤ k then (r, Nat.pow 10 k.toNat * r.unit)
  else
    let f := Nat.pow 10 (-k).toNat
    ({ r with low := r.low * f, value := r.value * f, high := r.high * f }, r.unit)

/-- The first power of ten from `k` downwards, in at most `steps` steps, that has a multiple in the
interval. -/
def search (r : Rounding) (ties : TieRule) : Nat → Int → Option Decimal
  | 0, _ => none
  | steps + 1, k =>
    let (s, grid) := r.against k
    match s.nearest? ties grid with
    | some n => some ⟨n, k⟩
    | none => r.search ties steps (k - 1)

end Rounding

/-- The fewest digits that read back as `significand · 2 ^ (power - 149)`.  No 32-bit number
reaches 10 ^ 39, and multiples of 10 ^ (-46) lie closer together than any two of them. -/
def shortestDecimal (ties : TieRule) (significand power : Nat) : Decimal :=
  if significand = 0 then ⟨0, 0⟩
  else ((Rounding.around significand power).search ties 86 39).getD ⟨0, 0⟩

/-! ### Layouts -/

/-- How a number is written with its shortest digits. -/
structure Layout where
  /-- Which of two decimals is written that are equally near. -/
  ties : TieRule
  /-- The least place of the first digit that is written without an exponent; place 1 is the one
  before the decimal point. -/
  lowest : Option Int
  /-- The greatest such place. -/
  highest : Option Int
  /-- A whole number ends with a point and a zero. -/
  wholePoint : Bool
  /-- Not-a-number and the infinities. -/
  notANumber : String
  infinite : String

namespace Layout

/-- The digits written out in full. -/
def positional (l : Layout) (digits : List Char) (exponent : Int) : List Char :=
  let place := digits.length + exponent
  if 0 ≤ exponent then
    digits ++ List.replicate exponent.toNat '0' ++ (if l.wholePoint then ['.', '0'] else [])
  else if 0 < place then
    digits.take place.toNat ++ '.' :: digits.drop place.toNat
  else '0' :: '.' :: List.replicate (-place).toNat '0' ++ digits

/-- The first digit, the others after a point, and the exponent with its sign. -/
def scientific (digits : List Char) (exponent : Int) : List Char :=
  let power := digits.length + exponent - 1
  digits.take 1 ++ (if digits.length = 1 then [] else '.' :: digits.drop 1) ++
    'e' :: (if power < 0 then '-' else '+') :: natDigits power.natAbs

/-- A decimal in the layout. -/
def decimal (l : Layout) (d : Decimal) : List Char :=
  let digits := natDigits d.digits
  let place := digits.length + d.exponent
  if l.lowest.all (· ≤ place) && l.highest.all (place ≤ ·) then l.positional digits d.exponent
  else scientific digits d.exponent

/-- The text of a number: its sign, then its size. -/
def write (l : Layout) (x : Binary32) : String :=
  let sign := if x.isNegative then ['-'] else []
  match x.classify with
  | .notANumber => l.notANumber
  | .infinite => String.ofList sign ++ l.infinite
  | .finite significand power =>
    String.ofList (sign ++ l.decimal (shortestDecimal l.ties significand power))

end Layout
end Number
end AlbumIndex
