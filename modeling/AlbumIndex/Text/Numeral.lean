/-!
# Decimal numerals

Whole numbers as people write them on a command line or in a token: decimal digits of the ASCII
range, with a sign in front where one is allowed, and nothing else.

## Main definitions

* `isAsciiDigit`, `digitsValue` — digits and the number they write.
* `readNat?` — a number with an optional plus sign, up to a bound.
* `readInt?` — a number with an optional sign, between two bounds.
* `natDigits`, `padded` — a number written with its digits, or with at least so many.
-/

namespace AlbumIndex
namespace Text

/-- One of `0`, …, `9`. -/
def isAsciiDigit (c : Char) : Bool := decide ('0' ≤ c) && decide (c ≤ '9')

/-- The value of an ASCII digit. -/
def digitValue (c : Char) : Nat := c.toNat - '0'.toNat

/-- The number that a row of digits writes. -/
def digitsValue (cs : List Char) : Nat := cs.foldl (fun n c => 10 * n + digitValue c) 0

/-- A non-empty row of digits as a number. -/
def readDigits? (cs : List Char) : Option Nat :=
  if !cs.isEmpty && cs.all isAsciiDigit then some (digitsValue cs) else none

/-- A number from zero to `top`, with an optional plus sign. -/
def readNat? (top : Nat) (cs : List Char) : Option Nat :=
  let n? := match cs with
    | '+' :: ds => readDigits? ds
    | ds => readDigits? ds
  n?.filter (· ≤ top)

/-- A number from `low` to `top`, with an optional sign. -/
def readInt? (low top : Int) (cs : List Char) : Option Int :=
  let n? : Option Int := match cs with
    | '-' :: ds => (readDigits? ds).map fun n => -(n : Int)
    | '+' :: ds => (readDigits? ds).map Int.ofNat
    | ds => (readDigits? ds).map Int.ofNat
  n?.filter fun n => low ≤ n && n ≤ top

/-- The digits of a number, without leading zeros. -/
def natDigits (n : Nat) : List Char := Nat.toDigits 10 n

/-- The digits of a number, filled up with leading zeros to `width` places. -/
def padded (width n : Nat) : List Char :=
  List.replicate (width - (natDigits n).length) '0' ++ natDigits n

/-- A whole number: a minus sign if it is negative, then its digits. -/
def intDigits (n : Int) : List Char :=
  if n < 0 then '-' :: natDigits n.natAbs else natDigits n.natAbs

end Text
end AlbumIndex
