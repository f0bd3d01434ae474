import AlbumIndex.Toml.Reader
import AlbumIndex.Toml.Value

/-!
# Blanks, strings, numbers and moments

The parts of a TOML document that hold no other values.

## Main definitions

* `blanks`, `newline`, `comment` — what stands between the values.
* `string` — the four kinds of strings.
* `integer`, `decimal` — whole numbers of 64 bits, and other ones.
* `moment` — dates and times.
-/

namespace AlbumIndex
namespace Toml

open Text Reader

/-! ### Between the values -/

/-- A space or a tab. -/
def isWhite (c : Char) : Bool := c == ' ' || c == '\t'

/-- A character that may stand in a string or a comment: no control but the tab. -/
def isPrintable (c : Char) : Bool := c == '\t' || (32 ≤ c.toNat && c.toNat != 127)

/-- Spaces and tabs, possibly none. -/
def blanks : Reader Unit := do let _ ← takeWhile isWhite

/-- The end of a line. -/
def newline : Reader Unit := mark "\n" <|> mark "\x0d\n"

/-- A comment, up to the end of its line. -/
def comment : Reader Unit := do
  mark "#"
  let _ ← takeWhile isPrintable

/-- Blanks, comments and ends of lines, possibly none. -/
def space : Reader Unit := do
  let _ ← many ((do let _ ← takeSome isWhite) <|> newline <|> comment)

/-- Nothing more on the line but a comment. -/
def restOfLine : Reader Unit := do
  blanks
  let _ ← optional comment
  newline <|> atEnd

/-! ### Strings -/

/-- The value of a hexadecimal digit. -/
def hexValue (c : Char) : Nat :=
  if isAsciiDigit c then digitValue c
  else if 'a' ≤ c ∧ c ≤ 'f' then c.toNat - 'a'.toNat + 10
  else c.toNat - 'A'.toNat + 10

def isHexDigit (c : Char) : Bool :=
  isAsciiDigit c || (decide ('a' ≤ c) && decide (c ≤ 'f')) || (decide ('A' ≤ c) && decide (c ≤ 'F'))

/-- The number that a row of digits writes to a base. -/
def baseValue (base : Nat) (digits : List Char) : Nat :=
  digits.foldl (fun n c => base * n + hexValue c) 0

/-- The character of a code point; there is none for half a surrogate pair. -/
def charOf? (n : Nat) : Option Char :=
  if h : n.isValidChar then some (Char.ofNatAux n h) else none

/-- So many hexadecimal digits. -/
def hexDigits : Nat → Reader (List Char)
  | 0 => pure []
  | n + 1 => do
    let c ← take isHexDigit
    let rest ← hexDigits n
    return c :: rest

/-- A character given by so many digits of its code point. -/
def codePoint (digits : Nat) : Reader Char := do
  let ds ← hexDigits digits
  match charOf? (baseValue 16 ds) with
  | some c => return c
  | none => failure

def escape : Reader Char := do
  mark "\\"
  let c ← take fun _ => true
  if c = 'b' then return '\x08'
  else if c = 't' then return '\t'
  else if c = 'n' then return '\n'
  else if c = 'f' then return '\x0c'
  else if c = 'r' then return '\x0d'
  else if c = '"' || c = '\\' then return c
  else if c = 'u' then codePoint 4
  else if c = 'U' then codePoint 8
  else failure

/-- A character that stands for itself between double quotes. -/
def isPlain (c : Char) : Bool := isPrintable c && c != '"' && c != '\\'

/-- A character that stands for itself between single quotes. -/
def isLiteral (c : Char) : Bool := isPrintable c && c != '\x27'

/-- A string between double quotes, on one line. -/
def basicString : Reader (List Char) := do
  mark "\""
  let cs ← many (take isPlain <|> escape)
  mark "\""
  return cs

/-- A string between single quotes, on one line, in which nothing is escaped. -/
def literalString : Reader (List Char) := do
  mark "\x27"
  let cs ← takeWhile isLiteral
  mark "\x27"
  return cs

/-- A backslash at the end of a line, which joins the lines. -/
def lineJoin : Reader Unit := do
  mark "\\"
  blanks
  newline
  let _ ← many ((do let _ ← take isWhite) <|> newline)

/-- A piece of a string over several lines between double quotes. -/
def basicPiece : Reader (List Char) :=
  takeSome isPlain <|> (do lineJoin; return []) <|> (do return [← escape]) <|>
    (do newline; return ['\n'])

/-- A piece of a string over several lines between single quotes. -/
def literalPiece : Reader (List Char) := takeSome isLiteral <|> (do newline; return ['\n'])

/-- One or two quotes inside a string that three quotes end. -/
def innerQuotes (quote : Char) (piece : Reader (List Char)) : Reader (List Char) :=
  (do
    mark (String.ofList [quote, quote])
    let p ← piece
    return quote :: quote :: p) <|>
  (do
    mark (String.ofList [quote])
    let p ← piece
    return quote :: p)

/-- The end of a string over several lines, with up to two quotes that belong to the string. -/
def closingQuotes (quote : Char) : Reader (List Char) :=
  let upTo (n : Nat) : Reader (List Char) := do
    mark (String.ofList (List.replicate (n + 3) quote))
    return List.replicate n quote
  upTo 2 <|> upTo 1 <|> upTo 0

/-- A string over several lines between three quotes. -/
def longString (quote : Char) (piece : Reader (List Char)) : Reader (List Char) := do
  mark (String.ofList [quote, quote, quote])
  let _ ← optional newline
  let pieces ← many (piece <|> innerQuotes quote piece)
  let last ← closingQuotes quote
  return pieces.flatten ++ last

/-- A string of any kind. -/
def string : Reader String :=
  String.ofList <$>
    (longString '"' basicPiece <|> basicString <|> longString '\x27' literalPiece <|> literalString)

/-! ### Numbers -/

/-- Digits of a class, with single underscores between them. -/
def digitRow (ok : Char → Bool) : Reader (List Char) := do
  let c ← take ok
  let cs ← many (take ok <|> (do mark "_"; take ok))
  return c :: cs

def sign : Reader (Option Char) := optional (take fun c => c == '+' || c == '-')

/-- The digits of a whole number, which has no leading zeros. -/
def wholeDigits : Reader (List Char) :=
  (do
    let c ← take fun c => isAsciiDigit c && c != '0'
    let cs ← many (take isAsciiDigit <|> (do mark "_"; take isAsciiDigit))
    return c :: cs) <|>
  (do return [← take isAsciiDigit])

/-- A whole number that 64 bits can hold. -/
def bounded (n : Int) : Reader Int :=
  if Int64.minValue.toInt ≤ n ∧ n ≤ Int64.maxValue.toInt then pure n else failure

/-- A whole number to another base than ten. -/
def basedInteger (start : String) (base : Nat) (ok : Char → Bool) : Reader Int := do
  mark start
  let ds ← digitRow ok
  bounded (baseValue base ds)

/-- A whole number. -/
def integer : Reader Int := do
  match ← optional (mark "0x" <|> mark "0o" <|> mark "0b") with
  | some _ => failure
  | none =>
    let s ← sign
    let ds ← wholeDigits
    bounded (if s = some '-' then -(digitsValue ds : Int) else digitsValue ds)

/-- A whole number to any base. -/
def anyInteger : Reader Int :=
  basedInteger "0x" 16 isHexDigit <|>
  basedInteger "0o" 8 (fun c => decide ('0' ≤ c) && decide (c ≤ '7')) <|>
  basedInteger "0b" 2 (fun c => c == '0' || c == '1') <|> integer

/-- The number `digits · 10 ^ exponent` is too large for 64-bit floating point: it is not below the
point half way from the largest such number to the next power of two. -/
def overflows (digits : Nat) (exponent : Int) : Bool :=
  if digits = 0 then false
  else
    let places := (natDigits digits).length + exponent
    if 400 < places then true
    else if places < 300 then false
    else
      let limit := Nat.pow 2 1024 - Nat.pow 2 970
      if 0 ≤ exponent then decide (limit ≤ digits * Nat.pow 10 exponent.toNat)
      else decide (limit * Nat.pow 10 (-exponent).toNat ≤ digits)

def exponent : Reader Int := do
  let _ ← take fun c => c == 'e' || c == 'E'
  let s ← sign
  let ds ← digitRow isAsciiDigit
  return if s = some '-' then -(digitsValue ds : Int) else digitsValue ds

/-- The sign, the digits and the exponent of a number with a fraction or an exponent. -/
def scientific : Reader (Option Char × List Char × Int) := do
  let s ← sign
  let whole ← wholeDigits
  (do
    let e ← exponent
    return (s, whole, e)) <|>
  (do
    mark "."
    let fraction ← digitRow isAsciiDigit
    let e ← optional exponent
    return (s, whole ++ fraction, e.getD 0 - fraction.length))

/-- A number with a fraction or an exponent.  Too large a number is refused if it is positive. -/
def finiteDecimal : Reader String := do
  let (s, digits, e) ← scientific
  if s != some '-' && overflows (digitsValue digits) e then failure
  else
    return String.ofList (s.toList ++ digits ++ 'e' :: intDigits e)

/-- Infinity, and what is not a number. -/
def specialDecimal : Reader String := do
  let s ← sign
  let word ← (do mark "inf"; return "inf") <|> (do mark "nan"; return "nan")
  return String.ofList s.toList ++ word

/-- A number that is not written as a whole one. -/
def decimal : Reader String := finiteDecimal <|> specialDecimal

/-! ### Moments -/

/-- So many decimal digits, as a number between two bounds. -/
def figures (count low high : Nat) : Reader Nat := fun cs =>
  let ds := cs.take count
  if ds.length = count && ds.all isAsciiDigit && low ≤ digitsValue ds && digitsValue ds ≤ high then
    some (digitsValue ds, cs.drop count)
  else none

/-- The number of days of a month. -/
def daysOf (year month : Nat) : Nat :=
  if month = 2 then (if year % 4 = 0 ∧ (year % 100 ≠ 0 ∨ year % 400 = 0) then 29 else 28)
  else if month = 4 ∨ month = 6 ∨ month = 9 ∨ month = 11 then 30 else 31

def day : Reader Day := do
  let year ← figures 4 0 9999
  mark "-"
  let month ← figures 2 1 12
  mark "-"
  let day ← figures 2 1 (daysOf year month)
  return ⟨year, month, day⟩

/-- The nanoseconds of a fraction of a second; more than nine places are cut off. -/
def fraction : Reader Nat := do
  mark "."
  let ds ← takeSome isAsciiDigit
  let kept := ds.take 9
  return digitsValue kept * Nat.pow 10 (9 - kept.length)

/-- A time of day with hours up to a last one; a minute may have a leap second. -/
def clockUpTo (lastHour : Nat) : Reader Clock := do
  let hour ← figures 2 0 lastHour
  mark ":"
  let minute ← figures 2 0 59
  mark ":"
  let second ← figures 2 0 60
  let nanos ← optional fraction
  return ⟨hour, minute, second, nanos.getD 0⟩

/-- A time of day. -/
def clock : Reader Clock := clockUpTo 23

/-- The distance from UTC, with hours and minutes up to the last ones. -/
def zoneUpTo (lastHour lastMinute : Nat) : Reader Zone :=
  (do
    let _ ← take fun c => c == 'Z' || c == 'z'
    return .utc) <|>
  (do
    let s ← take fun c => c == '+' || c == '-'
    let hour ← figures 2 0 lastHour
    mark ":"
    let minute ← figures 2 0 lastMinute
    let minutes : Int := hour * 60 + minute
    return .ahead (if s = '-' then -minutes else minutes))

/-- The distance from UTC. -/
def zone : Reader Zone := zoneUpTo 23 59

/-- A date, a date and a time, or a time. -/
def moment : Reader Moment :=
  (do
    let d ← day
    let rest ← optional (do
      let _ ← take fun c => c == 'T' || c == 't' || c == ' '
      let c ← clock
      let z ← optional zone
      return (c, z))
    match rest with
    | some (c, z) => return ⟨some d, some c, z⟩
    | none => return ⟨some d, none, none⟩) <|>
  (do
    let c ← clock
    return ⟨none, some c, none⟩)

/-- The distance is a day at most. -/
def Zone.withinDay : Zone → Bool
  | .utc => true
  | .ahead minutes => minutes.natAbs ≤ 24 * 60

/-- A date, a date and a time, or a time, which nothing may follow.  This form is more generous than
the one in a document: it knows an hour 24, and a distance from UTC may have any minutes as long as
it is a day at most. -/
def loneMoment : Reader Moment :=
  (do
    let d ← day
    let rest ← optional (do
      let _ ← take fun c => c == 'T' || c == 't' || c == ' '
      let c ← clockUpTo 24
      let z ← optional (zoneUpTo 99 99)
      if z.all Zone.withinDay then return (c, z) else failure)
    atEnd
    match rest with
    | some (c, z) => return ⟨some d, some c, z⟩
    | none => return ⟨some d, none, none⟩) <|>
  (do
    let c ← clockUpTo 24
    atEnd
    return ⟨none, some c, none⟩)

end Toml
end AlbumIndex
