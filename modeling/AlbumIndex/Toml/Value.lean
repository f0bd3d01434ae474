import AlbumIndex.Text.Numeral

/-!
# TOML values

The values that a TOML document can give to its keys.  Numbers with a fraction or an exponent are
kept as they were written, for nothing here computes with them.

## Main definitions

* `Toml.Value` — a value.
* `Toml.Moment`, `Toml.Moment.text` — a date, a time, or both, and its usual form.
-/

namespace AlbumIndex
namespace Toml

open Text

/-! ### Dates and times -/

structure Day where
  year : Nat
  month : Nat
  day : Nat
deriving DecidableEq, Repr

/-- A time of day. -/
structure Clock where
  hour : Nat
  minute : Nat
  second : Nat
  nanos : Nat
deriving DecidableEq, Repr

/-- The distance from UTC. -/
inductive Zone where
  /-- No distance. -/
  | utc
  /-- So many minutes ahead of UTC. -/
  | ahead (minutes : Int)
deriving DecidableEq, Repr

/-- A date, a time, or both, possibly with the distance from UTC. -/
structure Moment where
  day : Option Day
  clock : Option Clock
  zone : Option Zone
deriving DecidableEq, Repr

/-- The usual form of a day. -/
def Day.text (d : Day) : List Char :=
  padded 4 d.year ++ '-' :: padded 2 d.month ++ '-' :: padded 2 d.day

/-- A text without the zeros at its end. -/
def dropZeros (cs : List Char) : List Char := (cs.reverse.dropWhile (· == '0')).reverse

/-- The usual form of a time of day, with as many places of a second as are needed. -/
def Clock.text (c : Clock) : List Char :=
  padded 2 c.hour ++ ':' :: padded 2 c.minute ++ ':' :: padded 2 c.second ++
    (if c.nanos = 0 then [] else '.' :: dropZeros (padded 9 c.nanos))

/-- The usual form of the distance from UTC. -/
def Zone.text : Zone → List Char
  | .utc => ['Z']
  | .ahead minutes =>
    (if minutes < 0 then '-' else '+') :: padded 2 (minutes.natAbs / 60) ++
      ':' :: padded 2 (minutes.natAbs % 60)

/-- The usual form of a moment. -/
def Moment.text (m : Moment) : String :=
  let day := (m.day.map Day.text).getD []
  let clock := (m.clock.map Clock.text).getD []
  let mark := if m.day.isSome && m.clock.isSome then ['T'] else []
  String.ofList (day ++ mark ++ clock ++ (m.zone.map Zone.text).getD [])

/-! ### Values -/

/-- A value of a document. -/
inductive Value where
  | str (s : String)
  | integer (n : Int)
  /-- A number with a fraction or an exponent, or one that is not finite. -/
  | decimal (written : String)
  | bool (b : Bool)
  | moment (m : Moment)
  | array (items : List Value)
  | table (entries : List (String × Value))

/-- The value of a key of a table. -/
def Value.get? : Value → String → Option Value
  | .table entries, key => entries.lookup key
  | _, _ => none

end Toml
end AlbumIndex
