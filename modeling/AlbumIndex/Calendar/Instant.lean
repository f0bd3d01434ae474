import AlbumIndex.Calendar.Date

/-!
# Instants, offsets and spans

An instant is a number of seconds since 1 January 1970, 0:00 UTC, and a part of a second in
nanoseconds.  A leap second is the last second of its minute with a part of more than one second.
Only the instants whose second lies in the calendar can be told; arithmetic that would leave the
calendar fails.  Snapshots keep milliseconds, but always of whole seconds.

## Main definitions

* `Instant` — a moment, ordered by its second and then by its part of a second.
* `Instant.ofMillis`, `Instant.toMillis` — the stored form.
* `Instant.round` — the nearest whole second.
* `Instant.addSeconds` — a later moment, or `OutOfRange`.
* `Instant.ensureInRange` — the check that the calendar has a moment.
* `Offset` — a fixed distance from UTC; `Offset.midnight?` is a local midnight.
* `Span` — the instants from a start up to an end.
-/

namespace AlbumIndex
namespace Calendar

/-! ### Instants -/

/-- A moment: whole seconds since the epoch and nanoseconds into that second. -/
@[ext] structure Instant where
  seconds : Int
  nanos : Nat
deriving DecidableEq

namespace Instant

/-- 1 January 1970, 0:00 UTC, which stands for "unknown" too. -/
def epoch : Instant := ⟨0, 0⟩

def ofSeconds (seconds : Int) : Instant := ⟨seconds, 0⟩

/-- The first second of the calendar. -/
def minSeconds : Int := -8334601228800

/-- The last second of the calendar. -/
def maxSeconds : Int := 8210266876799

/-- The second lies in the calendar. -/
def InRange (seconds : Int) : Prop := minSeconds ≤ seconds ∧ seconds ≤ maxSeconds

instance (seconds : Int) : Decidable (InRange seconds) := inferInstanceAs (Decidable (_ ∧ _))

/-- Earlier second, or the same second and an earlier part of it. -/
protected def lt (a b : Instant) : Prop :=
  a.seconds < b.seconds ∨ (a.seconds = b.seconds ∧ a.nanos < b.nanos)

protected def le (a b : Instant) : Prop :=
  a.seconds < b.seconds ∨ (a.seconds = b.seconds ∧ a.nanos ≤ b.nanos)

instance : LT Instant := ⟨Instant.lt⟩
instance : LE Instant := ⟨Instant.le⟩
instance (a b : Instant) : Decidable (a < b) := inferInstanceAs (Decidable (_ ∨ _))
instance (a b : Instant) : Decidable (a ≤ b) := inferInstanceAs (Decidable (_ ∨ _))

theorem lt_def {a b : Instant} :
    a < b ↔ a.seconds < b.seconds ∨ (a.seconds = b.seconds ∧ a.nanos < b.nanos) := Iff.rfl

theorem le_def {a b : Instant} :
    a ≤ b ↔ a.seconds < b.seconds ∨ (a.seconds = b.seconds ∧ a.nanos ≤ b.nanos) := Iff.rfl

/-- The later of two instants. -/
def latest (a b : Instant) : Instant := if a ≤ b then b else a

/-! ### The stored form -/

/-- The beginning of the second that a number of milliseconds falls in, cut toward the epoch; the
epoch itself if the calendar does not have that second. -/
def ofMillis (millis : Int64) : Instant :=
  let seconds := millis.toInt.tdiv 1000
  if InRange seconds then ofSeconds seconds else epoch

def toMillis (t : Instant) : Int64 := Int64.ofInt (1000 * t.seconds)

/-- The nearest whole second, a half going up; the instant itself where the calendar has no such
second. -/
def round (t : Instant) : Instant :=
  let seconds := if 500000000 ≤ t.nanos then t.seconds + 1 else t.seconds
  if InRange seconds then ofSeconds seconds else t

end Instant

/-! ### Arithmetic -/

/-- A second that the calendar does not have. -/
structure OutOfRange where
  seconds : Int
deriving DecidableEq, Repr

namespace Instant

/-- The calendar has the instant. -/
def ensureInRange (t : Instant) : Except OutOfRange Unit :=
  if InRange t.seconds then .ok () else .error ⟨t.seconds⟩

/-- The instant a whole number of seconds later.  Whoever moves away from a leap second does so as
if it were the second after it, when going back, and the second it belongs to, when going on. -/
def addSeconds (t : Instant) (n : Int) : Except OutOfRange Instant :=
  let moved : Instant :=
    if t.nanos < 1000000000 || n = 0 then ⟨t.seconds + n, t.nanos⟩
    else if 0 < n then ⟨t.seconds + n, t.nanos - 1000000000⟩
    else ⟨t.seconds + 1 + n, t.nanos - 1000000000⟩
  if InRange moved.seconds then .ok moved else .error ⟨moved.seconds⟩

def secondsPerDay : Int := 86400

/-- The date of an instant, and the seconds since its midnight. -/
def dayAndSecond (t : Instant) : Int × Int :=
  (t.seconds / secondsPerDay, t.seconds % secondsPerDay)

end Instant

/-! ### Offsets from UTC -/

/-- A fixed distance of local time from UTC, in seconds, of less than a day; local time is ahead if
it is positive. -/
structure Offset where
  seconds : Int
  seconds_mem : -86400 < seconds ∧ seconds < 86400
deriving DecidableEq

namespace Offset

/-- Local time is UTC. -/
def utc : Offset := ⟨0, by decide⟩

/-- A whole number of hours, if that is less than a day; UTC otherwise. -/
def ofHours (hours : Int) : Offset :=
  if h : -86400 < hours * 3600 ∧ hours * 3600 < 86400 then ⟨hours * 3600, h⟩ else utc

/-- The instant at which a date begins in local time, if the calendar has it. -/
def midnight? (offset : Offset) (date : Date) : Option Instant :=
  let seconds := date.dayNumber * Instant.secondsPerDay - offset.seconds
  if Instant.InRange seconds then some (Instant.ofSeconds seconds) else none

end Offset

/-! ### Spans -/

/-- The instants from `start` on and before `stop`. -/
structure Span where
  /-- The first instant of the span. -/
  start : Instant
  /-- The first instant after it. -/
  stop : Instant
deriving DecidableEq

def Span.contains (s : Span) (t : Instant) : Bool := decide (s.start ≤ t) && decide (t < s.stop)

end Calendar
end AlbumIndex
