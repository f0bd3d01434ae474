import AlbumIndex.Catalog

/-!
# Keywords in recent use

The summary of recent keywords looks at the albums that were changed within the last month, and
lists every keyword and sub-keyword of their images with the number of its occurrences and the four
images that were taken last.

## Main definitions

* `monthBefore` — the instant one calendar month earlier.
* `RecentKeyword` — an entry of the summary.
* `Catalog.recentKeywords` — the summary, most used keywords first.
-/

namespace AlbumIndex

open Calendar

/-! ### A month ago -/

def thirtyDays : Int := 30 * Instant.secondsPerDay

/-- The same time of day one month earlier, the day cut down to the length of that month; where the
calendar has no such month, thirty days earlier.  The latter has to be in the calendar in any
case. -/
def monthBefore (now : Instant) : Except OutOfRange Instant := do
  let fallback ← now.addSeconds (-thirtyDays)
  let (day, second) := now.dayAndSecond
  return match (Date.ofDayNumber? day).bind Date.monthBefore? with
    | some date => ⟨date.dayNumber * Instant.secondsPerDay + second, now.nanos⟩
    | none => fallback

/-! ### The summary -/

structure RecentKeyword where
  keyword : String
  /-- How often it occurs. -/
  count : Nat
  /-- The images taken last, latest first. -/
  images : List Image

/-- The number of images shown for a keyword. -/
def imagesPerKeyword : Nat := 4

/-- The non-empty keywords and sub-keywords of an image, each with the image. -/
def Image.occurrences (image : Image) : List (String × Image) :=
  ((image.keywords ++ image.subKeywords).filter fun k => !k.isEmpty).map fun k => (k, image)

/-- The images of each keyword, one for each occurrence, the last one first. -/
abbrev Occurrences := Std.TreeMap String (List Image)

def Occurrences.add (t : Occurrences) (occurrence : String × Image) : Occurrences :=
  t.alter occurrence.1 fun images => some (occurrence.2 :: images.getD [])

/-- The entry of a keyword whose occurrences are given, the last one first. -/
def RecentKeyword.ofOccurrences (keyword : String) (images : List Image) : RecentKeyword :=
  { keyword
    count := images.length
    images := (images.reverse.mergeSort fun a b => decide (b.itemTime ≤ a.itemTime)).take
      imagesPerKeyword }

/-- More occurrences come first; keywords with as many come in the order of their characters. -/
def RecentKeyword.le (a b : RecentKeyword) : Bool :=
  decide (b.count < a.count) || (a.count == b.count && decide (a.keyword ≤ b.keyword))

/-- The keywords in the albums changed within the month before `now`, most used first. -/
def Catalog.recentKeywords (c : Catalog) (now : Instant) :
    Except OutOfRange (List RecentKeyword) := do
  let since ← monthBefore now
  let recent := c.albums.filter fun a => decide (since < a.lastModified)
  let occurrences := (recent.flatMap Album.images).flatMap Image.occurrences
  let table := occurrences.foldl Occurrences.add ∅
  return (table.toList.map fun (k, images) => RecentKeyword.ofOccurrences k images).mergeSort
    RecentKeyword.le

end AlbumIndex
