import AlbumIndex.Calendar.Reading
import AlbumIndex.Image

/-!
# Albums

An album is a folder of images, known by its path below the root of the collection; the root itself
has the empty path.  The images of an album stand in the order of their names.  If the path names a
date, times that lie more than a year after it are taken to be wrong: such an image gets the date
itself, and as many hours as images come before it.

## Main definitions

* `dateOfName?` — the date that a name begins with.
* `guessInstant?` — the date that a path names, as an instant.
* `Album`, `Album.ofImages` — an album put in order.
-/

namespace AlbumIndex

open Calendar Text

/-! ### Dates in names -/

/-- Two blanks in a row made one, wherever they stand, from the left. -/
def joinSpaces : List Char → List Char
  | ' ' :: ' ' :: cs => ' ' :: joinSpaces cs
  | c :: cs => c :: joinSpaces cs
  | [] => []

/-- The date `YYYY-MM-DD` in the first ten bytes of a name. -/
def fullDateOfName? (name : List Char) : Option Date :=
  (bytePrefix? 10 name).bind (readDate? isoPattern)

/-- The month `YYYY-MM` in the first seven bytes of a name. -/
def monthOfName? (name : List Char) : Option Date :=
  (bytePrefix? 7 name).bind fun p => readDate? isoPattern (p ++ "-01".toList)

/-- The year in the first four bytes of a name, which are all digits. -/
def yearOfName? (name : List Char) : Option Date :=
  (bytePrefix? 4 name).bind fun p =>
    if p.all isAsciiDigit then Date.startOfYear? (digitsValue p) else none

/-- The date `Mon D, YYYY` in the first bytes of a name, with its double spaces made single. -/
def namedDateOfName? (bytes : Nat) (name : List Char) : Option Date :=
  (bytePrefix? bytes name).bind fun p => readDate? namedPattern (joinSpaces p)

/-- The date that a name begins with: a full date, a month, a year, or a date with the month's name
in twelve or eleven bytes, whichever of these comes first. -/
def dateOfName? (name : List Char) : Option Date :=
  fullDateOfName? name <|> monthOfName? name <|> yearOfName? name <|>
    namedDateOfName? 12 name <|> namedDateOfName? 11 name

/-- The date that a path names: that of its last component with a date. -/
def dateOfPath? (rel : String) : Option Date :=
  (pieces (· == '/') rel.toList).reverse.findSome? dateOfName?

/-- The local midnight of the date that a path names. -/
def guessInstant? (rel : String) (offset : Offset) : Option Instant :=
  (dateOfPath? rel).bind offset.midnight?

/-! ### Albums -/

/-- A folder of images. -/
@[ext] structure Album where
  /-- The path below the root of the collection, empty for the root. -/
  rel : String
  /-- When its snapshot was taken. -/
  indexTime : Instant
  /-- The latest file time of its images, but not before the epoch. -/
  lastModified : Instant
  /-- Its images, by name. -/
  images : List Image
deriving DecidableEq

namespace Album

/-- When the album was taken: when its first image was, or else when its snapshot was. -/
def itemTime (album : Album) : Instant :=
  (album.images.head?.map Image.itemTime).getD album.indexTime

/-- The latest file time, but not before the epoch. -/
def latestFileTime (images : List Image) : Instant :=
  images.foldl (fun t image => t.latest image.fileTime) Instant.epoch

/-- The images in the order of their names; images of one name keep their order. -/
def byName (images : List Image) : List Image :=
  images.mergeSort fun a b => decide (a.name ≤ b.name)

/-- The image at a position of an album of the given date: a time after `last` becomes the date and
as many hours as the position says. -/
def pinImage (date last : Instant) (image : Image) (position : Nat) : Except OutOfRange Image :=
  if last < image.itemTime then
    (date.addSeconds (3600 * position)).map fun t => { image with itemTime := t }
  else .ok image

/-- The images from a position on, with their times pinned. -/
def pinFrom (date last : Instant) : Nat → List Image → Except OutOfRange (List Image)
  | _, [] => .ok []
  | position, image :: images => do
    let image ← pinImage date last image position
    let images ← pinFrom date last (position + 1) images
    return image :: images

/-- The seconds of a year without a leap day. -/
def secondsPerYear : Int := 365 * Instant.secondsPerDay

/-- The images of an album of the given date, with their times pinned near it. -/
def pinTimes (date : Instant) (images : List Image) : Except OutOfRange (List Image) := do
  let last ← date.addSeconds secondsPerYear
  pinFrom date last 0 images

/-- The album of the given images: its time of change is found, the images are put in the order of
their names, and in a dated album runaway times are pinned.  The calendar may end within a year of
the date; then there is no such album. -/
def ofImages (rel : String) (indexTime : Instant) (images : List Image) (offset : Offset) :
    Except OutOfRange Album := do
  let sorted := byName images
  let images' ← match guessInstant? rel offset with
    | some date => pinTimes date sorted
    | none => .ok sorted
  return { rel, indexTime, lastModified := latestFileTime images, images := images' }

end Album
end AlbumIndex
