import AlbumIndex.Calendar.Instant
import AlbumIndex.Hash.Blake3
import AlbumIndex.Number.Binary32
import AlbumIndex.Text.Numeral
import AlbumIndex.Text.Pieces

/-!
# Images

An image is a file of an album with its keywords and times.  The words inside its keywords, as far
as they are not keywords themselves, are kept beside them as sub-keywords.  An image is numbered
(its rank) and identified (its id) when an index is built; before that both are zero.

## Main definitions

* `Image` — the fields of an image; `Image.new` derives its sub-keywords.
* `subKeywords` — the words of a list of keywords that are not keywords themselves.
* `imageId` — the identity of an image.
-/

namespace AlbumIndex

open Calendar Number

/-! ### Identity and rank -/

/-- The identity of an image: four bytes of a hash, so two images may share one. -/
abbrev ImageId := UInt32

/-- The place of an image in the order of its index, counted from zero. -/
abbrev Rank := Nat

/-- The identity of the image of a path, a name and a file time: the first four bytes, lowest first,
of the hash of the path, the name and the milliseconds of the time, written one after the other. -/
def imageId (rel name : String) (fileMillis : Int64) : ImageId :=
  Blake3.firstWord
    (rel ++ name ++ String.ofList (Text.intDigits fileMillis.toInt)).toUTF8.data.toList

/-! ### Sub-keywords -/

/-- The words among `candidates` that neither stand in `seen` nor came earlier, each once. -/
def newWords (seen : List String) : List String → List String
  | [] => []
  | w :: ws =>
    if w = "" ∨ w ∈ seen then newWords seen ws else w :: newWords (w :: seen) ws

/-- The stretches between the spaces of a keyword. -/
def keywordPieces (keyword : String) : List String :=
  (Text.pieces (· == ' ') keyword.toList).map String.ofList

/-- The words inside the keywords of an image that are not keywords themselves, in the order in
which they first occur.  Keywords without a space have no words inside. -/
def subKeywords (keywords : List String) : List String :=
  if keywords.any fun k => k.toList.contains ' ' then
    newWords keywords (keywords.flatMap keywordPieces)
  else []

/-! ### Images -/

/-- The offsets of a stereo pair, for the eyes and for coloured glasses. -/
structure Stereo where
  /-- How far the right image is moved sideways. -/
  dx : Binary32
  /-- How far it is moved up or down. -/
  dy : Binary32
  /-- The sideways offset for coloured glasses. -/
  anaDx : Binary32
  /-- The offset up or down for coloured glasses. -/
  anaDy : Binary32
deriving DecidableEq

@[ext] structure Image where
  /-- Its identity, zero before an index is built. -/
  id : ImageId
  /-- Its rank, zero before an index is built. -/
  rank : Rank
  name : String
  /-- Its keywords, in the order of their source. -/
  keywords : List String
  /-- The words inside its keywords that are not keywords. -/
  subKeywords : List String
  /-- When the file was last changed. -/
  fileTime : Instant
  /-- When the image was taken, as far as that is known. -/
  itemTime : Instant
  /-- The degrees it is to be turned by. -/
  rotation : Int32
  /-- The offsets of a stereo pair, if it is one. -/
  stereo : Option Stereo
deriving DecidableEq

namespace Image

/-- An image that no index has numbered yet, neither turned nor stereo. -/
def new (name : String) (keywords : List String) (fileTime itemTime : Instant) : Image :=
  { id := 0, rank := 0, name, keywords, subKeywords := AlbumIndex.subKeywords keywords,
    fileTime, itemTime, rotation := 0, stereo := none }

/-- The text is one of the keywords or sub-keywords. -/
def hasKeyword (image : Image) (keyword : String) : Bool :=
  image.keywords.contains keyword || image.subKeywords.contains keyword

end Image
end AlbumIndex
