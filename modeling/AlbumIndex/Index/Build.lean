import AlbumIndex.Album
import AlbumIndex.Index.Keys
import AlbumIndex.Index.Postings

/-!
# The index over a list of albums

The images of a list of albums are numbered in order, from zero, and identified.  The index then
holds the two tables of postings, and for each rank the identity of its image and where it lies.
Several images may share an identity; the last of them is the one found by it.

## Main definitions

* `numberAlbums` — albums with the ranks and identities of their images filled in.
* `Index`, `Index.ofAlbums` — the index over numbered albums.
* `Index.images`, `Index.imagesRanked` — the images of a key from both tables.
* `Index.matchingKeywords` — the keys that contain a text.
* `Index.histogram` — the keywords with the numbers of their images.
-/

namespace AlbumIndex

open Text

/-! ### Numbering -/

/-- The image of an album with its rank and its identity. -/
def Image.numbered (rel : String) (rank : Rank) (image : Image) : Image :=
  { image with id := imageId rel image.name image.fileTime.toMillis, rank := rank }

/-- The images of an album, numbered from a rank on. -/
def numberImages (rel : String) : Rank → List Image → List Image
  | _, [] => []
  | rank, image :: images => image.numbered rel rank :: numberImages rel (rank + 1) images

/-- The albums with their images numbered through, from a rank on. -/
def numberAlbums : Rank → List Album → List Album
  | _, [] => []
  | rank, album :: albums =>
    { album with images := numberImages album.rel rank album.images } ::
      numberAlbums (rank + album.images.length) albums

/-! ### The index -/

/-- Where an image lies: the number of its album and its position there.  Both are meant to be kept in
32 bits; they fit if no image lies in an album behind the first `2 ^ 32` and there are no more images
than that. -/
structure Location where
  album : Nat
  position : Nat
deriving DecidableEq

/-- The locations of the images of albums, the first of which has the given number. -/
def locationsFrom : Nat → List Album → List Location
  | _, [] => []
  | n, album :: albums =>
    (List.range album.images.length).map (fun p => ⟨n, p⟩) ++ locationsFrom (n + 1) albums

/-- Keyword tables and rank tables over a list of albums. -/
structure Index where
  /-- The images of each keyword. -/
  literal : Postings
  /-- The images of each sub-keyword. -/
  sub : Postings
  /-- The last image of each identity. -/
  byId : Std.TreeMap ImageId Rank
  /-- The identity of each rank. -/
  ids : Array ImageId
  locations : Array Location

namespace Index

/-- The index over nothing. -/
def empty : Index := ⟨∅, ∅, ∅, #[], #[]⟩

/-- The visits of the first and of the second pass over the images.  Both passes fold through one
cache. -/
def passes (images : List Image) : List Visit × List Visit :=
  let (first, cache) := visitAll FoldCache.empty images
  (first, (visitAll cache images).1)

/-- The index over albums whose images are numbered. -/
def ofAlbums (albums : List Album) : Index :=
  let images := albums.flatMap Album.images
  let (first, second) := passes images
  { literal := Postings.ofPasses Visit.literal first second
    sub := Postings.ofPasses Visit.sub first second
    byId := images.foldl (fun t image => t.insert image.id image.rank) ∅
    ids := (images.map Image.id).toArray
    locations := (locationsFrom 0 albums).toArray }

/-! ### Ranks and identities -/

/-- The number of images. -/
def imageCount (index : Index) : Nat := index.ids.size

/-- The rank of the last image of an identity. -/
def rankOf? (index : Index) (id : ImageId) : Option Rank := index.byId[id]?

def idOf? (index : Index) (rank : Rank) : Option ImageId := index.ids[rank]?

def location? (index : Index) (rank : Rank) : Option Location := index.locations[rank]?

/-! ### Looking up keywords -/

/-- The ranks whose identity neither stands in `seen` nor came earlier. -/
def newIdentities (index : Index) (seen : List (Option ImageId)) : List Rank → List Rank
  | [] => []
  | r :: rs =>
    if index.idOf? r ∈ seen then newIdentities index seen rs
    else r :: newIdentities index (index.idOf? r :: seen) rs

/-- The images of a keyword: first those that have it as a keyword, then those that have it as a
sub-keyword; of the images of one identity only the first. -/
def images (index : Index) (keyword : String) : List Rank :=
  index.newIdentities [] (index.literal.ranksOf keyword ++ index.sub.ranksOf keyword)

/-- The images that have the keyword as keyword or sub-keyword, in ascending order. -/
def imagesRanked (index : Index) (keyword : String) : List Rank :=
  mergeRanks (index.literal.ranksOf keyword) (index.sub.ranksOf keyword)

/-- Shorter keywords come first; keywords of one length come in the order of their characters. -/
def keywordLE (a b : String) : Bool :=
  decide (a.length < b.length) || (a.length == b.length && decide (a ≤ b))

/-- The keys that contain a text, shortest first: those of the keyword table and, if asked for,
those that only the sub-keyword table has. -/
def matchingKeywords (index : Index) (pattern : String) (withSub : Bool) : List String :=
  let contains (key : String) : Bool := occurs pattern.toList key.toList
  let literal := index.literal.keys.filter contains
  let sub :=
    if withSub then
      index.sub.keys.filter fun key => contains key && !index.literal.contains key
    else []
  (literal ++ sub).mergeSort keywordLE

/-- The number of different keys of both tables. -/
def keywordCount (index : Index) : Nat :=
  index.literal.size + (index.sub.keys.filter fun key => !index.literal.contains key).length

/-- More images come first; keywords with as many images come in the order of their characters. -/
def usageLE (a b : String × Nat) : Bool :=
  decide (b.2 < a.2) || (a.2 == b.2 && decide (a.1 ≤ b.1))

/-- The keys of the keyword table with the numbers of their images, most used first. -/
def histogram (index : Index) : List (String × Nat) :=
  (index.literal.toList.map fun (key, ranks) => (key, ranks.length)).mergeSort usageLE

/-- The histogram as a text, one keyword on a line. -/
def summary (index : Index) : String :=
  String.join (index.histogram.map fun (key, n) =>
    key ++ ": " ++ String.ofList (natDigits n) ++ "\n")

end Index
end AlbumIndex
