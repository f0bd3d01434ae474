import AlbumIndex.Calendar.Stamp
import AlbumIndex.Json
import AlbumIndex.Recent
import AlbumIndex.Snapshot.Format

/-!
# Reports in JSON

The forms in which images, albums and keywords are handed to other programs.

## Main definitions

* `Image.json`, `Album.json` — all fields of an image, and those of an album without its images.
* `RecentKeyword.json` — an entry of the summary of recent keywords.
* `ImageRef.json` — an image as a search shows it.
-/

namespace AlbumIndex

open Calendar

/-- An instant in the internet form. -/
def Calendar.Instant.json (t : Instant) : Json := .str t.stamp

/-- All fields of an image; offsets of a stereo pair only if there are any. -/
def Image.json (image : Image) : Json :=
  .obj ([("id", .int image.id.toNat), ("rank", .int image.rank), ("name", .str image.name),
    ("keywords", .strings image.keywords), ("sub_keywords", .strings image.subKeywords),
    ("file_time", image.fileTime.json), ("item_time", image.itemTime.json),
    ("rotate_degrees", .int image.rotation.toInt)] ++
    (image.stereo.map fun s => ("stereo", s.json)).toList)

/-- The path and the times of an album. -/
def Album.json (album : Album) : Json :=
  .obj [("rel_pat", .str album.rel), ("index_time", album.indexTime.json),
    ("last_modified", album.lastModified.json)]

/-- A keyword, the number of its occurrences, and its latest images. -/
def RecentKeyword.json (r : RecentKeyword) : Json :=
  .obj [("keyword", .str r.keyword), ("count", .int r.count),
    ("images", .arr (r.images.map Image.json))]

/-- An image and its album as a search shows them. -/
def ImageRef.json (r : ImageRef) : Json :=
  .obj ([("id", .int r.image.id.toNat), ("rank", .int r.image.rank), ("album", .str r.album.rel),
    ("name", .str r.image.name), ("keywords", .strings r.image.keywords),
    ("item_time", r.image.itemTime.json)] ++
    (if r.image.stereo.isSome then [("stereo", .bool true)] else []))

end AlbumIndex
