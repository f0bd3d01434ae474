import AlbumIndex.Album
import AlbumIndex.Snapshot

/-!
# Albums from snapshots

The album of a folder holds the images of its snapshot; videos are left out.  An image whose own
time is not known gets that of its file, and a time that is not known at all is the epoch.

## Main definitions

* `Item.toImage` — the image of an item.
* `Snapshot.materialize` — the album of a snapshot.
-/

namespace AlbumIndex

open Calendar

/-- The instant of stored milliseconds, the epoch if there are none. -/
def storedInstant (millis : Option Int64) : Instant := (millis.map Instant.ofMillis).getD .epoch

def Item.toImage (item : Item) : Image :=
  let fileTime := storedInstant item.fileMillis
  let itemTime := (item.itemMillis.map Instant.ofMillis).getD fileTime
  let attributes := item.image.getD .unknown
  { Image.new item.name item.keywords fileTime itemTime with
    rotation := attributes.rotation.getD 0
    stereo := attributes.stereo }

/-- The album of a snapshot, known by its path below the root of the collection. -/
def Snapshot.materialize (rel : String) (s : Snapshot) (offset : Offset) :
    Except OutOfRange Album :=
  Album.ofImages rel (storedInstant s.stamp)
    ((s.items.filter fun i => !i.isVideo).map Item.toImage) offset

end AlbumIndex
