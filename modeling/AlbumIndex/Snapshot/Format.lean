import AlbumIndex.Bytes.Codec
import AlbumIndex.Json
import AlbumIndex.Snapshot

/-!
# The two forms of a snapshot

A snapshot is written twice: as bytes, which are read back, and as JSON, which is for people only.
Bytes that are not those of a snapshot, possibly with more behind them, count as no snapshot.

## Main definitions

* `Snapshot.codec` — the fields of a snapshot in order.
* `Snapshot.encode`, `Snapshot.decode?` — the form in bytes.
* `Snapshot.json` — the form in JSON.
-/

namespace AlbumIndex

open Number

/-! ### Bytes -/

/-- A 32-bit number by its bits. -/
def Number.Binary32.codec : Codec Binary32 := Codec.word32.through Binary32.bits Binary32.mk

/-- The four offsets of a stereo pair. -/
def Stereo.codec : Codec Stereo :=
  (Binary32.codec.both (Binary32.codec.both (Binary32.codec.both Binary32.codec))).through
    (fun s => (s.dx, s.dy, s.anaDx, s.anaDy)) (fun (dx, dy, anaDx, anaDy) => ⟨dx, dy, anaDx, anaDy⟩)

/-- Height, width, rotation and stereo offsets, each as far as known. -/
def ImageAttributes.codec : Codec ImageAttributes :=
  (Codec.word32.option.both (Codec.word32.option.both
    (Codec.signed32.option.both Stereo.codec.option))).through
    (fun a => (a.height, a.width, a.rotation, a.stereo))
    (fun (height, width, rotation, stereo) => ⟨height, width, rotation, stereo⟩)

/-- The name of a file, its two times, its keywords, what is known about an image, and whether it is
a video. -/
def Item.codec : Codec Item :=
  (Codec.text.both (Codec.signed64.option.both (Codec.signed64.option.both
    (Codec.text.list.both (ImageAttributes.codec.option.both Codec.flag))))).through
    (fun i => (i.name, i.fileMillis, i.itemMillis, i.keywords, i.image, i.isVideo))
    (fun (name, fileMillis, itemMillis, keywords, image, isVideo) =>
      ⟨name, fileMillis, itemMillis, keywords, image, isVideo⟩)

namespace Snapshot

/-- The stamp, the items and the names of the subfolders. -/
def codec : Codec Snapshot :=
  (Codec.signed64.option.both (Item.codec.list.both Codec.text.list)).through
    (fun s => (s.stamp, s.items, s.subfolders))
    (fun (stamp, items, subfolders) => ⟨stamp, items, subfolders⟩)

def encode (s : Snapshot) : Bytes := codec.write s

/-- The snapshot that a row of bytes begins with. -/
def decode? (bytes : Bytes) : Option Snapshot := (codec.read bytes).map Prod.fst

end Snapshot

/-! ### JSON -/

/-- A whole number of eight bytes. -/
def Json.ofMillis (n : Int64) : Json := .int n.toInt

/-- The four offsets of a stereo pair. -/
def Stereo.json (s : Stereo) : Json :=
  .obj [("dx", .float s.dx), ("dy", .float s.dy), ("ana_dx", .float s.anaDx),
    ("ana_dy", .float s.anaDy)]

/-- Height, width, rotation and stereo offsets, each as far as known. -/
def ImageAttributes.json (a : ImageAttributes) : Json :=
  .obj [("height", .ofOption (fun h => .int h.toNat) a.height),
    ("width", .ofOption (fun w => .int w.toNat) a.width),
    ("rotate_degrees", .ofOption (fun r => .int r.toInt) a.rotation),
    ("stereo", .ofOption Stereo.json a.stereo)]

/-- All fields of an item; that it is a video is told by an object without fields. -/
def Item.json (i : Item) : Json :=
  .obj [("name", .str i.name), ("file_timestamp", .ofOption Json.ofMillis i.fileMillis),
    ("item_timestamp", .ofOption Json.ofMillis i.itemMillis), ("keywords", .strings i.keywords),
    ("image", .ofOption ImageAttributes.json i.image),
    ("video", if i.isVideo then .obj [] else .null)]

def Snapshot.json (s : Snapshot) : Json :=
  .obj [("directory_timestamp", .ofOption Json.ofMillis s.stamp),
    ("items", .arr (s.items.map Item.json)), ("sub_directories", .strings s.subfolders)]

end AlbumIndex
