import AlbumIndex.Disk.Entry
import AlbumIndex.Disk.FilePath
import AlbumIndex.Snapshot

/-!
# Taking a snapshot anew

When a folder has changed, its snapshot is taken anew from its listing and from the snapshot before.
A file that has not changed keeps its item.  Every other image and video is given to an extractor,
which looks into the file; what the extractor does not find out is filled in from the item that the
file had before.

## Main definitions

* `Extractor` — what is found in a file.
* `Item.mergeImage`, `Item.mergeVideo` — gaps filled in from an older item.
* `Snapshot.refresh` — the new snapshot, and the files that were looked into.
-/

namespace AlbumIndex

open Calendar Disk

/-! ### Extractors -/

/-- What is found in a file. -/
structure Findings where
  keywords : List String
  /-- When the picture was taken. -/
  itemMillis : Option Int64
  image : Option ImageAttributes
deriving DecidableEq

/-- Looks into the file of a path, given its item as far as it is known.  An extractor that gives up
halfway leaves what it has found so far. -/
abbrev Extractor := FilePath → Item → Findings

/-- An item after the extractor has looked into its file. -/
def Item.extracted (item : Item) (f : Findings) : Item :=
  { item with keywords := f.keywords, itemMillis := f.itemMillis, image := f.image }

/-- Takes the time of a file for the time of its picture, and finds nothing else. -/
def Extractor.fileTime : Extractor := fun _ item => ⟨item.keywords, item.fileMillis, item.image⟩

/-! ### Filling gaps -/

/-- Keywords without line feeds, those left empty dropped. -/
def cleanKeywords (keywords : List String) : List String :=
  (keywords.map fun k => String.ofList (k.toList.filter (· ≠ '\n'))).filter fun k => !k.isEmpty

/-- What is known of an image, with the gaps filled in from what was known before. -/
def ImageAttributes.orElse (image old : ImageAttributes) : ImageAttributes :=
  { height := image.height <|> old.height
    width := image.width <|> old.width
    rotation := image.rotation <|> old.rotation
    stereo := image.stereo <|> old.stereo }

namespace Item

/-- The item of an image with its gaps filled in from an older one. -/
def mergeImage (item old : Item) : Item :=
  { item with
    keywords := if item.keywords.isEmpty then cleanKeywords old.keywords else item.keywords
    itemMillis := item.itemMillis <|> old.itemMillis
    image := match old.image with
      | none => item.image
      | some o => some ((item.image.getD .unknown).orElse o) }

/-- The item of a video: keywords and time are those of the older one, whatever was found. -/
def mergeVideo (item old : Item) : Item :=
  { item with keywords := old.keywords, itemMillis := old.itemMillis }

end Item

/-! ### Snapshots -/

/-- The item of a name in a snapshot; of several the last one counts. -/
def Snapshot.item? (s : Snapshot) (name : String) : Option Item :=
  s.items.reverse.find? fun i => i.name == name

/-- The milliseconds kept for the time of a file. -/
def Entry.fileMillis (e : Entry) : Int64 := e.modified.round.toMillis

/-- The entry is the file that an item tells of, unchanged. -/
def Item.isCurrent (item : Item) (e : Entry) : Bool :=
  item.fileMillis == some e.fileMillis && item.isVideo == (e.kind == .video)

/-- The item of an image or video that was looked into. -/
def Entry.extract (e : Entry) (folder : FilePath) (old : Option Item) (extractor : Extractor) :
    Item :=
  let path := folder.join e.name
  let isVideo := e.kind == .video
  let new := if isVideo then Item.newVideo e.name e.fileMillis
    else Item.newImage e.name e.fileMillis
  let item := new.extracted (extractor path new)
  match old with
  | none => item
  | some o => if isVideo then item.mergeVideo o else item.mergeImage o

/-- A snapshot taken anew, and the paths of the files that were looked into. -/
structure Refreshed where
  snapshot : Snapshot
  /-- The files that were looked into, in order. -/
  calls : List FilePath
deriving DecidableEq

namespace Snapshot

/-- A snapshot with the next entry of the listing taken in. -/
def refreshEntry (folder : FilePath) (old : Snapshot) (extractor : Extractor) (force : Bool)
    (r : Refreshed) (e : Entry) : Refreshed :=
  match e.kind with
  | .ignored | .other => r
  | .subfolder => { r with snapshot.subfolders := r.snapshot.subfolders ++ [e.name] }
  | .image | .video =>
    match (old.item? e.name).filter fun o => !force && o.isCurrent e with
    | some o => { r with snapshot.items := r.snapshot.items ++ [o] }
    | none =>
      { snapshot := { r.snapshot with
          items := r.snapshot.items ++ [e.extract folder (old.item? e.name) extractor] }
        calls := r.calls ++ [folder.join e.name] }

/-- The snapshot of a folder taken anew from its listing, without a stamp.  With `force`, unchanged
files are looked into too. -/
def refresh (folder : FilePath) (entries : List Entry) (old : Snapshot) (extractor : Extractor)
    (force : Bool) : Refreshed :=
  (entries.mergeSort fun a b => decide (a.name ≤ b.name)).foldl
    (refreshEntry folder old extractor force) ⟨.empty, []⟩

end Snapshot
end AlbumIndex
