import AlbumIndex.Image

/-!
# Snapshots

A snapshot keeps what is known about the files of one folder from one load to the next: the images
and videos with their keywords and times, and the names of the subfolders.  Whatever is not known is
left out.  Times are milliseconds, of whole seconds.

## Main definitions

* `ImageAttributes`, `Item` — what is known about an image, and about a file.
* `Snapshot` — what is known about a folder.
-/

namespace AlbumIndex

/-- What is known about an image apart from its keywords and times. -/
structure ImageAttributes where
  height : Option UInt32
  width : Option UInt32
  /-- The degrees it is to be turned by. -/
  rotation : Option Int32
  stereo : Option Stereo
deriving DecidableEq

/-- Nothing is known about an image. -/
def ImageAttributes.unknown : ImageAttributes := ⟨none, none, none, none⟩

/-- One image or video of a folder. -/
structure Item where
  name : String
  /-- When the file was last changed. -/
  fileMillis : Option Int64
  /-- When the picture was taken. -/
  itemMillis : Option Int64
  keywords : List String
  /-- What else is known, for an image. -/
  image : Option ImageAttributes
  isVideo : Bool
deriving DecidableEq

namespace Item

/-- An image of which only the name and the time of its file are known. -/
def newImage (name : String) (fileMillis : Int64) : Item :=
  ⟨name, some fileMillis, none, [], some .unknown, false⟩

/-- A video of which only the name and the time of its file are known. -/
def newVideo (name : String) (fileMillis : Int64) : Item :=
  ⟨name, some fileMillis, none, [], none, true⟩

end Item

/-- What is known about a folder. -/
structure Snapshot where
  /-- When the folder had last been changed as the snapshot was taken. -/
  stamp : Option Int64
  /-- Its images and videos. -/
  items : List Item
  subfolders : List String
deriving DecidableEq

/-- Nothing is known about a folder. -/
def Snapshot.empty : Snapshot := ⟨none, [], []⟩

end AlbumIndex
