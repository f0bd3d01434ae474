import AlbumIndex.Calendar.Instant

/-!
# Entries of folders

What a listing says about each thing in a folder: its name, whether it is a file, and when it was
last changed.  From these the library tells what to do with it.

## Main definitions

* `Entry` — one line of a listing.
* `EntryKind`, `Entry.kind` — what the entry is to the library.
-/

namespace AlbumIndex

open Calendar

/-- One line of the listing of a folder. -/
structure Entry where
  name : String
  /-- It is a plain file; everything else is tried as a folder. -/
  isFile : Bool
  /-- When it was last changed. -/
  modified : Instant
deriving DecidableEq

/-- What an entry is to the library. -/
inductive EntryKind where
  /-- Its name is set aside for other purposes. -/
  | ignored
  /-- It is no plain file and will be tried as a folder. -/
  | subfolder
  /-- An image file by its ending. -/
  | image
  /-- A video file by its ending. -/
  | video
  /-- A file that is neither an image nor a video. -/
  | other
deriving DecidableEq, Repr

/-- Endings of the names of image files. -/
def imageEndings : List String := [".jpg", ".JPG", ".jpeg", ".BMP", ".TIF", ".gif", ".GIF"]

/-- Endings of the names of video files. -/
def videoEndings : List String := [".webm", ".WEBM"]

/-- Names that are neither listed nor entered. -/
def ignoredNames : List String :=
  [".minis", ".comments", "Data", "Albums", "Desktop", "Originals", "Thumbs"]

def hasEnding (endings : List String) (name : String) : Bool :=
  endings.any fun e => e.toList.isSuffixOf name.toList

def Entry.kind (e : Entry) : EntryKind :=
  if e.name ∈ ignoredNames then .ignored
  else if !e.isFile then .subfolder
  else if hasEnding imageEndings e.name then .image
  else if hasEnding videoEndings e.name then .video
  else .other

def subfolderNames (entries : List Entry) : List String :=
  (entries.filter fun e => e.kind == .subfolder).map Entry.name

end AlbumIndex
