import AlbumIndex.Disk.FileTree
import AlbumIndex.Snapshot.Format
import AlbumIndex.Text.Quoted

/-!
# Snapshots on the disk

The snapshots of a collection lie below one folder, each in a folder of the same path as the one it
tells of, in two files: `index.bin` has the bytes that are read back, `index.json` is for people.

## Main definitions

* `SnapshotStore` — the folder that the snapshots lie in.
* `SnapshotStore.read` — a snapshot read back; one that is missing or damaged is empty.
* `SnapshotStore.write` — a snapshot written, and how far that got.
-/

namespace AlbumIndex
namespace Disk

open Text

/-- The folder that the snapshots of a collection lie in. -/
structure SnapshotStore where
  /-- The folder of the snapshot of the root. -/
  root : FilePath
deriving DecidableEq

/-- Why a snapshot could not be written. -/
inductive StoreError where
  /-- The folder of the snapshot cannot be made. -/
  | cannotCreateFolder (path : FilePath) (cause : Trouble)
  /-- One of its two files cannot be written. -/
  | cannotWrite (path : FilePath) (cause : Trouble)
deriving DecidableEq

/-- The words for a failure, without its cause. -/
def StoreError.message : StoreError → String
  | .cannotCreateFolder path _ => "Failed to create snapshot directory " ++ quoted path.text
  | .cannotWrite path _ => "Failed to write " ++ quoted path.text

namespace SnapshotStore

/-- The name of the file that is read back. -/
def binaryName : String := "index.bin"

/-- The name of the file for people. -/
def jsonName : String := "index.json"

def folder (s : SnapshotStore) (rel : String) : FilePath :=
  if rel = "" then s.root else s.root.join rel

/-- The file that the snapshot of a path is read from. -/
def binaryFile (s : SnapshotStore) (rel : String) : FilePath := (s.folder rel).join binaryName

/-- The file that shows the snapshot of a path to people. -/
def jsonFile (s : SnapshotStore) (rel : String) : FilePath := (s.folder rel).join jsonName

/-- The snapshot of a path; the empty one if there is no file that holds one. -/
def read (s : SnapshotStore) (tree : FileTree) (rel : String) : Snapshot :=
  match tree.read (s.binaryFile rel) with
  | .ok bytes => (Snapshot.decode? bytes).getD .empty
  | .error _ => .empty

/-- One file written, or the tree as it was and the failure. -/
def writeFile (tree : FileTree) (path : FilePath) (bytes : Bytes) : FileTree × Option StoreError :=
  match tree.write path bytes with
  | .ok tree' => (tree', none)
  | .error cause => (tree, some (.cannotWrite path cause))

/-- The snapshot of a path written in both forms.  A failure leaves what was written before it. -/
def write (s : SnapshotStore) (tree : FileTree) (rel : String) (snapshot : Snapshot) :
    FileTree × Option StoreError :=
  match tree.makeFolders (s.folder rel) with
  | (tree, some cause) => (tree, some (.cannotCreateFolder (s.folder rel) cause))
  | (tree, none) =>
    match writeFile tree (s.binaryFile rel) snapshot.encode with
    | (tree, some e) => (tree, some e)
    | (tree, none) => writeFile tree (s.jsonFile rel) snapshot.json.pretty.toUTF8.data.toList

end SnapshotStore
end Disk
end AlbumIndex
