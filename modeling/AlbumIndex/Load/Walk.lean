import AlbumIndex.Disk.FileTimes
import AlbumIndex.Disk.SnapshotStore
import AlbumIndex.Snapshot.Materialize
import AlbumIndex.Snapshot.Refresh

/-!
# Loading the collection

A load walks the folders of the collection from its root downwards.  Each folder is listed when its
turn comes; if its snapshot is older than the folder, the snapshot is taken anew and, if asked for,
kept on the disk; the album of the folder is made from the snapshot.  The folders below it wait until
those that were found before have had their turn.  A folder that cannot be listed is left out with
all below it.

The disk is the one that the load itself has left so far: what it keeps may be listed and read later
on in the same load.

## Main definitions

* `FolderRequest`, `FileTimes.requests` — the folders that wait for their turn.
* `LoadOptions`, `Loader` — how and from where a load is done.
* `Loader.loadFolder`, `Loader.see`, `Loader.walk` — the load of a listed folder, of a folder whose
  turn has come, and of all below a row of folders.
* `Loader.load` — the load of a collection, its albums in the order of their index.
-/

namespace AlbumIndex

open Calendar Disk Text

/-! ### Folders to be loaded -/

/-- The most folders that can lie on a path: each has a slash and a name. -/
def maxFolders : Nat := FileTree.maxPathBytes + 1

/-- The path of a folder of a collection with the given root. -/
def folderPath (originals : FilePath) (rel : String) : FilePath :=
  if rel = "" then originals else originals.join rel

/-- A folder that waits for its turn. -/
structure FolderRequest where
  rel : String
  /-- When it was changed, as seen in the listing of the folder around it. -/
  modified : Option Instant
deriving DecidableEq

/-- The requests for the subfolders of a listed folder, with the times noted for them. -/
def FileTimes.requests (times : FileTimes) (rel : String) (entries : List Entry) :
    List FolderRequest :=
  (subfolderNames entries).map fun name => ⟨joinRel rel name, times.get? (joinRel rel name)⟩

/-! ### Loaders -/

structure LoadOptions where
  /-- Snapshots taken anew are kept on the disk. -/
  updateDisk : Bool
  /-- Small copies of the images are made afterwards. -/
  minify : Bool
  /-- All snapshots are taken anew. -/
  force : Bool
deriving DecidableEq

/-- Where a collection lies, and what it is loaded with. -/
structure Loader where
  /-- The root of the collection. -/
  originals : FilePath
  /-- Where its snapshots are kept. -/
  store : SnapshotStore
  /-- The offset of the dates in the names of folders. -/
  offset : Offset
  extractor : Extractor

/-- A snapshot is stale if it has no stamp, or one from before the folder was changed. -/
def Snapshot.isStale (s : Snapshot) (modified : Instant) : Bool :=
  match s.stamp with
  | none => true
  | some millis => decide (Instant.ofMillis millis < modified)

structure FolderLoad where
  album : Album
  /-- The snapshot that the album was made from. -/
  snapshot : Snapshot
  /-- The snapshot was taken anew. -/
  rebuilt : Bool
  /-- The files that the extractor looked into. -/
  calls : List FilePath

/-- A load under way: the disk, the times seen, and what has come out so far. -/
structure Progress where
  tree : FileTree
  /-- The times of all entries listed so far. -/
  times : FileTimes
  /-- The albums made so far. -/
  albums : List Album
  /-- The number of folders whose snapshots were taken anew. -/
  rebuilt : Nat
  /-- The number of folders that could not be listed. -/
  failed : Nat
  /-- The files that the extractor looked into. -/
  calls : List FilePath

/-- One folder more could not be loaded. -/
def Progress.fail (p : Progress) : Progress := { p with failed := p.failed + 1 }

namespace Loader

/-- The snapshot of a folder that is up to date, the files looked into for it, and whether it was
taken anew. -/
def upToDate (l : Loader) (force : Bool) (rel : String) (modified : Instant) (entries : List Entry)
    (old : Snapshot) : Refreshed × Bool :=
  if old.isStale modified || force then
    let r := old.refresh (folderPath l.originals rel) entries l.extractor force
    ({ r with snapshot.stamp := some modified.toMillis }, true)
  else (⟨old, []⟩, false)

/-- The load of a listed folder, changed at the given time and so far known by an old snapshot.  The
calendar has to have the times of all entries, be they looked at later or not. -/
def loadFolder (l : Loader) (force : Bool) (rel : String) (modified : Instant)
    (entries : List Entry) (old : Snapshot) : Except OutOfRange FolderLoad := do
  entries.forM fun e => e.modified.ensureInRange
  let (r, rebuilt) := l.upToDate force rel modified entries old
  let album ← r.snapshot.materialize rel l.offset
  return ⟨album, r.snapshot, rebuilt, r.calls⟩

/-- The disk with a snapshot kept on it; a failure to do so is passed over. -/
def keep (l : Loader) (rel : String) (snapshot : Snapshot) (tree : FileTree) : FileTree :=
  (l.store.write tree rel snapshot).1

/-- A way to keep the snapshot of a path on a disk, such as `Loader.keep`. -/
abbrev Keeping := String → Snapshot → FileTree → FileTree

variable (keep : Keeping) (l : Loader) (opts : LoadOptions)

/-- A load with one folder more, whose snapshot is kept if it is new and the options ask for it. -/
def takeIn (rel : String) (entries : List Entry) (f : FolderLoad) (p : Progress) : Progress :=
  { tree := if f.rebuilt && opts.updateDisk then keep rel f.snapshot p.tree else p.tree
    times := p.times.record rel entries
    albums := p.albums ++ [f.album]
    rebuilt := if f.rebuilt then p.rebuilt + 1 else p.rebuilt
    failed := p.failed
    calls := p.calls ++ f.calls }

/-- A folder loaded from the disk as it is now, and the requests for those below it. -/
def see (p : Progress) (r : FolderRequest) : Except OutOfRange (Progress × List FolderRequest) :=
  match r.modified, p.tree.list (folderPath l.originals r.rel) with
  | some time, .ok entries => do
    let f ← l.loadFolder opts.force r.rel time.round entries (l.store.read p.tree r.rel)
    let p := takeIn keep opts r.rel entries f p
    return (p, p.times.requests r.rel entries)
  | _, _ => return (p.fail, [])

/-- A row of folders loaded one after the other, and the requests for those below them. -/
def seeRow : List FolderRequest → Progress → Except OutOfRange (Progress × List FolderRequest)
  | [], p => return (p, [])
  | r :: row, p => do
    let (p, below) ← see keep l opts p r
    let (p, next) ← seeRow row p
    return (p, below ++ next)

/-- A row of folders and all below them loaded: first the row, then all folders right below it, and
so on.  First asked for is first loaded.  After so many rows, paths are too long to be listed. -/
def walk : Nat → List FolderRequest → Progress → Except OutOfRange Progress
  | _, [], p => return p
  | 0, row, p => return row.foldl (fun p _ => p.fail) p
  | depth + 1, row, p => do
    let (p, next) ← seeRow keep l opts row p
    walk depth next p

end Loader

/-! ### Loads -/

structure LoadStats where
  albums : Nat
  images : Nat
  /-- The number of folders whose snapshots were taken anew. -/
  rebuilt : Nat
  /-- The number of folders that could not be listed. -/
  failed : Nat
deriving DecidableEq, Repr

/-- Why a collection could not be loaded. -/
inductive LoadError where
  /-- Nothing can be told about the root of the collection. -/
  | cannotReadOriginals (path : FilePath) (cause : Trouble)
  /-- The calendar does not have a time of change, or ends too soon after a dated album. -/
  | outOfRange (seconds : Int)
deriving DecidableEq

/-- The words for a failure, without its cause. -/
def LoadError.message : LoadError → String
  | .cannotReadOriginals path _ => "Cannot read originals directory " ++ quoted path.text
  | .outOfRange _ => "date out of range"

/-- What comes out of a load. -/
structure Loaded where
  /-- The albums in the order of their index. -/
  albums : List Album
  stats : LoadStats
  /-- The files that the extractor looked into. -/
  calls : List FilePath
  /-- The disk afterwards. -/
  tree : FileTree

/-- Albums whose snapshots are older come first; those as old come in the order of their paths. -/
def Album.le (a b : Album) : Bool :=
  decide (a.indexTime < b.indexTime) || (a.indexTime == b.indexTime && decide (a.rel ≤ b.rel))

/-- The outcome of a finished walk. -/
def Progress.loaded (p : Progress) : Loaded :=
  { albums := p.albums.mergeSort Album.le
    stats := ⟨p.albums.length, p.albums.foldr (fun a n => a.images.length + n) 0, p.rebuilt, p.failed⟩
    calls := p.calls
    tree := p.tree }

namespace Loader

/-- A load before its first folder. -/
def begin (tree : FileTree) (rootTime : Instant) : Progress :=
  ⟨tree, FileTimes.empty.recordOne "" rootTime, [], 0, 0, []⟩

/-- The walk over a collection, whose root was changed at the given time. -/
def walkFrom (keep : Keeping) (l : Loader) (opts : LoadOptions) (rootTime : Instant)
    (tree : FileTree) : Except OutOfRange Progress := do
  rootTime.ensureInRange
  let p := begin tree rootTime
  l.walk keep opts maxFolders [⟨"", p.times.get? ""⟩] p

/-- What becomes of a load whose walk has come to an end. -/
def outcome : Except OutOfRange Progress → Except LoadError Loaded
  | .ok p => .ok p.loaded
  | .error e => .error (.outOfRange e.seconds)

/-- The load of a collection with a way to keep its snapshots. -/
def loadWith (keep : Keeping) (l : Loader) (opts : LoadOptions) (tree : FileTree) :
    Except LoadError Loaded :=
  match tree.stat l.originals with
  | .error cause => .error (.cannotReadOriginals l.originals cause)
  | .ok root => outcome (l.walkFrom keep opts root.modified tree)

def load (l : Loader) (opts : LoadOptions) (tree : FileTree) : Except LoadError Loaded :=
  l.loadWith l.keep opts tree

end Loader
end AlbumIndex
