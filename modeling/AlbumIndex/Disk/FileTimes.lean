import AlbumIndex.Disk.Entry
import Std.Data.TreeMap

/-!
# Times of files

While the collection is walked, the time of change of everything that a listing shows is noted under
its path below the root of the collection.  When a folder's turn comes, the time noted for it tells
whether its snapshot is out of date.

## Main definitions

* `joinRel` — the path of a child.
* `FileTimes`, `FileTimes.record`, `FileTimes.get?` — the noted times.
-/

namespace AlbumIndex

open Calendar

/-- The path of a child of a folder; the root of the collection has the empty path. -/
def joinRel (parent name : String) : String := if parent = "" then name else parent ++ "/" ++ name

/-- Times of change by path. -/
structure FileTimes where
  times : Std.TreeMap String Instant

namespace FileTimes

def empty : FileTimes := ⟨∅⟩

/-- The number of paths with a time. -/
def size (t : FileTimes) : Nat := t.times.size

/-- No path has a time. -/
def isEmpty (t : FileTimes) : Bool := t.times.isEmpty

/-- The time of a path, in place of an earlier one. -/
def recordOne (t : FileTimes) (rel : String) (time : Instant) : FileTimes :=
  ⟨t.times.insert rel time⟩

def record (t : FileTimes) (parent : String) (entries : List Entry) : FileTimes :=
  entries.foldl (fun t e => t.recordOne (joinRel parent e.name) e.modified) t

/-- The time last noted for a path. -/
def get? (t : FileTimes) (rel : String) : Option Instant := t.times[rel]?

end FileTimes
end AlbumIndex
