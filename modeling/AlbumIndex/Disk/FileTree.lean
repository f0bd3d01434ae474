import AlbumIndex.Disk.Entry
import AlbumIndex.Disk.FilePath

/-!
# Trees of files

The disk as a value: every file, folder and link under the names that lead to it from the root, and
the folder that relative paths start from.  Following a path passes through links; the number of
links, the length of a path and that of a name are bounded, so every path leads somewhere or fails
for a reason.  Changing the disk gives another tree.

## Main definitions

* `FileTree` — the nodes by their places, the current folder, and the time of changes to come.
* `Trouble` — why a path could not be used, and `Trouble.message`.
* `FileTree.locate` — the place that a path leads to.
* `FileTree.read`, `FileTree.list`, `FileTree.stat` — looking at the disk.
* `FileTree.write`, `FileTree.makeFolders` — changing it.
-/

namespace AlbumIndex
namespace Disk

open Calendar

/-! ### Trees -/

/-- A name in a folder.  Names that are no text are kept as bytes and cannot be part of a path. -/
inductive Name where
  /-- A text. -/
  | text (s : String)
  /-- Bytes that are no text. -/
  | raw (bytes : List UInt8)
deriving DecidableEq, Repr

/-- The names that lead from the root of the disk to a place. -/
abbrev Place := List Name

/-- What is at a place. -/
inductive FileNode where
  /-- A plain file. -/
  | file (bytes : List UInt8) (modified : Instant)
  /-- A folder; what lies in it has places of its own. -/
  | folder (modified : Instant)
  /-- Another name for what a path leads to, from the folder that holds the link. -/
  | link (target : FilePath)
  /-- Neither file nor folder: it is empty when read and takes whatever is written. -/
  | device (modified : Instant)
deriving DecidableEq

/-- The files of a disk. -/
structure FileTree where
  /-- What is at each place, in the order in which places came about. -/
  nodes : List (Place × FileNode)
  /-- The folder that relative paths start from. -/
  current : Place
  /-- The time that written files and new folders get. -/
  clock : Instant

/-- Why a path could not be used. -/
inductive Trouble where
  /-- A name on the way is missing. -/
  | notFound
  /-- What should be made is there already. -/
  | exists
  /-- Something on the way is no folder. -/
  | notFolder
  /-- A folder stands where a file is wanted. -/
  | isFolder
  /-- A name, or the whole path, has too many bytes. -/
  | nameTooLong
  /-- Too many links lie on the way. -/
  | tooManyLinks
  /-- The bytes of the file are no text. -/
  | notText
  /-- The path has a null character, which the system takes for the end of a path. -/
  | nullInPath
deriving DecidableEq, Repr

/-- The words for a cause, with the number that the system gives to it, if it has one. -/
def Trouble.message : Trouble → String
  | .notFound => "No such file or directory (os error 2)"
  | .exists => "File exists (os error 17)"
  | .notFolder => "Not a directory (os error 20)"
  | .isFolder => "Is a directory (os error 21)"
  | .nameTooLong => "File name too long (os error 36)"
  | .tooManyLinks => "Too many levels of symbolic links (os error 40)"
  | .notText => "stream did not contain valid UTF-8"
  | .nullInPath => "file name contained an unexpected NUL byte"

namespace FileTree

/-- The tree of a disk with empty folders on the way to the current one. -/
def ofCurrent (current : Place) (clock : Instant) : FileTree :=
  { nodes := (List.range (current.length + 1)).map fun n => (current.take n, .folder clock)
    current, clock }

def node? (t : FileTree) (place : Place) : Option FileNode := t.nodes.lookup place

/-- The node of a place replaced, or added if there was none. -/
def putNode (place : Place) (node : FileNode) : List (Place × FileNode) → List (Place × FileNode)
  | [] => [(place, node)]
  | (p, n) :: rest => if p = place then (p, node) :: rest else (p, n) :: putNode place node rest

/-- The tree with a node at a place. -/
def put (t : FileTree) (place : Place) (node : FileNode) : FileTree :=
  { t with nodes := putNode place node t.nodes }

/-! ### Following paths -/

/-- Where a path leads. -/
inductive Target where
  /-- To this node at this place. -/
  | found (place : Place) (node : FileNode)
  /-- To a name that an existing folder does not have. -/
  | missing (place : Place)
deriving DecidableEq

/-- The number of links that may be passed on one path. -/
def maxLinks : Nat := 40

/-- The number of bytes that a path may have. -/
def maxPathBytes : Nat := 4095

/-- The number of bytes that a name may have. -/
def maxNameBytes : Nat := 255

/-- Follows steps from a place.  Links on the way are followed by `follow`, which gets the place to
start from and all steps still to go; a link at the end of the way is passed only if `through`. -/
def walk (t : FileTree) (through : Bool) (follow : Place → List Step → Except Trouble Target) :
    List Step → Place → Except Trouble Target
  | [], place =>
    match t.node? place with
    | some node => .ok (.found place node)
    | none => .error .notFound
  | step :: rest, place =>
    match t.node? place with
    | some (.folder _) =>
      match step with
      | .here => walk t through follow rest place
      | .up => walk t through follow rest place.dropLast
      | .into name =>
        if maxNameBytes < name.utf8ByteSize then .error .nameTooLong
        else
          let child := place ++ [.text name]
          match t.node? child with
          | none => if rest.isEmpty then .ok (.missing child) else .error .notFound
          | some (.link target) =>
            if rest.isEmpty && !through then .ok (.found child (.link target))
            else if target.text = "" then .error .notFound
            else follow (if target.isAbsolute then [] else place) (target.steps ++ rest)
          | some _ => walk t through follow rest child
    | some _ => .error .notFolder
    | none => .error .notFound

/-- Follows steps from a place, passing so many links at most. -/
def walkLinks (t : FileTree) (through : Bool) : Nat → Place → List Step → Except Trouble Target
  | 0, place, steps => walk t through (fun _ _ => .error .tooManyLinks) steps place
  | n + 1, place, steps => walk t through (walkLinks t through n) steps place

/-- Where a path leads; a link at its end is passed only if `through`.  A path with a null character
leads nowhere, whatever lies on the way. -/
def locate (t : FileTree) (through : Bool) (p : FilePath) : Except Trouble Target :=
  if p.text.toList.contains '\x00' then .error .nullInPath
  else if p.text = "" then .error .notFound
  else if maxPathBytes < p.text.utf8ByteSize then .error .nameTooLong
  else walkLinks t through maxLinks (if p.isAbsolute then [] else t.current) p.steps

/-! ### Looking -/

/-- What a path leads to, links passed. -/
def stat (t : FileTree) (p : FilePath) : Except Trouble FileNode :=
  match t.locate true p with
  | .ok (.found _ node) => .ok node
  | .ok (.missing _) => .error .notFound
  | .error e => .error e

/-- The path leads somewhere. -/
def exists? (t : FileTree) (p : FilePath) : Bool := (t.stat p).toOption.isSome

def isFolder (t : FileTree) (p : FilePath) : Bool :=
  match t.stat p with
  | .ok (.folder _) => true
  | _ => false

end FileTree

/-- When a node was last changed; a link has no time of its own. -/
def FileNode.modified : FileNode → Instant
  | .file _ m => m
  | .folder m => m
  | .device m => m
  | .link _ => Instant.epoch

def FileNode.isFile : FileNode → Bool
  | .file _ _ => true
  | _ => false

namespace FileTree

def read (t : FileTree) (p : FilePath) : Except Trouble (List UInt8) :=
  match t.stat p with
  | .ok (.file bytes _) => .ok bytes
  | .ok (.device _) => .ok []
  | .ok (.folder _) => .error .isFolder
  | .ok (.link _) => .error .tooManyLinks
  | .error e => .error e

def readText (t : FileTree) (p : FilePath) : Except Trouble String := do
  let bytes ← t.read p
  match String.fromUTF8? ⟨bytes.toArray⟩ with
  | some s => return s
  | none => throw .notText

def nameIn? (folder place : Place) : Option Name :=
  if folder.isPrefixOf place then
    match place.drop folder.length with
    | [name] => some name
    | _ => none
  else none

def namesIn (t : FileTree) (folder : Place) : List Name :=
  t.nodes.filterMap fun (place, _) => nameIn? folder place

/-- The line of a listing for a name; none for names that are no text, and for links that lead
nowhere. -/
def entry? (t : FileTree) (p : FilePath) : Name → Option Entry
  | .raw _ => none
  | .text name =>
    match t.stat (p.join name) with
    | .ok node => some ⟨name, node.isFile, node.modified⟩
    | .error _ => none

def list (t : FileTree) (p : FilePath) : Except Trouble (List Entry) :=
  match t.locate true p with
  | .ok (.found place (.folder _)) => .ok ((t.namesIn place).filterMap (t.entry? p))
  | .ok (.found _ _) => .error .notFolder
  | .ok (.missing _) => .error .notFound
  | .error e => .error e

/-! ### Changing -/

/-- A file with the given bytes at a path; its folder has to exist. -/
def write (t : FileTree) (p : FilePath) (bytes : List UInt8) : Except Trouble FileTree :=
  match t.locate true p with
  | .ok (.found place (.file _ _)) => .ok (t.put place (.file bytes t.clock))
  | .ok (.found _ (.device _)) => .ok t
  | .ok (.found _ (.folder _)) => .error .isFolder
  | .ok (.found _ (.link _)) => .error .tooManyLinks
  | .ok (.missing place) => .ok (t.put place (.file bytes t.clock))
  | .error e => .error e

/-- A new folder at a path; the folder around it has to exist. -/
def makeFolder (t : FileTree) (p : FilePath) : Except Trouble FileTree :=
  let trimmed : FilePath := ⟨String.ofList (p.text.toList.reverse.dropWhile (· == '/')).reverse⟩
  match t.locate false (if trimmed.text = "" then p else trimmed) with
  | .ok (.found _ _) => .error .exists
  | .ok (.missing place) => .ok (t.put place (.folder t.clock))
  | .error e => .error e

/-- A new folder at a path that is not taken for a failure if there is a folder already. -/
def ensureFolder (t : FileTree) (p : FilePath) : FileTree × Option Trouble :=
  match t.makeFolder p with
  | .ok t' => (t', none)
  | .error e => (t, if t.isFolder p then none else some e)

/-- New folders at all paths of a list, shortest last, as far as they are missing: the first that
can be made, or is there, ends the search, and the ones before it are made afterwards.  A failure
leaves the folders made before it. -/
def makeMissing (t : FileTree) : List FilePath → FileTree × Option Trouble
  | [] => (t, none)
  | p :: around =>
    match t.makeFolder p with
    | .error .notFound =>
      match makeMissing t around with
      | (t', some e) => (t', some e)
      | (t', none) => t'.ensureFolder p
    | _ => t.ensureFolder p

/-- The folder of a path and all folders around it, as far as they are missing. -/
def makeFolders (t : FileTree) (p : FilePath) : FileTree × Option Trouble :=
  makeMissing t p.ancestors

/-- Another time for what a path leads to. -/
def touch (t : FileTree) (p : FilePath) (time : Instant) : FileTree :=
  match t.locate true p with
  | .ok (.found place (.file bytes _)) => t.put place (.file bytes time)
  | .ok (.found place (.folder _)) => t.put place (.folder time)
  | _ => t

/-- A link at a path, in place of nothing. -/
def makeLink (t : FileTree) (p target : FilePath) : Except Trouble FileTree :=
  match t.locate false p with
  | .ok (.found _ _) => .error .exists
  | .ok (.missing place) => .ok (t.put place (.link target))
  | .error e => .error e

/-- The tree without what is at a path, and all below it; a link is removed itself. -/
def remove (t : FileTree) (p : FilePath) : FileTree :=
  match t.locate false p with
  | .ok (.found place _) => { t with nodes := t.nodes.filter fun (q, _) => !place.isPrefixOf q }
  | _ => t

end FileTree
end Disk
end AlbumIndex
