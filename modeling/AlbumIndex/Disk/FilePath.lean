import AlbumIndex.Text.Pieces

/-!
# Paths

A path names a place on the disk by a text of names with slashes between them.  It is kept as it was
written; doubled slashes and dots are passed over only when it is followed.

## Main definitions

* `FilePath`, `FilePath.join` — a path, and a path continued from another one.
* `FilePath.parent?`, `FilePath.ancestors` — a path without its last name, and so on.
* `Step`, `FilePath.steps` — what following a path amounts to.
-/

namespace AlbumIndex
namespace Disk

/-- A path as it was written. -/
structure FilePath where
  text : String
deriving DecidableEq, Repr

/-- One step along a path. -/
inductive Step where
  /-- Stay in the folder. -/
  | here
  /-- Go to the folder around. -/
  | up
  /-- Go to the entry of a name. -/
  | into (name : String)
deriving DecidableEq, Repr

/-- The step that a stretch of text between two slashes stands for. -/
def Step.of (piece : String) : Step :=
  if piece = "" ∨ piece = "." then .here else if piece = ".." then .up else .into piece

namespace FilePath

/-- The path begins at the root of the disk. -/
def isAbsolute (p : FilePath) : Bool := p.text.toList.head? == some '/'

/-- A path continued by a text; an absolute text takes its place altogether. -/
def join (base : FilePath) (rest : String) : FilePath :=
  if rest.toList.head? = some '/' then ⟨rest⟩
  else if base.text = "" ∨ base.text.toList.getLast? = some '/' then ⟨base.text ++ rest⟩
  else ⟨base.text ++ "/" ++ rest⟩

/-- The steps of a path, from the root of the disk if it is absolute. -/
def steps (p : FilePath) : List Step :=
  (Text.pieces (· == '/') p.text.toList).map fun s => Step.of (String.ofList s)

/-- A reversed text without the slashes and lonely dots at its end.  A dot is lonely if it follows a
slash. -/
def skipEmpty : List Char → List Char
  | '/' :: cs => skipEmpty cs
  | '.' :: '/' :: cs => skipEmpty ('/' :: cs)
  | cs => cs

/-- The path without its last name; nothing if it has no name. -/
def parent? (p : FilePath) : Option FilePath :=
  match skipEmpty p.text.toList.reverse with
  | [] => none
  | cs =>
    let before := cs.dropWhile (· ≠ '/')
    match skipEmpty before, before with
    | [], _ :: _ => some ⟨"/"⟩
    | rest, _ => some ⟨String.ofList rest.reverse⟩

/-- The path, the path without its last name, and so on, as long as a name is left. -/
def ancestorsWithin : Nat → FilePath → List FilePath
  | 0, _ => []
  | n + 1, p =>
    match p.parent? with
    | none => []
    | some q => p :: ancestorsWithin n q

/-- The path and the paths around it, the longest first, as far as they have a name. -/
def ancestors (p : FilePath) : List FilePath := ancestorsWithin (p.text.length + 1) p

end FilePath
end Disk
end AlbumIndex
