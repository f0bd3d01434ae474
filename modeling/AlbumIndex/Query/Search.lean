import AlbumIndex.Query.Compile

/-!
# Searches

A search is a query at work on a catalog: it hands out one image after the other, in the order of
their ranks, and can be stopped at any time.  It goes on with the catalog it was begun on, whatever
becomes of the library meanwhile.

## Main definitions

* `Search` — a query at work.
* `Search.begin`, `Search.ofText` — a query begun on a catalog.
* `Search.nextRank`, `Search.next` — the next answer, as a rank and as an image.
* `Search.cancel` — the search gives nothing from now on.
* `Search.ranks`, `Search.results` — all answers.
-/

namespace AlbumIndex
namespace Query

open Calendar

/-- A query at work on a catalog; a condition that makes no sense has no cursor. -/
structure Search where
  catalog : Catalog
  /-- The cursor of its condition, if that makes sense. -/
  root : Option Cursor
  /-- The search has been stopped. -/
  cancelled : Bool

namespace Search

/-- The search that gives nothing. -/
def empty (c : Catalog) : Search := ⟨c, none, false⟩

/-- A node opened on a catalog, ready to be drawn from. -/
def begin (s : Scope) (node : Node) : Except OutOfRange Search :=
  (node.open s).map fun root => ⟨s.catalog, root, false⟩

/-- The query that a text writes, begun on a catalog. -/
def ofText (c : Catalog) (text : String) (opts : Options) : Except OutOfRange Search :=
  begin ⟨c, opts.mode, opts.offset⟩ (compile c opts text)

/-- The search gives nothing from now on. -/
def cancel (s : Search) : Search := { s with cancelled := true }

/-- The next rank, and the search after it. -/
def nextRank (s : Search) : Option Rank × Search :=
  match s.root with
  | none => (none, s)
  | some c =>
    let (rank, c') := c.pull s.cancelled
    (rank, { s with root := some c' })

/-- The number of ranks that the search can still give at most. -/
def weight (s : Search) : Nat := (s.root.map Cursor.weight).getD 0

/-- The next rank that the catalog has an image for, within so many pulls. -/
def nextKnown : Nat → Search → Option ImageRef × Search
  | 0, s => (none, s)
  | n + 1, s =>
    match s.nextRank with
    | (none, s') => (none, s')
    | (some r, s') =>
      match s.catalog.ref? r with
      | some ref => (some ref, s')
      | none => nextKnown n s'

/-- The next image, and the search after it. -/
def next (s : Search) : Option ImageRef × Search := nextKnown (s.weight + 1) s

/-- The ranks of so many pulls at most, up to the first that gives none. -/
def takeRanks : Nat → Search → List Rank
  | 0, _ => []
  | n + 1, s =>
    match s.nextRank with
    | (none, _) => []
    | (some r, s') => r :: takeRanks n s'

/-- All ranks that the search still gives. -/
def ranks (s : Search) : List Rank := takeRanks s.weight s

/-- All images that the search still gives. -/
def results (s : Search) : List ImageRef := s.ranks.filterMap s.catalog.ref?

end Search
end Query
end AlbumIndex
