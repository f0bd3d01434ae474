import AlbumIndex.Index.Keys
import Std.Data.TreeMap

/-!
# Postings

A table of postings gives for each key the ranks of the images that are registered under it.  It is
built in two passes: the first counts how often each key will occur, so that the second finds an
entry ready for every key it meets.  An image that reaches a key twice in a row is registered once.

## Main definitions

* `KeyCounts.ofKeys` — the first pass.
* `Draft` — a table under construction; `Draft.add` registers an image under a key.
* `Postings.ofPasses` — the table that the two passes make.
* `Postings` — a finished table, with the ranks of a key in ascending order.
* `mergeRanks` — two ascending lists of ranks as one.
-/

namespace AlbumIndex

/-! ### Counting -/

/-- How often each key occurs. -/
abbrev KeyCounts := Std.TreeMap String Nat

/-- One occurrence of a key more. -/
def KeyCounts.count (counts : KeyCounts) (key : String) : KeyCounts :=
  counts.alter key fun n => some (n.getD 0 + 1)

def KeyCounts.ofKeys (keys : List String) : KeyCounts := keys.foldl KeyCounts.count ∅

/-! ### Tables under construction -/

/-- A table under construction: the ranks of each key, the last one first. -/
abbrev Draft := Std.TreeMap String (List Rank)

namespace Draft

/-- An entry for every key counted, without ranks. -/
def ofCounts (counts : KeyCounts) : Draft := counts.map fun _ _ => []

/-- A rank put in front of the ranks of a key, unless it is the one in front already. -/
def pushRank (rank : Rank) (ranks : List Rank) : List Rank :=
  if ranks.head? = some rank then ranks else rank :: ranks

/-- The image of a rank registered under a key.  A key that was not counted gets its entry now. -/
def add (draft : Draft) (key : String) (rank : Rank) : Draft :=
  draft.alter key fun ranks => some (pushRank rank (ranks.getD []))

/-- Several registrations, one after the other. -/
def addAll (draft : Draft) (calls : List (String × Rank)) : Draft :=
  calls.foldl (fun d call => d.add call.1 call.2) draft

end Draft

/-! ### Finished tables -/

/-- The ranks of each key, in ascending order; a key without ranks is not in the table. -/
abbrev Postings := Std.TreeMap String (List Rank)

def Draft.finish (draft : Draft) : Postings :=
  (draft.filter fun _ ranks => !ranks.isEmpty).map fun _ ranks => ranks.reverse

namespace Postings

/-- The registrations of visited images, in the order in which they are made. -/
def calls (keysOf : Visit → List String) (visits : List Visit) : List (String × Rank) :=
  visits.flatMap fun v => (keysOf v).map fun key => (key, v.rank)

/-- The table with an entry for every key that the first pass met. -/
def counted (keysOf : Visit → List String) (visits : List Visit) : Draft :=
  Draft.ofCounts (KeyCounts.ofKeys (visits.flatMap keysOf))

/-- The table of two passes over the same images: the first counts the keys, the second registers
the images. -/
def ofPasses (keysOf : Visit → List String) (first second : List Visit) : Postings :=
  ((counted keysOf first).addAll (calls keysOf second)).finish

end Postings

/-- The ranks of a key; none if nothing is registered under it. -/
def Postings.ranksOf (table : Postings) (key : String) : List Rank := table[key]?.getD []

/-! ### Merging -/

/-- The rank `a` and the list `rest` behind it merged with a second list, given how `rest`
merges. -/
def mergeFront (a : Rank) (rest : List Rank) (mergeRest : List Rank → List Rank) :
    List Rank → List Rank
  | [] => a :: rest
  | b :: bs =>
    if a < b then a :: mergeRest (b :: bs)
    else if b < a then b :: mergeFront a rest mergeRest bs
    else a :: mergeRest bs

/-- The ranks of two ascending lists, in ascending order; a rank at the front of both comes once. -/
def mergeRanks : List Rank → List Rank → List Rank
  | [], bs => bs
  | a :: as, bs => mergeFront a as (mergeRanks as) bs

end AlbumIndex
