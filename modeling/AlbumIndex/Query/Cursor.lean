import AlbumIndex.Album

/-!
# Cursors over ranks

The answer to a query is drawn from a tree of cursors, one rank at a time.  The leaves walk a list
of ranks or of images; an inner node draws from its children only as far as its next answer needs.
All nodes of a query watch one sign that tells them to stop, and draw nothing once it is set.

A node that meets its children ("and") lets the first child lead and keeps one rank of each of the
others, which it moves forward until it has caught up with the leader.  A node that joins its
children ("or") keeps the front rank of each and hands out the least.  Both expect ascending
children; given others, they may lose or repeat ranks, but never stop for want of an end.

A pull recurses on the height of the tree, and the loops inside a node on the number of ranks that
its children can still give, so neither ever runs out.

## Main definitions

* `Leaf`, `Leaf.pull` — the walks at the bottom of the tree.
* `Cursor` — a tree of cursors in the middle of its work.
* `Cursor.pull` — the next rank and the cursor after it.
* `Cursor.drain` — all ranks that a cursor still gives.
-/

namespace AlbumIndex
namespace Query

/-! ### Leaves -/

/-- A walk over what is left of a list. -/
inductive Leaf where
  /-- Ranks, in the order in which they stand. -/
  | postings (ranks : List Rank)
  /-- The first image of every album that has one. -/
  | firsts (albums : List Album)
  /-- The images of one album. -/
  | contents (rest : List Image)
  /-- The images that a test accepts. -/
  | scan (keep : Image → Bool) (rest : List Image)

namespace Leaf

/-- The next first image of an album, and the albums after it. -/
def nextFirst : List Album → Option (Rank × List Album)
  | [] => none
  | album :: albums =>
    match album.images with
    | [] => nextFirst albums
    | image :: _ => some (image.rank, albums)

/-- The next image that the test accepts, and the images after it. -/
def nextKept (keep : Image → Bool) : List Image → Option (Rank × List Image)
  | [] => none
  | image :: images => if keep image then some (image.rank, images) else nextKept keep images

/-- The next rank of a walk that is not stopped, and the rest of the walk. -/
def pull : Leaf → Option (Rank × Leaf)
  | .postings [] => none
  | .postings (r :: rs) => some (r, .postings rs)
  | .firsts albums => (nextFirst albums).map fun (r, rest) => (r, .firsts rest)
  | .contents [] => none
  | .contents (image :: rest) => some (image.rank, .contents rest)
  | .scan keep rest => (nextKept keep rest).map fun (r, later) => (r, .scan keep later)

/-- The number of entries that the walk has before it. -/
def weight : Leaf → Nat
  | .postings ranks => ranks.length
  | .firsts albums => albums.length
  | .contents rest => rest.length
  | .scan _ rest => rest.length

end Leaf

/-! ### Trees -/

/-- A tree of cursors in the middle of its work. -/
inductive Cursor where
  /-- A walk over a list. -/
  | leaf (walk : Leaf)
  /-- A meeting that nobody has pulled yet. -/
  | meeting (leader : Cursor) (others : List Cursor)
  /-- A meeting at work: each of the others with the rank it stands at. -/
  | met (leader : Cursor) (others : List (Cursor × Rank))
  /-- A meeting that has come to its end. -/
  | ended
  /-- A joining that nobody has pulled yet. -/
  | joining (children : List Cursor)
  /-- A joining at work: each child with its front rank, if it still has one. -/
  | joined (children : List (Cursor × Option Rank))

namespace Cursor

mutual

/-- The number of levels of a tree. -/
def height : Cursor → Nat
  | .leaf _ => 1
  | .meeting leader others => max leader.height (heightAll others) + 1
  | .met leader others => max leader.height (heightMet others) + 1
  | .ended => 1
  | .joining children => heightAll children + 1
  | .joined children => heightJoined children + 1

/-- The number of levels of the highest of several trees. -/
def heightAll : List Cursor → Nat
  | [] => 0
  | c :: cs => max c.height (heightAll cs)

/-- The same for trees that stand at a rank. -/
def heightMet : List (Cursor × Rank) → Nat
  | [] => 0
  | (c, _) :: cs => max c.height (heightMet cs)

/-- The same for trees with their front ranks. -/
def heightJoined : List (Cursor × Option Rank) → Nat
  | [] => 0
  | (c, _) :: cs => max c.height (heightJoined cs)

end

mutual

/-- The number of ranks that a tree can still give at most: the entries before its leaves, and the
front ranks that its joinings hold. -/
def weight : Cursor → Nat
  | .leaf walk => walk.weight
  | .meeting leader others => leader.weight + weightAll others
  | .met leader others => leader.weight + weightMet others
  | .ended => 0
  | .joining children => weightAll children
  | .joined children => weightJoined children

/-- The number for several trees together. -/
def weightAll : List Cursor → Nat
  | [] => 0
  | c :: cs => c.weight + weightAll cs

/-- The same for trees that stand at a rank, which is spent. -/
def weightMet : List (Cursor × Rank) → Nat
  | [] => 0
  | (c, _) :: cs => c.weight + weightMet cs

/-- The same for trees with their front ranks, which are still to be given. -/
def weightJoined : List (Cursor × Option Rank) → Nat
  | [] => 0
  | (c, front) :: cs => c.weight + (if front.isSome then 1 else 0) + weightJoined cs

end

end Cursor

/-! ### Meeting -/

/-- A way to pull a cursor: its next rank, if it has one, and the cursor afterwards. -/
abbrev Puller := Cursor → Option Rank × Cursor

/-- The first ranks of all cursors; none as soon as one of them has no rank. -/
def firstRanks (next : Puller) : List Cursor → Option (List (Cursor × Rank))
  | [] => some []
  | c :: cs =>
    match next c with
    | (none, _) => none
    | (some r, c') => (firstRanks next cs).map ((c', r) :: ·)

/-- The cursor, which stands at `current`, moved forward to the first rank not below `target`; none
if it ends before. -/
def catchUp (next : Puller) (target : Rank) : Nat → Cursor → Rank → Option (Cursor × Rank)
  | steps, c, current =>
    if current < target then
      match steps with
      | 0 => none
      | steps + 1 =>
        match next c with
        | (none, _) => none
        | (some r, c') => catchUp next target steps c' r
    else some (c, current)

theorem catchUp_of_not_lt {next : Puller} {target current : Rank} (h : ¬ current < target)
    (steps : Nat) (c : Cursor) : catchUp next target steps c current = some (c, current) := by
  cases steps <;> exact if_neg h

theorem catchUp_zero_of_lt {next : Puller} {target current : Rank} (h : current < target)
    (c : Cursor) : catchUp next target 0 c current = none := if_pos h

theorem catchUp_succ_of_lt {next : Puller} {target current : Rank} (h : current < target)
    (steps : Nat) (c : Cursor) :
    catchUp next target (steps + 1) c current =
      match next c with
      | (none, _) => none
      | (some r, c') => catchUp next target steps c' r := if_pos h

/-- All of the other cursors caught up with the leader's rank, and whether all stand at it; none if
one of them ends before. -/
def catchUpAll (next : Puller) (target : Rank) :
    List (Cursor × Rank) → Option (List (Cursor × Rank) × Bool)
  | [] => some ([], true)
  | (c, current) :: others => do
    let (c', r) ← catchUp next target c.weight c current
    let (others', same) ← catchUpAll next target others
    return ((c', r) :: others', same && r == target)

/-- The next rank at which all stand together.  Each step takes one rank from the leader. -/
def meet (next : Puller) : Nat → Cursor → List (Cursor × Rank) → Option Rank × Cursor
  | steps, leader, others =>
    match next leader with
    | (none, _) => (none, .ended)
    | (some r, leader') =>
      match catchUpAll next r others with
      | none => (none, .ended)
      | some (others', true) => (some r, .met leader' others')
      | some (others', false) =>
        match steps with
        | 0 => (none, .ended)
        | steps + 1 => meet next steps leader' others'

/-! ### Joining -/

/-- The front ranks of all cursors, as far as they have one. -/
def fronts (next : Puller) (children : List Cursor) : List (Cursor × Option Rank) :=
  children.map fun c => ((next c).2, (next c).1)

def leastFront (children : List (Cursor × Option Rank)) : Option Rank :=
  (children.filterMap Prod.snd).min?

/-- Every child that stands at the given rank moved on by one. -/
def passFront (next : Puller) (rank : Rank) (children : List (Cursor × Option Rank)) :
    List (Cursor × Option Rank) :=
  children.map fun (c, front) => if front = some rank then ((next c).2, (next c).1) else (c, front)

/-- The least front rank, once, and the children behind it. -/
def join (next : Puller) (children : List (Cursor × Option Rank)) : Option Rank × Cursor :=
  match leastFront children with
  | none => (none, .joined children)
  | some r => (some r, .joined (passFront next r children))

/-! ### Pulling -/

namespace Cursor

/-- The next rank of a tree with at most so many levels.  Once the sign to stop is set, nothing is
drawn from the leaves, and a meeting ends for good. -/
def pullTo (stopped : Bool) : Nat → Puller
  | 0, c => (none, c)
  | levels + 1, c =>
    match c with
    | .leaf walk =>
      if stopped then (none, c)
      else match walk.pull with
        | none => (none, c)
        | some (r, walk') => (some r, .leaf walk')
    | .meeting leader others =>
      if stopped then (none, .ended)
      else match firstRanks (pullTo stopped levels) others with
        | none => (none, .ended)
        | some others' => meet (pullTo stopped levels) leader.weight leader others'
    | .met leader others =>
      if stopped then (none, .ended)
      else meet (pullTo stopped levels) leader.weight leader others
    | .ended => (none, .ended)
    | .joining children =>
      if stopped then (none, c)
      else join (pullTo stopped levels) (fronts (pullTo stopped levels) children)
    | .joined children =>
      if stopped then (none, c) else join (pullTo stopped levels) children

/-- The next rank of a tree, and the tree after it. -/
def pull (stopped : Bool) (c : Cursor) : Option Rank × Cursor := c.pullTo stopped c.height

/-- The ranks of at most so many pulls, up to the first that gives none. -/
def take : Nat → Cursor → List Rank
  | 0, _ => []
  | n + 1, c =>
    match c.pull false with
    | (none, _) => []
    | (some r, c') => r :: c'.take n

/-- All ranks that a tree still gives. -/
def drain (c : Cursor) : List Rank := c.take c.weight

end Cursor
end Query
end AlbumIndex
