import AlbumIndex.Proofs.Cursor.Pulls

/-!
# Where a pull looks at the sign

Every node looks at the sign that stops a query, but each in its own place.  A walk over a list and
a joining look at it when they are pulled, a walk that passes over entries looks again before each of
them, and a meeting looks only before it pulls its leader: the first ranks of the others it takes
without a look, and it is they who have none to give.  So a tree could, in between, hold ranks that
were drawn before the sign was set.

None of this matters.  With the looks where they are, a pull gives the same answer, and leaves the
same tree, as one that looks once at the top of each node.

## Main definitions

* `Cursor.pullLooking` — a pull with every look in its own place.

## Main results

* `Cursor.pullLooking_eq_pull` — **it does not matter where the looks are.**
* `Cursor.pull_true` — a stopped tree gives nothing.
-/

namespace AlbumIndex
namespace Query

/-! ### Walks -/

namespace Leaf

/-- The next first image of an album, with a look before each album. -/
def nextFirstLooking (stopped : Bool) (albums : List Album) : Option (Rank × List Album) :=
  if stopped then none
  else match albums with
  | [] => none
  | album :: albums =>
    match album.images with
    | [] => nextFirstLooking stopped albums
    | image :: _ => some (image.rank, albums)

/-- The next image that the test accepts, with a look before each image. -/
def nextKeptLooking (stopped : Bool) (keep : Image → Bool) (images : List Image) :
    Option (Rank × List Image) :=
  if stopped then none
  else match images with
  | [] => none
  | image :: images =>
    if keep image then some (image.rank, images) else nextKeptLooking stopped keep images

/-- The next rank of a walk that looks at the sign. -/
def pullLooking (stopped : Bool) : Leaf → Option (Rank × Leaf)
  | .postings ranks => if stopped then none else (Leaf.postings ranks).pull
  | .firsts albums => (nextFirstLooking stopped albums).map fun (r, rest) => (r, .firsts rest)
  | .contents rest => if stopped then none else (Leaf.contents rest).pull
  | .scan keep rest =>
    (nextKeptLooking stopped keep rest).map fun (r, later) => (r, .scan keep later)

theorem nextFirstLooking_true (albums : List Album) : nextFirstLooking true albums = none := by
  cases albums <;> rfl

theorem nextFirstLooking_false (albums : List Album) :
    nextFirstLooking false albums = nextFirst albums := by
  induction albums with
  | nil => rfl
  | cons album albums ih =>
    rw [nextFirstLooking, nextFirst, if_neg Bool.false_ne_true]
    cases album.images with
    | nil => exact ih
    | cons image images => rfl

theorem nextKeptLooking_true (keep : Image → Bool) (images : List Image) :
    nextKeptLooking true keep images = none := by
  cases images <;> rfl

theorem nextKeptLooking_false (keep : Image → Bool) (images : List Image) :
    nextKeptLooking false keep images = nextKept keep images := by
  induction images with
  | nil => rfl
  | cons image images ih =>
    rw [nextKeptLooking, nextKept, if_neg Bool.false_ne_true, ih]

theorem pullLooking_true (walk : Leaf) : walk.pullLooking true = none := by
  cases walk with
  | postings ranks => rfl
  | firsts albums => rw [pullLooking, nextFirstLooking_true, Option.map_none]
  | contents rest => rfl
  | scan keep rest => rw [pullLooking, nextKeptLooking_true, Option.map_none]

theorem pullLooking_false (walk : Leaf) : walk.pullLooking false = walk.pull := by
  cases walk with
  | postings ranks => rfl
  | firsts albums => rw [pullLooking, nextFirstLooking_false, pull]
  | contents rest => rfl
  | scan keep rest => rw [pullLooking, nextKeptLooking_false, pull]

end Leaf

/-! ### Meetings -/

/-- The next rank at which all stand together, with a look before each rank of the leader. -/
def meetLooking (stopped : Bool) (next : Puller) :
    Nat → Cursor → List (Cursor × Rank) → Option Rank × Cursor
  | steps, leader, others =>
    if stopped then (none, .ended)
    else match next leader with
    | (none, _) => (none, .ended)
    | (some r, leader') =>
      match catchUpAll next r others with
      | none => (none, .ended)
      | some (others', true) => (some r, .met leader' others')
      | some (others', false) =>
        match steps with
        | 0 => (none, .ended)
        | steps + 1 => meetLooking stopped next steps leader' others'

theorem meetLooking_true (next : Puller) (steps : Nat) (leader : Cursor)
    (others : List (Cursor × Rank)) : meetLooking true next steps leader others = (none, .ended) := by
  unfold meetLooking
  rw [if_pos rfl]

theorem meetLooking_false (next : Puller) (steps : Nat) (leader : Cursor)
    (others : List (Cursor × Rank)) :
    meetLooking false next steps leader others = meet next steps leader others := by
  induction steps generalizing leader others with
  | zero =>
    unfold meetLooking meet
    exact (if_neg Bool.false_ne_true).trans rfl
  | succ steps ih =>
    unfold meetLooking meet
    rw [if_neg Bool.false_ne_true]
    cases next leader with
    | mk answer leader' =>
      cases answer with
      | none => rfl
      | some r =>
        dsimp only
        cases catchUpAll next r others with
        | none => rfl
        | some found =>
          obtain ⟨others', same⟩ := found
          cases same with
          | true => rfl
          | false => exact ih leader' others'

/-! ### Trees -/

namespace Cursor

/-- The next rank of a tree with at most so many levels, each node looking at the sign where its
work does. -/
def pullToLooking (stopped : Bool) : Nat → Puller
  | 0, c => (none, c)
  | levels + 1, c =>
    match c with
    | .leaf walk =>
      match walk.pullLooking stopped with
      | none => (none, c)
      | some (r, walk') => (some r, .leaf walk')
    | .meeting leader others =>
      match firstRanks (pullToLooking stopped levels) others with
      | none => (none, .ended)
      | some others' =>
        meetLooking stopped (pullToLooking stopped levels) leader.weight leader others'
    | .met leader others =>
      meetLooking stopped (pullToLooking stopped levels) leader.weight leader others
    | .ended => (none, .ended)
    | .joining children =>
      if stopped then (none, c)
      else join (pullToLooking stopped levels) (fronts (pullToLooking stopped levels) children)
    | .joined children =>
      if stopped then (none, c) else join (pullToLooking stopped levels) children

/-- The next rank of a tree whose nodes look at the sign in their own places. -/
def pullLooking (stopped : Bool) (c : Cursor) : Option Rank × Cursor :=
  c.pullToLooking stopped c.height

theorem pullTo_true (levels : Nat) (c : Cursor) : (pullTo true levels c).1 = none := by
  cases levels with
  | zero => rfl
  | succ levels => cases c <;> rfl

/-- **A stopped tree gives nothing**, whatever it holds. -/
theorem pull_true (c : Cursor) : (c.pull true).1 = none := pullTo_true c.height c

/-- Children that are stopped have no first ranks, unless there are no children. -/
theorem firstRanks_true (levels : Nat) (c : Cursor) (cs : List Cursor) :
    firstRanks (pullTo true levels) (c :: cs) = none := by
  have h := pullTo_true levels c
  rw [firstRanks]
  cases hc : pullTo true levels c with
  | mk answer c' =>
    rw [hc] at h
    cases h
    rfl

/-- A meeting that looks only after the first ranks ends all the same. -/
theorem pullToLooking_meeting {levels : Nat}
    (ih : ∀ stopped, pullToLooking stopped levels = pullTo stopped levels) (stopped : Bool)
    (leader : Cursor) (others : List Cursor) :
    pullToLooking stopped (levels + 1) (.meeting leader others) =
      pullTo stopped (levels + 1) (.meeting leader others) := by
  rw [pullToLooking, pullTo, ih]
  cases stopped with
  | true =>
    rw [if_pos rfl]
    cases others with
    | nil => exact meetLooking_true _ _ _ _
    | cons c cs => rw [firstRanks_true]
  | false =>
    rw [if_neg Bool.false_ne_true]
    cases firstRanks (pullTo false levels) others with
    | none => rfl
    | some others' => exact meetLooking_false _ _ _ _

theorem pullToLooking_eq (stopped : Bool) (levels : Nat) :
    pullToLooking stopped levels = pullTo stopped levels := by
  induction levels generalizing stopped with
  | zero => rfl
  | succ levels ih =>
    funext c
    cases c with
    | leaf walk =>
      rw [pullToLooking, pullTo]
      cases stopped with
      | true => rw [Leaf.pullLooking_true, if_pos rfl]
      | false =>
        rw [Leaf.pullLooking_false]
        exact (if_neg Bool.false_ne_true).symm
    | meeting leader others => exact pullToLooking_meeting ih stopped leader others
    | met leader others =>
      rw [pullToLooking, pullTo, ih]
      cases stopped with
      | true => rw [meetLooking_true, if_pos rfl]
      | false => rw [meetLooking_false, if_neg Bool.false_ne_true]
    | ended => rfl
    | joining children => rw [pullToLooking, pullTo, ih]
    | joined children => rw [pullToLooking, pullTo, ih]

/-- **It does not matter where the looks are**: the answer and the tree afterwards are the same. -/
theorem pullLooking_eq_pull (stopped : Bool) (c : Cursor) :
    c.pullLooking stopped = c.pull stopped := by
  rw [pullLooking, pullToLooking_eq, pull]

end Cursor
end Query
end AlbumIndex
