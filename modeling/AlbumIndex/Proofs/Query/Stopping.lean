import AlbumIndex.Proofs.Cursor.Stopping
import AlbumIndex.Query.Search

/-!
# Stopping a search

Whoever has a search draws ranks and images from it, in any order, and can stop it at any time, from
within or from elsewhere.  Stopping cuts the answers off: what was drawn before is what it would
have been, and nothing comes after, however often one asks.

## Main definitions

* `Search.Act`, `Search.Drawn` — what is done with a search, and what it answers.
* `Search.act`, `Search.play`, `Search.played` — one act, the answers of a row of acts, and the
  search after them.

## Main results

* `Search.play_of_cancelled` — a search that has been stopped answers nothing.
* `Search.play_stopped` — **stopping cuts the answers off and changes none of them.**
-/

namespace AlbumIndex
namespace Query
namespace Search

/-! ### Acts -/

/-- What is done with a search. -/
inductive Act where
  /-- The next rank is drawn. -/
  | rank
  /-- The next image is drawn. -/
  | image
  /-- The search is stopped. -/
  | cancel
  deriving DecidableEq, Repr

/-- What a search gives when it is drawn from. -/
inductive Drawn where
  | rank (r : Rank)
  | image (ref : ImageRef)

/-- The answer to an act, and the search after it; stopping has no answer. -/
def act (s : Search) : Act → Option Drawn × Search
  | .rank => (s.nextRank.1.map .rank, s.nextRank.2)
  | .image => (s.next.1.map .image, s.next.2)
  | .cancel => (none, s.cancel)

/-- The answers to a row of acts, one for each. -/
def play : List Act → Search → List (Option Drawn)
  | [], _ => []
  | a :: acts, s => (s.act a).1 :: play acts (s.act a).2

/-- The search after a row of acts. -/
def played : List Act → Search → Search
  | [], s => s
  | a :: acts, s => played acts (s.act a).2

@[simp] theorem play_nil (s : Search) : s.play [] = [] := rfl

@[simp] theorem play_cons (a : Act) (acts : List Act) (s : Search) :
    s.play (a :: acts) = (s.act a).1 :: (s.act a).2.play acts := rfl

@[simp] theorem played_nil (s : Search) : s.played [] = s := rfl

@[simp] theorem played_cons (a : Act) (acts : List Act) (s : Search) :
    s.played (a :: acts) = (s.act a).2.played acts := rfl

@[simp] theorem length_play (acts : List Act) (s : Search) : (s.play acts).length = acts.length := by
  induction acts generalizing s with
  | nil => rfl
  | cons a acts ih => rw [play_cons, List.length_cons, ih, List.length_cons]

theorem play_append (before after : List Act) (s : Search) :
    s.play (before ++ after) = s.play before ++ (s.played before).play after := by
  induction before generalizing s with
  | nil => rfl
  | cons a before ih => rw [List.cons_append, play_cons, ih, play_cons, played_cons, List.cons_append]

/-! ### Stopped searches -/

@[simp] theorem cancelled_cancel (s : Search) : s.cancel.cancelled = true := rfl

@[simp] theorem cancelled_nextRank (s : Search) : s.nextRank.2.cancelled = s.cancelled := by
  unfold nextRank
  split <;> rfl

theorem nextRank_of_cancelled {s : Search} (h : s.cancelled = true) : s.nextRank.1 = none := by
  unfold nextRank
  split
  · rfl
  · rw [h]
    exact Cursor.pull_true _

theorem next_of_cancelled {s : Search} (h : s.cancelled = true) :
    s.next = (none, s.nextRank.2) := by
  have hnone := nextRank_of_cancelled h
  rw [next, nextKnown]
  cases hs : s.nextRank with
  | mk answer s' =>
    rw [hs] at hnone
    cases hnone
    rfl

/-- Whatever is done with a stopped search, there is no answer, and it stays stopped. -/
theorem act_of_cancelled {s : Search} (h : s.cancelled = true) (a : Act) :
    (s.act a).1 = none ∧ (s.act a).2.cancelled = true := by
  cases a with
  | rank =>
    constructor
    · rw [act, nextRank_of_cancelled h, Option.map_none]
    · rw [act, cancelled_nextRank, h]
  | image =>
    rw [act, next_of_cancelled h]
    exact ⟨rfl, (cancelled_nextRank s).trans h⟩
  | cancel => exact ⟨rfl, rfl⟩

/-- **A search that has been stopped answers nothing**, however often it is asked. -/
theorem play_of_cancelled {s : Search} (h : s.cancelled = true) (acts : List Act) :
    s.play acts = List.replicate acts.length none := by
  induction acts generalizing s with
  | nil => rfl
  | cons a acts ih =>
    obtain ⟨hnone, hstays⟩ := act_of_cancelled h a
    rw [play_cons, hnone, ih hstays, List.length_cons, List.replicate_succ]

/-- **Stopping cuts the answers off and changes none of them.**  The nodes of a query look at the
sign each in its own place, with the answers of a look at the top of every node.  So, of any search,
its cursors being in whatever state they are: if it is stopped between two acts, the acts before it
are answered as in a search that goes on, and all later ones are not answered. -/
theorem play_stopped :
    (∀ (stopped : Bool) (c : Cursor), c.pullLooking stopped = c.pull stopped) ∧
      ∀ (s : Search) (before after : List Act),
        s.play (before ++ .cancel :: after) =
          (s.play (before ++ after)).take before.length ++
            List.replicate (after.length + 1) none := by
  refine ⟨Cursor.pullLooking_eq_pull, ?_⟩
  intro s before after
  have hcut : (s.play (before ++ after)).take before.length = s.play before := by
    rw [play_append]
    exact List.take_left' (length_play before s)
  rw [hcut, play_append, play_cons]
  -- what comes after the cut is asked of a stopped search
  have hrest := play_of_cancelled (cancelled_cancel (s.played before)) after
  rw [show ((s.played before).act .cancel).2 = (s.played before).cancel from rfl, hrest]
  rfl

end Search
end Query
end AlbumIndex
