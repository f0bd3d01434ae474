import AlbumIndex.Query.Cursor

/-!
# Pulling neither raises nor feeds a tree

A pull recurses on the height of its tree, and the loops inside a node count down the ranks that its
children can still give.  Both bounds hold because no pull makes a tree higher, and because every
rank that a tree gives is taken off its weight.  Nothing here is asked of the lists in the leaves:
the bounds hold of ranks in any order, and of a tree that was told to stop.

## Main definitions

* `given` — the number of ranks in an answer.
* `Puller.Thrifty` — a way to pull that keeps to both bounds.

## Main results

* `Cursor.pullTo_thrifty` — **every pull keeps to both bounds.**
* `Cursor.weight_pull_lt` — a pull that gives a rank makes the tree lighter.
-/

namespace AlbumIndex
namespace Query

/-- The number of ranks in an answer. -/
def given (answer : Option Rank) : Nat := if answer.isSome then 1 else 0

@[simp] theorem given_none : given none = 0 := rfl

@[simp] theorem given_some (r : Rank) : given (some r) = 1 := rfl

/-- A way to pull that never makes a tree higher and takes each rank off its weight. -/
structure Puller.Thrifty (next : Puller) : Prop where
  height_le : ∀ c, (next c).2.height ≤ c.height
  weight_le : ∀ c, (next c).2.weight + given (next c).1 ≤ c.weight

/-- The two bounds at a pull that gives a rank. -/
theorem Puller.Thrifty.of_some {next : Puller} (hn : next.Thrifty) {c c' : Cursor} {r : Rank}
    (h : next c = (some r, c')) : c'.height ≤ c.height ∧ c'.weight < c.weight := by
  have hh := hn.height_le c
  have hw := hn.weight_le c
  rw [h] at hh hw
  exact ⟨hh, hw⟩

/-! ### Leaves -/

namespace Leaf

theorem length_nextFirst {albums rest : List Album} {r : Rank}
    (h : nextFirst albums = some (r, rest)) : rest.length < albums.length := by
  induction albums with
  | nil => cases h
  | cons album albums ih =>
    rw [nextFirst] at h
    split at h
    · exact Nat.lt_succ_of_lt (ih h)
    · cases h
      exact Nat.lt_succ_self _

theorem length_nextKept {keep : Image → Bool} {images rest : List Image} {r : Rank}
    (h : nextKept keep images = some (r, rest)) : rest.length < images.length := by
  induction images with
  | nil => cases h
  | cons image images ih =>
    rw [nextKept] at h
    split at h
    · cases h
      exact Nat.lt_succ_self _
    · exact Nat.lt_succ_of_lt (ih h)

/-- A walk that gives a rank has fewer entries before it. -/
theorem weight_pull_lt {walk walk' : Leaf} {r : Rank} (h : walk.pull = some (r, walk')) :
    walk'.weight < walk.weight := by
  cases walk with
  | postings ranks =>
    cases ranks with
    | nil => cases h
    | cons r rs => cases h; exact Nat.lt_succ_self _
  | firsts albums =>
    obtain ⟨⟨r', rest⟩, hr, heq⟩ := Option.map_eq_some_iff.1 h
    cases heq
    exact length_nextFirst hr
  | contents rest =>
    cases rest with
    | nil => cases h
    | cons image rest => cases h; exact Nat.lt_succ_self _
  | scan keep rest =>
    obtain ⟨⟨r', later⟩, hr, heq⟩ := Option.map_eq_some_iff.1 h
    cases heq
    exact length_nextKept hr

end Leaf

/-! ### Loops over the children -/

open Cursor

variable {next : Puller}

theorem firstRanks_bounds (hn : next.Thrifty) {cs : List Cursor} {met : List (Cursor × Rank)}
    (h : firstRanks next cs = some met) :
    heightMet met ≤ heightAll cs ∧ weightMet met ≤ weightAll cs := by
  induction cs generalizing met with
  | nil => cases h; exact ⟨Nat.le_refl _, Nat.le_refl _⟩
  | cons c cs ih =>
    rw [firstRanks] at h
    split at h
    · cases h
    · next r c' hc =>
      obtain ⟨hh, hw⟩ := hn.of_some hc
      obtain ⟨met', hmet, rfl⟩ := Option.map_eq_some_iff.1 h
      obtain ⟨ihh, ihw⟩ := ih hmet
      simp only [heightMet, heightAll, weightMet, weightAll]
      omega

theorem catchUp_bounds (hn : next.Thrifty) {target : Rank} {n : Nat} {c c' : Cursor}
    {current r : Rank} (h : catchUp next target n c current = some (c', r)) :
    c'.height ≤ c.height ∧ c'.weight ≤ c.weight := by
  induction n generalizing c current with
  | zero =>
    by_cases hlt : current < target
    · rw [catchUp_zero_of_lt hlt] at h
      cases h
    · rw [catchUp_of_not_lt hlt] at h
      cases h
      exact ⟨Nat.le_refl _, Nat.le_refl _⟩
  | succ n ih =>
    by_cases hlt : current < target
    · rw [catchUp_succ_of_lt hlt] at h
      split at h
      · cases h
      · next r₁ c₁ hc =>
        obtain ⟨hh, hw⟩ := hn.of_some hc
        obtain ⟨ihh, ihw⟩ := ih h
        omega
    · rw [catchUp_of_not_lt hlt] at h
      cases h
      exact ⟨Nat.le_refl _, Nat.le_refl _⟩

/-- One step of `catchUpAll`, taken apart. -/
theorem catchUpAll_cons_eq_some {target : Rank} {c : Cursor} {current : Rank}
    {others met : List (Cursor × Rank)} {same : Bool}
    (h : catchUpAll next target ((c, current) :: others) = some (met, same)) :
    ∃ c' r others' same', catchUp next target c.weight c current = some (c', r) ∧
      catchUpAll next target others = some (others', same') ∧
      met = (c', r) :: others' ∧ same = (same' && r == target) := by
  rw [catchUpAll] at h
  obtain ⟨⟨c', r⟩, hc, h⟩ := Option.bind_eq_some_iff.1 h
  obtain ⟨⟨others', same'⟩, ho, h⟩ := Option.bind_eq_some_iff.1 h
  cases h
  exact ⟨c', r, others', same', hc, ho, rfl, rfl⟩

theorem catchUpAll_bounds (hn : next.Thrifty) {target : Rank} {others met : List (Cursor × Rank)}
    {same : Bool} (h : catchUpAll next target others = some (met, same)) :
    heightMet met ≤ heightMet others ∧ weightMet met ≤ weightMet others := by
  induction others generalizing met same with
  | nil => cases h; exact ⟨Nat.le_refl _, Nat.le_refl _⟩
  | cons o others ih =>
    obtain ⟨c', r, others', same', hc, ho, rfl, -⟩ := catchUpAll_cons_eq_some h
    obtain ⟨hh, hw⟩ := catchUp_bounds hn hc
    obtain ⟨ihh, ihw⟩ := ih ho
    simp only [heightMet, weightMet]
    omega

theorem meet_bounds (hn : next.Thrifty) (n : Nat) (leader : Cursor)
    (others : List (Cursor × Rank)) :
    (meet next n leader others).2.height ≤ max leader.height (heightMet others) + 1 ∧
      (meet next n leader others).2.weight + given (meet next n leader others).1 ≤
        leader.weight + weightMet others := by
  induction n generalizing leader others with
  | zero =>
    unfold meet
    split
    · simp [height, weight]
    · next r leader' hl =>
      obtain ⟨hh, hw⟩ := hn.of_some hl
      split
      · simp [height, weight]
      · next others' ho =>
        obtain ⟨hoh, how⟩ := catchUpAll_bounds hn ho
        simp only [height, weight, given_some]
        omega
      · simp [height, weight]
  | succ n ih =>
    unfold meet
    split
    · simp [height, weight]
    · next r leader' hl =>
      obtain ⟨hh, hw⟩ := hn.of_some hl
      split
      · simp [height, weight]
      · next others' ho =>
        obtain ⟨hoh, how⟩ := catchUpAll_bounds hn ho
        simp only [height, weight, given_some]
        omega
      · next others' ho =>
        obtain ⟨hoh, how⟩ := catchUpAll_bounds hn ho
        obtain ⟨ihh, ihw⟩ := ih leader' others'
        dsimp only
        omega

theorem fronts_bounds (hn : next.Thrifty) (cs : List Cursor) :
    heightJoined (fronts next cs) ≤ heightAll cs ∧ weightJoined (fronts next cs) ≤ weightAll cs := by
  induction cs with
  | nil => exact ⟨Nat.le_refl _, Nat.le_refl _⟩
  | cons c cs ih =>
    have hh := hn.height_le c
    have hw := hn.weight_le c
    obtain ⟨ihh, ihw⟩ := ih
    simp only [fronts, given] at hw ihh ihw
    simp only [fronts, List.map_cons, heightJoined, heightAll, weightJoined, weightAll]
    omega

/-- Passing a front takes one rank off for every child that stood at it. -/
theorem passFront_bounds (hn : next.Thrifty) (r : Rank) (cs : List (Cursor × Option Rank)) :
    heightJoined (passFront next r cs) ≤ heightJoined cs ∧
      weightJoined (passFront next r cs) + (cs.map Prod.snd).count (some r) ≤ weightJoined cs := by
  induction cs with
  | nil => exact ⟨Nat.le_refl _, Nat.le_refl _⟩
  | cons child cs ih =>
    obtain ⟨c, front⟩ := child
    have hh := hn.height_le c
    have hw := hn.weight_le c
    obtain ⟨ihh, ihw⟩ := ih
    simp only [passFront, given] at hw ihh ihw
    simp only [passFront, List.map_cons, heightJoined, weightJoined]
    by_cases hf : front = some r
    · subst hf
      -- the front passed was counted, and the pull pays for the one that replaces it
      simp only [if_true, List.count_cons_self, Option.isSome_some]
      omega
    · rw [if_neg hf, List.count_cons_of_ne hf]
      dsimp only
      omega

/-- The least front is the front of a child. -/
theorem leastFront_eq_some {cs : List (Cursor × Option Rank)} {r : Rank}
    (h : leastFront cs = some r) :
    some r ∈ cs.map Prod.snd ∧ ∀ x, some x ∈ cs.map Prod.snd → r ≤ x := by
  obtain ⟨hmem, hle⟩ := List.min?_eq_some_iff.1 h
  rw [List.mem_filterMap] at hmem
  obtain ⟨child, hc, hr⟩ := hmem
  refine ⟨List.mem_map.2 ⟨child, hc, hr⟩, fun x hx => ?_⟩
  obtain ⟨child', hc', hx⟩ := List.mem_map.1 hx
  exact hle x (List.mem_filterMap.2 ⟨child', hc', hx⟩)

theorem join_bounds (hn : next.Thrifty) (cs : List (Cursor × Option Rank)) :
    (join next cs).2.height ≤ heightJoined cs + 1 ∧
      (join next cs).2.weight + given (join next cs).1 ≤ weightJoined cs := by
  unfold join
  split
  · simp [height, weight]
  · next r hr =>
    obtain ⟨hh, hw⟩ := passFront_bounds hn r cs
    -- at least one child stands at the least front, so the weight goes down
    have hpos := List.count_pos_iff.2 (leastFront_eq_some hr).1
    simp only [height, weight, given_some]
    omega

/-! ### Pulls -/

namespace Cursor

/-- **Every pull keeps to both bounds**, however many levels it is allowed. -/
theorem pullTo_thrifty (stopped : Bool) (n : Nat) : Puller.Thrifty (pullTo stopped n) := by
  induction n with
  | zero => exact ⟨fun c => Nat.le_refl _, fun c => Nat.le_refl _⟩
  | succ n ih =>
    -- one statement for both bounds, so that the cases are split once
    suffices h : ∀ c, (pullTo stopped (n + 1) c).2.height ≤ c.height ∧
        (pullTo stopped (n + 1) c).2.weight + given (pullTo stopped (n + 1) c).1 ≤ c.weight from
      ⟨fun c => (h c).1, fun c => (h c).2⟩
    intro c
    cases c with
    | leaf walk =>
      cases stopped with
      | true => exact ⟨Nat.le_refl _, Nat.le_refl _⟩
      | false =>
        cases hw : walk.pull with
        | none => simp [pullTo, hw]
        | some answer =>
          have := Leaf.weight_pull_lt (show walk.pull = some (answer.1, answer.2) from hw)
          simp only [pullTo, hw, height, weight]
          exact ⟨Nat.le_refl _, this⟩
    | meeting leader others =>
      rw [pullTo]
      split
      · simp [height, weight]
      · split
        · simp [height, weight]
        · next met hmet =>
          obtain ⟨hh, hw⟩ := firstRanks_bounds ih hmet
          obtain ⟨mh, mw⟩ := meet_bounds ih leader.weight leader met
          simp only [height, weight]
          omega
    | met leader others =>
      rw [pullTo]
      split
      · simp [height, weight]
      · exact meet_bounds ih leader.weight leader others
    | ended => exact ⟨Nat.le_refl _, Nat.le_refl _⟩
    | joining children =>
      rw [pullTo]
      split
      · exact ⟨Nat.le_refl _, Nat.le_refl _⟩
      · obtain ⟨fh, fw⟩ := fronts_bounds ih children
        obtain ⟨jh, jw⟩ := join_bounds ih (fronts (pullTo stopped n) children)
        simp only [height, weight]
        omega
    | joined children =>
      rw [pullTo]
      split
      · exact ⟨Nat.le_refl _, Nat.le_refl _⟩
      · exact join_bounds ih children

/-- A pull that gives a rank makes the tree lighter. -/
theorem weight_pull_lt {stopped : Bool} {c c' : Cursor} {r : Rank}
    (h : c.pull stopped = (some r, c')) : c'.weight < c.weight :=
  ((pullTo_thrifty stopped c.height).of_some h).2

end Cursor
end Query
end AlbumIndex
