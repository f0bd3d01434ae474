import AlbumIndex.Proofs.Cursor.Bounds

/-!
# Pulling without counting

A pull counts down the levels of its tree, and the loops inside it the ranks that are left.  Neither
count is what ends them: with more to count from, every pull gives the same answer.  So a pull
satisfies the equations of the loops themselves, in which a node pulls its children and goes on
until it has an answer.  What ends them is that each round takes a rank from a child.

Nothing is asked of the order of the ranks.

## Main definitions

* `Puller.AgreesTo` — two ways to pull that agree on all trees of so many levels.

## Main results

* `Cursor.pullTo_eq_pull` — more levels than the tree has change nothing.
* `Cursor.pull_meeting`, `Cursor.pull_joined`, … — **the equations of a pull.**
-/

namespace AlbumIndex
namespace Query

open Cursor

/-- Two ways to pull agree on all trees of at most so many levels. -/
def Puller.AgreesTo (next next' : Puller) (levels : Nat) : Prop :=
  ∀ c, c.height ≤ levels → next c = next' c

variable {next next' : Puller} {levels : Nat}

/-! ### Loops over the children -/

theorem firstRanks_agrees (ha : next.AgreesTo next' levels) {cs : List Cursor}
    (hh : heightAll cs ≤ levels) : firstRanks next cs = firstRanks next' cs := by
  induction cs with
  | nil => rfl
  | cons c cs ih =>
    rw [heightAll] at hh
    rw [firstRanks, firstRanks, ha c (by omega), ih (by omega)]

/-- A tree catches up in at most as many rounds as it has ranks. -/
theorem catchUp_agrees (hn : next.Thrifty) (ha : next.AgreesTo next' levels) (target : Rank)
    {n n' : Nat} {c : Cursor} (hh : c.height ≤ levels) (hw : c.weight ≤ n) (hw' : c.weight ≤ n')
    (current : Rank) : catchUp next target n c current = catchUp next' target n' c current := by
  induction n generalizing n' c current with
  | zero =>
    by_cases hlt : current < target
    · rw [catchUp_zero_of_lt hlt]
      cases n' with
      | zero => rw [catchUp_zero_of_lt hlt]
      | succ n' =>
        rw [catchUp_succ_of_lt hlt, ← ha c hh]
        cases hc : next c with
        | mk answer c' =>
          cases answer with
          | none => rfl
          | some r =>
            -- a tree without weight gives nothing
            have := (hn.of_some hc).2
            omega
    · rw [catchUp_of_not_lt hlt, catchUp_of_not_lt hlt]
  | succ n ih =>
    by_cases hlt : current < target
    · rw [catchUp_succ_of_lt hlt]
      cases hc : next c with
      | mk answer c' =>
        cases n' with
        | zero =>
          rw [catchUp_zero_of_lt hlt]
          cases answer with
          | none => rfl
          | some r =>
            have := (hn.of_some hc).2
            omega
        | succ n' =>
          rw [catchUp_succ_of_lt hlt, ← ha c hh, hc]
          cases answer with
          | none => rfl
          | some r =>
            obtain ⟨hh', hlighter⟩ := hn.of_some hc
            exact ih (Nat.le_trans hh' hh) (by omega) (by omega) r
    · rw [catchUp_of_not_lt hlt, catchUp_of_not_lt hlt]

theorem catchUpAll_agrees (hn : next.Thrifty) (ha : next.AgreesTo next' levels) (target : Rank)
    {others : List (Cursor × Rank)} (hh : heightMet others ≤ levels) :
    catchUpAll next target others = catchUpAll next' target others := by
  induction others with
  | nil => rfl
  | cons o others ih =>
    obtain ⟨c, current⟩ := o
    rw [heightMet] at hh
    rw [catchUpAll, catchUpAll, ih (by omega),
      catchUp_agrees hn ha target (by omega) (Nat.le_refl _) (Nat.le_refl _)]

/-- A meeting finds its next rank in at most as many rounds as the leader has ranks. -/
theorem meet_agrees (hn : next.Thrifty) (ha : next.AgreesTo next' levels) {n n' : Nat}
    {leader : Cursor} {others : List (Cursor × Rank)} (hh : leader.height ≤ levels)
    (hho : heightMet others ≤ levels) (hw : leader.weight ≤ n) (hw' : leader.weight ≤ n') :
    meet next n leader others = meet next' n' leader others := by
  induction n generalizing n' leader others with
  | zero =>
    unfold meet
    rw [← ha leader hh]
    cases hlead : next leader with
    | mk answer leader' =>
      cases answer with
      | none => rfl
      | some r =>
        have := (hn.of_some hlead).2
        omega
  | succ n ih =>
    unfold meet
    rw [← ha leader hh]
    cases hlead : next leader with
    | mk answer leader' =>
      cases answer with
      | none => rfl
      | some r =>
        obtain ⟨hh', hlighter⟩ := hn.of_some hlead
        dsimp only
        rw [← catchUpAll_agrees hn ha r hho]
        cases hall : catchUpAll next r others with
        | none => rfl
        | some found =>
          obtain ⟨others', same⟩ := found
          cases same with
          | true => rfl
          | false =>
            cases n' with
            | zero => omega
            | succ n' =>
              have hho' := (catchUpAll_bounds hn hall).1
              exact ih (Nat.le_trans hh' hh) (Nat.le_trans hho' hho) (by omega) (by omega)

theorem fronts_agrees (ha : next.AgreesTo next' levels) {cs : List Cursor}
    (hh : heightAll cs ≤ levels) : fronts next cs = fronts next' cs := by
  induction cs with
  | nil => rfl
  | cons c cs ih =>
    rw [heightAll] at hh
    have ih := ih (by omega)
    simp only [fronts] at ih
    simp only [fronts, List.map_cons, ha c (by omega), ih]

theorem passFront_agrees (ha : next.AgreesTo next' levels) (r : Rank)
    {cs : List (Cursor × Option Rank)} (hh : heightJoined cs ≤ levels) :
    passFront next r cs = passFront next' r cs := by
  induction cs with
  | nil => rfl
  | cons child cs ih =>
    obtain ⟨c, front⟩ := child
    rw [heightJoined] at hh
    have ih := ih (by omega)
    simp only [passFront] at ih
    simp only [passFront, List.map_cons, ha c (by omega), ih]

theorem join_agrees (ha : next.AgreesTo next' levels) {cs : List (Cursor × Option Rank)}
    (hh : heightJoined cs ≤ levels) : join next cs = join next' cs := by
  unfold join
  cases leastFront cs with
  | none => rfl
  | some r => simp only [passFront_agrees ha r hh]

/-! ### Pulls -/

namespace Cursor

theorem height_pos (c : Cursor) : 0 < c.height := by
  cases c <;> simp [height]

/-- The answer of a pull does not depend on how many levels it is allowed, as long as there are as
many as the tree has. -/
theorem pullTo_agrees (stopped : Bool) {n m : Nat} {c : Cursor} (hn : c.height ≤ n)
    (hm : c.height ≤ m) : pullTo stopped n c = pullTo stopped m c := by
  induction n generalizing m c with
  | zero => have := c.height_pos; omega
  | succ n ih =>
    cases m with
    | zero => have := c.height_pos; omega
    | succ m =>
      have ha : Puller.AgreesTo (pullTo stopped n) (pullTo stopped m) (min n m) :=
        fun c hc => ih (by omega) (by omega)
      have ht := pullTo_thrifty stopped n
      cases c with
      | leaf walk => rfl
      | meeting leader others =>
        rw [height] at hn hm
        rw [pullTo, pullTo, firstRanks_agrees ha (show heightAll others ≤ min n m by omega)]
        split
        · rfl
        · cases hfirst : firstRanks (pullTo stopped m) others with
          | none => rfl
          | some standing =>
            have hle := (firstRanks_bounds (pullTo_thrifty stopped m) hfirst).1
            exact meet_agrees ht ha (show leader.height ≤ min n m by omega) (by omega)
              (Nat.le_refl _) (Nat.le_refl _)
      | met leader others =>
        rw [height] at hn hm
        rw [pullTo, pullTo, meet_agrees ht ha (show leader.height ≤ min n m by omega) (by omega)
          (Nat.le_refl _) (Nat.le_refl _)]
      | ended => rfl
      | joining children =>
        rw [height] at hn hm
        have hle := (fronts_bounds (pullTo_thrifty stopped m) children).1
        rw [pullTo, pullTo, fronts_agrees ha (show heightAll children ≤ min n m by omega),
          join_agrees ha (by omega)]
      | joined children =>
        rw [height] at hn hm
        rw [pullTo, pullTo, join_agrees ha (show heightJoined children ≤ min n m by omega)]

variable {stopped : Bool}

/-- **More levels than the tree has change nothing.** -/
theorem pullTo_eq_pull {n : Nat} {c : Cursor} (h : c.height ≤ n) :
    pullTo stopped n c = c.pull stopped :=
  pullTo_agrees stopped h (Nat.le_refl _)

theorem agreesTo_pull (stopped : Bool) (n : Nat) :
    Puller.AgreesTo (pullTo stopped n) (pull stopped) n := fun _ h => pullTo_eq_pull h

theorem pull_thrifty (stopped : Bool) : Puller.Thrifty (pull stopped) where
  height_le c := (pullTo_thrifty stopped c.height).height_le c
  weight_le c := (pullTo_thrifty stopped c.height).weight_le c

/-! ### The equations of a pull -/

theorem pull_leaf (walk : Leaf) : (leaf walk).pull false = match walk.pull with
    | none => (none, .leaf walk)
    | some (r, walk') => (some r, .leaf walk') := rfl

@[simp] theorem pull_ended (stopped : Bool) : ended.pull stopped = (none, .ended) := rfl

theorem pull_met_eq_meet (leader : Cursor) (standing : List (Cursor × Rank)) :
    (Cursor.met leader standing).pull false = meet (pull false) leader.weight leader standing := by
  have h : (Cursor.met leader standing).pull false =
      meet (pullTo false (max leader.height (heightMet standing))) leader.weight leader standing := by
    rw [pull, height, pullTo]
    rfl
  rw [h, meet_agrees (pullTo_thrifty false _) (agreesTo_pull false _) (Nat.le_max_left _ _)
    (Nat.le_max_right _ _) (Nat.le_refl _) (Nat.le_refl _)]

/-- A meeting that is pulled for the first time takes the first rank of each of the others; without
one of these it ends. -/
theorem pull_meeting (leader : Cursor) (others : List Cursor) :
    (meeting leader others).pull false = match firstRanks (pull false) others with
      | none => (none, .ended)
      | some standing => (Cursor.met leader standing).pull false := by
  have h : (meeting leader others).pull false =
      match firstRanks (pullTo false (max leader.height (heightAll others))) others with
      | none => (none, .ended)
      | some standing => meet (pullTo false (max leader.height (heightAll others))) leader.weight leader
          standing := by
    rw [pull, height, pullTo]
    rfl
  rw [h, firstRanks_agrees (agreesTo_pull false _) (Nat.le_max_right _ _)]
  cases hfirst : firstRanks (pull false) others with
  | none => rfl
  | some standing =>
    have hle := (firstRanks_bounds (pull_thrifty false) hfirst).1
    dsimp only
    rw [pull_met_eq_meet, meet_agrees (pullTo_thrifty false _) (agreesTo_pull false _)
      (Nat.le_max_left _ _) (Nat.le_trans hle (Nat.le_max_right _ _)) (Nat.le_refl _)
      (Nat.le_refl _)]

/-- **A joining at work** gives the least rank in front and moves on every child that stands at
it. -/
theorem pull_joined (joined : List (Cursor × Option Rank)) :
    (Cursor.joined joined).pull false = join (pull false) joined := by
  have h : (Cursor.joined joined).pull false = join (pullTo false (heightJoined joined)) joined := by
    rw [pull, height, pullTo]
    rfl
  rw [h, join_agrees (agreesTo_pull false _) (Nat.le_refl _)]

/-- A joining that is pulled for the first time takes the front ranks of all children. -/
theorem pull_joining (children : List Cursor) :
    (joining children).pull false = (Cursor.joined (fronts (pull false) children)).pull false := by
  have h : (joining children).pull false =
      join (pullTo false (heightAll children)) (fronts (pullTo false (heightAll children)) children) := by
    rw [pull, height, pullTo]
    rfl
  rw [h, fronts_agrees (agreesTo_pull false _) (Nat.le_refl _), pull_joined,
    join_agrees (agreesTo_pull false _) (fronts_bounds (pull_thrifty false) children).1]

end Cursor
end Query
end AlbumIndex
