import AlbumIndex.Proofs.Cursor.Bounds
import Mathlib.Data.Set.Basic

/-!
# What a tree of cursors means

A tree in the middle of its work still has to give a set of ranks: those left in a leaf, those that
all parts of a meeting have before them, those that some part of a joining has.  The buffered heads
count: a meeting holds one rank of each child but the leader, and a joining one of every child, and
such a rank has left its child but not yet the tree.

As long as the leaves ascend, and every buffered rank lies below what its child still has, a pull
gives the least rank of that set and leaves a tree of the same kind with the rest of the set.
Children are trees too, so the two go together: the loops of a node are right because the pulls of
its children are, and the tree that a pull leaves is again a good child.

## Main definitions

* `Leaf.ranks`, `Cursor.Gives` — the ranks that a walk and a tree still have to give.
* `Cursor.Ascending` — the invariant.
* `StepOf` — what one pull has to do.
* `Cursor.after`, `Cursor.answer` — the tree after so many pulls, and the answer of the next one.
* `StreamTree`, `StreamTree.meaning` — trees that nobody has pulled yet, and their set of ranks.

## Main results

* `Cursor.pull_stepOf` — **a pull of an ascending tree does what it has to do.**
* `Cursor.drain_spec` — the answers of all pulls, in order.
* `StreamTree.drain_meaning` — **a tree over ascending lists gives its set of ranks, in ascending
  order, and then nothing.**
-/

namespace AlbumIndex
namespace Query

/-! ### Leaves -/

namespace Leaf

/-- The ranks that a walk still has to give, in the order in which it gives them. -/
def ranks : Leaf → List Rank
  | .postings ranks => ranks
  | .firsts albums => albums.filterMap fun album => album.images.head?.map Image.rank
  | .contents rest => rest.map Image.rank
  | .scan keep rest => (rest.filter keep).map Image.rank

theorem ranks_firsts_eq (albums : List Album) :
    (firsts albums).ranks = match nextFirst albums with
      | none => []
      | some (r, rest) => r :: (firsts rest).ranks := by
  induction albums with
  | nil => rfl
  | cons album albums ih =>
    rw [nextFirst]
    cases h : album.images with
    | nil => simpa [ranks, h] using ih
    | cons image images => simp [ranks, h]

theorem ranks_scan_eq (keep : Image → Bool) (images : List Image) :
    (scan keep images).ranks = match nextKept keep images with
      | none => []
      | some (r, rest) => r :: (scan keep rest).ranks := by
  induction images with
  | nil => rfl
  | cons image images ih =>
    rw [nextKept]
    cases h : keep image with
    | true => simp [ranks, h]
    | false => simpa [ranks, h] using ih

/-- A pull takes the first of the ranks before the walk. -/
theorem ranks_eq (walk : Leaf) :
    walk.ranks = match walk.pull with
      | none => []
      | some (r, rest) => r :: rest.ranks := by
  cases walk with
  | postings ranks => cases ranks <;> rfl
  | firsts albums =>
    rw [ranks_firsts_eq, pull]
    cases nextFirst albums <;> rfl
  | contents rest => cases rest <;> rfl
  | scan keep rest =>
    rw [ranks_scan_eq, pull]
    cases nextKept keep rest <;> rfl

end Leaf

/-! ### The ranks still to be given -/

namespace Cursor

mutual

/-- The tree still has to give the rank. -/
def Gives : Cursor → Rank → Prop
  | .leaf walk, r => r ∈ walk.ranks
  | .meeting leader others, r => leader.Gives r ∧ AllGive others r
  | .met leader others, r => leader.Gives r ∧ AllStandOrGive others r
  | .ended, _ => False
  | .joining children, r => AnyGives children r
  | .joined children, r => AnyFrontOrGives children r

/-- All of the trees have to give the rank. -/
def AllGive : List Cursor → Rank → Prop
  | [], _ => True
  | c :: cs, r => c.Gives r ∧ AllGive cs r

/-- All of the trees stand at the rank or have to give it. -/
def AllStandOrGive : List (Cursor × Rank) → Rank → Prop
  | [], _ => True
  | (c, current) :: cs, r => (current = r ∨ c.Gives r) ∧ AllStandOrGive cs r

/-- One of the trees has to give the rank. -/
def AnyGives : List Cursor → Rank → Prop
  | [], _ => False
  | c :: cs, r => c.Gives r ∨ AnyGives cs r

/-- One of the trees has the rank in front or has to give it. -/
def AnyFrontOrGives : List (Cursor × Option Rank) → Rank → Prop
  | [], _ => False
  | (c, front) :: cs, r => (front = some r ∨ c.Gives r) ∨ AnyFrontOrGives cs r

end

theorem anyGives_iff {cs : List Cursor} {r : Rank} : AnyGives cs r ↔ ∃ c ∈ cs, c.Gives r := by
  induction cs with
  | nil => simp [AnyGives]
  | cons c cs ih => simp [AnyGives, ih]

/-! ### The invariant -/

/-- The rank in front, if there is one, lies below all that the tree still has; without one the tree
has nothing. -/
def FrontBelow (front : Option Rank) (c : Cursor) : Prop :=
  ∀ r, c.Gives r → ∃ f, front = some f ∧ f < r

mutual

/-- The leaves of the tree ascend, and every buffered rank lies below what its child still has. -/
def Ascending : Cursor → Prop
  | .leaf walk => walk.ranks.Pairwise (· < ·)
  | .meeting leader others => leader.Ascending ∧ AllAscending others
  | .met leader others => leader.Ascending ∧ MetAscending others
  | .ended => True
  | .joining children => AllAscending children
  | .joined children => JoinedAscending children

/-- All of the trees are ascending. -/
def AllAscending : List Cursor → Prop
  | [] => True
  | c :: cs => c.Ascending ∧ AllAscending cs

/-- All of the trees are ascending and go on above the rank they stand at. -/
def MetAscending : List (Cursor × Rank) → Prop
  | [] => True
  | (c, current) :: cs => (c.Ascending ∧ FrontBelow (some current) c) ∧ MetAscending cs

/-- All of the trees are ascending and go on above the rank in front. -/
def JoinedAscending : List (Cursor × Option Rank) → Prop
  | [] => True
  | (c, front) :: cs => (c.Ascending ∧ FrontBelow front c) ∧ JoinedAscending cs

end

end Cursor

/-- What one pull has to do: its answer is the least rank that the tree has to give, if there is
any, and the tree afterwards has to give the others. -/
structure StepOf (c : Cursor) (answer : Option Rank × Cursor) : Prop where
  ascending : answer.2.Ascending
  gives_iff : ∀ r, c.Gives r ↔ answer.1 = some r ∨ answer.2.Gives r
  below : answer.2.FrontBelow answer.1

namespace StepOf

open Cursor

/-- A tree whose pull gives nothing had nothing to give. -/
theorem not_gives {c c' : Cursor} (h : StepOf c (none, c')) (r : Rank) : ¬ c.Gives r := by
  intro hr
  rcases (h.gives_iff r).1 hr with heq | hr'
  · cases heq
  · obtain ⟨f, hf, -⟩ := h.below r hr'
    cases hf

/-- The answer of a pull is the least rank of the tree. -/
theorem le_of_gives {c c' : Cursor} {f r : Rank} (h : StepOf c (some f, c')) (hr : c.Gives r) :
    f ≤ r := by
  rcases (h.gives_iff r).1 hr with heq | hr'
  · exact Nat.le_of_eq (Option.some.inj heq)
  · obtain ⟨f', hf, hlt⟩ := h.below r hr'
    cases hf
    exact Nat.le_of_lt hlt

/-- The end of a tree that has nothing to give. -/
theorem of_not_gives {c : Cursor} (h : ∀ r, ¬ c.Gives r) : StepOf c (none, .ended) where
  ascending := by rw [Ascending]; trivial
  gives_iff r := by simp [h r, Gives]
  below r hr := by rw [Gives] at hr; exact hr.elim

/-- A meeting ends with its leader. -/
theorem met_of_none {leader leader' : Cursor} {others : List (Cursor × Rank)}
    (h : StepOf leader (none, leader')) : StepOf (.met leader others) (none, .ended) := by
  refine of_not_gives fun r hr => ?_
  rw [Gives] at hr
  exact h.not_gives r hr.1

end StepOf

/-! ### Meeting -/

open Cursor

/-- The way to pull does what it has to do to ascending trees of at most so many levels. -/
def Puller.Sound (next : Puller) (levels : Nat) : Prop :=
  ∀ c, c.height ≤ levels → c.Ascending → StepOf c (next c)

variable {next : Puller} {levels : Nat}

/-- The first ranks of all trees are taken from what they have to give. -/
theorem firstRanks_spec (hs : next.Sound levels) {cs : List Cursor}
    (hh : heightAll cs ≤ levels) (ha : AllAscending cs) :
    match firstRanks next cs with
    | none => ∀ r, ¬ AllGive cs r
    | some standing => MetAscending standing ∧ ∀ r, AllGive cs r ↔ AllStandOrGive standing r := by
  induction cs with
  | nil => exact ⟨by rw [MetAscending]; trivial, fun r => by simp [AllGive, AllStandOrGive]⟩
  | cons c cs ih =>
    rw [heightAll] at hh
    rw [AllAscending] at ha
    have hstep := hs c (by omega) ha.1
    have ih := ih (by omega) ha.2
    simp only [firstRanks]
    cases hc : next c with
    | mk answer c' =>
      rw [hc] at hstep
      cases answer with
      | none =>
        intro r hr
        rw [AllGive] at hr
        exact hstep.not_gives r hr.1
      | some f =>
        cases hcs : firstRanks next cs with
        | none =>
          rw [hcs] at ih
          intro r hr
          rw [AllGive] at hr
          exact ih r hr.2
        | some standing =>
          rw [hcs] at ih
          refine ⟨?_, fun r => ?_⟩
          · rw [MetAscending]
            exact ⟨⟨hstep.ascending, hstep.below⟩, ih.1⟩
          · rw [AllGive, AllStandOrGive, ih.2 r, hstep.gives_iff r]
            simp

/-- A tree that catches up with `target` loses nothing from there on. -/
theorem catchUp_spec (hn : next.Thrifty) (hs : next.Sound levels) (target : Rank) {n : Nat}
    {c : Cursor} {current : Rank} (hw : c.weight ≤ n) (hh : c.height ≤ levels) (ha : c.Ascending)
    (hb : c.FrontBelow (some current)) :
    match catchUp next target n c current with
    | none => ∀ x, target ≤ x → ¬ (current = x ∨ c.Gives x)
    | some (c', r) => target ≤ r ∧ c'.Ascending ∧ c'.FrontBelow (some r) ∧
        ∀ x, target ≤ x → ((current = x ∨ c.Gives x) ↔ (r = x ∨ c'.Gives x)) := by
  induction n generalizing c current with
  | zero =>
    by_cases hlt : current < target
    · -- a tree without weight has nothing left to catch up with
      have hstep := hs c hh ha
      rw [catchUp_zero_of_lt hlt]
      rintro x hx (rfl | hg)
      · exact absurd hx (Nat.not_le.2 hlt)
      · cases hc : next c with
        | mk answer c' =>
          rw [hc] at hstep
          cases answer with
          | none => exact hstep.not_gives x hg
          | some f =>
            have := (hn.of_some hc).2
            omega
    · rw [catchUp_of_not_lt hlt]
      exact ⟨Nat.le_of_not_lt hlt, ha, hb, fun x _ => Iff.rfl⟩
  | succ n ih =>
    by_cases hlt : current < target
    · have hstep := hs c hh ha
      rw [catchUp_succ_of_lt hlt]
      cases hc : next c with
      | mk answer c' =>
        rw [hc] at hstep
        cases answer with
        | none =>
          rintro x hx (rfl | hg)
          · exact absurd hx (Nat.not_le.2 hlt)
          · exact hstep.not_gives x hg
        | some f =>
          obtain ⟨hh', hw'⟩ := hn.of_some hc
          have hweight : c'.weight ≤ n := by omega
          have ih := ih hweight (Nat.le_trans hh' hh) hstep.ascending hstep.below
          -- the rank given up lies below the target
          have hstart : ∀ x, target ≤ x → ((current = x ∨ c.Gives x) ↔ (f = x ∨ c'.Gives x)) := by
            intro x hx
            have hne : current ≠ x := Nat.ne_of_lt (Nat.lt_of_lt_of_le hlt hx)
            simp [hne, hstep.gives_iff x]
          dsimp only
          cases hcatch : catchUp next target n c' f with
          | none =>
            rw [hcatch] at ih
            intro x hx hor
            exact ih x hx ((hstart x hx).1 hor)
          | some found =>
            rw [hcatch] at ih
            obtain ⟨htr, hasc, hbel, heq⟩ := ih
            exact ⟨htr, hasc, hbel, fun x hx => (hstart x hx).trans (heq x hx)⟩
    · rw [catchUp_of_not_lt hlt]
      exact ⟨Nat.le_of_not_lt hlt, ha, hb, fun x _ => Iff.rfl⟩

/-- The others lose nothing from `target` on; whether all of them stand at it is found out. -/
theorem catchUpAll_spec (hn : next.Thrifty) (hs : next.Sound levels) (target : Rank)
    {others : List (Cursor × Rank)} (hh : heightMet others ≤ levels) (ha : MetAscending others) :
    match catchUpAll next target others with
    | none => ∀ x, target ≤ x → ¬ AllStandOrGive others x
    | some (others', same) => MetAscending others' ∧ (same = true ↔ AllStandOrGive others' target) ∧
        ∀ x, target ≤ x → (AllStandOrGive others x ↔ AllStandOrGive others' x) := by
  induction others with
  | nil =>
    refine ⟨by rw [MetAscending]; trivial, ?_, fun x _ => Iff.rfl⟩
    simp [AllStandOrGive]
  | cons o others ih =>
    obtain ⟨c, current⟩ := o
    rw [heightMet] at hh
    rw [MetAscending] at ha
    have hcatch := catchUp_spec hn hs target (Nat.le_refl c.weight) (by omega) ha.1.1
      ha.1.2
    have ih := ih (by omega) ha.2
    rw [catchUpAll]
    cases hc : catchUp next target c.weight c current with
    | none =>
      rw [hc] at hcatch
      intro x hx hall
      rw [AllStandOrGive] at hall
      exact hcatch x hx hall.1
    | some found =>
      obtain ⟨c', r⟩ := found
      rw [hc] at hcatch
      obtain ⟨htr, hasc, hbel, heq⟩ := hcatch
      cases ho : catchUpAll next target others with
      | none =>
        rw [ho] at ih
        intro x hx hall
        rw [AllStandOrGive] at hall
        exact ih x hx hall.2
      | some rest =>
        obtain ⟨others', same⟩ := rest
        rw [ho] at ih
        obtain ⟨ihasc, ihsame, iheq⟩ := ih
        refine ⟨?_, ?_, fun x hx => ?_⟩
        · rw [MetAscending]
          exact ⟨⟨hasc, hbel⟩, ihasc⟩
        · rw [AllStandOrGive, Bool.and_eq_true, ihsame, beq_iff_eq, and_comm]
          refine and_congr_left' ⟨Or.inl, ?_⟩
          -- what the tree still has lies above the rank it stands at
          rintro (hr | hg)
          · exact hr
          · obtain ⟨f, hf, hlt⟩ := hbel target hg
            cases hf
            exact absurd htr (Nat.not_le.2 hlt)
        · rw [AllStandOrGive, AllStandOrGive, heq x hx, iheq x hx]

/-- A meeting at work finds the next rank that all of its parts have. -/
theorem meet_stepOf (hn : next.Thrifty) (hs : next.Sound levels) {n : Nat} {leader : Cursor}
    {others : List (Cursor × Rank)} (hw : leader.weight ≤ n) (hhl : leader.height ≤ levels)
    (hho : heightMet others ≤ levels) (hl : leader.Ascending) (ho : MetAscending others) :
    StepOf (.met leader others) (meet next n leader others) := by
  induction n generalizing leader others with
  | zero =>
    have hstep := hs leader hhl hl
    unfold meet
    cases hlead : next leader with
    | mk answer leader' =>
      rw [hlead] at hstep
      cases answer with
      | none => exact hstep.met_of_none
      | some f =>
        -- a leader without weight has no rank to give
        have := (hn.of_some hlead).2
        omega
  | succ n ih =>
    have hstep := hs leader hhl hl
    unfold meet
    cases hlead : next leader with
    | mk answer leader' =>
      rw [hlead] at hstep
      cases answer with
      | none => exact hstep.met_of_none
      | some f =>
        obtain ⟨hh', hw'⟩ := hn.of_some hlead
        have hcatch := catchUpAll_spec hn hs f hho ho
        dsimp only
        cases hall : catchUpAll next f others with
        | none =>
          rw [hall] at hcatch
          refine StepOf.of_not_gives fun r hr => ?_
          rw [Gives] at hr
          exact hcatch r (hstep.le_of_gives hr.1) hr.2
        | some found =>
          obtain ⟨others', same⟩ := found
          rw [hall] at hcatch
          obtain ⟨hasc, hsame, heq⟩ := hcatch
          -- every rank of the meeting is one of the leader's, so none lies below `f`
          have hmet : ∀ x, (Cursor.met leader others).Gives x ↔
              (some f = some x ∨ leader'.Gives x) ∧ AllStandOrGive others' x := by
            intro x
            rw [Gives, ← hstep.gives_iff x]
            exact and_congr_right fun hx => heq x (hstep.le_of_gives hx)
          cases same with
          | true =>
            have hf : AllStandOrGive others' f := hsame.1 rfl
            refine ⟨?_, fun x => ?_, fun x hx => ?_⟩
            · rw [Ascending]; exact ⟨hstep.ascending, hasc⟩
            · rw [hmet x, Gives]
              constructor
              · rintro ⟨hx | hx, hx'⟩
                · exact Or.inl hx
                · exact Or.inr ⟨hx, hx'⟩
              · rintro (hx | ⟨hx, hx'⟩)
                · obtain rfl := Option.some.inj hx
                  exact ⟨Or.inl rfl, hf⟩
                · exact ⟨Or.inr hx, hx'⟩
            · rw [Gives] at hx
              exact hstep.below x hx.1
          | false =>
            -- `f` is no rank of the meeting, so nothing is lost by going on behind it
            have hf : ¬ AllStandOrGive others' f := fun h => by cases hsame.2 h
            have hho' := (catchUpAll_bounds hn hall).1
            have hweight : leader'.weight ≤ n := by omega
            have ih := ih hweight (Nat.le_trans hh' hhl) (Nat.le_trans hho' hho) hstep.ascending hasc
            refine ⟨ih.ascending, fun x => ?_, ih.below⟩
            rw [← ih.gives_iff x, hmet x, Gives]
            refine and_congr_left fun hx' => or_iff_right ?_
            intro hx
            obtain rfl := Option.some.inj hx
            exact hf hx'

/-! ### Joining -/

/-- The fronts of all trees are taken from what they have to give. -/
theorem fronts_spec (hs : next.Sound levels) {cs : List Cursor} (hh : heightAll cs ≤ levels)
    (ha : AllAscending cs) :
    JoinedAscending (fronts next cs) ∧
      ∀ r, AnyGives cs r ↔ AnyFrontOrGives (fronts next cs) r := by
  induction cs with
  | nil => exact ⟨by rw [fronts, List.map_nil, JoinedAscending]; trivial, fun r => Iff.rfl⟩
  | cons c cs ih =>
    rw [heightAll] at hh
    rw [AllAscending] at ha
    have hstep := hs c (by omega) ha.1
    obtain ⟨ihasc, iheq⟩ := ih (by omega) ha.2
    rw [fronts, List.map_cons, ← fronts]
    refine ⟨?_, fun r => ?_⟩
    · rw [JoinedAscending]
      exact ⟨⟨hstep.ascending, hstep.below⟩, ihasc⟩
    · rw [AnyGives, AnyFrontOrGives, iheq r, hstep.gives_iff r]

/-- Passing the rank `f`, the least of all fronts, takes exactly `f` away. -/
theorem passFront_spec (hs : next.Sound levels) {f : Rank} {cs : List (Cursor × Option Rank)}
    (hh : heightJoined cs ≤ levels) (ha : JoinedAscending cs)
    (hle : ∀ x, some x ∈ cs.map Prod.snd → f ≤ x) :
    JoinedAscending (passFront next f cs) ∧
      (∀ x, AnyFrontOrGives (passFront next f cs) x ↔ AnyFrontOrGives cs x ∧ f ≠ x) ∧
      ∀ x, AnyFrontOrGives (passFront next f cs) x → f < x := by
  induction cs with
  | nil =>
    refine ⟨by rw [passFront, List.map_nil, JoinedAscending]; trivial, fun x => ?_, fun x hx => ?_⟩
    · simp [passFront, AnyFrontOrGives]
    · simp [passFront, AnyFrontOrGives] at hx
  | cons child cs ih =>
    obtain ⟨c, front⟩ := child
    rw [heightJoined] at hh
    rw [JoinedAscending] at ha
    rw [List.map_cons] at hle
    obtain ⟨⟨hc, hb⟩, hcs⟩ := ha
    have hstep := hs c (by omega) hc
    obtain ⟨ihasc, iheq, ihlt⟩ := ih (by omega) hcs fun x hx => hle x (List.mem_cons_of_mem _ hx)
    have hpass : passFront next f ((c, front) :: cs) =
        (if front = some f then ((next c).2, (next c).1) else (c, front)) :: passFront next f cs :=
      rfl
    rw [hpass]
    by_cases hf : front = some f
    · subst hf
      -- what a child still has lies above its front
      have hlt : ∀ x, c.Gives x → f < x := by
        intro x hx
        obtain ⟨f', hf', h⟩ := hb x hx
        cases hf'
        exact h
      rw [if_pos rfl]
      refine ⟨?_, fun x => ?_, fun x hx => ?_⟩
      · rw [JoinedAscending]
        exact ⟨⟨hstep.ascending, hstep.below⟩, ihasc⟩
      · rw [AnyFrontOrGives, AnyFrontOrGives, iheq x, ← hstep.gives_iff x]
        constructor
        · rintro (hx | ⟨hx, hne⟩)
          · exact ⟨Or.inl (Or.inr hx), Nat.ne_of_lt (hlt x hx)⟩
          · exact ⟨Or.inr hx, hne⟩
        · rintro ⟨(hx | hx) | hx, hne⟩
          · exact absurd (Option.some.inj hx) hne
          · exact Or.inl hx
          · exact Or.inr ⟨hx, hne⟩
      · rw [AnyFrontOrGives, ← hstep.gives_iff x] at hx
        exact hx.elim (hlt x) (ihlt x)
    · -- a child that does not stand at the least front stands above it
      have hlt : ∀ x, front = some x ∨ c.Gives x → f < x := by
        rintro x (hx | hx)
        · have := hle x (by rw [hx]; exact List.mem_cons_self)
          exact Nat.lt_of_le_of_ne this fun h => hf (by rw [hx, h])
        · obtain ⟨f', hf', h⟩ := hb x hx
          exact Nat.lt_of_le_of_lt (hle f' (by rw [hf']; exact List.mem_cons_self)) h
      rw [if_neg hf]
      refine ⟨?_, fun x => ?_, fun x hx => ?_⟩
      · rw [JoinedAscending]
        exact ⟨⟨hc, hb⟩, ihasc⟩
      · rw [AnyFrontOrGives, AnyFrontOrGives, iheq x]
        constructor
        · rintro (hx | ⟨hx, hne⟩)
          · exact ⟨Or.inl hx, Nat.ne_of_lt (hlt x hx)⟩
          · exact ⟨Or.inr hx, hne⟩
        · rintro ⟨hx | hx, hne⟩
          · exact Or.inl hx
          · exact Or.inr ⟨hx, hne⟩
      · rw [AnyFrontOrGives] at hx
        exact hx.elim (hlt x) (ihlt x)

/-- Where something is to be given, there is a front. -/
theorem exists_front {cs : List (Cursor × Option Rank)} (ha : JoinedAscending cs) {x : Rank}
    (hx : AnyFrontOrGives cs x) : ∃ f, some f ∈ cs.map Prod.snd := by
  induction cs with
  | nil => rw [AnyFrontOrGives] at hx; exact hx.elim
  | cons child cs ih =>
    obtain ⟨c, front⟩ := child
    rw [JoinedAscending] at ha
    rw [AnyFrontOrGives] at hx
    rcases hx with (hx | hx) | hx
    · exact ⟨x, by rw [hx]; exact List.mem_cons_self⟩
    · obtain ⟨f, hf, -⟩ := ha.1.2 x hx
      exact ⟨f, by rw [hf]; exact List.mem_cons_self⟩
    · obtain ⟨f, hf⟩ := ih ha.2 hx
      exact ⟨f, List.mem_cons_of_mem _ hf⟩

/-- A rank in front is to be given. -/
theorem anyFrontOrGives_of_front {cs : List (Cursor × Option Rank)} {f : Rank}
    (h : some f ∈ cs.map Prod.snd) : AnyFrontOrGives cs f := by
  induction cs with
  | nil => cases h
  | cons child cs ih =>
    rw [AnyFrontOrGives]
    rw [List.map_cons, List.mem_cons] at h
    rcases h with h | h
    · exact Or.inl (Or.inl h.symm)
    · exact Or.inr (ih h)

/-- A joining at work finds the next rank that one of its parts has. -/
theorem join_stepOf (hs : next.Sound levels) {cs : List (Cursor × Option Rank)}
    (hh : heightJoined cs ≤ levels) (ha : JoinedAscending cs) :
    StepOf (.joined cs) (join next cs) := by
  unfold join
  cases hf : leastFront cs with
  | none =>
    -- a child without a front has nothing left either
    have hnone : ∀ x, ¬ AnyFrontOrGives cs x := by
      intro x hx
      obtain ⟨f, hfront⟩ := exists_front ha hx
      obtain ⟨child, hchild, hsnd⟩ := List.mem_map.1 hfront
      have hmem : f ∈ cs.filterMap Prod.snd := List.mem_filterMap.2 ⟨child, hchild, hsnd⟩
      rw [leastFront, List.min?_eq_none_iff] at hf
      rw [hf] at hmem
      cases hmem
    refine ⟨by rw [Ascending]; exact ha, fun x => ?_, fun x hx => ?_⟩
    · simp [Gives, hnone x]
    · rw [Gives] at hx
      exact (hnone x hx).elim
  | some f =>
    obtain ⟨hmem, hle⟩ := leastFront_eq_some hf
    obtain ⟨hasc, heq, hlt⟩ := passFront_spec hs hh ha hle
    refine ⟨by rw [Ascending]; exact hasc, fun x => ?_, fun x hx => ?_⟩
    · rw [Gives, Gives, heq x]
      constructor
      · intro hx
        by_cases hfx : f = x
        · exact Or.inl (congrArg some hfx)
        · exact Or.inr ⟨hx, hfx⟩
      · rintro (hx | ⟨hx, -⟩)
        · obtain rfl := Option.some.inj hx
          exact anyFrontOrGives_of_front hmem
        · exact hx
    · rw [Gives] at hx
      exact ⟨f, rfl, hlt x hx⟩

/-! ### Pulling -/

namespace Cursor

theorem stepOf_leaf {walk : Leaf} (ha : (leaf walk).Ascending) (n : Nat) :
    StepOf (.leaf walk) (pullTo false (n + 1) (.leaf walk)) := by
  have hpull : pullTo false (n + 1) (.leaf walk) = match walk.pull with
      | none => (none, .leaf walk)
      | some (r, walk') => (some r, .leaf walk') := rfl
  have heq := walk.ranks_eq
  rw [Ascending] at ha
  rw [hpull]
  cases hp : walk.pull with
  | none =>
    rw [hp] at heq
    dsimp only at heq ⊢
    refine ⟨by rw [Ascending]; exact ha, fun r => ?_, fun r hr => ?_⟩
    · simp [Gives, heq]
    · rw [Gives, heq] at hr
      cases hr
  | some answer =>
    obtain ⟨f, walk'⟩ := answer
    rw [hp] at heq
    dsimp only at heq ⊢
    rw [heq, List.pairwise_cons] at ha
    refine ⟨by rw [Ascending]; exact ha.2, fun r => ?_, fun r hr => ?_⟩
    · rw [Gives, Gives, heq, List.mem_cons, Option.some.injEq, eq_comm]
    · rw [Gives] at hr
      exact ⟨f, rfl, ha.1 r hr⟩

/-- **A pull that is allowed enough levels does what it has to do.**  The induction is on the
levels; the children of a node are one level lower, and stay so while the node works. -/
theorem pullTo_sound (n : Nat) : Puller.Sound (pullTo false n) n := by
  induction n with
  | zero =>
    intro c hh
    cases c <;> simp [height] at hh
  | succ n ih =>
    have hn := pullTo_thrifty false n
    intro c hh ha
    cases c with
    | leaf walk => exact stepOf_leaf ha n
    | meeting leader others =>
      rw [height] at hh
      rw [Ascending] at ha
      -- once each of the others stands at its first rank, the meeting is at work
      have hfirst := firstRanks_spec ih (show heightAll others ≤ n by omega) ha.2
      simp only [pullTo]
      cases hmet : firstRanks (pullTo false n) others with
      | none =>
        rw [hmet] at hfirst
        refine StepOf.of_not_gives fun r hr => ?_
        rw [Gives] at hr
        exact hfirst r hr.2
      | some standing =>
        rw [hmet] at hfirst
        have hle := (firstRanks_bounds hn hmet).1
        have hmeet := meet_stepOf hn ih (Nat.le_refl leader.weight) (by omega) (by omega) ha.1
          hfirst.1
        refine ⟨hmeet.ascending, fun r => ?_, hmeet.below⟩
        rw [Gives, hfirst.2 r, ← Gives]
        exact hmeet.gives_iff r
    | met leader others =>
      rw [height] at hh
      rw [Ascending] at ha
      exact meet_stepOf hn ih (Nat.le_refl leader.weight) (by omega) (by omega) ha.1 ha.2
    | ended => exact StepOf.of_not_gives fun r hr => by rw [Gives] at hr; exact hr
    | joining children =>
      rw [height] at hh
      rw [Ascending] at ha
      -- likewise, with the fronts of all children taken, the joining is at work
      obtain ⟨hasc, heq⟩ := fronts_spec ih (show heightAll children ≤ n by omega) ha
      have hle := (fronts_bounds hn children).1
      have hjoin := join_stepOf ih (by omega) hasc
      refine ⟨hjoin.ascending, fun r => ?_, hjoin.below⟩
      rw [Gives, heq r, ← Gives]
      exact hjoin.gives_iff r
    | joined children =>
      rw [height] at hh
      rw [Ascending] at ha
      exact join_stepOf ih (by omega) ha

/-- **A pull of an ascending tree does what it has to do.** -/
theorem pull_stepOf {c : Cursor} (ha : c.Ascending) : StepOf c (c.pull false) :=
  pullTo_sound c.height c (Nat.le_refl _) ha

/-! ### Draining -/

/-- The tree after so many pulls. -/
def after : Nat → Cursor → Cursor
  | 0, c => c
  | n + 1, c => after n (c.pull false).2

/-- The answer of the pull that comes after so many others. -/
def answer (c : Cursor) (n : Nat) : Option Rank := ((c.after n).pull false).1

theorem answer_zero (c : Cursor) : c.answer 0 = (c.pull false).1 := rfl

theorem answer_succ (c : Cursor) (n : Nat) : c.answer (n + 1) = (c.pull false).2.answer n := rfl

/-- A tree that has nothing to give answers nothing, however often it is pulled. -/
theorem answer_eq_none {c : Cursor} (ha : c.Ascending) (hg : ∀ r, ¬ c.Gives r) (n : Nat) :
    c.answer n = none := by
  induction n generalizing c with
  | zero =>
    cases h : (c.pull false).1 with
    | none => exact h
    | some r => exact absurd (((pull_stepOf ha).gives_iff r).2 (Or.inl h)) (hg r)
  | succ n ih =>
    have hstep := pull_stepOf ha
    rw [answer_succ]
    exact ih hstep.ascending fun r hr => hg r ((hstep.gives_iff r).2 (Or.inr hr))

/-- The pulls of a tree and the ranks it has to give: what `take` collects is all of it. -/
theorem take_spec {n : Nat} {c : Cursor} (hw : c.weight ≤ n) (ha : c.Ascending) :
    (c.take n).Pairwise (· < ·) ∧ (∀ r, r ∈ c.take n ↔ c.Gives r) ∧
      ∀ k, c.answer k = (c.take n)[k]? := by
  have hstep := pull_stepOf ha
  induction n generalizing c with
  | zero =>
    -- a rank that it gave would make a tree without weight lighter still
    have hnone : ∀ r, ¬ c.Gives r := by
      intro r hr
      cases hp : c.pull false with
      | mk f c' =>
        rw [hp] at hstep
        cases f with
        | none => exact hstep.not_gives r hr
        | some f =>
          have := weight_pull_lt hp
          omega
    refine ⟨List.Pairwise.nil, fun r => ?_, fun k => ?_⟩
    · simp [take, hnone r]
    · simp [take, answer_eq_none ha hnone k]
  | succ n ih =>
    cases hp : c.pull false with
    | mk f c' =>
      rw [hp] at hstep
      cases f with
      | none =>
        have hnone := hstep.not_gives
        simp only [take, hp]
        refine ⟨List.Pairwise.nil, fun r => ?_, fun k => ?_⟩
        · simp [hnone r]
        · simp [answer_eq_none ha hnone k]
      | some f =>
        have hlt := weight_pull_lt hp
        obtain ⟨ihasc, ihmem, ihans⟩ := ih (c := c') (by omega) hstep.ascending
          (pull_stepOf hstep.ascending)
        simp only [take, hp]
        refine ⟨?_, fun r => ?_, fun k => ?_⟩
        · refine List.pairwise_cons.2 ⟨fun r hr => ?_, ihasc⟩
          obtain ⟨f', hf, h⟩ := hstep.below r ((ihmem r).1 hr)
          cases hf
          exact h
        · rw [List.mem_cons, ihmem r, hstep.gives_iff r, Option.some.injEq, eq_comm]
        · cases k with
          | zero => rw [answer_zero, hp]; rfl
          | succ k => rw [answer_succ, hp, List.getElem?_cons_succ]; exact ihans k

/-- **Draining an ascending tree** gives its ranks in ascending order, pull by pull, and after the
last of them nothing. -/
theorem drain_spec {c : Cursor} (ha : c.Ascending) :
    c.drain.Pairwise (· < ·) ∧ (∀ r, r ∈ c.drain ↔ c.Gives r) ∧ ∀ k, c.answer k = c.drain[k]? :=
  take_spec (Nat.le_refl _) ha

end Cursor

/-! ### Trees of streams -/

/-- A tree of streams that nobody has pulled yet. -/
inductive StreamTree where
  /-- A list of ranks. -/
  | postings (ranks : List Rank)
  /-- A meeting of one or more streams. -/
  | meeting (leader : StreamTree) (others : List StreamTree)
  /-- A joining of any number of streams. -/
  | joining (children : List StreamTree)

namespace StreamTree

mutual

/-- The tree as a cursor. -/
def cursor : StreamTree → Cursor
  | .postings ranks => .leaf (.postings ranks)
  | .meeting leader others => .meeting leader.cursor (cursors others)
  | .joining children => .joining (cursors children)

/-- Several trees as cursors. -/
def cursors : List StreamTree → List Cursor
  | [] => []
  | t :: ts => t.cursor :: cursors ts

end

mutual

/-- The set of ranks that a tree means: the list of a leaf, the intersection of the parts of a
meeting, the union of those of a joining. -/
def meaning : StreamTree → Set Rank
  | .postings ranks => {r | r ∈ ranks}
  | .meeting leader others => leader.meaning ∩ intersection others
  | .joining children => union children

/-- The ranks that all of the trees mean. -/
def intersection : List StreamTree → Set Rank
  | [] => Set.univ
  | t :: ts => t.meaning ∩ intersection ts

/-- The ranks that one of the trees means. -/
def union : List StreamTree → Set Rank
  | [] => ∅
  | t :: ts => t.meaning ∪ union ts

end

mutual

/-- The lists in the leaves ascend strictly. -/
def LeavesAscend : StreamTree → Prop
  | .postings ranks => ranks.Pairwise (· < ·)
  | .meeting leader others => leader.LeavesAscend ∧ AllLeavesAscend others
  | .joining children => AllLeavesAscend children

/-- The lists in the leaves of all of the trees ascend strictly. -/
def AllLeavesAscend : List StreamTree → Prop
  | [] => True
  | t :: ts => t.LeavesAscend ∧ AllLeavesAscend ts

end

mutual

theorem cursor_gives : ∀ (t : StreamTree) (r : Rank), t.cursor.Gives r ↔ r ∈ t.meaning
  | .postings ranks, r => by rw [cursor, Cursor.Gives, meaning]; rfl
  | .meeting leader others, r => by
    rw [cursor, Cursor.Gives, meaning, Set.mem_inter_iff, cursor_gives leader r,
      cursors_allGive others r]
  | .joining children, r => by
    rw [cursor, Cursor.Gives, meaning, cursors_anyGives children r]

theorem cursors_allGive : ∀ (ts : List StreamTree) (r : Rank),
    Cursor.AllGive (cursors ts) r ↔ r ∈ intersection ts
  | [], r => by simp [cursors, Cursor.AllGive, intersection]
  | t :: ts, r => by
    rw [cursors, Cursor.AllGive, intersection, Set.mem_inter_iff, cursor_gives t r,
      cursors_allGive ts r]

theorem cursors_anyGives : ∀ (ts : List StreamTree) (r : Rank),
    Cursor.AnyGives (cursors ts) r ↔ r ∈ union ts
  | [], r => by simp [cursors, Cursor.AnyGives, union]
  | t :: ts, r => by
    rw [cursors, Cursor.AnyGives, union, Set.mem_union, cursor_gives t r, cursors_anyGives ts r]

end

mutual

theorem cursor_ascending : ∀ t : StreamTree, t.LeavesAscend → t.cursor.Ascending
  | .postings ranks, h => by rw [LeavesAscend] at h; rw [cursor, Cursor.Ascending]; exact h
  | .meeting leader others, h => by
    rw [LeavesAscend] at h
    rw [cursor, Cursor.Ascending]
    exact ⟨cursor_ascending leader h.1, cursors_allAscending others h.2⟩
  | .joining children, h => by
    rw [LeavesAscend] at h
    rw [cursor, Cursor.Ascending]
    exact cursors_allAscending children h

theorem cursors_allAscending : ∀ ts : List StreamTree, AllLeavesAscend ts →
    Cursor.AllAscending (cursors ts)
  | [], _ => by rw [cursors, Cursor.AllAscending]; trivial
  | t :: ts, h => by
    rw [AllLeavesAscend] at h
    rw [cursors, Cursor.AllAscending]
    exact ⟨cursor_ascending t h.1, cursors_allAscending ts h.2⟩

end

/-- **A tree over ascending lists gives the ranks of its meaning**: in strictly ascending order,
each once, one with every pull, and from the first pull without a rank on none. -/
theorem drain_meaning (t : StreamTree) (h : t.LeavesAscend) :
    t.cursor.drain.Pairwise (· < ·) ∧ (∀ r, r ∈ t.cursor.drain ↔ r ∈ t.meaning) ∧
      (∀ k, t.cursor.answer k = t.cursor.drain[k]?) ∧
      ∀ k l, k ≤ l → t.cursor.answer k = none → t.cursor.answer l = none := by
  obtain ⟨hasc, hmem, hans⟩ := Cursor.drain_spec (cursor_ascending t h)
  refine ⟨hasc, fun r => (hmem r).trans (cursor_gives t r), hans, fun k l hkl hk => ?_⟩
  rw [hans, List.getElem?_eq_none_iff] at hk ⊢
  exact Nat.le_trans hk hkl

/-- A meeting of a joining, one child of which is empty, with a list. -/
theorem drain_meaning_nested : ∃ t : StreamTree,
    t = meeting (joining [postings [1, 4, 6], postings [], postings [0, 4, 7]])
      [postings [0, 2, 4, 7, 9]] ∧ t.LeavesAscend ∧ t.cursor.drain = [0, 4, 7] ∧
      (∀ r, r ∈ t.meaning ↔ r ∈ [0, 4, 7]) ∧ ∀ k, t.cursor.answer k = ([0, 4, 7] : List Rank)[k]? := by
  have h : (meeting (joining [postings [1, 4, 6], postings [], postings [0, 4, 7]])
      [postings [0, 2, 4, 7, 9]]).LeavesAscend := by
    simp [LeavesAscend, AllLeavesAscend]
  have hd : (meeting (joining [postings [1, 4, 6], postings [], postings [0, 4, 7]])
      [postings [0, 2, 4, 7, 9]]).cursor.drain = [0, 4, 7] := by decide
  obtain ⟨-, hmem, hans, -⟩ := drain_meaning _ h
  rw [hd] at hmem hans
  exact ⟨_, rfl, h, hd, fun r => (hmem r).symm, hans⟩

end StreamTree
end Query
end AlbumIndex
