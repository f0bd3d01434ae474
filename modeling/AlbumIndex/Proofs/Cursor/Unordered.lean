import AlbumIndex.Proofs.Cursor.Meaning
import AlbumIndex.Proofs.Cursor.Pulls

/-!
# Trees over lists in any order

A list of ranks need not ascend: where keywords come before sub-keywords, the ranks of the one are
put before those of the other.  A meeting of such lists may pass over ranks that all of them have,
and a joining may give a rank twice.  But whatever comes out of a tree was in its set of ranks: a
meeting only gives a rank of its leader at which all of the others stand, and they stand at ranks of
their own.  And a joining loses nothing, because it drops a rank in front only when it gives it.

Every rank that is given has left a leaf for good, so there are no more answers than ranks in the
leaves, and behind the last answer there is nothing more.

## Main definitions

* `Within` — an answer that is in the set of ranks of its tree.
* `Cursor.Joins`, `Lossless` — trees without a meeting, and an answer that loses no rank.
* `StreamTree.ranks`, `StreamTree.NoMeeting` — the ranks in the leaves of a tree; it has no meeting.

## Main results

* `Cursor.pull_within` — **no pull gives a rank that the tree does not have.**
* `Cursor.pull_lossless` — **no pull of a tree without a meeting loses a rank.**
* `Cursor.answer_eq_getElem?_take` — behind the last answer there is nothing more.
* `StreamTree.drain_unordered` — all of this for a tree over lists in any order.
-/

namespace AlbumIndex
namespace Query

open Cursor

/-! ### Nothing is added -/

/-- The answer is one of the ranks that the tree has to give, and so are all ranks that are left. -/
structure Within (c : Cursor) (answer : Option Rank × Cursor) : Prop where
  gives : ∀ r, answer.1 = some r → c.Gives r
  left : ∀ r, answer.2.Gives r → c.Gives r

namespace Within

theorem refl (c : Cursor) : Within c (none, c) := ⟨nofun, fun _ h => h⟩

/-- A tree that has come to its end. -/
theorem ended (c : Cursor) : Within c (none, .ended) :=
  ⟨nofun, fun r h => by rw [Gives] at h; exact h.elim⟩

end Within

variable {next : Puller}

theorem firstRanks_within (hw : ∀ c, Within c (next c)) {cs : List Cursor}
    {standing : List (Cursor × Rank)} (h : firstRanks next cs = some standing) {r : Rank}
    (hr : AllStandOrGive standing r) : AllGive cs r := by
  induction cs generalizing standing with
  | nil => rw [AllGive]; trivial
  | cons c cs ih =>
    have hc := hw c
    rw [firstRanks] at h
    split at h
    · cases h
    · next f c' hnext =>
      rw [hnext] at hc
      obtain ⟨others, hothers, rfl⟩ := Option.map_eq_some_iff.1 h
      rw [AllStandOrGive] at hr
      rw [AllGive]
      refine ⟨?_, ih hothers hr.2⟩
      rcases hr.1 with rfl | hr
      · exact hc.gives f rfl
      · exact hc.left r hr

theorem catchUp_within (hw : ∀ c, Within c (next c)) {target : Rank} {n : Nat} {c c' : Cursor}
    {current f : Rank} (h : catchUp next target n c current = some (c', f)) {r : Rank}
    (hr : f = r ∨ c'.Gives r) : current = r ∨ c.Gives r := by
  induction n generalizing c current with
  | zero =>
    by_cases hlt : current < target
    · rw [catchUp_zero_of_lt hlt] at h
      cases h
    · rw [catchUp_of_not_lt hlt] at h
      cases h
      exact hr
  | succ n ih =>
    by_cases hlt : current < target
    · have hc := hw c
      rw [catchUp_succ_of_lt hlt] at h
      split at h
      · cases h
      · next f' c'' hnext =>
        rw [hnext] at hc
        rcases ih h with rfl | hgives
        · exact Or.inr (hc.gives f' rfl)
        · exact Or.inr (hc.left r hgives)
    · rw [catchUp_of_not_lt hlt] at h
      cases h
      exact hr

theorem catchUpAll_within (hw : ∀ c, Within c (next c)) {target : Rank}
    {others standing : List (Cursor × Rank)} {same : Bool}
    (h : catchUpAll next target others = some (standing, same)) :
    (∀ r, AllStandOrGive standing r → AllStandOrGive others r) ∧
      (same = true → AllStandOrGive standing target) := by
  induction others generalizing standing same with
  | nil =>
    cases h
    exact ⟨fun _ hr => hr, fun _ => by rw [AllStandOrGive]; trivial⟩
  | cons o others ih =>
    obtain ⟨c, current⟩ := o
    obtain ⟨c', f, others', same', hc, ho, rfl, rfl⟩ := catchUpAll_cons_eq_some h
    obtain ⟨ihleft, ihsame⟩ := ih ho
    constructor
    · intro r hr
      rw [AllStandOrGive] at hr ⊢
      exact ⟨catchUp_within hw hc hr.1, ihleft r hr.2⟩
    · intro hsame
      obtain ⟨hsame', hf⟩ := Bool.and_eq_true_iff.1 hsame
      rw [AllStandOrGive]
      exact ⟨Or.inl (beq_iff_eq.1 hf), ihsame hsame'⟩

/-- One round of a meeting: a rank at which all stand together is one of the meeting's, and so is
everything that is left. -/
theorem round_within (hw : ∀ c, Within c (next c)) {leader leader' : Cursor} {f : Rank}
    (hlead : next leader = (some f, leader')) {others standing : List (Cursor × Rank)} {same : Bool}
    (hall : catchUpAll next f others = some (standing, same)) :
    (∀ r, (Cursor.met leader' standing).Gives r → (Cursor.met leader others).Gives r) ∧
      (same = true → (Cursor.met leader others).Gives f) := by
  have hl := hw leader
  rw [hlead] at hl
  obtain ⟨hleft, hsame⟩ := catchUpAll_within hw hall
  constructor
  · intro r hr
    rw [Gives] at hr ⊢
    exact ⟨hl.left r hr.1, hleft r hr.2⟩
  · intro htrue
    rw [Gives]
    exact ⟨hl.gives f rfl, hleft f (hsame htrue)⟩

/-- What a meeting gives is a rank of the leader at which all others stand. -/
theorem meet_within (hw : ∀ c, Within c (next c)) (n : Nat) (leader : Cursor)
    (others : List (Cursor × Rank)) : Within (.met leader others) (meet next n leader others) := by
  induction n generalizing leader others with
  | zero =>
    unfold meet
    split
    · exact .ended _
    · next f leader' hlead =>
      split
      · exact .ended _
      · next standing hall =>
        obtain ⟨hless, hf⟩ := round_within hw hlead hall
        exact ⟨fun r hr => by cases hr; exact hf rfl, hless⟩
      · exact .ended _
  | succ n ih =>
    unfold meet
    split
    · exact .ended _
    · next f leader' hlead =>
      split
      · exact .ended _
      · next standing hall =>
        obtain ⟨hless, hf⟩ := round_within hw hlead hall
        exact ⟨fun r hr => by cases hr; exact hf rfl, hless⟩
      · next standing hall =>
        obtain ⟨hless, -⟩ := round_within hw hlead hall
        have hrest := ih leader' standing
        exact ⟨fun r hr => hless r (hrest.gives r hr), fun r hr => hless r (hrest.left r hr)⟩

theorem fronts_within (hw : ∀ c, Within c (next c)) {cs : List Cursor} {r : Rank}
    (hr : AnyFrontOrGives (fronts next cs) r) : AnyGives cs r := by
  induction cs with
  | nil => exact hr
  | cons c cs ih =>
    rw [fronts, List.map_cons, ← fronts, AnyFrontOrGives] at hr
    rw [AnyGives]
    rcases hr with (hr | hr) | hr
    · exact Or.inl ((hw c).gives r hr)
    · exact Or.inl ((hw c).left r hr)
    · exact Or.inr (ih hr)

theorem passFront_cons_of_eq {f : Rank} {c : Cursor} {front : Option Rank} (h : front = some f)
    (cs : List (Cursor × Option Rank)) :
    passFront next f ((c, front) :: cs) = ((next c).2, (next c).1) :: passFront next f cs := by
  rw [passFront, List.map_cons, ← passFront]
  exact congrArg (· :: passFront next f cs) (if_pos h)

theorem passFront_cons_of_ne {f : Rank} {c : Cursor} {front : Option Rank} (h : front ≠ some f)
    (cs : List (Cursor × Option Rank)) :
    passFront next f ((c, front) :: cs) = (c, front) :: passFront next f cs := by
  rw [passFront, List.map_cons, ← passFront]
  exact congrArg (· :: passFront next f cs) (if_neg h)

theorem passFront_within (hw : ∀ c, Within c (next c)) {f : Rank}
    {cs : List (Cursor × Option Rank)} {r : Rank} (hr : AnyFrontOrGives (passFront next f cs) r) :
    AnyFrontOrGives cs r := by
  induction cs with
  | nil => exact hr
  | cons child cs ih =>
    obtain ⟨c, front⟩ := child
    rw [AnyFrontOrGives]
    by_cases hf : front = some f
    · rw [passFront_cons_of_eq hf, AnyFrontOrGives] at hr
      rcases hr with (hr | hr) | hr
      · exact Or.inl (Or.inr ((hw c).gives r hr))
      · exact Or.inl (Or.inr ((hw c).left r hr))
      · exact Or.inr (ih hr)
    · rw [passFront_cons_of_ne hf, AnyFrontOrGives] at hr
      exact hr.imp_right ih

theorem join_within (hw : ∀ c, Within c (next c)) (cs : List (Cursor × Option Rank)) :
    Within (.joined cs) (join next cs) := by
  unfold join
  split
  · exact .refl _
  · next f hf =>
    refine ⟨fun r hr => ?_, fun r hr => ?_⟩
    · cases hr
      rw [Gives]
      exact anyFrontOrGives_of_front (leastFront_eq_some hf).1
    · rw [Gives] at hr ⊢
      exact passFront_within hw hr

namespace Cursor

theorem within_leaf (walk : Leaf) : Within (.leaf walk) ((leaf walk).pull false) := by
  have heq := walk.ranks_eq
  rw [pull_leaf]
  cases hpull : walk.pull with
  | none => exact .refl _
  | some answer =>
    rw [hpull] at heq
    refine ⟨fun r hr => ?_, fun r hr => ?_⟩
    · cases hr
      show answer.1 ∈ walk.ranks
      rw [heq]
      exact List.mem_cons_self
    · show r ∈ walk.ranks
      rw [heq]
      exact List.mem_cons_of_mem _ hr

/-- No pull adds a rank, however many levels it is allowed. -/
theorem pullTo_within (n : Nat) (c : Cursor) : Within c (pullTo false n c) := by
  induction n generalizing c with
  | zero => exact .refl c
  | succ n ih =>
    cases c with
    | leaf walk => exact within_leaf walk
    | meeting leader others =>
      simp only [pullTo, Bool.false_eq_true, ↓reduceIte]
      split
      · exact .ended _
      · next standing hfirst =>
        have hmet := meet_within ih leader.weight leader standing
        have hless : ∀ r, (Cursor.met leader standing).Gives r →
            (Cursor.meeting leader others).Gives r := fun r hr => by
          rw [Gives] at hr
          rw [Gives]
          exact ⟨hr.1, firstRanks_within ih hfirst hr.2⟩
        exact ⟨fun r hr => hless r (hmet.gives r hr), fun r hr => hless r (hmet.left r hr)⟩
    | met leader others => exact meet_within ih leader.weight leader others
    | ended => exact .refl _
    | joining children =>
      have hjoin := join_within ih (fronts (pullTo false n) children)
      have hless : ∀ r, (Cursor.joined (fronts (pullTo false n) children)).Gives r →
          (Cursor.joining children).Gives r := fun r hr => by
        rw [Gives] at hr
        rw [Gives]
        exact fronts_within ih hr
      exact ⟨fun r hr => hless r (hjoin.gives r hr), fun r hr => hless r (hjoin.left r hr)⟩
    | joined children => exact join_within ih children

/-- **No pull gives a rank that the tree does not have**, and none puts one into it. -/
theorem pull_within (c : Cursor) : Within c (c.pull false) := pullTo_within c.height c

end Cursor

/-! ### Nothing is lost without a meeting -/

namespace Cursor

mutual

/-- There is no meeting in the tree, and a child without a rank in front has none left. -/
def Joins : Cursor → Prop
  | .leaf _ => True
  | .meeting _ _ | .met _ _ | .ended => False
  | .joining children => AllJoin children
  | .joined children => AllJoined children

/-- There is no meeting in any of the trees. -/
def AllJoin : List Cursor → Prop
  | [] => True
  | c :: cs => c.Joins ∧ AllJoin cs

/-- The same for trees with their front ranks. -/
def AllJoined : List (Cursor × Option Rank) → Prop
  | [] => True
  | (c, front) :: cs => (c.Joins ∧ (front = none → ∀ r, ¬ c.Gives r)) ∧ AllJoined cs

end

theorem allJoin_iff {cs : List Cursor} : AllJoin cs ↔ ∀ c ∈ cs, c.Joins := by
  induction cs with
  | nil => simp [AllJoin]
  | cons c cs ih => simp [AllJoin, ih]

end Cursor

/-- The answer and what is left are all that the tree had to give; without an answer that was
nothing. -/
structure Lossless (c : Cursor) (answer : Option Rank × Cursor) : Prop where
  joins : answer.2.Joins
  kept : ∀ r, c.Gives r → answer.1 = some r ∨ answer.2.Gives r
  empty : answer.1 = none → ∀ r, ¬ answer.2.Gives r

/-- The way to pull loses nothing of trees of at most so many levels without a meeting. -/
def Puller.LosslessTo (next : Puller) (levels : Nat) : Prop :=
  ∀ c, c.height ≤ levels → c.Joins → Lossless c (next c)

variable {levels : Nat}

theorem fronts_lossless (hl : next.LosslessTo levels) {cs : List Cursor}
    (hh : heightAll cs ≤ levels) (hj : AllJoin cs) :
    AllJoined (fronts next cs) ∧ ∀ r, AnyGives cs r → AnyFrontOrGives (fronts next cs) r := by
  induction cs with
  | nil => exact ⟨by rw [fronts, List.map_nil, AllJoined]; trivial, fun _ hr => hr⟩
  | cons c cs ih =>
    rw [heightAll] at hh
    rw [AllJoin] at hj
    have hc := hl c (by omega) hj.1
    obtain ⟨ihjoined, ihkept⟩ := ih (by omega) hj.2
    rw [fronts, List.map_cons, ← fronts]
    refine ⟨?_, fun r hr => ?_⟩
    · rw [AllJoined]
      exact ⟨⟨hc.joins, hc.empty⟩, ihjoined⟩
    · rw [AnyGives] at hr
      rw [AnyFrontOrGives]
      exact hr.imp (hc.kept r) (ihkept r)

/-- Passing a rank takes that rank away and no other one. -/
theorem passFront_lossless (hl : next.LosslessTo levels) (f : Rank)
    {cs : List (Cursor × Option Rank)} (hh : heightJoined cs ≤ levels) (hj : AllJoined cs) :
    AllJoined (passFront next f cs) ∧
      ∀ r, AnyFrontOrGives cs r → f = r ∨ AnyFrontOrGives (passFront next f cs) r := by
  induction cs with
  | nil => exact ⟨by rw [passFront, List.map_nil, AllJoined]; trivial, fun _ hr => Or.inr hr⟩
  | cons child cs ih =>
    obtain ⟨c, front⟩ := child
    rw [heightJoined] at hh
    rw [AllJoined] at hj
    obtain ⟨ihjoined, ihkept⟩ := ih (by omega) hj.2
    by_cases hf : front = some f
    · have hc := hl c (by omega) hj.1.1
      rw [passFront_cons_of_eq hf]
      refine ⟨?_, fun r hr => ?_⟩
      · rw [AllJoined]
        exact ⟨⟨hc.joins, hc.empty⟩, ihjoined⟩
      · rw [AnyFrontOrGives] at hr ⊢
        rcases hr with (hr | hr) | hr
        · exact Or.inl (Option.some.inj (hf.symm.trans hr))
        · exact Or.inr (Or.inl (hc.kept r hr))
        · exact (ihkept r hr).imp_right Or.inr
    · rw [passFront_cons_of_ne hf]
      refine ⟨?_, fun r hr => ?_⟩
      · rw [AllJoined]
        exact ⟨hj.1, ihjoined⟩
      · rw [AnyFrontOrGives] at hr ⊢
        rcases hr with hr | hr
        · exact Or.inr (Or.inl hr)
        · exact (ihkept r hr).imp_right Or.inr

/-- Where no child has a rank in front, none has anything left. -/
theorem not_anyFrontOrGives {cs : List (Cursor × Option Rank)} (hj : AllJoined cs)
    (hf : leastFront cs = none) (r : Rank) : ¬ AnyFrontOrGives cs r := by
  rw [leastFront, List.min?_eq_none_iff] at hf
  induction cs with
  | nil => exact id
  | cons child cs ih =>
    obtain ⟨c, front⟩ := child
    rw [AllJoined] at hj
    cases front with
    | some f => simp at hf
    | none =>
      rw [AnyFrontOrGives]
      rintro ((hr | hr) | hr)
      · cases hr
      · exact hj.1.2 rfl r hr
      · exact ih hj.2 (by simpa using hf) hr

theorem join_lossless (hl : next.LosslessTo levels) {cs : List (Cursor × Option Rank)}
    (hh : heightJoined cs ≤ levels) (hj : AllJoined cs) : Lossless (.joined cs) (join next cs) := by
  unfold join
  cases hf : leastFront cs with
  | none =>
    have hnone := not_anyFrontOrGives hj hf
    exact
      { joins := by rw [Joins]; exact hj
        kept := fun r hr => by rw [Gives] at hr; exact absurd hr (hnone r)
        empty := fun _ r hr => by rw [Gives] at hr; exact hnone r hr }
  | some f =>
    obtain ⟨hjoined, hkept⟩ := passFront_lossless hl f hh hj
    exact
      { joins := by rw [Joins]; exact hjoined
        kept := fun r hr => by
          rw [Gives] at hr
          rw [Gives, Option.some.injEq]
          exact hkept r hr
        empty := nofun }

namespace Cursor

theorem lossless_leaf (walk : Leaf) : Lossless (.leaf walk) ((leaf walk).pull false) := by
  have heq := walk.ranks_eq
  rw [pull_leaf]
  cases hpull : walk.pull with
  | none =>
    rw [hpull] at heq
    have hnone : ∀ r, ¬ (leaf walk).Gives r := fun r hr => by
      rw [Gives, heq] at hr
      cases hr
    exact ⟨by rw [Joins]; trivial, fun r hr => absurd hr (hnone r), fun _ => hnone⟩
  | some answer =>
    rw [hpull] at heq
    refine ⟨by rw [Joins]; trivial, fun r hr => ?_, nofun⟩
    rw [Gives, heq, List.mem_cons] at hr
    rw [Gives]
    exact hr.imp_left fun h => congrArg some h.symm

/-- The children of a tree have fewer levels, so that the induction is on the levels. -/
theorem pull_losslessTo (n : Nat) : Puller.LosslessTo (pull false) n := by
  induction n with
  | zero =>
    intro c hh
    have := c.height_pos
    omega
  | succ n ih =>
    intro c hh hj
    cases c with
    | leaf walk => exact lossless_leaf walk
    | meeting leader others => rw [Joins] at hj; exact hj.elim
    | met leader others => rw [Joins] at hj; exact hj.elim
    | ended => rw [Joins] at hj; exact hj.elim
    | joining children =>
      rw [height] at hh
      rw [Joins] at hj
      obtain ⟨hjoined, hkept⟩ := fronts_lossless ih (show heightAll children ≤ n by omega) hj
      have hle := (fronts_bounds (pull_thrifty false) children).1
      have hjoin := join_lossless ih (by omega) hjoined
      rw [pull_joining, pull_joined]
      refine ⟨hjoin.joins, fun r hr => hjoin.kept r ?_, hjoin.empty⟩
      rw [Gives] at hr
      rw [Gives]
      exact hkept r hr
    | joined children =>
      rw [height] at hh
      rw [Joins] at hj
      rw [pull_joined]
      exact join_lossless ih (by omega) hj

/-- **No pull of a tree without a meeting loses a rank.** -/
theorem pull_lossless {c : Cursor} (hj : c.Joins) : Lossless c (c.pull false) :=
  pull_losslessTo c.height c (Nat.le_refl _) hj

/-! ### All pulls -/

/-- A meeting without an answer has ended for good. -/
theorem meet_eq_none {n : Nat} {leader c : Cursor} {others : List (Cursor × Rank)}
    (h : meet next n leader others = (none, c)) : c = .ended := by
  induction n generalizing leader others with
  | zero => unfold meet at h; grind
  | succ n ih => unfold meet at h; grind

/-- A tree whose pull gives nothing stays as it is from then on. -/
theorem pull_of_pull_eq_none {c c' : Cursor} (h : c.pull false = (none, c')) :
    c'.pull false = (none, c') := by
  have hmet : ∀ {leader others}, (Cursor.met leader others).pull false = (none, c') →
      c'.pull false = (none, c') := fun hmet => by
    rw [pull_met_eq_meet] at hmet
    rw [meet_eq_none hmet, pull_ended]
  have hjoined : ∀ {children}, (Cursor.joined children).pull false = (none, c') →
      c'.pull false = (none, c') := fun {children} hjoined => by
    rw [pull_joined] at hjoined
    unfold join at hjoined
    split at hjoined
    · next hf =>
      cases hjoined
      rw [pull_joined, join, hf]
    · cases hjoined
  cases c with
  | leaf walk =>
    rw [pull_leaf] at h
    split at h
    · next hpull => cases h; rw [pull_leaf, hpull]
    · cases h
  | meeting leader others =>
    rw [pull_meeting] at h
    split at h
    · cases h; rfl
    · exact hmet h
  | met leader others => exact hmet h
  | ended => cases h; rfl
  | joining children => rw [pull_joining] at h; exact hjoined h
  | joined children => exact hjoined h

/-- Behind a pull that gives nothing there is nothing. -/
theorem answer_eq_none_of_pull {c c' : Cursor} (h : c.pull false = (none, c')) (k : Nat) :
    c.answer k = none := by
  induction k generalizing c with
  | zero => rw [answer_zero, h]
  | succ k ih => rw [answer_succ, h]; exact ih (pull_of_pull_eq_none h)

theorem length_take_le (n : Nat) (c : Cursor) : (c.take n).length ≤ n := by
  induction n generalizing c with
  | zero => exact Nat.le_refl _
  | succ n ih =>
    rw [take]
    split
    · exact Nat.zero_le _
    · exact Nat.succ_le_succ (ih _)

/-- **Behind the last answer there is nothing more**, and as many pulls as the tree has ranks are
enough to get there. -/
theorem answer_eq_getElem?_take {n : Nat} {c : Cursor} (hw : c.weight ≤ n) (k : Nat) :
    c.answer k = (c.take n)[k]? := by
  induction n generalizing c k with
  | zero =>
    cases hp : c.pull false with
    | mk answer c' =>
      cases answer with
      | none => exact answer_eq_none_of_pull hp k
      | some r =>
        -- a tree without weight gives nothing
        have := weight_pull_lt hp
        omega
  | succ n ih =>
    rw [take]
    cases hp : c.pull false with
    | mk answer c' =>
      cases answer with
      | none => exact answer_eq_none_of_pull hp k
      | some r =>
        have := weight_pull_lt hp
        cases k with
        | zero => rw [answer_zero, hp]; rfl
        | succ k =>
          rw [answer_succ, hp, List.getElem?_cons_succ]
          exact ih (Nat.le_of_lt_succ (this.trans_le hw)) k

theorem gives_of_mem_take {n : Nat} {c : Cursor} {r : Rank} (h : r ∈ c.take n) : c.Gives r := by
  induction n generalizing c with
  | zero => cases h
  | succ n ih =>
    have hc := c.pull_within
    rw [take] at h
    split at h
    · cases h
    · next f c' hp =>
      rw [hp] at hc
      rcases List.mem_cons.1 h with rfl | h
      · exact hc.gives r rfl
      · exact hc.left r (ih h)

theorem mem_take_of_gives {n : Nat} {c : Cursor} (hw : c.weight ≤ n) (hj : c.Joins) {r : Rank}
    (hr : c.Gives r) : r ∈ c.take n := by
  induction n generalizing c with
  | zero =>
    have hc := pull_lossless hj
    cases hp : c.pull false with
    | mk answer c' =>
      rw [hp] at hc
      cases answer with
      | none => exact absurd (hc.kept r hr) (by simpa using hc.empty rfl r)
      | some f =>
        have := weight_pull_lt hp
        omega
  | succ n ih =>
    have hc := pull_lossless hj
    rw [take]
    cases hp : c.pull false with
    | mk answer c' =>
      rw [hp] at hc
      cases answer with
      | none => exact absurd (hc.kept r hr) (by simpa using hc.empty rfl r)
      | some f =>
        have := weight_pull_lt hp
        rcases hc.kept r hr with hf | hr
        · exact Option.some.inj hf ▸ List.mem_cons_self
        · exact List.mem_cons_of_mem _ (ih (by omega) hc.joins hr)

/-- A drained tree without a meeting gave all that it had to give. -/
theorem mem_drain_iff {c : Cursor} (hj : c.Joins) {r : Rank} : r ∈ c.drain ↔ c.Gives r :=
  ⟨gives_of_mem_take, mem_take_of_gives (Nat.le_refl _) hj⟩

end Cursor

/-! ### Trees of streams -/

namespace StreamTree

mutual

/-- The ranks in the leaves of a tree, each as often as it stands there. -/
def ranks : StreamTree → List Rank
  | .postings ranks => ranks
  | .meeting leader others => leader.ranks ++ ranksAll others
  | .joining children => ranksAll children

/-- The ranks in the leaves of several trees. -/
def ranksAll : List StreamTree → List Rank
  | [] => []
  | t :: ts => t.ranks ++ ranksAll ts

end

mutual

/-- There is no meeting in the tree. -/
def NoMeeting : StreamTree → Prop
  | .postings _ => True
  | .meeting _ _ => False
  | .joining children => NoMeetings children

/-- There is no meeting in any of the trees. -/
def NoMeetings : List StreamTree → Prop
  | [] => True
  | t :: ts => t.NoMeeting ∧ NoMeetings ts

end

mutual

theorem weight_cursor : ∀ t : StreamTree, t.cursor.weight = t.ranks.length
  | .postings ranks => by rw [cursor, Cursor.weight, StreamTree.ranks, Leaf.weight]
  | .meeting leader others => by
    rw [cursor, Cursor.weight, StreamTree.ranks, List.length_append, weight_cursor leader,
      weight_cursors others]
  | .joining children => by rw [cursor, Cursor.weight, StreamTree.ranks, weight_cursors children]

theorem weight_cursors : ∀ ts : List StreamTree,
    Cursor.weightAll (cursors ts) = (ranksAll ts).length
  | [] => by rw [cursors, Cursor.weightAll, ranksAll, List.length_nil]
  | t :: ts => by
    rw [cursors, Cursor.weightAll, ranksAll, List.length_append, weight_cursor t,
      weight_cursors ts]

end

mutual

theorem cursor_joins : ∀ t : StreamTree, t.NoMeeting → t.cursor.Joins
  | .postings _, _ => by rw [cursor, Cursor.Joins]; trivial
  | .meeting _ _, h => by rw [NoMeeting] at h; exact h.elim
  | .joining children, h => by
    rw [NoMeeting] at h
    rw [cursor, Cursor.Joins]
    exact cursors_allJoin children h

theorem cursors_allJoin : ∀ ts : List StreamTree, NoMeetings ts → Cursor.AllJoin (cursors ts)
  | [], _ => by rw [cursors, Cursor.AllJoin]; trivial
  | t :: ts, h => by
    rw [NoMeetings] at h
    rw [cursors, Cursor.AllJoin]
    exact ⟨cursor_joins t h.1, cursors_allJoin ts h.2⟩

end

mutual

/-- Without a meeting, a tree means all ranks in its leaves. -/
theorem mem_meaning_of_noMeeting : ∀ (t : StreamTree), t.NoMeeting → ∀ r ∈ t.ranks, r ∈ t.meaning
  | .postings _, _, r, hr => by rw [StreamTree.ranks] at hr; rw [meaning]; exact hr
  | .meeting _ _, h, _, _ => by rw [NoMeeting] at h; exact h.elim
  | .joining children, h, r, hr => by
    rw [NoMeeting] at h
    rw [StreamTree.ranks] at hr
    rw [meaning]
    exact mem_union_of_noMeetings children h r hr

theorem mem_union_of_noMeetings : ∀ (ts : List StreamTree), NoMeetings ts →
    ∀ r ∈ ranksAll ts, r ∈ union ts
  | [], _, _, hr => by rw [ranksAll] at hr; cases hr
  | t :: ts, h, r, hr => by
    rw [NoMeetings] at h
    rw [ranksAll, List.mem_append] at hr
    rw [union, Set.mem_union]
    exact hr.imp (mem_meaning_of_noMeeting t h.1 r) (mem_union_of_noMeetings ts h.2 r)

end

/-- **A tree over lists in any order** gives at most as many ranks as its leaves hold, and then
nothing for ever.  Every rank that it gives is one of its meaning; and if there is no meeting in it,
it gives every rank of its leaves. -/
theorem drain_unordered (t : StreamTree) :
    t.cursor.drain.length ≤ t.ranks.length ∧
      (∀ k, t.cursor.answer k = t.cursor.drain[k]?) ∧
      (∀ k, t.cursor.drain.length ≤ k → t.cursor.answer k = none) ∧
      (∀ r ∈ t.cursor.drain, r ∈ t.meaning) ∧
      (t.NoMeeting → ∀ r ∈ t.ranks, r ∈ t.cursor.drain) := by
  have hanswers : ∀ k, t.cursor.answer k = t.cursor.drain[k]? :=
    Cursor.answer_eq_getElem?_take (Nat.le_refl _)
  refine ⟨?_, hanswers, fun k hk => ?_, fun r hr => ?_, fun hjoins r hr => ?_⟩
  · rw [← weight_cursor t]
    exact Cursor.length_take_le _ _
  · rw [hanswers k]
    exact List.getElem?_eq_none hk
  · exact (cursor_gives t r).1 (Cursor.gives_of_mem_take hr)
  · have hmeant : r ∈ t.meaning := mem_meaning_of_noMeeting t hjoins r hr
    exact Cursor.mem_take_of_gives (Nat.le_refl _) (cursor_joins t hjoins)
      ((cursor_gives t r).2 hmeant)

/-- A joining of lists that descend and repeat ranks: a rank can come twice, and late, but none is
lost. -/
theorem drain_unordered_joining : ∃ t : StreamTree,
    t = joining [postings [5, 2, 5], joining [postings [9, 1], postings []]] ∧ t.NoMeeting ∧
      t.cursor.drain = [5, 2, 5, 9, 1] ∧ (∀ r ∈ t.ranks, r ∈ t.cursor.drain) ∧
      (∀ r ∈ [5, 2, 5, 9, 1], r ∈ t.meaning) ∧ ∀ k, 5 ≤ k → t.cursor.answer k = none := by
  have hjoins : (joining [postings [5, 2, 5],
      joining [postings [9, 1], postings []]]).NoMeeting := by
    simp [NoMeeting, NoMeetings]
  have hd : (joining [postings [5, 2, 5],
      joining [postings [9, 1], postings []]]).cursor.drain = [5, 2, 5, 9, 1] := by decide
  obtain ⟨-, -, hend, hmeant, hall⟩ := drain_unordered (joining [postings [5, 2, 5],
    joining [postings [9, 1], postings []]])
  rw [hd] at hend hmeant
  exact ⟨_, rfl, hjoins, hd, hall hjoins, hmeant, hend⟩

-- both lists have the rank 1, but the meeting has passed it when its leader comes to it
example : (meeting (postings [2, 1]) [postings [1, 2]]).cursor.drain = [2] := by decide

end StreamTree
end Query
end AlbumIndex
