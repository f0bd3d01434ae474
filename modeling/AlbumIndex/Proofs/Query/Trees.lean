import AlbumIndex.Proofs.Query.Draining
import Mathlib.Data.List.Sort
import Mathlib.Logic.Relation

/-!
# Trees of conditions

Conditions are put together freely, not only as a text would have it.  Whatever the tree, it gives
the images that fulfil it, in the order of their ranks: an inner node gives what all of its children
give, or what one of them gives.  The only way to fail is a day at the very end of the calendar.

A node without a cursor is not the same as one whose cursor gives nothing.  Where all conditions
have to hold, one child without a cursor leaves the whole without one, and so does having no
children; among alternatives, the node has no cursor only if no child has one.

None of this looks at the order of the children or counts them.  So a tree is as good as any other
that it becomes when the children of its nodes are put in another order, repeated, or no longer
repeated, at any depth and any number of times.

## Main definitions

* `Node.InCalendar` — the days of a tree end in the calendar.
* `Node.Draws` — a rank is among those that a node gives.
* `Node.Same` — two nodes come to the same on a catalog.
* `Node.Rearranges` — the children of one node are put in another order or repeated.
* `Scope.AnswersTrees` — what trees give.

## Main results

* `Node.all_open_eq_none_iff`, `Node.any_open_eq_none_iff` — which nodes have no cursor.
* `Node.same_of_rearranged` — rearranged trees come to the same.
* `tree_answers` — **every tree gives the images that fulfil it, however it is arranged.**
-/

namespace AlbumIndex
namespace Query

open Calendar Text

variable {s : Scope} {nodes others : List Node}

/-! ### Opening -/

mutual

/-- Every day that is asked for ends in the calendar. -/
def Node.InCalendar (offset : Offset) : Node → Prop
  | .day token => ∀ start, (readDate? isoPattern token.toList).bind offset.midnight? = some start →
    Instant.InRange (start.seconds + Instant.secondsPerDay)
  | .all nodes => Node.AllInCalendar offset nodes
  | .any nodes => Node.AllInCalendar offset nodes
  | _ => True

/-- Every day that one of the nodes asks for ends in the calendar. -/
def Node.AllInCalendar (offset : Offset) : List Node → Prop
  | [] => True
  | node :: nodes => node.InCalendar offset ∧ Node.AllInCalendar offset nodes

end

theorem exists_dayPeriod_iff {offset : Offset} {token : String} :
    (∃ period, dayPeriod offset token = .ok period) ↔
      ∀ start, (readDate? isoPattern token.toList).bind offset.midnight? = some start →
        Instant.InRange (start.seconds + Instant.secondsPerDay) := by
  unfold dayPeriod
  cases hday : (readDate? isoPattern token.toList).bind offset.midnight? with
  | none => simp
  | some start =>
    obtain ⟨date, -, hstart⟩ := Option.bind_eq_some_iff.1 hday
    have hsecond := Offset.eq_ofSeconds_of_midnight? hstart
    dsimp only
    rw [exists_map_eq_ok_iff, hsecond, Instant.exists_addSeconds_ofSeconds_iff]
    simp [Instant.ofSeconds]

mutual

/-- **A tree can be opened exactly if every day it asks for ends in the calendar.**  The induction
is on the tree. -/
theorem Node.exists_open_iff : ∀ node : Node,
    (∃ c, node.open s = .ok c) ↔ node.InCalendar s.offset
  | .day token => by
    rw [Node.InCalendar, ← exists_dayPeriod_iff]
    simp only [Node.open, exists_map_eq_ok_iff]
  | .all nodes => by
    rw [Node.exists_all_open_iff, Node.InCalendar, Node.forall_open_iff nodes]
  | .any nodes => by
    rw [Node.exists_any_open_iff, Node.InCalendar, Node.forall_open_iff nodes]
  | .absent | .nothing | .keyword _ | .wholeKeyword _ | .person _ | .album _ | .albums | .year _
  | .yearRange _ | .month _ | .within _ | .keywordCount _ | .stereo | .without _ =>
    ⟨fun _ => trivial, fun _ => ⟨_, rfl⟩⟩

theorem Node.forall_open_iff : ∀ nodes : List Node,
    (∀ node ∈ nodes, ∃ c, node.open s = .ok c) ↔ Node.AllInCalendar s.offset nodes
  | [] => by simp [Node.AllInCalendar]
  | node :: nodes => by
    rw [List.forall_mem_cons, Node.exists_open_iff node, Node.forall_open_iff nodes,
      Node.AllInCalendar]

end

/-! ### Nodes without a cursor -/

theorem allPresent_eq_some_iff {cs : List (Option Cursor)} {xs : List Cursor} :
    allPresent cs = some xs ↔ cs = xs.map some := by
  induction cs generalizing xs with
  | nil => cases xs <;> simp [allPresent]
  | cons c cs ih => cases c <;> cases xs <;> simp [allPresent, ih, and_comm]

theorem allPresent_eq_none_iff {cs : List (Option Cursor)} : allPresent cs = none ↔ none ∈ cs := by
  induction cs with
  | nil => simp [allPresent]
  | cons c cs ih => cases c <;> simp [allPresent, ih]

theorem meetAll_eq_none_iff {xs : List Cursor} : meetAll xs = none ↔ xs = [] := by
  rcases xs with _ | ⟨x, _ | ⟨y, ys⟩⟩ <;> simp [meetAll]

theorem joinAll_eq_none_iff {xs : List Cursor} : joinAll xs = none ↔ xs = [] := by
  rcases xs with _ | ⟨x, _ | ⟨y, ys⟩⟩ <;> simp [joinAll]

theorem meetNodes_eq_none_iff {cs : List (Option Cursor)} :
    meetNodes cs = none ↔ cs = [] ∨ none ∈ cs := by
  rw [meetNodes]
  cases h : allPresent cs with
  | none => simp [allPresent_eq_none_iff.1 h]
  | some xs =>
    obtain rfl := allPresent_eq_some_iff.1 h
    simp [meetAll_eq_none_iff]

theorem joinNodes_eq_none_iff {cs : List (Option Cursor)} :
    joinNodes cs = none ↔ ∀ c ∈ cs, c = none := by
  rw [joinNodes, joinAll_eq_none_iff, List.filterMap_eq_nil_iff]
  rfl

/-- **A node whose conditions all have to hold has no cursor** exactly if it has no child, or one
without a cursor. -/
theorem Node.all_open_eq_none_iff : (Node.all nodes).open s = .ok none ↔
    (∀ node ∈ nodes, ∃ c, node.open s = .ok c) ∧
      (nodes = [] ∨ ∃ node ∈ nodes, node.open s = .ok none) := by
  rw [← Node.exists_openAll_iff, Node.open, map_eq_ok_iff, ← exists_and_right]
  refine exists_congr fun cs => and_congr_right fun hcs => ?_
  have hopen := Node.openAll_eq_ok_iff.1 hcs
  have hnil : cs = [] ↔ nodes = [] := by
    rw [← List.map_eq_nil_iff (f := Except.ok (ε := OutOfRange)), ← hopen, List.map_eq_nil_iff]
  rw [meetNodes_eq_none_iff, hnil, mem_iff_of_map_ok hopen]

/-- **A node of alternatives has no cursor** exactly if none of its children has one. -/
theorem Node.any_open_eq_none_iff :
    (Node.any nodes).open s = .ok none ↔ ∀ node ∈ nodes, node.open s = .ok none := by
  rw [Node.open, map_eq_ok_iff]
  constructor
  · rintro ⟨cs, hcs, hnone⟩ node hnode
    obtain ⟨c, hc⟩ := Node.exists_openAll_iff.1 ⟨cs, hcs⟩ node hnode
    have hmem : c ∈ cs := (mem_iff_of_map_ok (Node.openAll_eq_ok_iff.1 hcs)).2 ⟨node, hnode, hc⟩
    rw [hc, joinNodes_eq_none_iff.1 hnone c hmem]
  · intro h
    obtain ⟨cs, hcs⟩ := Node.exists_openAll_iff.2 fun node hnode => ⟨none, h node hnode⟩
    refine ⟨cs, hcs, joinNodes_eq_none_iff.2 ?_⟩
    intro c hc
    obtain ⟨node, hnode, hopen⟩ := (mem_iff_of_map_ok (Node.openAll_eq_ok_iff.1 hcs)).1 hc
    exact Except.ok.inj (hopen.symm.trans (h node hnode))

/-! ### What nodes give -/

/-- The rank is among those that the node gives. -/
def Node.Draws (s : Scope) (node : Node) (r : Rank) : Prop :=
  ∃ search, Search.begin s node = .ok search ∧ r ∈ search.ranks

/-- A node gives the ranks of the images that fulfil it. -/
theorem Node.draws_iff (hs : s.Ordered) {node : Node} {r : Rank} :
    node.Draws s r ↔ (∃ c, node.open s = .ok c) ∧
      ∃ ref, s.catalog.ref? r = some ref ∧ node.Holds s ref := by
  constructor
  · rintro ⟨search, hbegin, hr⟩
    obtain ⟨c, hopen, rfl⟩ := map_eq_ok_iff.1 hbegin
    exact ⟨⟨c, hopen⟩, ((Search.begin_handsOut hs hopen).2.mem_ranks r).1 hr⟩
  · rintro ⟨⟨c, hopen⟩, href⟩
    obtain ⟨hbegin, hout⟩ := Search.begin_handsOut hs hopen
    exact ⟨_, hbegin, (hout.mem_ranks r).2 href⟩

/-- **Conditions that all have to hold give what all of them give**, if there are any. -/
theorem Node.all_draws_iff (hs : s.Ordered) {r : Rank} :
    (Node.all nodes).Draws s r ↔ nodes ≠ [] ∧ ∀ node ∈ nodes, node.Draws s r := by
  simp only [Node.draws_iff hs, Node.exists_all_open_iff, Node.Holds, Node.holdAll_iff,
    List.forall_mem_map]
  constructor
  · rintro ⟨hopen, ref, href, hne, hall⟩
    exact ⟨hne, fun node hnode => ⟨hopen node hnode, ref, href, hall node hnode⟩⟩
  · rintro ⟨hne, hall⟩
    -- all children speak of the one image of the rank
    obtain ⟨first, hfirst⟩ := List.exists_mem_of_ne_nil nodes hne
    obtain ⟨-, ref, href, -⟩ := hall first hfirst
    refine ⟨fun node hnode => (hall node hnode).1, ref, href, hne, ?_⟩
    intro node hnode
    obtain ⟨-, ref', href', hholds⟩ := hall node hnode
    have hsame : ref = ref' := Option.some.inj (href.symm.trans href')
    rwa [hsame]

/-- **Alternatives give what one of them gives**, if all of them can be opened. -/
theorem Node.any_draws_iff (hs : s.Ordered) {r : Rank} :
    (Node.any nodes).Draws s r ↔
      (∀ node ∈ nodes, ∃ c, node.open s = .ok c) ∧ ∃ node ∈ nodes, node.Draws s r := by
  simp only [Node.draws_iff hs, Node.exists_any_open_iff, Node.Holds, Node.holdsAny_iff,
    List.mem_map, exists_exists_and_eq_and]
  refine and_congr_right fun hopen => ?_
  constructor
  · rintro ⟨ref, href, node, hnode, hholds⟩
    exact ⟨node, hnode, hopen node hnode, ref, href, hholds⟩
  · rintro ⟨node, hnode, -, ref, href, hholds⟩
    exact ⟨ref, href, node, hnode, hholds⟩

/-! ### Nodes that come to the same -/

/-- The two nodes can be opened together, they are without a cursor together, and the same images
fulfil them. -/
structure Node.Same (s : Scope) (a b : Node) : Prop where
  opens : (∃ c, a.open s = .ok c) ↔ ∃ c, b.open s = .ok c
  absent : a.open s = .ok none ↔ b.open s = .ok none
  holds : ∀ ref, a.Holds s ref ↔ b.Holds s ref

namespace Node.Same

variable {a b c : Node}

theorem refl (a : Node) : Same s a a := ⟨Iff.rfl, Iff.rfl, fun _ => Iff.rfl⟩

theorem trans (h : Same s a b) (h' : Same s b c) : Same s a c :=
  ⟨h.opens.trans h'.opens, h.absent.trans h'.absent, fun ref => (h.holds ref).trans (h'.holds ref)⟩

end Node.Same

/-- Nodes that come to the same give the same ranks in the same order, or cannot be opened. -/
theorem Node.Same.ranks_eq (hs : s.Ordered) {a b : Node} (h : Node.Same s a b) :
    (Search.begin s a).toOption.map Search.ranks = (Search.begin s b).toOption.map Search.ranks := by
  cases ha : a.open s with
  | error e =>
    cases hb : b.open s with
    | error e' => simp [Search.begin, ha, hb, Except.map, Except.toOption]
    | ok c =>
      obtain ⟨c', hc'⟩ := h.opens.2 ⟨c, hb⟩
      cases ha.symm.trans hc'
  | ok c =>
    obtain ⟨c', hb⟩ := h.opens.1 ⟨c, ha⟩
    obtain ⟨hbegin, hout⟩ := Search.begin_handsOut hs ha
    obtain ⟨hbegin', hout'⟩ := Search.begin_handsOut hs hb
    rw [hbegin, hbegin']
    -- ranks that ascend are determined by their members
    refine congrArg some (hout.ascending.eq_of_mem_iff hout'.ascending ?_)
    intro r
    rw [hout.mem_ranks r, hout'.mem_ranks r]
    simp only [h.holds]

/-! ### Rearranged trees -/

/-- Every node of either list comes to the same as one of the other. -/
structure Node.SameMembers (s : Scope) (nodes others : List Node) : Prop where
  left : ∀ a ∈ nodes, ∃ b ∈ others, Node.Same s a b
  right : ∀ b ∈ others, ∃ a ∈ nodes, Node.Same s a b

namespace Node.SameMembers

variable {P : Node → Prop}

theorem forall_iff (h : SameMembers s nodes others) (hP : ∀ {a b}, Same s a b → (P a ↔ P b)) :
    (∀ node ∈ nodes, P node) ↔ ∀ node ∈ others, P node := by
  constructor
  · intro hall b hb
    obtain ⟨a, ha, hab⟩ := h.right b hb
    exact (hP hab).1 (hall a ha)
  · intro hall a ha
    obtain ⟨b, hb, hab⟩ := h.left a ha
    exact (hP hab).2 (hall b hb)

theorem exists_iff (h : SameMembers s nodes others) (hP : ∀ {a b}, Same s a b → (P a ↔ P b)) :
    (∃ node ∈ nodes, P node) ↔ ∃ node ∈ others, P node := by
  simpa using not_congr (h.forall_iff (P := fun node => ¬ P node) fun hab => not_congr (hP hab))

theorem eq_nil_iff (h : SameMembers s nodes others) : nodes = [] ↔ others = [] := by
  have hnone := h.forall_iff (P := fun _ => False) fun _ => Iff.rfl
  simpa [List.eq_nil_iff_forall_not_mem] using hnone

/-- **Only what the children come to matters** where all conditions have to hold. -/
theorem all (h : SameMembers s nodes others) : Same s (.all nodes) (.all others) where
  opens := by
    rw [exists_all_open_iff, exists_all_open_iff]
    exact h.forall_iff Same.opens
  absent := by
    rw [all_open_eq_none_iff, all_open_eq_none_iff, h.eq_nil_iff]
    exact and_congr (h.forall_iff Same.opens) (or_congr_right (h.exists_iff Same.absent))
  holds := by
    intro ref
    rw [Holds, Holds, holdAll_iff, holdAll_iff, List.forall_mem_map, List.forall_mem_map,
      ne_eq, ne_eq, h.eq_nil_iff]
    exact and_congr_right fun _ => h.forall_iff fun hab => hab.holds ref

/-- **Only what the children come to matters** among alternatives. -/
theorem any (h : SameMembers s nodes others) : Same s (.any nodes) (.any others) where
  opens := by
    rw [exists_any_open_iff, exists_any_open_iff]
    exact h.forall_iff Same.opens
  absent := by
    rw [any_open_eq_none_iff, any_open_eq_none_iff]
    exact h.forall_iff Same.absent
  holds := by
    intro ref
    simp only [Holds, holdsAny_iff, List.mem_map, exists_exists_and_eq_and]
    exact h.exists_iff fun hab => hab.holds ref

theorem of_mem_iff (h : ∀ node, node ∈ nodes ↔ node ∈ others) : SameMembers s nodes others where
  left := fun a ha => ⟨a, (h a).1 ha, Same.refl a⟩
  right := fun b hb => ⟨b, (h b).2 hb, Same.refl b⟩

theorem replace (before after : List Node) {a b : Node} (h : Same s a b) :
    SameMembers s (before ++ a :: after) (before ++ b :: after) where
  left := by
    intro x hx
    rw [List.mem_append, List.mem_cons] at hx
    rcases hx with hx | rfl | hx
    · exact ⟨x, by simp [hx], Same.refl x⟩
    · exact ⟨b, by simp, h⟩
    · exact ⟨x, by simp [hx], Same.refl x⟩
  right := by
    intro x hx
    rw [List.mem_append, List.mem_cons] at hx
    rcases hx with hx | rfl | hx
    · exact ⟨x, by simp [hx], Same.refl x⟩
    · exact ⟨a, by simp, h⟩
    · exact ⟨x, by simp [hx], Same.refl x⟩

end Node.SameMembers

/-- The children of one node of the tree become a list with the same members: they are put in
another order, repeated, or no longer repeated. -/
inductive Node.Rearranges : Node → Node → Prop
  | all {nodes others : List Node} (h : ∀ node, node ∈ nodes ↔ node ∈ others) :
    Rearranges (.all nodes) (.all others)
  | any {nodes others : List Node} (h : ∀ node, node ∈ nodes ↔ node ∈ others) :
    Rearranges (.any nodes) (.any others)
  | inAll (before after : List Node) {a b : Node} (h : Rearranges a b) :
    Rearranges (.all (before ++ a :: after)) (.all (before ++ b :: after))
  | inAny (before after : List Node) {a b : Node} (h : Rearranges a b) :
    Rearranges (.any (before ++ a :: after)) (.any (before ++ b :: after))

/-- **One rearrangement** leaves a tree that comes to the same. -/
theorem Node.Rearranges.same {a b : Node} (h : Node.Rearranges a b) : Node.Same s a b := by
  induction h with
  | all h => exact (Node.SameMembers.of_mem_iff h).all
  | any h => exact (Node.SameMembers.of_mem_iff h).any
  | inAll before after _ ih => exact (Node.SameMembers.replace before after ih).all
  | inAny before after _ ih => exact (Node.SameMembers.replace before after ih).any

/-- **Rearranged trees come to the same**, after any number of rearrangements. -/
theorem Node.same_of_rearranged {a b : Node} (h : Relation.ReflTransGen Node.Rearranges a b) :
    Node.Same s a b := by
  induction h with
  | refl => exact Node.Same.refl a
  | tail _ hstep ih => exact ih.trans hstep.same

/-! ### What trees give -/

/-- What trees give that are opened on a scope. -/
structure Scope.AnswersTrees (s : Scope) : Prop where
  /-- A tree can be opened, unless a day that it asks for does not end in the calendar. -/
  exists_open_iff : ∀ node : Node, (∃ c, node.open s = .ok c) ↔ node.InCalendar s.offset
  /-- A tree that is opened hands out the images that fulfil it, in the order of their ranks. -/
  handsOut : ∀ (node : Node) (c : Option Cursor), node.open s = .ok c →
    ∃ search, Search.begin s node = .ok search ∧ search.catalog = s.catalog ∧ search.root = c ∧
      search.HandsOut (node.Holds s)
  /-- Each rank leads to an image that has this rank. -/
  ref_of_draws : ∀ (node : Node) (r : Rank), node.Draws s r →
    ∃ ref, s.catalog.ref? r = some ref ∧ ref.image.rank = r
  /-- Where all conditions have to hold, the ranks are those that all children give. -/
  all_draws_iff : ∀ (nodes : List Node) (r : Rank),
    (Node.all nodes).Draws s r ↔ nodes ≠ [] ∧ ∀ node ∈ nodes, node.Draws s r
  /-- Among alternatives, the ranks are those that one of the children gives. -/
  any_draws_iff : ∀ (nodes : List Node) (r : Rank), (Node.any nodes).Draws s r ↔
    (∀ node ∈ nodes, ∃ c, node.open s = .ok c) ∧ ∃ node ∈ nodes, node.Draws s r
  /-- Where all conditions have to hold, there is no cursor if a child has none, or if there is no
  child. -/
  all_open_eq_none_iff : ∀ nodes : List Node, (Node.all nodes).open s = .ok none ↔
    (∀ node ∈ nodes, ∃ c, node.open s = .ok c) ∧
      (nodes = [] ∨ ∃ node ∈ nodes, node.open s = .ok none)
  /-- Among alternatives, there is no cursor if no child has one. -/
  any_open_eq_none_iff : ∀ nodes : List Node,
    (Node.any nodes).open s = .ok none ↔ ∀ node ∈ nodes, node.open s = .ok none
  /-- Without a cursor there are no ranks. -/
  ranks_of_open_eq_none : ∀ node : Node, node.open s = .ok none →
    (Search.begin s node).toOption.map Search.ranks = some []
  /-- The ranks stay the same when the children of nodes are put in another order or repeated. -/
  ranks_of_rearranged : ∀ a b : Node, Relation.ReflTransGen Node.Rearranges a b →
    (Search.begin s a).toOption.map Search.ranks = (Search.begin s b).toOption.map Search.ranks

/-- **Every tree gives the images that fulfil it**, in the order of their ranks, however its nodes
are arranged. -/
theorem tree_answers (hs : s.Ordered) : s.AnswersTrees where
  exists_open_iff := Node.exists_open_iff
  handsOut := by
    intro node c hopen
    obtain ⟨hbegin, hout⟩ := Search.begin_handsOut hs hopen
    exact ⟨_, hbegin, rfl, rfl, hout⟩
  ref_of_draws := by
    intro node r hr
    obtain ⟨-, ref, href, -⟩ := (Node.draws_iff hs).1 hr
    obtain ⟨albums, people, hc⟩ := hs.built
    have hplace := Catalog.ref?_eq_some_iff.1 (hc ▸ href)
    exact ⟨ref, href, hplace.2.2⟩
  all_draws_iff := fun nodes r => Node.all_draws_iff hs
  any_draws_iff := fun nodes r => Node.any_draws_iff hs
  all_open_eq_none_iff := fun nodes => Node.all_open_eq_none_iff
  any_open_eq_none_iff := fun nodes => Node.any_open_eq_none_iff
  ranks_of_open_eq_none := by
    intro node hopen
    rw [Search.begin, hopen]
    rfl
  ranks_of_rearranged := by
    intro a b h
    have hsame : Node.Same s a b := Node.same_of_rearranged h
    exact hsame.ranks_eq hs

/-- The first images of the albums that have a keyword, with a condition that makes no sense beside
them; and the same with the children in another order and repeated. -/
theorem tree_answers_of_repeated_children :
    let image (name : String) : Image := Image.new name ["rome"] .epoch .epoch
    let album (rel : String) : Album := ⟨rel, .epoch, .epoch, [image "a.jpg", image "b.jpg"]⟩
    let s : Scope := ⟨Catalog.ofAlbums [album "trips", album "walks"] .empty, .literal, defaultOffset⟩
    s.Ordered ∧
      (Search.begin s (.any [.all [.keyword "rome", .albums], .absent])).toOption.map Search.ranks =
        some [0, 2] ∧
      (Search.begin s (.any [.absent, .all [.albums, .keyword "rome", .albums], .absent])).toOption.map
        Search.ranks = some [0, 2] := by
  intro image album s
  have hs : s.Ordered := ⟨⟨_, _, rfl⟩, by decide⟩
  have hranks : (Search.begin s (.any [.all [.keyword "rome", .albums], .absent])).toOption.map
      Search.ranks = some [0, 2] := by decide +kernel
  refine ⟨hs, hranks, ?_⟩
  have hinner : Node.Rearranges (.any [.all [.keyword "rome", .albums], .absent])
      (.any [.all [.albums, .keyword "rome", .albums], .absent]) :=
    .inAny [] [.absent] (.all fun node => by simp [or_comm])
  have houter : Node.Rearranges (.any [.all [.albums, .keyword "rome", .albums], .absent])
      (.any [.absent, .all [.albums, .keyword "rome", .albums], .absent]) :=
    .any fun node => by simp [or_comm]
  rw [← hranks]
  exact ((tree_answers hs).ranks_of_rearranged _ _ ((Relation.ReflTransGen.single hinner).tail
    houter)).symm

end Query
end AlbumIndex
