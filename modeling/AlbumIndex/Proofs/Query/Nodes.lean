import AlbumIndex.Proofs.Catalog.Lookup
import AlbumIndex.Proofs.Cursor.Meaning
import AlbumIndex.Proofs.Outcomes
import AlbumIndex.Proofs.Query.Period
import AlbumIndex.Query.Search
import Mathlib.Data.List.Forall2

/-!
# What the nodes of a query mean

A node is a condition on images, and the cursor that it opens has to give the ranks of the images
that fulfil it.  There are four kinds of leaves, and each ascends for a reason of its own: the lists
of the tables by the order of the registrations, the walks over albums and images because images are
numbered in that order.  Above the leaves the cursors meet and join, which the algebra of cursors
takes care of, except for a node that has no cursor at all.  No image fulfils such a condition, so
it makes a meeting empty and adds nothing to a joining.

The order of the ranks is lost where a keyword is looked up in the two tables one after the other,
so that mode is left out here.

## Main definitions

* `Node.Holds` — an image fulfils a condition.
* `Scope.Ordered` — a scope over a catalog of albums, in a mode that keeps the order of the ranks.
* `Catalog.Selects` — a cursor, if there is one, gives the ranks of the images of a property.

## Main results

* `Node.open_selects` — **the cursor of a node gives the ranks of the images that fulfil it.**
-/

namespace AlbumIndex

open Text

/-- The image is registered under the key, in one of the tables that the mode looks at. -/
def Image.HasKey (mode : Query.KeywordMode) (image : Image) (key : String) : Prop :=
  image.IsLiteralKey key ∨ (mode ≠ .literal ∧ image.IsSubKey key)

/-- The image is registered under the name as a whole, or under all of its words. -/
def Image.HasName (image : Image) (name : String) : Prop :=
  image.IsLiteralKey name ∨
    (words name.toList ≠ [] ∧ ∀ w ∈ words name.toList, image.IsLiteralKey (String.ofList w))

namespace Query

open Calendar

/-! ### Conditions -/

/-- The image has a name of the person known under a name; a name that nobody has is a keyword. -/
def Scope.ShowsPerson (s : Scope) (name : String) (image : Image) : Prop :=
  match s.catalog.people.lookup? name with
  | none => image.HasKey s.mode name
  | some names => ∃ other ∈ names, image.HasName other

mutual

/-- The image fulfils the condition. -/
def Node.Holds (s : Scope) : Node → ImageRef → Prop
  | .absent, _ => False
  | .nothing, _ => False
  | .keyword k, ref => ref.image.HasKey s.mode k
  | .wholeKeyword k, ref => ref.image.IsLiteralKey k
  | .person name, ref => s.ShowsPerson name ref.image
  | .album rel, ref => s.catalog.albumIndex? rel = some ref.location.album
  | .albums, ref => ref.location.position = 0
  | .year token, ref => InPeriod (yearPeriod? s.offset token) ref.image.itemTime
  | .yearRange token, ref => InPeriod (yearRangePeriod? s.offset token) ref.image.itemTime
  | .month token, ref => InPeriod (monthPeriod? s.offset token) ref.image.itemTime
  | .day token, ref =>
    ∃ period, dayPeriod s.offset token = .ok period ∧ InPeriod period ref.image.itemTime
  | .within span, ref => span.contains ref.image.itemTime = true
  | .keywordCount token, ref =>
    readNat? maxCount (trim token.toList) = some ref.image.keywords.length
  | .stereo, ref => ref.image.stereo.isSome = true
  | .without keywords, ref => ∀ k ∈ keywords, ref.image.hasKeyword k = false
  | .all nodes, ref => nodes ≠ [] ∧ Node.HoldAll s nodes ref
  | .any nodes, ref => Node.HoldsAny s nodes ref

/-- The image fulfils all of the conditions. -/
def Node.HoldAll (s : Scope) : List Node → ImageRef → Prop
  | [], _ => True
  | node :: nodes, ref => node.Holds s ref ∧ Node.HoldAll s nodes ref

/-- The image fulfils one of the conditions. -/
def Node.HoldsAny (s : Scope) : List Node → ImageRef → Prop
  | [], _ => False
  | node :: nodes, ref => node.Holds s ref ∨ Node.HoldsAny s nodes ref

end

theorem Node.holdAll_iff {s : Scope} {nodes : List Node} {ref : ImageRef} :
    Node.HoldAll s nodes ref ↔ ∀ P ∈ nodes.map (Node.Holds s), P ref := by
  induction nodes with
  | nil => simp [HoldAll]
  | cons node nodes ih => rw [HoldAll, ih, List.map_cons, List.forall_mem_cons]

theorem Node.holdsAny_iff {s : Scope} {nodes : List Node} {ref : ImageRef} :
    Node.HoldsAny s nodes ref ↔ ∃ P ∈ nodes.map (Node.Holds s), P ref := by
  induction nodes with
  | nil => simp [HoldsAny]
  | cons node nodes ih => rw [HoldsAny, ih, List.map_cons, List.exists_mem_cons_iff]

/-! ### Cursors that select -/

/-- A scope over a catalog of albums, in a mode that keeps the order of the ranks. -/
structure Scope.Ordered (s : Scope) : Prop where
  built : ∃ albums people, s.catalog = Catalog.ofAlbums albums people
  mode_ne : s.mode ≠ .priority

/-- The cursor, if there is one, ascends and gives the ranks of exactly the images of the property.
-/
structure Scope.Selects (s : Scope) (cursor : Option Cursor) (P : ImageRef → Prop) : Prop where
  ascending : ∀ x, cursor = some x → x.Ascending
  known : ∀ x, cursor = some x → ∀ r, x.Gives r → ∃ ref, s.catalog.ref? r = some ref
  gives_iff : ∀ r ref, s.catalog.ref? r = some ref → ((∃ x, cursor = some x ∧ x.Gives r) ↔ P ref)

namespace Scope

variable {s : Scope} {P Q : ImageRef → Prop}

/-- Only the images of the catalog count. -/
theorem Selects.congr {cursor : Option Cursor} (h : s.Selects cursor P)
    (heq : ∀ r ref, s.catalog.ref? r = some ref → (P ref ↔ Q ref)) : s.Selects cursor Q where
  ascending := h.ascending
  known := h.known
  gives_iff := by
    intro r ref hr
    rw [h.gives_iff r ref hr, heq r ref hr]

theorem Selects.some_gives_iff {x : Cursor} (h : s.Selects (some x) P) {r : Rank} {ref : ImageRef}
    (hr : s.catalog.ref? r = some ref) : x.Gives r ↔ P ref := by
  rw [← h.gives_iff r ref hr]
  constructor
  · exact fun hx => ⟨x, rfl, hx⟩
  · intro hex
    obtain ⟨y, hy, hg⟩ := hex
    rwa [Option.some.inj hy]

theorem selects_some {x : Cursor} (hasc : x.Ascending)
    (hknown : ∀ r, x.Gives r → ∃ ref, s.catalog.ref? r = some ref)
    (hg : ∀ r ref, s.catalog.ref? r = some ref → (x.Gives r ↔ P ref)) : s.Selects (some x) P where
  ascending := by
    intro y hy
    rwa [← Option.some.inj hy]
  known := by
    intro y hy
    rwa [← Option.some.inj hy]
  gives_iff := by
    intro r ref href
    rw [← hg r ref href]
    constructor
    · intro hex
      obtain ⟨y, hy, hr⟩ := hex
      rwa [Option.some.inj hy]
    · exact fun hr => ⟨x, rfl, hr⟩

theorem selects_none (h : ∀ r ref, s.catalog.ref? r = some ref → ¬ P ref) : s.Selects none P where
  ascending := nofun
  known := nofun
  gives_iff := by
    intro r ref href
    constructor
    · intro hex
      obtain ⟨y, hy, -⟩ := hex
      cases hy
    · exact fun hP => absurd hP (h r ref href)

/-! ### Leaves -/

theorem selects_leaf {walk : Leaf} (hasc : walk.ranks.Pairwise (· < ·))
    (hmem : ∀ r, r ∈ walk.ranks ↔ ∃ ref, s.catalog.ref? r = some ref ∧ P ref) :
    s.Selects (some (.leaf walk)) P := by
  refine selects_some ?_ (fun r hr => ?_) fun r ref href => ?_
  · rw [Cursor.Ascending]
    exact hasc
  · rw [Cursor.Gives, hmem r] at hr
    obtain ⟨ref, href, -⟩ := hr
    exact ⟨ref, href⟩
  · rw [Cursor.Gives, hmem r]
    constructor
    · intro hex
      -- a rank has one reference only
      obtain ⟨ref', href', hP⟩ := hex
      rwa [Option.some.inj (href.symm.trans href')]
    · exact fun hP => ⟨ref, href, hP⟩

/-- Images of the catalog are found by reference. -/
theorem Ordered.exists_image_iff (hs : s.Ordered) {r : Rank} {P : Image → Prop} :
    (∃ image, s.catalog.imageAt? r = some image ∧ P image) ↔
      ∃ ref, s.catalog.ref? r = some ref ∧ P ref.image := by
  obtain ⟨albums, people, hc⟩ := hs.built
  rw [hc, Catalog.imageAt?_eq_map_ref?]
  constructor
  · intro h
    obtain ⟨image, hi, hP⟩ := h
    obtain ⟨ref, href, rfl⟩ := Option.map_eq_some_iff.1 hi
    exact ⟨ref, href, hP⟩
  · intro h
    obtain ⟨ref, href, hP⟩ := h
    exact ⟨ref.image, Option.map_eq_some_iff.2 ⟨ref, href, rfl⟩, hP⟩

theorem Ordered.selects_postings (hs : s.Ordered) {ranks : List Rank} {P : Image → Prop}
    (hasc : ranks.Pairwise (· < ·))
    (hmem : ∀ r, r ∈ ranks ↔ ∃ image, s.catalog.imageAt? r = some image ∧ P image) :
    s.Selects (some (postings ranks)) fun ref => P ref.image :=
  selects_leaf hasc fun r => (hmem r).trans hs.exists_image_iff

theorem Ordered.selects_wholeKeyword (hs : s.Ordered) (k : String) :
    s.Selects (some (postings (s.wholeKeywordRanks k))) fun ref => ref.image.IsLiteralKey k := by
  obtain ⟨albums, people, hc⟩ := hs.built
  have hlists := Catalog.lists_literal albums people k
  rw [← hc] at hlists
  exact hs.selects_postings (P := fun image => image.IsLiteralKey k) hlists.pairwise_getD
    hlists.mem_getD

/-- In the order of the ranks, a keyword of both modes is looked up in the merged tables. -/
theorem keywordRanks_ranked (hm : s.mode = .ranked) (k : String) :
    s.keywordRanks k = s.catalog.index.imagesRanked k := by
  simp only [keywordRanks, hm, Index.imagesRanked, Postings.ranksOf]
  split
  · next hl hs => rw [hl, hs, Option.getD_none, mergeRanks_nil_right, Option.getD_some]
  · next hl hs => rw [hl, hs, Option.getD_none, mergeRanks_nil_left, Option.getD_some]
  · next hl hs => rw [hl, hs, Option.getD_none, mergeRanks_nil_left]
  · rfl

theorem Ordered.selects_keyword (hs : s.Ordered) (k : String) :
    s.Selects (some (postings (s.keywordRanks k))) fun ref => ref.image.HasKey s.mode k := by
  cases hm : s.mode with
  | literal =>
    have hranks : s.keywordRanks k = s.wholeKeywordRanks k := by
      rw [keywordRanks, hm]
      rfl
    rw [hranks]
    refine (hs.selects_wholeKeyword k).congr fun r ref _ => ?_
    simp [Image.HasKey]
  | ranked =>
    obtain ⟨albums, people, hc⟩ := hs.built
    obtain ⟨hasc, hmem⟩ := Catalog.imagesRanked_spec albums people k
    rw [keywordRanks_ranked hm]
    rw [← hc] at hasc hmem
    refine (hs.selects_postings hasc hmem).congr fun r ref _ => ?_
    simp [Image.HasKey]
  | priority => exact absurd hm hs.mode_ne

theorem Ordered.selects_scan (hs : s.Ordered) (keep : Image → Bool) :
    s.Selects (some (s.scan keep)) fun ref => keep ref.image = true := by
  obtain ⟨albums, people, hc⟩ := hs.built
  refine selects_leaf ?_ fun r => ?_
  · rw [Leaf.ranks, List.pairwise_map, hc]
    exact Catalog.allImages_pairwise_rank.filter _
  · rw [← hs.exists_image_iff (P := fun image => keep image = true), Leaf.ranks, List.mem_map, hc]
    simp only [List.mem_filter, Catalog.imageAt?_eq_some_iff]
    constructor
    · intro h
      obtain ⟨image, ⟨hi, hk⟩, hr⟩ := h
      exact ⟨image, ⟨hi, hr⟩, hk⟩
    · intro h
      obtain ⟨image, ⟨hi, hr⟩, hk⟩ := h
      exact ⟨image, ⟨hi, hk⟩, hr⟩

/-- A period that there is not selects nothing. -/
theorem Ordered.selects_period (hs : s.Ordered) (period : Option Span) :
    s.Selects (s.period period) fun ref => InPeriod period ref.image.itemTime := by
  cases period with
  | none =>
    refine selects_none fun r ref _ => ?_
    intro h
    obtain ⟨span, hspan, -⟩ := h
    cases hspan
  | some span =>
    refine (hs.selects_scan fun image => span.contains image.itemTime).congr fun r ref _ => ?_
    simp [InPeriod]

/-- The ranks go up from album to album, and inside each. -/
theorem Ordered.pairwise_albums (hs : s.Ordered) :
    (∀ album ∈ s.catalog.albums, album.images.Pairwise fun a b => a.rank < b.rank) ∧
      s.catalog.albums.Pairwise fun a b => ∀ x ∈ a.images, ∀ y ∈ b.images, x.rank < y.rank := by
  obtain ⟨albums, people, hc⟩ := hs.built
  rw [hc]
  exact List.pairwise_flatMap.1 Catalog.allImages_pairwise_rank

theorem Ordered.selects_firsts (hs : s.Ordered) :
    s.Selects (some (.leaf (.firsts s.catalog.albums))) fun ref => ref.location.position = 0 := by
  refine selects_leaf ?_ fun r => ?_
  · rw [Leaf.ranks, List.pairwise_filterMap]
    refine hs.pairwise_albums.2.imp fun {a b} hab x hx y hy => ?_
    obtain ⟨image, hi, rfl⟩ := Option.map_eq_some_iff.1 hx
    obtain ⟨image', hi', rfl⟩ := Option.map_eq_some_iff.1 hy
    exact hab image (List.mem_of_mem_head? hi) image' (List.mem_of_mem_head? hi')
  · obtain ⟨albums, people, hc⟩ := hs.built
    rw [Leaf.ranks, List.mem_filterMap, hc]
    constructor
    · intro h
      obtain ⟨album, ha, hr⟩ := h
      obtain ⟨d, hd⟩ := List.mem_iff_getElem?.1 ha
      obtain ⟨image, hi, rfl⟩ := Option.map_eq_some_iff.1 hr
      rw [List.head?_eq_getElem?] at hi
      exact ⟨⟨⟨d, 0⟩, album, image⟩, Catalog.ref?_eq_some_iff.2 ⟨hd, hi, rfl⟩, rfl⟩
    · intro h
      obtain ⟨ref, href, hpos⟩ := h
      obtain ⟨hd, hi, hr⟩ := Catalog.ref?_eq_some_iff.1 href
      rw [hpos, ← List.head?_eq_getElem?] at hi
      exact ⟨ref.album, List.mem_of_getElem? hd, Option.map_eq_some_iff.2 ⟨ref.image, hi, hr⟩⟩

theorem Ordered.selects_contents (hs : s.Ordered) (d : Nat) :
    s.Selects (some (.leaf (.contents ((s.catalog.albums[d]?.map Album.images).getD []))))
      fun ref => ref.location.album = d := by
  refine selects_leaf ?_ fun r => ?_
  · rw [Leaf.ranks, List.pairwise_map]
    cases hd : s.catalog.albums[d]? with
    | none => exact List.Pairwise.nil
    | some album => exact hs.pairwise_albums.1 album (List.mem_of_getElem? hd)
  · obtain ⟨albums, people, hc⟩ := hs.built
    rw [Leaf.ranks, List.mem_map, hc]
    constructor
    · intro h
      obtain ⟨image, hi, hr⟩ := h
      cases hd : (Catalog.ofAlbums albums people).albums[d]? with
      | none =>
        rw [hd] at hi
        cases hi
      | some album =>
        rw [hd] at hi
        obtain ⟨p, hp⟩ := List.mem_iff_getElem?.1 hi
        exact ⟨⟨⟨d, p⟩, album, image⟩, Catalog.ref?_eq_some_iff.2 ⟨hd, hp, hr⟩, rfl⟩
    · intro h
      obtain ⟨ref, href, rfl⟩ := h
      obtain ⟨hd, hi, hr⟩ := Catalog.ref?_eq_some_iff.1 href
      rw [hd]
      exact ⟨ref.image, List.mem_of_getElem? hi, hr⟩

/-! ### Meetings and joinings -/

/-- All cursors of a meeting, if all are there; otherwise no image has all properties. -/
theorem allPresent_spec {cs : List (Option Cursor)} {Ps : List (ImageRef → Prop)}
    (h : List.Forall₂ s.Selects cs Ps) :
    match allPresent cs with
    | none => ∀ r ref, s.catalog.ref? r = some ref → ¬ ∀ P ∈ Ps, P ref
    | some xs => List.Forall₂ s.Selects (xs.map some) Ps := by
  induction h with
  | nil => exact List.Forall₂.nil
  | @cons c P cs Ps hc hcs ih =>
    cases c with
    | none =>
      -- a missing cursor selects nothing
      intro r ref href hall
      obtain ⟨x, hx, -⟩ := (hc.gives_iff r ref href).2 (hall P List.mem_cons_self)
      cases hx
    | some x =>
      rw [allPresent]
      cases hxs : allPresent cs with
      | none =>
        rw [hxs] at ih
        intro r ref href hall
        exact ih r ref href fun Q hQ => hall Q (List.mem_cons_of_mem P hQ)
      | some xs =>
        rw [hxs] at ih
        exact List.Forall₂.cons hc ih

/-- The cursors of a joining without the missing ones. -/
theorem filterMap_spec {cs : List (Option Cursor)} {Ps : List (ImageRef → Prop)}
    (h : List.Forall₂ s.Selects cs Ps) :
    ∃ Qs, List.Forall₂ s.Selects ((cs.filterMap id).map some) Qs ∧
      ∀ r ref, s.catalog.ref? r = some ref → ((∃ Q ∈ Qs, Q ref) ↔ ∃ P ∈ Ps, P ref) := by
  induction h with
  | nil => exact ⟨[], List.Forall₂.nil, fun r ref _ => Iff.rfl⟩
  | @cons c P cs Ps hc hcs ih =>
    obtain ⟨Qs, hQs, heq⟩ := ih
    cases c with
    | none =>
      -- the property of a missing cursor holds of no image, so it may be left out
      refine ⟨Qs, hQs, fun r ref href => ?_⟩
      have hnot : ¬ P ref := by
        intro hP
        obtain ⟨x, hx, -⟩ := (hc.gives_iff r ref href).2 hP
        cases hx
      rw [heq r ref href, List.exists_mem_cons_iff, or_iff_right hnot]
    | some x =>
      refine ⟨P :: Qs, List.Forall₂.cons hc hQs, fun r ref href => ?_⟩
      rw [List.exists_mem_cons_iff, List.exists_mem_cons_iff, heq r ref href]

section Present

variable {xs : List Cursor} {Ps : List (ImageRef → Prop)}

theorem allAscending_of_selects (h : List.Forall₂ s.Selects (xs.map some) Ps) :
    Cursor.AllAscending xs := by
  induction xs generalizing Ps with
  | nil =>
    rw [Cursor.AllAscending]
    trivial
  | cons x xs ih =>
    obtain ⟨P, Qs, hx, hxs, rfl⟩ := List.forall₂_cons_left_iff.1 h
    rw [Cursor.AllAscending]
    exact ⟨hx.ascending x rfl, ih hxs⟩

theorem allGive_iff (h : List.Forall₂ s.Selects (xs.map some) Ps) {r : Rank} {ref : ImageRef}
    (href : s.catalog.ref? r = some ref) : Cursor.AllGive xs r ↔ ∀ P ∈ Ps, P ref := by
  induction xs generalizing Ps with
  | nil =>
    obtain rfl := List.forall₂_nil_left_iff.1 h
    simp [Cursor.AllGive]
  | cons x xs ih =>
    obtain ⟨P, Qs, hx, hxs, rfl⟩ := List.forall₂_cons_left_iff.1 h
    rw [Cursor.AllGive, ih hxs, hx.some_gives_iff href, List.forall_mem_cons]

theorem anyGives_iff (h : List.Forall₂ s.Selects (xs.map some) Ps) {r : Rank} {ref : ImageRef}
    (href : s.catalog.ref? r = some ref) : Cursor.AnyGives xs r ↔ ∃ P ∈ Ps, P ref := by
  induction xs generalizing Ps with
  | nil =>
    obtain rfl := List.forall₂_nil_left_iff.1 h
    simp [Cursor.AnyGives]
  | cons x xs ih =>
    obtain ⟨P, Qs, hx, hxs, rfl⟩ := List.forall₂_cons_left_iff.1 h
    rw [Cursor.AnyGives, ih hxs, hx.some_gives_iff href, List.exists_mem_cons_iff]

theorem known_of_anyGives (h : List.Forall₂ s.Selects (xs.map some) Ps) {r : Rank}
    (hr : Cursor.AnyGives xs r) : ∃ ref, s.catalog.ref? r = some ref := by
  induction xs generalizing Ps with
  | nil =>
    rw [Cursor.AnyGives] at hr
    exact hr.elim
  | cons x xs ih =>
    obtain ⟨P, Qs, hx, hxs, rfl⟩ := List.forall₂_cons_left_iff.1 h
    rw [Cursor.AnyGives] at hr
    rcases hr with hr | hr
    · exact hx.known x rfl r hr
    · exact ih hxs hr

end Present

theorem selects_meetAll {xs : List Cursor} {Ps : List (ImageRef → Prop)}
    (h : List.Forall₂ s.Selects (xs.map some) Ps) :
    s.Selects (meetAll xs) fun ref => Ps ≠ [] ∧ ∀ P ∈ Ps, P ref := by
  cases xs with
  | nil =>
    obtain rfl := List.forall₂_nil_left_iff.1 h
    exact selects_none fun r ref _ hall => hall.1 rfl
  | cons x xs =>
    obtain ⟨P, Qs, hx, hxs, rfl⟩ := List.forall₂_cons_left_iff.1 h
    cases xs with
    | nil =>
      obtain rfl := List.forall₂_nil_left_iff.1 hxs
      exact hx.congr fun r ref _ => by simp
    | cons y ys =>
      refine selects_some ?_ (fun r hr => ?_) fun r ref href => ?_
      · rw [Cursor.Ascending]
        exact ⟨hx.ascending x rfl, allAscending_of_selects hxs⟩
      · rw [Cursor.Gives] at hr
        exact hx.known x rfl r hr.1
      · rw [Cursor.Gives, hx.some_gives_iff href, allGive_iff hxs href, List.forall_mem_cons]
        exact (and_iff_right (List.cons_ne_nil P Qs)).symm

/-- **A meeting selects the images of all properties**, if there is one at all. -/
theorem selects_meetNodes {cs : List (Option Cursor)} {Ps : List (ImageRef → Prop)}
    (h : List.Forall₂ s.Selects cs Ps) :
    s.Selects (meetNodes cs) fun ref => Ps ≠ [] ∧ ∀ P ∈ Ps, P ref := by
  have hspec := allPresent_spec h
  rw [meetNodes]
  cases hxs : allPresent cs with
  | none =>
    rw [hxs] at hspec
    exact selects_none fun r ref href hall => hspec r ref href hall.2
  | some xs =>
    rw [hxs] at hspec
    exact selects_meetAll hspec

theorem selects_joinAll {xs : List Cursor} {Ps : List (ImageRef → Prop)}
    (h : List.Forall₂ s.Selects (xs.map some) Ps) :
    s.Selects (joinAll xs) fun ref => ∃ P ∈ Ps, P ref := by
  cases xs with
  | nil =>
    obtain rfl := List.forall₂_nil_left_iff.1 h
    refine selects_none fun r ref _ => ?_
    intro hex
    obtain ⟨P, hP, -⟩ := hex
    cases hP
  | cons x xs =>
    cases xs with
    | nil =>
      obtain ⟨P, Qs, hx, hxs, rfl⟩ := List.forall₂_cons_left_iff.1 h
      obtain rfl := List.forall₂_nil_left_iff.1 hxs
      exact hx.congr fun r ref _ => by simp
    | cons y ys =>
      refine selects_some ?_ (fun r hr => ?_) fun r ref href => ?_
      · rw [Cursor.Ascending]
        exact allAscending_of_selects h
      · rw [Cursor.Gives] at hr
        exact known_of_anyGives h hr
      · rw [Cursor.Gives, anyGives_iff h href]

/-- **A joining selects the images of one of the properties**; cursors that are missing are passed
over. -/
theorem selects_joinNodes {cs : List (Option Cursor)} {Ps : List (ImageRef → Prop)}
    (h : List.Forall₂ s.Selects cs Ps) : s.Selects (joinNodes cs) fun ref => ∃ P ∈ Ps, P ref := by
  obtain ⟨Qs, hQs, heq⟩ := filterMap_spec h
  exact (selects_joinAll hQs).congr heq

/-! ### Names -/

theorem Ordered.selects_alias (hs : s.Ordered) (name : String) :
    ∃ P Q, List.Forall₂ s.Selects (s.alias name) [P, Q] ∧
      ∀ ref, (P ref ∨ Q ref) ↔ ref.image.HasName name := by
  have hwords : List.Forall₂ s.Selects
      ((words name.toList).map fun w => some (postings (s.wholeKeywordRanks (String.ofList w))))
      ((words name.toList).map fun w ref => ref.image.IsLiteralKey (String.ofList w)) := by
    rw [List.forall₂_map_left_iff, List.forall₂_map_right_iff, List.forall₂_same]
    exact fun w _ => hs.selects_wholeKeyword (String.ofList w)
  refine ⟨_, _, List.Forall₂.cons (hs.selects_wholeKeyword name)
    (List.Forall₂.cons (selects_meetNodes hwords) List.Forall₂.nil), fun ref => ?_⟩
  simp [Image.HasName]

theorem Ordered.selects_aliases (hs : s.Ordered) (names : List String) :
    ∃ Ps, List.Forall₂ s.Selects (names.flatMap s.alias) Ps ∧
      ∀ ref, (∃ P ∈ Ps, P ref) ↔ ∃ name ∈ names, ref.image.HasName name := by
  induction names with
  | nil => exact ⟨[], List.Forall₂.nil, fun ref => by simp⟩
  | cons name names ih =>
    obtain ⟨Ps, hPs, heq⟩ := ih
    obtain ⟨P, Q, hPQ, hname⟩ := hs.selects_alias name
    refine ⟨[P, Q] ++ Ps, ?_, fun ref => ?_⟩
    · rw [List.flatMap_cons]
      exact List.rel_append hPQ hPs
    · rw [List.exists_mem_cons_iff, ← heq ref, ← hname ref]
      simp [or_assoc]

theorem Ordered.selects_person (hs : s.Ordered) (name : String) :
    s.Selects (s.person name) fun ref => s.ShowsPerson name ref.image := by
  unfold person ShowsPerson
  cases s.catalog.people.lookup? name with
  | none => exact hs.selects_keyword name
  | some names =>
    obtain ⟨Ps, hPs, heq⟩ := hs.selects_aliases names
    exact (selects_joinNodes hPs).congr fun r ref _ => heq ref

end Scope

/-! ### Nodes -/

theorem Node.exists_of_openAll_cons_eq_ok {s : Scope} {node : Node} {nodes : List Node}
    {cs : List (Option Cursor)} (h : Node.openAll s (node :: nodes) = .ok cs) :
    ∃ c rest, node.open s = .ok c ∧ Node.openAll s nodes = .ok rest ∧ c :: rest = cs := by
  rw [Node.openAll] at h
  cases hc : node.open s with
  | error e =>
    rw [hc] at h
    cases h
  | ok c =>
    cases hcs : Node.openAll s nodes with
    | error e =>
      rw [hc, hcs] at h
      cases h
    | ok rest =>
      rw [hc, hcs] at h
      exact ⟨c, rest, rfl, rfl, Except.ok.inj h⟩

section Opening

variable {s : Scope} {nodes : List Node}

/-- The nodes of a list are opened one by one. -/
theorem Node.openAll_eq_ok_iff {cs : List (Option Cursor)} :
    Node.openAll s nodes = .ok cs ↔ nodes.map (Node.open s) = cs.map .ok := by
  induction nodes generalizing cs with
  | nil => cases cs <;> simp [Node.openAll]
  | cons node nodes ih =>
    rw [List.map_cons]
    constructor
    · intro h
      obtain ⟨c, rest, hc, hrest, rfl⟩ := Node.exists_of_openAll_cons_eq_ok h
      rw [List.map_cons, hc, ih.1 hrest]
    · intro h
      obtain ⟨c, rest, rfl, hc, hrest⟩ := List.map_eq_cons_iff.1 h.symm
      rw [Node.openAll, ← hc, ih.2 hrest.symm]
      rfl

theorem Node.exists_openAll_iff :
    (∃ cs, Node.openAll s nodes = .ok cs) ↔ ∀ node ∈ nodes, ∃ c, node.open s = .ok c := by
  simp only [Node.openAll_eq_ok_iff, exists_map_ok_iff]

theorem Node.exists_all_open_iff :
    (∃ c, (Node.all nodes).open s = .ok c) ↔ ∀ node ∈ nodes, ∃ c, node.open s = .ok c := by
  simp only [Node.open, exists_map_eq_ok_iff, Node.exists_openAll_iff]

theorem Node.exists_any_open_iff :
    (∃ c, (Node.any nodes).open s = .ok c) ↔ ∀ node ∈ nodes, ∃ c, node.open s = .ok c := by
  simp only [Node.open, exists_map_eq_ok_iff, Node.exists_openAll_iff]

end Opening

mutual

/-- **The cursor of a node gives the ranks of the images that fulfil it.**  The induction is on the
tree of conditions. -/
theorem Node.open_selects {s : Scope} (hs : s.Ordered) : ∀ (node : Node) (cursor : Option Cursor),
    node.open s = .ok cursor → s.Selects cursor (node.Holds s)
  | .absent, _, h => by
    obtain rfl := Except.ok.inj h
    exact Scope.selects_none fun r ref _ hP => hP
  | .nothing, _, h => by
    obtain rfl := Except.ok.inj h
    refine Scope.selects_leaf List.Pairwise.nil fun r => ?_
    simp [Leaf.ranks, Node.Holds]
  | .keyword k, _, h => by
    obtain rfl := Except.ok.inj h
    exact hs.selects_keyword k
  | .wholeKeyword k, _, h => by
    obtain rfl := Except.ok.inj h
    exact hs.selects_wholeKeyword k
  | .person name, _, h => by
    obtain rfl := Except.ok.inj h
    exact hs.selects_person name
  | .album rel, _, h => by
    obtain rfl := Except.ok.inj h
    cases hd : s.catalog.albumIndex? rel with
    | none =>
      refine Scope.selects_none fun r ref _ hP => ?_
      rw [Node.Holds, hd] at hP
      cases hP
    | some d =>
      refine (hs.selects_contents d).congr fun r ref _ => ?_
      rw [Node.Holds, hd, Option.some.injEq, eq_comm]
  | .albums, _, h => by
    obtain rfl := Except.ok.inj h
    exact hs.selects_firsts
  | .year token, _, h => by
    obtain rfl := Except.ok.inj h
    exact hs.selects_period _
  | .yearRange token, _, h => by
    obtain rfl := Except.ok.inj h
    exact hs.selects_period _
  | .month token, _, h => by
    obtain rfl := Except.ok.inj h
    exact hs.selects_period _
  | .day token, _, h => by
    rw [Node.open] at h
    obtain ⟨period, hday, rfl⟩ := map_eq_ok_iff.1 h
    refine (hs.selects_period period).congr fun r ref _ => ?_
    simp [Node.Holds, hday]
  | .within span, _, h => by
    obtain rfl := Except.ok.inj h
    refine (hs.selects_period (some span)).congr fun r ref _ => ?_
    simp [Node.Holds, InPeriod]
  | .keywordCount token, _, h => by
    obtain rfl := Except.ok.inj h
    cases hn : readNat? maxCount (trim token.toList) with
    | none =>
      refine Scope.selects_none fun r ref _ hP => ?_
      rw [Node.Holds, hn] at hP
      cases hP
    | some n =>
      refine (hs.selects_scan fun image => image.keywords.length == n).congr fun r ref _ => ?_
      rw [Node.Holds, hn, beq_iff_eq, Option.some.injEq, eq_comm]
  | .stereo, _, h => by
    obtain rfl := Except.ok.inj h
    exact hs.selects_scan fun image => image.stereo.isSome
  | .without keywords, _, h => by
    obtain rfl := Except.ok.inj h
    refine (hs.selects_scan fun image => !(keywords.any fun k => image.hasKeyword k)).congr
      fun r ref _ => ?_
    simp [Node.Holds]
  | .all nodes, _, h => by
    rw [Node.open] at h
    obtain ⟨cs, hcs, rfl⟩ := map_eq_ok_iff.1 h
    refine (Scope.selects_meetNodes (Node.openAll_selects hs nodes cs hcs)).congr fun r ref _ => ?_
    rw [Node.Holds, Node.holdAll_iff, ne_eq, List.map_eq_nil_iff]
  | .any nodes, _, h => by
    rw [Node.open] at h
    obtain ⟨cs, hcs, rfl⟩ := map_eq_ok_iff.1 h
    refine (Scope.selects_joinNodes (Node.openAll_selects hs nodes cs hcs)).congr fun r ref _ => ?_
    rw [Node.Holds, Node.holdsAny_iff]

theorem Node.openAll_selects {s : Scope} (hs : s.Ordered) : ∀ (nodes : List Node)
    (cs : List (Option Cursor)), Node.openAll s nodes = .ok cs →
      List.Forall₂ s.Selects cs (nodes.map (Node.Holds s))
  | [], _, h => by
    obtain rfl := Except.ok.inj h
    exact List.Forall₂.nil
  | node :: nodes, _, h => by
    obtain ⟨c, cs, hc, hcs, rfl⟩ := Node.exists_of_openAll_cons_eq_ok h
    exact List.Forall₂.cons (Node.open_selects hs node c hc) (Node.openAll_selects hs nodes cs hcs)

end

end Query
end AlbumIndex
