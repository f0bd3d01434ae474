import AlbumIndex.Proofs.Cursor.Unordered
import AlbumIndex.Proofs.Query.Draining
import Mathlib.Data.List.Induction
import Mathlib.Data.List.Nodup

/-!
# The ways to look a keyword up

A keyword is looked up in two tables, and there are three ways to put the two lists together: to
merge them in the order of the ranks; to put one behind the other and keep the first rank of each
identity; and to open a condition on the keyword, which skips the merging where one of the lists is
missing.  The first two drop what they have had already, but by different measures: the merging
drops a rank that comes twice, the other way drops every image whose identity has come before.  As
long as no two images share an identity, that is the same, and both ways find the same images.

## Main definitions

* `Index.firstOfEach` — the first rank of each identity in a row.
* `Node.Yields` — a condition by itself gives a row of ranks.
* `Catalog.LookupsAgree` — what the three ways have to do with each other.

## Main results

* `Index.newIdentities_eq` — the loop over a row keeps the first rank of each identity.
* `Catalog.images_perm` — without shared identities both ways find the same ranks.
* `Node.yields_keyword` — a condition on a keyword gives its list, whatever its order.
* `Catalog.lookups_agree` — **the ways to look a keyword up agree.**
-/

namespace AlbumIndex

/-! ### The first rank of each identity -/

namespace Index

/-- The ranks of a row whose identity none of the ranks before them has. -/
def firstOfEach (index : Index) (ranks : List Rank) : List Rank :=
  (ranks.zipIdx.filter fun entry =>
    (ranks.take entry.2).all fun earlier => index.idOf? earlier != index.idOf? entry.1).map Prod.fst

variable (index : Index) (ranks : List Rank) (r : Rank)

/-- Another rank at the end is kept if its identity is new. -/
theorem firstOfEach_concat : index.firstOfEach (ranks ++ [r]) =
    index.firstOfEach ranks ++ if index.idOf? r ∈ ranks.map index.idOf? then [] else [r] := by
  have hfront : (ranks.zipIdx.filter fun entry => ((ranks ++ [r]).take entry.2).all fun earlier =>
        index.idOf? earlier != index.idOf? entry.1) =
      ranks.zipIdx.filter fun entry => (ranks.take entry.2).all fun earlier =>
        index.idOf? earlier != index.idOf? entry.1 := by
    refine List.filter_congr fun entry hentry => ?_
    -- what stands before an entry of the row is not at its end
    have hlt := (List.mem_zipIdx hentry).2.1
    rw [List.take_append_of_le_length (by omega)]
  have hlast : ((ranks ++ [r]).take ranks.length).all
      (fun earlier => index.idOf? earlier != index.idOf? r) =
        decide (index.idOf? r ∉ ranks.map index.idOf?) := by
    rw [List.take_left, Bool.eq_iff_iff]
    simp
  rw [firstOfEach, List.zipIdx_append, List.filter_append, List.map_append, hfront, firstOfEach,
    Nat.zero_add, List.zipIdx_singleton, List.filter_singleton, hlast]
  by_cases hold : index.idOf? r ∈ ranks.map index.idOf?
  · simp [hold]
  · simp [hold]

theorem firstOfEach_sublist : (index.firstOfEach ranks).Sublist ranks := by
  have hsub := (List.filter_sublist (p := fun entry : Rank × Nat =>
    (ranks.take entry.2).all fun earlier => index.idOf? earlier != index.idOf? entry.1)
    (l := ranks.zipIdx)).map Prod.fst
  rwa [List.zipIdx_map_fst] at hsub

theorem nodup_firstOfEach : ((index.firstOfEach ranks).map index.idOf?).Nodup := by
  induction ranks using List.reverseRecOn with
  | nil => exact List.nodup_nil
  | append_singleton ranks r ih =>
    rw [firstOfEach_concat]
    split
    · rwa [List.append_nil]
    · next hnew =>
      rw [List.map_append, List.nodup_append]
      refine ⟨ih, List.nodup_singleton _, fun a ha b hb => ?_⟩
      obtain rfl := List.mem_singleton.1 hb
      rintro rfl
      exact hnew (((index.firstOfEach_sublist ranks).map index.idOf?).subset ha)

theorem mem_map_firstOfEach (id : Option ImageId) :
    id ∈ (index.firstOfEach ranks).map index.idOf? ↔ id ∈ ranks.map index.idOf? := by
  induction ranks using List.reverseRecOn with
  | nil => rfl
  | append_singleton ranks r ih =>
    rw [firstOfEach_concat, List.map_append, List.map_append, List.mem_append, List.mem_append, ih]
    split
    · next hold =>
      -- the identity of the last rank has come before
      refine or_congr_right' fun hnew => ?_
      simp only [List.map_nil, List.not_mem_nil, List.map_singleton, List.mem_singleton, false_iff]
      rintro rfl
      exact hnew hold
    · rfl

/-- The loop over a row, one rank further. -/
theorem newIdentities_concat (seen : List (Option ImageId)) :
    index.newIdentities seen (ranks ++ [r]) = index.newIdentities seen ranks ++
      if index.idOf? r ∈ seen ∨ index.idOf? r ∈ ranks.map index.idOf? then [] else [r] := by
  induction ranks generalizing seen with
  | nil => simp [newIdentities]
  | cons first ranks ih =>
    rw [List.cons_append, newIdentities, newIdentities, ih, ih, List.map_cons]
    by_cases hfirst : index.idOf? first ∈ seen
    · rw [if_pos hfirst, if_pos hfirst]
      congr 1
      refine if_congr ?_ rfl rfl
      grind
    · rw [if_neg hfirst, if_neg hfirst, List.cons_append]
      congr 2
      refine if_congr ?_ rfl rfl
      grind

/-- **The loop over a row keeps the first rank of each identity.** -/
theorem newIdentities_eq : index.newIdentities [] ranks = index.firstOfEach ranks := by
  induction ranks using List.reverseRecOn with
  | nil => rfl
  | append_singleton ranks r ih =>
    rw [newIdentities_concat, firstOfEach_concat, ih]
    simp

/-! ### The two lists of a keyword -/

variable (k : String)

theorem images_eq : index.images k =
    index.firstOfEach (index.literal.ranksOf k ++ index.sub.ranksOf k) :=
  index.newIdentities_eq _

theorem mem_imagesRanked :
    r ∈ index.imagesRanked k ↔ r ∈ index.literal.ranksOf k ∨ r ∈ index.sub.ranksOf k :=
  mem_mergeRanks _ _ r

theorem images_subset : index.images k ⊆ index.imagesRanked k := by
  intro r hr
  rw [images_eq] at hr
  rw [mem_imagesRanked, ← List.mem_append]
  exact (index.firstOfEach_sublist _).subset hr

theorem nodup_images : ((index.images k).map index.idOf?).Nodup := by
  rw [images_eq]
  exact index.nodup_firstOfEach _

/-- Both ways find the same identities. -/
theorem mem_map_images (id : Option ImageId) :
    id ∈ (index.images k).map index.idOf? ↔ id ∈ (index.imagesRanked k).map index.idOf? := by
  rw [images_eq, mem_map_firstOfEach]
  simp only [List.mem_map, List.mem_append, mem_imagesRanked]

end Index

/-! ### Conditions on a keyword -/

namespace Query

open Calendar

/-- By itself, the condition gives the ranks of the row in their order, one with every pull, and then
nothing. -/
def Node.Yields (s : Scope) (node : Node) (ranks : List Rank) : Prop :=
  ∃ search, Search.begin s node = .ok search ∧ search.ranks = ranks ∧
    ∀ n, Search.answer Search.nextRank search n = ranks[n]?

theorem Leaf.length_ranks_le (walk : Leaf) : walk.ranks.length ≤ walk.weight := by
  cases walk with
  | postings ranks => exact Nat.le_refl _
  | firsts albums => exact List.length_filterMap_le _ albums
  | contents rest => exact Nat.le_of_eq (List.length_map _)
  | scan keep rest =>
    rw [Leaf.ranks, List.length_map]
    exact List.length_filter_le keep rest

theorem Cursor.take_leaf (walk : Leaf) (n : Nat) :
    (Cursor.leaf walk).take n = walk.ranks.take n := by
  induction n generalizing walk with
  | zero => rfl
  | succ n ih =>
    rw [Cursor.take, Cursor.pull_leaf, Leaf.ranks_eq]
    cases walk.pull with
    | none => rfl
    | some step => exact congrArg (step.1 :: ·) (ih step.2)

/-- A walk gives its ranks as they stand. -/
theorem Cursor.drain_leaf (walk : Leaf) : (Cursor.leaf walk).drain = walk.ranks := by
  rw [Cursor.drain, Cursor.take_leaf]
  exact List.take_of_length_le walk.length_ranks_le

theorem Node.yields_leaf {s : Scope} {node : Node} {walk : Leaf}
    (h : node.open s = .ok (some (.leaf walk))) : node.Yields s walk.ranks := by
  refine ⟨⟨s.catalog, some (.leaf walk), false⟩, ?_, ?_, fun n => ?_⟩
  · rw [Search.begin, h]
    rfl
  · rw [Search.ranks_of_root_eq_some rfl rfl, Cursor.drain_leaf]
  · rw [Search.answer_nextRank_of_root_eq_some rfl rfl,
      Cursor.answer_eq_getElem?_take (Nat.le_refl _), ← Cursor.drain, Cursor.drain_leaf]

/-- **A condition on a keyword gives its list**, whatever its order. -/
theorem Node.yields_keyword (s : Scope) (k : String) :
    (Node.keyword k).Yields s (s.keywordRanks k) := by
  have hopen : (Node.keyword k).open s = .ok (some (.leaf (.postings (s.keywordRanks k)))) := rfl
  exact Node.yields_leaf hopen

end Query

/-! ### The three ways -/

namespace Catalog

open Query Calendar

/-- What the ways to look a keyword up have to do with each other. -/
structure LookupsAgree (c : Catalog) (k : String) : Prop where
  /-- The merged list ascends. -/
  ascending : (c.index.imagesRanked k).Pairwise (· < ·)
  /-- The merged list holds the ranks of both tables. -/
  mem_merged : ∀ r, r ∈ c.index.imagesRanked k ↔
    r ∈ c.index.literal.ranksOf k ∨ r ∈ c.index.sub.ranksOf k
  /-- In the mode for whole keywords, the condition gives the list of the first table. -/
  yields_literal : ∀ offset,
    (Node.keyword k).Yields ⟨c, .literal, offset⟩ (c.index.literal.ranksOf k)
  /-- In the mode in the order of the ranks, it gives the merged list. -/
  yields_ranked : ∀ offset, (Node.keyword k).Yields ⟨c, .ranked, offset⟩ (c.index.imagesRanked k)
  /-- In the mode with whole keywords first, it gives the list without repeated identities. -/
  yields_priority : ∀ offset, (Node.keyword k).Yields ⟨c, .priority, offset⟩ (c.index.images k)
  /-- That list is what is left of both lists, one behind the other, if of each identity only the
  first rank is kept. -/
  images_eq : c.index.images k =
    c.index.firstOfEach (c.index.literal.ranksOf k ++ c.index.sub.ranksOf k)
  /-- It keeps the order of the two lists. -/
  sublist : (c.index.images k).Sublist (c.index.literal.ranksOf k ++ c.index.sub.ranksOf k)
  /-- All ranks that are found have an identity. -/
  identified : ∀ r ∈ c.index.imagesRanked k, ∃ id, c.index.idOf? r = some id
  /-- No identity comes twice. -/
  distinct : ((c.index.images k).map c.index.idOf?).Nodup
  /-- The identities are those of the merged list. -/
  mem_identities : ∀ id, id ∈ (c.index.images k).map c.index.idOf? ↔
    id ∈ (c.index.imagesRanked k).map c.index.idOf?
  /-- If no two images share an identity, both lists have the same ranks. -/
  perm : (c.allImages.map Image.id).Nodup → (c.index.images k).Perm (c.index.imagesRanked k)

variable {albums : List Album} {people : Aliases}

/-- Without shared identities, a rank is known by its identity. -/
theorem idOf?_inj (hids : ((ofAlbums albums people).allImages.map Image.id).Nodup)
    {r r' : Rank} {id : ImageId} (h : (ofAlbums albums people).index.idOf? r = some id)
    (h' : (ofAlbums albums people).index.idOf? r' = some id) : r = r' := by
  obtain ⟨image, hi, rfl⟩ := idOf?_eq_some_iff.1 h
  obtain ⟨image', hi', rfl⟩ := idOf?_eq_some_iff.1 h'
  obtain ⟨hmem, hid⟩ := List.mem_filter.1 hi
  obtain ⟨hmem', hid'⟩ := List.mem_filter.1 hi'
  rw [List.inj_on_of_nodup_map hids hmem hmem'
    ((beq_iff_eq.1 hid).trans (beq_iff_eq.1 hid').symm)]

/-- What a keyword finds has an identity. -/
theorem exists_idOf?_of_mem_imagesRanked {k : String} {r : Rank}
    (h : r ∈ (ofAlbums albums people).index.imagesRanked k) :
    ∃ id, (ofAlbums albums people).index.idOf? r = some id := by
  obtain ⟨image, hi, -⟩ := ((imagesRanked_spec albums people k).2 r).1 h
  obtain ⟨himage, hrank⟩ := imageAt?_eq_some_iff.1 hi
  exact ⟨image.id, idOf?_eq_some_iff.2 ⟨image, by simp [imagesOf, himage], hrank⟩⟩

/-- **Without shared identities both ways find the same ranks.** -/
theorem images_perm (hids : ((ofAlbums albums people).allImages.map Image.id).Nodup) (k : String) :
    ((ofAlbums albums people).index.images k).Perm
      ((ofAlbums albums people).index.imagesRanked k) := by
  have hasc := (imagesRanked_spec albums people k).1
  refine (List.perm_ext_iff_of_nodup ((Index.nodup_images _ k).of_map _)
    (hasc.imp Nat.ne_of_lt)).2 fun r => ⟨fun hr => Index.images_subset _ k hr, fun hr => ?_⟩
  -- the identity of the rank is found, and no other rank has it
  obtain ⟨id, hid⟩ := exists_idOf?_of_mem_imagesRanked hr
  have hfound := (Index.mem_map_images _ k (some id)).2 (List.mem_map.2 ⟨r, hr, hid⟩)
  obtain ⟨r', hr', hid'⟩ := List.mem_map.1 hfound
  rwa [idOf?_inj hids hid hid']

/-- **The ways to look a keyword up agree.** -/
theorem lookups_agree (albums : List Album) (people : Aliases) (k : String) :
    (ofAlbums albums people).LookupsAgree k where
  ascending := (imagesRanked_spec albums people k).1
  mem_merged := fun r => Index.mem_imagesRanked _ r k
  yields_literal := fun offset => Node.yields_keyword ⟨_, .literal, offset⟩ k
  yields_ranked := fun offset => by
    rw [← Scope.keywordRanks_ranked (s := ⟨ofAlbums albums people, .ranked, offset⟩) rfl]
    exact Node.yields_keyword _ k
  yields_priority := fun offset => Node.yields_keyword ⟨_, .priority, offset⟩ k
  images_eq := Index.images_eq _ k
  sublist := Index.images_eq _ k ▸ Index.firstOfEach_sublist _ _
  identified := fun _ hr => exists_idOf?_of_mem_imagesRanked hr
  distinct := Index.nodup_images _ k
  mem_identities := Index.mem_map_images _ k
  perm := fun hids => images_perm hids k

/-- Three images: one has the keyword as a part of another, one as a whole, one in both ways. -/
theorem lookups_agree_on_three_images :
    let c := ofAlbums [⟨"walks", .epoch, .epoch,
      [Image.new "a.jpg" ["julien devin"] .epoch .epoch, Image.new "b.jpg" ["devin"] .epoch .epoch,
        Image.new "c.jpg" ["Devin", "julien devin"] .epoch .epoch]⟩] .empty
    (c.allImages.map Image.id).Nodup ∧ c.index.images "devin" = [1, 2, 0] ∧
      c.index.imagesRanked "devin" = [0, 1, 2] ∧
      (c.index.images "devin").Perm (c.index.imagesRanked "devin") := by
  intro c
  have hids : (c.allImages.map Image.id).Nodup := by decide +kernel
  exact ⟨hids, by decide +kernel, by decide +kernel, (lookups_agree _ .empty "devin").perm hids⟩

/-- The identity is that of the path and the name together, so two images in different albums can
share one.  Then only the first of them is listed if identities are looked at. -/
example :
    let c := ofAlbums [⟨"", .epoch, .epoch, [Image.new "ab.jpg" ["sea"] .epoch .epoch]⟩,
      ⟨"a", .epoch, .epoch, [Image.new "b.jpg" ["sea"] .epoch .epoch]⟩] .empty
    c.index.images "sea" = [0] ∧ c.index.imagesRanked "sea" = [0, 1] := by decide +kernel

end Catalog
end AlbumIndex
