import AlbumIndex.Proofs.Catalog.Recent
import AlbumIndex.Proofs.Catalog.SubKeywords

/-!
# The images shown for a recent keyword

The summary of recent keywords shows the first four of the uses of a keyword, latest first.  Uses of
one image stand side by side, since they have one time and come one after the other.  So an image
that uses the keyword more than once is shown more than once, and pushes other images out; where the
first three uses are those of images that use the keyword once, the four images shown are different
ones.

Only keywords given twice are used twice: sub-keywords are neither keywords nor given twice.

## Main definitions

* `carriers` — the images that use a keyword.

## Main results

* `Image.uses_le_one` — different keywords are used once.
* `SortedBy.usesOf` — uses stand as their images do.
* `Catalog.recentKeywords_images_distinct_iff` — **when the images shown for a keyword are
  different.**
-/

namespace AlbumIndex

open Calendar

/-! ### Keywords used once -/

/-- **Different keywords are used once**, and so are the words inside them. -/
theorem Image.uses_le_one {image : Image} (hkeywords : image.keywords.Nodup)
    (hsub : image.subKeywords = AlbumIndex.subKeywords image.keywords) (keyword : String) :
    image.uses keyword ≤ 1 := by
  unfold Image.uses
  rw [hsub, ← List.count_append]
  exact List.nodup_iff_count_le_one.1 (nodup_append_subKeywords hkeywords) keyword

/-! ### Images and their uses -/

/-- The images that use the keyword. -/
def carriers (keyword : String) (images : List Image) : List Image :=
  images.filter fun image => decide (0 < image.uses keyword)

section Uses

variable {keyword : String} {images sorted : List Image} {n : Nat}

theorem uses_pos_of_mem_carriers : ∀ image ∈ carriers keyword images, 0 < image.uses keyword := by
  intro image himage
  simpa using (List.mem_filter.1 himage).2

theorem filter_usesOf (p : Image → Bool) (images : List Image) :
    (usesOf keyword images).filter p = usesOf keyword (images.filter p) := by
  induction images with
  | nil => rfl
  | cons image images ih =>
    rw [usesOf_cons, List.filter_append, List.filter_replicate, List.filter_cons, ih]
    split
    · rw [usesOf_cons]
    · rw [List.nil_append]

theorem usesOf_carriers : usesOf keyword (carriers keyword images) = usesOf keyword images := by
  unfold carriers
  rw [← filter_usesOf, List.filter_eq_self]
  intro image himage
  exact decide_eq_true (mem_usesOf.1 himage).2

/-- **Uses stand as their images do.** -/
theorem SortedBy.usesOf {le : Instant → Instant → Prop}
    (h : SortedBy Image.itemTime le images sorted) (hrefl : ∀ t, le t t) :
    SortedBy Image.itemTime le (usesOf keyword images) (usesOf keyword sorted) where
  perm := h.perm.flatMap_right _
  ordered := by
    apply List.pairwise_flatMap.2
    constructor
    · intro image _
      exact List.pairwise_replicate.2 (Or.inr (hrefl image.itemTime))
    · apply h.ordered.imp
      intro a b hab a' ha' b' hb'
      rw [List.eq_of_mem_replicate ha', List.eq_of_mem_replicate hb']
      exact hab
  stable := by
    intro t
    rw [filter_usesOf, filter_usesOf, h.stable t]

/-- An image that uses the keyword stands first among the uses, perhaps followed by itself. -/
theorem exists_usesOf_cons_eq {image : Image} (images : List Image) (h : 0 < image.uses keyword) :
    ∃ more, image.uses keyword = more + 1 ∧
      usesOf keyword (image :: images) =
        image :: (List.replicate more image ++ usesOf keyword images) := by
  obtain ⟨more, hmore⟩ := Nat.exists_eq_add_one_of_ne_zero (Nat.ne_of_gt h)
  refine ⟨more, hmore, ?_⟩
  rw [usesOf_cons, hmore, List.replicate_succ, List.cons_append]

/-- As long as each use is that of an image that has no other, uses are images. -/
theorem take_usesOf (hpos : ∀ image ∈ images, 0 < image.uses keyword)
    (hone : ∀ image ∈ (usesOf keyword images).take n, image.uses keyword = 1) :
    (usesOf keyword images).take (n + 1) = images.take (n + 1) := by
  induction images generalizing n with
  | nil => rfl
  | cons image images ih =>
    obtain ⟨more, hmore, huses⟩ := exists_usesOf_cons_eq images
      (hpos image List.mem_cons_self)
    rw [huses] at hone ⊢
    cases n with
    | zero => rfl
    | succ n =>
      rw [List.take_succ_cons] at hone ⊢
      obtain ⟨hfirst, hrest⟩ := List.forall_mem_cons.1 hone
      obtain rfl : more = 0 := by omega
      rw [List.replicate_zero, List.nil_append] at hrest ⊢
      rw [List.take_succ_cons, ih (List.forall_mem_cons.1 hpos).2 hrest]

/-- Where no image comes twice, each but perhaps the last one has no other use. -/
theorem uses_eq_one_of_nodup (hpos : ∀ image ∈ images, 0 < image.uses keyword)
    (h : ((usesOf keyword images).take (n + 1)).Nodup) :
    ∀ image ∈ (usesOf keyword images).take n, image.uses keyword = 1 := by
  induction images generalizing n with
  | nil => simp
  | cons image images ih =>
    obtain ⟨more, hmore, huses⟩ := exists_usesOf_cons_eq images
      (hpos image List.mem_cons_self)
    rw [huses] at h ⊢
    cases n with
    | zero => simp
    | succ n =>
      rw [List.take_succ_cons] at h ⊢
      obtain ⟨hfirst, hrest⟩ := List.nodup_cons.1 h
      cases more with
      | zero =>
        rw [List.replicate_zero, List.nil_append] at hrest ⊢
        exact List.forall_mem_cons.2 ⟨hmore, ih (List.forall_mem_cons.1 hpos).2 hrest⟩
      | succ more =>
        -- the second use of an image stands next to the first
        rw [List.replicate_succ, List.cons_append, List.take_succ_cons] at hfirst
        exact absurd List.mem_cons_self hfirst

/-- **When the first uses are those of different images**, and as many as there are such images. -/
theorem nodup_take_usesOf_iff (hpos : ∀ image ∈ images, 0 < image.uses keyword)
    (hnodup : images.Nodup) :
    (((usesOf keyword images).take (n + 1)).Nodup ∧
      ((usesOf keyword images).take (n + 1)).length = min (n + 1) images.length) ↔
      ∀ image ∈ (usesOf keyword images).take n, image.uses keyword = 1 := by
  constructor
  · rintro ⟨h, -⟩
    exact uses_eq_one_of_nodup hpos h
  · intro hone
    rw [take_usesOf hpos hone]
    exact ⟨hnodup.sublist (List.take_sublist _ _), List.length_take⟩

end Uses

/-! ### The images shown -/

namespace Catalog

variable {c : Catalog} {since : Instant} {entries : List RecentKeyword}

/-- The images shown for a keyword are different, and four if there are as many, exactly if the
first three use the keyword once. -/
theorem IsSummary.images_distinct_iff (h : c.IsSummary since entries)
    (hnodup : (c.imagesSince since).Nodup) {e : RecentKeyword} (he : e ∈ entries) :
    (e.images.Nodup ∧
      e.images.length = min 4 (carriers e.keyword (c.imagesSince since)).length) ↔
      ∀ image ∈ e.images.take 3, image.uses e.keyword = 1 := by
  obtain ⟨uses, huses, himages⟩ := h.images_eq e he
  have hsorted := sortedBy_itemTime_mergeSort (carriers e.keyword (c.imagesSince since))
  have hmap : SortedBy Image.itemTime _ (usesOf e.keyword _) (usesOf e.keyword _) :=
    hsorted.usesOf Instant.le_refl
  rw [usesOf_carriers] at hmap
  -- there is one way to put the uses in order
  have hsame := huses.unique (fun hts hst => Instant.le_antisymm hst hts) hmap
  have hperm := hsorted.perm
  rw [himages, hsame, List.take_take, ← hperm.length_eq]
  apply nodup_take_usesOf_iff
  · intro image himage
    exact uses_pos_of_mem_carriers image (hperm.mem_iff.1 himage)
  · exact hperm.nodup_iff.2 (hnodup.sublist List.filter_sublist)

theorem imagesSince_nodup (albums : List Album) (people : Aliases) (since : Instant) :
    ((ofAlbums albums people).imagesSince since).Nodup := by
  apply (imagesSince_pairwise_rank albums people since).imp
  rintro a b hab rfl
  exact Nat.lt_irrefl _ hab

theorem mem_allImages_of_mem_imagesSince {image : Image} (h : image ∈ c.imagesSince since) :
    image ∈ c.allImages := by
  obtain ⟨album, halbum, -, himage⟩ := mem_imagesSince.1 h
  exact List.mem_flatMap.2 ⟨album, halbum, himage⟩

theorem IsSummary.mem_imagesSince_of_mem_images (h : c.IsSummary since entries) {e : RecentKeyword}
    (he : e ∈ entries) {image : Image} (himage : image ∈ e.images) :
    image ∈ c.imagesSince since ∧ 0 < image.uses e.keyword := by
  obtain ⟨uses, huses, himages⟩ := h.images_eq e he
  rw [himages] at himage
  exact mem_usesOf.1 (huses.perm.mem_iff.1 (List.mem_of_mem_take himage))

/-- **When the images shown for a keyword are different**, and as many as four or as there are
images of recently changed albums that use it: exactly if the first three use it once.  This is so
for all keywords if no image has a keyword twice. -/
theorem recentKeywords_images_distinct_iff (albums : List Album) (people : Aliases) (now : Instant)
    (entries : List RecentKeyword)
    (h : (ofAlbums albums people).recentKeywords now = .ok entries) :
    ∃ since, monthBefore now = .ok since ∧
      (∀ e ∈ entries,
        (carriers e.keyword ((ofAlbums albums people).imagesSince since)).Nodup ∧
        ((e.images.Nodup ∧ e.images.length =
            min 4 (carriers e.keyword ((ofAlbums albums people).imagesSince since)).length) ↔
          ∀ image ∈ e.images.take 3, image.uses e.keyword = 1)) ∧
      ((∀ image ∈ (ofAlbums albums people).allImages,
          image.keywords.Nodup ∧ image.subKeywords = subKeywords image.keywords) →
        ∀ e ∈ entries, e.images.Nodup ∧ e.images.length =
          min 4 (carriers e.keyword ((ofAlbums albums people).imagesSince since)).length) := by
  obtain ⟨since, hsince, rfl⟩ := recentKeywords_eq_ok_iff.1 h
  have hsummary : (ofAlbums albums people).IsSummary since _ := isSummary_gatherRecent
  have hnodup := imagesSince_nodup albums people since
  refine ⟨since, hsince, ?_, ?_⟩
  · intro e he
    exact ⟨hnodup.sublist List.filter_sublist, hsummary.images_distinct_iff hnodup he⟩
  · intro hplain e he
    apply (hsummary.images_distinct_iff hnodup he).2
    intro image himage
    obtain ⟨hmem, huses⟩ :=
      hsummary.mem_imagesSince_of_mem_images he (List.mem_of_mem_take himage)
    obtain ⟨hkeywords, hsub⟩ := hplain image (mem_allImages_of_mem_imagesSince hmem)
    have hle := image.uses_le_one hkeywords hsub e.keyword
    omega

/-- Four images with one keyword, which the first of them has as often as is said; the later ones
were taken earlier. -/
def fourImages (keywords : List String) : Catalog :=
  ofAlbums [⟨"a", .epoch, .ofSeconds 1000000400,
    [.new "a.jpg" keywords (.ofSeconds 1000000400) (.ofSeconds 1000000400),
      .new "b.jpg" ["k"] (.ofSeconds 1000000300) (.ofSeconds 1000000300),
      .new "c.jpg" ["k"] (.ofSeconds 1000000200) (.ofSeconds 1000000200),
      .new "d.jpg" ["k"] (.ofSeconds 1000000100) (.ofSeconds 1000000100)]⟩] .empty

theorem monthBefore_fourImages : monthBefore ⟨1000001000, 0⟩ = .ok ⟨997322600, 0⟩ := by
  decide +kernel

/-- If the table has one row, and the uses stand in the order of their times, the summary shows the
first four of them. -/
theorem gatherRecent_fourImages (keywords : List String)
    (hkeys : ((fourImages keywords).recentTable ⟨997322600, 0⟩).toList.map Prod.fst = ["k"])
    (htimes : ((fourImages keywords).usesSince ⟨997322600, 0⟩ "k").Pairwise
      fun a b => decide (b.itemTime ≤ a.itemTime) = true) :
    gatherRecent ((fourImages keywords).recentTable ⟨997322600, 0⟩).toList =
      [⟨"k", ((fourImages keywords).usesSince ⟨997322600, 0⟩ "k").length,
        ((fourImages keywords).usesSince ⟨997322600, 0⟩ "k").take 4⟩] := by
  obtain ⟨⟨k, images⟩, hrows, rfl⟩ := List.map_eq_singleton_iff.1 hkeys
  obtain ⟨-, -, himages⟩ := mem_toList_recentTable.1 (hrows ▸ List.mem_singleton_self _)
  rw [hrows, himages, gatherRecent, List.map_singleton, List.mergeSort_singleton]
  unfold RecentKeyword.ofOccurrences
  rw [List.reverse_reverse, List.mergeSort_of_pairwise htimes, List.length_reverse]
  rfl

theorem recentKeywords_fourImages (keywords : List String) :
    (fourImages keywords).recentKeywords ⟨1000001000, 0⟩ =
      .ok (gatherRecent ((fourImages keywords).recentTable ⟨997322600, 0⟩).toList) :=
  recentKeywords_eq_ok_iff.2 ⟨_, monthBefore_fourImages, rfl⟩

/-- Four images that have their keyword once are shown for it. -/
theorem recentKeywords_images_distinct_for_four :
    ∃ entries since, (fourImages ["k"]).recentKeywords ⟨1000001000, 0⟩ = .ok entries ∧
      (∀ image ∈ (fourImages ["k"]).allImages,
        image.keywords.Nodup ∧ image.subKeywords = subKeywords image.keywords) ∧
      entries.map RecentKeyword.keyword = ["k"] ∧
      ∀ e ∈ entries, e.images.Nodup ∧ e.images.length =
        min 4 (carriers e.keyword ((fourImages ["k"]).imagesSince since)).length := by
  have hfound := recentKeywords_fourImages ["k"]
  have hplain : ∀ image ∈ (fourImages ["k"]).allImages,
      image.keywords.Nodup ∧ image.subKeywords = subKeywords image.keywords := by decide +kernel
  obtain ⟨since, -, -, hdistinct⟩ := recentKeywords_images_distinct_iff _ _ _ _ hfound
  refine ⟨_, since, hfound, hplain, ?_, hdistinct hplain⟩
  rw [gatherRecent_fourImages ["k"] (by decide +kernel) (by decide +kernel)]
  rfl

/-- An image that has its keyword twice is shown twice, and the fourth image is not shown. -/
theorem recentKeywords_shows_one_image_twice :
    ∃ e, (fourImages ["k", "k"]).recentKeywords ⟨1000001000, 0⟩ = .ok [e] ∧
      e.images.map Image.name = ["a.jpg", "a.jpg", "b.jpg", "c.jpg"] ∧
      ¬e.images.Nodup ∧
      (carriers e.keyword ((fourImages ["k", "k"]).imagesSince ⟨997322600, 0⟩)).map Image.name =
        ["a.jpg", "b.jpg", "c.jpg", "d.jpg"] := by
  have hfound := recentKeywords_fourImages ["k", "k"]
  have hsummary : (fourImages ["k", "k"]).IsSummary ⟨997322600, 0⟩ _ := isSummary_gatherRecent
  rw [gatherRecent_fourImages ["k", "k"] (by decide +kernel) (by decide +kernel)] at hfound hsummary
  have hiff :=
    hsummary.images_distinct_iff (imagesSince_nodup _ .empty _) (List.mem_singleton_self _)
  refine ⟨_, hfound, by decide +kernel, ?_, by decide +kernel⟩
  intro hnodup
  exact absurd (hiff.1 ⟨hnodup, by decide +kernel⟩) (by decide +kernel)

end Catalog
end AlbumIndex
