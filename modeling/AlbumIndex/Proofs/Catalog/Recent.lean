import AlbumIndex.Proofs.Calendar.Months
import AlbumIndex.Proofs.Catalog.Album
import AlbumIndex.Proofs.Outcomes
import Mathlib.Algebra.GroupWithZero.Nat
import Mathlib.Data.List.Flatten

/-!
# The summary of recent keywords

The summary goes through the images of the albums changed since a month ago and collects, in a
table, the images of each keyword, one for each time the keyword stands among their keywords and
sub-keywords.  What a row of the table holds is determined by what has been added to it, and each
further occurrence extends one row.  The table may hand out its rows in any order, since two entries
of a summary never stand level.

## Main definitions

* `Image.uses`, `usesOf` — how often an image uses a keyword, and a list of images each as often.
* `Occurrences.Holds` — what the table holds after a row of occurrences.
* `gatherRecent` — the summary of a table that hands out its rows in any order.
* `Catalog.IsSummary` — what the summary of a catalog says.

## Main results

* `Occurrences.holds_foldl` — the table holds what was added to it.
* `Catalog.recentKeywords_spec` — **the summary is found, and says how often and where the keywords
  are used**.
-/

namespace AlbumIndex

open Calendar

/-! ### Uses of a keyword -/

/-- How often a text stands among the keywords and sub-keywords of an image. -/
def Image.uses (image : Image) (keyword : String) : Nat :=
  image.keywords.count keyword + image.subKeywords.count keyword

/-- The images, each as often as it uses the keyword. -/
def usesOf (keyword : String) (images : List Image) : List Image :=
  images.flatMap fun image => List.replicate (image.uses keyword) image

/-- The images of the occurrences of a keyword. -/
def imagesWith (keyword : String) (occurrences : List (String × Image)) : List Image :=
  (occurrences.filter fun o => decide (o.1 = keyword)).map Prod.snd

section Uses

variable {keyword : String} {image : Image} {images : List Image}

theorem Image.uses_pos_iff :
    0 < image.uses keyword ↔ keyword ∈ image.keywords ∨ keyword ∈ image.subKeywords := by
  unfold Image.uses
  rw [← List.count_pos_iff, ← List.count_pos_iff]
  omega

@[simp] theorem usesOf_nil : usesOf keyword [] = [] := rfl

theorem usesOf_cons :
    usesOf keyword (image :: images) =
      List.replicate (image.uses keyword) image ++ usesOf keyword images := rfl

theorem mem_usesOf : image ∈ usesOf keyword images ↔ image ∈ images ∧ 0 < image.uses keyword := by
  unfold usesOf
  simp only [List.mem_flatMap, List.mem_replicate]
  constructor
  · rintro ⟨image', hmem, huses, rfl⟩
    exact ⟨hmem, Nat.pos_of_ne_zero huses⟩
  · rintro ⟨hmem, huses⟩
    exact ⟨image, hmem, Nat.ne_of_gt huses, rfl⟩

theorem length_usesOf :
    (usesOf keyword images).length = (images.map fun image => image.uses keyword).sum := by
  simp [usesOf, List.length_flatMap]

theorem imagesWith_flatMap (f : Image → List (String × Image)) :
    imagesWith keyword (images.flatMap f) =
      images.flatMap fun image => imagesWith keyword (f image) := by
  unfold imagesWith
  rw [List.filter_flatMap, List.map_flatMap]

theorem imagesWith_occurrences :
    imagesWith keyword image.occurrences =
      if keyword = "" then [] else List.replicate (image.uses keyword) image := by
  have hfilter : ((image.keywords ++ image.subKeywords).filter fun k => !k.isEmpty).filter
      (fun k => decide (k = keyword)) =
      if keyword = "" then [] else List.replicate (image.uses keyword) keyword := by
    rw [List.filter_filter]
    split
    · next hempty =>
      rw [List.filter_eq_nil_iff]
      intro k _
      simp [hempty]
    · next hne =>
      rw [Image.uses, ← List.count_append, ← List.filter_eq]
      apply List.filter_congr
      intro k _
      by_cases hk : k = keyword
      · simp [hk, hne]
      · simp [hk]
  unfold imagesWith Image.occurrences
  rw [List.filter_map, List.map_map]
  simp only [Function.comp_def]
  rw [hfilter, List.map_const']
  split
  · rfl
  · rw [List.length_replicate]

/-- Each keyword but the empty one occurs with an image as often as the image uses it. -/
theorem imagesWith_flatMap_occurrences :
    imagesWith keyword (images.flatMap Image.occurrences) =
      if keyword = "" then [] else usesOf keyword images := by
  rw [imagesWith_flatMap]
  simp only [imagesWith_occurrences]
  split
  · simp
  · rfl

end Uses

/-! ### The table -/

namespace Occurrences

variable {t : Occurrences} {occurrences : List (String × Image)}

/-- The table has a row for each keyword that occurs, and no other.  The row holds the images of the
occurrences, the last one first. -/
def Holds (t : Occurrences) (occurrences : List (String × Image)) : Prop :=
  ∀ k, t[k]? =
    if imagesWith k occurrences = [] then none else some (imagesWith k occurrences).reverse

theorem holds_empty : Holds ∅ [] := by
  intro k
  exact Std.TreeMap.getElem?_emptyc

/-- A further occurrence is added to the row of its keyword. -/
theorem holds_add (h : t.Holds occurrences) (o : String × Image) :
    (t.add o).Holds (occurrences ++ [o]) := by
  intro k
  unfold add
  rw [Std.TreeMap.getElem?_alter]
  by_cases hk : o.1 = k
  · have himages : imagesWith k (occurrences ++ [o]) = imagesWith k occurrences ++ [o.2] := by
      simp [imagesWith, hk]
    subst hk
    rw [if_pos (by simp), himages, if_neg (by simp), h o.1]
    split
    · next hnone => simp [hnone]
    · simp
  · have himages : imagesWith k (occurrences ++ [o]) = imagesWith k occurrences := by
      simp [imagesWith, hk]
    rw [if_neg (by simpa using hk), himages]
    exact h k

/-- **The table holds what was added to it.** -/
theorem holds_foldl (h : t.Holds occurrences) (further : List (String × Image)) :
    (further.foldl add t).Holds (occurrences ++ further) := by
  induction further generalizing t occurrences with
  | nil => rwa [List.append_nil]
  | cons o further ih =>
    rw [List.foldl_cons, List.append_cons]
    exact ih (holds_add h o)

theorem Holds.mem_toList (h : t.Holds occurrences) {k : String} {images : List Image} :
    (k, images) ∈ t.toList ↔
      imagesWith k occurrences ≠ [] ∧ images = (imagesWith k occurrences).reverse := by
  rw [Std.TreeMap.mem_toList_iff_getElem?_eq_some, h k]
  split
  · next hnone => simp [hnone]
  · next hsome => simp [hsome, eq_comm]

end Occurrences

/-! ### The order of the entries -/

namespace RecentKeyword

/-- One entry comes before another: its keyword is used more often, or as often and comes first. -/
def Before (a b : RecentKeyword) : Prop :=
  b.count < a.count ∨ (a.count = b.count ∧ a.keyword < b.keyword)

theorem le_iff {a b : RecentKeyword} :
    a.le b = true ↔ b.count < a.count ∨ (a.count = b.count ∧ a.keyword ≤ b.keyword) := by
  simp [le]

theorem namesAfter_le : NamesAfter (fun m n => n < m) count keyword le where
  le_iff := fun _ _ => le_iff
  lt_trans := fun hij hjk => Nat.lt_trans hjk hij
  lt_irrefl := Nat.lt_irrefl
  lt_or_eq_or_gt := by
    intro m n
    omega

end RecentKeyword

/-! ### Entries from rows -/

/-- Images are put in the order of their times, the latest first. -/
theorem sortedBy_itemTime_mergeSort (images : List Image) :
    SortedBy Image.itemTime (fun s t => t ≤ s) images
      (images.mergeSort fun a b => decide (b.itemTime ≤ a.itemTime)) := by
  apply sortedBy_mergeSort fun s t : Instant => t ≤ s
  · intro r s t hrs hst
    exact Instant.le_trans hst hrs
  · intro s t
    exact Instant.le_total t s

/-- The summary of a table that hands out its rows as given. -/
def gatherRecent (rows : List (String × List Image)) : List RecentKeyword :=
  (rows.map fun row => RecentKeyword.ofOccurrences row.1 row.2).mergeSort RecentKeyword.le

section Rows

variable {rows rows' : List (String × List Image)} {e : RecentKeyword}

theorem mem_gatherRecent :
    e ∈ gatherRecent rows ↔ ∃ row ∈ rows, RecentKeyword.ofOccurrences row.1 row.2 = e := by
  rw [gatherRecent, List.mem_mergeSort, List.mem_map]

theorem keywords_entries (rows : List (String × List Image)) :
    (rows.map fun row => RecentKeyword.ofOccurrences row.1 row.2).map RecentKeyword.keyword =
      rows.map Prod.fst := by
  rw [List.map_map]
  rfl

theorem keywords_gatherRecent :
    ((gatherRecent rows).map RecentKeyword.keyword).Perm (rows.map Prod.fst) := by
  rw [← keywords_entries]
  exact (List.mergeSort_perm _ _).map RecentKeyword.keyword

/-- The entries of different keywords stand one before the other. -/
theorem gatherRecent_pairwise (h : (rows.map Prod.fst).Nodup) :
    (gatherRecent rows).Pairwise RecentKeyword.Before := by
  apply RecentKeyword.namesAfter_le.pairwise_mergeSort
  rw [keywords_entries]
  exact h

/-- **The rows may come in any order.** -/
theorem gatherRecent_of_perm (hperm : rows'.Perm rows) (h : (rows.map Prod.fst).Nodup) :
    gatherRecent rows' = gatherRecent rows := by
  apply RecentKeyword.namesAfter_le.mergeSort_of_perm (hperm.map _)
  intro a ha b hb hkeyword
  have hnodup := (hperm.map Prod.fst).nodup_iff.2 h
  rw [← keywords_entries] at hnodup
  exact List.inj_on_of_nodup_map hnodup ha hb hkeyword

end Rows

/-! ### The summary of a catalog -/

namespace Catalog

/-- The images of the albums that were changed after an instant, in the order of their ranks. -/
def imagesSince (c : Catalog) (since : Instant) : List Image :=
  (c.albums.filter fun a => decide (since < a.lastModified)).flatMap Album.images

/-- The images of the albums that were changed after an instant, in the order of their ranks, each
as often as it uses a keyword. -/
def usesSince (c : Catalog) (since : Instant) (keyword : String) : List Image :=
  usesOf keyword (c.imagesSince since)

/-- The images of the keywords used since an instant. -/
def recentTable (c : Catalog) (since : Instant) : Occurrences :=
  ((c.imagesSince since).flatMap Image.occurrences).foldl Occurrences.add ∅

/-- What the summary of the keywords in use since an instant says. -/
structure IsSummary (c : Catalog) (since : Instant) (entries : List RecentKeyword) : Prop where
  /-- Each keyword has one entry. -/
  keywords_nodup : (entries.map RecentKeyword.keyword).Nodup
  /-- The keywords are the non-empty texts among the keywords and sub-keywords of the images of the
  albums changed since. -/
  mem_keywords : ∀ k, k ∈ entries.map RecentKeyword.keyword ↔
    k ≠ "" ∧ ∃ album ∈ c.albums, since < album.lastModified ∧
      ∃ image ∈ album.images, k ∈ image.keywords ∨ k ∈ image.subKeywords
  /-- A keyword is counted as often as it is used. -/
  count_eq : ∀ e ∈ entries,
    e.count = ((c.imagesSince since).map fun image => image.uses e.keyword).sum
  /-- The images of a keyword are the first four of its uses, latest first. -/
  images_eq : ∀ e ∈ entries, ∃ latestFirst,
    SortedBy Image.itemTime (fun s t => t ≤ s) (c.usesSince since e.keyword) latestFirst ∧
      e.images = latestFirst.take 4
  /-- More uses come first, and keywords with as many stand in order. -/
  ordered : entries.Pairwise RecentKeyword.Before

variable {c : Catalog} {since now : Instant} {k : String} {e : RecentKeyword}

theorem mem_imagesSince {image : Image} :
    image ∈ c.imagesSince since ↔
      ∃ album ∈ c.albums, since < album.lastModified ∧ image ∈ album.images := by
  simp [imagesSince, and_assoc]

theorem usesSince_ne_nil_iff :
    c.usesSince since k ≠ [] ↔ ∃ album ∈ c.albums, since < album.lastModified ∧
      ∃ image ∈ album.images, k ∈ image.keywords ∨ k ∈ image.subKeywords := by
  constructor
  · intro hne
    obtain ⟨image, huse⟩ := List.exists_mem_of_ne_nil _ hne
    obtain ⟨himage, huses⟩ := mem_usesOf.1 huse
    obtain ⟨album, halbum, hsince, himage⟩ := mem_imagesSince.1 himage
    exact ⟨album, halbum, hsince, image, himage, Image.uses_pos_iff.1 huses⟩
  · rintro ⟨album, halbum, hsince, image, himage, huses⟩
    have huse : image ∈ c.usesSince since k :=
      mem_usesOf.2 ⟨mem_imagesSince.2 ⟨album, halbum, hsince, himage⟩, Image.uses_pos_iff.2 huses⟩
    exact List.ne_nil_of_mem huse

/-- The rows of the table: one for each keyword in use. -/
theorem mem_toList_recentTable {images : List Image} :
    (k, images) ∈ (c.recentTable since).toList ↔
      k ≠ "" ∧ c.usesSince since k ≠ [] ∧ images = (c.usesSince since k).reverse := by
  have hholds := Occurrences.holds_foldl Occurrences.holds_empty
    ((c.imagesSince since).flatMap Image.occurrences)
  rw [List.nil_append] at hholds
  unfold recentTable
  rw [hholds.mem_toList, imagesWith_flatMap_occurrences]
  split
  · next hempty => simp [hempty]
  · next hne => simp [hne, usesSince]

theorem keys_recentTable_nodup : ((c.recentTable since).toList.map Prod.fst).Nodup := by
  apply List.pairwise_map.2
  exact Std.TreeMap.distinct_keys_toList.imp fun h => by simpa using h

/-- The entry of a keyword in use. -/
theorem mem_gatherRecent_recentTable :
    e ∈ gatherRecent (c.recentTable since).toList ↔ e.keyword ≠ "" ∧
      c.usesSince since e.keyword ≠ [] ∧
        e = .ofOccurrences e.keyword (c.usesSince since e.keyword).reverse := by
  rw [mem_gatherRecent]
  constructor
  · rintro ⟨⟨k, images⟩, hrow, rfl⟩
    obtain ⟨hk, huses, rfl⟩ := mem_toList_recentTable.1 hrow
    exact ⟨hk, huses, rfl⟩
  · rintro ⟨hk, huses, he⟩
    exact ⟨⟨e.keyword, _⟩, mem_toList_recentTable.2 ⟨hk, huses, rfl⟩, he.symm⟩

theorem isSummary_gatherRecent : c.IsSummary since (gatherRecent (c.recentTable since).toList) where
  keywords_nodup := keywords_gatherRecent.nodup_iff.2 keys_recentTable_nodup
  mem_keywords := by
    intro k
    rw [keywords_gatherRecent.mem_iff, ← usesSince_ne_nil_iff]
    constructor
    · intro hk
      obtain ⟨⟨k, images⟩, hrow, rfl⟩ := List.mem_map.1 hk
      obtain ⟨hne, huses, -⟩ := mem_toList_recentTable.1 hrow
      exact ⟨hne, huses⟩
    · rintro ⟨hne, huses⟩
      exact List.mem_map.2 ⟨(k, _), mem_toList_recentTable.2 ⟨hne, huses, rfl⟩, rfl⟩
  count_eq := by
    intro e he
    obtain ⟨-, -, he⟩ := mem_gatherRecent_recentTable.1 he
    have hcount : e.count = (c.usesSince since e.keyword).reverse.length :=
      congrArg RecentKeyword.count he
    rw [hcount, List.length_reverse, usesSince, length_usesOf]
  images_eq := by
    intro e he
    obtain ⟨-, -, he⟩ := mem_gatherRecent_recentTable.1 he
    refine ⟨_, sortedBy_itemTime_mergeSort _, ?_⟩
    have himages := congrArg RecentKeyword.images he
    unfold RecentKeyword.ofOccurrences at himages
    rw [List.reverse_reverse] at himages
    exact himages
  ordered := gatherRecent_pairwise keys_recentTable_nodup

theorem recentKeywords_eq_ok_iff {entries : List RecentKeyword} :
    c.recentKeywords now = .ok entries ↔ ∃ since, monthBefore now = .ok since ∧
      entries = gatherRecent (c.recentTable since).toList := by
  unfold recentKeywords
  constructor
  · intro h
    obtain ⟨since, hsince, h⟩ := bind_eq_ok_iff.1 h
    exact ⟨since, hsince, (Except.ok.inj h).symm⟩
  · rintro ⟨since, hsince, rfl⟩
    apply bind_eq_ok_iff.2
    exact ⟨since, hsince, rfl⟩

/-- The images of some of the albums stand in the order of the ranks, like all images. -/
theorem imagesSince_pairwise_rank (albums : List Album) (people : Aliases) (since : Instant) :
    ((ofAlbums albums people).imagesSince since).Pairwise fun a b => a.rank < b.rank :=
  allImages_pairwise_rank.sublist (List.filter_sublist.flatMap Album.images)

theorem usesSince_pairwise_rank (albums : List Album) (people : Aliases) (since : Instant)
    (k : String) :
    ((ofAlbums albums people).usesSince since k).Pairwise fun a b => a.rank ≤ b.rank := by
  unfold usesSince usesOf
  rw [List.pairwise_flatMap]
  constructor
  · intro image _
    exact List.pairwise_replicate.2 (Or.inr (Nat.le_refl _))
  · apply (imagesSince_pairwise_rank albums people since).imp
    intro a b hab a' ha' b' hb'
    rw [List.eq_of_mem_replicate ha', List.eq_of_mem_replicate hb']
    exact Nat.le_of_lt hab

/-- **The summary of recent keywords** is found for every instant that has a month before it, and
says how often and where the keywords are used in the albums changed since then.  It does not depend
on the order in which the table hands out its rows. -/
theorem recentKeywords_spec (albums : List Album) (people : Aliases) (now : Instant)
    (hnow : Instant.InRange now.seconds)
    (hmonth : Instant.minSeconds + 31 * Instant.secondsPerDay ≤ now.seconds) :
    ∃ since entries, IsMonthBefore since now ∧
      (ofAlbums albums people).recentKeywords now = .ok entries ∧
      (ofAlbums albums people).IsSummary since entries ∧
      (∀ k, ((ofAlbums albums people).usesSince since k).Pairwise fun a b => a.rank ≤ b.rank) ∧
      ∀ rows, rows.Perm ((ofAlbums albums people).recentTable since).toList →
        gatherRecent rows = entries := by
  obtain ⟨since, hsince, hbefore⟩ := monthBefore_spec hnow hmonth
  refine ⟨since, _, hbefore, recentKeywords_eq_ok_iff.2 ⟨since, hsince, rfl⟩,
    isSummary_gatherRecent, ?_, ?_⟩
  · intro k
    exact usesSince_pairwise_rank albums people since k
  · intro rows hperm
    exact gatherRecent_of_perm hperm keys_recentTable_nodup

/-- Two albums, the first changed in the last second of a month that has just ended, the second one
second later. -/
def winterAlbums : List Album :=
  [⟨"old", .epoch, .ofSeconds 983361600, [.new "a.jpg" ["snow"] .epoch .epoch]⟩,
    ⟨"new", .epoch, .ofSeconds 983361601,
      [.new "b.jpg" ["ice", "snow", "snow"] .epoch .epoch, .new "c.jpg" ["snow"] .epoch .epoch]⟩]

/-- A month before 31 March 2001 is 28 February, so the first of the two albums does not count; the
second one uses one keyword three times, and twice in one image. -/
theorem recentKeywords_spec_in_march :
    Instant.InRange 986040000 ∧
      Instant.minSeconds + 31 * Instant.secondsPerDay ≤ 986040000 ∧
      ∃ since entries, IsMonthBefore since ⟨986040000, 0⟩ ∧
        (ofAlbums winterAlbums .empty).recentKeywords ⟨986040000, 0⟩ = .ok entries ∧
        (ofAlbums winterAlbums .empty).IsSummary since entries ∧
        since = ⟨983361600, 0⟩ ∧
        entries.map (fun e => (e.keyword, e.count)) = [("snow", 3), ("ice", 1)] := by
  have hnow : Instant.InRange 986040000 := by decide
  have hmonth : Instant.minSeconds + 31 * Instant.secondsPerDay ≤ 986040000 := by decide
  obtain ⟨since, entries, hbefore, hfound, hsummary, -, hrows⟩ :=
    recentKeywords_spec winterAlbums .empty ⟨986040000, 0⟩ hnow hmonth
  obtain rfl : since = ⟨983361600, 0⟩ :=
    hbefore.unique ⟨by decide +kernel, by decide, rfl⟩
  refine ⟨hnow, hmonth, _, entries, hbefore, hfound, hsummary, rfl, ?_⟩
  rw [← hrows _ (List.reverse_perm _), gatherRecent, List.mergeSort_of_pairwise]
  · decide +kernel
  · decide +kernel

end Catalog
end AlbumIndex
