import AlbumIndex.Proofs.Catalog.Lookup
import AlbumIndex.Proofs.Text.Pieces

/-!
# The words inside keywords

Beside its keywords an image keeps the words inside them: what stands between their spaces, each word
once, where it first occurs, without the keywords themselves.  One list of seen words serves both
ends.  It begins with all keywords, wherever they stand, and every word that is given joins it.

Keyword or word, the image is found under it: a condition that looks at the image and the tables of
an index agree.

## Main definitions

* `InsideWords` — a list gives the words inside keywords.
* `Image.Keeps` — an image has keywords and the words inside.

## Main results

* `mem_keywordPieces_iff` — the pieces of a keyword.
* `insideWords_subKeywords` — **sub-keywords are the words inside keywords.**
* `Image.Keeps.hasKeyword_iff` — what an image has as a keyword.
* `keywords_found` — **keywords are found, and so are the words inside them.**
-/

namespace AlbumIndex

open Text

/-! ### New words -/

/-- New words are given once, and were not seen before. -/
theorem newWords_spec (seen words : List String) :
    (newWords seen words).Nodup ∧ ∀ w ∈ newWords seen words, w ∉ seen := by
  induction words generalizing seen with
  | nil => exact ⟨List.nodup_nil, fun w hw => absurd hw List.not_mem_nil⟩
  | cons word words ih =>
    rw [newWords]
    split
    · exact ih seen
    · next hnew =>
      obtain ⟨hnodup, hunseen⟩ := ih (word :: seen)
      constructor
      · apply List.nodup_cons.2
        exact ⟨fun hmem => hunseen word hmem List.mem_cons_self, hnodup⟩
      · intro w hw
        rcases List.mem_cons.1 hw with rfl | hw
        · exact fun hseen => hnew (Or.inr hseen)
        · exact fun hseen => hunseen w hw (List.mem_cons_of_mem _ hseen)

theorem nodup_append_subKeywords {keywords : List String} (h : keywords.Nodup) :
    (keywords ++ subKeywords keywords).Nodup := by
  unfold subKeywords
  split
  · obtain ⟨hnodup, hunseen⟩ := newWords_spec keywords (keywords.flatMap keywordPieces)
    apply List.nodup_append.2
    refine ⟨h, hnodup, ?_⟩
    rintro k hk w hw rfl
    exact hunseen k hw hk
  · rwa [List.append_nil]

/-- New words are those among the candidates that are not empty and were not seen. -/
theorem mem_newWords_iff {seen words : List String} {w : String} :
    w ∈ newWords seen words ↔ w ∈ words ∧ w ≠ "" ∧ w ∉ seen := by
  induction words generalizing seen with
  | nil => simp [newWords]
  | cons word words ih =>
    rw [newWords, List.mem_cons]
    split
    · next hold =>
      rw [ih]
      constructor
      · rintro ⟨hw, hnew⟩
        exact ⟨.inr hw, hnew⟩
      · rintro ⟨rfl | hw, hnew⟩
        · exact absurd hold (not_or.2 hnew)
        · exact ⟨hw, hnew⟩
    · next hnew =>
      rw [List.mem_cons, ih, List.mem_cons]
      by_cases hw : w = word
      · subst hw
        simpa using not_or.1 hnew
      · simp [hw]

/-- **New words stand in the order in which they first occur.** -/
theorem newWords_pairwise_idxOf (seen words : List String) :
    (newWords seen words).Pairwise fun v w => words.idxOf v < words.idxOf w := by
  induction words generalizing seen with
  | nil => exact List.Pairwise.nil
  | cons word words ih =>
    have hlater : ∀ {seen : List String}, (∀ w ∈ newWords seen words, w ≠ word) →
        (newWords seen words).Pairwise fun v w =>
          (word :: words).idxOf v < (word :: words).idxOf w := by
      intro seen hne
      refine (ih seen).imp_of_mem fun {v w} hv hw hlt => ?_
      rw [List.idxOf_cons_ne words (hne v hv).symm, List.idxOf_cons_ne words (hne w hw).symm]
      exact Nat.succ_lt_succ hlt
    rw [newWords]
    split
    · next hold =>
      apply hlater
      rintro w hw rfl
      exact absurd hold (not_or.2 (mem_newWords_iff.1 hw).2)
    · have hne : ∀ w ∈ newWords (word :: seen) words, w ≠ word := by
        rintro w hw rfl
        exact (newWords_spec (w :: seen) words).2 w hw List.mem_cons_self
      refine List.pairwise_cons.2 ⟨fun w hw => ?_, hlater hne⟩
      rw [List.idxOf_cons_self, List.idxOf_cons_ne words (hne w hw).symm]
      exact Nat.succ_pos _

/-! ### Pieces of keywords -/

/-- The text stands in the keyword between two spaces, or between a space and an end, or is all of
it. -/
def IsPieceOf (w keyword : String) : Prop := IsPiece (· == ' ') w.toList keyword.toList

theorem mem_keywordPieces_iff {w keyword : String} :
    w ∈ keywordPieces keyword ↔ IsPieceOf w keyword := by
  rw [IsPieceOf, ← mem_pieces_iff, keywordPieces, List.mem_map]
  constructor
  · rintro ⟨p, hp, rfl⟩
    rwa [String.toList_ofList]
  · intro hw
    exact ⟨w.toList, hw, String.ofList_toList⟩

/-- A keyword without a space is its only piece. -/
theorem keywordPieces_of_notMem {keyword : String} (h : ' ' ∉ keyword.toList) :
    keywordPieces keyword = [keyword] := by
  have hnone : ∀ c ∈ keyword.toList, (c == ' ') = false := by
    intro c hc
    refine beq_eq_false_iff_ne.2 ?_
    rintro rfl
    exact h hc
  rw [keywordPieces, pieces_of_forall_not hnone, List.map_singleton, String.ofList_toList]

/-- **Keywords without a space have no words inside**, so to look for a space first changes nothing. -/
theorem subKeywords_eq_newWords (keywords : List String) :
    subKeywords keywords = newWords keywords (keywords.flatMap keywordPieces) := by
  rw [subKeywords, ite_eq_left_iff]
  intro hspace
  have hnone : ∀ k ∈ keywords, ' ' ∉ k.toList := by
    intro k hk hmem
    exact hspace (List.any_eq_true.2 ⟨k, hk, List.contains_iff_mem.2 hmem⟩)
  refine (List.eq_nil_iff_forall_not_mem.2 fun w hw => ?_).symm
  obtain ⟨hpiece, -, hnew⟩ := mem_newWords_iff.1 hw
  obtain ⟨k, hk, hw⟩ := List.mem_flatMap.1 hpiece
  rw [keywordPieces_of_notMem (hnone k hk), List.mem_singleton] at hw
  exact hnew (hw ▸ hk)

/-! ### Sub-keywords -/

/-- The list gives the words inside the keywords that are not keywords themselves: each once, in the
order in which the words first occur among the pieces of all keywords. -/
structure InsideWords (keywords words : List String) : Prop where
  mem_iff : ∀ w, w ∈ words ↔ w ≠ "" ∧ w ∉ keywords ∧ ∃ k ∈ keywords, IsPieceOf w k
  nodup : words.Nodup
  pairwise_idxOf : words.Pairwise fun v w =>
    (keywords.flatMap keywordPieces).idxOf v < (keywords.flatMap keywordPieces).idxOf w

/-- **Sub-keywords are the words inside keywords.** -/
theorem insideWords_subKeywords (keywords : List String) :
    InsideWords keywords (subKeywords keywords) := by
  rw [subKeywords_eq_newWords]
  constructor
  case mem_iff =>
    intro w
    rw [mem_newWords_iff, List.mem_flatMap]
    simp only [mem_keywordPieces_iff]
    constructor
    · rintro ⟨hpiece, hne, hnew⟩
      exact ⟨hne, hnew, hpiece⟩
    · rintro ⟨hne, hnew, hpiece⟩
      exact ⟨hpiece, hne, hnew⟩
  case nodup => exact (newWords_spec _ _).1
  case pairwise_idxOf => exact newWords_pairwise_idxOf _ _

/-! ### Images -/

/-- The image has the keywords, and beside them the words inside that a new image gets; all else may
have changed since. -/
structure Image.Keeps (image : Image) (keywords : List String) : Prop where
  keywords_eq : image.keywords = keywords
  subKeywords_eq : image.subKeywords = AlbumIndex.subKeywords keywords

theorem Image.keeps_new (name : String) (keywords : List String)
    (fileTime itemTime : Calendar.Instant) :
    (Image.new name keywords fileTime itemTime).Keeps keywords := ⟨rfl, rfl⟩

/-- **An image has its keywords and the words inside them.** -/
theorem Image.Keeps.hasKeyword_iff {image : Image} {keywords : List String}
    (h : image.Keeps keywords) {k : String} :
    image.hasKeyword k = true ↔
      k ∈ keywords ∨ (k ≠ "" ∧ ∃ whole ∈ keywords, IsPieceOf k whole) := by
  have hsub := (insideWords_subKeywords keywords).mem_iff k
  simp only [hasKeyword, h.keywords_eq, h.subKeywords_eq, Bool.or_eq_true, List.contains_iff_mem,
    hsub]
  by_cases hk : k ∈ keywords <;> simp [hk]

/-- **An image stands among the ranks of whatever keyword it has**, in every index over its album. -/
theorem Image.exists_rank_of_hasKeyword {albums : List Album} (people : Aliases) {l : Location}
    {album : Album} {image : Image} {k : String} (halbum : albums[l.album]? = some album)
    (himage : album.images[l.position]? = some image) (hk : image.hasKeyword k = true) :
    ∃ r, (Catalog.ofAlbums albums people).index.location? r = some l ∧
      r ∈ (Catalog.ofAlbums albums people).index.imagesRanked k := by
  refine ⟨imagesBefore albums l.album + l.position,
    Catalog.location?_eq_some_iff.2 ⟨album, image, halbum, himage, rfl⟩, ?_⟩
  obtain ⟨-, hranked⟩ := Catalog.imagesRanked_spec albums people k
  refine (hranked _).2 ⟨_, Catalog.imageAt?_of_getElem? halbum himage, ?_⟩
  -- numbering an image leaves its keywords alone
  rcases Bool.or_eq_true_iff.1 hk with hkeyword | hsub
  · exact .inl (.inr (.inl (List.contains_iff_mem.1 hkeyword)))
  · exact .inr (.inl (List.contains_iff_mem.1 hsub))

/-- **Keywords are found, and so are the words inside them.**  The words inside a list of keywords are
the same whether or not a space is looked for first; an image that keeps them beside its keywords has
these and those and nothing else, and stands among the ranks of each of them wherever an index is
built over its album. -/
theorem keywords_found (keywords : List String) :
    InsideWords keywords (subKeywords keywords) ∧
      subKeywords keywords = newWords keywords (keywords.flatMap keywordPieces) ∧
      (∀ name fileTime itemTime, (Image.new name keywords fileTime itemTime).Keeps keywords) ∧
      ∀ image : Image, image.Keeps keywords → ∀ k,
        (image.hasKeyword k = true ↔
          k ∈ keywords ∨ (k ≠ "" ∧ ∃ whole ∈ keywords, IsPieceOf k whole)) ∧
        (image.hasKeyword k = true →
          ∀ (albums : List Album) (people : Aliases) (l : Location) (album : Album),
            albums[l.album]? = some album → album.images[l.position]? = some image →
            ∃ r, (Catalog.ofAlbums albums people).index.location? r = some l ∧
              r ∈ (Catalog.ofAlbums albums people).index.imagesRanked k) := by
  refine ⟨insideWords_subKeywords keywords, subKeywords_eq_newWords keywords, ?_, ?_⟩
  · intro name fileTime itemTime
    exact Image.keeps_new name keywords fileTime itemTime
  · intro image himage k
    refine ⟨himage.hasKeyword_iff, ?_⟩
    intro hk albums people l album halbum hposition
    exact Image.exists_rank_of_hasKeyword people halbum hposition hk

/-- A word behind two spaces is found in the second of two albums. -/
theorem keywords_found_behind_spaces :
    let image := Image.new "x.jpg" ["la tour  eiffel", "tour"] .epoch .epoch
    ∃ r, (Catalog.ofAlbums [⟨"a", .epoch, .epoch, []⟩, ⟨"b", .epoch, .epoch, [image]⟩]
        Aliases.empty).index.location? r = some ⟨1, 0⟩ ∧
      r ∈ (Catalog.ofAlbums [⟨"a", .epoch, .epoch, []⟩, ⟨"b", .epoch, .epoch, [image]⟩]
        Aliases.empty).index.imagesRanked "eiffel" := by
  intro image
  have hfound := (keywords_found ["la tour  eiffel", "tour"]).2.2.2 image (Image.keeps_new _ _ _ _)
    "eiffel"
  exact hfound.2 (by decide +kernel) _ _ ⟨1, 0⟩ ⟨"b", .epoch, .epoch, [image]⟩ rfl rfl

/-- Spaces at the ends and doubled ones leave no word, and a word is given where it first occurs. -/
example : subKeywords ["b", " c  b a", "a c d "] = ["c", "a", "d"] := by decide +kernel

end AlbumIndex
