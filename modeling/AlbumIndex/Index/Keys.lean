import AlbumIndex.Image
import AlbumIndex.Text.Folding

/-!
# The keys of an image

An image is found under its keywords as they are written, under their folded forms, and under the
folded form of its file name.  Its sub-keywords form a second table, again with their folded forms.
Folding goes through a cache, which one visit after the other hands on.

## Main definitions

* `Image.literalKeys` — the keys of an image in the table of keywords.
* `Image.subKeys` — the keys of an image in the table of sub-keywords.
* `Visit`, `Image.visit` — the keys of an image, folded by a cache.
* `visitAll` — the visits of several images, one after the other.

## Main results

* `visitAll_fst` — the visits are those of the keys, whatever the cache has been used for.
-/

namespace AlbumIndex

open Text

/-! ### Keys -/

/-- A keyword, and its folded form if that is another one. -/
def spellings (keyword : String) : List String :=
  let folded := fold keyword
  if folded = keyword then [keyword] else [keyword, folded]

/-- The keys of an image in the table of keywords. -/
def Image.literalKeys (image : Image) : List String :=
  fold image.name :: image.keywords.flatMap spellings

/-- The keys of an image in the table of sub-keywords. -/
def Image.subKeys (image : Image) : List String := image.subKeywords.flatMap spellings

/-! ### Visits -/

/-- The rank of an image and the keys it was met under. -/
structure Visit where
  rank : Rank
  /-- Its keys in the table of keywords. -/
  literal : List String
  /-- Its keys in the table of sub-keywords. -/
  sub : List String

/-- A keyword, and its folded form if that is another one, with the cache afterwards. -/
def Text.FoldCache.spellings (cache : FoldCache) (keyword : String) : List String × FoldCache :=
  let (folded, cache) := cache.fold keyword
  (if folded = keyword then [keyword] else [keyword, folded], cache)

/-- The spellings of several keywords, with the cache afterwards. -/
def Text.FoldCache.spellingsAll (cache : FoldCache) : List String → List String × FoldCache
  | [] => ([], cache)
  | k :: ks =>
    let (first, cache) := cache.spellings k
    let (rest, cache) := cache.spellingsAll ks
    (first ++ rest, cache)

/-- The keys of an image, with the cache afterwards: the name is folded first, then the keywords,
then the sub-keywords. -/
def Image.visit (image : Image) (cache : FoldCache) : Visit × FoldCache :=
  let (name, cache) := cache.fold image.name
  let (literal, cache) := cache.spellingsAll image.keywords
  let (sub, cache) := cache.spellingsAll image.subKeywords
  (⟨image.rank, name :: literal, sub⟩, cache)

/-- The visits of several images, with the cache afterwards. -/
def visitAll (cache : FoldCache) : List Image → List Visit × FoldCache
  | [] => ([], cache)
  | image :: images =>
    let (first, cache) := image.visit cache
    let (rest, cache) := visitAll cache images
    (first :: rest, cache)

/-! ### The cache does not show -/

namespace Text.FoldCache

variable {cache : FoldCache}

theorem spellings_fst (h : cache.Sound) (keyword : String) :
    (cache.spellings keyword).1 = AlbumIndex.spellings keyword := by
  simp only [spellings, AlbumIndex.spellings, fold_fst h]

theorem Sound.spellings_snd (h : cache.Sound) (keyword : String) :
    (cache.spellings keyword).2.Sound := h.fold_snd keyword

theorem spellingsAll_spec (h : cache.Sound) (keywords : List String) :
    (cache.spellingsAll keywords).1 = keywords.flatMap AlbumIndex.spellings ∧
      (cache.spellingsAll keywords).2.Sound := by
  induction keywords generalizing cache with
  | nil => exact ⟨rfl, h⟩
  | cons k ks ih =>
    obtain ⟨hrest, hsound⟩ := ih (h.spellings_snd k)
    refine ⟨?_, hsound⟩
    rw [List.flatMap_cons, ← hrest, ← spellings_fst h k]
    rfl

end Text.FoldCache

/-- The visit of an image by its keys, without a cache. -/
def Image.keys (image : Image) : Visit := ⟨image.rank, image.literalKeys, image.subKeys⟩

theorem Image.visit_spec {cache : FoldCache} (h : cache.Sound) (image : Image) :
    (image.visit cache).1 = image.keys ∧ (image.visit cache).2.Sound := by
  obtain ⟨hlit, h₂⟩ := FoldCache.spellingsAll_spec (h.fold_snd image.name) image.keywords
  obtain ⟨hsub, h₃⟩ := FoldCache.spellingsAll_spec h₂ image.subKeywords
  refine ⟨?_, h₃⟩
  rw [Image.keys, Image.literalKeys, Image.subKeys, ← hlit, ← hsub, ← FoldCache.fold_fst h]
  rfl

/-- **A sound cache does not show**: each visit has the keys of its image. -/
theorem visitAll_fst {cache : FoldCache} (h : cache.Sound) (images : List Image) :
    (visitAll cache images).1 = images.map Image.keys := by
  induction images generalizing cache with
  | nil => rfl
  | cons image images ih =>
    obtain ⟨hfirst, hsound⟩ := image.visit_spec h
    rw [List.map_cons, ← hfirst, ← ih hsound]
    rfl

theorem visitAll_snd_sound {cache : FoldCache} (h : cache.Sound) (images : List Image) :
    (visitAll cache images).2.Sound := by
  induction images generalizing cache with
  | nil => exact h
  | cons image images ih => exact ih (image.visit_spec h).2

end AlbumIndex
