import AlbumIndex.Catalog

/-!
# Ranks, locations and identities

A catalog keeps four tables over its images: the ranks and identities written into the images, the
identities by rank, the locations by rank, and the ranks by identity.  All of them come from one
list, the references to the images in the order of the albums: the rank of an image is its place in
that list.  Albums without images leave no trace in it.

An identity may be shared.  Later images overwrite earlier ones in the table by identity, so that
the last image of an identity is the one found by it.

Ranks, the numbers of albums and the positions in them are natural numbers here.  Where they are kept
in 32 bits, a rank and a position fit as long as there are less than `2 ^ 32` images; the number of an
album fits if there are no more than `2 ^ 32` albums, be they empty or not.  What is said of locations
and of the images found by them is said for that many albums.

## Main definitions

* `imagesBefore` — the number of images before an album.
* `refsFrom`, `Catalog.refs` — all references, in the order of the ranks.
* `Catalog.Located` — what the table of locations says.
* `Catalog.Numbered` — what all tables say.

## Main results

* `Catalog.ref?_ofAlbums` — the reference of a rank is the one at that place.
* `Catalog.ref?_eq_some_iff` — the ranks of the references are those of their images.
* `Catalog.numbered_ofAlbums` — **the tables of a catalog agree with each other.**
-/

namespace AlbumIndex

/-! ### References in order -/

/-- The number of images in the albums before the one of the given number. -/
def imagesBefore (albums : List Album) (n : Nat) : Nat :=
  ((albums.take n).flatMap Album.images).length

@[simp] theorem imagesBefore_zero (albums : List Album) : imagesBefore albums 0 = 0 := rfl

@[simp] theorem imagesBefore_cons_succ (album : Album) (albums : List Album) (n : Nat) :
    imagesBefore (album :: albums) (n + 1) = album.images.length + imagesBefore albums n := by
  simp [imagesBefore]

/-- The references to all images of albums, the first of which has the given number. -/
def refsFrom : Nat → List Album → List ImageRef
  | _, [] => []
  | n, album :: albums =>
    (album.images.mapIdx fun p image => ⟨⟨n, p⟩, album, image⟩) ++ refsFrom (n + 1) albums

theorem map_location_refsFrom (n : Nat) (albums : List Album) :
    (refsFrom n albums).map ImageRef.location = locationsFrom n albums := by
  induction albums generalizing n with
  | nil => rfl
  | cons album albums ih =>
    rw [refsFrom, locationsFrom, List.map_append, ih]
    congr 1
    apply List.ext_getElem <;> simp

theorem map_image_refsFrom (n : Nat) (albums : List Album) :
    (refsFrom n albums).map ImageRef.image = albums.flatMap Album.images := by
  induction albums generalizing n with
  | nil => rfl
  | cons album albums ih =>
    rw [refsFrom, List.map_append, ih, List.flatMap_cons]
    congr 1
    apply List.ext_getElem <;> simp

/-- A reference stands as far into the list as there are images before it. -/
theorem getElem?_refsFrom (n r : Nat) (albums : List Album) (ref : ImageRef) :
    (refsFrom n albums)[r]? = some ref ↔
      ∃ d, ref.location.album = n + d ∧ albums[d]? = some ref.album ∧
        ref.album.images[ref.location.position]? = some ref.image ∧
        r = imagesBefore albums d + ref.location.position := by
  induction albums generalizing n r with
  | nil => simp [refsFrom]
  | cons album albums ih =>
    rw [refsFrom, List.getElem?_append, List.length_mapIdx]
    by_cases hr : r < album.images.length
    · rw [if_pos hr, List.getElem?_mapIdx]
      constructor
      · intro h
        obtain ⟨image, hi, rfl⟩ := Option.map_eq_some_iff.1 h
        exact ⟨0, rfl, rfl, hi, by simp⟩
      · intro hex
        obtain ⟨d, hloc, halb, himg, hrank⟩ := hex
        obtain ⟨⟨a, p⟩, al, im⟩ := ref
        dsimp only at hloc halb himg hrank
        cases d with
        | zero =>
          obtain rfl := Option.some.inj halb
          rw [imagesBefore_zero, Nat.zero_add] at hrank
          rw [hrank, himg, hloc]
          rfl
        | succ d =>
          -- all images of the first album lie before those of a later one
          rw [imagesBefore_cons_succ] at hrank
          omega
    · rw [if_neg hr, ih]
      constructor
      · intro hex
        obtain ⟨d, hloc, halb, himg, hrank⟩ := hex
        refine ⟨d + 1, by omega, halb, himg, ?_⟩
        rw [imagesBefore_cons_succ]
        omega
      · intro hex
        obtain ⟨d, hloc, halb, himg, hrank⟩ := hex
        cases d with
        | zero =>
          -- a position in the first album lies below its length
          obtain rfl := Option.some.inj halb
          obtain ⟨hp, -⟩ := List.getElem?_eq_some_iff.1 himg
          rw [imagesBefore_zero] at hrank
          omega
        | succ d =>
          rw [imagesBefore_cons_succ] at hrank
          exact ⟨d, by omega, halb, himg, by omega⟩

/-! ### Numbering -/

theorem numberImages_eq (rel : String) (rank : Rank) (images : List Image) :
    numberImages rel rank images =
      images.mapIdx fun p image => image.numbered rel (rank + p) := by
  induction images generalizing rank with
  | nil => rfl
  | cons image images ih =>
    rw [numberImages, ih, List.mapIdx_cons]
    simp only [Nat.add_zero, Nat.add_comm 1, Nat.add_assoc]

/-- The album of a number keeps everything but the ranks and identities of its images. -/
theorem getElem?_numberAlbums (rank : Rank) (albums : List Album) (d : Nat) :
    (numberAlbums rank albums)[d]? = albums[d]?.map fun album =>
      { album with images := album.images.mapIdx fun p image =>
          image.numbered album.rel (rank + imagesBefore albums d + p) } := by
  induction albums generalizing rank d with
  | nil => rfl
  | cons album albums ih =>
    rw [numberAlbums]
    cases d with
    | zero => simp [numberImages_eq]
    | succ d => simp [ih, Nat.add_assoc]

theorem imagesBefore_numberAlbums (rank : Rank) (albums : List Album) (d : Nat) :
    imagesBefore (numberAlbums rank albums) d = imagesBefore albums d := by
  induction albums generalizing rank d with
  | nil => rfl
  | cons album albums ih =>
    rw [numberAlbums]
    cases d with
    | zero => rfl
    | succ d => simp [ih, numberImages_eq]

theorem length_flatMap_numberAlbums (rank : Rank) (albums : List Album) :
    ((numberAlbums rank albums).flatMap Album.images).length =
      (albums.flatMap Album.images).length := by
  induction albums generalizing rank with
  | nil => rfl
  | cons album albums ih => simp [numberAlbums, ih, numberImages_eq]

/-! ### The last image of an identity -/

/-- In a table filled entry by entry, the last entry of a key counts. -/
theorem getElem?_foldl_insert {α : Type} (key : α → ImageId) (value : α → Rank) (entries : List α)
    (table : Std.TreeMap ImageId Rank) (k : ImageId) :
    (entries.foldl (fun t e => t.insert (key e) (value e)) table)[k]? =
      ((entries.filter fun e => key e == k).getLast?.map value).or table[k]? := by
  induction entries generalizing table with
  | nil => simp
  | cons e entries ih =>
    rw [List.foldl_cons, ih, Std.TreeMap.getElem?_insert, List.filter_cons]
    by_cases h : key e = k
    · subst h
      -- the entry counts only if no later one has its key
      simp only [beq_self_eq_true, if_true, List.getLast?_cons, Option.map_some, Option.some_or]
      cases (entries.filter fun x => key x == key e).getLast? <;> simp
    · simp [h]

/-- The last of images in the order of their ranks has the greatest rank. -/
theorem map_rank_getLast?_eq_some_iff {images : List Image}
    (h : images.Pairwise fun a b => a.rank < b.rank) {r : Rank} :
    images.getLast?.map Image.rank = some r ↔
      (∃ image ∈ images, image.rank = r) ∧ ∀ image ∈ images, image.rank ≤ r := by
  rcases images.eq_nil_or_concat with rfl | ⟨before, last, rfl⟩
  · simp
  · rw [List.concat_eq_append] at h ⊢
    have hle : ∀ image ∈ before ++ [last], image.rank ≤ last.rank := by
      intro image hi
      rcases List.mem_append.1 hi with hi | hi
      · exact Nat.le_of_lt ((List.pairwise_append.1 h).2.2 image hi last (by simp))
      · obtain rfl := List.mem_singleton.1 hi
        exact Nat.le_refl _
    rw [List.getLast?_concat, Option.map_some, Option.some.injEq]
    constructor
    · rintro rfl
      exact ⟨⟨last, by simp, rfl⟩, hle⟩
    · intro hex
      obtain ⟨⟨image, hi, rfl⟩, hmax⟩ := hex
      exact Nat.le_antisymm (hmax last (by simp)) (hle image hi)

/-! ### The tables of a catalog -/

namespace Catalog

/-- The references to all images of a catalog, in the order of the albums. -/
def refs (c : Catalog) : List ImageRef := refsFrom 0 c.albums

variable (albums : List Album) (people : Aliases)

theorem allImages_eq (c : Catalog) : c.allImages = c.refs.map ImageRef.image :=
  (map_image_refsFrom 0 c.albums).symm

theorem length_refs_ofAlbums :
    (ofAlbums albums people).refs.length = (albums.flatMap Album.images).length := by
  rw [← length_flatMap_numberAlbums 0 albums, ← map_image_refsFrom 0, List.length_map]
  rfl

theorem imageCount_ofAlbums :
    (ofAlbums albums people).imageCount = (albums.flatMap Album.images).length := by
  rw [← length_refs_ofAlbums albums people, ← List.length_map (f := ImageRef.image), ← allImages_eq]
  simp [imageCount, Index.imageCount, ofAlbums, Index.ofAlbums, allImages]

/-- The ranks of the references are those below the number of images. -/
theorem isSome_getElem?_refs (r : Rank) :
    (ofAlbums albums people).refs[r]?.isSome ↔ r < (ofAlbums albums people).imageCount := by
  rw [isSome_getElem?, imageCount_ofAlbums, length_refs_ofAlbums]

theorem location?_ofAlbums (r : Rank) :
    (ofAlbums albums people).index.location? r =
      (ofAlbums albums people).refs[r]?.map ImageRef.location := by
  rw [← List.getElem?_map, refs, map_location_refsFrom]
  simp [ofAlbums, Index.ofAlbums, Index.location?]

/-- **The reference of a rank is the one at that place.** -/
theorem ref?_ofAlbums (r : Rank) :
    (ofAlbums albums people).ref? r = (ofAlbums albums people).refs[r]? := by
  rw [ref?, location?_ofAlbums]
  cases h : (ofAlbums albums people).refs[r]? with
  | none => rfl
  | some ref =>
    obtain ⟨d, hloc, halb, himg, -⟩ := (getElem?_refsFrom 0 r _ ref).1 h
    rw [Nat.zero_add] at hloc
    simp [hloc, halb, himg]

theorem imageAt?_ofAlbums (r : Rank) :
    (ofAlbums albums people).imageAt? r =
      (ofAlbums albums people).refs[r]?.map ImageRef.image := by
  rw [imageAt?, location?_ofAlbums]
  cases h : (ofAlbums albums people).refs[r]? with
  | none => rfl
  | some ref =>
    obtain ⟨d, hloc, halb, himg, -⟩ := (getElem?_refsFrom 0 r _ ref).1 h
    rw [Nat.zero_add] at hloc
    simp [imageIn?, hloc, halb, himg]

variable {albums people}

/-- The numbering of an image by its reference: its rank is the place of the reference, and its
identity is made of the path, the name and the file time. -/
theorem numbered_of_getElem?_refs {r : Rank} {ref : ImageRef}
    (h : (ofAlbums albums people).refs[r]? = some ref) :
    ref.image.rank = r ∧
      ref.image.id = imageId ref.album.rel ref.image.name ref.image.fileTime.toMillis := by
  obtain ⟨d, hloc, halb, himg, hrank⟩ := (getElem?_refsFrom 0 r _ ref).1 h
  -- back from the numbered album and image to those that were given
  have halb' : (numberAlbums 0 albums)[d]? = some ref.album := halb
  rw [getElem?_numberAlbums] at halb'
  obtain ⟨album, -, hnum⟩ := Option.map_eq_some_iff.1 halb'
  rw [← hnum, List.getElem?_mapIdx] at himg
  obtain ⟨image, -, hi⟩ := Option.map_eq_some_iff.1 himg
  have hbefore : imagesBefore (ofAlbums albums people).albums d = imagesBefore albums d :=
    imagesBefore_numberAlbums 0 albums d
  rw [← hi, ← hnum, hrank, hbefore]
  exact ⟨congrArg (· + _) (Nat.zero_add _), rfl⟩

theorem rank_of_getElem?_refs {r : Rank} {ref : ImageRef}
    (h : (ofAlbums albums people).refs[r]? = some ref) : ref.image.rank = r :=
  (numbered_of_getElem?_refs h).1

/-- The references of the ranks are those to the places of the catalog. -/
theorem ref?_eq_some_iff {r : Rank} {ref : ImageRef} :
    (ofAlbums albums people).ref? r = some ref ↔
      (ofAlbums albums people).albums[ref.location.album]? = some ref.album ∧
        ref.album.images[ref.location.position]? = some ref.image ∧ ref.image.rank = r := by
  rw [ref?_ofAlbums]
  constructor
  · intro h
    obtain ⟨d, hloc, halb, himg, -⟩ := (getElem?_refsFrom 0 r _ ref).1 h
    rw [Nat.zero_add] at hloc
    rw [hloc]
    exact ⟨halb, himg, rank_of_getElem?_refs h⟩
  · intro hex
    obtain ⟨halb, himg, rfl⟩ := hex
    have h : (ofAlbums albums people).refs[imagesBefore (ofAlbums albums people).albums
        ref.location.album + ref.location.position]? = some ref :=
      (getElem?_refsFrom 0 _ _ ref).2 ⟨_, (Nat.zero_add _).symm, halb, himg, rfl⟩
    rw [rank_of_getElem?_refs h]
    exact h

theorem imageAt?_eq_map_ref? (r : Rank) :
    (ofAlbums albums people).imageAt? r = ((ofAlbums albums people).ref? r).map ImageRef.image := by
  rw [imageAt?_ofAlbums, ref?_ofAlbums]

/-- The location of a rank is the place with that many images before it. -/
theorem location?_eq_some_iff {r : Rank} {l : Location} :
    (ofAlbums albums people).index.location? r = some l ↔
      ∃ album image, albums[l.album]? = some album ∧ album.images[l.position]? = some image ∧
        r = imagesBefore albums l.album + l.position := by
  rw [location?_ofAlbums, Option.map_eq_some_iff]
  have hbefore := imagesBefore_numberAlbums 0 albums
  constructor
  · intro h
    obtain ⟨ref, href, rfl⟩ := h
    obtain ⟨d, hloc, halb, himg, hrank⟩ := (getElem?_refsFrom 0 r _ ref).1 href
    have halb' : (numberAlbums 0 albums)[d]? = some ref.album := halb
    rw [getElem?_numberAlbums] at halb'
    obtain ⟨album, ha, hnum⟩ := Option.map_eq_some_iff.1 halb'
    rw [← hnum, List.getElem?_mapIdx] at himg
    obtain ⟨image, hi, -⟩ := Option.map_eq_some_iff.1 himg
    rw [Nat.zero_add] at hloc
    rw [hloc]
    exact ⟨album, image, ha, hi, hrank.trans (congrArg (· + _) (hbefore d))⟩
  · intro h
    obtain ⟨album, image, ha, hi, rfl⟩ := h
    refine ⟨⟨l, _, image.numbered album.rel (0 + imagesBefore albums l.album + l.position)⟩,
      (getElem?_refsFrom 0 _ _ _).2 ⟨l.album, (Nat.zero_add _).symm,
        (getElem?_numberAlbums 0 albums l.album).trans (congrArg _ ha), ?_, ?_⟩, rfl⟩
    · simp [hi]
    · exact congrArg (· + l.position) (hbefore l.album).symm

/-- The rank of a place leads to the image that was given there, numbered. -/
theorem imageAt?_of_getElem? {d p : Nat} {album : Album} {image : Image}
    (halbum : albums[d]? = some album) (himage : album.images[p]? = some image) :
    (ofAlbums albums people).imageAt? (imagesBefore albums d + p) =
      some (image.numbered album.rel (imagesBefore albums d + p)) := by
  have hlocation : (ofAlbums albums people).index.location? (imagesBefore albums d + p) =
      some ⟨d, p⟩ := location?_eq_some_iff.2 ⟨album, image, halbum, himage, rfl⟩
  have hnumbered : (ofAlbums albums people).albums[d]? = _ := getElem?_numberAlbums 0 albums d
  rw [imageAt?, hlocation, Option.bind_some, imageIn?, hnumbered, halbum]
  simp [himage]

/-- The image of a rank has that rank and lies at its location. -/
theorem imageAt?_eq_some_iff_location {r : Rank} {image : Image} :
    (ofAlbums albums people).imageAt? r = some image ↔
      image.rank = r ∧ ∃ l, (ofAlbums albums people).index.location? r = some l ∧
        (ofAlbums albums people).imageIn? l = some image := by
  have hbind : (ofAlbums albums people).imageAt? r = some image ↔
      ∃ l, (ofAlbums albums people).index.location? r = some l ∧
        (ofAlbums albums people).imageIn? l = some image := Option.bind_eq_some_iff
  rw [← hbind]
  refine ⟨fun h => ⟨?_, h⟩, And.right⟩
  rw [imageAt?_ofAlbums] at h
  obtain ⟨ref, href, rfl⟩ := Option.map_eq_some_iff.1 h
  exact rank_of_getElem?_refs href

/-- The images stand in the order of their ranks. -/
theorem allImages_pairwise_rank :
    (ofAlbums albums people).allImages.Pairwise fun a b => a.rank < b.rank := by
  rw [allImages_eq, List.pairwise_iff_getElem]
  intro i j hi hj hij
  rw [List.length_map] at hi hj
  rw [List.getElem_map, List.getElem_map, rank_of_getElem?_refs (List.getElem?_eq_getElem hi),
    rank_of_getElem?_refs (List.getElem?_eq_getElem hj)]
  exact hij

/-- The images of the ranks are all images. -/
theorem imageAt?_eq_some_iff {r : Rank} {image : Image} :
    (ofAlbums albums people).imageAt? r = some image ↔
      image ∈ (ofAlbums albums people).allImages ∧ image.rank = r := by
  rw [imageAt?_ofAlbums, allImages_eq, Option.map_eq_some_iff]
  constructor
  · intro h
    obtain ⟨ref, href, rfl⟩ := h
    exact ⟨List.mem_map_of_mem (List.mem_of_getElem? href), rank_of_getElem?_refs href⟩
  · rintro ⟨hi, rfl⟩
    obtain ⟨ref, href, rfl⟩ := List.mem_map.1 hi
    obtain ⟨k, hk⟩ := List.mem_iff_getElem?.1 href
    exact ⟨ref, by rw [rank_of_getElem?_refs hk]; exact hk, rfl⟩

theorem idOf?_ofAlbums (r : Rank) :
    (ofAlbums albums people).index.idOf? r =
      (ofAlbums albums people).refs[r]?.map fun ref => ref.image.id := by
  have himages : (numberAlbums 0 albums).flatMap Album.images =
      (ofAlbums albums people).refs.map ImageRef.image := allImages_eq (ofAlbums albums people)
  simp only [ofAlbums, Index.ofAlbums, Index.idOf?]
  rw [List.getElem?_toArray, himages, List.map_map, List.getElem?_map]
  rfl

/-- The images of an identity, in the order of their ranks. -/
def imagesOf (c : Catalog) (id : ImageId) : List Image :=
  c.allImages.filter fun image => image.id == id

theorem idOf?_eq_map_imageAt? (r : Rank) :
    (ofAlbums albums people).index.idOf? r =
      ((ofAlbums albums people).imageAt? r).map Image.id := by
  rw [idOf?_ofAlbums, imageAt?_ofAlbums, Option.map_map]
  rfl

theorem idOf?_eq_some_iff {id : ImageId} {r : Rank} :
    (ofAlbums albums people).index.idOf? r = some id ↔
      ∃ image ∈ (ofAlbums albums people).imagesOf id, image.rank = r := by
  rw [idOf?_eq_map_imageAt?, Option.map_eq_some_iff]
  simp only [imageAt?_eq_some_iff, imagesOf, List.mem_filter, beq_iff_eq]
  constructor
  · intro h
    obtain ⟨image, ⟨hi, hr⟩, hid⟩ := h
    exact ⟨image, ⟨hi, hid⟩, hr⟩
  · intro h
    obtain ⟨image, ⟨hi, hid⟩, hr⟩ := h
    exact ⟨image, ⟨hi, hr⟩, hid⟩

/-- The identity of a rank is that of the image that was given at the place with that many images
before it. -/
theorem idOf?_eq_some_iff_place {id : ImageId} {r : Rank} :
    (ofAlbums albums people).index.idOf? r = some id ↔
      ∃ (d p : Nat) (album : Album) (image : Image), albums[d]? = some album ∧
        album.images[p]? = some image ∧ r = imagesBefore albums d + p ∧
        id = imageId album.rel image.name image.fileTime.toMillis := by
  have hplace : ∀ (d p : Nat) (album : Album) (image : Image), albums[d]? = some album →
      album.images[p]? = some image →
      (ofAlbums albums people).index.idOf? (imagesBefore albums d + p) =
        some (imageId album.rel image.name image.fileTime.toMillis) := by
    intro d p album image halbum himage
    rw [idOf?_eq_map_imageAt?, imageAt?_of_getElem? halbum himage]
    rfl
  constructor
  · intro hid
    obtain ⟨ref, href, -⟩ := Option.map_eq_some_iff.1 ((idOf?_ofAlbums r).symm.trans hid)
    have hlocation : (ofAlbums albums people).index.location? r = some ref.location := by
      rw [location?_ofAlbums, href]
      rfl
    obtain ⟨album, image, halbum, himage, rfl⟩ := location?_eq_some_iff.1 hlocation
    rw [hplace _ _ _ _ halbum himage] at hid
    exact ⟨_, _, album, image, halbum, himage, rfl, (Option.some.inj hid).symm⟩
  · rintro ⟨d, p, album, image, halbum, himage, rfl, rfl⟩
    exact hplace d p album image halbum himage

theorem rankOf?_ofAlbums (id : ImageId) :
    (ofAlbums albums people).index.rankOf? id =
      ((ofAlbums albums people).imagesOf id).getLast?.map Image.rank := by
  have := getElem?_foldl_insert Image.id Image.rank (ofAlbums albums people).allImages ∅ id
  rw [Std.TreeMap.getElem?_emptyc, Option.or_none] at this
  exact this

/-- **The table by identity holds the greatest rank of each identity.** -/
theorem rankOf?_eq_some_iff {id : ImageId} {r : Rank} :
    (ofAlbums albums people).index.rankOf? id = some r ↔
      (ofAlbums albums people).index.idOf? r = some id ∧
        ∀ r', (ofAlbums albums people).index.idOf? r' = some id → r' ≤ r := by
  have hasc : ((ofAlbums albums people).imagesOf id).Pairwise fun a b => a.rank < b.rank :=
    allImages_pairwise_rank.filter _
  rw [rankOf?_ofAlbums, map_rank_getLast?_eq_some_iff hasc, idOf?_eq_some_iff]
  refine and_congr_right fun _ => ⟨fun h r' hr' => ?_, fun h image hi => ?_⟩
  · obtain ⟨image, hi, rfl⟩ := idOf?_eq_some_iff.1 hr'
    exact h image hi
  · exact h image.rank (idOf?_eq_some_iff.2 ⟨image, hi, rfl⟩)

theorem rankOf?_eq_none_iff {id : ImageId} :
    (ofAlbums albums people).index.rankOf? id = none ↔
      ∀ r, (ofAlbums albums people).index.idOf? r ≠ some id := by
  rw [rankOf?_ofAlbums, Option.map_eq_none_iff, List.getLast?_eq_none_iff,
    List.eq_nil_iff_forall_not_mem]
  constructor
  · intro h r hr
    obtain ⟨image, hi, -⟩ := idOf?_eq_some_iff.1 hr
    exact h image hi
  · exact fun h image hi => h image.rank (idOf?_eq_some_iff.2 ⟨image, hi, rfl⟩)

/-- From a rank to its identity and back one does not come to a smaller rank. -/
theorem exists_rankOf?_of_idOf? {id : ImageId} {r : Rank}
    (h : (ofAlbums albums people).index.idOf? r = some id) :
    ∃ r', (ofAlbums albums people).index.rankOf? id = some r' ∧ r ≤ r' := by
  cases hr : (ofAlbums albums people).index.rankOf? id with
  | none => exact absurd h (rankOf?_eq_none_iff.1 hr r)
  | some r' => exact ⟨r', rfl, (rankOf?_eq_some_iff.1 hr).2 r h⟩

/-! ### All tables together -/

/-- What the table of locations says, and the images that are found by it. -/
structure Located (c : Catalog) (albums : List Album) : Prop where
  /-- Whatever the table holds fits into 32 bits. -/
  fits : ∀ r l, c.index.location? r = some l →
    r < UInt32.size ∧ l.album < UInt32.size ∧ l.position < UInt32.size
  /-- The location of a rank is the place with that many images before it. -/
  location_iff : ∀ r l, c.index.location? r = some l ↔
    ∃ album image, albums[l.album]? = some album ∧ album.images[l.position]? = some image ∧
      r = imagesBefore albums l.album + l.position
  /-- The ranks with an image are those below the number of images. -/
  imageAt_isSome : ∀ r, (c.imageAt? r).isSome ↔ r < c.imageCount
  /-- The image of a rank has that rank, and lies at the location of the rank. -/
  imageAt_iff : ∀ r image, c.imageAt? r = some image ↔
    image.rank = r ∧ ∃ l, c.index.location? r = some l ∧ c.imageIn? l = some image

/-- What the tables of a catalog over the given albums say. -/
structure Numbered (c : Catalog) (albums : List Album) : Prop where
  /-- Albums and images are as given, but for the identity and the rank of the images; the rank is
  the number of images before it. -/
  albums_eq : ∀ d, c.albums[d]? = albums[d]?.map fun album : Album =>
    ({ album with images := album.images.mapIdx fun p image =>
        { image with
          id := imageId album.rel image.name image.fileTime.toMillis
          rank := imagesBefore albums d + p } } : Album)
  /-- There are as many ranks as images. -/
  imageCount_eq : c.imageCount = (albums.flatMap Album.images).length
  /-- The ranks are those below the number of images. -/
  location_isSome : ∀ r, (c.index.location? r).isSome ↔ r < c.imageCount
  idOf_isSome : ∀ r, (c.index.idOf? r).isSome ↔ r < c.imageCount
  /-- If the numbers of the albums fit into 32 bits, every rank has its image and its location. -/
  located : albums.length ≤ UInt32.size → c.Located albums
  /-- The identity of a rank is made of the album, the name and the file time of its image. -/
  idOf_iff : ∀ r id, c.index.idOf? r = some id ↔
    ∃ (d p : Nat) (album : Album) (image : Image), albums[d]? = some album ∧
      album.images[p]? = some image ∧ r = imagesBefore albums d + p ∧
      id = imageId album.rel image.name image.fileTime.toMillis
  /-- The rank of an identity is the greatest of all ranks that have it. -/
  rankOf_eq_some_iff : ∀ id r, c.index.rankOf? id = some r ↔
    c.index.idOf? r = some id ∧ ∀ r', c.index.idOf? r' = some id → r' ≤ r
  /-- An identity that no rank has is not found. -/
  rankOf_eq_none_iff : ∀ id, c.index.rankOf? id = none ↔ ∀ r, c.index.idOf? r ≠ some id
  /-- From a rank to its identity and back one comes to that rank or to a greater one. -/
  le_rankOf : ∀ r id, c.index.idOf? r = some id → ∃ r', c.index.rankOf? id = some r' ∧ r ≤ r'
  /-- Where no two ranks share an identity, one comes back to the rank. -/
  rankOf_idOf : (∀ r r' id, c.index.idOf? r = some id → c.index.idOf? r' = some id → r = r') →
    ∀ r id, c.index.idOf? r = some id → c.index.rankOf? id = some r

/-- The table of locations, if there are not too many images and albums. -/
theorem located_ofAlbums (himages : (albums.flatMap Album.images).length < UInt32.size)
    (halbums : albums.length ≤ UInt32.size) : (ofAlbums albums people).Located albums := by
  refine
    { fits := fun r l hlocation => ?_
      location_iff := fun r l => location?_eq_some_iff
      imageAt_isSome := fun r => ?_
      imageAt_iff := fun r image => imageAt?_eq_some_iff_location }
  · have hrank : r < (ofAlbums albums people).refs.length := by
      rw [location?_ofAlbums] at hlocation
      obtain ⟨ref, href, -⟩ := Option.map_eq_some_iff.1 hlocation
      exact (List.getElem?_eq_some_iff.1 href).1
    rw [length_refs_ofAlbums] at hrank
    obtain ⟨album, image, halbum, -, hplace⟩ := location?_eq_some_iff.1 hlocation
    have hnumber : l.album < albums.length := (List.getElem?_eq_some_iff.1 halbum).1
    have hposition : l.position ≤ r := hplace ▸ Nat.le_add_left _ _
    have hfits : r < UInt32.size := Nat.lt_trans hrank himages
    exact ⟨hfits, Nat.lt_of_lt_of_le hnumber halbums, Nat.lt_of_le_of_lt hposition hfits⟩
  · rw [imageAt?_ofAlbums, Option.isSome_map, isSome_getElem?_refs]

/-- **The tables of a catalog agree with each other**, and leave everything else as given, if there
are not too many images for ranks of 32 bits. -/
theorem numbered_ofAlbums (albums : List Album) (people : Aliases)
    (himages : (albums.flatMap Album.images).length < UInt32.size) :
    (ofAlbums albums people).Numbered albums := by
  refine
    { albums_eq := fun d => ?_
      imageCount_eq := ?_
      location_isSome := fun r => ?_
      idOf_isSome := fun r => ?_
      located := located_ofAlbums himages
      idOf_iff := fun r id => idOf?_eq_some_iff_place
      rankOf_eq_some_iff := fun id r => rankOf?_eq_some_iff
      rankOf_eq_none_iff := fun id => rankOf?_eq_none_iff
      le_rankOf := fun r id => exists_rankOf?_of_idOf?
      rankOf_idOf := fun hinj r id hr => ?_ }
  · rw [ofAlbums, getElem?_numberAlbums]
    simp only [Nat.zero_add, Image.numbered]
  · exact imageCount_ofAlbums albums people
  · rw [location?_ofAlbums, Option.isSome_map, isSome_getElem?_refs]
  · rw [idOf?_ofAlbums, Option.isSome_map, isSome_getElem?_refs]
  · obtain ⟨r', hr', -⟩ := exists_rankOf?_of_idOf? hr
    rw [hr', hinj r r' id hr (rankOf?_eq_some_iff.1 hr').1]

/-- An album without images between two that have one each. -/
def partedAlbums : List Album :=
  [⟨"a", .epoch, .epoch, [.new "x.jpg" [] .epoch .epoch]⟩, ⟨"b", .epoch, .epoch, []⟩,
    ⟨"c", .epoch, .epoch, [.new "x.jpg" [] .epoch .epoch]⟩]

/-- The album without images is passed over: the second rank leads to the third album. -/
theorem numbered_around_an_empty_album :
    (partedAlbums.flatMap Album.images).length < UInt32.size ∧ partedAlbums.length ≤ UInt32.size ∧
      (ofAlbums partedAlbums .empty).index.location? 1 = some ⟨2, 0⟩ ∧
      (ofAlbums partedAlbums .empty).index.idOf? 1 = some (imageId "c" "x.jpg" 0) ∧
      ((ofAlbums partedAlbums .empty).imageAt? 2).isSome = false := by
  have himages : (partedAlbums.flatMap Album.images).length < UInt32.size := by decide
  have halbums : partedAlbums.length ≤ UInt32.size := by decide
  have hnumbered := numbered_ofAlbums partedAlbums .empty himages
  have hlocated := hnumbered.located halbums
  refine ⟨himages, halbums, (hlocated.location_iff 1 ⟨2, 0⟩).2 ⟨_, _, rfl, rfl, rfl⟩,
    (hnumbered.idOf_iff 1 _).2 ⟨2, 0, _, _, rfl, rfl, rfl, rfl⟩, ?_⟩
  rw [← Bool.not_eq_true, hlocated.imageAt_isSome, hnumbered.imageCount_eq]
  decide

end Catalog
end AlbumIndex
