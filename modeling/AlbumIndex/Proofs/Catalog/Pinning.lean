import AlbumIndex.Proofs.Catalog.Album
import AlbumIndex.Proofs.Outcomes
import AlbumIndex.Snapshot.Materialize

/-!
# Putting albums in order

An album is put in order once its images are known: they are sorted by name, the latest file time
becomes the time of the last change, and where the path names a date, runaway times are pinned to
it.  A pinned time depends on the position of its image alone, so putting an album in order once
more finds the images where they are and pins the same times again, whether or not these have run
away themselves.  Positions depend on the names alone, so that images of distinct names may come in
any order, and the items of a snapshot as well.

All this supposes that the calendar has room: next to its end there are dates that no year follows.

## Main definitions

* `IsLatestTime` — the latest of some instants, but not before the epoch.
* `Image.pinned` — an image with the time that an album of a given date leaves it.
* `Album.InOrder` — an album made of images and put in order.

## Main results

* `Album.ofImages_eq_ok_iff` — an album put in order, as an equation.
* `Album.ofImages_again` — **an album in order stays as it is.**
* `Album.ofImages_of_perm` — images of distinct names may come in any order.
* `Album.ofImages_in_order` — **what it is to put an album in order, and when it can be done.**
-/

namespace AlbumIndex

open Calendar

/-! ### The latest time -/

/-- The instant is the latest of the given ones, or the epoch if none of them is later. -/
structure IsLatestTime (times : List Instant) (t : Instant) : Prop where
  epoch_le : Instant.epoch ≤ t
  le : ∀ s ∈ times, s ≤ t
  attained : t = Instant.epoch ∨ t ∈ times

/-- The latest time depends on the times only, not on how they are arranged. -/
theorem IsLatestTime.unique {times times' : List Instant} {s t : Instant}
    (hmem : ∀ u, u ∈ times ↔ u ∈ times') (hs : IsLatestTime times s) (ht : IsLatestTime times' t) :
    s = t := by
  apply Instant.le_antisymm
  · rcases hs.attained with rfl | hs
    · exact ht.epoch_le
    · exact ht.le s ((hmem s).1 hs)
  · rcases ht.attained with rfl | ht
    · exact hs.epoch_le
    · exact hs.le t ((hmem t).2 ht)

theorem Calendar.Instant.latest_cases (a b : Instant) :
    a ≤ a.latest b ∧ b ≤ a.latest b ∧ (a.latest b = a ∨ a.latest b = b) := by
  unfold Instant.latest
  split
  · next h => exact ⟨h, Instant.le_refl b, Or.inr rfl⟩
  · next h => exact ⟨Instant.le_refl a, (Instant.le_total a b).resolve_left h, Or.inl rfl⟩

/-- What a fold has found after a row of images: nothing earlier than it began with, and no time
that was not there. -/
theorem foldl_latest_spec (images : List Image) (t : Instant) :
    t ≤ images.foldl (fun t image => t.latest image.fileTime) t ∧
      (∀ s ∈ images.map Image.fileTime,
        s ≤ images.foldl (fun t image => t.latest image.fileTime) t) ∧
      (images.foldl (fun t image => t.latest image.fileTime) t = t ∨
        images.foldl (fun t image => t.latest image.fileTime) t ∈ images.map Image.fileTime) := by
  induction images generalizing t with
  | nil => exact ⟨Instant.le_refl t, by simp, Or.inl rfl⟩
  | cons image images ih =>
    obtain ⟨hle, hfile, hcases⟩ := Instant.latest_cases t image.fileTime
    obtain ⟨hfrom, hrest, hfound⟩ := ih (t.latest image.fileTime)
    rw [List.foldl_cons, List.map_cons]
    refine ⟨Instant.le_trans hle hfrom, ?_, ?_⟩
    · intro s hs
      rcases List.mem_cons.1 hs with rfl | hs
      · exact Instant.le_trans hfile hfrom
      · exact hrest s hs
    · rcases hfound with hfound | hfound
      · rw [hfound]
        rcases hcases with h | h
        · exact Or.inl h
        · right
          rw [h]
          exact List.mem_cons_self
      · exact Or.inr (List.mem_cons_of_mem _ hfound)

theorem isLatestTime_latestFileTime (images : List Image) :
    IsLatestTime (images.map Image.fileTime) (Album.latestFileTime images) := by
  obtain ⟨hfrom, hle, hfound⟩ := foldl_latest_spec images Instant.epoch
  exact ⟨hfrom, hle, hfound⟩

theorem latestFileTime_of_perm {images images' : List Image}
    (h : (images'.map Image.fileTime).Perm (images.map Image.fileTime)) :
    Album.latestFileTime images' = Album.latestFileTime images :=
  (isLatestTime_latestFileTime images').unique (fun _ => h.mem_iff)
    (isLatestTime_latestFileTime images)

/-! ### Pinned times -/

/-- The image at a position of an album that may be dated: a time more than a year after the date
becomes the date and as many hours as the position says, and all else stays. -/
def Image.pinned (date : Option Instant) (position : Nat) (image : Image) : Image :=
  match date with
  | none => image
  | some date =>
    if Instant.ofSeconds (date.seconds + Album.secondsPerYear) < image.itemTime then
      { image with itemTime := Instant.ofSeconds (date.seconds + 3600 * position) }
    else image

namespace Image

variable {date : Option Instant} {position : Nat} {image : Image}

@[simp] theorem fileTime_pinned : (image.pinned date position).fileTime = image.fileTime := by
  unfold pinned
  cases date with
  | none => rfl
  | some date =>
    dsimp only
    split <;> rfl

/-- A time that is left late was late before. -/
theorem late_of_late_pinned {day : Instant}
    (h : Instant.ofSeconds (day.seconds + Album.secondsPerYear) <
      (image.pinned (some day) position).itemTime) :
    Instant.ofSeconds (day.seconds + Album.secondsPerYear) < image.itemTime := by
  refine Decidable.byContradiction fun hnot => ?_
  have hsame : image.pinned (some day) position = image := if_neg hnot
  rw [hsame] at h
  exact hnot h

/-- At the same position a pinned time is pinned to itself, or stays. -/
@[simp] theorem pinned_pinned :
    (image.pinned date position).pinned date position = image.pinned date position := by
  cases date with
  | none => rfl
  | some day =>
    by_cases hlate : Instant.ofSeconds (day.seconds + Album.secondsPerYear) < image.itemTime
    · have hpin : image.pinned (some day) position =
          { image with itemTime := Instant.ofSeconds (day.seconds + 3600 * position) } :=
        if_pos hlate
      rw [hpin]
      unfold pinned
      dsimp only
      split <;> rfl
    · have hsame : image.pinned (some day) position = image := if_neg hlate
      rw [hsame, hsame]

end Image

namespace Album

variable {rel : String} {indexTime : Instant} {offset : Offset} {images images' : List Image}
  {album : Album}

theorem pinImage_eq {seconds : Int} {position : Nat} {image image' : Image}
    (h : pinImage (Instant.ofSeconds seconds) (Instant.ofSeconds (seconds + secondsPerYear)) image
      position = .ok image') :
    image' = image.pinned (some (Instant.ofSeconds seconds)) position := by
  unfold pinImage at h
  by_cases hlate : Instant.ofSeconds (seconds + secondsPerYear) < image.itemTime
  · have hpin : image.pinned (some (Instant.ofSeconds seconds)) position =
        { image with itemTime := Instant.ofSeconds (seconds + 3600 * position) } := if_pos hlate
    rw [if_pos hlate] at h
    obtain ⟨t, ht, rfl⟩ := map_eq_ok_iff.1 h
    rw [addSeconds_ofSeconds] at ht
    split at ht
    · rw [hpin, ← Except.ok.inj ht]
    · cases ht
  · have hsame : image.pinned (some (Instant.ofSeconds seconds)) position = image := if_neg hlate
    rw [if_neg hlate] at h
    rw [hsame, Except.ok.inj h]

/-- Images are pinned one by one, each at its position. -/
theorem pinFrom_eq {seconds : Int} {position : Nat}
    (h : pinFrom (Instant.ofSeconds seconds) (Instant.ofSeconds (seconds + secondsPerYear)) position
      images = .ok images') :
    images' = images.mapIdx fun p image =>
      image.pinned (some (Instant.ofSeconds seconds)) (position + p) := by
  induction images generalizing position images' with
  | nil =>
    cases h
    rfl
  | cons image images ih =>
    rw [pinFrom] at h
    obtain ⟨first, hfirst, h⟩ := bind_eq_ok_iff.1 h
    obtain ⟨rest, hrest, h⟩ := bind_eq_ok_iff.1 h
    rw [← Except.ok.inj h, pinImage_eq hfirst, ih hrest, List.mapIdx_cons]
    simp [Nat.add_assoc, Nat.add_comm 1]

/-! ### An album as an equation -/

theorem pinTimes_eq {date : Instant} (hdate : date = Instant.ofSeconds date.seconds)
    (h : pinTimes date images = .ok images') :
    images' = images.mapIdx (Image.pinned (some date)) := by
  unfold pinTimes at h
  obtain ⟨last, hlast, h⟩ := bind_eq_ok_iff.1 h
  rw [hdate, addSeconds_ofSeconds] at hlast
  split at hlast
  · rw [hdate, ← Except.ok.inj hlast] at h
    have hpin := pinFrom_eq h
    simp only [Nat.zero_add] at hpin
    rw [hdate]
    exact hpin
  · cases hlast

/-- **An album put in order, as an equation**: the images by name, with their times pinned to the
date of the path.  There is such an album if the calendar has room for it. -/
theorem ofImages_eq_ok_iff :
    ofImages rel indexTime images offset = .ok album ↔
      HasRoom rel offset images ∧
        album = ⟨rel, indexTime, latestFileTime images,
          (byName images).mapIdx (Image.pinned (guessInstant? rel offset))⟩ := by
  have heq : ∀ {album : Album}, ofImages rel indexTime images offset = .ok album →
      album = ⟨rel, indexTime, latestFileTime images,
        (byName images).mapIdx (Image.pinned (guessInstant? rel offset))⟩ := by
    intro album h
    unfold ofImages at h
    cases hguess : guessInstant? rel offset with
    | none =>
      rw [hguess] at h
      rw [← Except.ok.inj h]
      congr 1
      symm
      apply List.mapIdx_eq_iff.2
      intro p
      exact Option.map_id'.symm
    | some date =>
      rw [hguess] at h
      obtain ⟨pinned, hpinned, h⟩ := bind_eq_ok_iff.1 h
      rw [← Except.ok.inj h, pinTimes_eq (guessInstant?_eq_some hguess) hpinned]
  constructor
  · intro h
    exact ⟨exists_ofImages_iff.1 ⟨album, h⟩, heq h⟩
  · rintro ⟨hroom, rfl⟩
    obtain ⟨album, halbum⟩ : ∃ album, ofImages rel indexTime images offset = .ok album :=
      exists_ofImages_iff.2 hroom
    rw [halbum, heq halbum]

/-! ### Once more, and in another order -/

/-- The times of files stay, whatever the order of the images and the times they are pinned to. -/
theorem perm_fileTime {date : Option Instant} :
    (((byName images).mapIdx (Image.pinned date)).map Image.fileTime).Perm
      (images.map Image.fileTime) := by
  have hsame : ((byName images).mapIdx (Image.pinned date)).map Image.fileTime =
      (byName images).map Image.fileTime := by
    apply List.ext_getElem?
    intro p
    simp [Function.comp_def]
  rw [hsame]
  exact (List.mergeSort_perm images _).map Image.fileTime

theorem byName_of_sortedByNames (h : sortedByNames images) : byName images = images := by
  apply List.mergeSort_of_pairwise
  exact h.imp fun hle => decide_eq_true hle

/-- A time that would be pinned again was pinned at the same position, so the calendar has its
hour. -/
theorem hasRoom_again (h : ofImages rel indexTime images offset = .ok album) :
    HasRoom rel offset album.images := by
  obtain ⟨hroom, halbum⟩ := ofImages_eq_ok_iff.1 h
  intro day hday
  obtain ⟨hyear, hhours⟩ := hroom day hday
  refine ⟨hyear, ?_⟩
  intro p image hp hlate
  rw [byName_of_sortedByNames (sortedByNames_ofImages h), halbum, List.getElem?_mapIdx, hday] at hp
  obtain ⟨before, hbefore, rfl⟩ := Option.map_eq_some_iff.1 hp
  exact hhours p before hbefore (Image.late_of_late_pinned hlate)

/-- **An album in order stays as it is.** -/
theorem ofImages_again (h : ofImages rel indexTime images offset = .ok album) :
    ofImages album.rel album.indexTime album.images offset = .ok album := by
  have hroom := hasRoom_again h
  have hsorted := byName_of_sortedByNames (sortedByNames_ofImages h)
  obtain ⟨-, rfl⟩ := ofImages_eq_ok_iff.1 h
  apply ofImages_eq_ok_iff.2
  refine ⟨hroom, ?_⟩
  rw [hsorted, latestFileTime_of_perm perm_fileTime, List.mapIdx_mapIdx]
  simp only [Function.comp_def, Image.pinned_pinned]

/-- **Images of distinct names may come in any order.** -/
theorem ofImages_of_perm (hperm : images'.Perm images) (hnames : (images.map Image.name).Nodup) :
    ofImages rel indexTime images' offset = ofImages rel indexTime images offset := by
  have hnames' : ((byName images').map Image.name).Nodup :=
    (((List.mergeSort_perm images' _).trans hperm).map Image.name).nodup_iff.2 hnames
  have hsorted : byName images' = byName images := by
    apply eq_of_perm_of_distinct _ (sortedByNames_byName images') (sortedByNames_byName images)
      hnames'
    exact ((List.mergeSort_perm images' _).trans hperm).trans (List.mergeSort_perm images _).symm
  unfold ofImages
  rw [hsorted, latestFileTime_of_perm (hperm.map Image.fileTime)]

/-! ### Albums in order -/

/-- The album holds the images in order: they stand by name, those of one name as they stood, each
with its time pinned to the date of the path; and it was changed at the latest time of a file. -/
structure InOrder (rel : String) (indexTime : Instant) (images : List Image) (offset : Offset)
    (album : Album) : Prop where
  rel_eq : album.rel = rel
  indexTime_eq : album.indexTime = indexTime
  lastModified : IsLatestTime (images.map Image.fileTime) album.lastModified
  images_eq : ∃ sorted, SortedBy Image.name (· ≤ ·) images sorted ∧
    album.images = sorted.mapIdx (Image.pinned (guessInstant? rel offset))

theorem inOrder_of_ofImages (h : ofImages rel indexTime images offset = .ok album) :
    InOrder rel indexTime images offset album := by
  obtain ⟨-, rfl⟩ := ofImages_eq_ok_iff.1 h
  refine ⟨rfl, rfl, isLatestTime_latestFileTime images, byName images, ?_, rfl⟩
  exact sortedBy_mergeSort (· ≤ ·) String.le_trans String.le_total Image.name images

end Album

/-! ### Snapshots -/

namespace Snapshot

variable {rel : String} {s : Snapshot} {offset : Offset} {items : List Item}

theorem map_name_toImage (items : List Item) :
    (items.map Item.toImage).map Image.name = items.map Item.name := by
  rw [List.map_map]
  rfl

/-- Items of distinct names may come in any order. -/
theorem materialize_of_perm (hperm : items.Perm s.items)
    (hnames : ((s.items.filter fun i => !i.isVideo).map Item.name).Nodup) :
    materialize rel { s with items } offset = materialize rel s offset := by
  apply Album.ofImages_of_perm
  · exact (hperm.filter _).map Item.toImage
  · rw [map_name_toImage]
    exact hnames

/-- Videos may be missing. -/
theorem materialize_without_videos :
    materialize rel { s with items := s.items.filter fun i => !i.isVideo } offset =
      materialize rel s offset := by
  unfold materialize
  rw [List.filter_filter]
  simp only [Bool.and_self]

end Snapshot

namespace Album

/-- **What it is to put an album in order, and when it can be done.**  It can be done if the
calendar has room; then the album is in order, and stays as it is when it is put in order once more.
Images of distinct names may come in any order, and so may the items of a snapshot, with its videos
or without them. -/
theorem ofImages_in_order (rel : String) (indexTime : Instant) (images : List Image)
    (offset : Offset) :
    ((∃ album, ofImages rel indexTime images offset = .ok album) ↔ HasRoom rel offset images) ∧
      (∀ album, ofImages rel indexTime images offset = .ok album →
        InOrder rel indexTime images offset album ∧
          ofImages album.rel album.indexTime album.images offset = .ok album) ∧
      (∀ images' : List Image, images'.Perm images → (images.map Image.name).Nodup →
        ofImages rel indexTime images' offset = ofImages rel indexTime images offset) ∧
      ∀ s : Snapshot,
        (∀ items : List Item, items.Perm s.items →
          ((s.items.filter fun i => !i.isVideo).map Item.name).Nodup →
          Snapshot.materialize rel { s with items } offset = Snapshot.materialize rel s offset) ∧
        Snapshot.materialize rel { s with items := s.items.filter fun i => !i.isVideo } offset =
          Snapshot.materialize rel s offset := by
  refine ⟨exists_ofImages_iff, ?_, ?_, ?_⟩
  · intro album h
    exact ⟨inOrder_of_ofImages h, ofImages_again h⟩
  · intro images' hperm hnames
    exact ofImages_of_perm hperm hnames
  · intro s
    refine ⟨?_, Snapshot.materialize_without_videos⟩
    intro items hperm hnames
    exact Snapshot.materialize_of_perm hperm hnames

/-- Two images of a folder of May 2010, the first with the time of a camera whose clock was never
set right. -/
def mayImages : List Image :=
  [.new "b.jpg" [] .epoch (.ofSeconds 2000000000), .new "a.jpg" [] .epoch (.ofSeconds 1275000000)]

/-- A snapshot of that folder, with a video of the name of one image. -/
def maySnapshot : Snapshot :=
  ⟨none, [.newImage "b.jpg" 0, .newVideo "b.jpg" 0, .newImage "a.jpg" 0], []⟩

theorem byName_mayImages : byName mayImages = mayImages.reverse := by
  have hperm : (byName mayImages).Perm mayImages.reverse :=
    (List.mergeSort_perm mayImages _).trans (List.reverse_perm mayImages).symm
  apply eq_of_perm_of_distinct hperm (sortedByNames_byName mayImages)
  · decide
  · exact (hperm.map Image.name).nodup_iff.2 (by decide)

/-- The folder of May 2010 can be put in order, once and once more, in the other order of its images
and of the items of its snapshot.  The second image gets the date and one hour. -/
theorem ofImages_in_order_may :
    HasRoom "2010-05-01 mai" .utc mayImages ∧
      (∃ album, ofImages "2010-05-01 mai" .epoch mayImages .utc = .ok album ∧
        InOrder "2010-05-01 mai" .epoch mayImages .utc album ∧
        ofImages album.rel album.indexTime album.images .utc = .ok album ∧
        album.images.map Image.itemTime = [.ofSeconds 1275000000, .ofSeconds 1272675600]) ∧
      (mayImages.map Image.name).Nodup ∧
      ofImages "2010-05-01 mai" .epoch mayImages.reverse .utc =
        ofImages "2010-05-01 mai" .epoch mayImages .utc ∧
      Snapshot.materialize "2010-05-01 mai" { maySnapshot with items := maySnapshot.items.reverse }
        .utc = Snapshot.materialize "2010-05-01 mai" maySnapshot .utc := by
  obtain ⟨hroom, hdone, hperm, hsnapshot⟩ :=
    ofImages_in_order "2010-05-01 mai" .epoch mayImages .utc
  have hguess : guessInstant? "2010-05-01 mai" .utc = some (.ofSeconds 1272672000) := by
    decide +kernel
  have hhas : HasRoom "2010-05-01 mai" .utc mayImages := by
    intro day hday
    rw [hguess] at hday
    obtain rfl := Option.some.inj hday
    refine ⟨by decide, ?_⟩
    intro p image hp _
    rw [byName_mayImages] at hp
    rcases p with _ | _ | p
    · decide
    · decide
    · cases hp
  obtain ⟨album, halbum⟩ := hroom.2 hhas
  have htimes : album.images.map Image.itemTime =
      [.ofSeconds 1275000000, .ofSeconds 1272675600] := by
    rw [(ofImages_eq_ok_iff.1 halbum).2, hguess, byName_mayImages]
    decide
  obtain ⟨hinOrder, hagain⟩ := hdone album halbum
  have hnames : (mayImages.map Image.name).Nodup := by decide
  exact ⟨hhas, ⟨album, halbum, hinOrder, hagain, htimes⟩, hnames,
    hperm _ (List.reverse_perm mayImages) hnames,
    (hsnapshot maySnapshot).1 _ (List.reverse_perm maySnapshot.items) (by decide)⟩

/-- The last year of the calendar has no year after it, so an album dated in it cannot be put in
order, even if it has no images. -/
theorem ofImages_fails_in_the_last_year :
    ¬∃ album, ofImages "Jan1,+262142" .epoch [] .utc = .ok album := by
  rintro ⟨album, h⟩
  have hfails : ofImages "Jan1,+262142" .epoch [] .utc = .error ⟨8210266876800⟩ := rfl
  rw [hfails] at h
  cases h

end Album
end AlbumIndex
