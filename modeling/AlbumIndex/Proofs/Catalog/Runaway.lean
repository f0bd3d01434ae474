import AlbumIndex.Proofs.Catalog.Pinning

/-!
# Runaway times

An album that is named after a date pins times that lie more than a year after it, to the date and as
many hours as images come before.  A year has 8760 hours.  So up to that position a pinned time is no
runaway itself, and all times are brought back into the year.  Behind it the hours alone make more
than a year: the time of an image stays late there, although it is another one.

## Main definitions

* `yearAfter` — the last instant of the year after a date.
* `Album.crowd` — images of a first of January, and a late one behind them.

## Main results

* `Image.late_pinned_iff` — a pinned time is late if it was and its position has more hours than a
  year.
* `Album.late_iff` — **which times are late in an album put in order.**
-/

namespace AlbumIndex

open Calendar

/-! ### Pinned images -/

theorem Calendar.Instant.not_lt {a b : Instant} : ¬a < b ↔ b ≤ a := by
  rw [Instant.lt_def, Instant.le_def]
  omega

/-- The instant 365 days after a date. -/
def yearAfter (date : Instant) : Instant :=
  Instant.ofSeconds (date.seconds + Album.secondsPerYear)

namespace Image

variable {date : Instant} {position : Nat} {image : Image}

theorem pinned_of_late (h : yearAfter date < image.itemTime) :
    image.pinned (some date) position =
      { image with itemTime := Instant.ofSeconds (date.seconds + 3600 * position) } := if_pos h

/-- The hours of a position are late from position 8761 on. -/
theorem yearAfter_lt_iff :
    yearAfter date < Instant.ofSeconds (date.seconds + 3600 * position) ↔ 8760 < position := by
  simp only [yearAfter, Instant.lt_def, Instant.ofSeconds, Album.secondsPerYear,
    Instant.secondsPerDay]
  omega

/-- **A pinned time is late** if it was late and its position has more hours than a year. -/
theorem late_pinned_iff :
    yearAfter date < (image.pinned (some date) position).itemTime ↔
      yearAfter date < image.itemTime ∧ 8760 < position := by
  constructor
  · intro h
    have hlate : yearAfter date < image.itemTime := late_of_late_pinned h
    rw [pinned_of_late hlate] at h
    exact ⟨hlate, yearAfter_lt_iff.1 h⟩
  · rintro ⟨hlate, hposition⟩
    rw [pinned_of_late hlate]
    exact yearAfter_lt_iff.2 hposition

end Image

/-! ### Albums -/

namespace Album

variable {rel : String} {offset : Offset} {date : Instant} {images : List Image}

/-- **Which times are late in an album put in order.**  If the calendar has room, an album of a path
that names a date can be made of any images.  In it a time lies more than a year after the date just
for an image that had such a time before and stands, by name, behind at least 8761 others; it is the
date and as many hours as its position says.  So there is none among 8761 images or fewer. -/
theorem late_iff (hdate : guessInstant? rel offset = some date) (indexTime : Instant)
    (hroom : HasRoom rel offset images) :
    ∃ album sorted, ofImages rel indexTime images offset = .ok album ∧
      SortedBy Image.name (· ≤ ·) images sorted ∧
      (∀ (p : Nat) image, album.images[p]? = some image →
        ∃ before, sorted[p]? = some before ∧
          (yearAfter date < image.itemTime ↔ yearAfter date < before.itemTime ∧ 8760 < p) ∧
          (yearAfter date < image.itemTime →
            image.itemTime = Instant.ofSeconds (date.seconds + 3600 * p))) ∧
      (images.length ≤ 8761 → ∀ image ∈ album.images, image.itemTime ≤ yearAfter date) := by
  have hpinned : ∀ (p : Nat) image,
      ((byName images).mapIdx (Image.pinned (some date)))[p]? = some image →
        ∃ before, (byName images)[p]? = some before ∧ image = before.pinned (some date) p := by
    intro p image hp
    rw [List.getElem?_mapIdx] at hp
    obtain ⟨before, hbefore, rfl⟩ := Option.map_eq_some_iff.1 hp
    exact ⟨before, hbefore, rfl⟩
  refine ⟨_, byName images, ofImages_eq_ok_iff.2 ⟨hroom, rfl⟩,
    sortedBy_mergeSort (· ≤ ·) String.le_trans String.le_total Image.name images, ?_, ?_⟩
  · intro p image hp
    rw [hdate] at hp
    obtain ⟨before, hbefore, rfl⟩ := hpinned p image hp
    refine ⟨before, hbefore, Image.late_pinned_iff, ?_⟩
    intro hlate
    rw [Image.pinned_of_late (Image.late_of_late_pinned hlate)]
  · intro hlength image himage
    rw [hdate] at himage
    obtain ⟨p, hp⟩ := List.mem_iff_getElem?.1 himage
    obtain ⟨before, hbefore, rfl⟩ := hpinned p image hp
    rw [← Instant.not_lt, Image.late_pinned_iff]
    rintro ⟨-, hposition⟩
    have hlt := (List.getElem?_eq_some_iff.1 hbefore).1
    rw [length_byName] at hlt
    omega

/-- An image of 1971 by its time, wherever it stands. -/
def lateImage : Image := .new "b" [] .epoch (.ofSeconds 40000000)

/-- So many images of the first of January 1970, and a late one behind them. -/
def crowd (n : Nat) : List Image := List.replicate n (.new "a" [] .epoch .epoch) ++ [lateImage]

theorem length_crowd (n : Nat) : (crowd n).length = n + 1 := by
  simp [crowd]

theorem getElem?_crowd (n : Nat) : (crowd n)[n]? = some lateImage := by
  simp [crowd]

theorem byName_crowd (n : Nat) : byName (crowd n) = crowd n := by
  apply byName_of_sortedByNames
  apply List.pairwise_append.2
  refine ⟨List.pairwise_replicate.2 (Or.inr (by decide)), List.pairwise_singleton _ _, ?_⟩
  intro a ha b hb
  rw [List.eq_of_mem_replicate ha, List.mem_singleton.1 hb]
  decide

theorem guessInstant?_crowd : guessInstant? "1970" .utc = some .epoch := by decide +kernel

theorem hasRoom_crowd {n : Nat} (hn : n ≤ 10000) : HasRoom "1970" .utc (crowd n) := by
  intro date hdate
  rw [guessInstant?_crowd] at hdate
  obtain rfl := Option.some.inj hdate
  refine ⟨by decide, ?_⟩
  intro p image hp _
  have hlt := (List.getElem?_eq_some_iff.1 hp).1
  rw [byName_crowd, length_crowd] at hlt
  simp only [Instant.InRange, Instant.minSeconds, Instant.maxSeconds, Instant.epoch]
  omega

/-- Behind one image the late time comes back into the year; behind 8761 images it gets the date and
8761 hours, which is late again. -/
theorem late_iff_of_crowds :
    guessInstant? "1970" .utc = some .epoch ∧
      HasRoom "1970" .utc (crowd 1) ∧ (crowd 1).length ≤ 8761 ∧
      (∃ album, ofImages "1970" .epoch (crowd 1) .utc = .ok album ∧
        ∀ image ∈ album.images, image.itemTime ≤ yearAfter .epoch) ∧
      HasRoom "1970" .utc (crowd 8761) ∧
      ∃ album image, ofImages "1970" .epoch (crowd 8761) .utc = .ok album ∧
        album.images[8761]? = some image ∧ yearAfter .epoch < image.itemTime ∧
        image.itemTime = .ofSeconds 31539600 := by
  have hroom := hasRoom_crowd (n := 1) (by decide)
  have hroom' := hasRoom_crowd (n := 8761) (by decide)
  obtain ⟨album, -, halbum, -, -, hshort⟩ := late_iff guessInstant?_crowd .epoch hroom
  obtain ⟨album', sorted, halbum', hsorted, himages, -⟩ :=
    late_iff guessInstant?_crowd .epoch hroom'
  refine ⟨guessInstant?_crowd, hroom, by decide, ⟨album, halbum, hshort (by decide)⟩, hroom',
    album', ?_⟩
  have hlength : 8761 < album'.images.length := by
    rw [length_ofImages halbum', length_crowd]
    decide
  obtain ⟨before, hbefore, hlate, htime⟩ := himages 8761 _ (List.getElem?_eq_getElem hlength)
  have hcrowd : sorted = crowd 8761 := by
    rw [← byName_crowd]
    exact hsorted.unique String.le_antisymm
      (sortedBy_mergeSort (· ≤ ·) String.le_trans String.le_total Image.name _)
  rw [hcrowd, getElem?_crowd] at hbefore
  obtain rfl := Option.some.inj hbefore
  have hruns := hlate.2 ⟨by decide, by decide⟩
  exact ⟨_, halbum', List.getElem?_eq_getElem hlength, hruns, htime hruns⟩

/-- The last of 8762 images in a dated album has a time more than a year after the date. -/
theorem crowd_runs_away :
    guessInstant? "1970" .utc = some .epoch ∧
      ∃ album, ofImages "1970" .epoch (crowd 8761) .utc = .ok album ∧
        ∃ image ∈ album.images, ¬image.itemTime ≤ yearAfter .epoch := by
  refine ⟨guessInstant?_crowd, _, ofImages_eq_ok_iff.2 ⟨hasRoom_crowd (by decide), rfl⟩,
    lateImage.pinned (some .epoch) 8761, ?_, ?_⟩
  · apply List.mem_of_getElem? (i := 8761)
    rw [guessInstant?_crowd, byName_crowd, List.getElem?_mapIdx, getElem?_crowd]
    rfl
  · rw [← Instant.not_lt, not_not, Image.late_pinned_iff]
    decide

end Album
end AlbumIndex
