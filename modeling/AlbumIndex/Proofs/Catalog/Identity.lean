import AlbumIndex.Disk.Entry
import AlbumIndex.Proofs.Catalog.Numbering
import Mathlib.Data.List.DropRight

/-!
# What an identity tells apart

The identity of an image is the hash of three parts written one after the other: the path of its
album, its name, and the milliseconds of its file time.  Nothing stands between the parts, so
different images can have the same bytes hashed, and share their identity whatever the hash is: an
image `ab.jpg` of the root and an image `b.jpg` of the album `a` do if they are of one time.

How far this goes is said here.  The same bytes are hashed if one path goes on with what the other
origin has after its path.  The last slash of the bytes is that of the path, so the albums of such
images lie in one folder.  The figures at the end of the bytes are those of the time as long as no
name ends in figures, and no name of an image or video file does.  Then such images are of one time,
and the one path goes on with the beginning of the other name.

## Main definitions

* `Origin`, `Origin.bytes` — the three parts, and what is hashed of them.
* `Origin.CanOccur` — parts that an image can have.
* `Origin.Slides`, `Origin.SlidesName` — characters are moved from the name to the path.

## Main results

* `Origin.text_eq_iff` — which origins have the same text.
* `Origin.text_eq_iff_of_endsPlain` — the same for names that end in no figure.
* `identity_shared_iff` — **when two images of a catalog share their identity.**
-/

namespace AlbumIndex

open Calendar Text

namespace Text

/-! ### Cuts -/

/-- One text cut twice: what lies between the cuts belongs to the front of the later cut and to the
back of the earlier one. -/
theorem append_eq_append_iff {p q r s : String} :
    p ++ q = r ++ s ↔
      (∃ moved, r = p ++ moved ∧ q = moved ++ s) ∨ ∃ moved, p = r ++ moved ∧ s = moved ++ q := by
  constructor
  · intro h
    have hlists := congrArg String.toList h
    rw [String.toList_append, String.toList_append] at hlists
    rcases List.append_eq_append_iff.1 hlists with ⟨m, hr, hq⟩ | ⟨m, hp, hs⟩
    · exact Or.inl ⟨String.ofList m, String.toList_inj.1 (by simp [hr]),
        String.toList_inj.1 (by simp [hq])⟩
    · exact Or.inr ⟨String.ofList m, String.toList_inj.1 (by simp [hp]),
        String.toList_inj.1 (by simp [hs])⟩
  · rintro (⟨m, rfl, rfl⟩ | ⟨m, rfl, rfl⟩)
    · exact String.append_assoc.symm
    · exact String.append_assoc

theorem rdropWhile_append_of_forall {p : Char → Bool} (front : List Char) {back : List Char}
    (h : ∀ c ∈ back, p c = true) : (front ++ back).rdropWhile p = front.rdropWhile p := by
  rw [List.rdropWhile, List.reverse_append, List.dropWhile_append_of_pos, List.rdropWhile]
  simpa using h

/-! ### Figures -/

/-- A character of a number with a sign. -/
def isFigure (c : Char) : Bool := c == '-' || c.isDigit

theorem isFigure_of_mem_intDigits {n : Int} {c : Char} (h : c ∈ intDigits n) :
    isFigure c = true := by
  have hdigit : ∀ m : Nat, c ∈ natDigits m → isFigure c = true := by
    intro m hc
    have hc : c.isDigit = true := Nat.isDigit_of_mem_toDigits (b := 10) (by decide) (by decide) hc
    rw [isFigure, hc, Bool.or_true]
  unfold intDigits at h
  split at h
  · rcases List.mem_cons.1 h with rfl | h
    · rfl
    · exact hdigit _ h
  · exact hdigit _ h

theorem natDigits_injective {m n : Nat} (h : natDigits m = natDigits n) : m = n := by
  have hread := congrArg (fun digits => Nat.ofDigitChars 10 digits 0) h
  simpa [natDigits] using hread

/-- A minus sign is no digit, so a number can be read off its digits. -/
theorem intDigits_injective {m n : Int} (h : intDigits m = intDigits n) : m = n := by
  have hminus : ∀ (k : Nat) (ds : List Char), natDigits k ≠ '-' :: ds := by
    intro k ds heq
    have hmem : '-' ∈ natDigits k := heq ▸ List.mem_cons_self
    have hdigit : '-'.isDigit = true :=
      Nat.isDigit_of_mem_toDigits (b := 10) (by decide) (by decide) hmem
    exact absurd hdigit (by decide)
  unfold intDigits at h
  by_cases hm : m < 0 <;> by_cases hn : n < 0
  · rw [if_pos hm, if_pos hn] at h
    have := natDigits_injective (List.cons.inj h).2
    omega
  · rw [if_pos hm, if_neg hn] at h
    exact absurd h.symm (hminus _ _)
  · rw [if_neg hm, if_pos hn] at h
    exact absurd h (hminus _ _)
  · rw [if_neg hm, if_neg hn] at h
    have := natDigits_injective h
    omega

end Text

/-! ### Origins -/

/-- What an identity is made of: the path of the album, the name, and the milliseconds of the file
time. -/
@[ext] structure Origin where
  rel : String
  name : String
  millis : Int64
deriving DecidableEq

/-- The three parts of an image of a catalog. -/
def ImageRef.origin (ref : ImageRef) : Origin :=
  ⟨ref.album.rel, ref.image.name, ref.image.fileTime.toMillis⟩

namespace Origin

/-- The parts one after the other. -/
def text (o : Origin) : String :=
  o.rel ++ o.name ++ String.ofList (intDigits o.millis.toInt)

/-- The parts after the path. -/
def rest (o : Origin) : String := o.name ++ String.ofList (intDigits o.millis.toInt)

/-- The bytes that are hashed. -/
def bytes (o : Origin) : List UInt8 := o.text.toUTF8.data.toList

/-- The path is empty or made of names that are not, and so is the name, without a slash. -/
def CanOccur (o : Origin) : Prop :=
  (o.rel = "" ∨ [] ∉ pieces (· == '/') o.rel.toList) ∧ o.name ≠ "" ∧ '/' ∉ o.name.toList
deriving Decidable

/-- The path up to its last slash. -/
def folder (o : Origin) : List Char := o.rel.toList.rdropWhile (· != '/')

/-- The name ends with a character that no number has. -/
def EndsPlain (o : Origin) : Prop := ∃ c, o.name.toList.getLast? = some c ∧ isFigure c = false

/-- The second path goes on where the first one ends, with the characters that the first origin has
after its path. -/
def Slides (a b : Origin) : Prop := ∃ moved, b.rel = a.rel ++ moved ∧ a.rest = moved ++ b.rest

/-- The second path goes on where the first one ends, with characters in front of the first name,
and the times are the same. -/
def SlidesName (a b : Origin) : Prop :=
  a.millis = b.millis ∧ ∃ moved, b.rel = a.rel ++ moved ∧ a.name = moved ++ b.name

variable {a b o : Origin}

theorem imageId_eq (o : Origin) : imageId o.rel o.name o.millis = Blake3.firstWord o.bytes := rfl

theorem toList_text (o : Origin) :
    o.text.toList = o.rel.toList ++ o.name.toList ++ intDigits o.millis.toInt := by
  simp [text]

theorem bytes_eq_iff : a.bytes = b.bytes ↔ a.text = b.text := by
  constructor
  · intro h
    exact String.toByteArray_inj.1 (ByteArray.ext (Array.toList_inj.1 h))
  · intro h
    rw [bytes, h, bytes]

/-! ### What origins of one text share -/

/-- **Origins have one text exactly if one of them slides into the other.** -/
theorem text_eq_iff : a.text = b.text ↔ a.Slides b ∨ b.Slides a := by
  have hsplit : ∀ o : Origin, o.text = o.rel ++ o.rest := fun o => String.append_assoc
  rw [hsplit a, hsplit b]
  exact Text.append_eq_append_iff

/-- The last slash of the text is that of the path. -/
theorem rdropWhile_text (h : o.CanOccur) : o.text.toList.rdropWhile (· != '/') = o.folder := by
  rw [toList_text, List.append_assoc, rdropWhile_append_of_forall, folder]
  intro c hc
  rcases List.mem_append.1 hc with hc | hc
  · exact bne_iff_ne.2 fun hslash => h.2.2 (hslash ▸ hc)
  · -- a slash is no figure
    refine bne_iff_ne.2 fun hslash => ?_
    have hfigure := isFigure_of_mem_intDigits hc
    rw [hslash] at hfigure
    exact absurd hfigure (by decide)

/-- **The albums of origins with one text lie in one folder.** -/
theorem folder_eq_of_text_eq (ha : a.CanOccur) (hb : b.CanOccur) (h : a.text = b.text) :
    a.folder = b.folder := by
  rw [← rdropWhile_text ha, h, rdropWhile_text hb]

/-- **Origins with one text are the same if two of their parts are.** -/
theorem eq_of_text_eq (h : a.text = b.text)
    (hparts : a.rel = b.rel ∧ a.name = b.name ∨ a.rel = b.rel ∧ a.millis = b.millis ∨
      a.name = b.name ∧ a.millis = b.millis) : a = b := by
  have htext := congrArg String.toList h
  rw [toList_text, toList_text] at htext
  rcases hparts with ⟨hrel, hname⟩ | ⟨hrel, hmillis⟩ | ⟨hname, hmillis⟩
  · rw [hrel, hname] at htext
    have hdigits := List.append_cancel_left htext
    exact Origin.ext hrel hname (Int64.toInt_inj.1 (intDigits_injective hdigits))
  · rw [hrel, hmillis] at htext
    have hname := List.append_cancel_left (List.append_cancel_right htext)
    exact Origin.ext hrel (String.toList_inj.1 hname) hmillis
  · rw [hname, hmillis] at htext
    have hrel := List.append_cancel_right (List.append_cancel_right htext)
    exact Origin.ext (String.toList_inj.1 hrel) hname hmillis

/-! ### Names that end in no figure -/

/-- Without the figures at its end, the text is the path and the name. -/
theorem rdropWhile_isFigure_text (h : o.EndsPlain) :
    o.text.toList.rdropWhile isFigure = (o.rel ++ o.name).toList := by
  obtain ⟨c, hlast, hc⟩ := h
  obtain ⟨front, hname⟩ := List.getLast?_eq_some_iff.1 hlast
  rw [toList_text, rdropWhile_append_of_forall _ fun c => isFigure_of_mem_intDigits, hname,
    ← List.append_assoc, List.rdropWhile_concat_neg _ _ _ (by simp [hc]), String.toList_append,
    hname, List.append_assoc]

theorem text_eq_of_slidesName (h : a.SlidesName b) : a.text = b.text := by
  obtain ⟨hmillis, moved, hrel, hname⟩ := h
  rw [text, hname, ← String.append_assoc, ← hrel, hmillis, text]

/-- **Origins whose names end in no figure have one text exactly if one name slides into the other
path.** -/
theorem text_eq_iff_of_endsPlain (ha : a.EndsPlain) (hb : b.EndsPlain) :
    a.text = b.text ↔ a.SlidesName b ∨ b.SlidesName a := by
  constructor
  · intro h
    have hpath : a.rel ++ a.name = b.rel ++ b.name := String.toList_inj.1 <| by
      rw [← rdropWhile_isFigure_text ha, h, rdropWhile_isFigure_text hb]
    have hmillis : a.millis = b.millis := by
      have htext := congrArg String.toList h
      rw [toList_text, toList_text, ← String.toList_append, ← String.toList_append, hpath] at htext
      exact Int64.toInt_inj.1 (intDigits_injective (List.append_cancel_left htext))
    -- one of the two paths goes on where the other one ends
    rcases Text.append_eq_append_iff.1 hpath with hmoved | ⟨moved, hrel, hname⟩
    · exact Or.inl ⟨hmillis, hmoved⟩
    · exact Or.inr ⟨hmillis.symm, moved, hrel, hname⟩
  · rintro (hslides | hslides)
    · exact text_eq_of_slidesName hslides
    · exact (text_eq_of_slidesName hslides).symm

/-- A file that is taken for an image or a video has a name that ends in no figure. -/
theorem endsPlain_of_hasEnding (h : hasEnding (imageEndings ++ videoEndings) o.name = true) :
    o.EndsPlain := by
  have hlast : ∀ e ∈ imageEndings ++ videoEndings,
      (e.toList.getLast?.any fun c => !isFigure c) = true := by decide
  obtain ⟨e, he, hsuffix⟩ := List.any_eq_true.1 h
  obtain ⟨front, hname⟩ := List.isSuffixOf_iff_suffix.1 hsuffix
  obtain ⟨c, hc, hfigure⟩ := (Option.any_eq_true _ _).1 (hlast e he)
  refine ⟨c, ?_, by simpa using hfigure⟩
  rw [← hname, List.getLast?_append, hc, Option.some_or]

end Origin

/-! ### Identities of a catalog -/

/-- The hash gives the two rows of bytes one identity, although they differ. -/
def Blake3.Collide (x y : List UInt8) : Prop := x ≠ y ∧ firstWord x = firstWord y

namespace Catalog

variable {albums : List Album} {people : Aliases}

theorem id_eq_of_ref?_eq_some {r : Rank} {ref : ImageRef}
    (h : (ofAlbums albums people).ref? r = some ref) :
    ref.image.id = Blake3.firstWord ref.origin.bytes := by
  rw [ref?_ofAlbums] at h
  rw [(numbered_of_getElem?_refs h).2, ← Origin.imageId_eq]
  rfl

end Catalog

/-- **When two images of a catalog share their identity**: if the same bytes are hashed, or else
only by a collision of the hash.  The same bytes are hashed exactly if one origin slides into the
other; the albums then lie in one folder, and the images do not have two of the three parts in
common.  Where the names end in no figure, it is characters in front of one name that slide into the
other path. -/
theorem identity_shared_iff {a b : Origin} (ha : a.CanOccur) (hb : b.CanOccur) :
    (a.bytes = b.bytes ↔ a.Slides b ∨ b.Slides a) ∧
    (a.bytes = b.bytes → a.folder = b.folder ∧
      (a.rel = b.rel ∧ a.name = b.name ∨ a.rel = b.rel ∧ a.millis = b.millis ∨
        a.name = b.name ∧ a.millis = b.millis → a = b)) ∧
    (a.EndsPlain → b.EndsPlain → (a.bytes = b.bytes ↔ a.SlidesName b ∨ b.SlidesName a)) ∧
    ∀ (albums : List Album) (people : Aliases) (r s : Rank) (x y : ImageRef),
      (Catalog.ofAlbums albums people).ref? r = some x → x.origin = a →
      (Catalog.ofAlbums albums people).ref? s = some y → y.origin = b →
      (x.image.id = y.image.id ↔ a.bytes = b.bytes ∨ Blake3.Collide a.bytes b.bytes) := by
  rw [Origin.bytes_eq_iff]
  refine ⟨Origin.text_eq_iff, ?_, Origin.text_eq_iff_of_endsPlain, ?_⟩
  · intro h
    exact ⟨Origin.folder_eq_of_text_eq ha hb h, Origin.eq_of_text_eq h⟩
  · rintro albums people r s x y hx rfl hy rfl
    rw [Catalog.id_eq_of_ref?_eq_some hx, Catalog.id_eq_of_ref?_eq_some hy, ← Origin.bytes_eq_iff]
    by_cases hbytes : x.origin.bytes = y.origin.bytes
    · simp [hbytes]
    · simp [hbytes, Blake3.Collide]

/-- A catalog of two albums with an image each, both of the epoch. -/
def twoAlbums (rel name rel' name' : String) : Catalog :=
  Catalog.ofAlbums [⟨rel, .epoch, .epoch, [Image.new name [] .epoch .epoch]⟩,
    ⟨rel', .epoch, .epoch, [Image.new name' [] .epoch .epoch]⟩] .empty

theorem exists_refs_twoAlbums (rel name rel' name' : String) :
    ∃ x y, (twoAlbums rel name rel' name').ref? 0 = some x ∧ x.origin = ⟨rel, name, 0⟩ ∧
      (twoAlbums rel name rel' name').ref? 1 = some y ∧ y.origin = ⟨rel', name', 0⟩ :=
  ⟨_, _, rfl, rfl, rfl, rfl⟩

/-- Images of one name in two albums can share their identity only by a collision. -/
theorem identity_shared_for_one_name :
    let a : Origin := ⟨"trips", "x.jpg", 0⟩
    let b : Origin := ⟨"walks", "x.jpg", 0⟩
    a.CanOccur ∧ b.CanOccur ∧ a.EndsPlain ∧ b.EndsPlain ∧ ¬ a.SlidesName b ∧ ¬ b.SlidesName a ∧
      ∃ x y, (twoAlbums "trips" "x.jpg" "walks" "x.jpg").ref? 0 = some x ∧ x.origin = a ∧
        (twoAlbums "trips" "x.jpg" "walks" "x.jpg").ref? 1 = some y ∧ y.origin = b ∧
        (x.image.id = y.image.id ↔ Blake3.Collide a.bytes b.bytes) := by
  intro a b
  have ha : a.CanOccur := by decide
  have hb : b.CanOccur := by decide
  have hplain : a.EndsPlain := Origin.endsPlain_of_hasEnding (by decide)
  have hplain' : b.EndsPlain := Origin.endsPlain_of_hasEnding (by decide)
  obtain ⟨-, hshare, hslides, hid⟩ := identity_shared_iff ha hb
  have hbytes : a.bytes ≠ b.bytes := by
    intro h
    have hab : a = b := (hshare h).2 (Or.inr (Or.inr ⟨rfl, rfl⟩))
    exact absurd hab (by decide)
  obtain ⟨hab, hba⟩ := not_or.1 (mt (hslides hplain hplain').2 hbytes)
  obtain ⟨x, y, hx, hxa, hy, hyb⟩ := exists_refs_twoAlbums "trips" "x.jpg" "walks" "x.jpg"
  refine ⟨ha, hb, hplain, hplain', hab, hba, x, y, hx, hxa, hy, hyb, ?_⟩
  rw [hid _ .empty 0 1 x y hx hxa hy hyb]
  exact or_iff_right hbytes

/-- The image `ab.jpg` of the root and the image `b.jpg` of the album `a` share their identity, if
they are of one time. -/
theorem identity_shared_across_the_boundary :
    let a : Origin := ⟨"", "ab.jpg", 0⟩
    let b : Origin := ⟨"a", "b.jpg", 0⟩
    a.CanOccur ∧ b.CanOccur ∧ a ≠ b ∧ a.bytes = b.bytes ∧
      ∃ x y, (twoAlbums "" "ab.jpg" "a" "b.jpg").ref? 0 = some x ∧ x.origin = a ∧
        (twoAlbums "" "ab.jpg" "a" "b.jpg").ref? 1 = some y ∧ y.origin = b ∧
        x.image.id = y.image.id := by
  intro a b
  have hbytes : a.bytes = b.bytes :=
    Origin.bytes_eq_iff.2 (Origin.text_eq_of_slidesName ⟨rfl, "a", rfl, rfl⟩)
  obtain ⟨x, y, hx, hxa, hy, hyb⟩ := exists_refs_twoAlbums "" "ab.jpg" "a" "b.jpg"
  refine ⟨by decide, by decide, by decide, hbytes, x, y, hx, hxa, hy, hyb, ?_⟩
  rw [Catalog.id_eq_of_ref?_eq_some hx, Catalog.id_eq_of_ref?_eq_some hy, hxa, hyb, hbytes]

end AlbumIndex
