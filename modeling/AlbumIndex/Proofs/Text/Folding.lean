import AlbumIndex.Proofs.Text.LetterCase
import AlbumIndex.Text.Folding
import Mathlib.Data.Finset.Card

/-!
# Folded forms

A lower-case form is its own lower-case form, and so is a letter that has lost its accent.  Texts
inherit this, because no capital sigma is left in lower case.  So a folded text is folded for good,
whichever way it was taken: a text without capitals keeps all its characters but the accents, and
what is left of a text with capitals are letters in lower case and the few capitals that have no
lower-case form.

The characters with a lower-case form are capitals, but for thirty-one title-case letters, which are
half a capital and half a small letter.  A text without capitals is taken as being in lower case, and
that is right unless it has one of these letters.

The tables are compared run by run, never character by character: the lower-case forms of one run
lie outside every other run, or between its members where capitals and small letters alternate.

## Main definitions

* `CharRun.members` — the code points of a run.
* `CaseRun.apart` — the lower-case forms of one run lie outside another.
* `IsLow` — a character is its own lower-case form.
* `isTitlecase` — the title-case letters.
* `FoldCache.answers`, `FoldCache.Remembers` — the answers of a cache, and what it has folded so far.

## Main results

* `isLow_of_mem_lowercase`, `lowercase_eq_self` — lower case is reached in one step.
* `isLow_cases` — a character that can be lowered is a capital or a title-case letter.
* `fold_eq_iff` — **when folding is lowering and then dropping the accents.**
* `folded_once_for_all` — **folding twice is folding once, with a cache or without.**
-/

namespace AlbumIndex
namespace Text

/-! ### Runs -/

/-- The code points of a run. -/
def CharRun.members (r : CharRun) : List Nat :=
  List.range' r.first ((r.last + r.step - r.first) / r.step) r.step

theorem CharRun.mem_members_of_covers {r : CharRun} (hstep : 0 < r.step) {n : Nat}
    (h : r.covers n = true) : n ∈ r.members := by
  simp only [covers, Bool.and_eq_true, decide_eq_true_eq, beq_iff_eq] at h
  obtain ⟨⟨hfirst, hlast⟩, hmod⟩ := h
  obtain ⟨k, hk⟩ := Nat.dvd_of_mod_eq_zero hmod
  have hend : (k + 1) * r.step = n - r.first + r.step := by
    rw [hk, Nat.add_one_mul, Nat.mul_comm]
  refine List.mem_range'.2 ⟨k, ?_, by omega⟩
  rw [← Nat.add_one_le_iff, Nat.le_div_iff_mul_le hstep]
  omega

theorem CharRun.covers_of_mem_members {r : CharRun} {n : Nat} (h : n ∈ r.members) :
    r.covers n = true := by
  obtain ⟨k, hk, rfl⟩ := List.mem_range'.1 h
  have hstep : 0 < r.step := by
    rcases Nat.eq_zero_or_pos r.step with hzero | hpos
    · simp [hzero] at hk
    · exact hpos
  have hend := (Nat.le_div_iff_mul_le hstep).1 hk
  rw [Nat.succ_mul, Nat.mul_comm] at hend
  simp only [covers, Bool.and_eq_true, decide_eq_true_eq, beq_iff_eq, Nat.add_sub_cancel_left,
    Nat.mul_mod_right, and_true]
  omega

/-- The code points from `first` to `last` lie beside the run, or every second of them is looked at
and these lie between its members. -/
def CharRun.misses (s : CharRun) (first last : Nat) (alternate : Bool) : Bool :=
  Nat.blt last s.first || Nat.blt s.last first ||
    (alternate && s.step == 2 && (first + s.first) % 2 == 1)

/-- The lower-case forms of the first run lie outside the second. -/
def CaseRun.apart (r : CaseRun) (s : CharRun) : Bool :=
  s.misses (r.first + r.shift).toNat (r.last + r.shift).toNat (r.step == 2 || r.first == r.last)

theorem CaseRun.covers_eq_false_of_apart {r : CaseRun} {s : CharRun} (h : r.apart s = true)
    (hnonneg : 0 ≤ r.first + r.shift) {n : Nat} (hn : r.covers n = true) :
    s.covers (n + r.shift).toNat = false := by
  simp only [CharRun.covers, Bool.and_eq_true, decide_eq_true_eq, beq_iff_eq] at hn
  obtain ⟨⟨hfirst, hlast⟩, hmod⟩ := hn
  rw [Bool.eq_false_iff]
  intro hs
  simp only [CharRun.covers, Bool.and_eq_true, decide_eq_true_eq, beq_iff_eq] at hs
  obtain ⟨⟨hfirst', hlast'⟩, hmod'⟩ := hs
  simp only [apart, CharRun.misses, Bool.or_eq_true, Bool.and_eq_true, Nat.blt_eq, beq_iff_eq] at h
  rcases h with (hbelow | habove) | ⟨⟨hstep, hstep'⟩, hodd⟩
  · omega
  · omega
  · rw [hstep'] at hmod'
    rcases hstep with hstep | hsingle
    · rw [hstep] at hmod
      omega
    · omega

/-! ### The lower-case forms of characters -/

/-- The character is its own lower-case form. -/
def IsLow (c : Char) : Prop := lowerChar c = [c]

instance (c : Char) : Decidable (IsLow c) := inferInstanceAs (Decidable (_ = _))

/-- A character outside all runs, and not the dotted capital I, stands for itself. -/
theorem isLow_of_not_covers {c : Char} (hdotted : c.toNat ≠ 0x130)
    (hruns : ∀ r ∈ lowerRuns, r.covers c.toNat = false) : IsLow c := by
  have hnone : (lowerRuns.find? fun r => r.covers c.toNat) = none := by
    apply List.find?_eq_none.2
    intro r hr
    exact Bool.eq_false_iff.1 (hruns r hr)
  unfold IsLow lowerChar
  rw [if_neg hdotted, hnone]

/-- The lower-case forms of every run lie outside all runs, and none is the dotted capital I. -/
theorem lowerRuns_apart : ∀ r ∈ lowerRuns, (0 ≤ r.first + r.shift ∧
    r.apart ⟨0x130, 0x130, 1⟩ = true) ∧ (lowerRuns.all fun s => r.apart s.toCharRun) = true := by
  decide +kernel

theorem toNat_ofNat_cases (n : Nat) : (Char.ofNat n).toNat = n ∨ Char.ofNat n = Char.ofNat 0 := by
  by_cases hvalid : n.isValidChar
  · exact Or.inl (toNat_ofNat_of_isValidChar hvalid)
  · exact Or.inr (dif_neg hvalid)

/-- **A lower-case form is its own lower-case form.** -/
theorem isLow_of_mem_lowerChar {c d : Char} (h : d ∈ lowerChar c) : IsLow d := by
  unfold lowerChar at h
  split at h
  · rcases List.mem_pair.1 h with rfl | rfl
    · exact lowerChar_of_lowerAscii (by decide)
    · decide +kernel
  · next hne =>
    split at h
    · next r hfind =>
      obtain rfl := List.mem_singleton.1 h
      have hcov : r.covers c.toNat = true :=
        List.find?_some (p := fun r : CaseRun => r.covers c.toNat) hfind
      rcases toNat_ofNat_cases (c.toNat + r.shift).toNat with hform | hnull
      · obtain ⟨⟨hnonneg, hdotted⟩, hapart⟩ := lowerRuns_apart r (List.mem_of_find?_eq_some hfind)
        apply isLow_of_not_covers
        · intro heq
          have houtside := CaseRun.covers_eq_false_of_apart hdotted hnonneg hcov
          rw [← hform, heq] at houtside
          cases houtside
        · intro s hs
          rw [hform]
          exact CaseRun.covers_eq_false_of_apart (List.all_eq_true.1 hapart s hs) hnonneg hcov
      · rw [hnull]
        exact lowerChar_of_lowerAscii (by decide)
    · next hfind =>
      obtain rfl := List.mem_singleton.1 h
      unfold IsLow lowerChar
      rw [if_neg hne, hfind]

/-! ### Capitals and title-case letters -/

/-- The letters of title case: digraphs whose first letter is a capital, and Greek capitals with an
iota beside them. -/
def titleRuns : List CharRun :=
  [⟨0x1C5, 0x1CB, 3⟩, ⟨0x1F2, 0x1F2, 1⟩, ⟨0x1F88, 0x1F8F, 1⟩, ⟨0x1F98, 0x1F9F, 1⟩,
   ⟨0x1FA8, 0x1FAF, 1⟩, ⟨0x1FBC, 0x1FCC, 16⟩, ⟨0x1FFC, 0x1FFC, 1⟩]

/-- A title-case letter. -/
def isTitlecase (c : Char) : Bool := titleRuns.any fun r => r.covers c.toNat

/-- But for the title-case letters, the code points with a lower-case form are among the capitals,
in the same order. -/
theorem members_lowerRuns_sublist :
    ((lowerRuns.flatMap fun r => r.members).filter
      fun n => !titleRuns.any fun r => r.covers n).Sublist (upperRuns.flatMap CharRun.members) := by
  decide +kernel

/-- **A character that can be lowered is a capital or a title-case letter.** -/
theorem isLow_cases (c : Char) : IsLow c ∨ isUppercase c = true ∨ isTitlecase c = true := by
  by_cases hdotted : c.toNat = 0x130
  · right
    left
    rw [isUppercase, hdotted]
    decide +kernel
  by_cases htitle : isTitlecase c = true
  · exact Or.inr (Or.inr htitle)
  cases hfind : lowerRuns.find? fun r => r.covers c.toNat with
  | none =>
    left
    unfold IsLow lowerChar
    rw [if_neg hdotted, hfind]
  | some r =>
    right
    left
    have hstep : ∀ r ∈ lowerRuns, 0 < r.step := by decide +kernel
    have hr := List.mem_of_find?_eq_some hfind
    have hmember : c.toNat ∈ r.members :=
      CharRun.mem_members_of_covers (hstep r hr)
        (List.find?_some (p := fun r : CaseRun => r.covers c.toNat) hfind)
    have hcapital : c.toNat ∈ upperRuns.flatMap CharRun.members := by
      apply members_lowerRuns_sublist.subset
      apply List.mem_filter.2
      rw [Bool.not_eq_true] at htitle
      rw [isTitlecase] at htitle
      exact ⟨List.mem_flatMap.2 ⟨r, hr, hmember⟩, by rw [htitle]; rfl⟩
    obtain ⟨s, hs, hcov⟩ := List.mem_flatMap.1 hcapital
    exact List.any_eq_true.2 ⟨s, hs, CharRun.covers_of_mem_members hcov⟩

/-- Title-case letters can be lowered, and have no accent of the table. -/
theorem not_isLow_of_isTitlecase {c : Char} (h : isTitlecase c = true) :
    ¬IsLow c ∧ stripAccent c = c := by
  have hletters : ∀ r ∈ titleRuns, ∀ n ∈ r.members,
      ¬IsLow (Char.ofNat n) ∧ stripAccent (Char.ofNat n) = Char.ofNat n := by decide +kernel
  have hstep : ∀ r ∈ titleRuns, 0 < r.step := by decide
  obtain ⟨r, hr, hcov⟩ := List.any_eq_true.1 h
  have hletter := hletters r hr c.toNat (CharRun.mem_members_of_covers (hstep r hr) hcov)
  rwa [Char.ofNat_toNat] at hletter

/-! ### The lower-case forms of texts -/

theorem isLow_of_mem_lowerAfter {before cs : List Char} {d : Char} (h : d ∈ lowerAfter before cs) :
    IsLow d := by
  induction cs generalizing before with
  | nil => cases h
  | cons c cs ih =>
    rw [lowerAfter, List.mem_append] at h
    rcases h with h | h
    · split at h
      · have hsigmas : IsLow 'ς' ∧ IsLow 'σ' := by decide +kernel
        split at h
        · obtain rfl := List.mem_singleton.1 h
          exact hsigmas.1
        · obtain rfl := List.mem_singleton.1 h
          exact hsigmas.2
      · exact isLow_of_mem_lowerChar h
    · exact ih h

theorem isLow_of_mem_lowercase {cs : List Char} {d : Char} (h : d ∈ lowercase cs) : IsLow d :=
  isLow_of_mem_lowerAfter h

theorem lowerAfter_eq_self {before cs : List Char} (h : ∀ c ∈ cs, IsLow c) :
    lowerAfter before cs = cs := by
  induction cs generalizing before with
  | nil => rfl
  | cons c cs ih =>
    obtain ⟨hc, hcs⟩ := List.forall_mem_cons.1 h
    have hsigma : c ≠ 'Σ' := by
      rintro rfl
      revert hc
      decide +kernel
    rw [lowerAfter, if_neg hsigma, hc, ih hcs]
    rfl

/-- **A text in lower case is its own lower-case form.** -/
theorem lowercase_eq_self {cs : List Char} (h : ∀ c ∈ cs, IsLow c) : lowercase cs = cs :=
  lowerAfter_eq_self h

/-! ### Accents -/

/-- A character keeps its shape, or is a small letter of the table without its accent. -/
theorem stripAccent_cases (c : Char) :
    stripAccent c = c ∨ stripAccent c ∈ accentTable.map Prod.snd := by
  unfold stripAccent baseLetter?
  cases hbase : accentTable.lookup c with
  | none => exact Or.inl rfl
  | some b =>
    right
    obtain ⟨before, after, htable, -⟩ := List.lookup_eq_some_iff.1 hbase
    rw [htable]
    simp

/-- The letters below the accents are small letters without accents. -/
theorem accentTable_letters : ∀ c ∈ accentTable.map Prod.snd,
    IsLow c ∧ isUppercase c = false ∧ stripAccent c = c := by
  have hall : ((accentTable.map Prod.snd).all fun c =>
      decide (IsLow c ∧ isUppercase c = false ∧ stripAccent c = c)) = true := by decide +kernel
  intro c hc
  exact of_decide_eq_true (List.all_eq_true.1 hall c hc)

theorem stripAccent_stripAccent (c : Char) : stripAccent (stripAccent c) = stripAccent c := by
  rcases stripAccent_cases c with h | h
  · rw [h, h]
  · exact (accentTable_letters _ h).2.2

theorem isLow_stripAccent {c : Char} (h : IsLow c) : IsLow (stripAccent c) := by
  rcases stripAccent_cases c with hsame | hletter
  · rwa [hsame]
  · exact (accentTable_letters _ hletter).1

theorem isUppercase_stripAccent {c : Char} (h : isUppercase c = false) :
    isUppercase (stripAccent c) = false := by
  rcases stripAccent_cases c with hsame | hletter
  · rwa [hsame]
  · exact (accentTable_letters _ hletter).2.1

/-! ### Folded texts -/

theorem map_stripAccent_eq_self {cs : List Char} (h : (cs.any fun c => (baseLetter? c).isSome) = false) :
    cs.map stripAccent = cs := by
  refine (List.map_congr_left fun c hc => ?_).trans (List.map_id cs)
  have hnone := List.any_eq_false.1 h c hc
  rw [Bool.not_eq_true, Option.isSome_eq_false_iff, Option.isNone_iff_eq_none] at hnone
  rw [stripAccent, hnone]
  rfl

/-- The short cut for texts without accents changes nothing. -/
theorem foldChars_eq (cs : List Char) : foldChars cs = (lowered cs).map stripAccent := by
  unfold foldChars
  dsimp only
  split
  · rfl
  · next h => exact (map_stripAccent_eq_self (Bool.not_eq_true _ ▸ h)).symm

theorem foldChars_of_isUppercase {cs : List Char} (h : cs.any isUppercase = true) :
    foldChars cs = (lowercase cs).map stripAccent := by
  rw [foldChars_eq, lowered, if_pos h]

theorem foldChars_of_not_isUppercase {cs : List Char} (h : cs.any isUppercase = false) :
    foldChars cs = cs.map stripAccent := by
  rw [foldChars_eq, lowered, h]
  rfl

theorem isLow_of_mem_map_stripAccent {cs : List Char} {c : Char}
    (h : c ∈ (lowercase cs).map stripAccent) : IsLow c := by
  obtain ⟨d, hd, rfl⟩ := List.mem_map.1 h
  exact isLow_stripAccent (isLow_of_mem_lowercase hd)

/-- The short cut for texts without capitals is right, unless the text has title-case letters. -/
theorem foldChars_eq_iff {cs : List Char} :
    foldChars cs = (lowercase cs).map stripAccent ↔
      (∃ c ∈ cs, isUppercase c = true) ∨ ∀ c ∈ cs, isTitlecase c = false := by
  cases hupper : cs.any isUppercase with
  | true => simp [foldChars_of_isUppercase hupper, List.any_eq_true.1 hupper]
  | false =>
    have hnone : ¬∃ c ∈ cs, isUppercase c = true := by simpa using hupper
    rw [foldChars_of_not_isUppercase hupper, or_iff_right hnone]
    constructor
    · intro heq c hc
      rw [Bool.eq_false_iff]
      intro htitle
      obtain ⟨hnot, hsame⟩ := not_isLow_of_isTitlecase htitle
      -- the letter itself is still there, but on the other side all is in lower case
      have hmem : c ∈ cs.map stripAccent := List.mem_map.2 ⟨c, hc, hsame⟩
      rw [heq] at hmem
      exact hnot (isLow_of_mem_map_stripAccent hmem)
    · intro htitle
      have hlow : ∀ c ∈ cs, IsLow c := by
        intro c hc
        rcases isLow_cases c with h | h | h
        · exact h
        · exact absurd ⟨c, hc, h⟩ hnone
        · rw [htitle c hc] at h
          cases h
      rw [lowercase_eq_self hlow]

/-- **A folded text is folded for good.** -/
theorem foldChars_foldChars (cs : List Char) : foldChars (foldChars cs) = foldChars cs := by
  have hfixed : lowered (foldChars cs) = foldChars cs := by
    unfold lowered
    split
    · next hupper =>
      -- only a text that had capitals has any left, and those have no lower-case form
      cases hbefore : cs.any isUppercase with
      | true =>
        apply lowercase_eq_self
        rw [foldChars_of_isUppercase hbefore]
        exact fun c hc => isLow_of_mem_map_stripAccent hc
      | false =>
        rw [foldChars_of_not_isUppercase hbefore, List.any_map, List.any_eq_true] at hupper
        obtain ⟨c, hc, hcapital⟩ := hupper
        have hsmall := isUppercase_stripAccent (Bool.eq_false_iff.2 (List.any_eq_false.1 hbefore c hc))
        rw [Function.comp_apply, hsmall] at hcapital
        cases hcapital
    · rfl
  rw [foldChars_eq (foldChars cs), hfixed, foldChars_eq, List.map_map]
  apply List.map_congr_left
  intro c _
  exact stripAccent_stripAccent c

/-- **When folding is lowering and then dropping the accents**: if the text has a capital or has no
title-case letter. -/
theorem fold_eq_iff (text : String) :
    fold text = String.ofList ((lowercase text.toList).map stripAccent) ↔
      (∃ c ∈ text.toList, isUppercase c = true) ∨ ∀ c ∈ text.toList, isTitlecase c = false := by
  rw [← foldChars_eq_iff, fold, String.ofList_inj]

/-- A text of one title-case letter is not lowered. -/
theorem fold_title_case_letter :
    fold "ǅ" = "ǅ" ∧ String.ofList ((lowercase "ǅ".toList).map stripAccent) = "ǆ" := by
  decide +kernel

/-! ### The cache -/

namespace FoldCache

variable {cache : FoldCache} {seen : Finset String}

/-- The answers to texts folded one after the other, each with the size of the cache after it. -/
def answers (cache : FoldCache) : List String → List (String × Nat)
  | [] => []
  | text :: texts =>
    let (folded, cache) := cache.fold text
    (folded, cache.size) :: cache.answers texts

/-- The cache holds the folded forms of these texts and nothing else. -/
structure Remembers (cache : FoldCache) (seen : Finset String) : Prop where
  sound : cache.Sound
  mem_iff : ∀ text, text ∈ cache.known ↔ text ∈ seen
  size_eq : cache.size = seen.card

theorem remembers_empty : empty.Remembers ∅ where
  sound := sound_empty
  mem_iff := by simp [empty]
  size_eq := by simp [empty, size]

theorem snd_fold_of_mem {text : String} (h : text ∈ cache.known) : (cache.fold text).2 = cache := by
  unfold FoldCache.fold
  rw [Std.TreeMap.getElem?_eq_some_getElem h]

theorem snd_fold_of_notMem {text : String} (h : text ∉ cache.known) :
    (cache.fold text).2 = ⟨cache.known.insert text (Text.fold text)⟩ := by
  unfold FoldCache.fold
  rw [Std.TreeMap.getElem?_eq_none h]

/-- A text more is folded: the cache holds that too. -/
theorem Remembers.fold_snd (h : cache.Remembers seen) (text : String) :
    (cache.fold text).2.Remembers (insert text seen) := by
  by_cases hmem : text ∈ seen
  · rw [Finset.insert_eq_of_mem hmem, snd_fold_of_mem ((h.mem_iff text).2 hmem)]
    exact h
  · have hnot : text ∉ cache.known := mt (h.mem_iff text).1 hmem
    refine ⟨h.sound.fold_snd text, ?_, ?_⟩
    · intro other
      rw [snd_fold_of_notMem hnot, Std.TreeMap.mem_insert, Std.LawfulEqCmp.compare_eq_iff_eq,
        Finset.mem_insert, h.mem_iff, eq_comm]
    · rw [snd_fold_of_notMem hnot, Finset.card_insert_of_notMem hmem, ← h.size_eq, size,
        Std.TreeMap.size_insert, if_neg (by rwa [Std.TreeMap.contains_iff_mem]), size]

theorem Remembers.answers (h : cache.Remembers seen) (texts : List String) (i : Nat) :
    (cache.answers texts)[i]? =
      texts[i]?.map fun text => (Text.fold text, (seen ∪ (texts.take (i + 1)).toFinset).card) := by
  induction texts generalizing cache seen i with
  | nil => rfl
  | cons text texts ih =>
    have hnext := h.fold_snd text
    rw [FoldCache.answers]
    cases i with
    | zero =>
      simp [fold_fst h.sound, hnext.size_eq, Finset.union_comm seen]
    | succ i =>
      rw [List.getElem?_cons_succ, List.getElem?_cons_succ, ih hnext, List.take_succ_cons,
        List.toFinset_cons, Finset.union_insert, Finset.insert_union]

end FoldCache

/-- **Folding twice is folding once, with a cache or without.**  A folded text is its own folded
form.  A cache, whatever room it was given, answers each of a row of texts with the folded form of
that text, and then holds as many texts as there were different ones so far. -/
theorem folded_once_for_all :
    (∀ text, fold (fold text) = fold text) ∧
      ∀ (capacity : Nat) (texts : List String) (i : Nat),
        ((FoldCache.withCapacity capacity).answers texts)[i]? =
          texts[i]?.map fun text => (fold text, (texts.take (i + 1)).toFinset.card) := by
  constructor
  · intro text
    rw [fold, fold, String.toList_ofList, foldChars_foldChars]
  · intro capacity texts i
    have hanswers := FoldCache.remembers_empty.answers texts i
    rw [Finset.empty_union] at hanswers
    exact hanswers

end Text
end AlbumIndex
