import AlbumIndex.Proofs.Catalog.Postings
import AlbumIndex.Proofs.Sorting

/-!
# Looking up keywords

The two tables of a catalog are looked up together by merging their lists.  Both ascend, so the
merged list does, and it holds the ranks of either.

The keys that contain a text are taken from both tables, each key once, and put in order: by their
length, and by their characters among keys of one length.  No two keys are equal, so the order is
strict, and the list is determined by its members.

## Main definitions

* `Index.KeywordLT` — the order of keywords.

## Main results

* `mem_mergeRanks`, `pairwise_mergeRanks` — the merged list.
* `Catalog.imagesRanked_spec` — **the ranks of a keyword from both tables.**
* `Index.mem_matchingKeywords`, `Index.matchingKeywords_pairwise` — the keys that contain a text.
-/

namespace AlbumIndex

/-! ### Merging -/

theorem mem_mergeFront {a : Rank} {rest : List Rank} {mergeRest : List Rank → List Rank}
    (h : ∀ bs r, r ∈ mergeRest bs ↔ r ∈ rest ∨ r ∈ bs) (bs : List Rank) (r : Rank) :
    r ∈ mergeFront a rest mergeRest bs ↔ r ∈ a :: rest ∨ r ∈ bs := by
  induction bs with
  | nil => simp [mergeFront]
  | cons b bs ih =>
    rw [mergeFront]
    split
    · rw [List.mem_cons, h, List.mem_cons, List.mem_cons, or_assoc]
    · split
      · rw [List.mem_cons, ih, List.mem_cons, List.mem_cons, or_left_comm]
      · next hab hba =>
        -- neither is less, so the two fronts are one rank
        obtain rfl : a = b := Nat.le_antisymm (Nat.not_lt.1 hba) (Nat.not_lt.1 hab)
        simp only [List.mem_cons, h]
        grind

theorem mem_mergeRanks (as bs : List Rank) (r : Rank) :
    r ∈ mergeRanks as bs ↔ r ∈ as ∨ r ∈ bs := by
  induction as generalizing bs r with
  | nil => simp [mergeRanks]
  | cons a as ih => exact mem_mergeFront ih bs r

@[simp] theorem mergeRanks_nil_left (bs : List Rank) : mergeRanks [] bs = bs := rfl

@[simp] theorem mergeRanks_nil_right (as : List Rank) : mergeRanks as [] = as := by
  cases as <;> rfl

theorem pairwise_mergeRanks {as bs : List Rank} (ha : as.Pairwise (· < ·))
    (hb : bs.Pairwise (· < ·)) : (mergeRanks as bs).Pairwise (· < ·) := by
  induction as generalizing bs with
  | nil => exact hb
  | cons a as iha =>
    obtain ⟨ha₁, ha₂⟩ := List.pairwise_cons.1 ha
    rw [mergeRanks]
    induction bs with
    | nil => exact ha
    | cons b bs ihb =>
      obtain ⟨hb₁, hb₂⟩ := List.pairwise_cons.1 hb
      rw [mergeFront]
      split
      · next hab =>
        refine List.pairwise_cons.2 ⟨fun r hr => ?_, iha ha₂ hb⟩
        rcases (mem_mergeRanks as (b :: bs) r).1 hr with hr | hr
        · exact ha₁ r hr
        · rcases List.mem_cons.1 hr with rfl | hr
          · exact hab
          · exact Nat.lt_trans hab (hb₁ r hr)
      · split
        · next hba =>
          refine List.pairwise_cons.2 ⟨fun r hr => ?_, ihb hb₂⟩
          rcases (mem_mergeRanks (a :: as) bs r).1 hr with hr | hr
          · rcases List.mem_cons.1 hr with rfl | hr
            · exact hba
            · exact Nat.lt_trans hba (ha₁ r hr)
          · exact hb₁ r hr
        · next hab hba =>
          obtain rfl : a = b := Nat.le_antisymm (Nat.not_lt.1 hba) (Nat.not_lt.1 hab)
          refine List.pairwise_cons.2 ⟨fun r hr => ?_, iha ha₂ hb₂⟩
          rcases (mem_mergeRanks as bs r).1 hr with hr | hr
          · exact ha₁ r hr
          · exact hb₁ r hr

/-! ### The tables of a catalog -/

/-- Ranks are found under a key only if the table has the key. -/
theorem Postings.mem_of_mem_ranksOf {table : Postings} {key : String} {r : Rank}
    (h : r ∈ table.ranksOf key) : key ∈ table := by
  rw [Postings.ranksOf] at h
  rw [Std.TreeMap.mem_iff_isSome_getElem?]
  cases hkey : table[key]? with
  | none =>
    rw [hkey] at h
    cases h
  | some ranks => rfl

namespace Catalog

theorem Lists.pairwise_getD {c : Catalog} {entry : Option (List Rank)} {P : Image → Prop}
    (h : c.Lists entry P) : (entry.getD []).Pairwise (· < ·) := by
  obtain ⟨ranks, hpair, -, rfl⟩ := h
  split
  · exact List.Pairwise.nil
  · exact hpair

theorem Lists.mem_getD {c : Catalog} {entry : Option (List Rank)} {P : Image → Prop}
    (h : c.Lists entry P) (r : Rank) :
    r ∈ entry.getD [] ↔ ∃ image, c.imageAt? r = some image ∧ P image := by
  obtain ⟨ranks, -, hmem, rfl⟩ := h
  rw [← hmem r]
  split
  · next hnil => rw [hnil]; rfl
  · rfl

variable {albums : List Album} {people : Aliases}

theorem Lists.isSome_iff {entry : Option (List Rank)} {P : Image → Prop}
    (h : (ofAlbums albums people).Lists entry P) :
    entry.isSome = true ↔ ∃ image ∈ (ofAlbums albums people).allImages, P image := by
  obtain ⟨ranks, -, hmem, rfl⟩ := h
  constructor
  · intro hsome
    split at hsome
    · cases hsome
    · next hne =>
      obtain ⟨r, hr⟩ := List.exists_mem_of_ne_nil ranks hne
      obtain ⟨image, hi, hP⟩ := (hmem r).1 hr
      exact ⟨image, (imageAt?_eq_some_iff.1 hi).1, hP⟩
  · intro hex
    obtain ⟨image, hi, hP⟩ := hex
    have hr := (hmem image.rank).2 ⟨image, imageAt?_eq_some_iff.2 ⟨hi, rfl⟩, hP⟩
    rw [if_neg (List.ne_nil_of_mem hr)]
    rfl

/-- **The ranks of a keyword from both tables**, in strictly ascending order. -/
theorem imagesRanked_spec (albums : List Album) (people : Aliases) (key : String) :
    ((ofAlbums albums people).index.imagesRanked key).Pairwise (· < ·) ∧
      ∀ r, r ∈ (ofAlbums albums people).index.imagesRanked key ↔
        ∃ image, (ofAlbums albums people).imageAt? r = some image ∧
          (image.IsLiteralKey key ∨ image.IsSubKey key) := by
  have hliteral := lists_literal albums people key
  have hsub := lists_sub albums people key
  refine ⟨pairwise_mergeRanks hliteral.pairwise_getD hsub.pairwise_getD, fun r => ?_⟩
  rw [Index.imagesRanked, Postings.ranksOf, Postings.ranksOf, mem_mergeRanks, hliteral.mem_getD,
    hsub.mem_getD]
  constructor
  · rintro (⟨image, hi, hk⟩ | ⟨image, hi, hk⟩)
    · exact ⟨image, hi, Or.inl hk⟩
    · exact ⟨image, hi, Or.inr hk⟩
  · intro h
    obtain ⟨image, hi, hk | hk⟩ := h
    · exact Or.inl ⟨image, hi, hk⟩
    · exact Or.inr ⟨image, hi, hk⟩

theorem mem_literal_iff {key : String} :
    key ∈ (ofAlbums albums people).index.literal ↔
      ∃ image ∈ (ofAlbums albums people).allImages, image.IsLiteralKey key := by
  rw [Std.TreeMap.mem_iff_isSome_getElem?]
  exact (lists_literal albums people key).isSome_iff

theorem mem_sub_iff {key : String} :
    key ∈ (ofAlbums albums people).index.sub ↔
      ∃ image ∈ (ofAlbums albums people).allImages, image.IsSubKey key := by
  rw [Std.TreeMap.mem_iff_isSome_getElem?]
  exact (lists_sub albums people key).isSome_iff

end Catalog

/-! ### Keys that contain a text -/

namespace Index

/-- Shorter keywords come first; keywords of one length come in the order of their characters. -/
def KeywordLT (a b : String) : Prop := a.length < b.length ∨ (a.length = b.length ∧ a < b)

theorem keywordLE_iff {a b : String} :
    keywordLE a b = true ↔ a.length < b.length ∨ (a.length = b.length ∧ a ≤ b) := by
  simp [keywordLE]

theorem namesAfter_keywordLE : NamesAfter (· < ·) String.length id keywordLE where
  le_iff := fun _ _ => keywordLE_iff
  lt_trans := Nat.lt_trans
  lt_irrefl := Nat.lt_irrefl
  lt_or_eq_or_gt := Nat.lt_trichotomy

variable (index : Index) (pattern : String) (withSub : Bool)

theorem mem_matchingKeywords {key : String} :
    key ∈ index.matchingKeywords pattern withSub ↔ Text.Occurs pattern.toList key.toList ∧
      (key ∈ index.literal ∨ (withSub = true ∧ key ∈ index.sub)) := by
  rw [matchingKeywords, List.mem_mergeSort, List.mem_append, List.mem_filter, Std.TreeMap.mem_keys,
    Text.occurs_iff]
  cases withSub with
  | false => simp [and_comm]
  | true =>
    rw [if_pos rfl, List.mem_filter, Std.TreeMap.mem_keys, Bool.and_eq_true, Text.occurs_iff,
      Bool.not_eq_true', ← Bool.not_eq_true, Std.TreeMap.contains_iff_mem]
    constructor
    · rintro (⟨hl, ho⟩ | ⟨hs, ho, -⟩)
      · exact ⟨ho, Or.inl hl⟩
      · exact ⟨ho, Or.inr ⟨rfl, hs⟩⟩
    · rintro ⟨ho, hkey⟩
      -- a key of both tables is taken from the first
      by_cases hl : key ∈ index.literal
      · exact Or.inl ⟨hl, ho⟩
      · exact Or.inr ⟨hkey.elim (fun h => absurd h hl) And.right, ho, hl⟩

theorem matchingKeywords_nodup : (index.matchingKeywords pattern withSub).Nodup := by
  rw [matchingKeywords, (List.mergeSort_perm _ _).nodup_iff, List.nodup_append]
  refine ⟨index.literal.nodup_keys.filter _, ?_, ?_⟩
  · split
    · exact index.sub.nodup_keys.filter _
    · exact List.nodup_nil
  · rintro a ha b hb rfl
    split at hb
    · have hl : a ∈ index.literal := Std.TreeMap.mem_keys.1 (List.mem_filter.1 ha).1
      have hn := (List.mem_filter.1 hb).2
      rw [Bool.and_eq_true, Bool.not_eq_true', ← Bool.not_eq_true] at hn
      exact hn.2 (Std.TreeMap.contains_iff_mem.2 hl)
    · cases hb

/-- **The keys that contain a text stand in their strict order.** -/
theorem matchingKeywords_pairwise :
    (index.matchingKeywords pattern withSub).Pairwise KeywordLT := by
  have hnodup := matchingKeywords_nodup index pattern withSub
  unfold matchingKeywords at hnodup ⊢
  apply namesAfter_keywordLE.pairwise_mergeSort
  rw [List.map_id]
  exact (List.mergeSort_perm _ _).nodup_iff.1 hnodup

end Index
end AlbumIndex
