import AlbumIndex.Proofs.Catalog.Numbering

/-!
# What the tables of postings hold

Neither table is ever sorted, and a repeated registration is noticed only if it follows the first
one at once.  That is enough because images are registered in the order of their ranks: all calls
of one image stand together, so the ranks that reach a key never go down, and equal ranks stand next
to each other.  What is kept of such a row is its strictly ascending form.

The counting pass visits the same images through the same cache.  The cache does not show, so both
passes meet the same keys, and the second finds an entry for each of them.

## Main definitions

* `ranksFor` — the ranks that a row of calls registers under a key.
* `Postings.Prepared` — every call of the second pass finds an entry for its key.
* `Image.IsLiteralKey`, `Image.IsSubKey` — the keys of an image in the two tables.
* `Catalog.Lists` — an entry of a table lists exactly the images of a property.

## Main results

* `Postings.getElem?_ofPasses` — the entry of a key in a finished table.
* `Catalog.postings_exact` — **both tables of a catalog list exactly the images of each key.**
-/

namespace AlbumIndex

open Text

/-! ### The counting pass -/

theorem KeyCounts.mem_count {counts : KeyCounts} {key k : String} :
    k ∈ counts.count key ↔ key = k ∨ k ∈ counts := by
  rw [KeyCounts.count, Std.TreeMap.mem_alter]
  by_cases h : key = k
  · simp [h]
  · simp [h, Std.LawfulEqCmp.compare_eq_iff_eq]

theorem KeyCounts.mem_ofKeys {keys : List String} {k : String} :
    k ∈ KeyCounts.ofKeys keys ↔ k ∈ keys := by
  have h : ∀ counts : KeyCounts, k ∈ keys.foldl KeyCounts.count counts ↔ k ∈ keys ∨ k ∈ counts := by
    induction keys with
    | nil => simp
    | cons key keys ih =>
      intro counts
      rw [List.foldl_cons, ih, mem_count, List.mem_cons, eq_comm, or_left_comm, or_assoc]
  rw [ofKeys, h]
  simp

/-! ### Registrations -/

namespace Draft

theorem getElem?_add (draft : Draft) (key : String) (rank : Rank) (k : String) :
    (draft.add key rank)[k]? =
      if key = k then some (pushRank rank (draft[k]?.getD [])) else draft[k]? := by
  rw [add, Std.TreeMap.getElem?_alter]
  by_cases h : key = k
  · subst h
    simp
  · simp [h, Std.LawfulEqCmp.compare_eq_iff_eq]

theorem mem_add {draft : Draft} {key k : String} {rank : Rank} (h : k ∈ draft) :
    k ∈ draft.add key rank := by
  rw [Std.TreeMap.mem_iff_isSome_getElem?] at h ⊢
  rw [getElem?_add]
  split
  · rfl
  · exact h

theorem mem_addAll {draft : Draft} {k : String} (calls : List (String × Rank)) (h : k ∈ draft) :
    k ∈ draft.addAll calls := by
  induction calls generalizing draft with
  | nil => exact h
  | cons call calls ih => exact ih (mem_add h)

end Draft

/-- The ranks that a row of calls registers under a key. -/
def ranksFor (key : String) (calls : List (String × Rank)) : List Rank :=
  (calls.filter fun call => call.1 == key).map Prod.snd

theorem mem_ranksFor {key : String} {calls : List (String × Rank)} {r : Rank} :
    r ∈ ranksFor key calls ↔ (key, r) ∈ calls := by
  simp [ranksFor]

namespace Draft

/-- What a row of calls makes of the entry of a key. -/
theorem getD_addAll (draft : Draft) (calls : List (String × Rank)) (k : String) :
    (draft.addAll calls)[k]?.getD [] =
      (ranksFor k calls).foldl (fun ranks r => pushRank r ranks) (draft[k]?.getD []) := by
  induction calls generalizing draft with
  | nil => rfl
  | cons call calls ih =>
    obtain ⟨key, rank⟩ := call
    have hadd : draft.addAll ((key, rank) :: calls) = (draft.add key rank).addAll calls := rfl
    rw [hadd, ih, getElem?_add]
    by_cases h : key = k
    · simp [ranksFor, h]
    · simp [ranksFor, h]

/-- Ranks that never go down are pushed to their strictly ascending form, the last one first. -/
theorem foldl_pushRank {ranks acc : List Rank} (hr : ranks.Pairwise (· ≤ ·))
    (ha : acc.Pairwise (· > ·)) (hle : ∀ a ∈ acc, ∀ r ∈ ranks, a ≤ r) :
    (ranks.foldl (fun acc r => pushRank r acc) acc).Pairwise (· > ·) ∧
      ∀ x, x ∈ ranks.foldl (fun acc r => pushRank r acc) acc ↔ x ∈ ranks ∨ x ∈ acc := by
  induction ranks generalizing acc with
  | nil => exact ⟨ha, fun x => by simp⟩
  | cons r ranks ih =>
    obtain ⟨hr₁, hr₂⟩ := List.pairwise_cons.1 hr
    -- the three facts that the induction hypothesis needs about the list after the push
    have hmem : ∀ x, x ∈ pushRank r acc ↔ x = r ∨ x ∈ acc := by
      intro x
      unfold pushRank
      split
      · next h => exact ⟨Or.inr, fun hx => hx.elim (fun h' => h' ▸ List.mem_of_mem_head? h) id⟩
      · exact List.mem_cons
    have hpush : (pushRank r acc).Pairwise (· > ·) := by
      unfold pushRank
      split
      · exact ha
      · next hne =>
        refine List.pairwise_cons.2 ⟨fun a hmema => ?_, ha⟩
        -- a rank equal to `r` would stand in front
        refine Nat.lt_of_le_of_ne (hle a hmema r List.mem_cons_self) fun heq => hne ?_
        cases acc with
        | nil => cases hmema
        | cons b acc =>
          rcases List.mem_cons.1 hmema with rfl | hmema
          · rw [heq]; rfl
          · have hb := (List.pairwise_cons.1 ha).1 a hmema
            exact absurd (hle b List.mem_cons_self r List.mem_cons_self)
              (Nat.not_le.2 (heq ▸ hb))
    have hle' : ∀ a ∈ pushRank r acc, ∀ r' ∈ ranks, a ≤ r' := by
      intro a hmema r' hr'
      rcases (hmem a).1 hmema with rfl | hmema
      · exact hr₁ r' hr'
      · exact hle a hmema r' (List.mem_cons_of_mem _ hr')
    obtain ⟨ihpair, ihmem⟩ := ih hr₂ hpush hle'
    refine ⟨ihpair, fun x => ?_⟩
    rw [List.foldl_cons, ihmem x, hmem x, List.mem_cons, or_left_comm, or_assoc]

/-- The entries that are not empty, turned round. -/
theorem getElem?_finish (draft : Draft) (k : String) :
    draft.finish[k]? =
      if draft[k]?.getD [] = [] then none else some (draft[k]?.getD []).reverse := by
  rw [finish, Std.TreeMap.getElem?_map, Std.TreeMap.getElem?_filter']
  cases h : draft[k]? with
  | none => rfl
  | some ranks => cases ranks <;> simp

end Draft

/-! ### Two passes -/

namespace Postings

variable {keysOf : Visit → List String} {first second visits : List Visit}

theorem mem_calls {key : String} {r : Rank} :
    (key, r) ∈ calls keysOf visits ↔ ∃ v ∈ visits, v.rank = r ∧ key ∈ keysOf v := by
  simp only [calls, List.mem_flatMap, List.mem_map, Prod.mk.injEq]
  constructor
  · intro h
    obtain ⟨v, hv, key', hk, rfl, rfl⟩ := h
    exact ⟨v, hv, rfl, hk⟩
  · intro h
    obtain ⟨v, hv, rfl, hk⟩ := h
    exact ⟨v, hv, key, hk, rfl, rfl⟩

/-- The ranks of the calls never go down. -/
theorem calls_pairwise (h : visits.Pairwise fun a b => a.rank < b.rank) :
    (calls keysOf visits).Pairwise fun a b => a.2 ≤ b.2 := by
  rw [calls, List.pairwise_flatMap]
  refine ⟨fun v _ => ?_, h.imp fun {a b} hab x hx y hy => ?_⟩
  -- all calls for one image have its rank
  · rw [List.pairwise_map]
    exact List.pairwise_of_forall fun _ _ => Nat.le_refl _
  · obtain ⟨_, -, rfl⟩ := List.mem_map.1 hx
    obtain ⟨_, -, rfl⟩ := List.mem_map.1 hy
    exact Nat.le_of_lt hab

theorem mem_counted {key : String} : key ∈ counted keysOf visits ↔ ∃ v ∈ visits, key ∈ keysOf v := by
  rw [counted, Draft.ofCounts, Std.TreeMap.mem_map, KeyCounts.mem_ofKeys, List.mem_flatMap]

theorem getD_counted (key : String) : (counted keysOf visits)[key]?.getD [] = [] := by
  rw [counted, Draft.ofCounts, Std.TreeMap.getElem?_map]
  cases (KeyCounts.ofKeys (visits.flatMap keysOf))[key]? <;> rfl

/-- **The entry of a key** lists the images visited under it, and there is none without such
images. -/
theorem getElem?_ofPasses (keysOf : Visit → List String) (first : List Visit)
    (h : second.Pairwise fun a b => a.rank < b.rank) (key : String) :
    ∃ ranks : List Rank, ranks.Pairwise (· < ·) ∧
      (∀ r, r ∈ ranks ↔ ∃ v ∈ second, v.rank = r ∧ key ∈ keysOf v) ∧
      (ofPasses keysOf first second)[key]? = if ranks = [] then none else some ranks := by
  have hranks : (ranksFor key (calls keysOf second)).Pairwise (· ≤ ·) := by
    rw [ranksFor, List.pairwise_map]
    exact (calls_pairwise h).filter _
  obtain ⟨hpair, hmem⟩ := Draft.foldl_pushRank hranks List.Pairwise.nil (by simp)
  refine ⟨_, List.pairwise_reverse.2 hpair, fun r => ?_, ?_⟩
  · rw [List.mem_reverse, hmem r, mem_ranksFor, mem_calls]
    simp
  · rw [ofPasses, Draft.getElem?_finish, Draft.getD_addAll, getD_counted]
    simp only [List.reverse_eq_nil_iff]

/-- Every call of the second pass finds an entry for its key, whatever was registered before. -/
def Prepared (keysOf : Visit → List String) (first second : List Visit) : Prop :=
  ∀ before call after, calls keysOf second = before ++ call :: after →
    call.1 ∈ (counted keysOf first).addAll before

theorem prepared_self : Prepared keysOf visits visits := by
  intro before call after h
  obtain ⟨key, r⟩ := call
  have hcall : (key, r) ∈ calls keysOf visits := by
    rw [h]
    simp
  obtain ⟨v, hv, -, hk⟩ := mem_calls.1 hcall
  exact Draft.mem_addAll before (mem_counted.2 ⟨v, hv, hk⟩)

end Postings

/-! ### The keys of an image -/

theorem mem_spellings {keyword key : String} :
    key ∈ spellings keyword ↔ key = keyword ∨ key = fold keyword := by
  by_cases h : fold keyword = keyword <;> simp [spellings, h]

/-- The key is the folded name, one of the keywords or the folded form of one. -/
def Image.IsLiteralKey (image : Image) (key : String) : Prop :=
  key = fold image.name ∨ key ∈ image.keywords ∨ ∃ k ∈ image.keywords, key = fold k

/-- The key is one of the sub-keywords or the folded form of one. -/
def Image.IsSubKey (image : Image) (key : String) : Prop :=
  key ∈ image.subKeywords ∨ ∃ k ∈ image.subKeywords, key = fold k

theorem mem_flatMap_spellings {keywords : List String} {key : String} :
    key ∈ keywords.flatMap spellings ↔ key ∈ keywords ∨ ∃ k ∈ keywords, key = fold k := by
  simp only [List.mem_flatMap, mem_spellings]
  constructor
  · intro hex
    obtain ⟨k, hk, rfl | h⟩ := hex
    · exact Or.inl hk
    · exact Or.inr ⟨k, hk, h⟩
  · rintro (h | ⟨k, hk, h⟩)
    · exact ⟨key, h, Or.inl rfl⟩
    · exact ⟨k, hk, Or.inr h⟩

theorem Image.mem_literalKeys {image : Image} {key : String} :
    key ∈ image.literalKeys ↔ image.IsLiteralKey key := by
  rw [literalKeys, List.mem_cons, mem_flatMap_spellings, IsLiteralKey]

theorem Image.mem_subKeys {image : Image} {key : String} :
    key ∈ image.subKeys ↔ image.IsSubKey key := by
  rw [subKeys, mem_flatMap_spellings, IsSubKey]

theorem Index.passes_eq (images : List Image) :
    passes images = (images.map Image.keys, images.map Image.keys) := by
  rw [passes]
  -- the second pass folds with what the first one has left, which is sound as well
  exact Prod.ext (visitAll_fst FoldCache.sound_empty images)
    (visitAll_fst (visitAll_snd_sound FoldCache.sound_empty images) images)

/-! ### The tables of a catalog -/

namespace Catalog

/-- The entry of a table lists in strictly ascending order exactly the ranks of the images with a
property, and it is missing exactly if no image has it. -/
def Lists (c : Catalog) (entry : Option (List Rank)) (P : Image → Prop) : Prop :=
  ∃ ranks : List Rank, ranks.Pairwise (· < ·) ∧
    (∀ r, r ∈ ranks ↔ ∃ image, c.imageAt? r = some image ∧ P image) ∧
    entry = if ranks = [] then none else some ranks

variable {albums : List Album} {people : Aliases}

/-- A table over the images of a catalog lists the images that have a key. -/
theorem lists_ofPasses {keysOf : Visit → List String} {P : Image → String → Prop}
    (hkeys : ∀ image key, key ∈ keysOf image.keys ↔ P image key) (key : String) :
    (ofAlbums albums people).Lists
      (Postings.ofPasses keysOf ((ofAlbums albums people).allImages.map Image.keys)
        ((ofAlbums albums people).allImages.map Image.keys))[key]? fun image => P image key := by
  have hasc : ((ofAlbums albums people).allImages.map Image.keys).Pairwise
      fun a b => a.rank < b.rank := by
    rw [List.pairwise_map]
    exact allImages_pairwise_rank
  obtain ⟨ranks, hpair, hmem, heq⟩ := Postings.getElem?_ofPasses keysOf
    ((ofAlbums albums people).allImages.map Image.keys) hasc key
  refine ⟨ranks, hpair, fun r => ?_, heq⟩
  rw [hmem r]
  constructor
  · intro h
    obtain ⟨v, hv, rfl, hk⟩ := h
    obtain ⟨image, hi, rfl⟩ := List.mem_map.1 hv
    exact ⟨image, imageAt?_eq_some_iff.2 ⟨hi, rfl⟩, (hkeys image key).1 hk⟩
  · intro h
    obtain ⟨image, hi, hP⟩ := h
    obtain ⟨hmemi, hrank⟩ := imageAt?_eq_some_iff.1 hi
    exact ⟨image.keys, List.mem_map_of_mem hmemi, hrank, (hkeys image key).2 hP⟩

theorem literal_ofAlbums :
    (ofAlbums albums people).index.literal =
      Postings.ofPasses Visit.literal (Index.passes (ofAlbums albums people).allImages).1
        (Index.passes (ofAlbums albums people).allImages).2 := rfl

theorem sub_ofAlbums :
    (ofAlbums albums people).index.sub =
      Postings.ofPasses Visit.sub (Index.passes (ofAlbums albums people).allImages).1
        (Index.passes (ofAlbums albums people).allImages).2 := rfl

theorem lists_literal (albums : List Album) (people : Aliases) (key : String) :
    (ofAlbums albums people).Lists (ofAlbums albums people).index.literal[key]? fun image =>
      image.IsLiteralKey key := by
  rw [literal_ofAlbums, Index.passes_eq]
  exact lists_ofPasses (fun image key => Image.mem_literalKeys) key

theorem lists_sub (albums : List Album) (people : Aliases) (key : String) :
    (ofAlbums albums people).Lists (ofAlbums albums people).index.sub[key]? fun image =>
      image.IsSubKey key := by
  rw [sub_ofAlbums, Index.passes_eq]
  exact lists_ofPasses (fun image key => Image.mem_subKeys) key

/-- **Both tables of a catalog list exactly the images of each key**, and the pass that fills them
meets no key that the counting pass has not met. -/
theorem postings_exact (albums : List Album) (people : Aliases) (key : String) :
    (ofAlbums albums people).Lists (ofAlbums albums people).index.literal[key]?
        (fun image => image.IsLiteralKey key) ∧
      (ofAlbums albums people).Lists (ofAlbums albums people).index.sub[key]?
        (fun image => image.IsSubKey key) ∧
      ∀ keysOf ∈ [Visit.literal, Visit.sub],
        Postings.Prepared keysOf (Index.passes (ofAlbums albums people).allImages).1
          (Index.passes (ofAlbums albums people).allImages).2 := by
  refine ⟨lists_literal albums people key, lists_sub albums people key, fun keysOf _ => ?_⟩
  rw [Index.passes_eq]
  exact Postings.prepared_self

end Catalog
end AlbumIndex
