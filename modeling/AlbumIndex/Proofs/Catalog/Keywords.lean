import AlbumIndex.Proofs.Catalog.Lookup
import AlbumIndex.Proofs.Text.ByteOrder

/-!
# Searching for keywords

A search for the keys that contain a text goes through both tables and puts what it finds in order.
The tables may hand out their keys in any order: the first table gives its keys, the second those
that the first did not give, and as two different keys never stand level in the order of keywords,
there is only one way to arrange what was found.

The order compares lengths in characters and then the texts, which is to compare their bytes.  A text
that is itself a key comes first among the keys that contain it, since all others are longer.

## Main definitions

* `Index.gatherKeywords` — a search through keys that come in any order.

## Main results

* `Index.gatherKeywords_eq` — the order in which the keys come does not matter.
* `Index.exists_matchingKeywords_eq_cons` — a key comes first among the keys that contain it.
* `Index.keyword_search` — **what a search for keywords finds, and in which order.**
-/

namespace AlbumIndex
namespace Index

open Text

/-! ### Keys in any order -/

/-- The keys that contain a text, if the tables hand out their keys as the two rows say: those of the
first row, and of the second row those that were not found in the first. -/
def gatherKeywords (literalKeys subKeys : List String) (pattern : String) (withSub : Bool) :
    List String :=
  let found := literalKeys.filter fun key => occurs pattern.toList key.toList
  let further :=
    if withSub then
      subKeys.filter fun key => occurs pattern.toList key.toList && !found.contains key
    else []
  (found ++ further).mergeSort keywordLE

/-- Keywords are put in one order, however they came. -/
theorem mergeSort_keywordLE_of_perm {as bs : List String} (h : as.Perm bs) :
    as.mergeSort keywordLE = bs.mergeSort keywordLE :=
  namesAfter_keywordLE.mergeSort_of_perm h fun _ _ _ _ => id

variable (index : Index) (pattern : String) (withSub : Bool)

/-- **The order in which the tables hand out their keys does not matter.** -/
theorem gatherKeywords_eq {literalKeys subKeys : List String}
    (hliteral : literalKeys.Perm index.literal.keys) (hsub : subKeys.Perm index.sub.keys) :
    gatherKeywords literalKeys subKeys pattern withSub = index.matchingKeywords pattern withSub := by
  -- a key that contains the text was found before exactly if the first table has it
  have hknown : ∀ key ∈ index.sub.keys,
      (occurs pattern.toList key.toList &&
        !(literalKeys.filter fun key => occurs pattern.toList key.toList).contains key) =
      (occurs pattern.toList key.toList && !index.literal.contains key) := by
    intro key _
    cases ho : occurs pattern.toList key.toList with
    | false => rfl
    | true =>
      have hmem : key ∈ literalKeys ↔ key ∈ index.literal :=
        hliteral.mem_iff.trans Std.TreeMap.mem_keys
      rw [Bool.true_and, Bool.true_and, Bool.eq_iff_iff]
      simp [ho, hmem, ← Bool.not_eq_true, Std.TreeMap.contains_iff_mem]
  unfold gatherKeywords matchingKeywords
  dsimp only
  apply mergeSort_keywordLE_of_perm
  refine (hliteral.filter _).append ?_
  cases withSub with
  | false => exact List.Perm.refl []
  | true =>
    rw [if_pos rfl, if_pos rfl, ← List.filter_congr hknown]
    exact hsub.filter _

/-! ### The first of the keys -/

variable {index pattern withSub}

/-- A text that contains another one has more characters, or is the same text. -/
theorem length_lt_or_eq_of_occurs {part whole : String} (h : Occurs part.toList whole.toList) :
    part.length < whole.length ∨ part = whole := by
  obtain ⟨before, after, hwhole⟩ := h
  have hlength : whole.length = before.length + part.length + after.length := by
    rw [← String.length_toList, hwhole, List.length_append, List.length_append,
      String.length_toList]
  by_cases hlt : part.length < whole.length
  · exact Or.inl hlt
  · obtain rfl := List.eq_nil_of_length_eq_zero (show before.length = 0 by omega)
    obtain rfl := List.eq_nil_of_length_eq_zero (show after.length = 0 by omega)
    rw [List.nil_append, List.append_nil] at hwhole
    exact Or.inr (String.toList_inj.1 hwhole.symm)

/-- **A key comes first among the keys that contain it.** -/
theorem exists_matchingKeywords_eq_cons
    (hkey : pattern ∈ index.literal ∨ (withSub = true ∧ pattern ∈ index.sub)) :
    ∃ keys, index.matchingKeywords pattern withSub = pattern :: keys := by
  have hself : Occurs pattern.toList pattern.toList := ⟨[], [], by simp⟩
  have hmem : pattern ∈ index.matchingKeywords pattern withSub :=
    mem_matchingKeywords index pattern withSub |>.2 ⟨hself, hkey⟩
  have hsorted := matchingKeywords_pairwise index pattern withSub
  cases hkeys : index.matchingKeywords pattern withSub with
  | nil =>
    rw [hkeys] at hmem
    cases hmem
  | cons first keys =>
    rw [hkeys] at hmem hsorted
    rcases List.mem_cons.1 hmem with rfl | hlater
    · exact ⟨keys, rfl⟩
    · -- a key in front of the text would contain it and still not be longer
      have hfirst : first ∈ index.matchingKeywords pattern withSub := by
        rw [hkeys]
        exact List.mem_cons_self
      have hcontains := (mem_matchingKeywords index pattern withSub).1 hfirst
      rcases length_lt_or_eq_of_occurs hcontains.1 with hlonger | rfl
      · rcases (List.pairwise_cons.1 hsorted).1 pattern hlater with hshorter | ⟨hlevel, -⟩ <;> omega
      · exact ⟨keys, rfl⟩

/-! ### The number of keys -/

theorem occurs_empty (cs : List Char) : occurs [] cs = true := by
  cases cs <;> rfl

/-- Every key contains the empty text. -/
theorem length_matchingKeywords_empty (index : Index) :
    (index.matchingKeywords "" true).length = index.keywordCount := by
  have hempty : "".toList = [] := rfl
  simp only [matchingKeywords, keywordCount, hempty, occurs_empty, Bool.true_and, if_true,
    List.length_mergeSort, List.length_append, List.filter_true, Std.TreeMap.length_keys]

/-- The keys of the one table and those of the other that are new are as many, however they come. -/
theorem length_append_filter_eq_keywordCount {index : Index} {literalKeys subKeys : List String}
    (hliteral : literalKeys.Perm index.literal.keys) (hsub : subKeys.Perm index.sub.keys) :
    literalKeys.length + (subKeys.filter fun key => !index.literal.contains key).length =
      index.keywordCount := by
  rw [keywordCount, hliteral.length_eq, (hsub.filter _).length_eq, Std.TreeMap.length_keys]

/-- **What a search for keywords finds**: each key that contains the text, once and nothing else, in
strict order of the number of characters and then of the bytes; and the number of all keys is the
number of those that contain the empty text.  Neither depends on the order in which the tables hand
out their keys. -/
theorem keyword_search (index : Index) (pattern : String) (withSub : Bool) :
    (∀ key, key ∈ index.matchingKeywords pattern withSub ↔
      pattern.toList <:+: key.toList ∧
        (key ∈ index.literal ∨ (withSub = true ∧ key ∈ index.sub))) ∧
      (index.matchingKeywords pattern withSub).Nodup ∧
      (index.matchingKeywords pattern withSub).Pairwise (fun a b =>
        a.length < b.length ∨ (a.length = b.length ∧ utf8Bytes a < utf8Bytes b)) ∧
      index.keywordCount = (index.matchingKeywords "" true).length ∧
      ∀ literalKeys subKeys : List String, literalKeys.Perm index.literal.keys →
        subKeys.Perm index.sub.keys →
          gatherKeywords literalKeys subKeys pattern withSub =
            index.matchingKeywords pattern withSub ∧
          literalKeys.length + (subKeys.filter fun key => !index.literal.contains key).length =
            (index.matchingKeywords "" true).length := by
  refine ⟨fun key => ?_, matchingKeywords_nodup index pattern withSub, ?_, ?_, ?_⟩
  · rw [mem_matchingKeywords]
    refine and_congr_left fun _ => ?_
    constructor
    · rintro ⟨before, after, h⟩
      exact ⟨before, after, h.symm⟩
    · rintro ⟨before, after, h⟩
      exact ⟨before, after, h.symm⟩
  · refine (matchingKeywords_pairwise index pattern withSub).imp fun {a b} h => ?_
    rwa [utf8Bytes_lt_iff]
  · exact (length_matchingKeywords_empty index).symm
  · intro literalKeys subKeys hliteral hsub
    rw [length_matchingKeywords_empty]
    exact ⟨gatherKeywords_eq index pattern withSub hliteral hsub,
      length_append_filter_eq_keywordCount hliteral hsub⟩

/-- A search in tables that hand out their keys backwards.  One key is a whole keyword of one image
and a part of a keyword of another, and two have the same number of characters but not of bytes. -/
theorem keyword_search_of_tables_backwards :
    let index := (Catalog.ofAlbums [⟨"walks", .epoch, .epoch,
      [Image.new "a.jpg" ["julien devin", "dév"] .epoch .epoch,
        Image.new "b.jpg" ["devin", "dew"] .epoch .epoch]⟩] .empty).index
    index.literal.keys.reverse.Perm index.literal.keys ∧
      index.sub.keys.reverse.Perm index.sub.keys ∧
      gatherKeywords index.literal.keys.reverse index.sub.keys.reverse "d" true =
        index.matchingKeywords "d" true ∧
      index.matchingKeywords "d" true = ["dev", "dew", "dév", "devin", "julien devin"] := by
  intro index
  have hliteral := List.reverse_perm index.literal.keys
  have hsub := List.reverse_perm index.sub.keys
  obtain ⟨-, -, -, -, horder⟩ := keyword_search index "d" true
  obtain ⟨hgather, -⟩ := horder _ _ hliteral hsub
  refine ⟨hliteral, hsub, hgather, ?_⟩
  rw [← hgather]
  exact (mergeSort_keywordLE_of_perm (by decide +kernel)).trans
    (List.mergeSort_of_pairwise (by decide +kernel))

end Index
end AlbumIndex
