import AlbumIndex.Text.LetterCase
import Std.Data.TreeMap

/-!
# Folding of keywords

Keywords and file names are looked up both as written and folded: in lower case and without the
accents of the French letters.  A text without capitals is taken as being in lower case already.
The letters outside the accent table keep their marks.

## Main definitions

* `baseLetter?` — the letter below an accent.
* `fold` — the folded form of a text.
* `FoldCache` — a memory of texts already folded; `FoldCache.fold` answers from it.

## Main results

* `FoldCache.fold_fst` — a cache that holds only folded forms answers with the folded form.
-/

namespace AlbumIndex
namespace Text

/-! ### The table -/

/-- The accented small letters and the letters below. -/
def accentTable : List (Char × Char) :=
  [('à', 'a'), ('â', 'a'), ('é', 'e'), ('è', 'e'), ('ê', 'e'), ('ë', 'e'), ('î', 'i'), ('ï', 'i'),
   ('ô', 'o'), ('ù', 'u'), ('û', 'u'), ('ü', 'u'), ('ç', 'c')]

/-- The letter below an accent of the table. -/
def baseLetter? (c : Char) : Option Char := accentTable.lookup c

/-- The character without its accent. -/
def stripAccent (c : Char) : Char := (baseLetter? c).getD c

/-! ### Folding -/

/-- The text in lower case, if it holds a capital; a text without capitals as it is. -/
def lowered (cs : List Char) : List Char := if cs.any isUppercase then lowercase cs else cs

/-- The folded form of a text, as characters: lowered, and then without accents if there are any. -/
def foldChars (cs : List Char) : List Char :=
  let low := lowered cs
  if low.any fun c => (baseLetter? c).isSome then low.map stripAccent else low

def fold (text : String) : String := String.ofList (foldChars text.toList)

/-! ### The cache -/

/-- Texts folded so far, each with its folded form, under the spelling they were given in. -/
structure FoldCache where
  known : Std.TreeMap String String

namespace FoldCache

/-- Nothing folded yet. -/
def empty : FoldCache := ⟨∅⟩

/-- Nothing folded yet, and room for a number of texts; the cache grows beyond it as needed. -/
def withCapacity (_capacity : Nat) : FoldCache := empty

/-- The number of different texts folded so far. -/
def size (cache : FoldCache) : Nat := cache.known.size

/-- No text has been folded yet. -/
def isEmpty (cache : FoldCache) : Bool := cache.known.isEmpty

/-- The folded form of a text, and the cache that knows it.  A text met before is answered from the
cache. -/
def fold (cache : FoldCache) (text : String) : String × FoldCache :=
  match cache.known[text]? with
  | some folded => (folded, cache)
  | none =>
    let folded := Text.fold text
    (folded, ⟨cache.known.insert text folded⟩)

/-- Every entry of the cache is the folded form of its text. -/
def Sound (cache : FoldCache) : Prop :=
  ∀ text folded : String, cache.known[text]? = some folded → folded = Text.fold text

theorem sound_empty : empty.Sound := by
  intro text folded h
  simp [empty] at h

/-- A sound cache answers with the folded form. -/
theorem fold_fst {cache : FoldCache} (h : cache.Sound) (text : String) :
    (cache.fold text).1 = Text.fold text := by
  unfold fold
  split
  · next folded hk => exact h text folded hk
  · rfl

/-- A sound cache stays sound. -/
theorem Sound.fold_snd {cache : FoldCache} (h : cache.Sound) (text : String) :
    (cache.fold text).2.Sound := by
  unfold FoldCache.fold
  split
  · exact h
  · intro t folded ht
    simp only [Std.TreeMap.getElem?_insert] at ht
    split at ht
    · next he =>
      have : text = t := Std.LawfulEqCmp.eq_of_compare he
      subst this
      exact (Option.some.inj ht).symm
    · exact h t folded ht

end FoldCache
end Text
end AlbumIndex
