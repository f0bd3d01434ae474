import AlbumIndex.Proofs.Sorting

/-!
# The order of encoded texts

Texts are compared character by character, by the code points.  Comparing the bytes of their UTF-8
forms comes to the same.  A smaller code point has a smaller first byte if its form is shorter; and
among forms of one length the bytes are the digits of the code point in base 64, the highest first.
The forms of two different characters differ before either of them ends, so what follows them does
not count.

## Main definitions

* `utf8Bytes` — the bytes of a text.

## Main results

* `utf8EncodeChar_append_lt` — different characters are told apart by their bytes alone.
* `utf8Bytes_lt_iff` — **the order of the bytes is the order of the texts.**
-/

namespace AlbumIndex
namespace Text

/-- The bytes of a text in UTF-8. -/
def utf8Bytes (text : String) : List UInt8 := text.toUTF8.data.toList

theorem utf8Bytes_eq (text : String) :
    utf8Bytes text = text.toList.flatMap String.utf8EncodeChar := by
  rw [utf8Bytes, String.toUTF8, ← String.utf8Encode_toList, List.utf8Encode,
    List.toList_data_toByteArray]

/-- The smaller of two numbers is smaller in the digits above the last one, or agrees there and has
the smaller last digit. -/
theorem digits_of_lt {m n : Nat} (h : m < n) :
    m / 64 < n / 64 ∨ (m / 64 = n / 64 ∧ m % 64 < n % 64) := by
  omega

/-- **Different characters are told apart by their bytes alone**, whatever follows. -/
theorem utf8EncodeChar_append_lt {c d : Char} (h : c < d) (r s : List UInt8) :
    String.utf8EncodeChar c ++ r < String.utf8EncodeChar d ++ s := by
  have hlt : c.val.toNat < d.val.toNat := h
  have hmax : d.val.toNat < 1114112 := by
    rcases d.valid with hd | hd
    · omega
    · exact hd.2
  have hdigits := digits_of_lt hlt
  have htwo : ∀ n : Nat, n / 4096 = n / 64 / 64 := by omega
  have hthree : ∀ n : Nat, n / 262144 = n / 64 / 64 / 64 := by omega
  unfold String.utf8EncodeChar
  dsimp only
  rw [htwo, hthree, htwo, hthree]
  generalize c.val.toNat = m at *
  generalize d.val.toNat = n at *
  -- one case for each two lengths; where the second form is the shorter one, the numbers disagree
  split_ifs <;>
    simp only [List.cons_append, List.nil_append, List.cons_lt_cons_iff, UInt8.lt_iff_toNat_lt,
      ← UInt8.toNat_inj, UInt8.toNat_ofNat'] <;>
    omega

theorem flatMap_utf8EncodeChar_lt {cs ds : List Char} (h : cs < ds) :
    cs.flatMap String.utf8EncodeChar < ds.flatMap String.utf8EncodeChar := by
  induction cs generalizing ds with
  | nil =>
    cases ds with
    | nil => exact absurd h (List.lt_irrefl [])
    | cons d ds =>
      obtain ⟨b, bs, hd⟩ := List.exists_cons_of_ne_nil (String.utf8EncodeChar_ne_nil (c := d))
      rw [List.flatMap_nil, List.flatMap_cons, hd]
      exact List.nil_lt_cons b _
  | cons c cs ih =>
    cases ds with
    | nil => exact absurd h (List.not_lt_nil _)
    | cons d ds =>
      rw [List.flatMap_cons, List.flatMap_cons]
      rcases List.cons_lt_cons_iff.1 h with hcd | ⟨rfl, hrest⟩
      · exact utf8EncodeChar_append_lt hcd _ _
      · exact List.append_left_lt (ih hrest)

/-- **The order of the bytes is the order of the texts.** -/
theorem utf8Bytes_lt_iff {a b : String} : utf8Bytes a < utf8Bytes b ↔ a < b := by
  have hmono : ∀ {a b : String}, a < b → utf8Bytes a < utf8Bytes b := by
    intro a b h
    rw [utf8Bytes_eq, utf8Bytes_eq]
    exact flatMap_utf8EncodeChar_lt (String.lt_iff.1 h)
  refine ⟨fun h => ?_, hmono⟩
  apply Decidable.byContradiction
  intro hnlt
  -- otherwise the texts are equal or stand the other way round
  by_cases heq : b = a
  · rw [heq] at h
    exact List.lt_irrefl _ h
  · exact List.lt_asymm h (hmono (text_lt_of_le_of_ne (String.not_lt.1 hnlt) heq))

end Text
end AlbumIndex
