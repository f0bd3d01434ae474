import AlbumIndex.Calendar.Reading
import AlbumIndex.Text.LetterCase

/-!
# Prefixes in lower case

A prefix is looked for in the lower-case form of a text, but cut from the text as it was typed.  The
two agree because next to nothing outside ASCII is lowered into ASCII: only the Kelvin sign becomes a
`k` and the dotted capital I begins with an `i`.  A prefix without these two letters therefore stands
in the text itself, letter for letter, with some letters as capitals.

## Main definitions

* `Plain` — the ASCII characters that come from ASCII only.
* `LowerAscii` — the ASCII characters other than capitals.
* `afterCased` — what a capital sigma asks of the characters before it.

## Main results

* `lowerChar_eq_cons` — what a plain character comes from.
* `prefix_lowercase_iff` — **a plain prefix of the lower-case form stands in the text.**
* `lowerAfter_append_of_ascii` — ASCII is lowered character by character.
* `lowerChar_of_lowerAscii`, `prefix_lowercase_append` — what is in lower case stays as it is.
* `lowercase_quote_cons` — a quote in front of a text does not change its lower-case form.
-/

namespace AlbumIndex
namespace Text

open Calendar (asciiLower)

/-! ### Single characters -/

/-- An ASCII character, not the null, that is the lower-case form of ASCII characters only. -/
def Plain (c : Char) : Prop := (0 < c.toNat ∧ c.toNat < 128) ∧ c ≠ 'i' ∧ c ≠ 'k'

instance (c : Char) : Decidable (Plain c) := inferInstanceAs (Decidable ((_ ∧ _) ∧ _ ∧ _))

/-- The runs of the table other than the first lead out of ASCII, or from the Kelvin sign to `k`. -/
theorem lowerRuns_eq : ∃ runs, lowerRuns = ⟨⟨65, 90, 1⟩, 32⟩ :: runs ∧
    ∀ r ∈ runs, (r.first = r.last ∧ r.first + r.shift = 107) ∨ 128 ≤ r.first + r.shift :=
  ⟨lowerRuns.tail, rfl, by decide +kernel⟩

theorem toNat_ofNat_of_isValidChar {n : Nat} (h : n.isValidChar) : (Char.ofNat n).toNat = n := by
  have hchar : Char.ofNat n = Char.ofNatAux n h := dif_pos h
  rw [hchar]
  rfl

theorem not_plain_ofNat {n : Nat} (h : 128 ≤ n) : ¬ Plain (Char.ofNat n) := by
  intro hplain
  by_cases hvalid : n.isValidChar
  · have hascii := hplain.1.2
    rw [toNat_ofNat_of_isValidChar hvalid] at hascii
    exact absurd hascii (Nat.not_lt.2 h)
  · have hzero : (Char.ofNat n).toNat = 0 := by
      rw [Char.ofNat, dif_neg hvalid]
      rfl
    exact absurd hplain.1.1 (Nat.not_lt.2 (Nat.le_of_eq hzero))

/-- The lower-case form by a run after the first is not plain. -/
theorem not_plain_of_covers {c : Char} {r : CaseRun} (hr : r.covers c.toNat = true)
    (h : (r.first = r.last ∧ r.first + r.shift = 107) ∨ 128 ≤ r.first + r.shift) :
    ¬ Plain (Char.ofNat (c.toNat + r.shift).toNat) := by
  simp only [CharRun.covers, Bool.and_eq_true, decide_eq_true_eq] at hr
  obtain ⟨⟨hlo, hhi⟩, -⟩ := hr
  rcases h with ⟨hone, hk⟩ | hout
  · have hc : (c.toNat + r.shift).toNat = 107 := by omega
    rw [hc]
    exact fun hplain => hplain.2.2 rfl
  · exact not_plain_ofNat (by omega)

theorem lowerChar_ne_nil (c : Char) : lowerChar c ≠ [] := by
  unfold lowerChar
  split
  · exact nofun
  · split <;> exact nofun

/-- **A plain character comes from itself or from its ASCII capital.** -/
theorem lowerChar_eq_cons {c d : Char} {rest : List Char} (hd : Plain d)
    (h : lowerChar c = d :: rest) : asciiLower c = d ∧ rest = [] := by
  obtain ⟨runs, hruns, hout⟩ := lowerRuns_eq
  unfold lowerChar at h
  split at h
  · exact absurd (List.cons.inj h).1.symm hd.2.1
  · split at h
    · next r hfind =>
      obtain ⟨hchar, rfl⟩ := List.cons.inj h
      have hcov : r.covers c.toNat = true :=
        List.find?_some (p := fun r : CaseRun => r.covers c.toNat) hfind
      have hmem : r ∈ lowerRuns := List.mem_of_find?_eq_some hfind
      rw [hruns] at hmem
      rcases List.mem_cons.1 hmem with rfl | hmem
      · -- the capitals of ASCII
        refine ⟨?_, rfl⟩
        simp only [CharRun.covers, Bool.and_eq_true, decide_eq_true_eq] at hcov
        have hlo : 'A' ≤ c := hcov.1.1
        have hhi : c ≤ 'Z' := hcov.1.2
        rw [asciiLower, if_pos ⟨hlo, hhi⟩, ← hchar]
        congr 1
      · rw [← hchar] at hd
        exact absurd hd (not_plain_of_covers hcov (hout r hmem))
    · next hfind =>
      obtain ⟨rfl, rfl⟩ := List.cons.inj h
      refine ⟨?_, rfl⟩
      -- a character without a run is no capital
      have hnone : ¬ ('A' ≤ c ∧ c ≤ 'Z') := by
        intro hcap
        rw [hruns] at hfind
        refine List.find?_eq_none.1 hfind _ List.mem_cons_self ?_
        have hlo : 65 ≤ c.toNat := hcap.1
        have hhi : c.toNat ≤ 90 := hcap.2
        simp [CharRun.covers, hlo, hhi, Nat.mod_one]
      exact if_neg hnone

/-- An ASCII character that is no capital. -/
def LowerAscii (c : Char) : Prop := c.toNat < 128 ∧ ¬(65 ≤ c.toNat ∧ c.toNat ≤ 90)

instance (c : Char) : Decidable (LowerAscii c) := inferInstanceAs (Decidable (_ ∧ ¬_))

/-- No run but the capitals of ASCII begins in ASCII, so all else there is its own lower-case
form. -/
theorem lowerChar_of_lowerAscii {c : Char} (h : LowerAscii c) : lowerChar c = [c] := by
  have houtside : ∀ r ∈ lowerRuns, r.last ≤ 90 ∧ 65 ≤ r.first ∨ 128 ≤ r.first := by decide +kernel
  obtain ⟨hascii, hcapital⟩ := h
  have hnone : (lowerRuns.find? fun r => r.covers c.toNat) = none := by
    apply List.find?_eq_none.2
    intro r hr hcovers
    simp only [CharRun.covers, Bool.and_eq_true, decide_eq_true_eq] at hcovers
    rcases houtside r hr with hrun | hrun <;> omega
  unfold lowerChar
  rw [if_neg (by omega), hnone]

theorem asciiLower_of_lowerAscii {c : Char} (h : LowerAscii c) : asciiLower c = c := by
  refine if_neg fun hcapital => h.2 ?_
  exact ⟨hcapital.1, hcapital.2⟩

/-- In ASCII the lower-case form is the one of the alphabet. -/
theorem lowerChar_of_ascii {c : Char} (h : c.toNat < 128) : lowerChar c = [asciiLower c] := by
  by_cases hcapital : 65 ≤ c.toNat ∧ c.toNat ≤ 90
  · obtain ⟨runs, hruns, -⟩ := lowerRuns_eq
    obtain ⟨hlo, hhi⟩ := hcapital
    have hletter : 'A' ≤ c ∧ c ≤ 'Z' := ⟨hlo, hhi⟩
    have hfind : (lowerRuns.find? fun r => r.covers c.toNat) = some ⟨⟨65, 90, 1⟩, 32⟩ := by
      rw [hruns]
      apply List.find?_cons_of_pos
      simp [CharRun.covers, hlo, hhi, Nat.mod_one]
    rw [lowerChar, if_neg (by omega), hfind, asciiLower, if_pos hletter]
    rfl
  · have hlower : LowerAscii c := ⟨h, hcapital⟩
    rw [lowerChar_of_lowerAscii hlower, asciiLower_of_lowerAscii hlower]

/-! ### Texts -/

theorem asciiLower_toNat_lt {c d : Char} (h : asciiLower c = d) (hd : d.toNat < 128) :
    c.toNat < 128 := by
  unfold asciiLower at h
  split at h
  · next hcap =>
    have hhi : c.toNat ≤ 90 := hcap.2
    omega
  · rwa [h]

/-- Below the letters nothing is lowered. -/
theorem eq_of_asciiLower_eq {c d : Char} (h : asciiLower c = d) (hd : d.toNat < 97) : c = d := by
  unfold asciiLower at h
  split at h
  · next hcapital =>
    have hlo : 65 ≤ c.toNat := hcapital.1
    have hhi : c.toNat ≤ 90 := hcapital.2
    have hvalid : (c.toNat + 32).isValidChar := Or.inl (by omega)
    rw [← h, toNat_ofNat_of_isValidChar hvalid] at hd
    omega
  · exact h

/-- A plain prefix of the lower-case form stands in the text, whatever stands before the two. -/
theorem append_of_prefix_lowerAfter {p : List Char} (hp : ∀ c ∈ p, Plain c)
    {before raw : List Char} (h : p <+: lowerAfter before raw) :
    ∃ q rest, raw = q ++ rest ∧ q.map asciiLower = p := by
  induction p generalizing before raw with
  | nil => exact ⟨[], raw, rfl, rfl⟩
  | cons d p ih =>
    obtain ⟨hd, hp⟩ := List.forall_mem_cons.1 hp
    cases raw with
    | nil => cases List.prefix_nil.1 h
    | cons c raw =>
      rw [lowerAfter] at h
      -- the forms of the capital sigma lie outside ASCII
      have hform : ∃ tail, lowerChar c = d :: tail ∧ c ≠ 'Σ' := by
        by_cases hs : c = 'Σ'
        · rw [if_pos hs] at h
          obtain ⟨t, ht⟩ := h
          have hhead : d = 'ς' ∨ d = 'σ' := by
            split at ht
            · exact Or.inl (List.cons.inj ht).1
            · exact Or.inr (List.cons.inj ht).1
          rcases hhead with rfl | rfl <;> exact absurd hd (by decide)
        · rw [if_neg hs] at h
          obtain ⟨t, ht⟩ := h
          cases hc : lowerChar c with
          | nil => exact absurd hc (lowerChar_ne_nil c)
          | cons e tail =>
            rw [hc] at ht
            exact ⟨tail, congrArg (· :: tail) (List.cons.inj ht).1.symm, hs⟩
      obtain ⟨tail, htail, hs⟩ := hform
      obtain ⟨hlow, rfl⟩ := lowerChar_eq_cons hd htail
      rw [if_neg hs, htail, List.singleton_append, List.cons_prefix_cons] at h
      obtain ⟨q, rest, rfl, rfl⟩ := ih hp h.2
      exact ⟨c :: q, rest, rfl, congrArg (· :: _) hlow⟩

/-- ASCII is lowered character by character, whatever stands around it. -/
theorem lowerAfter_append_of_ascii {q : List Char} (hq : ∀ c ∈ q, c.toNat < 128)
    (before rest : List Char) :
    lowerAfter before (q ++ rest) =
      q.map asciiLower ++ lowerAfter (q.reverse ++ before) rest := by
  induction q generalizing before with
  | nil => rfl
  | cons c q ih =>
    obtain ⟨hc, hq⟩ := List.forall_mem_cons.1 hq
    have hsigma : c ≠ 'Σ' := by
      rintro rfl
      exact absurd hc (by decide)
    rw [List.cons_append, lowerAfter, if_neg hsigma, lowerChar_of_ascii hc, ih hq (c :: before)]
    simp

/-- **What begins the lower-case form**: a plain prefix does exactly if it stands in the text, with
some letters as capitals. -/
theorem prefix_lowercase_iff {p raw : List Char} (hp : ∀ c ∈ p, Plain c) :
    p <+: lowercase raw ↔ ∃ q rest, raw = q ++ rest ∧ q.map asciiLower = p := by
  constructor
  · exact append_of_prefix_lowerAfter hp
  · rintro ⟨q, rest, rfl, rfl⟩
    have hascii : ∀ c ∈ q, c.toNat < 128 := fun c hc =>
      asciiLower_toNat_lt rfl (hp _ (List.mem_map_of_mem hc)).1.2
    rw [lowercase, lowerAfter_append_of_ascii hascii]
    exact List.prefix_append _ _

/-- **A text in lower-case ASCII is its own lower-case form**, whatever follows. -/
theorem prefix_lowercase_append {p : List Char} (hp : ∀ c ∈ p, LowerAscii c) (cs : List Char) :
    p <+: lowercase (p ++ cs) := by
  have hself : p.map asciiLower = p :=
    (List.map_congr_left fun c hc => asciiLower_of_lowerAscii (hp c hc)).trans (List.map_id' p)
  rw [lowercase, lowerAfter_append_of_ascii fun c hc => (hp c hc).1, hself]
  exact List.prefix_append _ _

/-! ### What stands before a text -/

/-- A letter with case stands before, when ignorable characters are skipped; a capital sigma asks
for nothing else of what stands before it. -/
def afterCased (before : List Char) : Bool :=
  (before.dropWhile isCaseIgnorable).head?.any isCased

theorem afterCased_cons_congr {before before' : List Char}
    (h : afterCased before = afterCased before') (c : Char) :
    afterCased (c :: before) = afterCased (c :: before') := by
  unfold afterCased at h ⊢
  rw [List.dropWhile_cons, List.dropWhile_cons]
  split
  · exact h
  · rfl

theorem lowerAfter_congr {before before' : List Char} (h : afterCased before = afterCased before')
    (cs : List Char) : lowerAfter before cs = lowerAfter before' cs := by
  induction cs generalizing before before' with
  | nil => rfl
  | cons c cs ih =>
    have hsigma : sigmaIsFinal before cs = sigmaIsFinal before' cs := by
      unfold sigmaIsFinal
      exact congrArg (· && _) h
    rw [lowerAfter, lowerAfter, hsigma, ih (afterCased_cons_congr h c)]

/-- A quote is lowered by itself: it stays a quote and changes nothing behind it. -/
theorem lowercase_quote_cons (cs : List Char) : lowercase ('"' :: cs) = '"' :: lowercase cs := by
  have hquote : lowerChar '"' = ['"'] := lowerChar_of_lowerAscii (by decide)
  have hbefore : afterCased ['"'] = afterCased [] := by decide +kernel
  rw [lowercase, lowerAfter, if_neg (by decide), hquote, List.singleton_append,
    lowerAfter_congr hbefore cs]
  rfl

end Text
end AlbumIndex
