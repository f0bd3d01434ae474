import AlbumIndex.Text.Pieces
import Mathlib.Data.List.TakeWhile

/-!
# Joined texts, cut at separators and at bytes

What is joined can be cut again: at a separator into the pieces of both parts, and at the byte where
the second part begins into the two parts.  A cut further on falls into the second part, and may
fall into one of its characters.

## Main definitions

* `IsPiece` — a text stands between two separators of another one.

## Main results

* `pieces_append` — the pieces of two texts with a separator between them.
* `mem_pieces_iff` — **the pieces of a text are what stands between its separators.**
* `forall_mem_pieces_iff`, `trim_eq_nil_iff` — what the pieces are made of, and when none is left.
* `bytePrefix?_append_add`, `byteSuffix?_append` — a joined text cut at a byte.
* `byteLength_of_lt` — characters of ASCII take one byte each.
-/

namespace AlbumIndex
namespace Text

theorem pieces_append {cut : Char → Bool} {sep : Char} (hsep : cut sep = true)
    (before after : List Char) :
    pieces cut (before ++ sep :: after) = pieces cut before ++ pieces cut after := by
  simp only [pieces_eq_splitOnP, List.splitOnP_append_cons before after hsep]

/-- A text has no separator, or it is cut at the first. -/
theorem forall_not_or_eq_append (cut : Char → Bool) (cs : List Char) :
    (∀ c ∈ cs, cut c = false) ∨ ∃ first sep rest, cut sep = true ∧
      (∀ c ∈ first, cut c = false) ∧ cs = first ++ sep :: rest := by
  induction cs with
  | nil => exact .inl nofun
  | cons c cs ih =>
    by_cases hc : cut c = true
    · exact .inr ⟨[], c, cs, hc, nofun, rfl⟩
    · have hc := Bool.eq_false_iff.2 hc
      rcases ih with hnone | ⟨first, sep, rest, hsep, hfirst, rfl⟩
      · exact .inl (List.forall_mem_cons.2 ⟨hc, hnone⟩)
      · exact .inr ⟨c :: first, sep, rest, hsep, List.forall_mem_cons.2 ⟨hc, hfirst⟩, rfl⟩

/-- The text stands in another one between two separators, or between a separator and an end, or is
all of it. -/
def IsPiece (cut : Char → Bool) (p cs : List Char) : Prop :=
  (∀ c ∈ p, cut c = false) ∧ ∃ before after, cs = before ++ p ++ after ∧
    (before = [] ∨ ∃ pre sep, cut sep = true ∧ before = pre ++ [sep]) ∧
    (after = [] ∨ ∃ sep post, cut sep = true ∧ after = sep :: post)

/-- A piece of what follows a separator is a piece of the whole. -/
theorem IsPiece.append {cut : Char → Bool} {p cs : List Char} (h : IsPiece cut p cs) {sep : Char}
    (hsep : cut sep = true) (first : List Char) : IsPiece cut p (first ++ sep :: cs) := by
  obtain ⟨hp, before, after, rfl, hbefore, hafter⟩ := h
  refine ⟨hp, first ++ sep :: before, after, by simp, .inr ?_, hafter⟩
  rcases hbefore with rfl | ⟨pre, sep', hsep', rfl⟩
  · exact ⟨first, sep, hsep, rfl⟩
  · exact ⟨first ++ sep :: pre, sep', hsep', by simp⟩

/-- **The pieces of a text are what stands between its separators.**  The text is cut at its first
separator, and the induction is on the length of what follows. -/
theorem mem_pieces_iff {cut : Char → Bool} {p : List Char} (cs : List Char) :
    p ∈ pieces cut cs ↔ IsPiece cut p cs := by
  constructor
  · intro h
    induction hlength : cs.length using Nat.strong_induction_on generalizing cs with
    | _ n ih =>
      rcases forall_not_or_eq_append cut cs with hnone | ⟨first, sep, rest, hsep, hfirst, rfl⟩
      · rw [pieces_of_forall_not hnone, List.mem_singleton] at h
        subst h
        exact ⟨hnone, [], [], by simp, .inl rfl, .inl rfl⟩
      · rw [pieces_append hsep, pieces_of_forall_not hfirst, List.singleton_append,
          List.mem_cons] at h
        rcases h with rfl | h
        · exact ⟨hfirst, [], sep :: rest, rfl, .inl rfl, .inr ⟨sep, rest, hsep, rfl⟩⟩
        · have hshorter : rest.length < n := by
            rw [← hlength, List.length_append, List.length_cons]
            omega
          exact (ih rest.length hshorter rest h rfl).append hsep first
  · rintro ⟨hp, before, after, rfl, hbefore, hafter⟩
    have hhead : p ∈ pieces cut (p ++ after) := by
      rcases hafter with rfl | ⟨sep, post, hsep, rfl⟩
      · rw [List.append_nil, pieces_of_forall_not hp]
        exact List.mem_singleton_self p
      · rw [pieces_append hsep, pieces_of_forall_not hp]
        exact List.mem_append_left _ (List.mem_singleton_self p)
    rcases hbefore with rfl | ⟨pre, sep, hsep, rfl⟩
    · exact hhead
    · rw [List.append_assoc, List.append_assoc, List.singleton_append, pieces_append hsep]
      exact List.mem_append_right _ hhead

/-- The characters of the pieces are those of the text that do not separate. -/
theorem forall_mem_pieces_iff {cut : Char → Bool} {P : Char → Prop} {cs : List Char} :
    (∀ p ∈ pieces cut cs, ∀ c ∈ p, P c) ↔ ∀ c ∈ cs, cut c = true ∨ P c := by
  induction cs with
  | nil => simp [pieces]
  | cons c cs ih =>
    rw [List.forall_mem_cons, ← ih, pieces]
    split
    · next hcut => simp [hcut]
    · next hcut =>
      cases hrest : pieces cut cs with
      | nil => exact absurd hrest (pieces_ne_nil cut cs)
      | cons p ps => simp [hcut, and_assoc]

theorem trimStart_eq_nil_iff {cs : List Char} : trimStart cs = [] ↔ ∀ c ∈ cs, isBlank c = true :=
  List.dropWhile_eq_nil_iff

/-- Nothing is left of a text of blanks. -/
theorem trim_eq_nil_iff {cs : List Char} : trim cs = [] ↔ ∀ c ∈ cs, isBlank c = true := by
  have hstart : trimStart cs = [] ↔ ∀ c ∈ cs, isBlank c = true := trimStart_eq_nil_iff
  rw [trim, List.reverse_eq_nil_iff, trimStart_eq_nil_iff, ← hstart]
  constructor
  · intro h
    -- what is left begins with no blank, so all of it being blank it is empty
    refine Decidable.byContradiction fun hne => ?_
    have hhead := List.head_dropWhile_not isBlank hne
    have hblank := h _ (List.mem_reverse.2 (List.head_mem hne))
    exact absurd (hblank.symm.trans hhead) (by decide)
  · intro h
    rw [h]
    exact nofun

/-! ### Lengths in bytes -/

@[simp] theorem byteLength_nil : byteLength [] = 0 := rfl

@[simp] theorem byteLength_cons (c : Char) (cs : List Char) :
    byteLength (c :: cs) = c.utf8Size + byteLength cs := rfl

theorem byteLength_append (a b : List Char) : byteLength (a ++ b) = byteLength a + byteLength b := by
  induction a with
  | nil => simp
  | cons c a ih => simp [ih, Nat.add_assoc]

theorem utf8Size_of_lt {c : Char} (h : c.toNat < 128) : c.utf8Size = 1 := by
  rw [Char.utf8Size_eq_one_iff]
  exact Nat.le_of_lt_succ h

theorem byteLength_of_lt {q : List Char} (h : ∀ c ∈ q, c.toNat < 128) : byteLength q = q.length := by
  induction q with
  | nil => rfl
  | cons c q ih =>
    obtain ⟨hc, hq⟩ := List.forall_mem_cons.1 h
    rw [byteLength_cons, utf8Size_of_lt hc, ih hq, List.length_cons, Nat.add_comm]

/-! ### Cuts at bytes -/

theorem bytePrefix?_zero (cs : List Char) : bytePrefix? 0 cs = some [] := by
  cases cs <;> rfl

/-- A cut behind a text cuts what follows it. -/
theorem bytePrefix?_append_add (q rest : List Char) (n : Nat) :
    bytePrefix? (byteLength q + n) (q ++ rest) = (bytePrefix? n rest).map (q ++ ·) := by
  induction q with
  | nil => simp
  | cons c q ih =>
    have hpos := c.utf8Size_pos
    rw [List.cons_append, bytePrefix?, byteLength_cons, if_neg (by omega), if_pos (by omega),
      Nat.add_assoc, Nat.add_sub_cancel_left, ih, Option.map_map]
    rfl

theorem bytePrefix?_append (q rest : List Char) :
    bytePrefix? (byteLength q) (q ++ rest) = some q := by
  have h := bytePrefix?_append_add q rest 0
  rwa [bytePrefix?_zero, Option.map_some, Nat.add_zero, List.append_nil] at h

/-- Some first bytes of a text begin as the text does. -/
theorem eq_cons_of_bytePrefix? {n : Nat} {cs p : List Char} (hn : 0 < n)
    (h : bytePrefix? n cs = some p) : ∃ c cs' p', cs = c :: cs' ∧ p = c :: p' := by
  cases cs with
  | nil =>
    rw [bytePrefix?, if_neg (Nat.ne_of_gt hn)] at h
    cases h
  | cons c cs =>
    rw [bytePrefix?, if_neg (Nat.ne_of_gt hn)] at h
    split at h
    · obtain ⟨p', -, rfl⟩ := Option.map_eq_some_iff.1 h
      exact ⟨c, cs, p', rfl, rfl⟩
    · cases h

theorem byteSuffix?_append (q rest : List Char) :
    byteSuffix? (byteLength q) (q ++ rest) = some rest := by
  induction q with
  | nil => cases rest <;> rfl
  | cons c q ih =>
    have hpos := c.utf8Size_pos
    rw [List.cons_append, byteSuffix?, byteLength_cons, if_neg (by omega), if_pos (by omega),
      Nat.add_sub_cancel_left, ih]

end Text
end AlbumIndex
