import Mathlib.Data.List.Nodup

/-!
# Sorting by names and by other keys

Lists are put in the order of names: the images of an album, and the entries of a folder.  Where the
names are distinct there is only one such order, so it does not matter in which order the list came.

Some lists are put in the order of another key first, and of names where the keys are the same:
albums, keywords, and the entries of a summary.  Distinct names make such an order a strict one, too.

Where keys are shared, a list can still be sorted in one way only if elements of one key have to
stay in the order in which they came.

## Main definitions

* `NamesAfter` — an order that looks at a key first and then at names.
* `SortedBy` — a list put in the order of keys, with elements of one key as they stood.

## Main results

* `pairwise_le_mergeSort` — a list put in the order of names is in that order.
* `pairwise_lt_of_distinct` — distinct names make the order a strict one.
* `eq_of_perm_of_distinct` — **distinct names have one order.**
* `NamesAfter.pairwise_mergeSort`, `NamesAfter.mergeSort_of_perm` — the same with a key before the
  names.
* `sortedBy_mergeSort` — what a sort by keys gives.
* `SortedBy.unique` — **a list can be put in the order of keys in one way only.**
-/

namespace AlbumIndex

theorem text_lt_of_le_of_ne {a b : String} (hle : a ≤ b) (hne : a ≠ b) : a < b :=
  Decidable.byContradiction fun hnlt => hne (String.le_antisymm hle (String.not_lt.1 hnlt))

variable {α : Type} {name : α → String} {as bs : List α}

theorem pairwise_le_mergeSort (name : α → String) (as : List α) :
    (as.mergeSort fun a b => decide (name a ≤ name b)).Pairwise fun a b => name a ≤ name b := by
  have htrans : ∀ a b c : α, decide (name a ≤ name b) = true → decide (name b ≤ name c) = true →
      decide (name a ≤ name c) = true := by
    simp only [decide_eq_true_eq]
    intro a b c
    exact String.le_trans
  have htotal : ∀ a b : α, (decide (name a ≤ name b) || decide (name b ≤ name a)) = true := by
    simp only [Bool.or_eq_true, decide_eq_true_eq]
    intro a b
    exact String.le_total (name a) (name b)
  exact (List.pairwise_mergeSort htrans htotal as).imp fun h => of_decide_eq_true h

theorem pairwise_lt_of_distinct (hsorted : as.Pairwise fun a b => name a ≤ name b)
    (hnames : (as.map name).Nodup) : as.Pairwise fun a b => name a < name b := by
  have hne : as.Pairwise fun a b => name a ≠ name b := List.pairwise_map.1 hnames
  exact (List.pairwise_and_iff.2 ⟨hsorted, hne⟩).imp fun h => text_lt_of_le_of_ne h.1 h.2

/-- **Distinct names have one order.** -/
theorem eq_of_perm_of_distinct (hperm : as.Perm bs) (has : as.Pairwise fun a b => name a ≤ name b)
    (hbs : bs.Pairwise fun a b => name a ≤ name b) (hnames : (as.map name).Nodup) : as = bs := by
  refine List.Perm.eq_of_pairwise ?_ has hbs hperm
  intro a b ha hb hab hba
  have hsame : name a = name b := String.le_antisymm hab hba
  exact List.inj_on_of_nodup_map hnames ha (hperm.mem_iff.2 hb) hsame

/-! ### A key before the names -/

section Names

variable {κ : Type} {lt : κ → κ → Prop} {key : α → κ} {le : α → α → Bool}

/-- The order looks at a key first, in a strict total order, and at names where the keys are the
same. -/
structure NamesAfter (lt : κ → κ → Prop) (key : α → κ) (name : α → String) (le : α → α → Bool) :
    Prop where
  le_iff : ∀ a b, le a b = true ↔ lt (key a) (key b) ∨ (key a = key b ∧ name a ≤ name b)
  lt_trans : ∀ {i j k}, lt i j → lt j k → lt i k
  lt_irrefl : ∀ i, ¬lt i i
  lt_or_eq_or_gt : ∀ i j, lt i j ∨ i = j ∨ lt j i

namespace NamesAfter

theorem trans (h : NamesAfter lt key name le) (a b c : α) (hab : le a b = true)
    (hbc : le b c = true) : le a c = true := by
  rw [h.le_iff] at *
  rcases hab with hab | ⟨hab, hname⟩
  · rcases hbc with hbc | ⟨hbc, -⟩
    · exact Or.inl (h.lt_trans hab hbc)
    · exact Or.inl (hbc ▸ hab)
  · rcases hbc with hbc | ⟨hbc, hname'⟩
    · exact Or.inl (hab ▸ hbc)
    · exact Or.inr ⟨hab.trans hbc, String.le_trans hname hname'⟩

theorem total (h : NamesAfter lt key name le) (a b : α) : (le a b || le b a) = true := by
  rw [Bool.or_eq_true, h.le_iff, h.le_iff]
  rcases h.lt_or_eq_or_gt (key a) (key b) with hlt | heq | hgt
  · exact Or.inl (Or.inl hlt)
  · rcases String.le_total (name a) (name b) with hname | hname
    · exact Or.inl (Or.inr ⟨heq, hname⟩)
    · exact Or.inr (Or.inr ⟨heq.symm, hname⟩)
  · exact Or.inr (Or.inl hgt)

/-- Two elements that stand level have one name. -/
theorem name_eq (h : NamesAfter lt key name le) {a b : α} (hab : le a b = true)
    (hba : le b a = true) : name a = name b := by
  rcases (h.le_iff a b).1 hab with hlt | ⟨heq, hname⟩
  · rcases (h.le_iff b a).1 hba with hgt | ⟨heq, -⟩
    · exact absurd (h.lt_trans hlt hgt) (h.lt_irrefl _)
    · exact absurd (heq ▸ hlt) (h.lt_irrefl _)
  · rcases (h.le_iff b a).1 hba with hgt | ⟨-, hname'⟩
    · exact absurd (heq ▸ hgt) (h.lt_irrefl _)
    · exact String.le_antisymm hname hname'

theorem pairwise_le_mergeSort (h : NamesAfter lt key name le) (as : List α) :
    (as.mergeSort le).Pairwise fun a b => le a b = true :=
  List.pairwise_mergeSort h.trans h.total as

/-- Distinct names make the order a strict one. -/
theorem pairwise_mergeSort (h : NamesAfter lt key name le) (hnames : (as.map name).Nodup) :
    (as.mergeSort le).Pairwise fun a b =>
      lt (key a) (key b) ∨ (key a = key b ∧ name a < name b) := by
  have hne : (as.mergeSort le).Pairwise fun a b => name a ≠ name b :=
    List.pairwise_map.1 (((List.mergeSort_perm as le).map name).nodup_iff.2 hnames)
  apply (List.pairwise_and_iff.2 ⟨h.pairwise_le_mergeSort as, hne⟩).imp
  rintro a b ⟨hle, hne⟩
  rcases (h.le_iff a b).1 hle with hlt | ⟨heq, hname⟩
  · exact Or.inl hlt
  · exact Or.inr ⟨heq, text_lt_of_le_of_ne hname hne⟩

/-- **Where a name stands for one element only, a list may come in any order.** -/
theorem mergeSort_of_perm (h : NamesAfter lt key name le) (hperm : as.Perm bs)
    (hnames : ∀ a ∈ as, ∀ b ∈ as, name a = name b → a = b) : as.mergeSort le = bs.mergeSort le := by
  have has := List.mergeSort_perm as le
  have hbs := (List.mergeSort_perm bs le).trans hperm.symm
  refine (has.trans hbs.symm).eq_of_pairwise ?_ (h.pairwise_le_mergeSort as)
    (h.pairwise_le_mergeSort bs)
  intro a b ha hb hab hba
  exact hnames a (has.mem_iff.1 ha) b (hbs.mem_iff.1 hb) (h.name_eq hab hba)

end NamesAfter
end Names

/-! ### Shared keys -/

section Shared

variable {κ : Type} [DecidableEq κ] {key : α → κ} {le : κ → κ → Prop} {cs : List α}

/-- The second list is the first one put in an order of keys: it has the same elements, their keys
are in order, and the elements of one key stand as they stood. -/
structure SortedBy (key : α → κ) (le : κ → κ → Prop) (as bs : List α) : Prop where
  perm : bs.Perm as
  ordered : bs.Pairwise fun a b => le (key a) (key b)
  stable : ∀ k, (bs.filter fun a => decide (key a = k)) = as.filter fun a => decide (key a = k)

/-- **What a sort by keys gives.** -/
theorem sortedBy_mergeSort (le : κ → κ → Prop) [DecidableRel le]
    (htrans : ∀ {i j k}, le i j → le j k → le i k)
    (htotal : ∀ i j, le i j ∨ le j i) (key : α → κ) (as : List α) :
    SortedBy key le as (as.mergeSort fun a b => decide (le (key a) (key b))) := by
  have htrans' : ∀ a b c : α, decide (le (key a) (key b)) = true →
      decide (le (key b) (key c)) = true → decide (le (key a) (key c)) = true := by
    intro a b c hab hbc
    simp only [decide_eq_true_eq] at *
    exact htrans hab hbc
  have htotal' : ∀ a b : α,
      (decide (le (key a) (key b)) || decide (le (key b) (key a))) = true := by
    intro a b
    simpa using htotal (key a) (key b)
  have hperm := List.mergeSort_perm as fun a b => decide (le (key a) (key b))
  refine ⟨hperm, ?_, ?_⟩
  · exact (List.pairwise_mergeSort htrans' htotal' as).imp fun h => of_decide_eq_true h
  · intro k
    -- the elements of one key are in order already, so a stable sort keeps them as they stand
    have hlevel : (as.filter fun a => decide (key a = k)).Pairwise
        fun a b => decide (le (key a) (key b)) = true := by
      apply List.pairwise_of_forall_mem_list
      intro a ha b hb
      simp only [List.mem_filter, decide_eq_true_eq] at ha hb ⊢
      rw [ha.2, hb.2]
      simpa using htotal k k
    have hsub := (List.sublist_mergeSort htrans' htotal' hlevel List.filter_sublist).filter
      fun a => decide (key a = k)
    rw [List.filter_filter] at hsub
    simp only [Bool.and_self] at hsub
    exact (hsub.eq_of_length (hperm.filter _).length_eq.symm).symm

/-- Lists in the order of keys are the same if they are the same key by key. -/
theorem eq_of_ordered_of_filter_eq (hantisymm : ∀ {i j}, le i j → le j i → i = j)
    (hbs : bs.Pairwise fun a b => le (key a) (key b))
    (hcs : cs.Pairwise fun a b => le (key a) (key b))
    (hsame : ∀ k, (bs.filter fun a => decide (key a = k)) = cs.filter fun a => decide (key a = k)) :
    bs = cs := by
  induction bs generalizing cs with
  | nil =>
    cases cs with
    | nil => rfl
    | cons c cs =>
      have hfirst := hsame (key c)
      simp at hfirst
  | cons b bs ih =>
    cases cs with
    | nil =>
      have hfirst := hsame (key b)
      simp at hfirst
    | cons c cs =>
      obtain ⟨hb, hbs'⟩ := List.pairwise_cons.1 hbs
      obtain ⟨hc, hcs'⟩ := List.pairwise_cons.1 hcs
      have hmem : ∀ a, a ∈ b :: bs ↔ a ∈ c :: cs := by
        intro a
        have hlevel : a ∈ (b :: bs).filter (fun x => decide (key x = key a)) ↔
            a ∈ (c :: cs).filter fun x => decide (key x = key a) := by
          rw [hsame (key a)]
        simpa [List.mem_filter] using hlevel
      -- either head stands before the other one, or is the other one
      have hkey : key b = key c := by
        rcases List.mem_cons.1 ((hmem b).1 List.mem_cons_self) with rfl | hb'
        · rfl
        · rcases List.mem_cons.1 ((hmem c).2 List.mem_cons_self) with rfl | hc'
          · rfl
          · exact hantisymm (hb c hc') (hc b hb')
      have hhead := hsame (key c)
      simp only [List.filter_cons, hkey, decide_true, if_true, List.cons.injEq] at hhead
      obtain ⟨rfl, -⟩ := hhead
      congr 1
      apply ih hbs' hcs'
      intro k
      have hrest := hsame k
      simp only [List.filter_cons] at hrest
      split at hrest
      · exact (List.cons.inj hrest).2
      · exact hrest

/-- **A list can be put in the order of keys in one way only.** -/
theorem SortedBy.unique (hantisymm : ∀ {i j}, le i j → le j i → i = j)
    (hbs : SortedBy key le as bs) (hcs : SortedBy key le as cs) : bs = cs := by
  apply eq_of_ordered_of_filter_eq hantisymm hbs.ordered hcs.ordered
  intro k
  rw [hbs.stable k, hcs.stable k]

end Shared

end AlbumIndex
