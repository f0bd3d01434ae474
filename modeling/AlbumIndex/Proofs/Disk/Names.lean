import AlbumIndex.Disk.FileTimes
import AlbumIndex.Disk.FilePath
import AlbumIndex.Proofs.Text.Pieces

/-!
# Names along a path

The path of a folder below the root of the collection is made of the names that lead to it, joined
one after the other.  No name holds a slash, so the path tells the names apart again: two rows of
names that make the same path are the same row.  Continued from another path, it is followed as that
path and then name by name.

## Main definitions

* `IsName` — a text that can name something in a folder.
* `relOf` — the path that a row of names makes.
* `FilePath.before`, `FilePath.front` — the steps with which every path continued from a path
  begins, and its text.

## Main results

* `relOf_inj` — a path has one row of names.
* `length_le_utf8ByteSize_relOf` — a path has at least as many bytes as names.
* `FilePath.steps_join`, `FilePath.steps_join_relOf` — how a continued path is followed.
* `FilePath.join_relOf_join` — a path of names continued by a name.
-/

namespace AlbumIndex
namespace Disk

open Text

/-! ### Names -/

/-- A text that can name something in a folder: following it is one step down. -/
def IsName (s : String) : Prop := Step.of s = .into s ∧ '/' ∉ s.toList

instance (s : String) : Decidable (IsName s) := inferInstanceAs (Decidable (_ ∧ _))

namespace IsName

variable {s : String}

theorem step (h : IsName s) : Step.of s = .into s := h.1

theorem ne_empty (h : IsName s) : s ≠ "" := by
  rintro rfl
  cases h.1

theorem pieces_toList (h : IsName s) : pieces (· == '/') s.toList = [s.toList] :=
  pieces_of_forall_not fun _ hc => beq_eq_false_iff_ne.2 fun hcut => h.2 (hcut ▸ hc)

theorem head?_ne_slash (h : IsName s) : s.toList.head? ≠ some '/' := fun hhead =>
  h.2 (List.mem_of_mem_head? hhead)

theorem length_pos (h : IsName s) : 0 < s.utf8ByteSize := by
  refine Nat.pos_of_ne_zero fun hsize => h.ne_empty ?_
  exact String.utf8ByteSize_eq_zero_iff.1 hsize

end IsName

theorem forall_isName_nil : ∀ n ∈ ([] : List String), IsName n := by simp

theorem forall_isName_concat {names : List String} {name : String} (hnames : ∀ n ∈ names, IsName n)
    (hname : IsName name) : ∀ n ∈ names ++ [name], IsName n := by
  simpa [or_imp, forall_and] using ⟨hnames, hname⟩

/-- Steps into the folders of a row of names. -/
def stepsInto (names : List String) : List Step := names.map Step.into

end Disk

open Disk Text

/-! ### Paths made of names -/

/-- The path that leads through folders of the given names. -/
def relOf (names : List String) : String := names.foldl joinRel ""

theorem relOf_nil : relOf [] = "" := rfl

theorem relOf_concat (names : List String) (name : String) :
    relOf (names ++ [name]) = joinRel (relOf names) name := by
  simp [relOf]

variable {names : List String}

theorem joinRel_ne_empty {name : String} (h : IsName name) (parent : String) :
    joinRel parent name ≠ "" := by
  unfold joinRel
  split
  · exact h.ne_empty
  · intro hjoin
    have := congrArg String.length hjoin
    simp only [String.length_append, String.length_empty] at this
    exact h.ne_empty (String.length_eq_zero_iff.1 (by omega))

theorem pieces_joinRel {parent name : String} (hparent : parent ≠ "") (h : IsName name) :
    pieces (· == '/') (joinRel parent name).toList =
      pieces (· == '/') parent.toList ++ [name.toList] := by
  have hjoined : (joinRel parent name).toList = parent.toList ++ '/' :: name.toList := by
    simp [joinRel, hparent]
  rw [hjoined, pieces_append (by decide), h.pieces_toList]

theorem pieces_foldl_joinRel (hnames : ∀ n ∈ names, IsName n) {parent : String}
    (hparent : parent ≠ "") :
    pieces (· == '/') (names.foldl joinRel parent).toList =
      pieces (· == '/') parent.toList ++ names.map String.toList := by
  induction names generalizing parent with
  | nil => simp
  | cons n names ih =>
    have hn : IsName n := hnames n List.mem_cons_self
    rw [List.foldl_cons, ih (fun m hm => hnames m (List.mem_cons_of_mem _ hm))
      (joinRel_ne_empty hn parent), pieces_joinRel hparent hn]
    simp

/-- The names of a path are the pieces between its slashes. -/
theorem pieces_relOf (hnames : ∀ n ∈ names, IsName n) (hne : names ≠ []) :
    pieces (· == '/') (relOf names).toList = names.map String.toList := by
  cases names with
  | nil => exact absurd rfl hne
  | cons n names =>
    have hn : IsName n := hnames n List.mem_cons_self
    have hfirst : joinRel "" n = n := by simp [joinRel]
    rw [relOf, List.foldl_cons, hfirst,
      pieces_foldl_joinRel (fun m hm => hnames m (List.mem_cons_of_mem _ hm)) hn.ne_empty,
      hn.pieces_toList]
    simp

theorem relOf_eq_empty_iff (hnames : ∀ n ∈ names, IsName n) : relOf names = "" ↔ names = [] := by
  refine ⟨fun h => ?_, fun h => by rw [h, relOf_nil]⟩
  rcases List.eq_nil_or_concat names with rfl | ⟨front, n, rfl⟩
  · rfl
  · rw [List.concat_eq_append, relOf_concat] at h
    exact absurd h (joinRel_ne_empty (hnames n (by simp)) _)

/-- **A path has one row of names.** -/
theorem relOf_inj {others : List String} (hnames : ∀ n ∈ names, IsName n)
    (hothers : ∀ n ∈ others, IsName n) (h : relOf names = relOf others) : names = others := by
  by_cases hnil : names = []
  · rw [hnil, relOf_nil, eq_comm, relOf_eq_empty_iff hothers] at h
    rw [hnil, h]
  · have hne : others ≠ [] := fun hempty =>
      hnil ((relOf_eq_empty_iff hnames).1 (by rw [h, hempty, relOf_nil]))
    have hpieces := pieces_relOf hnames hnil
    rw [h, pieces_relOf hothers hne] at hpieces
    exact (List.map_inj_right fun _ _ hab => String.toList_inj.1 hab).1 hpieces.symm

theorem head?_relOf_ne_slash (hnames : ∀ n ∈ names, IsName n) :
    (relOf names).toList.head? ≠ some '/' := by
  cases names with
  | nil => simp [relOf_nil]
  | cons n names =>
    intro hhead
    obtain ⟨rest, hrest⟩ : ∃ rest, (relOf (n :: names)).toList = [] ++ '/' :: rest := by
      cases hl : (relOf (n :: names)).toList with
      | nil => rw [hl] at hhead; cases hhead
      | cons c rest => rw [hl] at hhead; cases hhead; exact ⟨rest, rfl⟩
    have hpieces := pieces_relOf hnames (List.cons_ne_nil n names)
    rw [hrest, pieces_append (by decide)] at hpieces
    have hempty : n.toList = [] := by simpa [pieces] using (List.cons.inj hpieces).1.symm
    exact (hnames n List.mem_cons_self).ne_empty (String.toList_eq_nil_iff.1 hempty)

theorem getLast?_append_of_ne_nil {front back : List Char} (h : back ≠ []) :
    (front ++ back).getLast? = back.getLast? := by
  rw [List.getLast?_append, List.getLast?_eq_some_getLast h]
  rfl

theorem getLast?_relOf_ne_slash (hnames : ∀ n ∈ names, IsName n) :
    (relOf names).toList.getLast? ≠ some '/' := by
  rcases List.eq_nil_or_concat names with rfl | ⟨front, n, rfl⟩
  · simp [relOf_nil]
  · rw [List.concat_eq_append] at hnames ⊢
    have hn : IsName n := hnames n (by simp)
    have hchars : n.toList ≠ [] := mt String.toList_eq_nil_iff.1 hn.ne_empty
    have hlast : (relOf (front ++ [n])).toList.getLast? = n.toList.getLast? := by
      rw [relOf_concat, joinRel]
      split
      · rfl
      · rw [String.toList_append, getLast?_append_of_ne_nil hchars]
    rw [hlast]
    exact fun h => hn.2 (List.mem_of_getLast? h)

theorem length_le_utf8ByteSize_relOf (hnames : ∀ n ∈ names, IsName n) :
    names.length ≤ (relOf names).utf8ByteSize := by
  suffices ∀ parent : String, names.length + parent.utf8ByteSize ≤
      (names.foldl joinRel parent).utf8ByteSize by simpa [relOf] using this ""
  induction names with
  | nil => simp
  | cons n names ih =>
    intro parent
    have hn : 0 < n.utf8ByteSize := (hnames n List.mem_cons_self).length_pos
    have hjoin : parent.utf8ByteSize + 1 ≤ (joinRel parent n).utf8ByteSize := by
      unfold joinRel
      split
      · next h => simp only [h, String.utf8ByteSize_empty]; omega
      · simp only [String.utf8ByteSize_append]; omega
    have hrest := ih (fun m hm => hnames m (List.mem_cons_of_mem _ hm)) (joinRel parent n)
    simp only [List.length_cons, List.foldl_cons]
    omega

/-! ### Following a continued path -/

namespace Disk
namespace FilePath

/-- The steps with which every path continued from this one begins.  They are its own steps, but a
slash at its end is the one that would be put there. -/
def before (p : FilePath) : List Step :=
  if p.text = "" then []
  else if p.text.toList.getLast? = some '/' then FilePath.steps ⟨String.ofList p.text.toList.dropLast⟩
  else p.steps

variable {p : FilePath} {rest : String}

theorem steps_append (a b : String) :
    FilePath.steps ⟨a ++ "/" ++ b⟩ = FilePath.steps ⟨a⟩ ++ FilePath.steps ⟨b⟩ := by
  have hchars : (a ++ "/" ++ b).toList = a.toList ++ '/' :: b.toList := by simp
  simp only [steps, hchars]
  rw [pieces_append (by decide), List.map_append]

/-- **A continued path** is followed as the path before and then as the rest. -/
theorem steps_join (hrest : rest.toList.head? ≠ some '/') :
    (p.join rest).steps = p.before ++ FilePath.steps ⟨rest⟩ := by
  unfold join before
  rw [if_neg hrest]
  by_cases hempty : p.text = ""
  · simp [hempty]
  · by_cases hlast : p.text.toList.getLast? = some '/'
    · obtain ⟨front, hfront⟩ := List.getLast?_eq_some_iff.1 hlast
      have htext : p.text ++ rest = String.ofList p.text.toList.dropLast ++ "/" ++ rest := by
        apply String.toList_inj.1
        simp [hfront]
      rw [if_pos (Or.inr hlast), if_neg hempty, if_pos hlast, htext, steps_append]
    · rw [if_neg (by simp [hempty, hlast]), if_neg hempty, if_neg hlast, steps_append]

theorem isAbsolute_join (hrest : rest.toList.head? ≠ some '/') :
    (p.join rest).isAbsolute = p.isAbsolute := by
  unfold join
  rw [if_neg hrest]
  by_cases hempty : p.text = ""
  · simp [isAbsolute, hempty, hrest]
  · obtain ⟨c, cs, hcs⟩ : ∃ c cs, p.text.toList = c :: cs :=
      List.exists_cons_of_ne_nil fun h => hempty (String.toList_eq_nil_iff.1 h)
    split <;> simp [isAbsolute, hcs]

theorem eq_of_text {q : FilePath} (h : p.text = q.text) : p = q := by
  cases p
  cases q
  exact congrArg FilePath.mk h

/-- What stands before whatever the path is continued by. -/
def front (p : FilePath) : String :=
  if p.text = "" ∨ p.text.toList.getLast? = some '/' then p.text else p.text ++ "/"

theorem text_join (hrest : rest.toList.head? ≠ some '/') : (p.join rest).text = p.front ++ rest := by
  unfold join front
  rw [if_neg hrest]
  split <;> rfl

theorem utf8ByteSize_le_join (hrest : rest.toList.head? ≠ some '/') :
    rest.utf8ByteSize ≤ (p.join rest).text.utf8ByteSize := by
  rw [text_join hrest, String.utf8ByteSize_append]
  omega

theorem steps_relOf (hnames : ∀ n ∈ names, IsName n) (hne : names ≠ []) :
    FilePath.steps ⟨relOf names⟩ = stepsInto names := by
  simp only [steps, pieces_relOf hnames hne, List.map_map, stepsInto]
  exact List.map_congr_left fun n hn => by simp [(hnames n hn).step]

/-- A path of names continued by a name is the path of all these names. -/
theorem join_relOf_join {name : String} (hnames : ∀ n ∈ names, IsName n) (hne : names ≠ [])
    (hname : IsName name) :
    (p.join (relOf names)).join name = p.join (relOf (names ++ [name])) := by
  have hall : ∀ n ∈ names ++ [name], IsName n := forall_isName_concat hnames hname
  have hempty : relOf names ≠ "" := mt (relOf_eq_empty_iff hnames).1 hne
  have hfront : (p.join (relOf names)).front = p.front ++ relOf names ++ "/" := by
    have htext := text_join (p := p) (head?_relOf_ne_slash hnames)
    have hnonempty : p.front ++ relOf names ≠ "" := fun h => hempty (by
      have := congrArg String.toList h
      simp only [String.toList_append, String.toList_empty, List.append_eq_nil_iff] at this
      exact String.toList_eq_nil_iff.1 this.2)
    have hlast : (p.front ++ relOf names).toList.getLast? ≠ some '/' := by
      rw [String.toList_append, getLast?_append_of_ne_nil (mt String.toList_eq_nil_iff.1 hempty)]
      exact getLast?_relOf_ne_slash hnames
    rw [front, htext, if_neg (by simp only [hnonempty, hlast, or_self, not_false_eq_true])]
  refine eq_of_text ?_
  rw [text_join hname.head?_ne_slash, text_join (head?_relOf_ne_slash hall), hfront, relOf_concat,
    joinRel, if_neg hempty, String.append_assoc, String.append_assoc, String.append_assoc]

/-- A path of names continued from a path is followed name by name. -/
theorem steps_join_relOf (hnames : ∀ n ∈ names, IsName n) (hne : names ≠ []) :
    (p.join (relOf names)).steps = p.before ++ stepsInto names := by
  rw [steps_join (head?_relOf_ne_slash hnames), steps_relOf hnames hne]

end FilePath
end Disk
end AlbumIndex
