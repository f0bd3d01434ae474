import AlbumIndex.Aliases
import AlbumIndex.Proofs.Text.Pieces
import Mathlib.Data.List.Basic

/-!
# What the table of aliases knows

The table grows by one person at a time: the names go into a list of people, and each name that is
new into a table that says where its person stands in the list.  Names that are there already keep
their person, so a name that several people share belongs to the first of them, and looking a name
up means to find the first person that has it.

## Main definitions

* `Aliases.Lists` — a table holds a list of people.
* `Aliases.peopleOf` — the people of a text, and those added to it.
* `Aliases.Knows` — what a table tells about its people.

## Main results

* `Aliases.Lists.add`, `Aliases.lists_parse` — the people after one more, and those of a text.
* `Aliases.Lists.lookup?_eq` — **looking up a name finds the first person that has it.**
* `Aliases.everybody_known` — **the table knows everybody who was ever added.**
-/

namespace AlbumIndex
namespace Aliases

open Text

/-- The table holds the people in order, and knows for each name the first of them that has it. -/
structure Lists (a : Aliases) (people : List (List String)) : Prop where
  people_eq : a.people.toList = people
  personOf_eq : ∀ name, a.personOf[name]? = people.findIdx? fun names => names.contains name

theorem lists_empty : empty.Lists [] := ⟨rfl, fun name => by simp [empty]⟩

/-- Names that are there already keep their number; the others get the new one. -/
theorem getElem?_foldl_insertIfNew (names : List String) (i : Nat) (t : Std.TreeMap String Nat)
    (name : String) : (names.foldl (fun t n => t.insertIfNew n i) t)[name]? =
      t[name]?.or (if names.contains name then some i else none) := by
  induction names generalizing t with
  | nil => simp
  | cons first names ih =>
    rw [List.foldl_cons, ih, Std.TreeMap.getElem?_insertIfNew, List.contains_cons]
    simp only [Std.LawfulEqCmp.compare_eq_iff_eq]
    by_cases hfirst : first = name
    · subst hfirst
      cases hold : t[first]? with
      | none =>
        have hnew : first ∉ t := by simp [Std.TreeMap.mem_iff_isSome_getElem?, hold]
        simp [hnew]
      | some j =>
        have hmem : first ∈ t := by simp [Std.TreeMap.mem_iff_isSome_getElem?, hold]
        simp [hmem]
    · have hne : (name == first) = false := by simp [Ne.symm hfirst]
      rw [if_neg fun h => hfirst h.1, hne, Bool.false_or]

/-- One person more comes last; without names it is nobody. -/
theorem Lists.add {a : Aliases} {people : List (List String)} (h : a.Lists people)
    (names : List String) : (a.add names).Lists (people ++ [names].filter fun n => !n.isEmpty) := by
  unfold Aliases.add
  split
  · next hnone => simpa [hnone] using h
  · next hsome =>
    have hlast : [names].filter (fun n => !n.isEmpty) = [names] := by simp [hsome]
    have hsize : a.people.size = people.length := by rw [← h.people_eq, Array.length_toList]
    rw [hlast]
    refine ⟨by rw [Array.toList_push, h.people_eq], fun name => ?_⟩
    rw [getElem?_foldl_insertIfNew, h.personOf_eq, List.findIdx?_append, hsize]
    congr 1
    rw [List.findIdx?_singleton]
    split <;> simp

theorem Lists.foldl_add {a : Aliases} {people : List (List String)} (h : a.Lists people)
    (more : List (List String)) :
    (more.foldl Aliases.add a).Lists (people ++ more.filter fun n => !n.isEmpty) := by
  induction more generalizing a people with
  | nil => rwa [List.filter_nil, List.append_nil]
  | cons names more ih =>
    have hcons : people ++ (names :: more).filter (fun n => !n.isEmpty) =
        (people ++ [names].filter fun n => !n.isEmpty) ++ more.filter fun n => !n.isEmpty := by
      rw [List.append_assoc, ← List.filter_append, List.singleton_append]
    rw [hcons]
    exact ih (h.add names)

/-- The people of a text: those of its lines that have names. -/
theorem lists_parse (text : String) :
    (parse text).Lists (((lines text.toList).map namesOfLine).filter fun n => !n.isEmpty) := by
  have h := lists_empty.foldl_add ((lines text.toList).map namesOfLine)
  rw [List.foldl_map] at h
  exact h

/-- **Looking up a name finds the first person that has it.** -/
theorem Lists.lookup?_eq {a : Aliases} {people : List (List String)} (h : a.Lists people)
    (name : String) : a.lookup? name = people.find? fun names => names.contains name := by
  rw [lookup?, h.personOf_eq, List.find?_eq_bind_findIdx?_getElem?]
  simp only [← Array.getElem?_toList, h.people_eq]

/-- A name is one of the names of the person that is found under it. -/
theorem Lists.mem_of_lookup?_eq_some {a : Aliases} {people : List (List String)}
    (h : a.Lists people) {name : String} {names : List String}
    (hname : a.lookup? name = some names) : name ∈ names := by
  rw [h.lookup?_eq] at hname
  simpa using List.find?_some hname

/-- A name in the table of a text belongs to the first line that lists it. -/
theorem lookup?_parse (text name : String) : (parse text).lookup? name =
    ((lines text.toList).map namesOfLine).find? fun names => names.contains name := by
  rw [(lists_parse text).lookup?_eq, List.find?_filter]
  congr 1
  funext names
  -- who has a name has names
  cases names <;> simp

/-! ### After any history -/

/-- A line names nobody exactly if it is made of blanks and commas. -/
theorem namesOfLine_eq_nil_iff {line : List Char} :
    namesOfLine line = [] ↔ ∀ c ∈ line, c = ',' ∨ isBlank c = true := by
  have hpieces : (∀ p ∈ pieces (· == ',') line, ∀ c ∈ p, isBlank c = true) ↔
      ∀ c ∈ line, (c == ',') = true ∨ isBlank c = true := forall_mem_pieces_iff
  simp only [beq_iff_eq] at hpieces
  rw [namesOfLine, List.map_eq_nil_iff, List.filter_eq_nil_iff, List.forall_mem_map, ← hpieces]
  refine forall₂_congr fun p _ => ?_
  rw [← trim_eq_nil_iff]
  simp

/-- The people of a text, and those added to it one after the other: the lists with names. -/
def peopleOf (text : String) (added : List (List String)) : List (List String) :=
  ((lines text.toList).map namesOfLine ++ added).filter fun names => !names.isEmpty

theorem lists_foldl_add_parse (text : String) (added : List (List String)) :
    (added.foldl add (parse text)).Lists (peopleOf text added) := by
  rw [peopleOf, List.filter_append]
  exact (lists_parse text).foldl_add added

/-- What the table tells about its people. -/
structure Knows (a : Aliases) (people : List (List String)) : Prop where
  size_eq : a.size = people.length
  isEmpty_iff : a.isEmpty = true ↔ people = []
  /-- Under a name all names of the first person are found that has it. -/
  lookup?_eq_some_iff : ∀ name names, a.lookup? name = some names ↔
    ∃ before after, people = before ++ names :: after ∧ name ∈ names ∧
      ∀ others ∈ before, name ∉ others
  lookup?_eq_none_iff : ∀ name, a.lookup? name = none ↔ ∀ names ∈ people, name ∉ names
  /-- The number kept with a name is that of a person who has the name. -/
  person_mem : ∀ name (i : Nat), a.personOf[name]? = some i →
    ∃ names, a.people[i]? = some names ∧ name ∈ names

theorem Lists.knows {a : Aliases} {people : List (List String)} (h : a.Lists people) :
    a.Knows people where
  size_eq := by rw [size, ← h.people_eq, Array.length_toList]
  isEmpty_iff := by rw [isEmpty, Array.isEmpty_iff, ← h.people_eq, Array.toList_eq_nil_iff]
  lookup?_eq_some_iff := by
    intro name names
    rw [h.lookup?_eq, List.find?_eq_some_iff_append]
    simp only [Bool.not_eq_true', ← Bool.not_eq_true, List.contains_iff_mem]
    constructor
    · rintro ⟨hname, before, after, hpeople, hbefore⟩
      exact ⟨before, after, hpeople, hname, hbefore⟩
    · rintro ⟨before, after, hpeople, hname, hbefore⟩
      exact ⟨hname, before, after, hpeople, hbefore⟩
  lookup?_eq_none_iff := by
    intro name
    rw [h.lookup?_eq, List.find?_eq_none]
    simp only [List.contains_iff_mem]
  person_mem := by
    intro name i hi
    rw [h.personOf_eq, List.findIdx?_eq_some_iff_getElem] at hi
    obtain ⟨hlt, hmem, -⟩ := hi
    refine ⟨people[i], ?_, List.contains_iff_mem.1 hmem⟩
    rw [← Array.getElem?_toList, h.people_eq, List.getElem?_eq_getElem hlt]

/-- **The table knows everybody who was ever added**, by a text or one after the other, and each name
under the first who has it.  Nobody comes from a list without names, nor from a line of blanks and
commas. -/
theorem everybody_known (text : String) (added : List (List String)) :
    (added.foldl add (parse text)).Knows (peopleOf text added) ∧
      (∀ a : Aliases, a.add [] = a) ∧
      ∀ line, namesOfLine line = [] ↔ ∀ c ∈ line, c = ',' ∨ isBlank c = true := by
  refine ⟨(lists_foldl_add_parse text added).knows, ?_, ?_⟩
  · intro a
    rfl
  · intro line
    exact namesOfLine_eq_nil_iff

end Aliases
end AlbumIndex
