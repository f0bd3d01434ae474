import AlbumIndex.Proofs.Catalog.People
import AlbumIndex.Proofs.Query.Quoted

/-!
# Names in quotes

With the expansion of names switched on, a name in quotes asks for all images of the person.  The
query is lowered and the table of names is not, so what counts is the first person that has the
lower-case form of the name.  If there is one, an image answers that is registered under any name of
that person as a whole, or under all words of a name.  If there is none, the query is taken as one
for a keyword, also if the name itself is in the table.

## Main definitions

* `Options.withPeople` — the options of a plain query, but with names expanded.
* `FirstListed` — a line of a text is the first that lists a name.

## Main results

* `quoted_name_finds` — **what a name in quotes finds.**
-/

namespace AlbumIndex
namespace Query

open Calendar Text

/-- The options of a plain query, but with names expanded. -/
def Options.withPeople : Options := { Options.default with expandPeople := true }

/-- The line lists the name, and no line before it does. -/
def FirstListed (text : String) (line : List Char) (name : String) : Prop :=
  ∃ before after, lines text.toList = before ++ line :: after ∧
    name ∈ Aliases.namesOfLine line ∧ ∀ other ∈ before, name ∉ Aliases.namesOfLine other

theorem lookup?_of_firstListed {text name : String} {line : List Char}
    (h : FirstListed text line name) :
    (Aliases.parse text).lookup? name = some (Aliases.namesOfLine line) := by
  obtain ⟨before, after, hlines, hline, hbefore⟩ := h
  rw [Aliases.lookup?_parse, hlines, List.map_append, List.map_cons, List.find?_append]
  have hnone : (before.map Aliases.namesOfLine).find? (fun names => names.contains name) = none := by
    simpa using hbefore
  rw [hnone, List.find?_cons_of_pos (by simpa using hline), Option.none_or]

theorem lookup?_of_not_listed {text name : String}
    (h : ∀ line ∈ lines text.toList, name ∉ Aliases.namesOfLine line) :
    (Aliases.parse text).lookup? name = none := by
  rw [Aliases.lookup?_parse]
  simpa using h

/-- **What a name in quotes finds**: the images of the first person that has its lower-case form
among the names, and so every image with one of these names as a keyword; or, if nobody has it, the
images with the lower-case form as a key. -/
theorem quoted_name_finds (albums : List Album) (text : String) {n : String}
    (hquote : '"' ∉ n.toList) (halbum : ¬ "album:".toList <+: lowercase n.toList) :
    ∃ search, Search.ofText (Catalog.ofAlbums albums (Aliases.parse text)) (quoted n)
        Options.withPeople = .ok search ∧
      (∀ line, FirstListed text line (lowerText n) → ∀ r ref,
        (Catalog.ofAlbums albums (Aliases.parse text)).ref? r = some ref →
          (ref ∈ search.results ↔ ∃ name ∈ Aliases.namesOfLine line, ref.image.HasName name) ∧
          ((∃ name ∈ Aliases.namesOfLine line, name ∈ ref.image.keywords) →
            ref ∈ search.results)) ∧
      ((∀ line ∈ lines text.toList, lowerText n ∉ Aliases.namesOfLine line) → ∀ r ref,
        (Catalog.ofAlbums albums (Aliases.parse text)).ref? r = some ref →
          (ref ∈ search.results ↔ ref.image.HasKey .ranked (lowerText n))) := by
  obtain ⟨search, hok, hcatalog, hout⟩ :=
    ofText_handsOut albums (Aliases.parse text) (quoted n) Options.withPeople (by decide)
  -- the table decides what the name stands for
  have hfound : ∀ r ref, (Catalog.ofAlbums albums (Aliases.parse text)).ref? r = some ref →
      (ref ∈ search.results ↔ Scope.ShowsPerson
        ⟨Catalog.ofAlbums albums (Aliases.parse text), .ranked, defaultOffset⟩ (lowerText n)
          ref.image) := by
    intro r ref href
    rw [hout.mem_results_iff (hcatalog ▸ href), answers_quoted_iff hquote halbum rfl]
    rfl
  have hpeople : (Catalog.ofAlbums albums (Aliases.parse text)).people = Aliases.parse text := rfl
  refine ⟨search, hok, fun line hline r ref href => ?_, fun hnone r ref href => ?_⟩
  · have hname : ref ∈ search.results ↔
        ∃ name ∈ Aliases.namesOfLine line, ref.image.HasName name := by
      rw [hfound r ref href, Scope.ShowsPerson, hpeople, lookup?_of_firstListed hline]
    refine ⟨hname, fun hkeyword => hname.2 ?_⟩
    obtain ⟨name, hline, hk⟩ := hkeyword
    exact ⟨name, hline, Or.inl (Or.inr (Or.inl hk))⟩
  · rw [hfound r ref href, Scope.ShowsPerson, hpeople, lookup?_of_not_listed hnone]

/-- An image with the long name of a person is found by the short one. -/
theorem quoted_name_finds_long_name :
    FirstListed "Julien Devin, jd\n" "Julien Devin, jd".toList (lowerText "jd") ∧
      "Julien Devin" ∈ (oneImageRef ["Julien Devin"]).image.keywords ∧
      ∃ search, Search.ofText (oneImage ["Julien Devin"] (Aliases.parse "Julien Devin, jd\n"))
        (quoted "jd") Options.withPeople = .ok search ∧
        oneImageRef ["Julien Devin"] ∈ search.results := by
  have hline : FirstListed "Julien Devin, jd\n" "Julien Devin, jd".toList (lowerText "jd") :=
    ⟨[], [], by decide +kernel, by decide +kernel, nofun⟩
  have hname : "Julien Devin" ∈ Aliases.namesOfLine "Julien Devin, jd".toList := by decide +kernel
  have hk : "Julien Devin" ∈ (oneImageRef ["Julien Devin"]).image.keywords := List.mem_cons_self
  obtain ⟨search, hok, hfirst, -⟩ :=
    quoted_name_finds _ "Julien Devin, jd\n" (by decide : '"' ∉ "jd".toList) (by decide +kernel)
  have href := ref?_oneImage ["Julien Devin"] (Aliases.parse "Julien Devin, jd\n")
  exact ⟨hline, hk, search, hok, (hfirst _ hline 0 _ href).2 ⟨_, hname, hk⟩⟩

/-- Under a name with a capital, the images with the other names of the person are not found. -/
theorem quoted_name_with_capital_misses :
    FirstListed "Julien,jd\n" "Julien,jd".toList "Julien" ∧
      "jd" ∈ Aliases.namesOfLine "Julien,jd".toList ∧ '"' ∉ "Julien".toList ∧
      ¬ "album:".toList <+: lowercase "Julien".toList ∧
      (oneImage ["jd"] (Aliases.parse "Julien,jd\n")).ref? 0 = some (oneImageRef ["jd"]) ∧
      "jd" ∈ (oneImageRef ["jd"]).image.keywords ∧
      ∃ search, Search.ofText (oneImage ["jd"] (Aliases.parse "Julien,jd\n")) (quoted "Julien")
        Options.withPeople = .ok search ∧ search.results = [] := by
  refine ⟨⟨[], [], by decide +kernel, by decide +kernel, nofun⟩, by decide +kernel, by decide,
    by decide +kernel, ref?_oneImage _ _, List.mem_cons_self, ?_⟩
  exact Search.exists_of_map_ranks_eq_nil (by decide +kernel)

end Query
end AlbumIndex
