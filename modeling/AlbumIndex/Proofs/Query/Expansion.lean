import AlbumIndex.Proofs.Query.People

/-!
# What expanding names leaves out

To expand names changes only what quoted tokens ask for, and of these only the ones that are names of
people.  Such a token asked for a keyword or a part of one; now it asks for a keyword of the person,
as a whole or word by word, but never for a part.  So an image that was found before can be left out
only if it has such a name as a part of a keyword and is tagged under none of the names of that
person.  An image with the name itself as a keyword stays, since the name is one of the names of its
person.

## Main definitions

* `Quotes` — a query has a text in quotes as one of its tokens.
* `NamedInPart` — an image has a quoted name as a part of a keyword only.

## Main results

* `satisfies_withPeople_iff`, `answers_withPeople_iff` — what is asked of an image that belongs to
  the answer without expansion.
* `expansion_keeps_iff` — **which images stay when names are expanded.**
-/

namespace AlbumIndex
namespace Query

open Calendar Text

/-! ### Quoted names -/

/-- One of the tokens of the query falls under the rule for quoted tokens, and asks for the text. -/
def Quotes (query n : String) : Prop :=
  ∃ token ∈ tokenize query, Rule.first token = .exact ∧
    String.ofList (lowercase token.toList).tail = n

/-- The query quotes a name of a person, and the image has the name as a part of a keyword, but has
none of the names of that person, neither as a keyword nor word by word. -/
structure NamedInPart (c : Catalog) (query : String) (image : Image) (n : String) : Prop where
  quoted : Quotes query n
  part : image.IsSubKey n
  unnamed : ∃ names, c.people.lookup? n = some names ∧ ∀ name ∈ names, ¬ image.HasName name

/-! ### What is asked for -/

variable {c : Catalog} {query token : String} {ref : ImageRef}

/-- Only quoted tokens are read in another way. -/
theorem asks_withPeople_iff {rule : Rule} (h : rule ≠ .exact) :
    rule.Asks c Options.withPeople token ref ↔ rule.Asks c Options.default token ref := by
  cases rule with
  | exact => exact absurd rfl h
  | _ => exact Iff.rfl

/-- **What a token asks further if names are expanded**: if it is a quoted name of a person, one of
the names of that person. -/
theorem satisfies_withPeople_iff (h : Satisfies c Options.default token ref) :
    Satisfies c Options.withPeople token ref ↔
      (Rule.first token = .exact → ∀ names,
        c.people.lookup? (String.ofList (lowercase token.toList).tail) = some names →
          ∃ name ∈ names, ref.image.HasName name) := by
  by_cases hexact : Rule.first token = .exact
  · have hkey : ref.image.HasKey .ranked (String.ofList (lowercase token.toList).tail) := by
      rw [Satisfies, hexact] at h
      exact h
    have hperson : Satisfies c Options.withPeople token ref ↔
        Scope.ShowsPerson ⟨c, .ranked, defaultOffset⟩
          (String.ofList (lowercase token.toList).tail) ref.image := by
      rw [Satisfies, hexact]
      rfl
    rw [hperson, Scope.ShowsPerson]
    -- under a name that nobody has, the keyword is asked for as before
    cases hnames : c.people.lookup? (String.ofList (lowercase token.toList).tail) with
    | none => simp [hkey]
    | some names => simp [hexact]
  · have hsame : Satisfies c Options.withPeople token ref := (asks_withPeople_iff hexact).2 h
    simp [hsame, hexact]

/-- The same for a whole query. -/
theorem answers_withPeople_iff (h : Answers c Options.default query ref) :
    Answers c Options.withPeople query ref ↔
      ∀ n, Quotes query n → ∀ names, c.people.lookup? n = some names →
        ∃ name ∈ names, ref.image.HasName name := by
  obtain ⟨hne, htokens, -⟩ := h
  have hall : (∀ token ∈ tokenize query, Satisfies c Options.withPeople token ref) ↔
      ∀ token ∈ tokenize query, Rule.first token = .exact → ∀ names,
        c.people.lookup? (String.ofList (lowercase token.toList).tail) = some names →
          ∃ name ∈ names, ref.image.HasName name :=
    forall₂_congr fun token htoken => satisfies_withPeople_iff (htokens token htoken)
  have hexclude : ∀ k ∈ Options.withPeople.exclude,
      k ∉ ref.image.keywords ∧ k ∉ ref.image.subKeywords := nofun
  rw [Answers, and_iff_right hne, and_iff_left hexclude, hall]
  constructor
  · rintro hnames n ⟨token, htoken, hexact, rfl⟩
    exact hnames token htoken hexact
  · exact fun hnames token htoken hexact => hnames _ ⟨token, htoken, hexact, rfl⟩

/-- What was found for a quoted text and has none of the names of its person, has it in part. -/
theorem isSubKey_of_unnamed {listed : List (List String)} (hlists : c.people.Lists listed)
    (h : Answers c Options.default query ref) {n : String} (hquotes : Quotes query n)
    {names : List String} (hnames : c.people.lookup? n = some names)
    (hnone : ∀ name ∈ names, ¬ ref.image.HasName name) : ref.image.IsSubKey n := by
  obtain ⟨token, htoken, hexact, rfl⟩ := hquotes
  have hsat := h.2.1 token htoken
  rw [Satisfies, hexact] at hsat
  have hkey : ref.image.HasKey .ranked (String.ofList (lowercase token.toList).tail) := hsat
  rcases hkey with hwhole | ⟨-, hpart⟩
  · exact absurd (Or.inl hwhole) (hnone _ (hlists.mem_of_lookup?_eq_some hnames))
  · exact hpart

/-! ### What stays -/

/-- A search that gives the only rank of a catalog finds its image. -/
theorem oneImageRef_mem_results {keywords : List String} {people : Aliases} {opts : Options}
    {search : Search} (hok : Search.ofText (oneImage keywords people) query opts = .ok search)
    (h : (Search.ofText (oneImage keywords people) query opts).toOption.map Search.ranks =
      some [0]) : oneImageRef keywords ∈ search.results := by
  rw [hok] at h
  have hranks : search.ranks = [0] := Option.some.inj h
  rw [Search.results, hranks, Search.catalog_of_ofText hok, List.filterMap_cons,
    ref?_oneImage]
  exact List.mem_cons_self

/-- **Which images stay when names are expanded**: all but those that have a quoted name as a part of
a keyword only; and so all that have the quoted names as keywords. -/
theorem expansion_keeps_iff (albums : List Album) (text : String) (more : List (List String))
    (query : String) :
    let c := Catalog.ofAlbums albums (more.foldl Aliases.add (Aliases.parse text))
    ∃ plain expanded, Search.ofText c query Options.default = .ok plain ∧
      Search.ofText c query Options.withPeople = .ok expanded ∧
      ∀ ref ∈ plain.results,
        (ref ∈ expanded.results ↔ ∀ n, ¬ NamedInPart c query ref.image n) ∧
        ((∀ n names, Quotes query n → c.people.lookup? n = some names →
          ref.image.IsLiteralKey n) → ref ∈ expanded.results) := by
  intro c
  have hlists := (Aliases.lists_parse text).foldl_add more
  obtain ⟨plain, hplain, hcatalog, hout⟩ :=
    ofText_handsOut albums (more.foldl Aliases.add (Aliases.parse text)) query Options.default
      (by decide)
  obtain ⟨expanded, hexpanded, hcatalog', hout'⟩ :=
    ofText_handsOut albums (more.foldl Aliases.add (Aliases.parse text)) query Options.withPeople
      (by decide)
  refine ⟨plain, expanded, hplain, hexpanded, fun ref href => ?_⟩
  obtain ⟨r, -, hget⟩ := List.mem_filterMap.1 href
  have hanswers : Answers c Options.default query ref := (hout.mem_results_iff hget).1 href
  have hnames : ref ∈ expanded.results ↔ ∀ n, Quotes query n → ∀ names,
      c.people.lookup? n = some names → ∃ name ∈ names, ref.image.HasName name := by
    rw [hout'.mem_results_iff (hcatalog' ▸ hcatalog ▸ hget)]
    exact answers_withPeople_iff hanswers
  constructor
  · rw [hnames]
    constructor
    · rintro hall n ⟨hquotes, -, names, hn, hnone⟩
      obtain ⟨name, hname, hhas⟩ := hall n hquotes names hn
      exact hnone name hname hhas
    · intro hall n hquotes names hn
      by_contra hno
      have hnone : ∀ name ∈ names, ¬ ref.image.HasName name :=
        fun name hname hhas => hno ⟨name, hname, hhas⟩
      exact hall n ⟨hquotes, isSubKey_of_unnamed hlists hanswers hquotes hn hnone, names, hn, hnone⟩
  · intro hwhole
    refine hnames.2 fun n hquotes names hn => ?_
    exact ⟨n, hlists.mem_of_lookup?_eq_some hn, Or.inl (hwhole n names hquotes hn)⟩

/-- An image with the name as a keyword of its own, also as part of another one, stays. -/
theorem expansion_keeps_whole_keyword :
    let people := [["jo"]].foldl Aliases.add (Aliases.parse "devin,jd\n")
    let ref := oneImageRef ["Devin", "julien devin"]
    people.lookup? "devin" = some ["devin", "jd"] ∧
      (∀ n names, Quotes (quoted "devin") n → people.lookup? n = some names →
        ref.image.IsLiteralKey n) ∧
      ∃ plain expanded,
        Search.ofText (oneImage ["Devin", "julien devin"] people) (quoted "devin")
          Options.default = .ok plain ∧
        Search.ofText (oneImage ["Devin", "julien devin"] people) (quoted "devin")
          Options.withPeople = .ok expanded ∧
        ref ∈ plain.results ∧ ref ∈ expanded.results := by
  intro people ref
  have hwhole : ∀ n names, Quotes (quoted "devin") n → people.lookup? n = some names →
      ref.image.IsLiteralKey n := by
    rintro n names ⟨token, htoken, -, rfl⟩ -
    have htokens : tokenize (quoted "devin") = ["\"" ++ "devin"] := tokenize_quoted (by decide)
    obtain rfl := List.mem_singleton.1 (htokens ▸ htoken)
    rw [lowercase_quote_tail]
    exact Or.inr (Or.inr ⟨"Devin", List.mem_cons_self, by decide +kernel⟩)
  obtain ⟨plain, expanded, hplain, hexpanded, hkeeps⟩ :=
    expansion_keeps_iff [⟨"walks", .epoch, .epoch,
      [Image.new "a.jpg" ["Devin", "julien devin"] .epoch .epoch]⟩] "devin,jd\n" [["jo"]]
      (quoted "devin")
  have hfound : ref ∈ plain.results := oneImageRef_mem_results hplain (by decide +kernel)
  exact ⟨by decide +kernel, hwhole, plain, expanded, hplain, hexpanded, hfound,
    (hkeeps ref hfound).2 hwhole⟩

/-- An image with the name as a part of a keyword is found in quotes, but no longer if names are
expanded: the person is then asked for under the whole keywords `devin` and `jd`. -/
theorem expansion_loses_part_of_keyword :
    ∃ plain expanded,
      Search.ofText (oneImage ["julien devin"] (Aliases.parse "devin,jd\n")) (quoted "devin")
        Options.default = .ok plain ∧
      Search.ofText (oneImage ["julien devin"] (Aliases.parse "devin,jd\n")) (quoted "devin")
        Options.withPeople = .ok expanded ∧
      oneImageRef ["julien devin"] ∈ plain.results ∧ expanded.results = [] := by
  obtain ⟨expanded, hexpanded, hnone⟩ := Search.exists_of_map_ranks_eq_nil
    (x := Search.ofText (oneImage ["julien devin"] (Aliases.parse "devin,jd\n")) (quoted "devin")
      Options.withPeople) (by decide +kernel)
  obtain ⟨plain, hplain, -⟩ := ofText_handsOut
    [⟨"walks", .epoch, .epoch, [Image.new "a.jpg" ["julien devin"] .epoch .epoch]⟩]
    (Aliases.parse "devin,jd\n") (quoted "devin") Options.default (by decide)
  exact ⟨plain, expanded, hplain, hexpanded,
    oneImageRef_mem_results hplain (by decide +kernel), hnone⟩

end Query
end AlbumIndex
