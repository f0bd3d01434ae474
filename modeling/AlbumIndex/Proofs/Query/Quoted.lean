import AlbumIndex.Proofs.Query.Language
import AlbumIndex.Proofs.Query.Tokens

/-!
# Quoted texts

A text without quotes, put in quotes, is a query of one token, and no rule but the one for quoted
tokens accepts that token, unless the text begins with `album:`.  The query then asks for the
keyword that is the lower-case form of the text, or for the person of that name.

An image is registered under its keywords as they are written and in their folded forms, which are
lowered and without accents.  The lower-case form of a keyword can be neither of the two: a keyword
with capitals and accents is registered with both or with none, and asked for without the capitals
but with the accents.

## Main definitions

* `quoted`, `lowerText` — a text in quotes, and in lower case.

## Main results

* `tokenize_quoted`, `Rule.first_quote` — a quoted text is one token, under the rule for these.
* `answers_quoted_iff` — what a quoted text asks of an image.
* `own_keyword_found_iff` — **when an image is found by one of its keywords in quotes.**
-/

namespace AlbumIndex
namespace Query

open Calendar Text

/-- The text in quotes. -/
def quoted (text : String) : String := "\"" ++ text ++ "\""

/-- The lower-case form of a text. -/
def lowerText (text : String) : String := String.ofList (lowercase text.toList)

/-! ### One token -/

/-- A text in quotes is one token, which keeps the first of the two. -/
theorem tokenize_quoted {text : String} (h : '"' ∉ text.toList) :
    tokenize (quoted text) = ["\"" ++ text] := by
  have hlist : (quoted text).toList = '"' :: (text.toList ++ ['"']) := by
    simp [quoted]
  have hscan : quoteTokens ('"' :: (text.toList ++ ['"'])) = [('"' :: text.toList)] := by
    have hquote : isBlank '"' = false := by decide
    rw [quoteTokens, scan, hquote, if_neg Bool.false_ne_true, if_pos rfl,
      scan_quotation (fun part => scan_quotation_quote part []) h]
    rfl
  rw [tokenize, hlist, if_neg (by simp), hscan, List.map_singleton]
  congr 1
  rw [← String.toList_inj]
  simp

/-- Only a prefix with a quote in front stands in front of such a token. -/
theorem not_prefix_quote_cons {p : String} {cs : List Char} (hp : p.toList.head? ≠ some '"')
    (hne : p ≠ "") : ¬ p.toList <+: '"' :: cs := by
  intro hprefix
  cases hc : p.toList with
  | nil => exact hne (String.toList_eq_nil_iff.1 hc)
  | cons c p =>
    rw [hc] at hp hprefix
    exact hp (congrArg some (List.cons_prefix_cons.1 hprefix).1)

/-- A token with a quote in front falls under the rule for quoted tokens, unless it names an
album. -/
theorem Rule.first_quote {text : String} (h : ¬ "album:".toList <+: lowercase text.toList) :
    Rule.first ("\"" ++ text) = .exact := by
  have hlist : ("\"" ++ text).toList = '"' :: text.toList := by simp
  have hdigit : isDigit '"' = false := by decide +kernel
  have halbums : "\"" ++ text ≠ "albums:" := by
    intro heq
    have hhead := congrArg (fun t : String => t.toList.head?) heq
    rw [hlist] at hhead
    exact absurd (Option.some.inj hhead) (by decide)
  have halbum : ¬ "\"album:".toList <+: '"' :: lowercase text.toList := by
    intro hprefix
    exact h (List.cons_prefix_cons.1 hprefix).2
  have hquote : "\"".toList <+: '"' :: lowercase text.toList := List.prefix_append ['"'] _
  have hshape : ∀ shape : List Char, hasShape ('#' :: shape) ('"' :: text.toList) = false := by
    intro shape
    rw [hasShape, if_pos rfl, hdigit, Bool.false_and]
  unfold Rule.first
  dsimp only
  rw [hlist, lowercase_quote_cons, if_neg (not_prefix_quote_cons (by decide) (by decide)),
    if_neg (not_prefix_quote_cons (by decide) (by decide)), if_neg halbum,
    if_neg (not_prefix_quote_cons (by decide) (by decide)), if_neg halbums, if_neg (by simp [hshape]),
    if_neg (by simp [hshape]), if_neg (by simp [hshape]), if_neg (by simp [hshape]), if_pos hquote]

/-! ### What the token asks for -/

variable {c : Catalog} {opts : Options} {text : String} {ref : ImageRef}

theorem lowercase_quote_tail : String.ofList (lowercase ("\"" ++ text).toList).tail =
    lowerText text := by
  have hlist : ("\"" ++ text).toList = '"' :: text.toList := by simp
  rw [hlist, lowercase_quote_cons]
  rfl

/-- **A quoted text asks for its lower-case form**, as a name of a person if names are expanded, or
else as a keyword. -/
theorem answers_quoted_iff (hquote : '"' ∉ text.toList)
    (halbum : ¬ "album:".toList <+: lowercase text.toList) (hexclude : opts.exclude = []) :
    Answers c opts (quoted text) ref ↔
      if opts.expandPeople then
        Scope.ShowsPerson ⟨c, opts.mode, opts.offset⟩ (lowerText text) ref.image
      else ref.image.HasKey opts.mode (lowerText text) := by
  rw [Answers, tokenize_quoted hquote, hexclude, List.forall_mem_singleton, Satisfies,
    Rule.first_quote halbum, Rule.Asks, lowercase_quote_tail]
  simp

/-- A search without ranks has no results either. -/
theorem Search.exists_of_map_ranks_eq_nil {x : Except OutOfRange Search}
    (h : x.toOption.map Search.ranks = some []) : ∃ search, x = .ok search ∧ search.results = [] := by
  cases x with
  | error e => cases h
  | ok search =>
    have hranks : search.ranks = [] := Option.some.inj h
    refine ⟨search, rfl, ?_⟩
    rw [Search.results, hranks]
    rfl

/-! ### Keywords of an image -/

/-- **When an image is found by one of its keywords in quotes**: the query is lowered, so the image
is found exactly if it is registered under the lower-case form of the keyword.  That is so if the
keyword is in lower case, or if its folded form is no more than its lower-case form. -/
theorem own_keyword_found_iff (albums : List Album) (people : Aliases) {r : Rank} {ref : ImageRef}
    (href : (Catalog.ofAlbums albums people).ref? r = some ref) {k : String}
    (hk : k ∈ ref.image.keywords) (hquote : '"' ∉ k.toList)
    (halbum : ¬ "album:".toList <+: lowercase k.toList) :
    ∃ search, Search.ofText (Catalog.ofAlbums albums people) (quoted k) Options.default =
        .ok search ∧
      (ref ∈ search.results ↔ ref.image.HasKey .ranked (lowerText k)) ∧
      (lowerText k = k ∨ lowerText k = fold k → ref ∈ search.results) := by
  obtain ⟨search, hok, hcatalog, hout⟩ :=
    ofText_handsOut albums people (quoted k) Options.default (by decide)
  have hfound : ref ∈ search.results ↔ ref.image.HasKey .ranked (lowerText k) := by
    rw [hout.mem_results_iff (hcatalog ▸ href), answers_quoted_iff hquote halbum rfl]
    rfl
  refine ⟨search, hok, hfound, fun hlower => hfound.2 (Or.inl ?_)⟩
  -- both spellings of a keyword are among the keys of its image
  rcases hlower with hlower | hlower
  · rw [hlower]
    exact Or.inr (Or.inl hk)
  · exact Or.inr (Or.inr ⟨k, hk, hlower⟩)

/-- A catalog of one image with the given keywords. -/
def oneImage (keywords : List String) (people : Aliases) : Catalog :=
  Catalog.ofAlbums [⟨"walks", .epoch, .epoch, [Image.new "a.jpg" keywords .epoch .epoch]⟩] people

/-- The reference to the image of such a catalog. -/
def oneImageRef (keywords : List String) : ImageRef :=
  let album : Album :=
    ⟨"walks", .epoch, .epoch, numberImages "walks" 0 [Image.new "a.jpg" keywords .epoch .epoch]⟩
  ⟨⟨0, 0⟩, album, (Image.new "a.jpg" keywords .epoch .epoch).numbered "walks" 0⟩

theorem ref?_oneImage (keywords : List String) (people : Aliases) :
    (oneImage keywords people).ref? 0 = some (oneImageRef keywords) := rfl

/-- A keyword with a capital but without accents. -/
theorem own_keyword_found_without_accents :
    "Rome" ∈ (oneImageRef ["Rome", "Été"]).image.keywords ∧ '"' ∉ "Rome".toList ∧
      ¬ "album:".toList <+: lowercase "Rome".toList ∧ lowerText "Rome" = fold "Rome" ∧
      ∃ search, Search.ofText (oneImage ["Rome", "Été"] .empty) (quoted "Rome") Options.default =
        .ok search ∧ oneImageRef ["Rome", "Été"] ∈ search.results := by
  have hk : "Rome" ∈ (oneImageRef ["Rome", "Été"]).image.keywords := List.mem_cons_self
  have hquote : '"' ∉ "Rome".toList := by decide
  have halbum : ¬ "album:".toList <+: lowercase "Rome".toList := by decide +kernel
  have hlower : lowerText "Rome" = fold "Rome" := by decide +kernel
  obtain ⟨search, hok, -, hfound⟩ :=
    own_keyword_found_iff _ .empty (ref?_oneImage ["Rome", "Été"] .empty) hk hquote halbum
  exact ⟨hk, hquote, halbum, hlower, search, hok, hfound (Or.inr hlower)⟩

/-- The image with the keyword `Été` is not found by `Été` in quotes: it is registered under `Été`
and `ete`, and asked for by `été`. -/
theorem own_keyword_missed :
    (oneImage ["Été"] .empty).ref? 0 = some (oneImageRef ["Été"]) ∧
      "Été" ∈ (oneImageRef ["Été"]).image.keywords ∧ '"' ∉ "Été".toList ∧
      ¬ "album:".toList <+: lowercase "Été".toList ∧
      ∃ search, Search.ofText (oneImage ["Été"] .empty) (quoted "Été") Options.default = .ok search ∧
        search.results = [] := by
  refine ⟨ref?_oneImage _ _, List.mem_cons_self, by decide, by decide +kernel, ?_⟩
  exact Search.exists_of_map_ranks_eq_nil (by decide +kernel)

end Query
end AlbumIndex
