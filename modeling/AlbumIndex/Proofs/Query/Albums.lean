import AlbumIndex.Proofs.Query.Words

/-!
# Albums by their paths

A path without quotes, put in quotes behind `album:`, is a query for the first album of that path.
The path comes through unchanged, whatever it is: the quotes keep it together with its blanks and
commas, the rule for quoted albums is tried before all others that accept the token, and what the
rule takes is cut from the token as it was typed, since the prefix it looks for is plain.  So the
path is neither lowered nor trimmed, and a path that begins with a prefix itself, or is empty, is a
path like any other.

The condition on an album does not look at the tables of keywords, so it hands out the images of the
album in the order of their ranks in every mode.

## Main definitions

* `albumQuery` — the query for the album of a path.

## Main results

* `Rule.first_album_token`, `Token.after_album_token` — the rule of the token, and what it takes.
* `ofText_albumQuery` — the query is the condition on the path.
* `album_found_by_its_path` — **every album is found by its path.**
-/

namespace AlbumIndex
namespace Query

open Text

/-! ### The token -/

/-- The query for the album of a path, which stands in quotes. -/
def albumQuery (rel : String) : String := quoted ("album:" ++ rel)

/-- The token of that query, without the quote at its end. -/
def albumToken (rel : String) : String := "\"" ++ ("album:" ++ rel)

theorem tokenize_albumQuery {rel : String} (h : '"' ∉ rel.toList) :
    tokenize (albumQuery rel) = [albumToken rel] := by
  apply tokenize_quoted
  intro hmem
  rw [String.toList_append, List.mem_append] at hmem
  rcases hmem with hmem | hmem
  · exact absurd hmem (by decide)
  · exact h hmem

theorem toList_albumToken (rel : String) :
    (albumToken rel).toList = "\"album:".toList ++ rel.toList := by
  simp [albumToken]

theorem prefix_lowercase_albumToken (rel : String) :
    "\"album:".toList <+: lowercase (albumToken rel).toList := by
  have hlower : ("\"album:".toList.all fun c => decide (LowerAscii c)) = true := by decide
  rw [toList_albumToken]
  apply prefix_lowercase_append
  intro c hc
  exact of_decide_eq_true (List.all_eq_true.1 hlower c hc)

/-- **The token falls under the rule for quoted albums**: the rules before it do not accept a
quote. -/
theorem Rule.first_album_token (rel : String) : Rule.first (albumToken rel) = .quotedAlbum := by
  have hprefix := prefix_lowercase_albumToken rel
  have hquote : ∃ cs, lowercase (albumToken rel).toList = '"' :: cs := by
    obtain ⟨rest, hrest⟩ := hprefix
    exact ⟨_, hrest.symm⟩
  obtain ⟨cs, hcs⟩ := hquote
  unfold Rule.first
  dsimp only
  rw [hcs] at hprefix ⊢
  rw [if_neg (not_prefix_quote_cons (by decide) (by decide)),
    if_neg (not_prefix_quote_cons (by decide) (by decide)), if_pos hprefix]

/-- **What the rule takes from the token is the path.** -/
theorem Token.after_album_token (rel : String) :
    (Token.of (albumToken rel)).after "\"album:" = rel := by
  have hplain : PlainPrefix "\"album:" := by decide +kernel
  rw [Token.after_eq_remainder hplain (prefix_lowercase_albumToken rel), remainder,
    toList_albumToken, ← String.length_toList, List.drop_left, String.ofList_toList]

/-- **The query is the condition on the path.** -/
theorem ofText_albumQuery (c : Catalog) (opts : Options) {rel : String} (hquote : '"' ∉ rel.toList)
    (hexclude : opts.exclude = []) :
    Search.ofText c (albumQuery rel) opts =
      Search.begin ⟨c, opts.mode, opts.offset⟩ (.album rel) := by
  rw [ofText_of_tokenize_eq_singleton c opts (tokenize_albumQuery hquote) hexclude, compileToken,
    Rule.of_token, Rule.first_album_token, Rule.node, Token.after_album_token]

/-! ### The album -/

/-- A path that some album has, has a first album. -/
theorem exists_albumIndex? {c : Catalog} {rel : String} (h : ∃ album ∈ c.albums, album.rel = rel) :
    ∃ d first, c.albumIndex? rel = some d ∧ c.albums[d]? = some first ∧ first.rel = rel ∧
      ∀ e < d, ∀ album, c.albums[e]? = some album → album.rel ≠ rel := by
  cases hd : c.albumIndex? rel with
  | none =>
    obtain ⟨album, hmem, hrel⟩ := h
    have hnone := List.findIdx?_eq_none_iff.1 hd album hmem
    exact absurd (beq_iff_eq.2 hrel) (Bool.eq_false_iff.1 hnone)
  | some d =>
    obtain ⟨hlt, hrel, hbefore⟩ := List.findIdx?_eq_some_iff_getElem.1 hd
    refine ⟨d, c.albums[d], rfl, List.getElem?_eq_getElem hlt, beq_iff_eq.1 hrel, ?_⟩
    intro e he album halbum
    obtain ⟨_, rfl⟩ := List.getElem?_eq_some_iff.1 halbum
    intro heq
    exact hbefore e he (beq_iff_eq.2 heq)

theorem Node.open_album {s : Scope} {rel : String} {d : Nat} {first : Album}
    (hindex : s.catalog.albumIndex? rel = some d) (hfirst : s.catalog.albums[d]? = some first) :
    (Node.album rel).open s = .ok (some (.leaf (.contents first.images))) := by
  rw [Node.open, hindex, Option.map_some, hfirst]
  rfl

section Album

variable {albums : List Album} {people : Aliases}

/-- The images of the ranks of images are these images. -/
theorem map_image_filterMap_ref? {images : List Image}
    (h : ∀ image ∈ images, image ∈ (Catalog.ofAlbums albums people).allImages) :
    ((images.map Image.rank).filterMap (Catalog.ofAlbums albums people).ref?).map ImageRef.image =
      images := by
  rw [List.filterMap_map, List.map_filterMap]
  have hsame : ∀ image ∈ images,
      Option.map ImageRef.image (((Catalog.ofAlbums albums people).ref? ∘ Image.rank) image) =
        some image := by
    intro image himage
    rw [Function.comp_apply, ← Catalog.imageAt?_eq_map_ref?]
    exact Catalog.imageAt?_eq_some_iff.2 ⟨h image himage, rfl⟩
  rw [List.filterMap_congr hsame, List.filterMap_some]

end Album

/-- **Every album is found by its path**, if the path has no quotes, under all options that exclude
nothing: the query hands out the images of the first album of that path, in the order of their
ranks. -/
theorem album_found_by_its_path (albums : List Album) (people : Aliases) (opts : Options)
    (hexclude : opts.exclude = []) (rel : String)
    (hrel : ∃ album ∈ (Catalog.ofAlbums albums people).albums, album.rel = rel)
    (hquote : '"' ∉ rel.toList) :
    ∃ d first search, (Catalog.ofAlbums albums people).albums[d]? = some first ∧ first.rel = rel ∧
      (∀ e < d, ∀ album, (Catalog.ofAlbums albums people).albums[e]? = some album →
        album.rel ≠ rel) ∧
      Search.ofText (Catalog.ofAlbums albums people) (albumQuery rel) opts = .ok search ∧
      search.HandsOut (fun ref => ref.location.album = d) ∧
      search.ranks = first.images.map Image.rank ∧
      search.results.map ImageRef.image = first.images := by
  obtain ⟨d, first, hindex, hfirst, hfirstRel, hbefore⟩ := exists_albumIndex? hrel
  have hopen : ∀ mode, (Node.album rel).open
      ⟨Catalog.ofAlbums albums people, mode, opts.offset⟩ =
        .ok (some (.leaf (.contents first.images))) := by
    intro mode
    exact Node.open_album hindex hfirst
  obtain ⟨search, hbegin, hranks, -⟩ := Node.yields_leaf (hopen opts.mode)
  have hhands : search.HandsOut fun ref => ref.location.album = d := by
    -- the condition does not look at the mode, so it may as well be that of the ranks
    have hs : Scope.Ordered ⟨Catalog.ofAlbums albums people, .ranked, opts.offset⟩ :=
      ⟨⟨albums, people, rfl⟩, nofun⟩
    have hselects := hs.selects_contents d
    rw [hfirst, Option.map_some, Option.getD_some] at hselects
    rw [Search.begin, hopen opts.mode] at hbegin
    rw [← Except.ok.inj hbegin]
    exact hselects.handsOut
  refine ⟨d, first, search, hfirst, hfirstRel, hbefore, ?_, hhands, hranks, ?_⟩
  · rw [ofText_albumQuery _ opts hquote hexclude]
    exact hbegin
  · rw [Search.results, hranks, Search.catalog_of_begin hbegin]
    apply map_image_filterMap_ref?
    intro image himage
    exact List.mem_flatMap.2 ⟨first, List.mem_of_getElem? hfirst, himage⟩

/-- Two albums of one path, which has capitals, accents, a prefix of a rule, a comma and blanks, and
between them the album of the empty path. -/
def oddAlbums : List Album :=
  [⟨"Été, ALBUM:x  y ", .epoch, .epoch,
      [.new "a.jpg" [] .epoch .epoch, .new "b.jpg" [] .epoch .epoch]⟩,
    ⟨"", .epoch, .epoch, [.new "c.jpg" [] .epoch .epoch]⟩,
    ⟨"Été, ALBUM:x  y ", .epoch, .epoch, [.new "d.jpg" [] .epoch .epoch]⟩]

/-- Both paths are found, also with whole keywords first and with names expanded; of the two albums
of one path the query finds the first. -/
theorem odd_albums_found_by_their_paths :
    let c := Catalog.ofAlbums oddAlbums .empty
    let opts : Options := { Options.default with mode := .priority, expandPeople := true }
    opts.exclude = [] ∧
      (∃ album ∈ c.albums, album.rel = "Été, ALBUM:x  y ") ∧ '"' ∉ "Été, ALBUM:x  y ".toList ∧
      (∃ album ∈ c.albums, album.rel = "") ∧ '"' ∉ "".toList ∧
      ∃ search root, Search.ofText c "\"album:Été, ALBUM:x  y \"" opts = .ok search ∧
        search.results.map (fun ref => ref.image.name) = ["a.jpg", "b.jpg"] ∧
        Search.ofText c "\"album:\"" opts = .ok root ∧
        root.results.map (fun ref => ref.image.name) = ["c.jpg"] := by
  intro c opts
  have hodd : ∃ album ∈ c.albums, album.rel = "Été, ALBUM:x  y " := by decide +kernel
  have hquote : '"' ∉ "Été, ALBUM:x  y ".toList := by decide
  have hroot : ∃ album ∈ c.albums, album.rel = "" := by decide +kernel
  have hquote' : '"' ∉ "".toList := by decide
  obtain ⟨-, -, search, -, -, -, hsearch, -, -, -⟩ :=
    album_found_by_its_path oddAlbums .empty opts rfl _ hodd hquote
  obtain ⟨-, -, root, -, -, -, hrootSearch, -, -, -⟩ :=
    album_found_by_its_path oddAlbums .empty opts rfl _ hroot hquote'
  have hnames : (Search.ofText c (albumQuery "Été, ALBUM:x  y ") opts).toOption.map
      (fun search => search.results.map fun ref => ref.image.name) = some ["a.jpg", "b.jpg"] := by
    decide +kernel
  have hrootNames : (Search.ofText c (albumQuery "") opts).toOption.map
      (fun search => search.results.map fun ref => ref.image.name) = some ["c.jpg"] := by
    decide +kernel
  rw [hsearch] at hnames
  rw [hrootSearch] at hrootNames
  have htext : albumQuery "Été, ALBUM:x  y " = "\"album:Été, ALBUM:x  y \"" := by decide +kernel
  have hrootText : albumQuery "" = "\"album:\"" := by decide +kernel
  rw [htext] at hsearch
  rw [hrootText] at hrootSearch
  exact ⟨rfl, hodd, hquote, hroot, hquote', search, root, hsearch, Option.some.inj hnames,
    hrootSearch, Option.some.inj hrootNames⟩

end Query
end AlbumIndex
