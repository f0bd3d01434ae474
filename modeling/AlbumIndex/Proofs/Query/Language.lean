import AlbumIndex.Proofs.Query.Draining
import AlbumIndex.Proofs.Query.Prefix
import Mathlib.Data.List.Sort

/-!
# The meaning of a query

What a token asks for is said here rule by rule, about an image and not about cursors: the first
rule that accepts the token decides.  A text is a query for the images that satisfy all of its
tokens and have none of the excluded keywords.

## Main definitions

* `WritesCount` — a text writes a number of keywords.
* `Catalog.InFirstAlbum` — an image lies in the first album of a path.
* `ShowsWord` — an image has one of the keywords that a word stands for.
* `Satisfies` — an image satisfies a token.
* `Answers` — an image belongs to the answer of a query.

## Main results

* `compileToken_holds_iff` — the condition of a token is that an image satisfies it.
* `ofText_handsOut` — a search that is written as a text hands out the images of its answer.
* `search_answers` — **a search gives exactly the images that belong to the answer.**
-/

namespace AlbumIndex

open Text Calendar

/-- The image lies in the first album of the path. -/
def Catalog.InFirstAlbum (c : Catalog) (rel : String) (ref : ImageRef) : Prop :=
  ref.album.rel = rel ∧
    ∀ d < ref.location.album, ∀ album, c.albums[d]? = some album → album.rel ≠ rel

namespace Query

/-! ### What tokens ask for -/

/-- The text writes the number with ASCII digits, perhaps after a plus sign, and the number is not
too large to be asked for. -/
def WritesCount (cs : List Char) (n : Nat) : Prop :=
  ∃ ds, (cs = ds ∨ cs = '+' :: ds) ∧ ds ≠ [] ∧ ds.all isAsciiDigit = true ∧ digitsValue ds = n ∧
    n ≤ maxCount

/-- The image has one of the keywords that a word stands for.  These are the first of all keys of
the catalog that contain the word, shorter keys before longer ones, and keys of one length in the
order of their characters: as many as the factor of the options allows for each character of the
word, but one at least. -/
def ShowsWord (c : Catalog) (opts : Options) (word : String) (image : Image) : Prop :=
  ∃ keys : List String, keys.Pairwise Index.KeywordLT ∧
    (∀ key, key ∈ keys ↔ Occurs word.toList key.toList ∧
      ∃ other ∈ c.allImages, other.HasKey opts.mode key) ∧
    ∃ key ∈ keys.take (max (opts.fuzzyFactor * word.length) 1), image.HasKey opts.mode key

/-- The first rule that accepts a token. -/
def Rule.first (token : String) : Rule :=
  let raw := token.toList
  let lower := lowercase raw
  if "count:".toList <+: lower then .count
  else if "stereo:".toList <+: lower then .stereo
  else if "\"album:".toList <+: lower then .quotedAlbum
  else if "album:".toList <+: lower then .album
  else if token = "albums:" then .albums
  else if hasShape "####".toList raw = true then .year
  else if hasShape "####-##".toList raw = true then .month
  else if hasShape "####-##-##".toList raw = true then .day
  else if hasShape "####--####".toList raw = true then .yearRange
  else if "\"".toList <+: lower then .exact
  else .fuzzy

/-- What a rule asks of an image for a token. -/
def Rule.Asks (c : Catalog) (opts : Options) (token : String) (ref : ImageRef) : Rule → Prop
  | .count => WritesCount (trim (remainder "count:" token).toList) ref.image.keywords.length
  | .stereo => ref.image.stereo.isSome = true
  | .quotedAlbum => c.InFirstAlbum (remainder "\"album:" token) ref
  | .album => c.InFirstAlbum (remainder "album:" token) ref
  | .albums => ref.location.position = 0
  | .year => (∃ y, NamesYear token.toList y ∧ (localDate opts.offset ref.image.itemTime).1 = y) ∨
      ref.image.HasKey opts.mode token
  | .month => (∃ y m, NamesMonth token.toList y m ∧
        (localDate opts.offset ref.image.itemTime).1 = y ∧
        (localDate opts.offset ref.image.itemTime).2.1 = m) ∨
      ref.image.HasKey opts.mode token
  | .day => (∃ y m d, NamesDay token.toList y m d ∧
        localDate opts.offset ref.image.itemTime = ((y : Int), m, d)) ∨
      ref.image.HasKey opts.mode token
  | .yearRange => ∃ y z, NamesYears token.toList y z ∧
      y ≤ (localDate opts.offset ref.image.itemTime).1 ∧
      (localDate opts.offset ref.image.itemTime).1 < z
  | .exact =>
    if opts.expandPeople then
      Scope.ShowsPerson ⟨c, opts.mode, opts.offset⟩ (String.ofList (lowercase token.toList).tail)
        ref.image
    else ref.image.HasKey opts.mode (String.ofList (lowercase token.toList).tail)
  | .fuzzy => ShowsWord c opts (String.ofList (lowercase token.toList)) ref.image

/-- The image satisfies the token, in the way of the first rule that accepts the token. -/
def Satisfies (c : Catalog) (opts : Options) (token : String) (ref : ImageRef) : Prop :=
  (Rule.first token).Asks c opts token ref

/-- The image belongs to the answer of a query: there is a token, the image satisfies all of them,
and it has no keyword or sub-keyword that is excluded. -/
def Answers (c : Catalog) (opts : Options) (text : String) (ref : ImageRef) : Prop :=
  tokenize text ≠ [] ∧ (∀ token ∈ tokenize text, Satisfies c opts token ref) ∧
    ∀ k ∈ opts.exclude, k ∉ ref.image.keywords ∧ k ∉ ref.image.subKeywords

/-! ### The first rule -/

theorem Rule.of_token (token : String) : Rule.of (Token.of token) = Rule.first token := by
  -- the first rule of a list that accepts, as a chain of conditions
  have hcons : ∀ (r : Rule) (rs : List Rule),
      ((r :: rs).find? fun r => r.accepts (Token.of token)).getD .fuzzy =
        if r.accepts (Token.of token) = true then r
        else (rs.find? fun r => r.accepts (Token.of token)).getD .fuzzy := by
    intro r rs
    rw [List.find?_cons]
    cases r.accepts (Token.of token) <;> rfl
  have halbums : ((Token.of token).raw == "albums:".toList) = true ↔ token = "albums:" := by
    rw [beq_iff_eq]
    exact String.toList_inj
  have hfuzzy : (Rule.fuzzy.accepts (Token.of token)) = true := rfl
  rw [Rule.of, inOrder]
  simp only [hcons, hfuzzy, if_true]
  simp only [accepts, Token.starts_iff, halbums]
  rfl

theorem Rule.accepts_of (t : Token) : (Rule.of t).accepts t = true := by
  unfold Rule.of
  cases h : inOrder.find? fun r => r.accepts t with
  | none => rfl
  | some r => exact List.find?_some (p := fun r : Rule => r.accepts t) h

/-! ### Single rules -/

theorem readNat?_eq_some_iff {cs : List Char} {n : Nat} :
    readNat? maxCount cs = some n ↔ WritesCount cs n := by
  have hdigits : ∀ ds, ((readDigits? ds).filter fun n => decide (n ≤ maxCount)) = some n ↔
      ds ≠ [] ∧ ds.all isAsciiDigit = true ∧ digitsValue ds = n ∧ n ≤ maxCount := by
    intro ds
    rw [readDigits?, Option.filter_eq_some_iff, Option.ite_none_right_eq_some, Bool.and_eq_true,
      Bool.not_eq_true', List.isEmpty_eq_false_iff, Option.some.injEq, decide_eq_true_eq, and_assoc,
      and_assoc]
  -- a digit is no plus sign
  have hplus : ∀ ds, ('+' :: ds).all isAsciiDigit ≠ true := by
    intro ds
    have hsign : isAsciiDigit '+' = false := by decide
    rw [List.all_cons, hsign, Bool.false_and]
    decide
  unfold readNat? WritesCount
  split
  · next ds =>
    rw [hdigits]
    constructor
    · exact fun h => ⟨ds, Or.inr rfl, h⟩
    · intro hex
      obtain ⟨ds', rfl | h, hds⟩ := hex
      · exact absurd hds.2.1 (hplus ds)
      · rwa [(List.cons.inj h).2]
  · next hne =>
    rw [hdigits]
    constructor
    · exact fun h => ⟨cs, Or.inl rfl, h⟩
    · intro hex
      obtain ⟨ds', rfl | h, hds⟩ := hex
      · exact hds
      · exact absurd h (hne ds')

variable {albums : List Album} {people : Aliases} {opts : Options}

theorem albumIndex?_eq_some_iff {rel : String} {r : Rank} {ref : ImageRef}
    (href : (Catalog.ofAlbums albums people).ref? r = some ref) :
    (Catalog.ofAlbums albums people).albumIndex? rel = some ref.location.album ↔
      (Catalog.ofAlbums albums people).InFirstAlbum rel ref := by
  obtain ⟨halbum, -, -⟩ := Catalog.ref?_eq_some_iff.1 href
  obtain ⟨hlt, hget⟩ := List.getElem?_eq_some_iff.1 halbum
  rw [Catalog.albumIndex?, List.findIdx?_eq_some_iff_getElem, Catalog.InFirstAlbum]
  simp only [beq_iff_eq]
  constructor
  · intro h
    obtain ⟨_, hrel, hbefore⟩ := h
    rw [hget] at hrel
    refine ⟨hrel, fun d hd album ha heq => ?_⟩
    obtain ⟨hdlt, rfl⟩ := List.getElem?_eq_some_iff.1 ha
    exact hbefore d hd heq
  · rintro ⟨hrel, hbefore⟩
    refine ⟨hlt, hget ▸ hrel, fun d hd => ?_⟩
    exact hbefore d hd _ (List.getElem?_eq_getElem (Nat.lt_trans hd hlt))

/-- The keys that contain a word, in the tables that the mode looks at. -/
theorem mem_matchingKeywords_iff {mode : KeywordMode} {word key : String} :
    key ∈ (Catalog.ofAlbums albums people).index.matchingKeywords word (mode != .literal) ↔
      Occurs word.toList key.toList ∧
        ∃ other ∈ (Catalog.ofAlbums albums people).allImages, other.HasKey mode key := by
  rw [Index.mem_matchingKeywords, Catalog.mem_literal_iff, Catalog.mem_sub_iff, bne_iff_ne]
  refine and_congr_right fun _ => ?_
  constructor
  · rintro (⟨other, ho, hk⟩ | ⟨hm, other, ho, hk⟩)
    · exact ⟨other, ho, Or.inl hk⟩
    · exact ⟨other, ho, Or.inr ⟨hm, hk⟩⟩
  · intro h
    obtain ⟨other, ho, hk | ⟨hm, hk⟩⟩ := h
    · exact Or.inl ⟨other, ho, hk⟩
    · exact Or.inr ⟨hm, other, ho, hk⟩

/-- Lists in the strict order of keywords are determined by their members. -/
theorem eq_of_pairwise_keywordLT {as bs : List String} (ha : as.Pairwise Index.KeywordLT)
    (hb : bs.Pairwise Index.KeywordLT) (h : ∀ k, k ∈ as ↔ k ∈ bs) : as = bs := by
  have hirrefl : Std.Irrefl Index.KeywordLT := by
    constructor
    rintro a (hlt | ⟨-, hlt⟩)
    · exact Nat.lt_irrefl _ hlt
    · exact String.lt_irrefl a hlt
  have hasymm : ∀ a b, Index.KeywordLT a b → ¬ Index.KeywordLT b a := by
    rintro a b (hlt | ⟨heq, hlt⟩) (hlt' | ⟨heq', hlt'⟩)
    · omega
    · omega
    · omega
    · exact String.lt_irrefl a (String.lt_trans hlt hlt')
  have hantisymm : Std.Antisymm Index.KeywordLT := by
    constructor
    intro a b hab hba
    exact absurd hba (hasymm a b hab)
  exact ha.eq_of_mem_iff hb h

theorem showsWord_iff {word : String} {image : Image} :
    ShowsWord (Catalog.ofAlbums albums people) opts word image ↔
      ∃ key ∈ fuzzyKeywords (Catalog.ofAlbums albums people) opts word,
        image.HasKey opts.mode key := by
  have hsorted := Index.matchingKeywords_pairwise (Catalog.ofAlbums albums people).index word
    (opts.mode != .literal)
  constructor
  · intro h
    obtain ⟨keys, hkeys, hmem, hex⟩ := h
    have heq : keys = (Catalog.ofAlbums albums people).index.matchingKeywords word
        (opts.mode != .literal) :=
      eq_of_pairwise_keywordLT hkeys hsorted fun k => by rw [hmem k, mem_matchingKeywords_iff]
    rwa [fuzzyKeywords, ← heq]
  · exact fun hex => ⟨_, hsorted, fun k => mem_matchingKeywords_iff, hex⟩

/-! ### Tokens -/

variable {s : Scope} {ref : ImageRef}

theorem holds_any_pair {a b : Node} :
    (Node.any [a, b]).Holds s ref ↔ a.Holds s ref ∨ b.Holds s ref := by
  rw [Node.Holds, Node.HoldsAny, Node.HoldsAny, Node.HoldsAny, or_false]

theorem fuzzyNode_holds_iff {word : String} :
    (fuzzyNode (Catalog.ofAlbums albums people) opts word).Holds
        ⟨Catalog.ofAlbums albums people, opts.mode, opts.offset⟩ ref ↔
      ShowsWord (Catalog.ofAlbums albums people) opts word ref.image := by
  rw [showsWord_iff, fuzzyNode]
  split
  · next hnil => simp [hnil, Node.Holds]
  · rw [Node.Holds, Node.holdsAny_iff]
    simp [Node.Holds]

/-- **The condition of a token is that an image satisfies it.** -/
theorem compileToken_holds_iff {token : String} {r : Rank}
    (href : (Catalog.ofAlbums albums people).ref? r = some ref) :
    (compileToken (Catalog.ofAlbums albums people) opts token).Holds
        ⟨Catalog.ofAlbums albums people, opts.mode, opts.offset⟩ ref ↔
      Satisfies (Catalog.ofAlbums albums people) opts token ref := by
  have hraw : String.ofList (Token.of token).raw = token := String.ofList_toList
  -- that the rule accepts the token says how the token begins or what shape it has
  have hacc := Rule.accepts_of (Token.of token)
  rw [Satisfies, ← Rule.of_token, compileToken]
  cases hrule : Rule.of (Token.of token) with
  | count =>
    rw [hrule, Rule.accepts, Token.starts_iff] at hacc
    rw [Rule.node, Node.Holds, Token.after_eq_remainder (by decide) hacc, readNat?_eq_some_iff]
    rfl
  | stereo =>
    rw [Rule.node, Node.Holds]
    rfl
  | quotedAlbum =>
    rw [hrule, Rule.accepts, Token.starts_iff] at hacc
    rw [Rule.node, Node.Holds, Token.after_eq_remainder (by decide) hacc,
      albumIndex?_eq_some_iff href]
    rfl
  | album =>
    rw [hrule, Rule.accepts, Token.starts_iff] at hacc
    rw [Rule.node, Node.Holds, Token.after_eq_remainder (by decide) hacc,
      albumIndex?_eq_some_iff href]
    rfl
  | albums =>
    rw [Rule.node, Node.Holds]
    rfl
  | year =>
    rw [hrule] at hacc
    rw [Rule.node, hraw, holds_any_pair, Node.Holds, Node.Holds, yearPeriod?_contains_iff hacc]
    rfl
  | month =>
    rw [hrule] at hacc
    rw [Rule.node, hraw, holds_any_pair, Node.Holds, Node.Holds, monthPeriod?_contains_iff hacc]
    rfl
  | day =>
    rw [hrule] at hacc
    rw [Rule.node, hraw, holds_any_pair, Node.Holds, Node.Holds, dayPeriod_contains_iff hacc]
    rfl
  | yearRange =>
    rw [hrule] at hacc
    rw [Rule.node, hraw, Node.Holds, yearRangePeriod?_contains_iff hacc]
    rfl
  | exact =>
    rw [Rule.node, exactNode, Rule.Asks]
    cases opts.expandPeople with
    | true =>
      rw [if_pos rfl, if_pos rfl, Node.Holds]
      rfl
    | false =>
      rw [if_neg Bool.false_ne_true, if_neg Bool.false_ne_true, Node.Holds]
      rfl
  | fuzzy =>
    rw [Rule.node, fuzzyNode_holds_iff]
    rfl

/-! ### Queries -/

theorem fuzzyNode_open_ok (c : Catalog) (word : String) :
    ∃ cursor, (fuzzyNode c opts word).open s = .ok cursor := by
  unfold fuzzyNode
  split
  · exact ⟨_, rfl⟩
  · refine Node.exists_any_open_iff.2 fun node hn => ?_
    obtain ⟨k, -, rfl⟩ := List.mem_map.1 hn
    exact ⟨_, rfl⟩

/-- No date of four, two and two digits leaves the calendar, so that every query can be opened. -/
theorem compileToken_open_ok (c : Catalog) (token : String) :
    ∃ cursor, (compileToken c opts token).open s = .ok cursor := by
  have hraw : String.ofList (Token.of token).raw = token := String.ofList_toList
  have hpair : ∀ {node : Node} {k : String}, (∃ cursor, node.open s = .ok cursor) →
      ∃ cursor, (Node.any [node, .keyword k]).open s = .ok cursor := by
    intro node k hnode
    refine Node.exists_any_open_iff.2 fun other ho => ?_
    rcases List.mem_cons.1 ho with rfl | ho
    · exact hnode
    · obtain rfl := List.mem_singleton.1 ho
      exact ⟨_, rfl⟩
  have hacc := Rule.accepts_of (Token.of token)
  rw [compileToken]
  cases hrule : Rule.of (Token.of token) with
  | year =>
    rw [Rule.node]
    exact hpair ⟨_, rfl⟩
  | month =>
    rw [Rule.node]
    exact hpair ⟨_, rfl⟩
  | day =>
    -- the one condition whose period can leave the calendar
    rw [hrule] at hacc
    obtain ⟨period, hok, -⟩ := dayPeriod_eq s.offset hacc
    rw [Rule.node, hraw]
    refine hpair ⟨s.period period, ?_⟩
    rw [Node.open, hok]
    rfl
  | exact =>
    rw [Rule.node, exactNode]
    split
    · exact ⟨_, rfl⟩
    · exact ⟨_, rfl⟩
  | fuzzy =>
    rw [Rule.node]
    exact fuzzyNode_open_ok c _
  | _ => exact ⟨_, rfl⟩

theorem compile_open_ok (s : Scope) (c : Catalog) (opts : Options) (text : String) :
    ∃ cursor, (compile c opts text).open s = .ok cursor := by
  have htokens : ∀ node ∈ (tokenize text).map (compileToken c opts),
      ∃ cursor, node.open s = .ok cursor := by
    intro node hn
    obtain ⟨token, -, rfl⟩ := List.mem_map.1 hn
    exact compileToken_open_ok c token
  unfold compile
  dsimp only
  split
  · exact Node.exists_all_open_iff.2 htokens
  · refine Node.exists_all_open_iff.2 fun node hn => ?_
    rcases List.mem_append.1 hn with hn | hn
    · exact htokens node hn
    · obtain rfl := List.mem_singleton.1 hn
      exact ⟨_, rfl⟩

/-- The condition of a query is that the image belongs to its answer. -/
theorem compile_holds_iff {text : String} {r : Rank}
    (href : (Catalog.ofAlbums albums people).ref? r = some ref) :
    (compile (Catalog.ofAlbums albums people) opts text).Holds
        ⟨Catalog.ofAlbums albums people, opts.mode, opts.offset⟩ ref ↔
      Answers (Catalog.ofAlbums albums people) opts text ref := by
  have hexclude : (Node.without opts.exclude).Holds
      ⟨Catalog.ofAlbums albums people, opts.mode, opts.offset⟩ ref ↔
        ∀ k ∈ opts.exclude, k ∉ ref.image.keywords ∧ k ∉ ref.image.subKeywords := by
    rw [Node.Holds]
    simp [Image.hasKeyword]
  have htokens : (∀ P ∈ ((tokenize text).map
      (compileToken (Catalog.ofAlbums albums people) opts)).map (Node.Holds
        ⟨Catalog.ofAlbums albums people, opts.mode, opts.offset⟩), P ref) ↔
        ∀ token ∈ tokenize text, Satisfies (Catalog.ofAlbums albums people) opts token ref := by
    rw [List.map_map, List.forall_mem_map]
    exact forall₂_congr fun token _ => compileToken_holds_iff href
  unfold compile Answers
  dsimp only
  split
  · next h =>
    rw [Node.Holds, Node.holdAll_iff, htokens, ne_eq, List.map_eq_nil_iff]
    refine and_congr_right fun hne => (and_iff_left ?_).symm
    -- nothing is excluded here, since there is a token
    rw [Bool.or_eq_true, List.isEmpty_iff, List.isEmpty_iff, List.map_eq_nil_iff] at h
    rw [h.resolve_right hne]
    exact nofun
  · next h =>
    rw [Bool.or_eq_true, not_or, List.isEmpty_iff, List.isEmpty_iff, List.map_eq_nil_iff] at h
    rw [Node.Holds, Node.holdAll_iff, List.map_append, List.forall_mem_append, htokens,
      List.map_singleton, List.forall_mem_singleton, hexclude]
    constructor
    · exact fun hall => ⟨h.2, hall.2⟩
    · exact fun hall => ⟨by simp, hall.2⟩

/-- A query that is written as a text hands out the images of its answer. -/
theorem ofText_handsOut (albums : List Album) (people : Aliases) (text : String) (opts : Options)
    (hmode : opts.mode ≠ .priority) :
    ∃ search, Search.ofText (Catalog.ofAlbums albums people) text opts = .ok search ∧
      search.catalog = Catalog.ofAlbums albums people ∧
      search.HandsOut (Answers (Catalog.ofAlbums albums people) opts text) := by
  have hs : Scope.Ordered ⟨Catalog.ofAlbums albums people, opts.mode, opts.offset⟩ :=
    ⟨⟨albums, people, rfl⟩, hmode⟩
  obtain ⟨cursor, hopen⟩ := compile_open_ok
    ⟨Catalog.ofAlbums albums people, opts.mode, opts.offset⟩ (Catalog.ofAlbums albums people) opts text
  obtain ⟨hbegin, hout⟩ := Search.begin_handsOut hs hopen
  exact ⟨_, hbegin, rfl, hout.congr fun r ref href => compile_holds_iff href⟩

/-- **A search gives exactly the images that belong to the answer of its query**: their ranks in
strictly ascending order, one with every pull, and the images of these ranks one with every step. -/
theorem search_answers (albums : List Album) (people : Aliases) (text : String) (opts : Options)
    (hmode : opts.mode ≠ .priority) :
    ∃ search, Search.ofText (Catalog.ofAlbums albums people) text opts = .ok search ∧
      search.ranks.Pairwise (· < ·) ∧
      (∀ r, r ∈ search.ranks ↔ ∃ ref, (Catalog.ofAlbums albums people).ref? r = some ref ∧
        Answers (Catalog.ofAlbums albums people) opts text ref) ∧
      (∀ k, Search.answer Search.nextRank search k = search.ranks[k]?) ∧
      ∀ k, Search.answer Search.next search k =
        search.ranks[k]?.bind (Catalog.ofAlbums albums people).ref? := by
  have hs : Scope.Ordered ⟨Catalog.ofAlbums albums people, opts.mode, opts.offset⟩ :=
    ⟨⟨albums, people, rfl⟩, hmode⟩
  obtain ⟨cursor, hopen⟩ := compile_open_ok
    ⟨Catalog.ofAlbums albums people, opts.mode, opts.offset⟩ (Catalog.ofAlbums albums people) opts text
  obtain ⟨hbegin, hfit, hgives⟩ := Search.fit_begin hs hopen
  obtain ⟨hasc, hmem, hans⟩ := Search.ranks_spec hfit
  refine ⟨_, hbegin, hasc, fun r => ?_, hans, fun k => ?_⟩
  · rw [hmem r, hgives r]
    exact exists_congr fun ref => and_congr_right fun href => compile_holds_iff href
  · rw [Search.answer_next hfit k, hans k]

/-- A year, a number of keywords and a quoted keyword in a catalog of three albums, one of which is
empty. -/
theorem search_answers_of_three_tokens : ∃ (albums : List Album) (text : String),
    text = "1969 Count:1 \"rome" ∧ albums.map (fun album => album.images.length) = [2, 0, 1] ∧
      Options.default.mode ≠ .priority ∧
      (Search.ofText (Catalog.ofAlbums albums Aliases.empty) text Options.default).toOption.map
        Search.ranks = some [1] ∧
      ∀ r, r ∈ ([1] : List Rank) ↔
        ∃ ref, (Catalog.ofAlbums albums Aliases.empty).ref? r = some ref ∧
          Answers (Catalog.ofAlbums albums Aliases.empty) Options.default text ref := by
  let image (name : String) (keywords : List String) : Image :=
    Image.new name keywords Instant.epoch Instant.epoch
  let album (rel : String) (images : List Image) : Album :=
    ⟨rel, Instant.epoch, Instant.epoch, images⟩
  let albums : List Album := [album "trips/rome" [image "a.jpg" ["rome", "colosseum"],
    image "b.jpg" ["rome"]], album "empty" [], album "walks" [image "a.jpg" ["wood"]]]
  have hmode : Options.default.mode ≠ .priority := by decide
  have hranks : (Search.ofText (Catalog.ofAlbums albums Aliases.empty) "1969 Count:1 \"rome"
      Options.default).toOption.map Search.ranks = some [1] := by decide +kernel
  obtain ⟨search, hok, -, hmem, -, -⟩ :=
    search_answers albums Aliases.empty "1969 Count:1 \"rome" Options.default hmode
  have hone : search.ranks = [1] := by
    rw [hok] at hranks
    exact Option.some.inj hranks
  have hlengths : albums.map (fun album => album.images.length) = [2, 0, 1] := rfl
  rw [hone] at hmem
  exact ⟨albums, "1969 Count:1 \"rome", rfl, hlengths, hmode, hranks, hmem⟩

end Query
end AlbumIndex
