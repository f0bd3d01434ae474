import AlbumIndex.Proofs.Catalog.Keywords
import AlbumIndex.Proofs.Query.Lookups
import AlbumIndex.Proofs.Query.Quoted

/-!
# Words

A word that no other rule accepts stands for the keys that contain it, but not for all of them: only
for the first ones, as many as a factor allows.  The lower-case form of the word, if it is a key
itself, comes before all other keys that contain it, and one key is always taken.  So the images that
the word finds in quotes are found without quotes too, whatever the factor is; and as the order of
the keys does not depend on the factor, a greater factor finds no less.  For the images found in
quotes it does not even matter that the number of keys is a product: it can be any number.

Nothing of this depends on the order in which ranks come.  In the mode with whole keywords first the
rows that are joined do not ascend, and the joined row may then give a rank twice, but it does not
lose any.

## Main definitions

* `Node.Gathers` — a condition by itself gives certain ranks, in some order.
* `firstKeys`, `firstKeysNode` — the first keys that contain a word, up to any number.
* `IsWord` — a text without blanks, commas and quotes.

## Main results

* `Node.gathers_firstKeysNode` — a condition on keys finds the ranks of all of them.
* `mem_firstKeys_of_mem_keywordRanks` — a word that finds something in quotes is its own first key.
* `tokenize_of_isWord` — a word is one token.
* `word_finds_quoted_and_widens` — **a word finds what it finds in quotes, and more with a greater
  factor.**
-/

namespace AlbumIndex
namespace Query

open Calendar Text

/-! ### Ranks in some order -/

/-- Cursors are joined without a loss. -/
theorem exists_joinAll {xs : List Cursor} (hne : xs ≠ []) (hj : ∀ x ∈ xs, x.Joins) :
    ∃ c, joinAll xs = some c ∧ c.Joins ∧ ∀ r, c.Gives r ↔ ∃ x ∈ xs, x.Gives r := by
  match xs with
  | [] => exact absurd rfl hne
  | [x] => exact ⟨x, rfl, hj x List.mem_cons_self, fun r => by simp⟩
  | x :: y :: xs =>
    refine ⟨.joining (x :: y :: xs), rfl, ?_, fun r => ?_⟩
    · rw [Cursor.Joins]
      exact Cursor.allJoin_iff.2 hj
    · rw [Cursor.Gives]
      exact Cursor.anyGives_iff

variable {s : Scope} {node : Node} {P : Rank → Prop}

/-- By itself, the condition gives the ranks of a property and no others, in some order. -/
def Node.Gathers (s : Scope) (node : Node) (P : Rank → Prop) : Prop :=
  ∃ search, Search.begin s node = .ok search ∧ ∀ r, r ∈ search.ranks ↔ P r

theorem Node.gathers_of_open_eq {c : Cursor} (h : node.open s = .ok (some c)) (hj : c.Joins)
    (hgives : ∀ r, c.Gives r ↔ P r) : node.Gathers s P := by
  refine ⟨⟨s.catalog, some c, false⟩, ?_, fun r => ?_⟩
  · rw [Search.begin, h]
    rfl
  · rw [Search.ranks_of_root_eq_some rfl rfl, Cursor.mem_drain_iff hj, hgives]

theorem Node.gathers_keyword (s : Scope) (k : String) :
    (Node.keyword k).Gathers s fun r => r ∈ s.keywordRanks k := by
  obtain ⟨search, hbegin, hranks, -⟩ := Node.yields_keyword s k
  exact ⟨search, hbegin, fun r => by rw [hranks]⟩

/-- One of several keywords is asked for. -/
theorem Node.gathers_any_keyword (s : Scope) {keys : List String} (hne : keys ≠ []) :
    (Node.any (keys.map .keyword)).Gathers s fun r => ∃ k ∈ keys, r ∈ s.keywordRanks k := by
  have hopened : Node.openAll s (keys.map .keyword) =
      .ok ((keys.map fun k => Scope.postings (s.keywordRanks k)).map some) := by
    rw [Node.openAll_eq_ok_iff, List.map_map, List.map_map, List.map_map]
    rfl
  have hrows : ∀ x ∈ keys.map fun k => Scope.postings (s.keywordRanks k), x.Joins := by
    intro x hx
    obtain ⟨k, -, rfl⟩ := List.mem_map.1 hx
    trivial
  obtain ⟨c, hc, hj, hgives⟩ := exists_joinAll (mt List.map_eq_nil_iff.1 hne) hrows
  refine Node.gathers_of_open_eq (c := c) ?_ hj fun r => ?_
  · rw [Node.open, hopened, ← hc]
    simp [joinNodes, Except.map]
  · rw [hgives r]
    simp [Scope.postings, Cursor.Gives, Leaf.ranks]

/-! ### The keys that a word stands for -/

/-- The first of the keys that contain a word: so many of them, but at least one. -/
def firstKeys (c : Catalog) (mode : KeywordMode) (word : String) (limit : Nat) : List String :=
  (c.index.matchingKeywords word (mode != .literal)).take (max limit 1)

/-- The condition that an image has one of these keys. -/
def firstKeysNode (c : Catalog) (mode : KeywordMode) (word : String) (limit : Nat) : Node :=
  match firstKeys c mode word limit with
  | [] => .nothing
  | keys => .any (keys.map .keyword)

/-- The condition of a word takes as many keys as the factor allows for its characters. -/
theorem fuzzyNode_eq_firstKeysNode (c : Catalog) (opts : Options) (word : String) :
    fuzzyNode c opts word = firstKeysNode c opts.mode word (opts.fuzzyFactor * word.length) := rfl

/-- **A condition on keys finds the ranks of all of them.** -/
theorem Node.gathers_firstKeysNode (s : Scope) (word : String) (limit : Nat) :
    (firstKeysNode s.catalog s.mode word limit).Gathers s
      fun r => ∃ k ∈ firstKeys s.catalog s.mode word limit, r ∈ s.keywordRanks k := by
  unfold firstKeysNode
  split
  · next hnone =>
    refine Node.gathers_of_open_eq (c := Scope.postings []) rfl trivial fun r => ?_
    simp [hnone, Scope.postings, Cursor.Gives, Leaf.ranks]
  · next hne => exact Node.gathers_any_keyword s hne

/-- What a keyword finds, the tables have under it. -/
theorem Scope.registered_of_mem_keywordRanks {k : String} {r : Rank} (h : r ∈ s.keywordRanks k) :
    k ∈ s.catalog.index.literal ∨ ((s.mode != .literal) = true ∧ k ∈ s.catalog.index.sub) := by
  cases hmode : s.mode with
  | literal =>
    rw [Scope.keywordRanks, hmode] at h
    exact Or.inl (Postings.mem_of_mem_ranksOf h)
  | ranked =>
    rw [Scope.keywordRanks_ranked hmode, Index.mem_imagesRanked] at h
    exact h.imp Postings.mem_of_mem_ranksOf fun hsub => ⟨rfl, Postings.mem_of_mem_ranksOf hsub⟩
  | priority =>
    rw [Scope.keywordRanks, hmode] at h
    have hmerged : r ∈ s.catalog.index.imagesRanked k := Index.images_subset _ k h
    rw [Index.mem_imagesRanked] at hmerged
    exact hmerged.imp Postings.mem_of_mem_ranksOf
      fun hsub => ⟨rfl, Postings.mem_of_mem_ranksOf hsub⟩

/-- **A word that finds something in quotes is its own first key**, and one key is always taken. -/
theorem mem_firstKeys_of_mem_keywordRanks {word : String} {r : Rank} (h : r ∈ s.keywordRanks word)
    (limit : Nat) : word ∈ firstKeys s.catalog s.mode word limit := by
  obtain ⟨keys, hkeys⟩ :=
    Index.exists_matchingKeywords_eq_cons (Scope.registered_of_mem_keywordRanks h)
  obtain ⟨n, hn⟩ : ∃ n, max limit 1 = n + 1 := Nat.exists_eq_add_one.2 (Nat.le_max_right _ 1)
  rw [firstKeys, hkeys, hn, List.take_succ_cons]
  exact List.mem_cons_self

/-- A greater number takes the same keys first, and perhaps more. -/
theorem firstKeys_subset (c : Catalog) (mode : KeywordMode) (word : String) {m n : Nat}
    (hle : m ≤ n) : firstKeys c mode word m ⊆ firstKeys c mode word n := by
  have hlimits : max m 1 ≤ max n 1 := by omega
  exact (List.take_prefix_take_left hlimits).subset

/-! ### Queries of one token -/

/-- The text is not empty and has no blanks, commas or quotes. -/
def IsWord (text : String) : Prop :=
  text ≠ "" ∧ ∀ c ∈ text.toList, isBlank c = false ∧ c ≠ ',' ∧ c ≠ '"'

instance (text : String) : Decidable (IsWord text) :=
  decidable_of_iff (text ≠ "" ∧
      (text.toList.all fun c => !isBlank c && decide (c ≠ ',') && decide (c ≠ '"')) = true)
    (and_congr_right fun _ => by simp [and_assoc])

theorem IsWord.not_quote {text : String} (h : IsWord text) : '"' ∉ text.toList :=
  fun hmem => (h.2 _ hmem).2.2 rfl

/-- **A word is one token.** -/
theorem tokenize_of_isWord {text : String} (h : IsWord text) : tokenize text = [text] := by
  have hcomma : ',' ∉ text.toList := fun hmem => (h.2 _ hmem).2.1 rfl
  have hends : ∀ part, scan .word part [] = part.reverse :: [] := fun _ => rfl
  have hscan : scan .between [] (text.toList ++ []) = words text.toList ++ [] :=
    (scan_words rfl hends h.not_quote).1
  rw [List.append_nil, List.append_nil,
    words_of_forall_not (fun c hc => (h.2 c hc).1) (mt String.toList_eq_nil_iff.1 h.1)] at hscan
  rw [tokenize_eq, if_neg (fun hboth => hcomma hboth.1), quoteTokens, hscan, List.map_singleton,
    String.ofList_toList]

/-- A query of one token is the condition of that token. -/
theorem Node.open_all_singleton (node : Node) (s : Scope) :
    (Node.all [node]).open s = node.open s := by
  rw [Node.open, Node.openAll, Node.openAll]
  cases node.open s with
  | error e => rfl
  | ok cursor => cases cursor <;> rfl

/-- A word of no other rule does not name an album. -/
theorem Rule.not_album_of_first_fuzzy {token : String} (h : Rule.first token = .fuzzy) :
    ¬ "album:".toList <+: lowercase token.toList := by
  intro halbum
  unfold Rule.first at h
  dsimp only at h
  rw [if_pos halbum] at h
  split_ifs at h

variable (c : Catalog) (opts : Options) {text token : String}

theorem ofText_of_tokenize_eq_singleton (h : tokenize text = [token]) (hexclude : opts.exclude = []) :
    Search.ofText c text opts =
      Search.begin ⟨c, opts.mode, opts.offset⟩ (compileToken c opts token) := by
  rw [Search.ofText, Search.begin, Search.begin, compile, h, hexclude]
  exact congrArg (Except.map _) (Node.open_all_singleton _ _)

/-- A word is asked for by its lower-case form. -/
theorem ofText_word (hword : IsWord text) (hfirst : Rule.first text = .fuzzy)
    (hexclude : opts.exclude = []) :
    Search.ofText c text opts =
      Search.begin ⟨c, opts.mode, opts.offset⟩ (fuzzyNode c opts (lowerText text)) := by
  rw [ofText_of_tokenize_eq_singleton c opts (tokenize_of_isWord hword) hexclude, compileToken,
    Rule.of_token, hfirst]
  rfl

/-- A text in quotes is asked for by the same form. -/
theorem ofText_quoted (hquote : '"' ∉ text.toList)
    (halbum : ¬ "album:".toList <+: lowercase text.toList) (hpeople : opts.expandPeople = false)
    (hexclude : opts.exclude = []) :
    Search.ofText c (quoted text) opts =
      Search.begin ⟨c, opts.mode, opts.offset⟩ (.keyword (lowerText text)) := by
  rw [ofText_of_tokenize_eq_singleton c opts (tokenize_quoted hquote) hexclude, compileToken,
    Rule.of_token, Rule.first_quote halbum, Rule.node, exactNode, hpeople,
    if_neg Bool.false_ne_true]
  exact congrArg _ (congrArg Node.keyword lowercase_quote_tail)

/-! ### Words and their quoted forms -/

/-- Where one search gives all the ranks of another, it gives all its images. -/
theorem Search.results_subset {a b : Search} (hcatalog : a.catalog = b.catalog)
    (h : ∀ r ∈ a.ranks, r ∈ b.ranks) : a.results ⊆ b.results := by
  intro ref href
  obtain ⟨r, hr, hget⟩ := List.mem_filterMap.1 href
  exact List.mem_filterMap.2 ⟨r, h r hr, hcatalog ▸ hget⟩

/-- **A word finds what it finds in quotes, and more with a greater factor.**  This holds in every
mode and for every word that falls under no other rule, as long as names are not expanded and nothing
is excluded.  What the word finds in quotes is found with any number of keys, also if the number is
not the product of the factor and the length, say because that does not fit into a machine word. -/
theorem word_finds_quoted_and_widens (c : Catalog) (opts : Options) {word : String}
    (hword : IsWord word) (hfirst : Rule.first word = .fuzzy) (hpeople : opts.expandPeople = false)
    (hexclude : opts.exclude = []) :
    ∃ (inQuotes : Search) (found : Nat → Search),
      (∀ f, Search.ofText c (quoted word) { opts with fuzzyFactor := f } = .ok inQuotes) ∧
      (∀ f, Search.ofText c word { opts with fuzzyFactor := f } = .ok (found f)) ∧
      (∀ f, inQuotes.results ⊆ (found f).results) ∧
      (∀ limit, ∃ search, Search.begin ⟨c, opts.mode, opts.offset⟩
          (firstKeysNode c opts.mode (lowerText word) limit) = .ok search ∧
        inQuotes.results ⊆ search.results) ∧
      ∀ f g, f ≤ g → (found f).results ⊆ (found g).results := by
  let s : Scope := ⟨c, opts.mode, opts.offset⟩
  obtain ⟨inQuotes, hquoted, hquotedRanks⟩ := Node.gathers_keyword s (lowerText word)
  choose limited hlimited hranks using Node.gathers_firstKeysNode s (lowerText word)
  have hcatalog : ∀ limit, (limited limit).catalog = c :=
    fun limit => Search.catalog_of_begin (hlimited limit)
  have hwithin : ∀ limit, inQuotes.results ⊆ (limited limit).results := by
    intro limit
    have hsame := (Search.catalog_of_begin hquoted).trans (hcatalog limit).symm
    refine Search.results_subset hsame fun r hr => ?_
    have hkeyword : r ∈ s.keywordRanks (lowerText word) := (hquotedRanks r).1 hr
    exact (hranks limit r).2 ⟨_, mem_firstKeys_of_mem_keywordRanks hkeyword limit, hkeyword⟩
  have hwidens : ∀ m n, m ≤ n → (limited m).results ⊆ (limited n).results := by
    intro m n hle
    refine Search.results_subset ((hcatalog m).trans (hcatalog n).symm) fun r hr => ?_
    obtain ⟨k, hk, hkeyword⟩ := (hranks m r).1 hr
    exact (hranks n r).2 ⟨k, firstKeys_subset c opts.mode _ hle hk, hkeyword⟩
  refine ⟨inQuotes, fun f => limited (f * (lowerText word).length), fun f => ?_, fun f => ?_,
    fun f => hwithin _, fun limit => ⟨limited limit, hlimited limit, hwithin limit⟩,
    fun f g hle => hwidens _ _ (Nat.mul_le_mul_right _ hle)⟩
  · have halbum := Rule.not_album_of_first_fuzzy hfirst
    exact (ofText_quoted c { opts with fuzzyFactor := f } hword.not_quote halbum hpeople
      hexclude).trans hquoted
  · rw [ofText_word c { opts with fuzzyFactor := f } hword hfirst hexclude,
      fuzzyNode_eq_firstKeysNode]
    exact hlimited _

/-- A word that is only a part of a keyword, in the mode with whole keywords first and with a factor
that allows no key. -/
theorem word_finds_quoted_with_factor_zero :
    let c := Catalog.ofAlbums [⟨"walks", .epoch, .epoch,
      [Image.new "a.jpg" ["devins"] .epoch .epoch,
        Image.new "b.jpg" ["julien devin"] .epoch .epoch]⟩] .empty
    let opts : Options := { Options.default with mode := .priority }
    IsWord "Devin" ∧ Rule.first "Devin" = .fuzzy ∧ opts.expandPeople = false ∧ opts.exclude = [] ∧
      ∃ narrow wide, Search.ofText c "Devin" { opts with fuzzyFactor := 0 } = .ok narrow ∧
        Search.ofText c "Devin" { opts with fuzzyFactor := 1 } = .ok wide ∧
        "b.jpg" ∈ narrow.results.map (fun ref => ref.image.name) ∧ narrow.results ⊆ wide.results := by
  intro c opts
  have hword : IsWord "Devin" := by decide +kernel
  have hfirst : Rule.first "Devin" = .fuzzy := by decide +kernel
  obtain ⟨inQuotes, found, hquoted, hfound, hwithin, -, hwidens⟩ :=
    word_finds_quoted_and_widens c opts hword hfirst rfl rfl
  have hnames : (Search.ofText c (quoted "Devin") { opts with fuzzyFactor := 0 }).toOption.map
      (fun search => search.results.map fun ref => ref.image.name) = some ["b.jpg"] := by
    decide +kernel
  rw [hquoted 0] at hnames
  have honly : inQuotes.results.map (fun ref => ref.image.name) = ["b.jpg"] :=
    Option.some.inj hnames
  refine ⟨hword, hfirst, rfl, rfl, found 0, found 1, hfound 0, hfound 1, ?_,
    hwidens 0 1 (Nat.zero_le 1)⟩
  apply List.map_subset _ (hwithin 0)
  rw [honly]
  exact List.mem_cons_self

end Query
end AlbumIndex
