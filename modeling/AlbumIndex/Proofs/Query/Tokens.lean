import AlbumIndex.Proofs.Query.Prefix

/-!
# The tokens of a text

Cut at its quotes, a text falls into stretches that are in turn outside and inside of quotes.  The
words of those outside are tokens, and each of those inside is a token of its own, together with the
quote in front of it: also if it is empty, and also if it is the last and no quote ends it.  A text
with a comma and without quotes is cut at its commas instead.

A scan need not gather the characters of a token.  It can remember the byte at which the token began
and cut the token out when it ends.  No such cut falls inside a character.

## Main definitions

* `stretchTokens` — the tokens of a text that is cut at its quotes.
* `slice?` — the characters between two bytes, if both are at the ends of characters.
* `bounds` — the bytes at which a scan finds that tokens begin and end.

## Main results

* `quoteTokens_eq` — a scan finds the tokens of the stretches between the quotes.
* `slice?_bounds` — what a scan cuts out are its tokens.
* `tokenize_grammar` — **the tokens of every text.**
-/

namespace AlbumIndex
namespace Text

variable {blank : Char} {w cs p : List Char}

/-! ### Joined and trimmed texts -/

/-- What is joined with separators between them stands in the joined text. -/
theorem infix_intercalate {sep : List Char} {parts : List (List Char)} (hp : p ∈ parts) :
    p <:+: sep.intercalate parts := by
  induction parts with
  | nil => cases hp
  | cons first rest ih =>
    cases rest with
    | nil =>
      obtain rfl := List.mem_singleton.1 hp
      simp only [List.intercalate_singleton, List.infix_rfl]
    | cons second rest =>
      rw [List.intercalate_cons_cons]
      rcases List.mem_cons.1 hp with rfl | hp
      · exact ((List.prefix_append _ _).trans (List.prefix_append _ _)).isInfix
      · exact (ih hp).trans (List.suffix_append _ _).isInfix

theorem trim_isInfix (cs : List Char) : trim cs <:+: cs := by
  have hstart : (trimStart (trimStart cs).reverse).reverse <+: trimStart cs := by
    rw [← List.reverse_suffix, List.reverse_reverse]
    exact List.dropWhile_suffix _
  exact hstart.isInfix.trans (List.dropWhile_suffix _).isInfix

/-! ### Words -/

/-- Words end at a blank. -/
theorem words_append_blank (hblank : isBlank blank = true) (before after : List Char) :
    words (before ++ blank :: after) = words before ++ words after := by
  simp only [words, pieces_eq_splitOnP]
  rw [List.splitOnP_append_cons before after hblank, List.filter_append]

theorem words_cons_blank (hblank : isBlank blank = true) (cs : List Char) :
    words (blank :: cs) = words cs := words_append_blank hblank [] cs

/-- A text without blanks is a word. -/
theorem words_of_forall_not (hw : ∀ c ∈ w, isBlank c = false) (hne : w ≠ []) : words w = [w] := by
  rw [words, pieces_of_forall_not hw, List.filter_cons_of_pos (by simpa using hne), List.filter_nil]

/-! ### Cutting at bytes -/

/-- The characters between two bytes; none if a byte is inside a character or behind the text, or
the first comes after the second. -/
def slice? (first next : Nat) (cs : List Char) : Option (List Char) :=
  if first ≤ next then (byteSuffix? first cs).bind (bytePrefix? (next - first)) else none

/-- The bytes before and after a stretch of a text cut it out. -/
theorem slice?_append (before cs after : List Char) :
    slice? (byteLength before) (byteLength (before ++ cs)) (before ++ cs ++ after) = some cs := by
  rw [slice?, byteLength_append, if_pos (Nat.le_add_right _ _), List.append_assoc,
    byteSuffix?_append, Option.bind_some, Nat.add_sub_cancel_left, bytePrefix?_append]

theorem exists_slice?_of_infix (h : p <:+: cs) : ∃ first next, slice? first next cs = some p := by
  obtain ⟨before, after, rfl⟩ := h
  exact ⟨_, _, slice?_append before p after⟩

end Text

namespace Query

open Text

/-! ### Quotes -/

/-- The tokens of a stretch between quotes.  Every other one is outside of quotes, beginning with the
first, and gives its words; any other is inside and is a token with the quote in front. -/
def stretchToken (stretch : List Char) (i : Nat) : List (List Char) :=
  if i % 2 = 0 then words stretch else ['"' :: stretch]

/-- The tokens of a text that is cut at its quotes. -/
def stretchTokens (stretches : List (List Char)) : List (List Char) :=
  stretches.zipIdx.flatMap fun s => stretchToken s.1 s.2

section Scan

variable {stretch : List Char}

/-- A scan in a quoted token takes everything up to a place that ends it: a quote or the end of the
text. -/
theorem scan_quotation {rest : List Char} {tokens : List (List Char)}
    (hends : ∀ part, scan .quotation part rest = part.reverse :: tokens) (h : '"' ∉ stretch)
    (part : List Char) :
    scan .quotation part (stretch ++ rest) = (part.reverse ++ stretch) :: tokens := by
  induction stretch generalizing part with
  | nil => rw [List.nil_append, hends, List.append_nil]
  | cons c stretch ih =>
    rw [List.mem_cons, not_or] at h
    obtain ⟨hc, hstretch⟩ := h
    rw [List.cons_append, scan, if_neg fun heq => hc heq.symm, ih hstretch, List.reverse_cons,
      List.append_assoc, List.singleton_append]

/-- A quote ends a quoted token. -/
theorem scan_quotation_quote (part rest : List Char) :
    scan .quotation part ('"' :: rest) = part.reverse :: scan .between [] rest := by
  rw [scan, if_pos rfl]

/-- Outside of quotes a scan takes the words up to such a place.  Within a word it takes that word
first. -/
theorem scan_words {rest : List Char} {tokens : List (List Char)}
    (hrest : scan .between [] rest = tokens)
    (hends : ∀ part, scan .word part rest = part.reverse :: tokens) (h : '"' ∉ stretch) :
    scan .between [] (stretch ++ rest) = words stretch ++ tokens ∧
      ∀ part, part ≠ [] → (∀ c ∈ part.reverse, isBlank c = false) →
        scan .word part (stretch ++ rest) = words (part.reverse ++ stretch) ++ tokens := by
  -- what the scan has of a word counts as standing in front of the stretch
  induction stretch with
  | nil =>
    refine ⟨hrest, fun part hne hpart => ?_⟩
    rw [List.nil_append, hends, List.append_nil, words_of_forall_not hpart (by simpa using hne)]
    rfl
  | cons c stretch ih =>
    rw [List.mem_cons, not_or] at h
    obtain ⟨hc, hstretch⟩ := h
    obtain ⟨hbetween, hword⟩ := ih hstretch
    cases hblank : isBlank c with
    | true =>
      constructor
      · rw [List.cons_append, scan, hblank, if_pos rfl, hbetween, words_cons_blank hblank]
      · intro part hne hpart
        rw [List.cons_append, scan, hblank, if_pos rfl, hbetween, words_append_blank hblank,
          words_of_forall_not hpart (by simpa using hne), List.append_assoc, List.singleton_append]
    | false =>
      constructor
      · rw [List.cons_append, scan, hblank, if_neg Bool.false_ne_true, if_neg fun heq => hc heq.symm,
          hword [c] (List.cons_ne_nil _ _) (by simpa using hblank), List.reverse_singleton,
          List.singleton_append]
      · intro part hne hpart
        have hlonger : ∀ x ∈ (c :: part).reverse, isBlank x = false := by
          simpa [or_imp, forall_and, hblank] using hpart
        rw [List.cons_append, scan, hblank, if_neg Bool.false_ne_true, if_neg fun heq => hc heq.symm,
          hword (c :: part) (List.cons_ne_nil _ _) hlonger, List.reverse_cons, List.append_assoc,
          List.singleton_append]

/-- A scan of stretches with quotes between them, from the one with number `k` on. -/
theorem scan_stretches {stretches : List (List Char)} (hne : stretches ≠ [])
    (h : ∀ s ∈ stretches, '"' ∉ s) (k : Nat) :
    (if k % 2 = 0 then scan .between [] (['"'].intercalate stretches)
      else scan .quotation ['"'] (['"'].intercalate stretches)) =
    (stretches.zipIdx k).flatMap fun s => stretchToken s.1 s.2 := by
  induction stretches generalizing k with
  | nil => exact absurd rfl hne
  | cons stretch rest ih =>
    obtain ⟨hstretch, hrest⟩ := List.forall_mem_cons.1 h
    rw [List.zipIdx_cons, List.flatMap_cons, stretchToken]
    cases rest with
    | nil =>
      rw [List.intercalate_singleton, List.zipIdx_nil, List.flatMap_nil, List.append_nil]
      split
      · have hend : scan .between [] [] = [] := rfl
        have hwords := (scan_words hend (fun _ => rfl) hstretch).1
        rwa [List.append_nil, List.append_nil] at hwords
      · have hend : ∀ part, scan .quotation part [] = [part.reverse] := fun _ => rfl
        have hquoted := scan_quotation hend hstretch ['"']
        rwa [List.append_nil] at hquoted
    | cons second rest =>
      have hquote : isBlank '"' = false := by decide
      have hnext := ih (List.cons_ne_nil second rest) hrest (k + 1)
      rw [List.intercalate_cons_cons, List.append_assoc, List.singleton_append, ← hnext]
      -- the quote behind a stretch leads to one of the other kind
      by_cases heven : k % 2 = 0
      · rw [if_pos heven, if_pos heven, if_neg (by omega)]
        refine (scan_words ?_ ?_ hstretch).1
        · rw [scan, hquote, if_neg Bool.false_ne_true, if_pos rfl]
        · intro part
          rw [scan, hquote, if_neg Bool.false_ne_true, if_pos rfl]
      · rw [if_neg heven, if_neg heven, if_pos (by omega)]
        exact scan_quotation (fun part => scan_quotation_quote part _) hstretch ['"']

end Scan

/-- **A scan finds the tokens of the stretches between the quotes.** -/
theorem quoteTokens_eq (cs : List Char) : quoteTokens cs = stretchTokens (cs.splitOn '"') := by
  have hfree : ∀ s ∈ cs.splitOn '"', '"' ∉ s := by
    intro s hs hmem
    rw [List.splitOn_eq_splitOnP, ← pieces_eq_splitOnP] at hs
    exact absurd (cut_eq_false_of_mem_pieces hs '"' hmem) (by decide)
  have hscan := scan_stretches (List.splitOn_ne_nil '"' cs) hfree 0
  rwa [if_pos rfl, List.intercalate_splitOn] at hscan

/-- The pieces between the commas, trimmed. -/
theorem commaTokens_eq (cs : List Char) :
    commaTokens cs = ((cs.splitOn ',').map trim).filter (· ≠ []) := by
  rw [commaTokens, pieces_eq_splitOnP, List.splitOn_eq_splitOnP]
  exact List.filter_congr fun t _ => by cases t <;> rfl

/-! ### Cutting tokens out -/

/-- The bytes at which the tokens of the rest of a text begin and end, as found by a scan that stands
at byte `here` and entered its token at byte `start`. -/
def bounds (standing : Stretch) (start here : Nat) : List Char → List (Nat × Nat)
  | [] => if standing = .between then [] else [(start, here)]
  | c :: cs =>
    let next := here + c.utf8Size
    if isBlank c then
      if standing = .word then (start, here) :: bounds .between start next cs
      else bounds standing start next cs
    else if c = '"' then
      match standing with
      | .between => bounds .quotation here next cs
      | .word => (start, here) :: bounds .quotation here next cs
      | .quotation => (start, here) :: bounds .between start next cs
    else if standing = .between then bounds .word here next cs
    else bounds standing start next cs

/-- The rest of a scan that stands behind `part`, where its token began in front of it. -/
theorem slice?_bounds_rest {cs rest : List Char} (before part : List Char) {standing : Stretch}
    {start here : Nat} (hcs : cs = before ++ part.reverse ++ rest)
    (hstart : standing ≠ .between → start = byteLength before)
    (hhere : here = byteLength (before ++ part.reverse)) :
    (bounds standing start here rest).map (fun b => slice? b.1 b.2 cs) =
      (scan standing part rest).map some := by
  induction rest generalizing standing before part start here with
  | nil =>
    have hslice := slice?_append before part.reverse []
    rw [← hcs, ← hhere] at hslice
    cases standing with
    | between => rfl
    | word => simp [bounds, scan, hstart, hslice]
    | quotation => simp [bounds, scan, hstart, hslice]
  | cons c rest ih =>
    have hslice := slice?_append before part.reverse (c :: rest)
    rw [← hcs, ← hhere] at hslice
    have hnext : here + c.utf8Size = byteLength (before ++ part.reverse ++ [c]) := by
      rw [byteLength_append, ← hhere]
      rfl
    -- the next character is behind a token, begins one or goes on with one
    have hbehind : ∀ start, (bounds .between start (here + c.utf8Size) rest).map
        (fun b => slice? b.1 b.2 cs) = (scan .between [] rest).map some := by
      intro start
      apply ih (before ++ part.reverse ++ [c]) []
      · simpa using hcs
      · intro h
        exact absurd rfl h
      · simpa using hnext
    have hbegun : ∀ standing, (bounds standing here (here + c.utf8Size) rest).map
        (fun b => slice? b.1 b.2 cs) = (scan standing [c] rest).map some := by
      intro standing
      apply ih (before ++ part.reverse) [c]
      · simpa using hcs
      · intro _
        exact hhere
      · simpa using hnext
    have hgone : (bounds standing start (here + c.utf8Size) rest).map
        (fun b => slice? b.1 b.2 cs) = (scan standing (c :: part) rest).map some := by
      apply ih before (c :: part)
      · simpa using hcs
      · exact hstart
      · simpa using hnext
    by_cases hblank : isBlank c = true
    · cases standing with
      | between => simp [bounds, scan, hblank, hbehind]
      | word => simp [bounds, scan, hblank, hbehind, hstart, hslice]
      | quotation =>
        have hquote : c ≠ '"' := by
          rintro rfl
          exact absurd hblank (by decide)
        simp [bounds, scan, hblank, hquote, hgone]
    · by_cases hquote : c = '"'
      · subst hquote
        cases standing with
        | between => simp [bounds, scan, hblank, hbegun]
        | word => simp [bounds, scan, hblank, hbegun, hstart, hslice]
        | quotation => simp [bounds, scan, hblank, hbehind, hstart, hslice]
      · cases standing with
        | between => simp [bounds, scan, hblank, hquote, hbegun]
        | word => simp [bounds, scan, hblank, hquote, hgone]
        | quotation => simp [bounds, scan, hblank, hquote, hgone]

/-- **What a scan cuts out are its tokens.** -/
theorem slice?_bounds (cs : List Char) :
    (bounds .between 0 0 cs).map (fun b => slice? b.1 b.2 cs) = (quoteTokens cs).map some := by
  apply slice?_bounds_rest [] []
  · rfl
  · intro h
    exact absurd rfl h
  · rfl

/-! ### Every text -/

/-- The test for commas is a test for both characters. -/
theorem tokenize_eq (text : String) :
    tokenize text = (if ',' ∈ text.toList ∧ '"' ∉ text.toList then commaTokens text.toList
      else quoteTokens text.toList).map String.ofList := by
  simp only [tokenize, Bool.and_eq_true, Bool.not_eq_true', List.contains_eq_mem,
    decide_eq_true_eq, decide_eq_false_iff_not]

/-- Every token stands in its text and can be cut out of it. -/
theorem exists_slice?_of_mem_tokenize {text token : String} (h : token ∈ tokenize text) :
    ∃ first next, slice? first next text.toList = some token.toList := by
  rw [tokenize_eq] at h
  obtain ⟨cs, hcs, rfl⟩ := List.mem_map.1 h
  rw [String.toList_ofList]
  split at hcs
  · rw [commaTokens_eq] at hcs
    obtain ⟨piece, hpiece, rfl⟩ := List.mem_map.1 (List.mem_filter.1 hcs).1
    apply exists_slice?_of_infix
    have hinfix : piece <:+: text.toList := by
      have hjoined : [','].intercalate (text.toList.splitOn ',') = text.toList :=
        List.intercalate_splitOn ','
      rw [← hjoined]
      exact infix_intercalate hpiece
    exact (trim_isInfix piece).trans hinfix
  · have hmem : some cs ∈ (quoteTokens text.toList).map some := List.mem_map_of_mem hcs
    rw [← slice?_bounds] at hmem
    obtain ⟨b, -, hb⟩ := List.mem_map.1 hmem
    exact ⟨b.1, b.2, hb⟩

/-- **The tokens of every text**: the trimmed pieces between its commas, or else the words outside
of its quotes and the stretches inside of them.  Cut out at the bytes where a scan finds that they
begin and end, they are the same. -/
theorem tokenize_grammar (text : String) :
    tokenize text = (if ',' ∈ text.toList ∧ '"' ∉ text.toList then
        ((text.toList.splitOn ',').map trim).filter (· ≠ [])
      else stretchTokens (text.toList.splitOn '"')).map String.ofList ∧
    (bounds .between 0 0 text.toList).map (fun b => slice? b.1 b.2 text.toList) =
      (stretchTokens (text.toList.splitOn '"')).map some ∧
    ∀ token ∈ tokenize text, ∃ first next, slice? first next text.toList = some token.toList := by
  refine ⟨?_, ?_, fun token => exists_slice?_of_mem_tokenize⟩
  · rw [tokenize_eq, commaTokens_eq, quoteTokens_eq]
  · rw [← quoteTokens_eq]
    exact slice?_bounds text.toList

/-- A quote ends a word, an empty stretch in quotes is a token, and the last one has no end. -/
example : stretchTokens ("ab\"c d\"e \"\" \"été f".toList.splitOn '"') =
    ["ab", "\"c d", "e", "\"", "\"été f"].map String.toList := by decide +kernel

end Query
end AlbumIndex
