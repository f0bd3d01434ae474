import AlbumIndex.Proofs.Text.LetterCase
import AlbumIndex.Proofs.Text.Pieces
import AlbumIndex.Query.Compile

/-!
# What follows the prefix of a token

A rule compares its prefix with the token in lower case and then cuts as many bytes off the token as
it was typed.  Every prefix is plain, so it stands in the token with some letters as capitals, one
byte for each, and the cut falls behind it.  A quoted token is cut the other way round, from its
lower-case form: a quote is lowered by itself, so what is left is the lower-case form of what
follows the quote.

## Main definitions

* `PlainPrefix` — a prefix of plain characters, one byte each.
* `TypedPrefix` — the prefix stands in front of a text, with some letters as capitals.
* `remainder` — a text without as many characters as a prefix has.
* `Rule.CutsOff`, `CutsQuote` — what a rule accepts, and what it takes from the token.

## Main results

* `Token.starts_iff_typedPrefix` — **a prefix is found exactly where it was typed.**
* `Token.after_eq_remainder` — **what a rule takes from a token is what follows the prefix.**
* `Rule.prefixes_cut_off` — **no cut falls into a character**, for any rule and any token.
-/

namespace AlbumIndex

open Calendar (asciiLower)

namespace Query

open Text

/-- The characters of the text are plain, and each takes one byte. -/
def PlainPrefix (p : String) : Prop := (∀ c ∈ p.toList, Plain c) ∧ p.utf8ByteSize = p.length

instance (p : String) : Decidable (PlainPrefix p) :=
  decidable_of_iff ((p.toList.all fun c => decide (Plain c)) = true ∧ p.utf8ByteSize = p.length)
    (and_congr_left fun _ => by simp only [List.all_eq_true, decide_eq_true_eq])

/-- The text is the prefix, with some of its letters as capitals of ASCII, and then the rest. -/
def TypedPrefix (p text rest : String) : Prop :=
  ∃ q, text.toList = q ++ rest.toList ∧ q.map asciiLower = p.toList

/-- The text without as many characters as the prefix has. -/
def remainder (p text : String) : String := String.ofList (text.toList.drop p.length)

/-- As many characters were typed as the prefix has. -/
theorem TypedPrefix.rest_eq {p text rest : String} (h : TypedPrefix p text rest) :
    rest = remainder p text := by
  obtain ⟨q, htext, hq⟩ := h
  have hlength : q.length = p.length := by
    rw [← List.length_map (f := asciiLower), hq, String.length_toList]
  rw [remainder, htext, ← hlength, List.drop_left, String.ofList_toList]

/-- A plain prefix was typed in as many bytes as it has itself. -/
theorem TypedPrefix.byteSuffix?_eq {p text rest : String} (hp : PlainPrefix p)
    (h : TypedPrefix p text rest) : byteSuffix? p.utf8ByteSize text.toList = some rest.toList := by
  obtain ⟨hplain, hsize⟩ := hp
  obtain ⟨q, htext, hq⟩ := h
  have hascii : ∀ c ∈ q, c.toNat < 128 := by
    intro c hc
    have hmem : asciiLower c ∈ p.toList := by
      rw [← hq]
      exact List.mem_map_of_mem hc
    exact asciiLower_toNat_lt rfl (hplain _ hmem).1.2
  have hbytes : byteLength q = p.utf8ByteSize := by
    rw [byteLength_of_lt hascii, hsize, ← String.length_toList, ← hq, List.length_map]
  rw [htext, ← hbytes, byteSuffix?_append]

namespace Token

theorem starts_iff {text p : String} :
    (Token.of text).starts p = true ↔ p.toList <+: lowercase text.toList :=
  List.isPrefixOf_iff_prefix

/-- **A prefix is found exactly where it was typed**, with some letters as capitals. -/
theorem starts_iff_typedPrefix {text p : String} (hp : PlainPrefix p) :
    (Token.of text).starts p = true ↔ ∃ rest, TypedPrefix p text rest := by
  rw [starts_iff, prefix_lowercase_iff hp.1]
  constructor
  · rintro ⟨q, rest, htext, hq⟩
    exact ⟨String.ofList rest, q, by rw [htext, String.toList_ofList], hq⟩
  · rintro ⟨rest, q, htext, hq⟩
    exact ⟨q, rest.toList, htext, hq⟩

/-- A rule takes all that follows the prefix, and the cut behind the prefix always succeeds. -/
theorem after_of_typedPrefix {text p rest : String} (hp : PlainPrefix p)
    (h : TypedPrefix p text rest) : (Token.of text).after p = rest := by
  rw [after, Token.of, h.byteSuffix?_eq hp, Option.getD_some, String.ofList_toList]

/-- **What a rule takes from a token is what follows the prefix.** -/
theorem after_eq_remainder {text p : String} (hp : PlainPrefix p)
    (h : p.toList <+: lowercase text.toList) : (Token.of text).after p = remainder p text := by
  obtain ⟨rest, hrest⟩ := (starts_iff_typedPrefix hp).1 (starts_iff.2 h)
  rw [after_of_typedPrefix hp hrest, hrest.rest_eq]

end Token

/-! ### The rules that cut -/

/-- A rule with a prefix accepts a token if the prefix was typed in front of it.  The cut behind the
prefix then falls between two characters, and the condition of the token is made of what follows,
as it was typed. -/
structure Rule.CutsOff (r : Rule) (p : String) (condition : String → Node) (text : String) :
    Prop where
  accepts_iff : r.accepts (Token.of text) = true ↔ ∃ rest, TypedPrefix p text rest
  cut_eq : ∀ rest, TypedPrefix p text rest →
    byteSuffix? p.utf8ByteSize text.toList = some rest.toList ∧ (Token.of text).after p = rest
  node_eq : ∀ rest, TypedPrefix p text rest →
    ∀ c opts, r.node c opts (Token.of text) = condition rest

/-- A rule that looks for a plain prefix, and makes its condition of what follows it, cuts it off. -/
theorem Rule.cutsOff {r : Rule} {p : String} {condition : String → Node} (hp : PlainPrefix p)
    (haccepts : ∀ t, r.accepts t = t.starts p)
    (hnode : ∀ c opts t, r.node c opts t = condition (t.after p)) (text : String) :
    r.CutsOff p condition text where
  accepts_iff := by
    rw [haccepts]
    exact Token.starts_iff_typedPrefix hp
  cut_eq := by
    intro rest h
    exact ⟨h.byteSuffix?_eq hp, Token.after_of_typedPrefix hp h⟩
  node_eq := by
    intro rest h c opts
    rw [hnode, Token.after_of_typedPrefix hp h]

/-- A token is quoted if it begins with a quote.  The first byte of its lower-case form is then the
quote, and the condition of the token is made of what follows, in lower case. -/
structure CutsQuote (text : String) : Prop where
  accepts_iff : Rule.exact.accepts (Token.of text) = true ↔ ∃ rest, text.toList = '"' :: rest
  cut_eq : ∀ rest, text.toList = '"' :: rest →
    byteSuffix? 1 (Token.of text).lower = some (lowercase rest)
  node_eq : ∀ rest, text.toList = '"' :: rest → ∀ c opts,
    Rule.exact.node c opts (Token.of text) = exactNode opts (String.ofList (lowercase rest))

theorem cutsQuote (text : String) : CutsQuote text := by
  have hlower : ∀ rest, text.toList = '"' :: rest →
      (Token.of text).lower = '"' :: lowercase rest := by
    intro rest htext
    rw [Token.of, htext, lowercase_quote_cons]
  constructor
  case accepts_iff =>
    have hplain : ∀ c ∈ ['"'], Plain c := List.forall_mem_singleton.2 (by decide)
    refine (List.isPrefixOf_iff_prefix.trans (prefix_lowercase_iff hplain)).trans ?_
    constructor
    · rintro ⟨q, rest, htext, hq⟩
      -- only the quote itself is lowered to a quote
      obtain ⟨c, rfl, hc⟩ := List.map_eq_singleton_iff.1 hq
      exact ⟨rest, by rw [htext, eq_of_asciiLower_eq hc (by decide), List.singleton_append]⟩
    · rintro ⟨rest, htext⟩
      exact ⟨['"'], rest, htext, by decide⟩
  case cut_eq =>
    intro rest htext
    rw [hlower rest htext]
    exact byteSuffix?_append ['"'] (lowercase rest)
  case node_eq =>
    intro rest htext c opts
    rw [Rule.node, hlower rest htext, List.tail_cons]

/-- **No cut falls into a character.**  Whatever characters a token is made of, the rules with a
text behind their prefix find the prefix in the token as it was typed and take exactly what follows
it; a quoted token loses its quote and is taken in lower case. -/
theorem Rule.prefixes_cut_off (text : String) :
    Rule.count.CutsOff "count:" .keywordCount text ∧
      Rule.quotedAlbum.CutsOff "\"album:" .album text ∧
      Rule.album.CutsOff "album:" .album text ∧ CutsQuote text := by
  refine ⟨?_, ?_, ?_, cutsQuote text⟩
  · exact Rule.cutsOff (by decide +kernel) (fun _ => rfl) (fun _ _ _ => rfl) text
  · exact Rule.cutsOff (by decide +kernel) (fun _ => rfl) (fun _ _ _ => rfl) text
  · exact Rule.cutsOff (by decide +kernel) (fun _ => rfl) (fun _ _ _ => rfl) text

/-- The characters of a path take their own numbers of bytes; the cut stands in front of them. -/
example : (Token.of "AlBuM:İzmir/κόρη").after "album:" = "İzmir/κόρη" := by decide +kernel

end Query
end AlbumIndex
