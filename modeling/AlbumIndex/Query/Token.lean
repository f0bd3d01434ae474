import AlbumIndex.Text.Pieces

/-!
# Tokens of a query

A query is cut into tokens in one of two ways.  With a comma and without a quote, the tokens are the
stretches between the commas.  Otherwise they are the words between blanks, where a quote begins a
token that goes on, blanks included, up to the next quote or the end of the text.  A quoted token
keeps the quote it begins with, as a sign that it is meant exactly.

## Main definitions

* `commaTokens` — the tokens of a text with commas.
* `quoteTokens` — the tokens of a text with blanks and quotes.
* `tokenize` — the tokens of a query.
-/

namespace AlbumIndex
namespace Query

open Text

/-! ### Commas -/

/-- The stretches between commas, trimmed, without the empty ones. -/
def commaTokens (cs : List Char) : List (List Char) :=
  ((pieces (· == ',') cs).map trim).filter fun t => !t.isEmpty

/-! ### Blanks and quotes -/

/-- Where a scan stands: between tokens, in a word, or in a quoted token. -/
inductive Stretch where
  /-- Between two tokens. -/
  | between
  /-- In a word. -/
  | word
  /-- In a quoted token. -/
  | quotation
deriving DecidableEq

/-- The tokens of the rest of a text, where `part` holds the characters of the token that the scan
stands in, the last one first. -/
def scan : Stretch → List Char → List Char → List (List Char)
  | .between, _, [] => []
  | .word, part, [] => [part.reverse]
  | .quotation, part, [] => [part.reverse]
  | .between, _, c :: cs =>
    if isBlank c then scan .between [] cs
    else if c = '"' then scan .quotation [c] cs
    else scan .word [c] cs
  | .word, part, c :: cs =>
    if isBlank c then part.reverse :: scan .between [] cs
    else if c = '"' then part.reverse :: scan .quotation [c] cs
    else scan .word (c :: part) cs
  | .quotation, part, c :: cs =>
    if c = '"' then part.reverse :: scan .between [] cs
    else scan .quotation (c :: part) cs

/-- The words and the quoted stretches of a text. -/
def quoteTokens (cs : List Char) : List (List Char) := scan .between [] cs

/-! ### Queries -/

def tokenize (text : String) : List String :=
  let cs := text.toList
  (if cs.contains ',' && !cs.contains '"' then commaTokens cs else quoteTokens cs).map String.ofList

end Query
end AlbumIndex
