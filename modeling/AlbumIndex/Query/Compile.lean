import AlbumIndex.Query.Node
import AlbumIndex.Query.Token
import AlbumIndex.Text.LetterCase

/-!
# The query language

Every token of a query becomes one condition, and all conditions have to hold.  What a token means
is decided by a list of rules, of which the first that accepts it counts: a year, say, is a word as
well, and so is read as a year or a keyword.  Prefixes are compared in lower case, but what follows
a prefix is taken as it was typed.

## Main definitions

* `Options` — how a query is to be read.
* `Token` — a token and its lower-case form.
* `Rule`, `Rule.of` — the rules in their order, and the one that a token falls under.
* `compileToken`, `compile` — the condition of a token, and of a whole query.
-/

namespace AlbumIndex
namespace Query

open Calendar Text

/-! ### Options -/

/-- How a query is to be read. -/
structure Options where
  /-- Quoted tokens that are names of people stand for all names of the person. -/
  expandPeople : Bool
  /-- How the tables of keywords are used. -/
  mode : KeywordMode
  /-- A word stands for at most so many keywords for each of its characters. -/
  fuzzyFactor : Nat
  offset : Offset
  /-- Keywords that no image of the answer has. -/
  exclude : List String

namespace Options

/-- The options of a plain query. -/
def default : Options := ⟨false, .ranked, 10, defaultOffset, []⟩

end Options

/-! ### Tokens -/

/-- A token as it was typed, and in lower case. -/
structure Token where
  /-- The token as it was typed. -/
  raw : List Char
  /-- The token in lower case. -/
  lower : List Char

namespace Token

def of (text : String) : Token := ⟨text.toList, lowercase text.toList⟩

/-- What follows a prefix of the lower-case form in the token as it was typed. -/
def after (t : Token) (lowerPrefix : String) : String :=
  String.ofList ((byteSuffix? lowerPrefix.utf8ByteSize t.raw).getD [])

/-- The lower-case form begins with a prefix. -/
def starts (t : Token) (lowerPrefix : String) : Bool := lowerPrefix.toList.isPrefixOf t.lower

end Token

/-! ### Shapes of dates -/

/-- The characters are digits where the shape has `#`, and those of the shape elsewhere. -/
def hasShape : List Char → List Char → Bool
  | [], [] => true
  | s :: shape, c :: cs => (if s = '#' then isDigit c else s == c) && hasShape shape cs
  | _, _ => false

/-! ### Rules -/

/-- The kinds of tokens. -/
inductive Rule where
  /-- `count:` and a number: the images with so many keywords. -/
  | count
  /-- `stereo:`: the images with stereo offsets. -/
  | stereo
  /-- A quote, `album:` and a path: the images of that album. -/
  | quotedAlbum
  /-- `album:` and a path: the images of that album. -/
  | album
  /-- `albums:`: the first image of each album. -/
  | albums
  /-- Four digits: a year, or a keyword. -/
  | year
  /-- Four digits, a hyphen and two digits: a month, or a keyword. -/
  | month
  /-- Four digits and twice a hyphen and two digits: a day, or a keyword. -/
  | day
  /-- Two years with two hyphens between: the time from the one to the other. -/
  | yearRange
  /-- A quote and a text: that keyword. -/
  | exact
  /-- Anything else: the keywords that contain it. -/
  | fuzzy
deriving DecidableEq

namespace Rule

/-- The rules in the order in which they are tried. -/
def inOrder : List Rule :=
  [.count, .stereo, .quotedAlbum, .album, .albums, .year, .month, .day, .yearRange, .exact, .fuzzy]

def accepts : Rule → Token → Bool
  | .count, t => t.starts "count:"
  | .stereo, t => t.starts "stereo:"
  | .quotedAlbum, t => t.starts "\"album:"
  | .album, t => t.starts "album:"
  | .albums, t => t.raw == "albums:".toList
  | .year, t => hasShape "####".toList t.raw
  | .month, t => hasShape "####-##".toList t.raw
  | .day, t => hasShape "####-##-##".toList t.raw
  | .yearRange, t => hasShape "####--####".toList t.raw
  | .exact, t => t.starts "\""
  | .fuzzy, _ => true

/-- The first rule that accepts a token; the last one accepts every token. -/
def of (t : Token) : Rule := (inOrder.find? fun r => r.accepts t).getD .fuzzy

end Rule

/-! ### Compilation -/

/-- The keywords that a word stands for: those that contain it, the shortest first, but no more than
the factor times its length, and at least one. -/
def fuzzyKeywords (c : Catalog) (opts : Options) (pattern : String) : List String :=
  (c.index.matchingKeywords pattern (opts.mode != .literal)).take
    (max (opts.fuzzyFactor * pattern.length) 1)

/-- The condition of a word: one of the keywords that it stands for. -/
def fuzzyNode (c : Catalog) (opts : Options) (pattern : String) : Node :=
  match fuzzyKeywords c opts pattern with
  | [] => .nothing
  | keywords => .any (keywords.map .keyword)

/-- The condition of a quoted token: its text as a keyword, or as a name. -/
def exactNode (opts : Options) (keyword : String) : Node :=
  if opts.expandPeople then .person keyword else .keyword keyword

/-- The condition that a token means under a rule. -/
def Rule.node (c : Catalog) (opts : Options) (t : Token) : Rule → Node
  | .count => .keywordCount (t.after "count:")
  | .stereo => .stereo
  | .quotedAlbum => .album (t.after "\"album:")
  | .album => .album (t.after "album:")
  | .albums => .albums
  | .year => .any [.year (String.ofList t.raw), .keyword (String.ofList t.raw)]
  | .month => .any [.month (String.ofList t.raw), .keyword (String.ofList t.raw)]
  | .day => .any [.day (String.ofList t.raw), .keyword (String.ofList t.raw)]
  | .yearRange => .yearRange (String.ofList t.raw)
  | .exact => exactNode opts (String.ofList t.lower.tail)
  | .fuzzy => fuzzyNode c opts (String.ofList t.lower)

def compileToken (c : Catalog) (opts : Options) (text : String) : Node :=
  let t := Token.of text
  (Rule.of t).node c opts t

/-- The condition of a query: those of its tokens together, and that none of the excluded keywords
is there.  A query without tokens makes no sense. -/
def compile (c : Catalog) (opts : Options) (text : String) : Node :=
  let nodes := (tokenize text).map (compileToken c opts)
  if opts.exclude.isEmpty || nodes.isEmpty then .all nodes
  else .all (nodes ++ [.without opts.exclude])

end Query
end AlbumIndex
