import AlbumIndex.Catalog
import AlbumIndex.Query.Cursor
import AlbumIndex.Query.Period

/-!
# Query nodes

A query is a tree of conditions.  Opened on a catalog, a node becomes a cursor over the images that
fulfil its condition, or no cursor at all if the condition makes no sense: a date that the calendar
does not have, a path that no album has.  Among conditions that have to hold together, one without a
cursor leaves the whole without; among alternatives it is passed over.

## Main definitions

* `KeywordMode` — what the tables say about a keyword.
* `Node` — a tree of conditions.
* `Scope`, `Node.open` — the cursor of a node over a catalog.
-/

namespace AlbumIndex
namespace Query

open Calendar Text

/-! ### Conditions -/

/-- How a condition on a keyword uses the table of sub-keywords. -/
inductive KeywordMode where
  /-- Whole keywords only. -/
  | literal
  /-- Whole keywords and sub-keywords, in the order of the ranks. -/
  | ranked
  /-- Whole keywords first, then sub-keywords; not in the order of the ranks. -/
  | priority
deriving DecidableEq

/-- A tree of conditions on images. -/
inductive Node where
  /-- A condition that makes no sense. -/
  | absent
  /-- No image fulfils it. -/
  | nothing
  /-- The image is registered under a keyword, in the way of the mode. -/
  | keyword (keyword : String)
  /-- The image is registered under a keyword as a whole. -/
  | wholeKeyword (keyword : String)
  /-- The image is registered under a name of the person known under a name. -/
  | person (name : String)
  /-- The image lies in the first album of a path. -/
  | album (rel : String)
  /-- The image is the first of its album. -/
  | albums
  /-- The image was taken in the year of a token. -/
  | year (token : String)
  /-- The image was taken from the beginning of one year up to that of another. -/
  | yearRange (token : String)
  /-- The image was taken in the month of a token. -/
  | month (token : String)
  /-- The image was taken on the day of a token. -/
  | day (token : String)
  /-- The image was taken in a span of time. -/
  | within (span : Span)
  /-- The image has so many keywords. -/
  | keywordCount (token : String)
  /-- The image has stereo offsets. -/
  | stereo
  /-- The image has none of the keywords, not even as sub-keywords. -/
  | without (keywords : List String)
  /-- All of the conditions hold. -/
  | all (nodes : List Node)
  /-- One of the conditions holds. -/
  | any (nodes : List Node)

/-! ### Opening -/

/-- What a query is opened on: a catalog, the use of its tables, and the offset of its dates. -/
structure Scope where
  catalog : Catalog
  mode : KeywordMode
  offset : Offset

/-- The offset of dates unless another one is asked for: eight hours behind UTC. -/
def defaultOffset : Offset := Offset.ofHours (-8)

/-- The largest number of keywords that can be asked for. -/
def maxCount : Nat := UInt64.size - 1

namespace Scope

/-- A walk over ranks. -/
def postings (ranks : List Rank) : Cursor := .leaf (.postings ranks)

/-- A walk over all images that a test accepts. -/
def scan (s : Scope) (keep : Image → Bool) : Cursor := .leaf (.scan keep s.catalog.allImages)

/-- The images taken in a period, if there is one. -/
def period (s : Scope) (span : Option Span) : Option Cursor :=
  span.map fun p => s.scan fun image => p.contains image.itemTime

/-- The ranks of a keyword in the mode of the query. -/
def keywordRanks (s : Scope) (keyword : String) : List Rank :=
  let index := s.catalog.index
  match s.mode with
  | .literal => index.literal.ranksOf keyword
  | .ranked =>
    match index.literal[keyword]?, index.sub[keyword]? with
    | some literal, none => literal
    | none, some sub => sub
    | none, none => []
    | some _, some _ => index.imagesRanked keyword
  | .priority => index.images keyword

/-- The ranks of a keyword as a whole. -/
def wholeKeywordRanks (s : Scope) (keyword : String) : List Rank :=
  s.catalog.index.literal.ranksOf keyword

end Scope

/-- The meeting of several cursors: none without cursors, and one cursor alone is itself. -/
def meetAll : List Cursor → Option Cursor
  | [] => none
  | [c] => some c
  | leader :: others => some (.meeting leader others)

/-- The joining of several cursors: none without cursors, and one cursor alone is itself. -/
def joinAll : List Cursor → Option Cursor
  | [] => none
  | [c] => some c
  | children => some (.joining children)

/-- All of the cursors; none if one is missing. -/
def allPresent : List (Option Cursor) → Option (List Cursor)
  | [] => some []
  | none :: _ => none
  | some c :: cs => (allPresent cs).map (c :: ·)

/-- The meeting of cursors that all have to be there. -/
def meetNodes (cs : List (Option Cursor)) : Option Cursor := (allPresent cs).bind meetAll

/-- The joining of the cursors that are there. -/
def joinNodes (cs : List (Option Cursor)) : Option Cursor := joinAll (cs.filterMap id)

/-- The cursors of an alias: the images that have it as a keyword, and those that have all of its
words as keywords. -/
def Scope.alias (s : Scope) (name : String) : List (Option Cursor) :=
  [some (Scope.postings (s.wholeKeywordRanks name)),
    meetNodes ((words name.toList).map fun w =>
      some (Scope.postings (s.wholeKeywordRanks (String.ofList w))))]

/-- The images of a person, under any of the person's names; a name that nobody has is taken as a
keyword. -/
def Scope.person (s : Scope) (name : String) : Option Cursor :=
  match s.catalog.people.lookup? name with
  | none => some (Scope.postings (s.keywordRanks name))
  | some names => joinNodes (names.flatMap s.alias)

mutual

/-- The cursor over the images that fulfil a condition. -/
def Node.open (s : Scope) : Node → Except OutOfRange (Option Cursor)
  | .absent => .ok none
  | .nothing => .ok (some (Scope.postings []))
  | .keyword k => .ok (some (Scope.postings (s.keywordRanks k)))
  | .wholeKeyword k => .ok (some (Scope.postings (s.wholeKeywordRanks k)))
  | .person name => .ok (s.person name)
  | .album rel =>
    .ok ((s.catalog.albumIndex? rel).map fun i =>
      .leaf (.contents ((s.catalog.albums[i]?.map Album.images).getD [])))
  | .albums => .ok (some (.leaf (.firsts s.catalog.albums)))
  | .year token => .ok (s.period (yearPeriod? s.offset token))
  | .yearRange token => .ok (s.period (yearRangePeriod? s.offset token))
  | .month token => .ok (s.period (monthPeriod? s.offset token))
  | .day token => (dayPeriod s.offset token).map s.period
  | .within span => .ok (s.period (some span))
  | .keywordCount token =>
    .ok ((readNat? maxCount (trim token.toList)).map fun n =>
      s.scan fun image => image.keywords.length == n)
  | .stereo => .ok (some (s.scan fun image => image.stereo.isSome))
  | .without keywords =>
    .ok (some (s.scan fun image => !(keywords.any fun k => image.hasKeyword k)))
  | .all nodes => (Node.openAll s nodes).map meetNodes
  | .any nodes => (Node.openAll s nodes).map joinNodes

/-- The cursors of several nodes. -/
def Node.openAll (s : Scope) : List Node → Except OutOfRange (List (Option Cursor))
  | [] => .ok []
  | node :: nodes => do
    let c ← node.open s
    let cs ← Node.openAll s nodes
    return c :: cs

end

end Query
end AlbumIndex
