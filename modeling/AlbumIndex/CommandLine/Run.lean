import AlbumIndex.CommandLine.Command
import AlbumIndex.Library
import AlbumIndex.Report

/-!
# Carrying out commands

A command looks at the disk, possibly changes it, and writes to its two outputs: answers to the
first, and messages in colour to the second.  The time of day is given to it, so the same words on
the same disk always come out the same.

## Main definitions

* `Outcome` — the exit code, the two outputs, and the disk afterwards.
* `run` — the outcome of the words of a command line.
-/

namespace AlbumIndex
namespace CommandLine

open Calendar Disk Text Number

/-! ### Outcomes -/

/-- What a command comes to. -/
structure Outcome where
  /-- 0 if all went well, 1 after a failure, 2 if the words were wrong. -/
  exit : Nat
  out : String
  err : String
  tree : FileTree

/-- A text in a colour of the terminal. -/
def coloured (code : Nat) (text : String) : String :=
  "\x1b[" ++ toString code ++ "m" ++ text ++ "\x1b[39m"

/-- A message on lines of its own, with space around it. -/
def apart (text : String) : String := "\n" ++ text ++ "\n\n"

/-- A warning, in yellow. -/
def warning (text : String) : String := apart (coloured 33 text)

/-- A failure, in red. -/
def failureText (text : String) : String := apart (coloured 31 ("Error: " ++ text))

/-- A success, in green. -/
def successText (text : String) : String := coloured 32 text ++ "\n"

/-- A command that went well and wrote an answer. -/
def Outcome.answer (tree : FileTree) (out : String) : Outcome := ⟨0, out, "", tree⟩

def Outcome.failed (tree : FileTree) (text : String) : Outcome := ⟨1, "", failureText text, tree⟩

def lineTexts (lines : List String) : String := String.join (lines.map (· ++ "\n"))

/-! ### Failures -/

/-- The words for a failure of the configuration and for its cause. -/
def configFailure (e : ConfigError) : String :=
  e.message ++ ((e.cause?.map fun c => ": " ++ c.message).getD "")

/-- The words for a failed load and for its cause. -/
def loadFailure : LoadError → String
  | .cannotReadOriginals path cause =>
    (LoadError.cannotReadOriginals path cause).message ++ ": " ++ cause.message
  | e => e.message

/-! ### Texts of answers -/

/-- A text with spaces before it, up to a width. -/
def padLeft (width : Nat) (text : String) : String :=
  String.ofList (List.replicate (width - text.length) ' ') ++ text

def numberText (n : Int) : String := String.ofList (intDigits n)

/-- Several texts with a comma and a space between them. -/
def commaList (texts : List String) : String := String.intercalate ", " texts

/-- How 32-bit numbers are shown: always in full, whole ones without a point. -/
def plainFloat : Layout := ⟨.away, none, none, false, "NaN", "inf"⟩

/-- JSON in one of the two layouts. -/
def jsonText (pretty : Bool) (v : Json) : String := if pretty then v.pretty else v.compact

def resultLine (r : ImageRef) : String :=
  padLeft 10 (numberText r.image.id.toNat) ++ "  " ++ r.image.itemTime.minute ++ "  " ++
    r.path ++ "  [" ++ commaList r.image.keywords ++ "]"

/-- The line of a keyword in the list of recent ones. -/
def recentLine (r : RecentKeyword) : String :=
  padLeft 5 (numberText r.count) ++ "  " ++ r.keyword ++ "  (" ++
    commaList (r.images.map Image.name) ++ ")"

def stereoLine (s : Stereo) : String :=
  "Stereo:     dx=" ++ plainFloat.write s.dx ++ " dy=" ++ plainFloat.write s.dy ++
    " ana_dx=" ++ plainFloat.write s.anaDx ++ " ana_dy=" ++ plainFloat.write s.anaDy

/-- All about an image, a line for each thing. -/
def imageLines (r : ImageRef) : List String :=
  ["Id:         " ++ numberText r.image.id.toNat,
    "Rank:       " ++ numberText r.image.rank,
    "Album:      " ++ r.album.rel,
    "Name:       " ++ r.image.name,
    "Keywords:   " ++ commaList r.image.keywords] ++
  (if r.image.subKeywords.isEmpty then [] else ["Words:      " ++ commaList r.image.subKeywords]) ++
  ["Taken:      " ++ r.image.itemTime.stampWithOffset,
    "Modified:   " ++ r.image.fileTime.stampWithOffset] ++
  (if r.image.rotation = 0 then [] else ["Rotation:   " ++ numberText r.image.rotation.toInt]) ++
  (r.image.stereo.map stereoLine).toList

/-- The size of a library, a line for each thing. -/
def statsLines (c : Catalog) : List String :=
  ["photoidx Index Statistics",
    "=========================",
    "Albums:         " ++ numberText c.albums.length,
    "Images:         " ++ numberText c.imageCount,
    "Keywords:       " ++ numberText c.index.keywordCount,
    "People:         " ++ numberText c.people.size]

/-! ### Commands -/

/-- A first configuration file for a library. -/
def runInit (tree : FileTree) (root : FilePath) : Outcome :=
  match Config.writeDefault tree root with
  | (tree, .ok true) => ⟨0, "", successText ("Wrote " ++ (root.join Config.fileName).text), tree⟩
  | (tree, .ok false) => ⟨0, "", warning "config.toml already exists; left unchanged.", tree⟩
  | (tree, .error e) => .failed tree (configFailure e)

/-- A library that no metadata reader is installed for. -/
def libraryOf (config : Config) : Library := Library.new config Extractor.fileTime none

/-- The library loaded with the given options, and what is done with it then. -/
def withLibrary (tree : FileTree) (config : Config) (opts : LoadOptions)
    (k : Library → LoadReport → FileTree → Outcome) : Outcome :=
  match (libraryOf config).load opts tree with
  | .ok (lib, report, tree) => k lib report tree
  | .error e => .failed tree (loadFailure e)

/-- A load; the milliseconds that it took are told in the end. -/
def runLoad (tree : FileTree) (config : Config) (elapsed : Nat) (force noUpdateDisk quiet : Bool) :
    Outcome :=
  let opts : LoadOptions :=
    { updateDisk := config.loader.updateDisk && !noUpdateDisk
      minify := config.loader.minify
      force := config.loader.forceReload || force }
  withLibrary tree config opts fun _ report tree =>
    let s := report.stats
    if quiet then .answer tree ""
    else
      { exit := 0
        out := "Loaded " ++ numberText s.albums ++ " albums, " ++ numberText s.images ++
          " images (" ++ numberText s.rebuilt ++ " rebuilt, " ++ numberText s.failed ++
          " skipped) in " ++ numberText elapsed ++ " ms\n"
        err := if s.failed = 0 then ""
          else warning (numberText s.failed ++
            " directories could not be listed; run with -v for details.")
        tree }

/-- The first so many of a list, or all. -/
def limited {α : Type} (limit : Option Nat) (items : List α) : List α :=
  match limit with
  | some n => items.take n
  | none => items

/-- The options of a search on the command line. -/
def queryOptions (config : Config) (synonyms : Bool) (exclude : List String) (literalFirst : Bool) :
    Query.Options :=
  let opts := { config.query.options with expandPeople := synonyms, exclude }
  if literalFirst then { opts with mode := .priority } else opts

def showResults (tree : FileTree) (json pretty : Bool) (results : List ImageRef) : Outcome :=
  if json then .answer tree (jsonText pretty (.arr (results.map ImageRef.json)) ++ "\n")
  else if results.isEmpty then ⟨0, "", warning "No images matched.", tree⟩
  else .answer tree (lineTexts (results.map resultLine))

def runQuery (tree : FileTree) (config : Config) (text : String) (json pretty : Bool)
    (limit : Option Nat) (opts : Query.Options) : Outcome :=
  withLibrary tree config config.loader.options fun lib _ tree =>
    match lib.query text opts with
    | .ok search => showResults tree json pretty (limited limit search.results)
    | .error e => .failed tree (loadFailure (.outOfRange e.seconds))

/-- The keywords that contain a text. -/
def runKeywords (tree : FileTree) (config : Config) (pattern : String) (limit : Option Nat)
    (noSubKeywords : Bool) : Outcome :=
  withLibrary tree config config.loader.options fun lib _ tree =>
    .answer tree (lineTexts (limited limit
      (lib.current.index.matchingKeywords pattern !noSubKeywords)))

def runImage (tree : FileTree) (config : Config) (id : ImageId) (json : Bool) : Outcome :=
  withLibrary tree config config.loader.options fun lib _ tree =>
    match (lib.current.index.rankOf? id).bind lib.current.ref? with
    | none => .failed tree ("No image with id " ++ numberText id.toNat)
    | some r =>
      if json then .answer tree (r.image.json.pretty ++ "\n")
      else .answer tree (lineTexts (imageLines r))

/-- The keywords in recent use. -/
def runRecent (tree : FileTree) (config : Config) (now : Instant) (json pretty : Bool) : Outcome :=
  withLibrary tree config config.loader.options fun lib _ tree =>
    match lib.current.recentKeywords now with
    | .error e => .failed tree (loadFailure (.outOfRange e.seconds))
    | .ok recent =>
      if json then .answer tree (jsonText pretty (.arr (recent.map RecentKeyword.json)) ++ "\n")
      else if recent.isEmpty then
        ⟨0, "", apart "No album was modified during the last month.", tree⟩
      else .answer tree (lineTexts (recent.map recentLine))

/-- The size of the library. -/
def runStats (tree : FileTree) (config : Config) (keywords : Bool) : Outcome :=
  withLibrary tree config config.loader.options fun lib _ tree =>
    .answer tree (lineTexts (statsLines lib.current) ++
      (if keywords then "\n" ++ lib.current.index.summary else ""))

/-! ### Command lines -/

def versionText : String := "photoidx 0.3.0\n"

/-- What is shown to whoever asks for help. -/
def helpText : String :=
"Usage: photoidx [-v] [--root DIR] [--config FILE] COMMAND

Commands:
  init
  load [-f] [--no-update-disk] [-q]
  query TEXT [--json] [--pretty] [-l N] [--synonyms] [--exclude KEYWORD] [--compat-subkeywords]
  keywords PATTERN [-l N] [--no-subkeywords]
  image ID [--json]
  recent [--json] [--pretty]
  stats [--keywords]
"

/-- A command carried out. -/
def Invocation.run (i : Invocation) (now : Instant) (elapsed : Nat) (tree : FileTree) : Outcome :=
  match i.command with
  | .init => runInit tree i.root
  | command =>
    match Config.load tree i.root i.config with
    | .error e => .failed tree ("Failed to load configuration: " ++ configFailure e)
    | .ok config =>
      match command with
      | .init => runInit tree i.root
      | .load force noUpdateDisk quiet => runLoad tree config elapsed force noUpdateDisk quiet
      | .query text json pretty limit synonyms exclude literalFirst =>
        runQuery tree config text json pretty limit
          (queryOptions config synonyms exclude literalFirst)
      | .keywords pattern limit noSubKeywords => runKeywords tree config pattern limit noSubKeywords
      | .image id json => runImage tree config id json
      | .recent json pretty => runRecent tree config now json pretty
      | .stats keywords => runStats tree config keywords

/-- The outcome of the words of a command line, at the given time, if the work takes so many
milliseconds. -/
def run (args : List String) (now : Instant) (elapsed : Nat) (tree : FileTree) : Outcome :=
  match Invocation.read args with
  | .error .usage => ⟨2, "", helpText, tree⟩
  | .error .help => .answer tree helpText
  | .error .version => .answer tree versionText
  | .ok i => i.run now elapsed tree

end CommandLine
end AlbumIndex
