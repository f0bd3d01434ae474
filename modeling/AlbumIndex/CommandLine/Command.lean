import AlbumIndex.CommandLine.Grammar
import AlbumIndex.Disk.FilePath
import AlbumIndex.Image
import AlbumIndex.Text.Numeral

/-!
# Commands

What can be asked for on the command line, and the options of each command.

## Main definitions

* `Command`, `Invocation` — what is asked for, and for which library.
* `Invocation.read` — what the words of a command line ask for.
-/

namespace AlbumIndex
namespace CommandLine

open Disk Text

inductive Command where
  /-- A first configuration file. -/
  | init
  | load (force noUpdateDisk quiet : Bool)
  | query (text : String) (json pretty : Bool) (limit : Option Nat) (synonyms : Bool)
      (exclude : List String) (literalFirst : Bool)
  /-- The keywords that contain a text. -/
  | keywords (pattern : String) (limit : Option Nat) (noSubKeywords : Bool)
  | image (id : ImageId) (json : Bool)
  /-- The keywords in recent use. -/
  | recent (json pretty : Bool)
  /-- The size of the library. -/
  | stats (keywords : Bool)
deriving DecidableEq

/-- What is asked for, and for which library. -/
structure Invocation where
  root : FilePath
  /-- The configuration file, if it is not the one in the root. -/
  config : Option FilePath
  command : Command
deriving DecidableEq

/-! ### Values -/

/-- A number of things. -/
def readCount? (s : String) : Option Nat := readNat? (UInt64.size - 1) s.toList

def readId? (s : String) : Option ImageId :=
  (readInt? 0 (UInt32.size - 1) s.toList).map fun n => UInt32.ofNat n.toNat

/-- Any text will do. -/
def anyText (_ : String) : Bool := true

def isPath (s : String) : Bool := !s.isEmpty

/-- A number of things is wanted. -/
def isCount (s : String) : Bool := (readCount? s).isSome

/-- The identity of an image is wanted. -/
def isId (s : String) : Bool := (readId? s).isSome

/-! ### Rules -/

/-- A flag with a long name only. -/
def flag (long : String) : OptionRule := ⟨long, none, none, false⟩

def shortFlag (long : String) (short : Char) : OptionRule := ⟨long, some short, none, false⟩

/-- At most so many results. -/
def limitOption : OptionRule := ⟨"limit", some 'l', some isCount, false⟩

/-- The options before the name of a command. -/
def mainRules : Rules :=
  { options := [⟨"verbose", some 'v', none, true⟩, ⟨"root", none, some isPath, false⟩,
      ⟨"config", none, some isPath, false⟩]
    words := []
    hasCommands := true
    hasVersion := true }

/-- The rules of a command with the given options and words. -/
def commandRules (options : List OptionRule) (words : List (String → Bool)) : Rules :=
  ⟨options, words, false, false⟩

/-- The options and words of a command, all words being there. -/
def gatherCommand (rules : Rules) (args : List String) : Except Refusal Gathered := do
  let g ← gather rules args .empty none
  if g.words.length < rules.words.length then throw .usage
  return g

def Gathered.limit (g : Gathered) : Option Nat := (g.value? "limit").bind readCount?

def Gathered.word (g : Gathered) : String := g.words.headD ""

/-- The names that a command line can call, `help` among them. -/
def commandNames : List String :=
  ["init", "load", "query", "keywords", "image", "recent", "stats", "help"]

/-- Help may be asked for in general or about one command.  No command has commands of its own, so
a further word is wrong, and so is an option. -/
def readHelp : List String → Refusal
  | [] => .help
  | [name] => if name ∈ commandNames then .help else .usage
  | _ => .usage

/-- What the name of a command and the words after it ask for. -/
def Command.read (name : String) (args : List String) : Except Refusal Command := do
  if name = "init" then
    let _ ← gatherCommand (commandRules [] []) args
    return .init
  else if name = "load" then
    let g ← gatherCommand (commandRules
      [shortFlag "force" 'f', flag "no-update-disk", shortFlag "quiet" 'q'] []) args
    return .load (g.has "force") (g.has "no-update-disk") (g.has "quiet")
  else if name = "query" then
    let g ← gatherCommand (commandRules
      [flag "json", flag "pretty", limitOption, flag "synonyms",
        ⟨"exclude", none, some anyText, true⟩, flag "compat-subkeywords"] [anyText]) args
    return .query g.word (g.has "json") (g.has "pretty") g.limit (g.has "synonyms")
      (g.values "exclude") (g.has "compat-subkeywords")
  else if name = "keywords" then
    let g ← gatherCommand (commandRules [limitOption, flag "no-subkeywords"] [anyText]) args
    return .keywords g.word g.limit (g.has "no-subkeywords")
  else if name = "image" then
    let g ← gatherCommand (commandRules [flag "json"] [isId]) args
    return .image ((readId? g.word).getD 0) (g.has "json")
  else if name = "recent" then
    let g ← gatherCommand (commandRules [flag "json", flag "pretty"] []) args
    return .recent (g.has "json") (g.has "pretty")
  else if name = "stats" then
    let g ← gatherCommand (commandRules [flag "keywords"] []) args
    return .stats (g.has "keywords")
  else if name = "help" then throw (readHelp args)
  else throw .usage

/-- What the words of a command line ask for. -/
def Invocation.read (args : List String) : Except Refusal Invocation := do
  let g ← gather mainRules args .empty none
  match g.command with
  | [] => throw .usage
  | name :: rest =>
    let command ← Command.read name rest
    return { root := ⟨(g.value? "root").getD "."⟩
             config := (g.value? "config").map FilePath.mk
             command }

end CommandLine
end AlbumIndex
