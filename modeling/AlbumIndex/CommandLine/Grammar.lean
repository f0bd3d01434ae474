/-!
# Options and words

How the words of a command line are told apart: options with two dashes, clusters of short options
with one, their values, and everything else.  Two dashes alone end the options.  Whatever is wrong
is found at the first word that shows it.

## Main definitions

* `OptionRule` — an option and what may follow it.
* `Refusal` — why the words are not carried out.
* `Gathered`, `gather` — the options and words found.
-/

namespace AlbumIndex
namespace CommandLine

structure OptionRule where
  /-- Its name after two dashes. -/
  long : String
  /-- Its letter after one dash. -/
  short : Option Char
  /-- It is followed by a value that passes this test; a mere flag has none. -/
  value : Option (String → Bool)
  /-- It may be given more than once. -/
  repeatable : Bool

/-- Why the words of a command line are not carried out. -/
inductive Refusal where
  /-- They are wrong. -/
  | usage
  | help
  | version
deriving DecidableEq, Repr

/-- The options of a command and its words. -/
structure Rules where
  options : List OptionRule
  /-- The tests that its words have to pass, one after the other. -/
  words : List (String → Bool)
  /-- The first word names a command, to which all later words belong. -/
  hasCommands : Bool
  hasVersion : Bool

/-- The options and words found. -/
structure Gathered where
  /-- The options by their long names, a flag with an empty value. -/
  options : List (String × String)
  words : List String
  /-- The words of the command, from its name on. -/
  command : List String

namespace Gathered

/-- Nothing found yet. -/
def empty : Gathered := ⟨[], [], []⟩

def has (g : Gathered) (long : String) : Bool := g.options.any fun o => o.1 == long

/-- All values of an option, in order. -/
def values (g : Gathered) (long : String) : List String :=
  (g.options.filter fun o => o.1 == long).map Prod.snd

def value? (g : Gathered) (long : String) : Option String := (g.values long).head?

/-- One more option, which only some options may be twice. -/
def addOption (g : Gathered) (rule : OptionRule) (value : String) : Except Refusal Gathered :=
  if g.has rule.long && !rule.repeatable then .error .usage
  else if (rule.value.map fun ok => ok value).getD true then
    .ok { g with options := g.options ++ [(rule.long, value)] }
  else .error .usage

def addWord (g : Gathered) (rules : Rules) (word : String) : Except Refusal Gathered :=
  match rules.words[g.words.length]? with
  | some ok => if ok word then .ok { g with words := g.words ++ [word] } else .error .usage
  | none => .error .usage

end Gathered

/-- What a short letter or a long name stands for if it is no option of its own. -/
def Rules.standard (rules : Rules) (isHelp isVersion : Bool) : Refusal :=
  if isHelp then .help else if isVersion && rules.hasVersion then .version else .usage

/-- An option that still waits for its value. -/
abbrev Waiting := Option OptionRule

/-- The short options of a cluster, one after the other.  What follows the letter of an option with
a value is that value, possibly after an equals sign; if nothing follows, the option waits for it. -/
def gatherCluster (rules : Rules) : List Char → Gathered → Except Refusal (Gathered × Waiting)
  | [], g => .ok (g, none)
  | c :: cs, g =>
    match rules.options.find? fun r => r.short == some c with
    | none => .error (rules.standard (c == 'h') (c == 'V'))
    | some rule =>
      match rule.value with
      | none => do
        let g ← g.addOption rule ""
        gatherCluster rules cs g
      | some _ =>
        match cs with
        | [] => .ok (g, some rule)
        | '=' :: value => do return (← g.addOption rule (String.ofList value), none)
        | value => do return (← g.addOption rule (String.ofList value), none)

/-- An option with two dashes; what follows an equals sign is its value. -/
def gatherLong (rules : Rules) (cs : List Char) (g : Gathered) :
    Except Refusal (Gathered × Waiting) :=
  let name := String.ofList (cs.takeWhile (· ≠ '='))
  let attached := (cs.dropWhile (· ≠ '=')).tail?.map String.ofList
  match rules.options.find? fun r => r.long == name with
  | none => .error (if attached.isSome then .usage
      else rules.standard (name == "help") (name == "version"))
  | some rule =>
    match rule.value, attached with
    | none, none => do return (← g.addOption rule "", none)
    | none, some _ => .error .usage
    | some _, none => .ok (g, some rule)
    | some _, some value => do return (← g.addOption rule value, none)

/-- The options and words of a command line. -/
def gather (rules : Rules) : List String → Gathered → Waiting → Except Refusal Gathered
  | [], g, none => .ok g
  | [], _, some _ => .error .usage
  | arg :: args, g, some rule =>
    -- A single dash is a value like any other.
    if arg.toList.head? == some '-' && arg != "-" then .error .usage
    else do
      let g ← g.addOption rule arg
      gather rules args g none
  | arg :: args, g, none =>
    match arg.toList with
    | ['-', '-'] => args.foldlM (fun g word => g.addWord rules word) g
    | '-' :: '-' :: cs => do
      let (g, waiting) ← gatherLong rules cs g
      gather rules args g waiting
    | '-' :: c :: cs => do
      let (g, waiting) ← gatherCluster rules (c :: cs) g
      gather rules args g waiting
    | _ =>
      if rules.hasCommands then .ok { g with command := arg :: args }
      else do
        let g ← g.addWord rules arg
        gather rules args g none

end CommandLine
end AlbumIndex
