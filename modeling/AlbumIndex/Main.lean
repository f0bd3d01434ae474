import AlbumIndex.CommandLine.Run
import Std.Time.DateTime.Timestamp

/-!
# The program

The outer layer: it looks at the parts of the disk that the words of the command line are about,
carries them out, and writes back what has changed.
-/

namespace AlbumIndex
namespace CommandLine

open Calendar Disk

/-- The place of a path as it is written, seen from a folder. -/
def placeFrom (current : Place) (p : FilePath) : Place :=
  p.steps.foldl (fun place step =>
    match step with
    | .here => place
    | .up => place.dropLast
    | .into name => place ++ [.text name]) (if p.isAbsolute then [] else current)

/-- The path of a place from the root of the disk. -/
def pathOf (place : Place) : String :=
  "/" ++ String.intercalate "/" (place.map fun
    | .text s => s
    | .raw _ => "")

/-- A moment of the system's clock. -/
def instantOf (t : IO.FS.SystemTime) : Instant := ⟨t.sec, t.nsec.toNat⟩

/-- The nodes at a place and below it, the bytes of files only where they are wanted, so many
folders deep. -/
partial def scan (wanted : String → Bool) (depth : Nat) (place : Place) :
    IO (List (Place × FileNode)) := do
  let name := pathOf place
  try
    let path ← IO.FS.realPath name
    let info ← path.metadata
    let modified := instantOf info.modified
    match info.type with
    | .file =>
      let bytes ← if wanted name then pure (← IO.FS.readBinFile path).data.toList else pure []
      return [(place, .file bytes modified)]
    | .dir =>
      if depth = 0 then return [(place, .device modified)]
      try
        let entries ← path.readDir
        let below ← entries.toList.mapM fun e =>
          scan wanted (depth - 1) (place ++ [.text e.fileName])
        return (place, .folder modified) :: below.flatten
      catch _ => return [(place, .device modified)]
    | _ => return [(place, .device modified)]
  catch _ => return []

/-- The folders on the way to a place. -/
def around (place : Place) : IO (List (Place × FileNode)) := do
  let places := (List.range place.length).map fun n => place.take n
  let found ← places.mapM fun p => scan (fun _ => false) 1 p
  return (found.filterMap fun nodes => nodes.head?).filter fun (_, node) =>
    match node with
    | .link _ => false
    | _ => true

/-- A tree with the nodes at a place, below it, and on the way to it. -/
def withPlace (wanted : String → Bool) (depth : Nat) (t : FileTree) (place : Place) :
    IO FileTree := do
  let nodes ← around place
  let below ← scan wanted depth place
  return (nodes ++ below).foldl (fun t (p, node) => t.put p node) t

/-- The most folders below one another that are looked at. -/
def scanDepth : Nat := 64

/-- The parts of the disk that the words are about. -/
def gatherTree (i : Invocation) (t : FileTree) : IO FileTree := do
  let file := i.config.getD (i.root.join Config.fileName)
  let t ← withPlace (fun _ => true) 1 t (placeFrom t.current file)
  match Config.load t i.root i.config with
  | .error _ => return t
  | .ok config =>
    let t ← withPlace (fun _ => false) scanDepth t (placeFrom t.current config.originals)
    let t ← withPlace (fun _ => true) scanDepth t (placeFrom t.current config.indexFolder)
    withPlace (fun _ => true) 1 t
      (placeFrom t.current (config.staticFolder.join Library.aliasesName))

/-- Writes the nodes that were not there before. -/
def writeBack (before after : FileTree) : IO Unit := do
  for (place, node) in after.nodes do
    if before.node? place != some node then
      match node with
      | .folder _ => IO.FS.createDirAll (pathOf place)
      | .file bytes _ => IO.FS.writeBinFile (pathOf place) ⟨bytes.toArray⟩
      | _ => pure ()

def startFolder : IO Place := do
  let here ← IO.currentDir
  return placeFrom [] ⟨here.toString⟩

/-- Carries out the words of the command line. -/
def start (args : List String) : IO UInt32 := do
  let begun ← IO.monoMsNow
  let now : Instant := .ofSeconds (← Std.Time.Timestamp.now).toSecondsSinceUnixEpoch.val
  let current ← startFolder
  let tree ← match Invocation.read args with
    | .ok i => gatherTree i (FileTree.ofCurrent current now)
    | .error _ => pure (FileTree.ofCurrent current now)
  let elapsed := (← IO.monoMsNow) - begun
  let outcome := run args now elapsed tree
  writeBack tree outcome.tree
  IO.print outcome.out
  IO.eprint outcome.err
  return UInt32.ofNat outcome.exit

end CommandLine
end AlbumIndex

def main (args : List String) : IO UInt32 := AlbumIndex.CommandLine.start args
