import Std.Time.Format
import Std.Time.Zoned
import StructProjection.Command.Run

/-! # The program

The command works on the files of the working folder, which are read before it runs. What it has
changed is written when it has ended.
-/

namespace StructProjection.Program

open Files

/-- A link at the given depth, to what lies at `target`. -/
def linkTo (home : String) (depth : Nat) (target : String) : Entry :=
  let inner := target.toList.drop home.length
  if home.toList.isPrefixOf target.toList && (inner = [] || inner.head? = some '/') then
    let up := String.join (List.replicate depth "../")
    .link (.ofString (up ++ String.ofList (inner.drop 1)))
  else .link (.ofString target)

/-- The place that a link leads to, or a place outside of every working folder. -/
def targetOf (path : String) : IO String := do
  try return (← IO.FS.realPath path).toString
  catch _ => return "/"

/-- Reads what is in a folder. Only files, folders and links are looked at. -/
partial def readFolder (home folder : String) (depth : Nat) : IO (List (Name × Entry)) := do
  let mut entries := []
  for e in ← (← IO.FS.realPath folder).readDir do
    let path := folder ++ "/" ++ e.fileName
    let entry? ← match (← e.path.symlinkMetadata).type with
      | .dir => do pure (some (Entry.folder (← readFolder home path (depth + 1))))
      | .symlink => do pure (some (linkTo home depth (← targetOf path)))
      | .file => do pure (some (Entry.file (← IO.FS.readBinFile path)))
      | .other => pure none
    if let some entry := entry? then
      entries := (Name.ofString e.fileName, entry) :: entries
  return entries

/-- Writes what differs between two states of the working folder. -/
def writeChanges (before after : Tree) : IO Unit := do
  for (l, e) in after.root.inside [] do
    let path := (Path.ofLocation l).render
    match e, before.at? l with
    | .file content, some (.file old) => if content.data ≠ old.data then IO.FS.writeBinFile path content
    | .file content, _ => IO.FS.writeBinFile path content
    | .folder _, none => IO.FS.createDirAll path
    | _, _ => pure ()
  for (l, e) in before.root.inside [] do
    if after.at? l |>.isNone then
      if let .file _ := e then IO.FS.removeFile (Path.ofLocation l).render

def run (args : List String) : IO UInt32 := do
  let home := (← IO.FS.realPath ".").toString
  let tree : Tree := ⟨← readFolder home home 0⟩
  let call : Command.Call :=
    { arguments := args
      config := ← IO.getEnv "PROTOSLIM_CONFIG"
      filter := ← IO.getEnv "RUST_LOG"
      folder := .ofString home
      access := .free }
  let response := Command.run call tree
  writeChanges tree response.tree
  let time := (← Std.Time.PlainDateTime.now).toDateTimeString
  for line in response.lines do
    IO.println (line.render time)
  IO.eprint response.errors
  return UInt32.ofNat response.code

end StructProjection.Program

def main (args : List String) : IO UInt32 := StructProjection.Program.run args
