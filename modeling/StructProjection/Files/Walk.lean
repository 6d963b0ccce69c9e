import StructProjection.Files.Tree

/-! # Walking through a folder

A walk meets the regular files in a folder and in the folders in it, the entries of each folder in
the order of the bytes of their names. Links are not followed.
-/

namespace StructProjection.Files

/-- A regular file that a walk has met. -/
structure Found where
  path : Path
  location : Location
  name : Name
  deriving DecidableEq, Repr

def inOrder (found : List (Name × List Found)) : List Found :=
  (found.mergeSort fun a b => !decide (b.1 < a.1)).flatMap (·.2)

namespace Entry

mutual

/-- The files of an entry that has the given name. -/
def files (path : Path) (place : Location) (name : Name) : Entry → List Found
  | .file _ => [⟨path, place, name⟩]
  | .link _ => []
  | .folder es => inOrder (filesOf path place es)

/-- The files of each entry of a folder. -/
def filesOf (path : Path) (place : Location) : List (Name × Entry) → List (Name × List Found)
  | [] => []
  | (n, e) :: es => (n, files (path.join n) (place ++ [n]) n e) :: filesOf path place es

end

end Entry

namespace Tree

/-- The files at a path or below it. A link at the end of the path is followed to a folder only. -/
def walk (t : Tree) (p : Path) : Except Refusal (List Found) := do
  let here ← t.resolve p false
  match t.at? here with
  | none => .error .notFound
  | some (.link _) =>
    let there ← t.resolve p true
    match t.at? there with
    | some (.folder es) => return Entry.files p there p.fileName (.folder es)
    | _ => return []
  | some e => return Entry.files p here p.fileName e

end Tree

end StructProjection.Files
