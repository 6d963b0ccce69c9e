import StructProjection.Event
import StructProjection.Files.Walk

/-! # Selecting the files of a batch

The generated files are those whose names end with the suffix of the settings. Of these some are
excluded.
-/

namespace StructProjection

open Files

/-- A generated file, and whether it is to be projected. -/
inductive Verdict
  | project
  | exclude
  /-- Its name does not end with the suffix. -/
  | ignore
  /-- Its name is no text. -/
  | skip
  deriving DecidableEq, Repr

/-- The generated files under a root, in the order of the walk. -/
structure Selection where
  files : List Found
  excluded : List Found
  deriving DecidableEq, Repr

namespace Settings

def verdict (s : Settings) (name : Name) : Verdict :=
  match name.text? with
  | none => .skip
  | some n =>
    if !endsWith n s.suffix then .ignore else if s.exclusions.excludes n then .exclude else .project

end Settings

namespace Selection

/-- Sorts out the files that a walk has met. -/
def ofFound (s : Settings) (found : List Found) : Selection :=
  { files := found.filter fun f => s.verdict f.name = .project
    excluded := found.filter fun f => s.verdict f.name = .exclude }

def eventOf (s : Settings) (f : Found) : Option Event :=
  match s.verdict f.name with
  | .skip => some (.nameIsNoText f.path)
  | .exclude => some (.excluded f.path)
  | .project | .ignore => none

def events (s : Settings) (found : List Found) : List Event := found.filterMap (eventOf s)

end Selection

/-- The files that a walk from a root meets. -/
def findFiles (t : Tree) (root : Path) : Except Failure (List Found) :=
  match t.walk root with
  | .ok found => .ok found
  | .error r => .error (.listing root r)

/-- Selects the generated files under a root. -/
def select (t : Tree) (root : Path) (s : Settings) : Except Failure Selection :=
  (findFiles t root).map (Selection.ofFound s)

end StructProjection
