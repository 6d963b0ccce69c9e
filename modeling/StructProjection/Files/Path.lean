import StructProjection.Text.Utf8

/-! # Paths

Names of files are bytes, which need not be text.
-/

namespace StructProjection.Files

/-- The name of an entry of a folder. -/
abbrev Name := List UInt8

def Name.ofString (s : String) : Name := s.toUTF8.toList

/-- The name as text, if it is one. -/
def Name.text? (n : Name) : Option String := String.fromUTF8? ⟨n.toArray⟩

/-- Where an entry lies in a tree: the names on the way to it. -/
abbrev Location := List Name

/-- A path as it is written. -/
structure Path where
  bytes : List UInt8
  deriving DecidableEq, Repr

namespace Path

def slash : UInt8 := 0x2F

def dot : UInt8 := 0x2E

def ofString (s : String) : Path := ⟨s.toUTF8.toList⟩

/-- The path as text; bytes that are no text are replaced. -/
def render (p : Path) : String := String.ofList (Text.decodeLossy p.bytes)

def isAbsolute (p : Path) : Bool := p.bytes.head? = some slash

/-- A path within a path. -/
def join (p : Path) (n : Name) : Path :=
  if p.bytes = [] || p.bytes.getLast? = some slash then ⟨p.bytes ++ n⟩
  else ⟨p.bytes ++ slash :: n⟩

def splitAtSlash : List UInt8 → Name × List Name
  | [] => ([], [])
  | b :: bs =>
    let (n, ns) := splitAtSlash bs
    if b = slash then ([], n :: ns) else (b :: n, ns)

/-- A step of a path from a folder. -/
inductive Step
  | stay
  | up
  | enter (name : Name)
  deriving DecidableEq, Repr

def stepOf (n : Name) : Step :=
  if n = [] || n = [dot] then .stay else if n = [dot, dot] then .up else .enter n

/-- The steps of a path. One that ends with a slash ends with a stay: it names a folder. -/
def steps (p : Path) : List Step :=
  match splitAtSlash p.bytes with
  | (n, ns) => (n :: ns).map stepOf

/-- The name of what a path leads to, where its last step enters it. -/
def fileName (p : Path) : Name :=
  match splitAtSlash p.bytes with
  | (n, ns) => ns.getLast?.getD n

private theorem eq_of_stepOf {m n : Name} (h : stepOf m = .enter n) : m = n := by
  unfold stepOf at h
  split at h
  · simp at h
  · split at h
    · simp at h
    · exact Step.enter.inj h

theorem fileName_of_getLast?_steps {p : Path} {n : Name}
    (h : p.steps.getLast? = some (.enter n)) : p.fileName = n := by
  unfold steps at h
  unfold fileName
  generalize splitAtSlash p.bytes = parts at h ⊢
  rw [List.getLast?_map, List.getLast?_cons, Option.map_some, Option.some.injEq] at h
  exact eq_of_stepOf h

/-- The path of a location, from the root of its tree. -/
def ofLocation (l : Location) : Path := ⟨[slash].intercalate l⟩

end Path

end StructProjection.Files
