import StructProjection.Files.Fault

/-! # File trees

A tree of files is a value. Links are part of it; they are followed when a path is resolved.
-/

namespace StructProjection.Files

/-- What a name in a folder stands for. The entries of a folder have no order. -/
inductive Entry
  | file (content : ByteArray)
  | link (target : Path)
  | folder (entries : List (Name × Entry))
  deriving Inhabited

namespace Entry

def isFolder : Entry → Bool
  | .folder _ => true
  | _ => false

/-- The entry at a location. Links are not followed. -/
def at? : Location → Entry → Option Entry
  | [], e => some e
  | n :: l, .folder es => (es.lookup n).bind (at? l)
  | _ :: _, _ => none

/-- Puts a new entry in the place of the one at a location, if there is one. -/
def replace (new : Entry) : Location → Entry → Entry
  | [], _ => new
  | n :: l, .folder es => .folder (es.map fun (m, e) => if m = n then (m, replace new l e) else (m, e))
  | _ :: _, e => e

/-- Puts an entry at a location. Folders on the way are made where they are missing. -/
def insert (new : Entry) : Location → Entry → Entry
  | [], _ => new
  | n :: l, .folder es =>
    match es.lookup n with
    | some e => .folder (es.map fun (m, f) => if m = n then (m, insert new l e) else (m, f))
    | none => .folder (es ++ [(n, insert new l (.folder []))])
  | n :: l, _ => .folder [(n, insert new l (.folder []))]

/-- Takes the entry at a location away. -/
def erase : Location → Entry → Entry
  | [], e => e
  | [n], .folder es => .folder (es.filter (·.1 ≠ n))
  | n :: l, .folder es => .folder (es.map fun (m, e) => if m = n then (m, erase l e) else (m, e))
  | _ :: _, e => e

mutual

/-- Everything below an entry that lies at a location. -/
def inside (place : Location) : Entry → List (Location × Entry)
  | .folder es => insideAll place es
  | _ => []

def insideAll (place : Location) : List (Name × Entry) → List (Location × Entry)
  | [] => []
  | (n, e) :: es => ((place ++ [n], e) :: inside (place ++ [n]) e) ++ insideAll place es

end

end Entry

/-- The content of a folder, seen from within it. -/
structure Tree where
  entries : List (Name × Entry)
  deriving Inhabited

namespace Tree

def empty : Tree := ⟨[]⟩

def root (t : Tree) : Entry := .folder t.entries

def ofRoot : Entry → Tree
  | .folder es => ⟨es⟩
  | _ => ⟨[]⟩

def at? (t : Tree) (l : Location) : Option Entry := Entry.at? l t.root

def insert (t : Tree) (l : Location) (e : Entry) : Tree := ofRoot (Entry.insert e l t.root)

def erase (t : Tree) (l : Location) : Tree := ofRoot (Entry.erase l t.root)

/-- Replaces the content of the file at a location. -/
def setContent (t : Tree) (l : Location) (content : ByteArray) : Tree :=
  match t.at? l with
  | some (.file _) => ofRoot (Entry.replace (.file content) l t.root)
  | _ => t

/-- Everything in the tree, in the order of the bytes of the paths. -/
def listing (t : Tree) : List (Path × Entry) :=
  let all := (t.root.inside []).map fun (l, e) => (Path.ofLocation l, e)
  all.mergeSort fun a b => !decide (b.1.bytes < a.1.bytes)

/-- Where a path stops that has been followed up to its end or to the next link. -/
inductive Stop
  | here (l : Location)
  | link (folder : Location) (target : Path) (rest : List Path.Step)
  | refused (r : Refusal)

/-- Takes the steps of a path from a folder. With `last`, a link at the end is followed as well. -/
def follow (t : Tree) (last : Bool) : (folder : Location) → List Path.Step → Stop
  | here, [] => .here here
  | here, .stay :: rest => follow t last here rest
  | here, .up :: rest => follow t last here.dropLast rest
  | here, .enter n :: rest =>
    match t.at? (here ++ [n]) with
    | none => .refused .notFound
    | some (.folder _) => follow t last (here ++ [n]) rest
    | some (.file _) => if rest = [] then .here (here ++ [n]) else .refused .notFolder
    | some (.link target) =>
      if rest = [] && !last then .here (here ++ [n]) else .link here target rest

def resolveFrom (t : Tree) (last : Bool) :
    (links : Nat) → Location → List Path.Step → Except Refusal Location
  | links, here, steps =>
    match follow t last here steps with
    | .here l => .ok l
    | .refused r => .error r
    | .link folder target rest =>
      match links with
      | 0 => .error .tooManyLinks
      | links + 1 =>
        if target.isAbsolute then .error .notFound
        else resolveFrom t last links folder (target.steps ++ rest)

/-- The number of links that are followed for one path. -/
def maxLinks : Nat := 40

/-- The location that a path leads to. What lies outside of the tree is not found. With `last`, a
link at the end of the path is followed. -/
def resolve (t : Tree) (p : Path) (last : Bool) : Except Refusal Location :=
  if p.bytes = [] || p.isAbsolute then .error .notFound
  else if 0 ∈ p.bytes then .error .badName
  else resolveFrom t last maxLinks [] p.steps

/-- Whether a path leads to an entry. -/
def pathExists (t : Tree) (p : Path) : Bool := (t.resolve p true).isOk

/-- Whether a path leads to a file. -/
def isFile (t : Tree) (p : Path) : Bool :=
  match t.resolve p true with
  | .ok l => match t.at? l with
    | some (.file _) => true
    | _ => false
  | .error _ => false

/-- Reads the file at a location. -/
def read (t : Tree) (a : Access) (l : Location) : Except Refusal ByteArray :=
  match t.at? l with
  | some (.file content) =>
    match a.unreadable l with
    | some r => .error r
    | none => .ok content
  | some (.folder _) => .error .isFolder
  | some (.link _) => .error .tooManyLinks
  | none => .error .notFound

/-- Replaces the content of the file at a location. A write that does not fit leaves the bytes that
did. -/
def overwrite (t : Tree) (a : Access) (l : Location) (content : ByteArray) : Tree × Option Refusal :=
  match t.at? l with
  | some (.file _) =>
    match a.unwritable l with
    | some r => (t, some r)
    | none =>
      match a.room l with
      | some n =>
        if n < content.size then (t.setContent l (content.extract 0 n), some .tooLarge)
        else (t.setContent l content, none)
      | none => (t.setContent l content, none)
  | some (.folder _) => (t, some .isFolder)
  | some (.link _) => (t, some .tooManyLinks)
  | none => (t, some .notFound)

end Tree

end StructProjection.Files
