import StructProjection.Go.Grammar
import StructProjection.Go.Outline
import StructProjection.Go.Plain.Token

/-! # Plain files

A plain file holds a package clause, imports and simple types, as most generated and all projected
files do. Its outline is read without the tables of the grammar, and is the same as with them.
-/

namespace StructProjection.Go.Plain

open StructProjection.Text

/-- Words that cannot be names everywhere. -/
private def takenWords : List String :=
  reserved ++ ["_", "nil", "true", "false", "iota", "new", "make"]

def isName (name : String) : Bool := name ∉ takenWords

/-- The tokens behind comments. -/
def skipComments (ps : List Piece) : List Piece := ps.dropWhile (·.token = .comment)

/-- The tokens behind comments and line ends. -/
def skipLines (ps : List Piece) : List Piece :=
  ps.dropWhile fun p => p.token = .comment || p.token = .lineEnd

/-- A type that has been read: its shape, where it ends, and what follows. It is single if it has no
element type. -/
structure TypeEnd where
  shape : Shape
  single : Bool
  stop : Place
  rest : List Piece
  deriving DecidableEq, Repr

/-- A field can be followed by text. -/
def skipTag (ps : List Piece) : List Piece :=
  match skipComments ps with
  | ⟨.quoted, _, _⟩ :: rest => skipComments rest
  | rest => rest

mutual

def typeFrom : (fuel : Nat) → List Piece → Option TypeEnd
  | 0, _ => none
  | fuel + 1, ps =>
    match skipComments ps with
    | ⟨.mark '(', _, _⟩ :: rest => do
      let inner ← typeFrom fuel rest
      match skipComments inner.rest with
      | ⟨.mark ')', _, close⟩ :: after =>
        -- What comes first in parentheses gives the shape.
        let startsWithComment := rest.head?.any (·.token = .comment)
        return ⟨if startsWithComment then .other else inner.shape, true, close, after⟩
      | _ => none
    | ⟨.mark '*', _, _⟩ :: rest => do
      return { ← typeFrom fuel rest with shape := .other, single := false }
    | ⟨.mark '[', _, _⟩ :: ⟨.mark ']', _, _⟩ :: rest => do
      return { ← typeFrom fuel rest with shape := .other, single := false }
    | ⟨.word name, _, stop⟩ :: rest =>
      match name, rest with
      | "struct", ⟨.mark '{', _, _⟩ :: rest => fieldsFrom fuel rest
      | "interface", ⟨.mark '{', _, _⟩ :: ⟨.mark '}', _, close⟩ :: rest =>
        some ⟨.interface, true, close, rest⟩
      | name, ⟨.mark '.', _, _⟩ :: ⟨.word member, _, last⟩ :: rest =>
        if isName name && isName member then some ⟨.other, true, last, rest⟩ else none
      | name, rest => if isName name then some ⟨.other, true, stop, rest⟩ else none
    | _ => none

/-- Fields up to the closing brace. Each has a name and a type and ends with its line, with a
semicolon or before the brace. -/
def fieldsFrom : (fuel : Nat) → List Piece → Option TypeEnd
  | 0, _ => none
  | fuel + 1, ps =>
    match skipLines ps with
    | ⟨.mark '}', _, close⟩ :: rest => some ⟨.struct, true, close, rest⟩
    | ⟨.word name, _, _⟩ :: rest => do
      if !isName name then none
      let field ← typeFrom fuel rest
      match skipTag field.rest with
      | ⟨.lineEnd, _, _⟩ :: rest | ⟨.mark ';', _, _⟩ :: rest => fieldsFrom fuel rest
      | ⟨.mark '}', _, close⟩ :: rest => return ⟨.struct, true, close, rest⟩
      | _ => none
    | _ => none

end

/-- A path that is imported, under a name or not: where it ends, and what follows. -/
def importPath (ps : List Piece) : Option (Place × List Piece) :=
  match skipComments ps with
  | ⟨.quoted, _, stop⟩ :: rest => some (stop, rest)
  | ⟨.word name, _, _⟩ :: ps =>
    match skipComments ps with
    | ⟨.quoted, _, stop⟩ :: rest => if isName name then some (stop, rest) else none
    | _ => none
  | _ => none

/-- Imports up to the closing parenthesis, each on a line of its own. -/
def importGroup : (fuel : Nat) → List Piece → Option (Place × List Piece)
  | 0, _ => none
  | fuel + 1, ps =>
    match skipLines ps with
    | ⟨.mark ')', _, close⟩ :: rest => some (close, rest)
    | ps => do
      let (_, rest) ← importPath ps
      match skipComments rest with
      | ⟨.lineEnd, _, _⟩ :: rest => importGroup fuel rest
      | _ => none

def itemOf (construct : Construct) (start stop : Place) : Item :=
  ⟨construct, start, stop, none, []⟩

/-- What the next construct of a file follows, comments apart. -/
inductive Before
  | nothing
  | header
  | type (single : Bool)
  deriving DecidableEq, Repr

namespace Before

def allowsImport : Before → (ended : Bool) → Bool
  | .header, ended => ended
  | _, _ => false

/-- A type may follow a single type on its line. -/
def allowsType : Before → (ended : Bool) → Bool
  | .nothing, _ => false
  | .header, ended => ended
  | .type single, ended => ended || single

def allowsEnd : Before → (ended : Bool) → Bool
  | .nothing, _ => false
  | .header, _ => true
  | .type single, ended => ended || single

end Before

/-- The constructs of a file; `ended` tells whether the last has been ended by a line end or a
semicolon. -/
def itemsFrom : (fuel : Nat) → Before → (ended : Bool) → List Piece → Option (List Item)
  | _, before, ended, [] => if before.allowsEnd ended then some [] else none
  | 0, _, _, _ :: _ => none
  | fuel + 1, before, ended, ⟨token, start, stop⟩ :: ps =>
    match token with
    | .comment => do return itemOf .comment start stop :: (← itemsFrom fuel before ended ps)
    | .lineEnd => itemsFrom fuel before true ps
    | .mark ';' => if ended then none else itemsFrom fuel before true ps
    | .word "package" =>
      match before, skipComments ps with
      | .nothing, ⟨.word name, _, stop⟩ :: rest => do
        if !isName name then none
        let more ← itemsFrom fuel .header false rest
        return itemOf .packageClause start stop :: more
      | _, _ => none
    | .word "import" => do
      if !before.allowsImport ended then none
      let (stop, rest) ← match skipComments ps with
        | ⟨.mark '(', _, _⟩ :: rest => importGroup fuel rest
        | rest => importPath rest
      let more ← itemsFrom fuel .header false rest
      return itemOf .importDeclaration start stop :: more
    | .word "type" =>
      match skipComments ps with
      | ⟨.word name, _, _⟩ :: rest => do
        if !(before.allowsType ended && isName name) then none
        let t ← typeFrom fuel rest
        let more ← itemsFrom fuel (.type t.single) false t.rest
        return ⟨.declaration .type, start, t.stop, none, [⟨name, t.shape⟩]⟩ :: more
      | _ => none
    | _ => none

/-- The outline of a text, if it is a plain file. -/
def outline (source : List Char) : Option Outline := do
  let ps ← pieces source
  return ⟨none, ← itemsFrom (ps.length + 1) .nothing true ps⟩

end StructProjection.Go.Plain
