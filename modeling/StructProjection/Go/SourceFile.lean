import StructProjection.Go.Reader

/-! # Source files

A source file is a package clause, import declarations and other declarations, in this order. The
header can be read on its own, whatever comes after it.
-/

namespace StructProjection.Go

open StructProjection.Text

/-- A declaration behind the header. -/
structure Decl where
  kind : DeclKind
  span : Span
  /-- Where the comments that belong to it begin. -/
  docStart : Option Nat
  /-- What it declares, if it declares types. -/
  specs : List TypeSpec
  deriving DecidableEq, Repr

namespace Decl

def hasStruct (d : Decl) : Bool := d.specs.any (·.shape = .struct)

/-- Where the declaration begins with its comments. -/
def leadingStart (d : Decl) : Nat := d.docStart.getD d.span.start

end Decl

/-- A source file without its header. -/
structure SourceFile where
  decls : List Decl
  deriving DecidableEq, Repr

def SourceFile.structDecls (f : SourceFile) : List Decl := f.decls.filter Decl.hasStruct

def misplaced (source : List Char) (i : Item) : Diagnostic :=
  match i.fault with
  | some f => f.diagnose source
  | none => Diagnostic.locate source i.start.offset .noPackageClause

/-- Where the imports end, given where the header that has been read so far ends. -/
def headerEndFrom (source : List Char) : Option Nat → List Item → Except Diagnostic Nat
  | none, [] => .error (Diagnostic.locate source (byteLength source) .noPackageClause)
  | some stop, [] => .ok stop
  | seen, i :: is =>
    match i.construct, seen with
    | .comment, _ => headerEndFrom source seen is
    | .packageClause, none | .importDeclaration, some _ =>
      match i.fault with
      | some f => .error (f.diagnose source)
      | none => headerEndFrom source (some i.stop.offset) is
    | _, some stop => .ok stop
    | _, none => .error (misplaced source i)

/-- Where the comments above a declaration begin; `above` are the items above it, the nearest first.
A comment belongs to what is on the line below its last, unless something else ends on its first
line. -/
def docStart : (row : Nat) → (above : List Item) → Option Nat
  | _, [] => none
  | row, i :: above =>
    let follows := above.head?.any fun j => j.stop.row = i.start.row
    if i.construct = .comment && i.stop.row + 1 = row && !follows then
      some ((docStart i.start.row above).getD i.start.offset)
    else none

/-- How far into a file the items before have led. -/
inductive Part
  | start
  | imports
  | body
  deriving DecidableEq, Repr

/-- The declarations among the items, and the complaint about the first item that is out of place.
`above` are the items before, the nearest first. -/
def declarationsFrom (source : List Char) :
    Part → (above : List Item) → List Item → List Decl × Option Diagnostic
  | .start, _, [] => ([], some (Diagnostic.locate source (byteLength source) .noPackageClause))
  | _, _, [] => ([], none)
  | part, above, i :: is =>
    match part, i.construct with
    | _, .comment => declarationsFrom source part (i :: above) is
    | .start, .packageClause => declarationsFrom source .imports (i :: above) is
    | .start, _ => ([], some (misplaced source i))
    | .imports, .importDeclaration => declarationsFrom source .imports (i :: above) is
    | .body, .importDeclaration => ([], some (Diagnostic.locate source i.start.offset .lateImport))
    | _, .declaration kind =>
      let d : Decl :=
        { kind, span := i.span, docStart := docStart i.start.row above
          specs := if kind = .type then i.specs else [] }
      let (ds, complaint) := declarationsFrom source .body (i :: above) is
      (d :: ds, complaint)
    | _, c => ([], some (Diagnostic.locate source i.start.offset (.notADeclaration c.name)))

private def unreadable : Diagnostic := ⟨0, 1, 1, .unreadable⟩

namespace Outline

def headerEnd (source : List Char) (o : Outline) : Except Diagnostic Nat :=
  headerEndFrom source none o.items

/-- The declarations up to the first complaint. -/
def declarations (source : List Char) (o : Outline) : List Decl × Option Diagnostic :=
  match o.fault with
  | some f => ([], some (f.diagnose source))
  | none => declarationsFrom source .start [] o.items

def sourceFile (source : List Char) (o : Outline) : Except Diagnostic SourceFile :=
  match o.declarations source with
  | (decls, none) => .ok ⟨decls⟩
  | (_, some d) => .error d

end Outline

/-- A way to find the outline of a text. -/
abbrev Reader := String → Except Diagnostic Outline

/-- The outline of a text, or a complaint that there is none. -/
def outline : Reader := fun text =>
  match Outline.ofText text with
  | some o => .ok o
  | none => .error unreadable

theorem outline_of_plain {text : String} {o : Outline} (h : Plain.outline text.toList = some o)
    (fits : o.fits text.toList) : outline text = .ok o := by
  rw [outline, Outline.ofText_of_plain h fits]

/-- Where the header of a text ends: behind its last import, or behind the package clause. What comes
after the header is not looked at. -/
def headerEnd (text : String) : Except Diagnostic Nat := do
  (← outline text).headerEnd text.toList

theorem headerEnd_of_ok {text : String} {o : Outline} (h : outline text = .ok o) :
    headerEnd text = o.headerEnd text.toList := by
  rw [headerEnd, h]
  rfl

/-- Reads a whole file in the outline that a reader finds. -/
def SourceFile.readWith (r : Reader) (text : String) : Except Diagnostic SourceFile := do
  (← r text).sourceFile text.toList

theorem SourceFile.readWith_of_ok {r : Reader} {text : String} {o : Outline} (h : r text = .ok o) :
    readWith r text = o.sourceFile text.toList := by
  rw [readWith, h]
  rfl

/-- Reads a whole file. -/
def SourceFile.read : String → Except Diagnostic SourceFile := readWith outline

end StructProjection.Go
