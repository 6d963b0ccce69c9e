import StructProjection.Go.Grammar
import StructProjection.Go.Outline
import StructProjection.Go.Plain.File
import StructProjection.Parsing.Node
import StructProjection.Parsing.Parse

/-! # Reading the outline of a text -/

namespace StructProjection.Go

open StructProjection.Parsing StructProjection.Text

/-- The tables of the grammar, made when the first text is read. -/
def table : Thunk Grammar.Table := ⟨fun _ => .ofLanguage language⟩

/-- The construct with the given name in the grammar. -/
def Construct.ofName : String → Construct
  | "comment" => .comment
  | "package_clause" => .packageClause
  | "import_declaration" => .importDeclaration
  | "const_declaration" => .declaration .const
  | "var_declaration" => .declaration .var
  | "type_declaration" => .declaration .type
  | "function_declaration" => .declaration .func
  | "method_declaration" => .declaration .func
  | name => .other name

def placeOf (e : Extent) : Place := ⟨e.bytes, e.rows⟩

def spanOf (n : Node) : Span := ⟨n.info.start.bytes, n.info.stop.bytes⟩

def faultOf (n : Node) : Fault :=
  if n.info.isMissing then .missing n.info.start.bytes n.info.kind else .unexpected (spanOf n)

mutual

/-- The shape of a type. Parentheses take the shape of what comes first in them. -/
def shapeOfNode : Node → Shape
  | .mk i cs =>
    if i.kind = "struct_type" then .struct
    else if i.kind = "interface_type" then .interface
    else if i.kind = "parenthesized_type" then shapeOfFirst cs
    else .other

def shapeOfFirst : List Node → Shape
  | [] => .other
  | n :: ns => if n.info.named then shapeOfNode n else shapeOfFirst ns

end

/-- A specification begins with its name and ends with its type. -/
def specOf (source : List Char) (n : Node) : TypeSpec :=
  let parts := n.children.filter (!·.info.isExtra)
  { name := String.ofList ((parts.head?.map fun m => (spanOf m).text source).getD [])
    shape := (parts.getLast?.map shapeOfNode).getD .other }

def specsOf (source : List Char) (n : Node) : List TypeSpec :=
  let specs := n.namedChildren.filter fun m => m.info.kind = "type_spec" || m.info.kind = "type_alias"
  specs.map (specOf source)

def itemOf (source : List Char) (n : Node) : Item :=
  let construct := Construct.ofName n.info.kind
  { construct, start := placeOf n.info.start, stop := placeOf n.info.stop
    fault := (firstError n).map faultOf
    specs := if construct = .declaration .type then specsOf source n else [] }

def outlineOf (source : List Char) (root : Node) : Outline :=
  { fault := (firstError root).map faultOf, items := root.namedChildren.map (itemOf source) }

namespace Outline

/-- The outline of a text as the tables of the grammar give it. -/
def ofTables (text : String) : Option Outline := do
  let tree ← parse table.get text
  let root ← rootOf table.get tree
  return outlineOf text.toList root

/-- The outline of a text. An outline that does not fit the text is no answer. -/
def ofText (text : String) : Option Outline :=
  match Plain.outline text.toList <|> ofTables text with
  | some o => if o.fits text.toList then some o else none
  | none => none

theorem fits_of_ofText {text : String} {o : Outline} (h : ofText text = some o) :
    o.fits text.toList := by
  unfold ofText at h
  split at h
  · split at h <;> simp_all
  · simp at h

/-- Plain files are read without the tables. -/
theorem ofText_of_plain {text : String} {o : Outline} (h : Plain.outline text.toList = some o)
    (fits : o.fits text.toList) : ofText text = some o := by
  simp [ofText, h, fits]

end Outline

end StructProjection.Go
