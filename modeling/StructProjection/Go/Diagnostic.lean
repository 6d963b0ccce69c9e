import StructProjection.Text.Bytes

/-! # What is wrong with a source file, and where -/

namespace StructProjection.Go

open StructProjection.Text

inductive Complaint
  /-- Text that fits nowhere; `near` is how it begins. -/
  | unexpected (near : String)
  /-- A token that is not there. -/
  | missing (kind : String)
  | noPackageClause
  | lateImport
  | notADeclaration (kind : String)
  /-- No reading of the text was found. -/
  | unreadable
  | note (text : String)
  deriving DecidableEq, Repr

def Complaint.message : Complaint → String
  | .unexpected near => if near = "" then "syntax error" else s!"syntax error near '{near}'"
  | .missing kind => s!"missing '{kind}'"
  | .noPackageClause => "expected 'package' clause"
  | .lateImport => "imports must appear before other declarations"
  | .notADeclaration kind => s!"expected declaration, found {kind}"
  | .unreadable => "parser produced no tree"
  | .note text => text

/-- A complaint about a place in a text. Lines and columns count from 1, columns in bytes. -/
structure Diagnostic where
  offset : Nat
  line : Nat
  column : Nat
  complaint : Complaint
  deriving DecidableEq, Repr

namespace Diagnostic

/-- The complaint at an offset, or at the end of the text when the offset lies behind it. -/
def locate (text : List Char) (offset : Nat) (complaint : Complaint) : Diagnostic :=
  let offset := min offset (byteLength text)
  { offset, line := rowAt offset text + 1, column := offset - lineStart offset text + 1, complaint }

def message (d : Diagnostic) : String := d.complaint.message

def render (d : Diagnostic) : String := s!"{d.line}:{d.column}: {d.message}"

end Diagnostic

end StructProjection.Go
