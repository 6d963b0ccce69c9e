import StructProjection.Config
import StructProjection.Toml.Printer

/-! # Writing configuration files

A configuration is written as pairs in any order. Its formatters are written as a pair, or in tables
of their own behind the pairs.
-/

namespace StructProjection

open Toml

/-- An array of strings. -/
def writeStrings (ss : List String) : Writing := .array (ss.map .string)

/-- A pair of a formatter. -/
inductive ToolLine
  | program (s : String)
  | args (ss : List String)
  deriving DecidableEq, Repr

def ToolLine.pair : ToolLine → String × Writing
  | program s => ("program", .string s)
  | args ss => ("args", writeStrings ss)

/-- A formatter as it is written; its arguments need not be mentioned. -/
structure ToolText where
  program : String
  args : Option (List String)
  argsFirst : Bool
  deriving DecidableEq, Repr

namespace ToolText

def tool (w : ToolText) : Tool := ⟨w.program, w.args.getD []⟩

def lines (w : ToolText) : List ToolLine :=
  let args := (w.args.map .args).toList
  if w.argsFirst then args ++ [.program w.program] else .program w.program :: args

def pairs (w : ToolText) : List (String × Writing) := w.lines.map ToolLine.pair

end ToolText

namespace Config

/-- A pair of a configuration file. -/
inductive Line
  | suffix (s : String)
  | exclude (endings : List String)
  | strip (literals : List String)
  | commit (mode : CommitMode)
  | formatters (tools : List ToolText)
  deriving DecidableEq, Repr

namespace Line

def key : Line → String
  | suffix _ => "suffix"
  | exclude _ => "exclude"
  | strip _ => "strip"
  | commit _ => "commit"
  | formatters _ => "formatter"

def value : Line → Writing
  | suffix s => .string s
  | exclude ss | strip ss => writeStrings ss
  | commit mode => .string mode.name
  | formatters tools => .array (tools.map fun w => .table w.pairs)

/-- Gives a configuration the value of the line. -/
def apply (c : Config) : Line → Config
  | suffix s => { c with suffix := some s }
  | exclude endings => { c with exclude := some endings }
  | strip literals => { c with strip := some literals }
  | commit mode => { c with commit := some mode }
  | formatters tools => { c with formatters := some (tools.map ToolText.tool) }

end Line

/-- The text of a configuration file with the given pairs and formatters. -/
def text (pairs : List (String × Writing)) (tools : List (List (String × Writing))) : String :=
  String.ofList (writeRows (sheet pairs "formatter" tools))

/-- The text of a configuration file. -/
def write (lines : List Line) (tables : List ToolText) : String :=
  text (lines.map fun l => (l.key, l.value)) (tables.map ToolText.pairs)

/-- What the text of a configuration file says. -/
def ofLines (lines : List Line) (tables : List ToolText) : Config :=
  let c := lines.foldl Line.apply {}
  if tables = [] then c else { c with formatters := some (tables.map ToolText.tool) }

end Config

end StructProjection
