import StructProjection.Failure
import StructProjection.Files.Tree
import StructProjection.Text.Quoted
import StructProjection.Toml.Document

/-! # Configuration files

A configuration file gives values in the place of standard ones. What it does not mention stays as it
is; what it should not mention is an error.
-/

namespace StructProjection

open Text Toml Files

/-- A formatter as it is configured: a program, and the arguments before the one for the target. -/
structure Tool where
  program : String
  args : List String
  deriving DecidableEq, Repr

/-- The tools that are run when none are configured. -/
def Tool.standard : List Tool := [⟨"gofmt", ["-w"]⟩, ⟨"goimports", ["-w"]⟩]

structure Config where
  suffix : Option String := none
  exclude : Option (List String) := none
  strip : Option (List String) := none
  commit : Option CommitMode := none
  formatters : Option (List Tool) := none
  /-- The file that the configuration has been read from. -/
  source : Option Path := none
  deriving DecidableEq, Repr

private def code (s : String) : String := "\x60" ++ s ++ "\x60"

private def fitsUnsigned (bits : Nat) (n : Int) : Bool := 0 ≤ n && n.toNat < 1 <<< bits

private def fitsSigned (bits : Nat) (n : Int) : Bool := n.bmod (1 <<< bits) = n

/-- A value as it is named in a complaint. -/
private def described : Value → Except Fault String
  | .scalar _ (.string s) => .ok ("string " ++ quote s)
  | .scalar span (.integer n) =>
    if fitsSigned 64 n || fitsUnsigned 64 n then .ok ("integer " ++ code (toString n))
    else if fitsSigned 128 n then .ok ("integer " ++ code (toString n) ++ " as i128")
    else if fitsUnsigned 128 n then .ok ("integer " ++ code (toString n) ++ " as u128")
    else .error ⟨"integer number overflowed", span⟩
  | .scalar _ (.float d) => .ok ("floating point " ++ code d.render)
  | .scalar _ (.infinite negative) => .ok ("floating point " ++ code (if negative then "-inf" else "inf"))
  | .scalar _ .notANumber => .ok ("floating point " ++ code "NaN")
  | .scalar _ (.boolean b) => .ok ("boolean " ++ code (toString b))
  | .array .. => .ok "sequence"
  | .scalar _ .date | .table .. => .ok "map"

def wrongKind {α : Type} (v : Value) (wanted : String) : Except Fault α := do
  let found ← described v
  throw ⟨s!"invalid type: {found}, expected {wanted}", v.span⟩

def stringOf : Value → Except Fault String
  | .scalar _ (.string s) => .ok s
  | v => wrongKind v "a string"

def listOf {α : Type} (item : Value → Except Fault α) : Value → Except Fault (List α)
  | .array _ _ items => items.mapM item
  | v => wrongKind v "a sequence"

/-- The entries in the order of their names, in which they are looked at. -/
def sorted (es : Entries) : Entries := es.mergeSort fun a b => !decide (b.1.name < a.1.name)

def unknownField {α : Type} (name wanted : String) (span : Span) : Except Fault α :=
  .error ⟨"unknown field " ++ code name ++ ", expected " ++ wanted, span⟩

def toolFields : String := code "program" ++ " or " ++ code "args"

/-- What is known of a tool. -/
structure ToolDraft where
  program : Option String
  args : List String

def addToTool (d : ToolDraft) : Key × Value → Except Fault ToolDraft
  | (k, v) =>
    match k.name with
    | "program" => do return { d with program := some (← stringOf v) }
    | "args" => do return { d with args := ← listOf stringOf v }
    | name => unknownField name toolFields k.span

/-- A tool is written as a table, or as an array of its program and its arguments. -/
def toolOf : Value → Except Fault Tool
  | .table span _ es => do
    let d ← (sorted es).foldlM addToTool ⟨none, []⟩
    match d.program with
    | some program => return ⟨program, d.args⟩
    | none => throw ⟨"missing field " ++ code "program", span⟩
  | .array span _ items =>
    match items with
    | [] => .error ⟨"invalid length 0, expected struct FormatterConfig with 2 elements", span⟩
    | [program] => do return ⟨← stringOf program, []⟩
    | program :: args :: _ => do
      let program ← stringOf program
      return ⟨program, ← listOf stringOf args⟩
  | .scalar span .date => unknownField "$__toml_private_datetime" toolFields span
  | v => wrongKind v "struct FormatterConfig"

def modeOf (name : String) (span : Span) : Except Fault CommitMode :=
  match name with
  | "fail-fast" => .ok .failFast
  | "staged" => .ok .staged
  | name =>
    .error ⟨"unknown variant " ++ code name ++ ", expected " ++ code "fail-fast" ++ " or " ++
      code "staged", span⟩

/-- A mode is written as its name, or as a table of which the name is the only key, without a
content. -/
def commitOf : Value → Except Fault CommitMode
  | .scalar span (.string s) => modeOf s span
  | .table _ _ [(k, v)] => do
    let mode ← modeOf k.name k.span
    match v with
    | .array _ _ [] | .table _ _ [] => return mode
    | .array span _ _ => throw ⟨"expected empty array", span⟩
    | .table span _ _ => throw ⟨"expected empty table", span⟩
    | v => throw ⟨s!"expected table, found {v.kindName}", v.span⟩
  | .table span _ [] => .error ⟨"wanted exactly 1 element, found 0 elements", span⟩
  | .table span _ _ => .error ⟨"wanted exactly 1 element, more than 1 element", span⟩
  | v => .error ⟨"wanted string or table", v.span⟩

def configFields : String :=
  ", ".intercalate (["suffix", "exclude", "strip", "commit", "formatter"].map code)

def addToConfig (c : Config) : Key × Value → Except Fault Config
  | (k, v) =>
    match k.name with
    | "suffix" => do return { c with suffix := some (← stringOf v) }
    | "exclude" => do return { c with exclude := some (← listOf stringOf v) }
    | "strip" => do return { c with strip := some (← listOf stringOf v) }
    | "commit" => do return { c with commit := some (← commitOf v) }
    | "formatter" => do return { c with formatters := some (← listOf toolOf v) }
    | name => unknownField name ("one of " ++ configFields) k.span

namespace Config

/-- The name of the configuration file of a project. -/
def fileName : String := "protoslim.toml"

/-- The configuration in the entries of a document. -/
def ofEntries (es : Entries) : Except Fault Config := (sorted es).foldlM addToConfig {}

/-- Reads a configuration from the text of the file at the given path. -/
def read (text : String) (path : Path) : Except Failure Config :=
  match readDocument text.toList >>= ofEntries with
  | .ok c => .ok { c with source := some path }
  | .error f => .error (.configParsing path text.toList f)

/-- Loads the file that a path leads to. The file is called `shown`. -/
def load (t : Tree) (a : Access) (path shown : Path) : Except Failure Config := do
  let content ← match t.resolve path true >>= t.read a with
    | .ok content => pure content
    | .error r => throw (.configReading shown r)
  match String.fromUTF8? content with
  | some text => read text shown
  | none => throw (.configReading shown .notText)

/-- The path of the configuration file in a folder. -/
def inFolder (folder : Path) : Path := folder.join (Name.ofString fileName)

/-- Loads the configuration file of a folder, if there is one. The folder is called `shown`. -/
def discover (t : Tree) (a : Access) (folder shown : Path) : Except Failure Config :=
  if t.isFile (inFolder folder) then load t a (inFolder folder) (inFolder shown) else .ok {}

/-- The settings of a configuration, with standard values for what it does not mention. -/
def settings (c : Config) : Settings :=
  let s : Settings := {}
  { s with
    suffix := c.suffix.getD s.suffix
    exclusions := (c.exclude.map ExclusionRules.mk).getD s.exclusions
    strip := (c.strip.map StripRules.mk).getD s.strip
    commit := c.commit.getD s.commit }

def tools (c : Config) : List Tool := c.formatters.getD Tool.standard

end Config

end StructProjection
