import StructProjection.Files.Fault
import StructProjection.Go.Diagnostic
import StructProjection.Settings
import StructProjection.Toml.Fault

/-! # How a batch can fail -/

namespace StructProjection

open Files

inductive Failure
  /-- The files under a root could not be listed. -/
  | listing (root : Path) (r : Refusal)
  | reading (path : Path) (r : Refusal)
  | writing (path : Path) (r : Refusal)
  | parsing (path : Path) (d : Go.Diagnostic)
  /-- The content of a file is no text. -/
  | encoding (path : Path)
  /-- A formatter could not be started. -/
  | starting (tool : String) (r : Refusal)
  /-- A formatter has ended without success. -/
  | formatting (tool status output : String)
  | configReading (path : Path) (r : Refusal)
  | configParsing (path : Path) (text : List Char) (f : Toml.Fault)
  | settings (f : SettingsFault)
  deriving DecidableEq, Repr

namespace Failure

/-- What has led to the failure, where that has a message of its own. -/
def cause : Failure → Option String
  | .listing root r => some s!"IO error for operation on {root.render}: {r.message}"
  | .reading _ r | .writing _ r | .starting _ r | .configReading _ r => some r.message
  | .parsing _ d => some d.render
  | .configParsing _ text f => some (f.render text)
  | .encoding _ | .formatting .. | .settings _ => none

private def headline : Failure → String
  | .listing root _ => s!"failed to enumerate '{root.render}'"
  | .reading path _ => s!"failed to read file '{path.render}'"
  | .writing path _ => s!"failed to write file '{path.render}'"
  | .parsing path _ => s!"failed to parse '{path.render}'"
  | .encoding path => s!"file '{path.render}' is not valid UTF-8"
  | .starting tool _ => s!"failed to run formatter '{tool}'"
  | .formatting tool status output => s!"formatter '{tool}' failed ({status}):\n{output}"
  | .configReading path _ => s!"failed to read config '{path.render}'"
  | .configParsing path .. => s!"invalid config '{path.render}'"
  | .settings f => s!"invalid configuration: {f.message}"

def message (f : Failure) : String :=
  match f.cause with
  | some cause => s!"{f.headline}: {cause}"
  | none => f.headline

/-- The file that the failure is about. -/
def path? : Failure → Option Path
  | .listing p _ | .reading p _ | .writing p _ | .parsing p _ | .encoding p | .configReading p _ |
    .configParsing p _ _ => some p
  | .starting .. | .formatting .. | .settings _ => none

/-- Whether files can have been written when a batch has ended with the failure. -/
def mayLeavePartialBatch (commit : CommitMode) : Failure → Bool
  | .writing .. | .starting .. | .formatting .. => true
  | .reading .. | .parsing .. | .encoding _ => commit = .failFast
  | .listing .. | .configReading .. | .configParsing .. | .settings _ => false

end Failure

end StructProjection
