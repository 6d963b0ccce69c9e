import StructProjection.Event
import StructProjection.Shell.Run
import StructProjection.Text.Blank

/-! # Formatters -/

namespace StructProjection

open Files

/-- What a formatter has done. -/
structure Pass where
  tree : Tree
  events : List Event
  failure : Option Failure

/-- Something that formats the files at a path and below it, and is known by a name. Nothing else is
assumed of it. -/
structure Formatter where
  name : String
  run : (target : Path) → Tree → Pass

namespace Tool

private def endingText : Shell.Ending → String
  | .exit n => s!"exit status: {n}"
  | .signal n =>
    match Shell.signalName n with
    | some name => s!"signal: {n} ({name})"
    | none => s!"signal: {n}"

/-- The formatter that runs a program with the target as its last argument. -/
def formatterOf (programs : Shell.Programs) (tool : Tool) : Formatter where
  name := tool.program
  run target t :=
    let started := Event.tool tool.program tool.args target
    match programs tool.program (tool.args ++ [target.render]) t with
    | .error r => ⟨t, [started], some (.starting tool.program r)⟩
    | .ok result =>
      let output := Text.decodeLossy result.out ++ Text.decodeLossy result.err
      let shown := Text.dropEndWhile Text.isBlank output
      if result.ending ≠ .exit 0 then
        let failure := Failure.formatting tool.program (endingText result.ending) (String.ofList output)
        ⟨result.tree, [started], some failure⟩
      else if shown = [] then ⟨result.tree, [started], none⟩
      else
        let printed := Event.toolOutput tool.program (String.ofList shown)
        ⟨result.tree, [started, printed], none⟩

/-- With `searches`, programs are found by their names alone. -/
def formatter (searches : Bool) : Tool → Formatter := formatterOf (Shell.run searches)

end Tool

end StructProjection
