import StructProjection.Text.Bytes

/-! # What is wrong with a document, and where -/

namespace StructProjection.Toml

open StructProjection.Text

structure Fault where
  message : String
  span : Span
  deriving DecidableEq, Repr, Inhabited

namespace Fault

/-- A fault where something else was expected. -/
def expecting (message : String) (wanted : List String) (span : Span) : Fault :=
  { message := message ++ ", expected " ++ if wanted = [] then "nothing" else ", ".intercalate wanted
    span }

private def lineAt (row : Nat) (text : List Char) : List Char :=
  match row with
  | 0 => text.takeWhile (· ≠ '\n')
  | row + 1 => lineAt row ((text.dropWhile (· ≠ '\n')).drop 1)

/-- Columns count characters up to an ASCII character, and bytes up to any other. -/
private def columnAt (line : List Char) (bytes : Nat) : Nat :=
  match dropBytes bytes line with
  | c :: _ => if c.toNat < 128 then (takeBytes bytes line).length else bytes
  | [] => (takeBytes bytes line).length + (bytes - byteLength line)

private def spaces (n : Nat) : String := String.ofList (List.replicate n ' ')

/-- Shows the line of the fault with marks under it. The end of the text is shown behind its last
line feed, not on a line of its own. -/
def render (text : List Char) (f : Fault) : String :=
  let past := if f.span.start = byteLength text && text.getLast? = some '\n' then 1 else 0
  let place := f.span.start - past
  let row := rowAt place text
  let line := lineAt row text
  let column := columnAt line (place - lineStart place text) + past
  let width := min (f.span.stop - f.span.start) (byteLength line - column)
  let number := toString (row + 1)
  let margin := spaces (number.length + 1)
  let marks := String.ofList (List.replicate (max width 1) '^')
  "TOML parse error at line " ++ number ++ ", column " ++ toString (column + 1) ++ "\n" ++
    margin ++ "|\n" ++
    number ++ " | " ++ String.ofList line ++ "\n" ++
    margin ++ "|" ++ spaces (column + 1) ++ marks ++ "\n" ++
    f.message ++ "\n"

end Fault

end StructProjection.Toml
