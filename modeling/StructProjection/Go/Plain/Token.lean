import StructProjection.Text.Bytes

/-! # The tokens of plain files

Words of ASCII letters and digits, quoted text without escapes, a few marks, line ends and comments.
-/

namespace StructProjection.Go.Plain

open StructProjection.Text

inductive Token
  | word (name : String)
  | quoted
  | mark (c : Char)
  | lineEnd
  | comment
  deriving DecidableEq, Repr

/-- A token with its place. -/
structure Piece where
  token : Token
  start : Place
  stop : Place
  deriving DecidableEq, Repr

private def marks : List Char := [';', '{', '}', '(', ')', '[', ']', '*', '.']

private def isWordChar (c : Char) : Bool := c.isAlphanum || c = '_'

/-- The number of characters up to the end of a block comment. -/
private def lengthToClose : List Char → Option Nat
  | '*' :: '/' :: _ => some 2
  | _ :: cs => (lengthToClose cs).map (· + 1)
  | [] => none

/-- Quoted text that ends with the mark that it has begun with. -/
private def quotedBy (mark : Char) (allowed : Char → Bool) (cs : List Char) : Option (Token × Nat) :=
  let content := cs.takeWhile fun c => c ≠ mark && allowed c
  if (cs.drop content.length).head? = some mark then some (.quoted, content.length + 2) else none

/-- The token that a text begins with, and the number of its characters. -/
def tokenAt : List Char → Option (Token × Nat)
  | [] => none
  | '/' :: '/' :: cs => some (.comment, (cs.takeWhile (· ≠ '\n')).length + 2)
  | '/' :: '*' :: cs => (lengthToClose cs).map fun n => (.comment, n + 2)
  | c :: cs =>
    if c = '\n' then some (.lineEnd, 1)
    else if c = '"' then quotedBy c (fun d => d ≠ '\\' && d ≠ '\n') cs
    else if c = '\x60' then quotedBy c (fun _ => true) cs
    else if c ∈ marks then some (.mark c, 1)
    else if isWordChar c && !c.isDigit then
      let name := c :: cs.takeWhile isWordChar
      some (.word (String.ofList name), name.length)
    else none

private def isSpace (c : Char) : Bool := c = ' ' || c = '\t' || c = '\r'

/-- The tokens of a text that begins at `place`; the first `skip` characters belong to a token that
has begun before. -/
def piecesFrom : (skip : Nat) → Place → List Char → Option (List Piece)
  | _, _, [] => some []
  | skip + 1, place, c :: cs => piecesFrom skip (place.after [c]) cs
  | 0, place, c :: cs =>
    if isSpace c then piecesFrom 0 (place.after [c]) cs
    else do
      let (token, count) ← tokenAt (c :: cs)
      let more ← piecesFrom (count - 1) (place.after [c]) cs
      return ⟨token, place, place.after ((c :: cs).take count)⟩ :: more

/-- The tokens of a text, if it has no others. -/
def pieces (source : List Char) : Option (List Piece) :=
  if source.all (·.toNat ≠ 0) then piecesFrom 0 .zero source else none

end StructProjection.Go.Plain
