import StructProjection.Text.Bytes

/-! # Tokens of a document -/

namespace StructProjection.Toml

open StructProjection.Text

/-- How a piece of text is written. -/
inductive Quoting
  | bare
  | literal
  | basic
  /-- A literal over several lines. -/
  | literalBlock
  /-- A basic string over several lines. -/
  | basicBlock
  deriving DecidableEq, Repr

inductive TokenKind
  | dot
  | equals
  | comma
  | openBracket
  | closeBracket
  | openBrace
  | closeBrace
  | blank
  | lineEnd
  | comment
  | text (quoting : Quoting)
  deriving DecidableEq, Repr

structure Token where
  kind : TokenKind
  chars : List Char
  span : Span
  deriving DecidableEq, Repr

/-- Characters that end a bare text. -/
def endsBare (c : Char) : Bool :=
  c = '.' || c = '=' || c = ',' || c = '[' || c = ']' || c = '\x7b' || c = '\x7d' || c = ' ' ||
    c = '\t' || c = '#' || c = '\r' || c = '\n'

def isBlankChar (c : Char) : Bool := c = ' ' || c = '\t'

/-- The length of the rest of a literal, up to its end or the end of its line. -/
private def literalRest : List Char → Nat
  | [] => 0
  | c :: cs => if c = '\'' then 1 else if c = '\n' then 0 else literalRest cs + 1

/-- The length of the rest of a basic string, up to its end or the end of its line; `escaped` is
whether a backslash stands before it. -/
def basicRest (escaped : Bool) : List Char → Nat
  | [] => 0
  | c :: cs =>
    if escaped && (c = '"' || c = '\\') then basicRest false cs + 1
    else if c = '"' then 1
    else if c = '\n' then 0
    else basicRest (c = '\\') cs + 1

/-- The number of marks at the beginning, at most `n`. -/
private def marksUpTo (n : Nat) (mark : Char) (cs : List Char) : Nat :=
  ((cs.take n).takeWhile (· = mark)).length

/-- The length of the rest of a text over several lines. It ends with three marks, before which it
can have two more. -/
private def blockRest (mark : Char) (escapes : Bool) : (escaped : Bool) → List Char → Nat
  | _, [] => 0
  | escaped, c :: cs =>
    if escaped && (c = mark || c = '\\') then blockRest mark escapes false cs + 1
    else if c = mark && cs.take 2 = [mark, mark] then 3 + marksUpTo 2 mark (cs.drop 2)
    else blockRest mark escapes (escapes && c = '\\') cs + 1

/-- The kind of the token that a character begins, and how many of the characters behind it belong
to it. -/
def firstToken (c : Char) (cs : List Char) : TokenKind × Nat :=
  match c with
  | '.' => (.dot, 0)
  | '=' => (.equals, 0)
  | ',' => (.comma, 0)
  | '[' => (.openBracket, 0)
  | ']' => (.closeBracket, 0)
  | '\x7b' => (.openBrace, 0)
  | '\x7d' => (.closeBrace, 0)
  | '\n' => (.lineEnd, 0)
  | '\r' => (.lineEnd, marksUpTo 1 '\n' cs)
  | '#' => (.comment, (cs.takeWhile fun d => d ≠ '\n' && d ≠ '\r').length)
  | '\'' =>
    if cs.take 2 = ['\'', '\''] then (.text .literalBlock, 2 + blockRest '\'' false false (cs.drop 2))
    else (.text .literal, literalRest cs)
  | '"' =>
    if cs.take 2 = ['"', '"'] then (.text .basicBlock, 2 + blockRest '"' true false (cs.drop 2))
    else (.text .basic, basicRest false cs)
  | c =>
    if isBlankChar c then (.blank, (cs.takeWhile isBlankChar).length)
    else (.text .bare, (cs.takeWhile (!endsBare ·)).length)

/-- The tokens of a text that begins at `place`; its first `skip` characters belong to a token that
has begun before. -/
def tokensFrom : (skip place : Nat) → List Char → List Token
  | _, _, [] => []
  | skip + 1, place, c :: cs => tokensFrom skip (place + c.utf8Size) cs
  | 0, place, c :: cs =>
    let (kind, more) := firstToken c cs
    let chars := c :: cs.take more
    ⟨kind, chars, ⟨place, place + byteLength chars⟩⟩ :: tokensFrom more (place + c.utf8Size) cs

/-- The tokens of a document. A byte-order mark at its beginning is none. -/
def tokensOf (text : List Char) : List Token :=
  match text with
  | '\ufeff' :: cs => tokensFrom 0 3 cs
  | cs => tokensFrom 0 0 cs

end StructProjection.Toml
