import StructProjection.Toml.Fault
import StructProjection.Toml.Token

/-! # Expressions of a document

A document is a sequence of headers and of pairs of a key and a value. Here their tokens are put
together; what the texts in them mean is not looked at.
-/

namespace StructProjection.Toml

open StructProjection.Text

/-- A text as it is written. -/
structure Written where
  quoting : Quoting
  chars : List Char
  span : Span
  deriving DecidableEq, Repr

/-- The parts of a key, which are written with dots between them. -/
abbrev KeyPath := List Written

inductive Form
  | text (w : Written)
  | array (span : Span) (items : List Form)
  | table (span : Span) (pairs : List (KeyPath × Form))

def Form.span : Form → Span
  | .text w => w.span
  | .array s _ => s
  | .table s _ => s

inductive Expression
  /-- The header of a table, or of an element of an array of tables. -/
  | header (element : Bool) (path : KeyPath) (span : Span)
  | pair (path : KeyPath) (value : Form)

private def before (s : Span) : Span := ⟨s.start, s.start⟩

private def after (s : Span) : Span := ⟨s.stop, s.stop⟩

/-- The place of the next token, or the given one if there is no more. -/
private def nextSpan (stop : Nat) : List Token → Span
  | t :: _ => t.span
  | [] => ⟨stop, stop⟩

private def emptyKey (s : Span) : Fault :=
  .expecting "unquoted keys cannot be empty" ["letters", "numbers", "\x60-\x60", "\x60_\x60"] (before s)

private def emptyValue (s : Span) : Fault :=
  .expecting "string values must be quoted" ["literal string"] (before s)

def skipBlanks (ts : List Token) : List Token := ts.dropWhile (·.kind = .blank)

/-- Skips everything that stands for nothing. -/
def skipSpace (ts : List Token) : List Token :=
  ts.dropWhile fun t => t.kind = .blank || t.kind = .lineEnd || t.kind = .comment

/-- Reads the parts of a key. -/
def readKey (stop : Nat) : (fuel : Nat) → List Token → Except Fault (KeyPath × List Token)
  | 0, ts => .error (emptyKey (nextSpan stop ts))
  | fuel + 1, ts =>
    match skipBlanks ts with
    | ⟨.text quoting, chars, span⟩ :: rest =>
      let w : Written := ⟨quoting, chars, span⟩
      match skipBlanks rest with
      | ⟨.dot, _, _⟩ :: more => do
        let (path, rest) ← readKey stop fuel more
        return (w :: path, rest)
      | _ => return ([w], rest)
    | ts => .error (emptyKey (nextSpan stop ts))

private def looksLikeDate (chars : List Char) : Bool :=
  chars.length = 10 && chars.all fun c => c.isDigit || c = '-'

/-- Reads on in a bare value. Points and, behind a date, one blank before a digit belong to it. -/
def readBare (w : Written) : (fuel : Nat) → List Token → Written × List Token
  | 0, ts => (w, ts)
  | fuel + 1, ts =>
    match ts with
    | ⟨.dot, chars, span⟩ :: rest | ⟨.text .bare, chars, span⟩ :: rest =>
      readBare ⟨.bare, w.chars ++ chars, ⟨w.span.start, span.stop⟩⟩ fuel rest
    | ⟨.blank, [' '], _⟩ :: ⟨.text .bare, c :: chars, span⟩ :: rest =>
      if looksLikeDate w.chars && c.isDigit then
        readBare ⟨.bare, w.chars ++ ' ' :: c :: chars, ⟨w.span.start, span.stop⟩⟩ fuel rest
      else (w, ts)
    | _ => (w, ts)

/-- Where the last token that stands for something ends, among those from `ts` on and before
`rest`. -/
private def lastStop (openSpan : Span) (ts rest : List Token) : Nat :=
  let seen := ts.take (ts.length - rest.length)
  ((seen.reverse.find? fun t => t.kind ≠ .blank && t.kind ≠ .lineEnd && t.kind ≠ .comment).map
    (·.span.stop)).getD openSpan.stop

/-- What may come next in an array. -/
inductive ArrayState
  | needsValue
  | needsComma
  deriving DecidableEq

/-- What may come next in an inline table. -/
inductive TableState
  | needsKey
  | needsComma
  deriving DecidableEq

private def unclosed (what mark : String) (openSpan : Span) (ts : List Token) : Fault :=
  let stop := lastStop openSpan ts []
  .expecting ("unclosed " ++ what) [mark] ⟨stop, stop⟩

mutual

/-- Reads a value. -/
def readValue (stop : Nat) : (fuel : Nat) → List Token → Except Fault (Form × List Token)
  | 0, ts => .error (emptyValue (nextSpan stop ts))
  | fuel + 1, ts =>
    match ts with
    | ⟨.openBracket, _, span⟩ :: rest => do
      let (items, close, rest') ← readItems stop fuel span rest .needsValue rest
      return (.array ⟨span.start, close⟩ items, rest')
    | ⟨.openBrace, _, span⟩ :: rest => do
      let (pairs, close, rest') ← readPairs stop fuel span rest .needsKey rest
      return (.table ⟨span.start, close⟩ pairs, rest')
    | ⟨.text .bare, chars, span⟩ :: rest | ⟨.dot, chars, span⟩ :: rest =>
      let (w, rest) := readBare ⟨.bare, chars, span⟩ rest.length rest
      return (.text w, rest)
    | ⟨.text quoting, chars, span⟩ :: rest => return (.text ⟨quoting, chars, span⟩, rest)
    | ⟨.equals, _, span⟩ :: _ => .error (.expecting "extra \x60=\x60" [] span)
    | ⟨.closeBracket, _, span⟩ :: _ =>
      .error (.expecting "missing array opening" ["\x60[\x60"] (before span))
    | ⟨.closeBrace, _, span⟩ :: _ =>
      .error (.expecting "missing inline table opening" ["\x60\x7b\x60"] (before span))
    | ts => .error (emptyValue (nextSpan stop ts))

/-- Reads the items of an array up to its end. `inner` are the tokens behind its opening mark. -/
def readItems (stop : Nat) :
    (fuel : Nat) → (openSpan : Span) → (inner : List Token) → ArrayState → List Token →
      Except Fault (List Form × Nat × List Token)
  | 0, openSpan, inner, _, _ => .error (unclosed "array" "\x60]\x60" openSpan inner)
  | fuel + 1, openSpan, inner, state, ts =>
    match skipSpace ts with
    | [] => .error (unclosed "array" "\x60]\x60" openSpan inner)
    | ⟨.closeBracket, _, span⟩ :: rest => return ([], span.stop, rest)
    | ⟨.comma, _, span⟩ :: rest =>
      if state = .needsValue then .error (.expecting "extra comma in array" ["value"] span)
      else readItems stop fuel openSpan inner .needsValue rest
    | ⟨.equals, _, span⟩ :: _ =>
      .error (.expecting "unexpected \x60=\x60 in array" ["value", "\x60]\x60"] span)
    | ⟨.closeBrace, _, span⟩ :: _ =>
      .error (.expecting "missing inline table opening" ["\x60\x7b\x60"] (before span))
    | t :: rest =>
      if state = .needsComma then
        .error (.expecting "missing comma between array elements" ["\x60,\x60"] (before t.span))
      else do
        let (v, rest) ← readValue stop fuel (t :: rest)
        let (vs, close, rest) ← readItems stop fuel openSpan inner .needsComma rest
        return (v :: vs, close, rest)

/-- Reads the pairs of an inline table up to its end. -/
def readPairs (stop : Nat) :
    (fuel : Nat) → (openSpan : Span) → (inner : List Token) → TableState → List Token →
      Except Fault (List (KeyPath × Form) × Nat × List Token)
  | 0, openSpan, inner, _, _ => .error (unclosed "inline table" "\x60\x7d\x60" openSpan inner)
  | fuel + 1, openSpan, inner, state, ts =>
    match skipSpace ts with
    | [] => .error (unclosed "inline table" "\x60\x7d\x60" openSpan inner)
    | ⟨.closeBrace, _, span⟩ :: rest => return ([], span.stop, rest)
    | ⟨.comma, _, span⟩ :: rest =>
      if state = .needsKey then .error (.expecting "extra comma in inline table" ["key"] span)
      else readPairs stop fuel openSpan inner .needsKey rest
    | ⟨.closeBracket, _, span⟩ :: _ =>
      .error (.expecting "missing array opening" ["\x60[\x60"] (before span))
    | ⟨.openBracket, _, span⟩ :: _ | ⟨.openBrace, _, span⟩ :: _ =>
      .error (.expecting "missing key for inline table element" ["key"] (before span))
    | ⟨.dot, _, span⟩ :: _ => .error (emptyKey span)
    | t :: rest =>
      if state = .needsComma then
        let fault := if t.kind = .equals then "extra assignment between key-value pairs"
          else "missing comma between key-value pairs"
        .error (.expecting fault ["\x60,\x60"] (before t.span))
      else do
        let (path, rest) ← readKey stop fuel (t :: rest)
        match skipSpace rest with
        | ⟨.equals, _, _⟩ :: rest =>
          let (v, rest) ← readValue stop fuel (skipSpace rest)
          let (ps, close, rest) ← readPairs stop fuel openSpan inner .needsComma rest
          return ((path, v) :: ps, close, rest)
        | rest =>
          .error (.expecting "missing assignment between key-value pairs" ["\x60=\x60"]
            (before (nextSpan stop rest)))

end

/-- The end of the line of an expression. -/
def endLine (ts : List Token) : Except Fault (List Token) :=
  match skipBlanks ts with
  | [] => .ok []
  | ⟨.lineEnd, _, _⟩ :: rest | ⟨.comment, _, _⟩ :: rest => .ok rest
  | t :: _ => .error (.expecting "unexpected key or value" ["newline", "\x60#\x60"] (before t.span))

def readHeader (stop : Nat) (openSpan : Span) (ts : List Token) :
    Except Fault (Expression × List Token) := do
  let (element, openSpan, inner) := match ts with
    | ⟨.openBracket, _, second⟩ :: rest => (true, Span.mk openSpan.start second.stop, rest)
    | rest => (false, openSpan, rest)
  let (path, rest) ← readKey stop inner.length inner
  let missing (mark : String) : Fault :=
    let what := if element then "unclosed array table" else "unclosed table"
    let last := lastStop openSpan inner rest
    .expecting what [mark] ⟨last, last⟩
  match element, skipBlanks rest with
  | false, ⟨.closeBracket, _, close⟩ :: rest =>
    return (.header false path ⟨openSpan.start, close.stop⟩, rest)
  | true, ⟨.closeBracket, _, _⟩ :: ⟨.closeBracket, _, close⟩ :: rest =>
    return (.header true path ⟨openSpan.start, close.stop⟩, rest)
  | true, ⟨.closeBracket, _, close⟩ :: _ =>
    throw (.expecting "unclosed array table" ["\x60]\x60"] (after close))
  | false, _ => throw (missing "\x60]\x60")
  | true, _ => throw (missing "\x60]]\x60")

def readPair (stop : Nat) (ts : List Token) :
    Except Fault (Expression × List Token) := do
  let (path, rest) ← readKey stop ts.length ts
  match skipBlanks rest with
  | ⟨.equals, _, _⟩ :: rest =>
    let (v, rest) ← readValue stop (2 * ts.length) (skipBlanks rest)
    return (.pair path v, rest)
  | rest =>
    throw (.expecting "key with no value" ["\x60=\x60"] (before (nextSpan stop rest)))

def readExpression (stop : Nat) (ts : List Token) :
    Except Fault (Expression × List Token) :=
  match ts with
  | ⟨.openBracket, _, span⟩ :: rest => readHeader stop span rest
  | ⟨.closeBracket, _, span⟩ :: _ =>
    .error (.expecting "missing table open" ["\x60[\x60"] (before span))
  | ⟨.comma, _, span⟩ :: _ | ⟨.openBrace, _, span⟩ :: _ | ⟨.closeBrace, _, span⟩ :: _ =>
    .error (.expecting "invalid key-value pair" ["key"] (before span))
  | ts => readPair stop ts

/-- Reads the expressions of a document whose text ends at `stop`. -/
def readExpressions (stop : Nat) : (fuel : Nat) → List Token → Except Fault (List Expression)
  | 0, _ => .ok []
  | fuel + 1, ts =>
    match skipSpace ts with
    | [] => .ok []
    | ts => do
      let (e, rest) ← readExpression stop ts
      let rest ← endLine rest
      return e :: (← readExpressions stop fuel rest)

end StructProjection.Toml
