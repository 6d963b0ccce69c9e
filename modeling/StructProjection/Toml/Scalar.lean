import StructProjection.Text.Decimal
import StructProjection.Toml.Expression

/-! # What the texts in a document mean -/

namespace StructProjection.Toml

open StructProjection.Text

inductive Scalar
  | string (s : String)
  | integer (n : Int)
  | float (d : Decimal)
  | infinite (negative : Bool)
  | notANumber
  | boolean (b : Bool)
  | date
  deriving DecidableEq, Repr

/-- Where the reader of a string stands. -/
inductive Mode
  | plain
  /-- Behind a backslash. -/
  | escaped
  /-- In the digits of a code point. -/
  | code (left value : Nat)
  /-- Behind a backslash at the end of a line, or before it. -/
  | fold (seenLineEnd : Bool)

def hexValue (c : Char) : Option Nat :=
  if c.isDigit then some (c.toNat - 48)
  else if 'a' ≤ c && c ≤ 'f' then some (c.toNat - 87)
  else if 'A' ≤ c && c ≤ 'F' then some (c.toNat - 55)
  else none

def isControl (c : Char) : Bool := (c.toNat < 32 && c ≠ '\t') || c.toNat = 127

private def spot (place : Nat) : Span := ⟨place, place⟩

/-- A character that needs no escape. In a block, line ends are such characters. -/
def keepPlain (what : String) (block : Bool) (place : Nat) (next : Option Char) (c : Char) :
    Except Fault Char :=
  if !isControl c || (block && (c = '\n' || (c = '\r' && next = some '\n'))) then .ok c
  else .error (.expecting ("invalid " ++ what) ["non-double-quote visible characters", "\x60\\\x60"]
    (spot place))

private def noEscape (place : Nat) : Fault :=
  .expecting "missing escaped value"
    ["\x60b\x60", "\x60e\x60", "\x60f\x60", "\x60n\x60", "\x60r\x60", "\x60\\\x60", "\x60\"\x60",
      "\x60x\x60", "\x60u\x60", "\x60U\x60"]
    (spot place)

def escapedChar : Char → Option Char
  | 'b' => some '\x08'
  | 'e' => some '\x1b'
  | 'f' => some '\x0c'
  | 'n' => some '\n'
  | 'r' => some '\r'
  | 't' => some '\t'
  | '\\' => some '\\'
  | '"' => some '"'
  | _ => none

def codeLength : Char → Option Nat
  | 'x' => some 2
  | 'u' => some 4
  | 'U' => some 8
  | _ => none

private def isFolded (next : Option Char) (c : Char) : Bool :=
  c = ' ' || c = '\t' || c = '\n' || (c = '\r' && next = some '\n')

/-- Reads one character of a basic string: what it adds to the value, and where the reader stands
behind it. -/
def readChar (what : String) (block : Bool) (place : Nat) (next : Option Char) (c : Char) :
    Mode → Except Fault (List Char × Mode)
  | .plain => outside
  | .escaped =>
    if let some d := escapedChar c then .ok ([d], .plain)
    else if let some n := codeLength c then .ok ([], .code n 0)
    else if block && isFolded next c then .ok ([], .fold (c = '\n'))
    else .error (noEscape place)
  | .code left value =>
    match hexValue c with
    | none => .error (.expecting "invalid unicode escape" ["unicode hexadecimal value"] (spot place))
    | some n =>
      let value := value * 16 + n
      if 1 < left then .ok ([], .code (left - 1) value)
      else if value.isValidChar then .ok ([Char.ofNat value], .plain)
      else .error (.expecting "invalid value" ["unicode hexadecimal value"] (spot place))
  | .fold seen =>
    if isFolded next c then .ok ([], .fold (seen || c = '\n'))
    else if seen then outside
    else .error (noEscape place)
where
  outside : Except Fault (List Char × Mode) :=
    if c = '\\' then .ok ([], .escaped)
    else do return ([← keepPlain what block place next c], .plain)

def readChars (what : String) (block : Bool) :
    (place : Nat) → Mode → List Char → Except Fault (List Char)
  | _, .plain, [] | _, .fold true, [] => .ok []
  | place, _, [] => .error (noEscape place)
  | place, mode, c :: cs => do
    let (out, mode) ← readChar what block place cs.head? c mode
    return out ++ (← readChars what block (place + c.utf8Size) mode cs)

private def readLiteral (what : String) (block : Bool) :
    (place : Nat) → List Char → Except Fault (List Char)
  | _, [] => .ok []
  | place, c :: cs => do
    if isControl c && !(block && (c = '\n' || (c = '\r' && cs.head? = some '\n'))) then
      throw (.expecting ("invalid " ++ what) ["non-single-quote visible characters"] (spot place))
    return c :: (← readLiteral what block (place + c.utf8Size) cs)

def markOf : Quoting → List Char
  | .bare => []
  | .literal => ['\'']
  | .basic => ['"']
  | .literalBlock => ['\'', '\'', '\'']
  | .basicBlock => ['"', '"', '"']

/-- The text between the marks of a string, without a line end at the beginning of a block. -/
def bodyOf (w : Written) : Except Fault (Nat × List Char) :=
  let mark := markOf w.quoting
  let body := w.chars.drop mark.length
  let place := w.span.start + mark.length
  if body.length < mark.length || !mark.isSuffixOf body then
    .error (.expecting "missing closing quote" ["\x60" ++ String.ofList mark ++ "\x60"]
      (spot w.span.stop))
  else
    let inner := body.take (body.length - mark.length)
    match w.quoting, inner with
    | .literalBlock, '\n' :: cs | .basicBlock, '\n' :: cs => .ok (place + 1, cs)
    | .literalBlock, '\r' :: '\n' :: cs | .basicBlock, '\r' :: '\n' :: cs => .ok (place + 2, cs)
    | _, cs => .ok (place, cs)

/-- The value of a text between marks. -/
def readQuoted (w : Written) : Except Fault String := do
  let (place, body) ← bodyOf w
  let chars ← match w.quoting with
    | .literal => readLiteral "literal string" false place body
    | .literalBlock => readLiteral "multi-line literal string" true place body
    | .basicBlock => readChars "multi-line basic string" true place .plain body
    | _ => readChars "basic string" false place .plain body
  return String.ofList chars

def isBareKeyChar (c : Char) : Bool := c.isAlphanum || c = '-' || c = '_'

/-- The name that a part of a key stands for. -/
def keyName (w : Written) : Except Fault String :=
  match w.quoting with
  | .bare =>
    let good := w.chars.takeWhile isBareKeyChar
    if good = w.chars then .ok (String.ofList w.chars)
    else .error (.expecting "invalid unquoted key" ["letters", "numbers", "\x60-\x60", "\x60_\x60"]
      (spot (w.span.start + byteLength good)))
  | .literalBlock | .basicBlock =>
    .error (.expecting "multi-line strings are not allowed as keys" [] w.span)
  | _ => readQuoted w

/-- Digits with single underscores between them, as a number in the given base. -/
private def readDigits (base : Nat) : (value : Nat) → (canPause : Bool) → List Char → Option Nat
  | value, canPause, [] => if canPause then some value else none
  | value, canPause, c :: cs =>
    if c = '_' then if canPause then readDigits base value false cs else none
    else
      match hexValue c with
      | some n => if n < base then readDigits base (value * base + n) true cs else none
      | none => none

private def natural? (base : Nat) (cs : List Char) : Option Nat := readDigits base 0 false cs

/-- Digits that do not begin with a zero, unless that is all. -/
private def whole? (cs : List Char) : Option Nat :=
  match cs with
  | '0' :: _ :: _ => none
  | cs => natural? 10 cs

private def withSign (cs : List Char) : Bool × List Char :=
  match cs with
  | '-' :: rest => (true, rest)
  | '+' :: rest => (false, rest)
  | rest => (false, rest)

private def integer? (cs : List Char) : Option Int :=
  match cs with
  | '0' :: 'x' :: rest => (natural? 16 rest).map Int.ofNat
  | '0' :: 'o' :: rest => (natural? 8 rest).map Int.ofNat
  | '0' :: 'b' :: rest => (natural? 2 rest).map Int.ofNat
  | cs =>
    let (negative, digits) := withSign cs
    (whole? digits).map fun n => if negative then -n else n

private def isExponentMark (c : Char) : Bool := c = 'e' || c = 'E'

private def exponent? (cs : List Char) : Option Int :=
  match cs with
  | [] => some 0
  | _ :: rest =>
    let (negative, digits) := withSign rest
    (natural? 10 digits).map fun n => if negative then -n else n

private def float? (cs : List Char) : Option Decimal := do
  let (negative, rest) := withSign cs
  let whole := rest.takeWhile fun c => c ≠ '.' && !isExponentMark c
  let rest := rest.drop whole.length
  let (fraction, rest) := match rest with
    | '.' :: rest =>
      (some (rest.takeWhile (!isExponentMark ·)), rest.dropWhile (!isExponentMark ·))
    | rest => (none, rest)
  if fraction.isNone && rest.isEmpty then none
  let _ ← whole? whole
  let fraction := fraction.getD ['0']
  let _ ← natural? 10 fraction
  let digits := (whole ++ fraction).filter Char.isDigit
  let places := (fraction.filter Char.isDigit).length
  return ⟨negative, ← natural? 10 digits, (← exponent? rest) - places⟩

/-- Whether a text has the shape of another one, in which a zero stands for any digit. -/
private def hasShape (shape : String) (cs : List Char) : Bool :=
  shape.length = cs.length &&
    (shape.toList.zip cs).all fun (s, c) => if s = '0' then c.isDigit else s = c

private def pair (cs : List Char) (place : Nat) : Nat :=
  ((cs.drop place).take 2).foldl (fun n c => n * 10 + (c.toNat - 48)) 0

private def isDay (cs : List Char) : Bool :=
  hasShape "0000-00-00" cs &&
    let year := pair cs 0 * 100 + pair cs 2
    let month := pair cs 5
    let leap := (year % 4 = 0 && year % 100 ≠ 0) || year % 400 = 0
    let days := if month = 2 then if leap then 29 else 28
      else if month = 4 || month = 6 || month = 9 || month = 11 then 30 else 31
    1 ≤ month && month ≤ 12 && 1 ≤ pair cs 8 && pair cs 8 ≤ days

private def isClock (cs : List Char) : Bool :=
  let fits := pair cs 0 < 24 && pair cs 3 < 60
  (hasShape "00:00" cs && fits) ||
    (hasShape "00:00:00" (cs.take 8) && fits && pair cs 6 ≤ 60 &&
      match cs.drop 8 with
      | [] => true
      | c :: fraction => c = '.' && fraction ≠ [] && fraction.all Char.isDigit)

/-- A time of day, with or without its distance from universal time. -/
private def isZonedClock (cs : List Char) : Bool :=
  let clock := cs.takeWhile fun c => c.isDigit || c = ':' || c = '.'
  isClock clock &&
    match cs.drop clock.length with
    | [] | ['Z'] | ['z'] => true
    | sign :: zone =>
      (sign = '+' || sign = '-') && hasShape "00:00" zone && pair zone 0 < 24 && pair zone 3 < 60

private def isDate (cs : List Char) : Bool :=
  isDay cs || isClock cs ||
    (isDay (cs.take 10) &&
      match cs.drop 10 with
      | sep :: clock => (sep = 'T' || sep = 't' || sep = ' ') && isZonedClock clock
      | [] => false)

private def bareFault (w : Written) : Fault :=
  let (_, unsigned) := withSign w.chars
  match unsigned with
  | '0' :: c :: _ =>
    if c.isDigit then .expecting "unexpected leading zero" [] w.span
    else .expecting "invalid number" [] w.span
  | c :: _ =>
    if c.isDigit && w.chars.any (· = '_') then
      .expecting "\x60_\x60 may only go between digits" [] w.span
    else if c.isDigit then .expecting "invalid number" [] w.span
    else .expecting "string values must be quoted" ["literal string"] w.span
  | [] => .expecting "string values must be quoted" ["literal string"] w.span

def readBareValue (w : Written) : Except Fault Scalar :=
  let (negative, unsigned) := withSign w.chars
  if w.chars = "true".toList then .ok (.boolean true)
  else if w.chars = "false".toList then .ok (.boolean false)
  else if unsigned = "inf".toList then .ok (.infinite negative)
  else if unsigned = "nan".toList then .ok .notANumber
  else if let some n := integer? w.chars then .ok (.integer n)
  else if let some d := float? w.chars then .ok (.float d)
  else if isDate w.chars then .ok .date
  else .error (bareFault w)

/-- The value of a text. -/
def readScalar (w : Written) : Except Fault Scalar :=
  match w.quoting with
  | .bare => readBareValue w
  | _ => (readQuoted w).map .string

end StructProjection.Toml
