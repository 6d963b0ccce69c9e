/-! # Scripts

A small part of the language of the shell: commands one after the other, with quoting, parameters and
redirections.
-/

namespace StructProjection.Shell

inductive Parameter
  /-- The name that the script goes by. -/
  | self
  | argument (n : Nat)
  /-- All arguments; `apart` keeps them apart even between quotes. -/
  | all (apart : Bool)
  | count
  | process
  | status
  deriving DecidableEq, Repr

/-- A piece of a word. -/
inductive Piece
  | text (s : List Char)
  | parameter (p : Parameter) (quoted : Bool)
  deriving DecidableEq, Repr

abbrev Word := List Piece

/-- A stream that a command writes to. -/
inductive Stream
  | out
  | err
  deriving DecidableEq, Repr

inductive Redirection
  | toFile (s : Stream) (append : Bool) (target : Word)
  /-- The first stream goes where the second one goes. -/
  | toStream (s target : Stream)
  | fromFile (source : Word)
  deriving DecidableEq, Repr

/-- On which end of the command before it a command is run. -/
inductive Condition
  | always
  | success
  | failure
  deriving DecidableEq, Repr

structure Command where
  condition : Condition
  words : List Word
  redirections : List Redirection
  deriving DecidableEq, Repr

private def endsWord (c : Char) : Bool :=
  c = ' ' || c = '\t' || c = '\n' || c = ';' || c = '&' || c = '|' || c = '<' || c = '>' ||
    c = '(' || c = ')'

private def isNameChar (c : Char) : Bool := c.isAlphanum || c = '_'

private def numberOf (cs : List Char) : Nat := cs.foldl (fun n c => n * 10 + (c.toNat - 48)) 0

/-- The piece that a dollar sign begins. There are no variables: a name stands for nothing. -/
private def readParameter (quoted : Bool) (cs : List Char) : Piece × List Char :=
  match cs with
  | '0' :: rest => (.parameter .self quoted, rest)
  | '*' :: rest => (.parameter (.all false) quoted, rest)
  | '@' :: rest => (.parameter (.all true) quoted, rest)
  | '#' :: rest => (.parameter .count quoted, rest)
  | '$' :: rest => (.parameter .process quoted, rest)
  | '?' :: rest => (.parameter .status quoted, rest)
  | c :: rest =>
    if c.isDigit then (.parameter (.argument (c.toNat - 48)) quoted, rest)
    else if isNameChar c then (.text [], rest.dropWhile isNameChar)
    else (.text ['$'], c :: rest)
  | [] => (.text ['$'], [])

private def isEscapable (c : Char) : Bool := c = '$' || c = '\x60' || c = '"' || c = '\\'

/-- Reads up to the closing double quote. -/
private def readQuotedPieces : (fuel : Nat) → List Char → Option (List Piece × List Char)
  | 0, _ => none
  | fuel + 1, cs =>
    match cs with
    | [] => none
    | '"' :: rest => some ([], rest)
    | '$' :: rest => do
      let (piece, rest) := readParameter true rest
      let (pieces, rest) ← readQuotedPieces fuel rest
      return (piece :: pieces, rest)
    | '\\' :: '\n' :: rest => readQuotedPieces fuel rest
    | '\\' :: c :: rest => do
      let (pieces, rest) ← readQuotedPieces fuel rest
      return (.text (if isEscapable c then [c] else ['\\', c]) :: pieces, rest)
    | c :: rest => do
      let (pieces, rest) ← readQuotedPieces fuel rest
      return (.text [c] :: pieces, rest)

/-- Reads up to the end of a word. -/
private def readWord : (fuel : Nat) → List Char → Option (Word × List Char)
  | 0, _ => none
  | fuel + 1, cs =>
    match cs with
    | [] => some ([], [])
    | '\'' :: rest => do
      let quoted := rest.takeWhile (· ≠ '\'')
      match rest.dropWhile (· ≠ '\'') with
      | [] => none
      | _ :: rest =>
        let (pieces, rest) ← readWord fuel rest
        return (.text quoted :: pieces, rest)
    | '"' :: rest => do
      let (inner, rest) ← readQuotedPieces fuel rest
      let (pieces, rest) ← readWord fuel rest
      return (.text [] :: inner ++ pieces, rest)
    | '$' :: rest => do
      let (piece, rest) := readParameter false rest
      let (pieces, rest) ← readWord fuel rest
      return (piece :: pieces, rest)
    | '\\' :: '\n' :: rest => readWord fuel rest
    | '\\' :: c :: rest => do
      let (pieces, rest) ← readWord fuel rest
      return (.text [c] :: pieces, rest)
    | c :: rest =>
      if endsWord c then some ([], c :: rest)
      else do
        let (pieces, rest) ← readWord fuel rest
        return (.text [c] :: pieces, rest)

private def isBlank (c : Char) : Bool := c = ' ' || c = '\t'

private def streamOf : Char → Option Stream
  | '1' => some .out
  | '2' => some .err
  | _ => none

/-- Reads what follows the mark of a redirection. -/
private def readTarget (fuel : Nat) (s : Stream) (append : Bool) (cs : List Char) :
    Option (Redirection × List Char) :=
  match cs with
  | '&' :: c :: rest => (streamOf c).map fun target => (.toStream s target, rest)
  | cs => do
    let (w, rest) ← readWord fuel (cs.dropWhile isBlank)
    if w = [] then none else return (.toFile s append w, rest)

/-- Reads a redirection, if one begins here. -/
private def readRedirection (fuel : Nat) (cs : List Char) : Option (Option (Redirection × List Char)) :=
  let (s, cs) := match cs with
    | '1' :: '>' :: rest => (Stream.out, '>' :: rest)
    | '2' :: '>' :: rest => (Stream.err, '>' :: rest)
    | cs => (Stream.out, cs)
  match cs with
  | '>' :: '>' :: rest => (readTarget fuel s true rest).map some
  | '>' :: rest => (readTarget fuel s false rest).map some
  | '<' :: rest => do
    let (w, rest) ← readWord fuel (rest.dropWhile isBlank)
    if w = [] then none else return some (.fromFile w, rest)
  | _ => some none

/-- Reads the words and redirections of a command. -/
private def readCommand (condition : Condition) :
    (fuel : Nat) → List Char → Option (Command × List Char)
  | 0, _ => none
  | fuel + 1, cs =>
    match cs.dropWhile isBlank with
    | [] => some (⟨condition, [], []⟩, [])
    | '#' :: rest => some (⟨condition, [], []⟩, rest.dropWhile (· ≠ '\n'))
    | c :: cs =>
      match readRedirection fuel (c :: cs) with
      | none => none
      | some (some (r, rest)) => do
        let (command, rest) ← readCommand condition fuel rest
        return ({ command with redirections := r :: command.redirections }, rest)
      | some none =>
        if endsWord c then some (⟨condition, [], []⟩, c :: cs)
        else do
          let (w, rest) ← readWord fuel (c :: cs)
          let (command, rest) ← readCommand condition fuel rest
          return ({ command with words := w :: command.words }, rest)

private def readCommands (condition : Condition) : (fuel : Nat) → List Char → Option (List Command)
  | 0, _ => none
  | fuel + 1, cs => do
    let (command, rest) ← readCommand condition fuel cs
    let rest ← match rest with
      | [] => some []
      | ';' :: rest | '\n' :: rest => readCommands .always fuel rest
      | '&' :: '&' :: rest => readCommands .success fuel rest
      | '|' :: '|' :: rest => readCommands .failure fuel rest
      | _ => none
    return if command.words = [] && command.redirections = [] then rest else command :: rest

/-- The commands of a script, if it is written in the part of the language that is known here. -/
def readScript (cs : List Char) : Option (List Command) := readCommands .always (cs.length + 2) cs

end StructProjection.Shell
