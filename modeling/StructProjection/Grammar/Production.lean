import StructProjection.Grammar.Rule
import Std.Data.HashMap

/-! # Productions

The rules of a grammar, written out as plain sequences of symbols: choices are multiplied out,
repetitions become definitions of their own, and inlined definitions disappear.

A symbol is a number. The tokens come first in their order, then the end of the text, then the
definitions in theirs.
-/

namespace StructProjection.Grammar

/-- One symbol of a production, with the rank and side that hold once it has been read. -/
structure Step where
  symbol : Nat
  rank : Option Int
  side : Option Side
  shownAs : Option String
  deriving DecidableEq, Hashable, Inhabited

structure Production where
  steps : List Step
  favour : Int
  deriving DecidableEq, Inhabited

/-- A definition after its repetitions have been given names. -/
structure Definition where
  name : String
  rule : Rule
  hidden : Bool
  /-- Made for a repetition. -/
  repetition : Bool
  deriving Inhabited

/-- The repetitions that have got a name so far, with what they repeat. -/
abbrev Repetitions := List (String × Rule)

/-- Replaces each repetition in a rule by a definition: `owner` is the definition that the rule
belongs to, and the number counts the new definitions that it has needed. Two repetitions of the
same rule share a definition. -/
def Rule.nameRepetitions (owner : String) (found : Repetitions) (count : Nat) :
    Rule → Rule × Repetitions × Nat
  | .repeat1 p =>
    let (inner, found, count) := nameRepetitions owner found count p
    match found.find? (·.2 = inner) with
    | some (name, _) => (.ref name, found, count)
    | none =>
      let name := owner ++ "_repeat" ++ toString (count + 1)
      (.ref name, found ++ [(name, inner)], count + 1)
  | .seq p q =>
    let (p, found, count) := nameRepetitions owner found count p
    let (q, found, count) := nameRepetitions owner found count q
    (.seq p q, found, count)
  | .alt p q =>
    let (p, found, count) := nameRepetitions owner found count p
    let (q, found, count) := nameRepetitions owner found count q
    (.alt p q, found, count)
  | .ranked rank side p =>
    let (p, found, count) := nameRepetitions owner found count p
    (.ranked rank side p, found, count)
  | .favoured favour p =>
    let (p, found, count) := nameRepetitions owner found count p
    (.favoured favour p, found, count)
  | .renamed name p =>
    let (p, found, count) := nameRepetitions owner found count p
    (.renamed name p, found, count)
  | p => (p, found, count)

/-- All definitions of a grammar: its own first, then those made for repetitions. A repetition is
read as two shorter ones or as the repeated rule. -/
def Language.definitions (g : Language) : Array Definition :=
  let (own, found) := g.rules.foldl (fun (done, found) (name, rule) =>
    let (rule, found, _) := rule.nameRepetitions name found 0
    (done.push { name, rule, hidden := g.hidden.contains name, repetition := false }, found))
    ((#[] : Array Definition), ([] : Repetitions))
  own ++ (found.map fun (name, inner) =>
    { name, rule := .alt (.seq (.ref name) (.ref name)) inner, hidden := true,
      repetition := true : Definition }).toArray

/-- The favour of two parts of a production: the stronger one, the first among equals. -/
def strongerFavour (a b : Int) : Int := if a.natAbs < b.natAbs then b else a

/-- The rank, side and name that surround a part of a rule. -/
structure Surrounding where
  rank : Option Int
  side : Option Side
  shownAs : Option String

/-- Gives the last of some steps a new rank and side. -/
def setLast (rank : Option Int) (side : Option Side) : List Step → List Step
  | [] => []
  | [s] => [{ s with rank, side }]
  | s :: ss => s :: setLast rank side ss

/-- The sequences that a rule stands for. A rank holds inside its part; where more follows, the last
step of the part has the rank around it. -/
def Rule.flatten (number : String → Nat) (around : Surrounding) (atEnd : Bool) :
    Rule → List Production
  | .blank => [⟨[], 0⟩]
  | .token key => [⟨[⟨number key, around.rank, around.side, around.shownAs⟩], 0⟩]
  | .ref name => [⟨[⟨number name, around.rank, around.side, around.shownAs⟩], 0⟩]
  | .seq p q =>
    let right := flatten number around atEnd q
    (flatten number around false p).flatMap fun a =>
      right.map fun b => ⟨a.steps ++ b.steps, strongerFavour a.favour b.favour⟩
  | .alt p q => flatten number around atEnd p ++ flatten number around atEnd q
  | .repeat1 p => flatten number around atEnd p
  | .ranked rank side p =>
    let inside := flatten number { around with rank := some rank, side := side <|> around.side } atEnd p
    if atEnd then inside
    else inside.map fun a => { a with steps := setLast around.rank around.side a.steps }
  | .favoured favour p =>
    (flatten number around atEnd p).map fun a =>
      { a with favour := strongerFavour favour a.favour }
  | .renamed name p => flatten number { around with shownAs := some name } atEnd p

/-- The steps of an inlined production in place of `old`: they take its name where they have none,
and the last one its rank and side. -/
def inlineSteps (old : Step) : List Step → List Step
  | [] => []
  | [s] => [{ s with shownAs := s.shownAs <|> old.shownAs, rank := s.rank <|> old.rank,
                     side := s.side <|> old.side }]
  | s :: ss => { s with shownAs := s.shownAs <|> old.shownAs } :: inlineSteps old ss

/-- Replaces inlined symbols from left to right; `done` is the finished part in reverse. -/
def inlineProduction (inlined : Nat → Option (List Production)) :
    (fuel : Nat) → (done : List Step) → Production → List Production
  | 0, done, p => [{ p with steps := done.reverse ++ p.steps }]
  | fuel + 1, done, p =>
    match p.steps with
    | [] => [{ p with steps := done.reverse }]
    | s :: rest =>
      match inlined s.symbol with
      | none => inlineProduction inlined fuel (s :: done) { p with steps := rest }
      | some choices =>
        choices.flatMap fun q => inlineProduction inlined fuel done
          ⟨inlineSteps s q.steps ++ rest, strongerFavour p.favour q.favour⟩

/-- A grammar as productions. -/
structure Expansion where
  language : Language
  definitions : Array Definition
  /-- The productions of each definition. -/
  productions : Array (List Production)
  number : Std.HashMap String Nat

namespace Expansion

def tokenCount (e : Expansion) : Nat := e.language.tokens.size

/-- The symbol of the end of the text. -/
def endSymbol (e : Expansion) : Nat := e.tokenCount

/-- The symbol of the definition with the given index. -/
def symbolOf (e : Expansion) (i : Nat) : Nat := e.tokenCount + 1 + i

def symbolCount (e : Expansion) : Nat := e.tokenCount + 1 + e.definitions.size

def isToken (e : Expansion) (symbol : Nat) : Bool := symbol ≤ e.tokenCount

/-- The index of the definition that a symbol stands for. -/
def indexOf (e : Expansion) (symbol : Nat) : Nat := symbol - (e.tokenCount + 1)

def definitionOf (e : Expansion) (symbol : Nat) : Option Definition :=
  if e.isToken symbol then none else e.definitions[e.indexOf symbol]?

def productionsOf (e : Expansion) (symbol : Nat) : List Production :=
  if e.isToken symbol then [] else e.productions[e.indexOf symbol]?.getD []

/-- The number of a token or definition; all names in a grammar are defined. -/
def find (e : Expansion) (name : String) : Nat := e.number.getD name 0

end Expansion

/-- Longest chain of inlined steps that a production may hold. -/
def inlineFuel : Nat := 100

def Language.expand (g : Language) : Expansion :=
  let definitions := g.definitions
  let offset := g.tokens.size + 1
  let number := (g.tokens.mapIdx fun i t => (t.key, i)).foldl
    (fun m (name, i) => m.insert name i)
    ((definitions.mapIdx fun i d => (d.name, offset + i)).foldl
      (fun m (name, i) => m.insert name i) (∅ : Std.HashMap String Nat))
  let flat := definitions.map fun d =>
    (d.rule.flatten (number.getD · 0) ⟨none, none, none⟩ true).eraseDups
  let inlinedNumbers := g.inlined.map (number.getD · 0)
  let inlined (symbol : Nat) : Option (List Production) :=
    if inlinedNumbers.contains symbol then flat[symbol - offset]? else none
  { language := g, definitions, number,
    productions := flat.map fun ps =>
      (ps.flatMap (inlineProduction inlined inlineFuel [])).eraseDups }

end StructProjection.Grammar
