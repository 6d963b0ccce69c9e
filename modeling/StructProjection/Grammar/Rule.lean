import StructProjection.Grammar.Pattern

/-! # Grammar rules -/

namespace StructProjection.Grammar

/-- Which of two equal operators binds first. -/
inductive Side
  | left
  | right
  deriving DecidableEq, Hashable, Inhabited

/-- The right-hand side of a definition. -/
inductive Rule
  | blank
  | token (key : String)
  | ref (name : String)
  | seq (p q : Rule)
  | alt (p q : Rule)
  | repeat1 (p : Rule)
  /-- The steps of `p` bind with the given rank, towards the given side. -/
  | ranked (rank : Int) (side : Option Side) (p : Rule)
  /-- Among several readings of one text, those of higher favour win. -/
  | favoured (favour : Int) (p : Rule)
  /-- The node that `p` gives is shown under another name. -/
  | renamed (name : String) (p : Rule)
  deriving DecidableEq, Inhabited

namespace Rule

def all : List Rule → Rule
  | [] => .blank
  | [p] => p
  | p :: ps => .seq p (all ps)

def oneOf : List Rule → Rule
  | [] => .blank
  | [p] => p
  | p :: ps => .alt p (oneOf ps)

def optional (p : Rule) : Rule := .alt p .blank

def star (p : Rule) : Rule := .alt (.repeat1 p) .blank

/-- One or more `p` with `s` between them. -/
def separated (s p : Rule) : Rule := .seq p (star (.seq s p))

end Rule

/-- What the tokens of a language look like and how they are put together. -/
structure Language where
  /-- The tokens; of two that match the same text in the same way the earlier one is read. -/
  tokens : Array Token
  /-- The definitions, the one of a whole text first. -/
  rules : Array (String × Rule)
  /-- Characters that separate tokens. -/
  blanks : CharSet
  /-- The token that may stand anywhere. -/
  comment : String
  /-- The token that words are read as before they are told from each other. -/
  wordToken : String
  /-- Words that are never read as the word token. -/
  reserved : List String
  /-- Definitions that are replaced by their alternatives wherever they are used. -/
  inlined : List String
  /-- Definitions without a node of their own. -/
  hidden : List String
  /-- Hidden definitions that are kept as steps of the automaton. -/
  kept : List String

end StructProjection.Grammar
