import StructProjection.Text.Letter

/-! # Token patterns

Regular patterns over classes of characters, and the tokens they describe. Two characters of one
class are read alike by every pattern, so that a set of characters is a number whose bit `k` stands
for the class numbered `k`.
-/

namespace StructProjection.Grammar

/-- A set of character classes. -/
abbrev CharSet := Nat

/-- Each ASCII character is a class of its own; letters, other marks of names, and the remaining
characters beyond ASCII are one class each. -/
def classCount : Nat := 131

def classOf (c : Char) : Nat :=
  if c.toNat < 128 then c.toNat
  else match Text.wideRole c.toNat with
    | .start => 128
    | .extend => 129
    | .outside => 130

namespace CharSet

def has (s : CharSet) (k : Nat) : Bool := s.testBit k

def ofClass (k : Nat) : CharSet := 1 <<< k

def ofString (s : String) : CharSet := s.toList.foldl (fun s c => s ||| ofClass (classOf c)) 0

/-- The ASCII characters from `first` to `last`. -/
def range (first last : Char) : CharSet :=
  (List.range (last.toNat + 1 - first.toNat)).foldl (fun s i => s ||| ofClass (first.toNat + i)) 0

/-- All characters but those of `s`. -/
def except (s : CharSet) : CharSet := (1 <<< classCount - 1) ^^^ s

end CharSet

/-- A regular pattern. -/
inductive Pattern
  | empty
  | one (s : CharSet)
  | seq (p q : Pattern)
  | alt (p q : Pattern)
  | repeat1 (p : Pattern)

namespace Pattern

def optional (p : Pattern) : Pattern := .alt p .empty

def star (p : Pattern) : Pattern := .alt (.repeat1 p) .empty

def ofList (ps : List Pattern) : Pattern := ps.foldr .seq .empty

/-- One of the patterns; the list is not empty. -/
def oneOf : List Pattern → Pattern
  | [] => .empty
  | [p] => p
  | p :: ps => .alt p (oneOf ps)

/-- Exactly this text. -/
def text (s : String) : Pattern := ofList (s.toList.map fun c => .one (.ofClass (classOf c)))

/-- One of the characters of the text. -/
def anyOf (s : String) : Pattern := .one (.ofString s)

/-- Any character that the text does not hold. -/
def noneOf (s : String) : Pattern := .one (CharSet.except (.ofString s))

def times (n : Nat) (p : Pattern) : Pattern := ofList (List.replicate n p)

end Pattern

/-- A kind of token. -/
structure Token where
  /-- How the rules name the token. -/
  key : String
  /-- The kind that a message gives. -/
  shown : String
  pattern : Pattern
  /-- The text of a token that is written in one way; it goes before a pattern that matches it. -/
  literal : Option String
  /-- Follows the token before it without a blank. -/
  attached : Bool
  /-- Read as far as possible even where other tokens could begin. -/
  greedy : Bool
  /-- Seen by a reader of the tree as a node of its own. -/
  visible : Bool
  /-- A node with a name, not punctuation. -/
  named : Bool

namespace Token

/-- A word or mark that is written in one way. -/
def mark (s : String) : Token :=
  { key := s, shown := s, pattern := .text s, literal := some s, attached := false, greedy := false,
    visible := true, named := false }

/-- A named token that is written in one way. -/
def word (name s : String) : Token :=
  { mark s with key := name, shown := name, named := true }

/-- A named token that matches a pattern. -/
def matching (name : String) (p : Pattern) : Token :=
  { key := name, shown := name, pattern := p, literal := none, attached := false, greedy := false,
    visible := true, named := true }

/-- How strongly a token is preferred to another one that matches the same text. -/
def weight (t : Token) : Nat := (if t.literal.isSome then 2 else 0) + (if t.attached then 1 else 0)

def strength (t : Token) : Nat := if t.greedy then 1 else 0

end Token

end StructProjection.Grammar
