import StructProjection.Grammar.Table

/-! # Trees with errors

Trees over a text. A tree carries the cost of the errors in it, so that of several readings of a
text the cheapest can be chosen.
-/

namespace StructProjection.Parsing

open StructProjection.Grammar

/-- A stretch of text, or a place in it as the stretch before it. -/
structure Extent where
  chars : Nat
  bytes : Nat
  /-- The number of line feeds. -/
  rows : Nat
  deriving DecidableEq, Inhabited

namespace Extent

def zero : Extent := ⟨0, 0, 0⟩

instance : Add Extent := ⟨fun a b => ⟨a.chars + b.chars, a.bytes + b.bytes, a.rows + b.rows⟩⟩

instance : Sub Extent := ⟨fun a b => ⟨a.chars - b.chars, a.bytes - b.bytes, a.rows - b.rows⟩⟩

end Extent

/-- What a tree stands for. -/
inductive Kind
  | symbol (n : Nat)
  /-- Text that fits nowhere. -/
  | error
  /-- Text skipped while recovering from an error. -/
  | skipped
  deriving DecidableEq, Inhabited

namespace Kind

def isError (k : Kind) : Bool := k = .error

/-- A node made of text that could not be read. -/
def isFault : Kind → Bool
  | .symbol _ => false
  | _ => true

end Kind

/-- What is known about a tree without looking into it. -/
structure Label where
  kind : Kind
  /-- Blanks before it. -/
  before : Extent
  size : Extent
  /-- Stands outside the grammar: a comment, an error, or the end of the text. -/
  extra : Bool
  /-- Not in the text, but supplied to go on. -/
  missing : Bool
  /-- A word read as the word token at first. -/
  isWord : Bool
  /-- The state in which a token was read. -/
  state : Nat
  cost : Nat
  favour : Int
  visible : Bool
  /-- Visible nodes just below. -/
  children : Nat
  /-- Visible nodes below. -/
  descendants : Nat
  /-- The names that the node gives to its children. -/
  shape : Nat
  deriving Inhabited

inductive Tree
  | node (label : Label) (children : List Tree)
  deriving Inhabited

/-! ## The cost of errors -/

def costOfRecovery : Nat := 500
def costOfMissing : Nat := 110
def costOfTree : Nat := 100
def costOfByte : Nat := 1
def costOfRow : Nat := 30

/-- The cost of skipping some text. -/
def Extent.cost (e : Extent) : Nat := costOfByte * e.bytes + costOfRow * e.rows

namespace Tree

def label : Tree → Label
  | .node l _ => l

def children : Tree → List Tree
  | .node _ cs => cs

def kind (t : Tree) : Kind := t.label.kind

def extra (t : Tree) : Bool := t.label.extra

/-- The text of a tree with the blanks before it. -/
def total (t : Tree) : Extent := t.label.before + t.label.size

def cost (t : Tree) : Nat :=
  if t.label.missing then costOfRecovery + costOfMissing else t.label.cost

def favour (t : Tree) : Int := t.label.favour

/-- How far a tree counts as progress after an error. -/
def progress (t : Tree) : Nat :=
  t.label.descendants + (if t.label.visible then 1 else 0) +
    (if t.kind = .skipped then 1 else 0)

def setExtra (t : Tree) (extra : Bool) : Tree :=
  match t with
  | .node l cs => .node { l with extra } cs

def addFavour (t : Tree) (favour : Int) : Tree :=
  match t with
  | .node l cs => .node { l with favour := l.favour + favour } cs

/-- The cost that a child adds to an error that encloses it. -/
def enclosedCost (t : Tree) : Nat :=
  if t.extra || (t.kind.isError && t.children.isEmpty) then 0
  else if t.label.visible then costOfTree
  else if t.children.isEmpty then 0
  else costOfTree * t.label.children

/-- The first token of a tree. -/
def firstKind : Tree → Kind
  | .node l [] => l.kind
  | .node _ (c :: _) => firstKind c

end Tree

/-- Whether a node of the given kind is seen by a reader of the tree. -/
def visibleKind (t : Table) : Kind → Bool
  | .error => true
  | .skipped => false
  | .symbol n =>
    if n < t.expansion.tokenCount then
      (t.expansion.language.tokens[n]?).any (·.visible)
    else (t.expansion.definitionOf n).any fun d => !d.hidden

/-- A token. -/
def Tree.leaf (t : Table) (kind : Kind) (before size : Extent) (state : Nat) (isWord : Bool) :
    Tree :=
  .node { kind, before, size, isWord, state, missing := false, cost := 0, favour := 0, children := 0,
          descendants := 0, shape := 0, visible := visibleKind t kind,
          extra := kind = .symbol t.expansion.endSymbol } []

/-- A token that is not in the text. -/
def Tree.missingLeaf (t : Table) (token : Nat) : Tree :=
  match Tree.leaf t (.symbol token) .zero .zero errorState false with
  | .node l cs => .node { l with missing := true } cs

/-- The names of the children of a node by the number of the shape; extras have none. -/
def shapeOf (t : Table) (shape : Nat) : List (Option String) := t.shapes[shape]?.getD []

/-- Takes one more child into the label of a node; `names` are those of the children to come. -/
def addChild (fault : Bool) (acc : Label × List (Option String) × Bool) (c : Tree) :
    Label × List (Option String) × Bool :=
  let (l, names, first) := acc
  let named := !c.extra && (names.head?.bind id).isSome
  let seen := named || c.label.visible
  ({ l with
      before := if first then c.label.before else l.before,
      size := if first then c.label.size else l.size + c.total,
      cost := l.cost + (if c.kind = .skipped then 0 else c.cost) +
        (if fault then c.enclosedCost else 0),
      favour := l.favour + c.favour,
      descendants := l.descendants + c.label.descendants + (if seen then 1 else 0),
      children := l.children +
        (if seen then 1 else if c.children.isEmpty then 0 else c.label.children) },
    if c.extra then names else names.drop 1, false)

/-- A node over some trees. -/
def Tree.over (t : Table) (kind : Kind) (shape : Nat) (children : List Tree) : Tree :=
  let fault := kind.isFault
  let start : Label :=
    { kind, before := .zero, size := .zero, extra := false, missing := false, isWord := false,
      state := errorState, cost := 0, favour := 0, visible := visibleKind t kind, children := 0,
      descendants := 0, shape }
  let (l, _, _) := children.foldl (addChild fault) (start, shapeOf t shape, true)
  .node (if fault then { l with cost := l.cost + costOfRecovery + l.size.cost } else l) children

/-- The order of kinds, in which the earlier of two equal readings is preferred. -/
def Kind.rank (t : Table) : Kind → Nat
  | .symbol n =>
    if n = t.expansion.endSymbol then 0
    else if n = t.wordToken then 1
    else if n < t.wordToken then n + 2
    else n + 1
  | .skipped => t.expansion.symbolCount + 1
  | .error => t.expansion.symbolCount + 2

mutual

/-- Compares two trees by kind, number of children, and then child by child. -/
def Tree.compare (t : Table) : Tree → Tree → Ordering
  | .node l cs, .node l' cs' =>
    (Ord.compare (l.kind.rank t) (l'.kind.rank t)).then
      ((Ord.compare cs.length cs'.length).then (Tree.compareAll t cs cs'))

def Tree.compareAll (t : Table) : List Tree → List Tree → Ordering
  | c :: cs, c' :: cs' => (Tree.compare t c c').then (Tree.compareAll t cs cs')
  | _, _ => .eq

end

/-- Whether the second of two readings of a text replaces the first. -/
def Tree.replaces (t : Table) (old new : Tree) : Bool :=
  if new.cost < old.cost then true
  else if old.cost < new.cost then false
  else if old.favour < new.favour then true
  else if new.favour < old.favour then false
  else if 0 < old.cost then true
  else Tree.compare t old new == .gt

/-- Splits off the extras at the end of some trees. -/
def splitExtras (ts : List Tree) : List Tree × List Tree :=
  let r := ts.reverse
  ((r.dropWhile Tree.extra).reverse, (r.takeWhile Tree.extra).reverse)

end StructProjection.Parsing
