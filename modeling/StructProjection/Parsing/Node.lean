import StructProjection.Parsing.Tree

/-! # Nodes

The visible part of a tree, with the place of each node in the text.
-/

namespace StructProjection.Parsing

open StructProjection.Grammar

/-- What a reader of a tree sees of a node. -/
structure NodeInfo where
  kind : String
  /-- Named, as opposed to a mark or a word of the grammar. -/
  named : Bool
  /-- Text that fits nowhere. -/
  isError : Bool
  isMissing : Bool
  /-- There is an error somewhere in the node. -/
  hasError : Bool
  isExtra : Bool
  start : Extent
  stop : Extent
  deriving Inhabited

inductive Node
  | mk (info : NodeInfo) (children : List Node)
  deriving Inhabited

namespace Node

def info : Node → NodeInfo
  | .mk i _ => i

def children : Node → List Node
  | .mk _ cs => cs

def namedChildren (n : Node) : List Node := n.children.filter (·.info.named)

/-- It is an error or a missing token. -/
def faulty (n : Node) : Bool := n.info.isError || n.info.isMissing

/-- It is faulty, or something in it is. -/
def showsError (n : Node) : Bool := n.faulty || n.info.hasError

end Node

private def kindName (t : Table) : Kind → String × Bool
  | .error => ("ERROR", true)
  | .skipped => ("", false)
  | .symbol n =>
    match t.expansion.definitionOf n with
    | some d => (d.name, true)
    | none =>
      match t.expansion.language.tokens[n]? with
      | some k => (k.shown, k.named)
      | none => ("end", false)

mutual

/-- The visible nodes of a tree whose text with its blanks begins at `place`, and behind them `more`;
`shownAs` is the name that the node above gives to the tree. -/
def nodesOf (t : Table) (place : Extent) (shownAs : Option String) (more : List Node) :
    Tree → List Node
  | .node l cs =>
    let start := place + l.before
    let (kind, named) := match shownAs with
      | some a => (a, true)
      | none => kindName t l.kind
    if shownAs.isSome || l.visible then
      let below := nodesOfAll t place (shapeOf t l.shape) [] cs
      .mk { kind, named, isError := l.kind.isError, isMissing := l.missing,
            hasError := l.missing || 0 < l.cost || below.any Node.showsError, isExtra := l.extra,
            start, stop := start + l.size } below :: more
    else nodesOfAll t place (shapeOf t l.shape) more cs

/-- The visible nodes of trees that follow each other, and behind them `more`; `names` are the names
given to those that are no extras. -/
def nodesOfAll (t : Table) (place : Extent) (names : List (Option String)) (more : List Node) :
    List Tree → List Node
  | [] => more
  | .node l cs :: rest =>
    let names' := if l.extra then names else names.drop 1
    let following := nodesOfAll t (place + (l.before + l.size)) names' more rest
    nodesOf t place (if l.extra then none else names.head?.bind id) following (.node l cs)

end

mutual

/-- The first error or missing token of a node, in the order of the text. -/
def firstError : Node → Option Node
  | .mk i cs =>
    if i.isError || i.isMissing then some (.mk i cs)
    else if i.hasError then firstErrorAmong cs
    else none

def firstErrorAmong : List Node → Option Node
  | [] => none
  | n :: ns => (firstError n).or (firstErrorAmong ns)

end

/-- The root of a tree. -/
def rootOf (t : Table) (tree : Tree) : Option Node := (nodesOf t .zero none [] tree).head?

end StructProjection.Parsing
