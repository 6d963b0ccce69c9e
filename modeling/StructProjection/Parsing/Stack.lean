import StructProjection.Parsing.Source

/-! # Stacks of several readings

A text can have several readings at once. Each has a stack of states and trees; the stacks share
what they have in common, and where two readings meet in one state they are merged, so that a stack
is a graph with one or more ways down.
-/

namespace StructProjection.Parsing

open StructProjection.Grammar

/-- A way down from a node of a stack; without a tree it marks the beginning of an error. -/
structure Link where
  node : Nat
  tree : Option Tree
  deriving Inhabited

structure StackNode where
  state : Nat
  links : List Link
  place : Extent
  /-- The cost of the errors below. -/
  cost : Nat
  /-- How many nodes have been made below. -/
  progress : Nat
  favour : Int
  deriving Inhabited

/-- A state that an erroneous reading has gone through. -/
structure Memory where
  place : Extent
  depth : Nat
  state : Nat

inductive Status
  | active
  /-- Stopped at a token that it cannot read. -/
  | paused (token : Tree)
  | halted
  deriving Inhabited

/-- One reading. -/
structure Version where
  top : Nat
  progressAtError : Nat
  status : Status
  memories : Option (List Memory)
  deriving Inhabited

/-- All readings of a text so far. -/
structure Readings where
  table : Table
  source : Source
  nodes : Array StackNode
  versions : Array Version
  /-- The token that was read last, with the place before it. -/
  lookahead : Option (Nat × Tree)
  finished : Option Tree
  finishCount : Nat

abbrev Reading := StateM Readings

/-! ## Limits -/

def maxVersions : Nat := 6
/-- How far the number of versions may go beyond the limit for a while. -/
def maxExcess : Nat := 4
def maxLinks : Nat := 8
def maxWalkers : Nat := 64
def maxDepth : Nat := 16
/-- A reading that is worse than another one by more than this is given up. -/
def maxCostDifference : Nat := 18 * costOfTree

namespace Readings

def node (r : Readings) (n : Nat) : StackNode := r.nodes[n]?.getD default

def version (r : Readings) (v : Nat) : Version := r.versions[v]?.getD default

/-- The uppermost node of a version. -/
def top (r : Readings) (v : Nat) : StackNode := r.node (r.version v).top

def state (r : Readings) (v : Nat) : Nat := (r.top v).state

def isActive (r : Readings) (v : Nat) : Bool := match (r.version v).status with
  | .active => true
  | _ => false

def pausedToken (r : Readings) (v : Nat) : Option Tree := match (r.version v).status with
  | .paused token => some token
  | _ => none

def isHalted (r : Readings) (v : Nat) : Bool := match (r.version v).status with
  | .halted => true
  | _ => false

def haltedCount (r : Readings) : Nat := (List.range r.versions.size).countP r.isHalted

/-- The cost of a version, which has more to pay if it has just met an error. -/
def cost (r : Readings) (v : Nat) : Nat :=
  let n := r.top v
  let inError := (r.pausedToken v).isSome ||
    (n.state = errorState && match n.links with
      | l :: _ => l.tree.isNone
      | [] => false)
  n.cost + if inError then costOfRecovery else 0

def canMerge (r : Readings) (v w : Nat) : Bool :=
  let a := r.top v
  let b := r.top w
  r.isActive v && r.isActive w && a.state = b.state && a.place.bytes = b.place.bytes &&
    a.cost = b.cost

end Readings

/-! ## Changing versions -/

def modifyVersion (v : Nat) (f : Version → Version) : Reading Unit :=
  modify fun r => { r with versions := r.versions.modify v f }

def removeVersion (v : Nat) : Reading Unit :=
  modify fun r => { r with versions := r.versions.eraseIdxIfInBounds v }

def addVersion (x : Version) : Reading Nat :=
  modifyGet fun r => (r.versions.size, { r with versions := r.versions.push x })

def halt (v : Nat) : Reading Unit := modifyVersion v fun x => { x with status := .halted }

def pause (v : Nat) (token : Tree) : Reading Unit :=
  modify fun r =>
    let progress := (r.top v).progress
    { r with versions := r.versions.modify v fun x =>
        { x with status := .paused token, progressAtError := progress } }

/-- Puts one version in the place of another, whose memories it takes over if it has none. -/
def replaceVersion (v w : Nat) : Reading Unit :=
  if v = w then pure () else
    modify fun r =>
      let x := r.version v
      let x := { x with memories := x.memories <|> (r.version w).memories }
      { r with versions := (r.versions.setIfInBounds w x).eraseIdxIfInBounds v }

def swapVersions (v w : Nat) : Reading Unit :=
  modify fun r =>
    let x := r.version v
    let y := r.version w
    { r with versions := (r.versions.setIfInBounds v y).setIfInBounds w x }

/-- Pushes a tree, or the mark of an error, onto the stack of a version. -/
def push (v : Nat) (tree : Option Tree) (state : Nat) : Reading Unit :=
  modify fun r =>
    let below := (r.version v).top
    let b := r.node below
    let n : StackNode := match tree with
      | none => { b with state, links := [⟨below, none⟩] }
      | some t =>
        { state, links := [⟨below, tree⟩], place := b.place + t.total, cost := b.cost + t.cost,
          progress := b.progress + t.progress, favour := b.favour + t.favour }
    let new := r.nodes.size
    { r with
      nodes := r.nodes.push n,
      versions := r.versions.modify v fun x =>
        { x with
          top := new,
          progressAtError := if tree.isNone then n.progress else x.progressAtError } }

/-- The progress of a version since its last error. -/
def progressSinceError (v : Nat) : Reading Nat := do
  let r ← get
  let now := (r.top v).progress
  let then_ := (r.version v).progressAtError
  if now < then_ then modifyVersion v fun x => { x with progressAtError := now }
  return now - then_

/-! ## Merging -/

/-- Whether two trees can stand for each other between the same nodes. -/
def equivalent (a b : Option Tree) : Bool :=
  match a, b with
  | none, none => true
  | some a, some b =>
    a.kind = b.kind &&
      ((0 < a.cost && 0 < b.cost) ||
        (a.label.before.bytes = b.label.before.bytes && a.label.size.bytes = b.label.size.bytes &&
          a.children.length = b.children.length && a.extra = b.extra))
  | _, _ => false

def favourOf (t : Option Tree) : Int := (t.map Tree.favour).getD 0

/-- What becomes of a new link at a node with some links. -/
inductive LinkPlace
  /-- The link with this index leads the same way; the better tree stays. -/
  | same (index : Nat)
  /-- The link with this index leads to a node that can be merged with that of the new one. -/
  | mergeable (index : Nat)
  | new

def placeLink (nodes : Array StackNode) (link : Link) : List Link → Nat → LinkPlace
  | [], _ => .new
  | l :: ls, i =>
    if equivalent l.tree link.tree then
      if l.node = link.node then .same i
      else
        let a := nodes[l.node]?.getD default
        let b := nodes[link.node]?.getD default
        if a.state = b.state ∧ a.place.bytes = b.place.bytes ∧ a.cost = b.cost then .mergeable i
        else placeLink nodes link ls (i + 1)
    else placeLink nodes link ls (i + 1)

/-- Adds a way down to a node. -/
def addLink : (fuel : Nat) → Array StackNode → Nat → Link → Array StackNode
  | 0, nodes, _, _ => nodes
  | fuel + 1, nodes, n, link =>
    if link.node = n then nodes else
      let self := nodes[n]?.getD default
      let below := nodes[link.node]?.getD default
      match placeLink nodes link self.links 0 with
      | .same i =>
        let old := self.links[i]?.getD default
        if favourOf old.tree < favourOf link.tree then
          nodes.setIfInBounds n
            { self with
              links := self.links.set i { old with tree := link.tree },
              favour := below.favour + favourOf link.tree }
        else nodes
      | .mergeable i =>
        let target := (self.links[i]?.getD default).node
        let nodes := below.links.foldl (fun nodes l => addLink fuel nodes target l) nodes
        nodes.modify n fun s =>
          { s with favour := max s.favour (below.favour + favourOf link.tree) }
      | .new =>
        if maxLinks ≤ self.links.length then nodes
        else
          nodes.setIfInBounds n
            { self with
              links := self.links ++ [link],
              progress := max self.progress
                (below.progress + ((link.tree.map Tree.progress).getD 0)),
              favour := max self.favour (below.favour + favourOf link.tree) }

/-- Merges the second version into the first if they are in one state at one place. -/
def merge (v w : Nat) : Reading Bool := do
  let r ← get
  if !r.canMerge v w then return false
  let n := (r.version v).top
  let links := (r.top w).links
  modify fun r =>
    let fuel := r.nodes.size + 1
    { r with nodes := links.foldl (fun nodes l => addLink fuel nodes n l) r.nodes }
  let r ← get
  if r.state v = errorState then
    let progress := (r.top v).progress
    modifyVersion v fun x => { x with progressAtError := progress }
  removeVersion w
  return true

/-- Merges a version into the first of some others with which that is possible. -/
def mergeIntoFirst (w : Nat) : List Nat → Reading Bool
  | [] => return false
  | v :: vs => do
    if ← merge v w then return true
    mergeIntoFirst w vs

/-! ## Walking down -/

/-- A way down a stack: the trees on it from below, and how many of them count. -/
structure Walker where
  node : Nat
  trees : List Tree
  count : Nat

/-- What a walk does at a node. -/
structure Visit where
  /-- The way down to here is one of the answers. -/
  take : Bool
  stop : Bool

def Walker.follow (w : Walker) (l : Link) : Walker :=
  match l.tree with
  | none => { w with node := l.node, count := w.count + 1 }
  | some t =>
    { node := l.node, trees := t :: w.trees, count := if t.extra then w.count else w.count + 1 }

/-- One step of all walkers, in order. Where ways part, new walkers go to the end. -/
def walkStep {σ : Type} (nodes : Array StackNode) (visit : σ → Walker → Visit × σ) :
    List Walker → (kept added : List Walker) → (taken : List Walker) → σ →
    List Walker × List Walker × σ
  | [], kept, added, taken, s => (kept.reverse ++ added.reverse, taken, s)
  | w :: ws, kept, added, taken, s =>
    let (act, s) := visit s w
    let taken := if act.take then w :: taken else taken
    match (nodes[w.node]?.getD default).links, act.stop with
    | first :: others, false =>
      let room := maxWalkers - (ws.length + 1 + kept.length + added.length)
      let parted := (others.take room).map w.follow
      walkStep nodes visit ws (w.follow first :: kept) (parted.reverse ++ added) taken s
    | _, _ => walkStep nodes visit ws kept added taken s

def walkAll {σ : Type} (nodes : Array StackNode) (visit : σ → Walker → Visit × σ) :
    (fuel : Nat) → List Walker → (taken : List Walker) → σ → List Walker × σ
  | 0, _, taken, s => (taken.reverse, s)
  | _, [], taken, s => (taken.reverse, s)
  | fuel + 1, w :: ws, taken, s =>
    let (walkers, taken, s) := walkStep nodes visit (w :: ws) [] [] taken s
    walkAll nodes visit fuel walkers taken s

/-- Walks down the stack of a version; the answers are in the order in which they are found. -/
def walk {σ : Type} (r : Readings) (v : Nat) (visit : σ → Walker → Visit × σ) (s : σ) :
    List Walker × σ :=
  walkAll r.nodes visit (r.nodes.size + 1) [⟨(r.version v).top, [], 0⟩] [] s

/-- A version that a walk leads to, with the trees on each way to it. -/
structure Slice where
  version : Nat
  node : Nat
  ways : List (List Tree)

/-- Makes a version for each node that has been reached; ways to one node belong together. -/
def slices (v : Nat) : List Walker → List Slice → Reading (List Slice)
  | [], done => return done
  | w :: ws, done => do
    if done.any (·.node = w.node) then
      slices v ws (done.map fun s =>
        if s.node = w.node then { s with ways := s.ways ++ [w.trees] } else s)
    else
      let x := (← get).version v
      let new ← addVersion { x with top := w.node, status := .active, memories := none }
      slices v ws (done ++ [⟨new, w.node, [w.trees]⟩])

/-- Pops the given number of trees, not counting extras. -/
def popCount (v count : Nat) : Reading (List Slice) := do
  let (found, _) := walk (← get) v (fun (_ : Unit) w =>
    let here := w.count = count
    (⟨here, here⟩, ())) ()
  slices v found []

/-- Pops everything. -/
def popAll (v : Nat) : Reading (List Slice) := do
  let r ← get
  let (found, _) := walk r v (fun (_ : Unit) w =>
    (⟨(r.node w.node).links.isEmpty, false⟩, ())) ()
  slices v found []

/-- Pops the tree on top if it is an error. -/
def popError (v : Nat) : Reading (Option Tree) := do
  let r ← get
  let isError (t : Option Tree) : Bool := t.any (·.kind.isError)
  if !(r.top v).links.any (isError ·.tree) then return none
  let (found, _) := walk r v (fun found w =>
    match w.trees with
    | [] => (⟨false, false⟩, found)
    | t :: _ =>
      if !found && t.kind.isError then (⟨true, true⟩, true) else (⟨false, true⟩, found)) false
  match ← slices v found [] with
  | s :: _ =>
    replaceVersion s.version v
    return s.ways.head?.bind (·.head?)
  | [] => return none

/-- Notes the states that a version has gone through, each once for a depth. -/
def remember (v : Nat) : Reading Unit := do
  let r ← get
  let visit (known : List Memory) (w : Walker) : Visit × List Memory :=
    let state := (r.node w.node).state
    if maxDepth < w.count then (⟨false, true⟩, known)
    else if (known.takeWhile (w.count ≤ ·.depth)).any
        (fun m => m.depth = w.count && m.state = state) then (⟨false, false⟩, known)
    else (⟨false, false⟩, ⟨(r.node w.node).place, w.count, state⟩ :: known)
  let (_, known) := walk r v visit []
  modifyVersion v fun x => { x with memories := some known.reverse }

end StructProjection.Parsing
