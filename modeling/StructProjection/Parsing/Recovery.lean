import StructProjection.Parsing.Reduction

/-! # Recovery from errors

A reading that meets a token it cannot read either goes back to a state that can, and encloses what
lies between in an error, or skips the token; where one token is all that is missing, it is
supplied.
-/

namespace StructProjection.Parsing

open StructProjection.Grammar

/-- How good a reading is. -/
structure Standing where
  cost : Nat
  progress : Nat
  favour : Int
  inError : Bool

def standing (v : Nat) : Reading Standing := do
  let progress ← progressSinceError v
  let r ← get
  let paused := (r.pausedToken v).isSome
  return {
    cost := r.cost v + if paused then costOfTree else 0
    progress
    favour := (r.top v).favour
    inError := paused || r.state v = errorState }

/-- Which of two readings is better, and whether the other one is given up. -/
inductive Preference
  | takeFirst
  | preferFirst
  | equal
  | preferSecond
  | takeSecond
  deriving DecidableEq

def Standing.compare (a b : Standing) : Preference :=
  if !a.inError && b.inError then
    if a.cost < b.cost then .takeFirst else .preferFirst
  else if a.inError && !b.inError then
    if b.cost < a.cost then .takeSecond else .preferSecond
  else if a.cost < b.cost then
    if maxCostDifference < (b.cost - a.cost) * (1 + a.progress) then .takeFirst else .preferFirst
  else if b.cost < a.cost then
    if maxCostDifference < (a.cost - b.cost) * (1 + b.progress) then .takeSecond else .preferSecond
  else if b.favour < a.favour then .preferFirst
  else if a.favour < b.favour then .preferSecond
  else .equal

def betterAmong (v : Nat) (mine : Standing) : List Nat → Reading Bool
  | [] => return false
  | w :: ws => do
    let r ← get
    if w = v || !r.isActive w || (r.top w).place.bytes < (r.top v).place.bytes then
      betterAmong v mine ws
    else
      match mine.compare (← standing w) with
      | .takeSecond => return true
      | .preferSecond => if r.canMerge w v then return true else betterAmong v mine ws
      | _ => betterAmong v mine ws

/-- Whether another reading would be better than a version at the given cost, out of its error. -/
def betterExists (v cost : Nat) : Reading Bool := do
  let r ← get
  if r.finished.any (·.cost ≤ cost) then return true
  let mine : Standing :=
    { cost, inError := false, favour := (r.top v).favour, progress := ← progressSinceError v }
  betterAmong v mine (List.range r.versions.size)

/-- Takes the text between a state and the top of a stack as an error; the slices are the ways down
to where the state may be. The answer is whether the state is there. -/
def encloseErrors (goal : Nat) : List Slice → (done : Bool) → Reading Bool
  | [], done => return done
  | s :: rest, done => do
    let r ← get
    if r.state s.version ≠ goal then
      halt s.version
      encloseErrors goal rest done
    else
      let inner := match ← popError s.version with
        | some e => e.children
        | none => []
      let (skipped, extras) := splitExtras (inner ++ s.ways.headD [])
      if !skipped.isEmpty then
        push s.version (some ((Tree.over r.table .error 0 skipped).setExtra true)) goal
      extras.forM fun t => push s.version (some t) goal
      encloseErrors goal rest true

def recoverTo (v depth goal : Nat) : Reading Bool := do
  encloseErrors goal (← popCount v depth) false

/-- Looks among the states that a version has gone through for one that can read the token. -/
def recoverBefore (v token depthMore cost : Nat) (place : Extent) (others : List Nat) :
    List Memory → Reading Bool
  | [] => return false
  | m :: ms => do
    if m.state = errorState || m.place.bytes = place.bytes then
      recoverBefore v token depthMore cost place others ms
    else
      let r ← get
      let redundant := others.any fun w =>
        r.state w = m.state && (r.top w).place.bytes = place.bytes
      if redundant then recoverBefore v token depthMore cost place others ms
      else if ← betterExists v (cost + m.depth * costOfTree + (place - m.place).cost) then
        return false
      else if (r.table.actionsOn m.state token).isEmpty then
        recoverBefore v token depthMore cost place others ms
      else if ← recoverTo v (m.depth + depthMore) m.state then return true
      else recoverBefore v token depthMore cost place others ms

/-- Removes the halted versions from index `n` on. -/
def removeHalted (n : Nat) : Reading Unit :=
  modify fun r =>
    let late := (List.range r.versions.size).filter fun v => v < n || r.isActive v
    { r with versions := (late.map r.version).toArray }

/-- Keeps the better of the finished tree and a new one. -/
def offer (root : Tree) : Reading Unit :=
  modify fun r =>
    { r with
      finishCount := r.finishCount + 1,
      finished := match r.finished with
        | none => some root
        | some old => if old.replaces r.table root then some root else some old }

/-- The tree of a whole text: the last tree that is no extra, with all others among its children. -/
def wholeTree (t : Table) (trees : List Tree) : Option Tree :=
  let r := trees.reverse
  match r.dropWhile Tree.extra with
  | [] => none
  | .node l cs :: before =>
    some (Tree.over t l.kind l.shape (before.reverse ++ cs ++ (r.takeWhile Tree.extra).reverse))

/-- Finishes a version at the end of the text. -/
def acceptText (v : Nat) (token : Tree) : Reading Unit := do
  push v (some token) startState
  let found ← popAll v
  let t := (← get).table
  found.forM fun s => s.ways.forM fun way =>
    match wholeTree t way with
    | some root => offer root
    | none => pure ()
  match found with
  | s :: _ => removeVersion s.version
  | [] => pure ()
  halt v

def removeFrom (n : Nat) : Reading Unit :=
  modify fun r => { r with versions := r.versions.extract 0 n }

/-- Skips a token, together with what has been skipped just before. -/
def skipToken (v : Nat) (token : Tree) (joined : Bool) : Reading Unit := do
  let t := (← get).table
  let one := Tree.over t .skipped 0 [token]
  if joined then
    match ← popCount v 1 with
    | [] => push v (some one) errorState
    | s :: others =>
      if !others.isEmpty || 1 < s.ways.length then removeFrom (s.version + 1)
      replaceVersion s.version v
      push v (some (Tree.over t .skipped 0 (s.ways.headD [] ++ [one]))) errorState
  else push v (some one) errorState

/-- Goes on with a version in an error at the given token. -/
def recover (v : Nat) (token : Tree) : Reading Unit := do
  let r ← get
  let count := r.versions.size
  let place := (r.top v).place
  let joined := 0 < (← progressSinceError v)
  let cost := r.cost v
  let recovered ← match (r.version v).memories, token.kind with
    | some memories, .symbol n =>
      recoverBefore v n (if joined then 1 else 0) cost place (List.range count) memories
    | _, _ => pure false
  removeHalted count
  if recovered && maxVersions < (← get).versions.size then
    halt v
  else if token.kind = .symbol r.table.expansion.endSymbol then
    push v (some (Tree.over r.table .error 0 [])) startState
    acceptText v token
  else if ← betterExists v (cost + costOfTree + token.total.cost) then
    halt v
  else
    let isComment := token.kind = .symbol r.table.comment
    skipToken v (if isComment then token.setExtra true else token) joined

/-- Supplies a token that is missing before the given one in some version, if one is enough. -/
def supplyMissing (v : Nat) (ahead : Nat) : List Nat → Reading Bool
  | [] => return false
  | token :: tokens => do
    let r ← get
    let state := r.state v
    let next := r.table.next state token
    let reduces := match r.table.actionsOn next ahead with
      | .reduce .. :: _ => true
      | _ => false
    if next = 0 || next = state || !reduces then supplyMissing v ahead tokens
    else
      let w ← addVersion { r.version v with memories := none }
      push w (some (Tree.missingLeaf r.table token)) next
      let fits ← reduceAll w (if ahead = r.table.expansion.endSymbol then none else some ahead)
      if fits then return true else supplyMissing v ahead tokens

/-- Marks the beginning of an error on each of some versions, after an attempt at a missing token. -/
def markErrors (ahead : Option Nat) : List Nat → (supplied : Bool) → Reading Unit
  | [], _ => return
  | v :: vs, supplied => do
    let supplied ← match supplied, ahead with
      | false, some n => supplyMissing v n (← get).table.missing
      | s, _ => pure s
    push v none errorState
    markErrors ahead vs supplied

def mergeTimes (v w : Nat) : (times : Nat) → Reading Unit
  | 0 => return
  | n + 1 => do
    let _ ← merge v w
    mergeTimes v w n

/-- Begins the recovery of a version from an error at the given token. -/
def handleError (v : Nat) (token : Tree) : Reading Unit := do
  let before := (← get).versions.size
  let _ ← reduceAll v none
  let after := (← get).versions.size
  let ahead := match token.firstKind with
    | .symbol n => some n
    | _ => none
  markErrors ahead (v :: (List.range after).drop before) false
  mergeTimes v before (after - before)
  remember v
  recover v token

end StructProjection.Parsing
