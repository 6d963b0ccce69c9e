import StructProjection.Parsing.Stack

/-! # Reductions

Making a node of the trees on top of a stack. Where ways down part, one version may become several.
-/

namespace StructProjection.Parsing

open StructProjection.Grammar

/-- What a reduction makes. -/
structure Contraction where
  symbol : Nat
  count : Nat
  favour : Int
  shape : Nat

def contractionOf (t : Table) : Action → Option Contraction
  | .reduce owner count favour shape => some ⟨t.expansion.symbolOf owner, count, favour, shape⟩
  | _ => none

/-- The node over the best of several sequences of trees, and the extras after it. -/
def bestNode (t : Table) (w : Contraction) :
    List (List Tree) → (Tree × List Tree) → Tree × List Tree
  | [], best => best
  | way :: ways, best =>
    let (children, extras) := splitExtras way
    if best.1.replaces t (Tree.over t (.symbol w.symbol) 0 children) then
      bestNode t w ways (Tree.over t (.symbol w.symbol) w.shape children, extras)
    else bestNode t w ways best

def pushAll (v state : Nat) : List Tree → Reading Unit
  | [] => return
  | t :: ts => do
    push v (some t) state
    pushAll v state ts

/-- Completes a reduction for each node that has been popped to; `removed` counts the versions that
are gone already. -/
def finishSlices (v : Nat) (w : Contraction) (halted : Nat) :
    List Slice → (removed : Nat) → Reading Unit
  | [], _ => return
  | s :: rest, removed => do
    let version := s.version - removed
    if maxVersions + maxExcess + halted < version then
      removeVersion version
      finishSlices v w halted rest (removed + 1)
    else
      let t := (← get).table
      match s.ways with
      | [] => finishSlices v w halted rest removed
      | way :: ways =>
        let (children, extras) := splitExtras way
        let (node, extras) :=
          bestNode t w ways (Tree.over t (.symbol w.symbol) w.shape children, extras)
        let next := t.next ((← get).state version) w.symbol
        push version (some (node.addFavour w.favour)) next
        pushAll version next extras
        let merged ← mergeIntoFirst version ((List.range version).filter (· ≠ v))
        finishSlices v w halted rest (if merged then removed + 1 else removed)

/-- Reduces a version. The new versions stand after the old ones; the answer is the first of them,
if any has not been merged into an old one. -/
def reduce (v : Nat) (w : Contraction) : Reading (Option Nat) := do
  let before := (← get).versions.size
  let found ← popCount v w.count
  finishSlices v w (← get).haltedCount found 0
  return if before < (← get).versions.size then some before else none

/-- The reductions of a state on some tokens, each once, and whether a token can be read. -/
def possibilities (t : Table) (state : Nat) (tokens : List Nat) : List Contraction × Bool :=
  tokens.foldl (fun acc token =>
    (t.actionsOn state token).foldl (fun (acc : List Contraction × Bool) a =>
      let (ws, reads) := acc
      match a with
      | .shift _ again => (ws, reads || !again)
      | .recover => (ws, true)
      | .reduce owner count favour shape =>
        let symbol := t.expansion.symbolOf owner
        if count = 0 ∨ ws.any (fun w => w.symbol = symbol ∧ w.count = count) then (ws, reads)
        else (ws ++ [⟨symbol, count, favour, shape⟩], reads)
      | _ => (ws, reads)) acc) ([], false)

def reduceEach (v : Nat) : List Contraction → Option Nat → Reading (Option Nat)
  | [], last => return last
  | w :: ws, _ => do
    let made ← reduce v w
    reduceEach v ws made

/-- Makes all reductions that are possible from version `start` before the given token, or before
any token at all; the answer tells whether the token can be read then. -/
def reduceFrom (start before : Nat) (token : Option Nat) :
    (fuel round v : Nat) → (reads : Bool) → Reading Bool
  | 0, _, _, reads => return reads
  | fuel + 1, round, v, reads => do
    let r ← get
    let count := r.versions.size
    if count ≤ v then return reads
    if ← mergeIntoFirst v ((List.range v).drop before) then
      reduceFrom start before token fuel (round + 1) v reads
    else
      let t := r.table
      let tokens := match token with
        | some n => [n]
        | none => t.missing
      let (contractions, readsHere) := possibilities t (r.state v) tokens
      let made ← reduceEach v contractions none
      let next := if v = start then count else v + 1
      if readsHere then reduceFrom start before token fuel (round + 1) next true
      else
        match made with
        | some m =>
          if round < maxVersions then
            replaceVersion m v
            reduceFrom start before token fuel (round + 1) v reads
          else
            if token.isSome then removeVersion v
            reduceFrom start before token fuel (round + 1) next reads
        | none =>
          if token.isSome then removeVersion v
          reduceFrom start before token fuel (round + 1) next reads

/-- More rounds of reductions than one token can need. -/
def roundFuel : Nat := 10000

/-- All reductions from a version; the end of the text counts as any token. -/
def reduceAll (v : Nat) (token : Option Nat) : Reading Bool := do
  reduceFrom v (← get).versions.size token roundFuel 0 v false

end StructProjection.Parsing
