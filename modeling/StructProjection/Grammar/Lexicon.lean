import StructProjection.Grammar.Production

/-! # Reading tokens

A machine that reads the tokens of a grammar, and how its tokens can be mistaken for each other.
-/

namespace StructProjection.Grammar

/-- One place in the patterns of the tokens. -/
inductive Spot
  | read (set : CharSet) (next : Nat)
  /-- Reads a blank before the token. -/
  | blank (set : CharSet) (next : Nat)
  | fork (a b : Nat)
  | accept
  deriving Inhabited

/-- The patterns of all tokens as a graph of spots. -/
structure Lexicon where
  tokens : Array Token
  spots : Array Spot
  /-- The token to whose pattern a spot belongs. -/
  owner : Array Nat
  /-- Where each token begins. -/
  starts : Array Nat
  /-- The spots that can be reached from a spot without reading, in order. -/
  reach : Array (List Nat)

/-- Lays out a pattern in front of the spot `next`; the answer is where it begins. -/
def Pattern.layOut (next : Nat) : Pattern → Array Spot → Nat × Array Spot
  | .empty, spots => (next, spots)
  | .one s, spots => (spots.size, spots.push (.read s next))
  | .seq p q, spots =>
    let (mid, spots) := layOut next q spots
    layOut mid p spots
  | .alt p q, spots =>
    let (a, spots) := layOut next p spots
    let (b, spots) := layOut next q spots
    (spots.size, spots.push (.fork a b))
  | .repeat1 p, spots =>
    let loop := spots.size
    let (a, spots) := layOut loop p (spots.push (.fork next next))
    (a, spots.setIfInBounds loop (.fork a next))

/-- Lays out a token, with any number of blanks before it unless it is attached. -/
def Token.layOut (blanks : CharSet) (t : Token) (spots : Array Spot) : Nat × Array Spot :=
  let (body, spots) := t.pattern.layOut spots.size (spots.push .accept)
  if t.attached then (body, spots)
  else
    let loop := spots.size
    (loop, (spots.push (.fork (loop + 1) body)).push (.blank blanks loop))

/-- Merges two ordered lists. -/
def mergeOrdered : List Nat → List Nat → List Nat
  | [], bs => bs
  | as, [] => as
  | a :: as, b :: bs =>
    if a < b then a :: mergeOrdered as (b :: bs)
    else if b < a then b :: mergeOrdered (a :: as) bs
    else a :: mergeOrdered as bs
  termination_by as bs => as.length + bs.length

/-- The spots reached through forks alone. -/
def reachFrom (spots : Array Spot) : (fuel : Nat) → (pending seen : List Nat) → List Nat
  | 0, _, seen => seen
  | _, [], seen => seen
  | fuel + 1, n :: pending, seen =>
    if seen.contains n then reachFrom spots fuel pending seen
    else match spots[n]? with
      | some (.fork a b) => reachFrom spots fuel (a :: b :: pending) (n :: seen)
      | _ => reachFrom spots fuel pending (n :: seen)

def Lexicon.ofTokens (tokens : Array Token) (blanks : CharSet) : Lexicon :=
  let (spots, owner, starts) := tokens.foldl (fun (spots, owner, starts) t =>
    let (start, spots) := t.layOut blanks spots
    let i := starts.size
    (spots, owner ++ Array.replicate (spots.size - owner.size) i, starts.push start))
    ((#[] : Array Spot), (#[] : Array Nat), (#[] : Array Nat))
  let isFork (n : Nat) : Bool := match spots[n]? with
    | some (.fork _ _) => true
    | _ => false
  { tokens, spots, owner, starts,
    reach := spots.mapIdx fun n _ =>
      ((reachFrom spots (3 * spots.size) [n] []).filter fun m => !isFork m).mergeSort (· ≤ ·) }

/-- Characters that lead from one set of spots to another. -/
structure Move where
  chars : CharSet
  blank : Bool
  strength : Nat
  targets : List Nat
  deriving BEq

namespace Lexicon

def ownerOf (x : Lexicon) (spot : Nat) : Nat := x.owner[spot]?.getD 0

def token (x : Lexicon) (i : Nat) : Token := x.tokens[i]?.getD (.mark "")

/-- The spots that can be reached from some spots without reading. -/
def reached (x : Lexicon) (spots : List Nat) : List Nat :=
  spots.foldl (fun out n => mergeOrdered out (x.reach[n]?.getD [])) []

/-- Adds the characters that one spot reads, where other spots may read some of them as well. -/
private def addMove (chars : CharSet) (blank : Bool) (strength target : Nat) :
    List Move → List Move
  | [] => if chars = 0 then [] else [⟨chars, blank, strength, [target]⟩]
  | m :: ms =>
    let both := m.chars &&& chars
    if both = 0 then m :: addMove chars blank strength target ms
    else
      let joint : Move := ⟨both, m.blank && blank, max m.strength strength,
        mergeOrdered m.targets [target]⟩
      let rest := addMove (chars ^^^ both) blank strength target ms
      let only := m.chars ^^^ both
      if only = 0 then joint :: rest else joint :: { m with chars := only } :: rest

/-- Joins moves that differ in their characters only. -/
private def joinMoves : List Move → List Move → List Move
  | done, [] => done.reverse
  | done, m :: ms =>
    if done.any fun d => d.blank == m.blank && d.strength == m.strength && d.targets == m.targets
    then joinMoves (done.map fun d =>
      if d.blank == m.blank && d.strength == m.strength && d.targets == m.targets
      then { d with chars := d.chars ||| m.chars } else d) ms
    else joinMoves (m :: done) ms

/-- What can be read from a set of spots, without overlap. -/
def moves (x : Lexicon) (spots : List Nat) : List Move :=
  joinMoves [] <| spots.foldl (fun ms (n : Nat) =>
    match x.spots[n]? with
    | some (.read s next) => addMove s false (x.token (x.ownerOf n)).strength next ms
    | some (.blank s next) => addMove s true 0 next ms
    | _ => ms) []

def isBlank (x : Lexicon) (n : Nat) : Bool := match x.spots[n]? with
  | some (.blank _ _) => true
  | _ => false

/-- The tokens that are complete at some of the spots. -/
def complete (x : Lexicon) (spots : List Nat) : List Nat :=
  spots.filterMap fun (n : Nat) => match x.spots[n]? with
    | some .accept => some (x.ownerOf n)
    | _ => none

/-- Whether the token `a` goes before `b` where both are complete. -/
def prefers (x : Lexicon) (a b : Nat) : Bool :=
  let ta := x.token a
  let tb := x.token b
  if ta.strength ≠ tb.strength then tb.strength < ta.strength
  else if ta.weight ≠ tb.weight then tb.weight < ta.weight
  else a < b

/-- The complete token that is read, if no more follows. -/
def chosen (x : Lexicon) (spots : List Nat) : Option Nat :=
  (x.complete spots).foldl (fun best t => match best with
    | none => some t
    | some b => if x.prefers b t then some b else some t) none

/-- Whether a move is made although the token `done` is complete. Where blanks may be read, only
the complete token may go on. -/
def goesOn (x : Lexicon) (done : Nat) (amongBlanks : Bool) (m : Move) : Bool :=
  let s := (x.token done).strength
  if m.strength < s then false
  else if m.strength = s then
    !m.blank && !(amongBlanks && m.targets.all fun n => x.ownerOf n ≠ done)
  else true

end Lexicon

/-! ## How tokens can be mistaken for each other -/

/-- How a token relates to another one. -/
structure Rivalry where
  /-- It ends where the other one would go on. -/
  cutsShort : Bool := false
  /-- It goes on where the other one is complete. -/
  longer : Bool := false
  /-- It goes on with a character with which what follows the other one can begin. -/
  longerInto : Bool := false
  /-- It is complete where the other one still reads blanks. -/
  readsBlanks : Bool := false
  /-- It is preferred on some text that both match. -/
  wins : Bool := false
  /-- It matches some text that the other one does not. -/
  differs : Bool := false
  deriving DecidableEq, Inhabited

namespace Rivalry

/-- The text that follows the other token can be taken for this one. -/
def clashes (r : Rivalry) : Bool := r.longerInto || r.readsBlanks || r.wins

def overlaps (r : Rivalry) : Bool := r.readsBlanks || r.cutsShort || r.wins || r.longer

end Rivalry

/-- Changes the entry of one of two tokens: the first one if `i` is meant. -/
private def onSide (i which : Nat) (f : Rivalry → Rivalry) (r : Rivalry × Rivalry) :
    Rivalry × Rivalry :=
  if which = i then (f r.1, r.2) else (r.1, f r.2)

/-- Notes the complete tokens of a set of spots: which one is read, and over which others. -/
private def noteComplete (x : Lexicon) (i : Nat) (amongBlanks : Bool) :
    List Nat → Option Nat → Rivalry × Rivalry → Option Nat × (Rivalry × Rivalry)
  | [], best, r => (best, r)
  | t :: ts, best, r =>
    if amongBlanks then (best, onSide i t ({ · with readsBlanks := true }) r)
    else match best with
      | none => noteComplete x i amongBlanks ts (some t) r
      | some b =>
        if b = t then noteComplete x i amongBlanks ts best r
        else if x.prefers b t then
          noteComplete x i amongBlanks ts best (onSide i b ({ · with wins := true }) r)
        else noteComplete x i amongBlanks ts (some t) (onSide i t ({ · with wins := true }) r)

/-- Notes what a move says about a complete token that cannot go on in it. -/
private def noteMove (x : Lexicon) (i j : Nat) (after : Nat → CharSet) (amongBlanks : Bool)
    (done : Option Nat) (m : Move) (r : Rivalry × Rivalry) : Rivalry × Rivalry :=
  match done with
  | none => r
  | some d =>
    let live := m.targets.map x.ownerOf
    if live.contains d then r
    else match live with
      | [] => r
      | a :: _ =>
        if x.goesOn d amongBlanks m then
          let other := if a = i then j else i
          onSide i a (fun s => { s with
            longer := true, longerInto := s.longerInto || (m.chars &&& after other) ≠ 0 }) r
        else onSide i d ({ · with cutsShort := true }) r

/-- Follows both tokens through all texts that they have in common. -/
private def rivalryFrom (x : Lexicon) (i j : Nat) (after : Nat → CharSet) :
    (fuel : Nat) → (pending seen : List (List Nat)) → Rivalry × Rivalry → Rivalry × Rivalry
  | 0, _, _, r => r
  | _, [], _, r => r
  | fuel + 1, spots :: pending, seen, r =>
    let live := (spots.map x.ownerOf).eraseDups
    match live with
    | [t] => rivalryFrom x i j after fuel pending seen (onSide i t ({ · with differs := true }) r)
    | _ =>
      let all := x.reached spots
      let amongBlanks := all.any x.isBlank
      let (done, r) := noteComplete x i amongBlanks (x.complete all) none r
      let (pending, seen, r) := (x.moves all).foldl (fun (pending, seen, r) m =>
        let r := noteMove x i j after amongBlanks done m r
        if seen.contains m.targets then (pending, seen, r)
        else (m.targets :: pending, m.targets :: seen, r)) (pending, seen, r)
      rivalryFrom x i j after fuel pending seen r

/-- More sets of spots than two tokens can have in common. -/
def rivalryFuel : Nat := 100000

/-- How two tokens relate, first the one then the other; `after` gives the characters with which
the text after a token can begin. -/
def Lexicon.rivalry (x : Lexicon) (after : Nat → CharSet) (i j : Nat) : Rivalry × Rivalry :=
  rivalryFrom x i j after rivalryFuel
    [mergeOrdered (x.starts[i]?.toList) (x.starts[j]?.toList)] [] ({}, {})

/-! ## Machines for sets of tokens -/

/-- What follows a character. -/
structure Edge where
  chars : CharSet
  blank : Bool
  target : Nat

/-- One state of a machine: the token that is complete, and where characters lead. -/
structure Station where
  complete : Option Nat
  edges : List Edge
  deriving Inhabited

/-- A machine that reads one of a set of tokens; it begins at the first station. -/
structure Scanner where
  stations : Array Station
  /-- The end of the text is expected as well. -/
  acceptsEnd : Bool
  deriving Inhabited

private def stationFrom (x : Lexicon) :
    (fuel n : Nat) → (sets : Array (List Nat)) → (index : Std.HashMap (List Nat) Nat) →
    Array Station → Array Station
  | 0, _, _, _, stations => stations
  | fuel + 1, n, sets, index, stations =>
    match sets[n]? with
    | none => stations
    | some spots =>
      let done := x.chosen spots
      let amongBlanks := spots.any x.isBlank
      let usable := (x.moves spots).filter fun m =>
        match done with
        | none => true
        | some d => x.goesOn d amongBlanks m
      let (edges, sets, index) := usable.foldl (fun (edges, sets, index) m =>
        let target := x.reached m.targets
        match index[target]? with
        | some k => (⟨m.chars, m.blank, k⟩ :: edges, sets, index)
        | none => (⟨m.chars, m.blank, sets.size⟩ :: edges, sets.push target,
            index.insert target sets.size)) (([] : List Edge), sets, index)
      stationFrom x fuel (n + 1) sets index (stations.push ⟨done, edges.reverse⟩)

/-- The machine for some tokens. -/
def Lexicon.scanner (x : Lexicon) (tokens : List Nat) (acceptsEnd : Bool) : Scanner :=
  let start := x.reached (tokens.filterMap (x.starts[·]?))
  { stations := stationFrom x rivalryFuel 0 #[start] ((∅ : Std.HashMap (List Nat) Nat).insert start 0) #[],
    acceptsEnd }

end StructProjection.Grammar
