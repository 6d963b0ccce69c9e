import StructProjection.Grammar.Rivals

/-! # Tables

The states of an automaton with those joined that act alike, and for each of them the machine that
reads the tokens it expects.
-/

namespace StructProjection.Grammar

/-! ## Joining states -/

/-- States in groups; those of a group are joined in the end. -/
structure Grouping where
  groups : Array (List Nat)
  /-- The group of each state. -/
  groupOf : Array Nat

/-- Keeps the first of some states with those that get along with it and with each other; the
answer holds them and the others. -/
def keepTogether (apart : Nat → Nat → Bool) :
    (fuel : Nat) → List Nat → List Nat × List Nat
  | 0, ns => (ns, [])
  | _, [] => ([], [])
  | fuel + 1, n :: ns =>
    let (far, near) := ns.partition (apart n)
    let (kept, others) := keepTogether apart fuel near
    (n :: kept, far ++ others)

/-- Splits the groups from `g` on. The states that leave a group form a new one at the end, which is
looked at in its turn; `apart` sees the groups as they are by then. -/
def splitFrom (apart : Array Nat → Nat → Nat → Bool) :
    (fuel g : Nat) → Grouping → Bool → Grouping × Bool
  | 0, _, gr, changed => (gr, changed)
  | fuel + 1, g, gr, changed =>
    match gr.groups[g]? with
    | none => (gr, changed)
    | some ns =>
      match keepTogether (apart gr.groupOf) ns.length ns with
      | (_, []) => splitFrom apart fuel (g + 1) gr changed
      | (kept, others) =>
        let fresh := gr.groups.size
        splitFrom apart fuel (g + 1)
          { groups := (gr.groups.setIfInBounds g kept).push others,
            groupOf := others.foldl (fun gs n => gs.setIfInBounds n fresh) gr.groupOf } true

/-- Splits again and again until all states of each group get along. -/
def splitAll (apart : Array Nat → Nat → Nat → Bool) : (fuel : Nat) → Grouping → Grouping
  | 0, gr => gr
  | fuel + 1, gr =>
    match splitFrom apart stateLimit 0 gr false with
    | (gr, true) => splitAll apart fuel gr
    | (gr, false) => gr

/-- What the joining of states asks about them. -/
structure Joining where
  states : Array State
  expected : Array TokenSet
  /-- Where symbols lead each state, in the order of symbols. -/
  successors : Array (List (Nat × Nat))
  /-- The tokens that a new token can be mistaken for. -/
  clash : Array TokenSet
  tokens : Nat

/-- Where reading a token leads, if that is the last action on it. -/
def readTarget : List Action → Option Nat
  | [] => none
  | [.shift n _] => some n
  | [_] => none
  | _ :: as => readTarget as

/-- Where symbols lead a state, in the order of symbols. -/
def State.successors (s : State) : List (Nat × Nat) :=
  ((List.range s.actions.size).filterMap fun t =>
    (readTarget (s.actions[t]?.getD [])).map (t, ·)) ++ s.gotos

namespace Joining

def group (gs : Array Nat) (n : Nat) : Nat := gs[n]?.getD 0

/-- Whether two lists of actions differ, two states of one group counting as the same. -/
def actionsDiffer (gs : Array Nat) : List Action → List Action → Bool
  | [], [] => false
  | .shift a again :: as, .shift b again' :: bs =>
    group gs a ≠ group gs b || again ≠ again' || actionsDiffer gs as bs
  | a :: as, b :: bs => a ≠ b || actionsDiffer gs as bs
  | _, _ => true

/-- Whether `p` holds of some number below `n`. -/
def anyBelow (p : Nat → Bool) : (n : Nat) → Bool
  | 0 => false
  | n + 1 => p n || anyBelow p n

/-- Whether two states act differently on a token that both expect, or one of them expects a token
that can be mistaken for one of the other. -/
def conflict (j : Joining) (gs : Array Nat) (a b : Nat) : Bool :=
  match j.states[a]?, j.states[b]? with
  | some sa, some sb =>
    let ea := j.expected[a]?.getD 0
    let eb := j.expected[b]?.getD 0
    anyBelow (fun t =>
      match sa.actions[t]?.getD [], sb.actions[t]?.getD [] with
      | [], [] => false
      | [], _ :: _ => (j.clash[t]?.getD 0) &&& ea ≠ 0
      | _ :: _, [] => (j.clash[t]?.getD 0) &&& eb ≠ 0
      | x :: xs, y :: ys => actionsDiffer gs (x :: xs) (y :: ys)) j.tokens
  | _, _ => false

/-- Whether one symbol leads to different groups; both lists are in the order of symbols. -/
def leadApart (gs : Array Nat) : List (Nat × Nat) → List (Nat × Nat) → Bool
  | (s, m) :: as, (s', n) :: bs =>
    if s < s' then leadApart gs as ((s', n) :: bs)
    else if s' < s then leadApart gs ((s, m) :: as) bs
    else group gs m ≠ group gs n || leadApart gs as bs
  | _, _ => false
  termination_by as bs => as.length + bs.length

def successorsDiffer (j : Joining) (gs : Array Nat) (a b : Nat) : Bool :=
  leadApart gs (j.successors[a]?.getD []) (j.successors[b]?.getD [])

def run (j : Joining) : Grouping :=
  let cores := j.states.foldl (fun n s => max n (s.core + 1)) 0
  let groups := (j.states.foldl (fun (groups, n) s => (groups.modify s.core (n :: ·), n + 1))
    (Array.replicate cores ([] : List Nat), 0)).1.map List.reverse
  let start : Grouping := { groups, groupOf := j.states.map (·.core) }
  splitAll j.successorsDiffer j.states.size
    (splitFrom j.conflict stateLimit 0 start false).1

end Joining

/-! ## The table -/

/-- All that is needed to read a text. -/
structure Table where
  expansion : Expansion
  shapes : Array (List (Option String))
  /-- By state and token. -/
  actions : Array (Array (List Action))
  /-- By state and definition; zero where nothing is expected. -/
  gotos : Array (Array Nat)
  /-- The states in which a reserved word is not read as the word token. -/
  expectsWord : Array Bool
  /-- Tokens that another state may take over as they are. -/
  reusable : Array TokenSet
  /-- Which scanner reads the tokens of a state. -/
  mode : Array Nat
  scanners : Array Scanner
  wordToken : Nat
  comment : Nat
  /-- The words that are read as the word token at first. -/
  words : Std.HashMap String Nat
  reserved : TokenSet
  /-- The tokens in the order in which a missing one is looked for. -/
  missing : List Nat

/-- The state for errors and the one in which a text begins. -/
def errorState : Nat := 0
def startState : Nat := 1

namespace Table

/-- The state of a group: all its states taken together. -/
private def joinStates (states : Array State) (gs : Array Nat) (ns : List Nat) : State :=
  let move (as : List Action) : List Action := as.map fun
    | .shift n again => .shift (Joining.group gs n) again
    | a => a
  let joined := ns.foldl (fun (acc : State) n =>
    let s := states[n]?.getD default
    { acc with
      actions := if acc.actions.isEmpty then s.actions
        else acc.actions.mapIdx fun t as => if as.isEmpty then s.actions[t]?.getD [] else as,
      gotos := acc.gotos ++ s.gotos.filter fun (x, _) => (acc.gotos.lookup x).isNone,
      expectsWord := acc.expectsWord || s.expectsWord }) default
  { joined with
    actions := joined.actions.map move,
    gotos := joined.gotos.map fun (x, n) => (x, Joining.group gs n) }

/-- The definition that is all a state can reduce to, where the node that it makes of one other node
is never seen. -/
private def onlyUnit (invisible : Nat → Bool) (s : State) : Option Nat :=
  let all := s.actions.toList.flatMap id |>.filter (· ≠ .skip)
  match all with
  | .reduce v 1 0 0 :: rest =>
    if invisible v && rest.all (· = .reduce v 1 0 0) then some v else none
  | _ => none

/-- Steps over states that only make an unseen node of another node. -/
private def stepOver (unit : Array (Option Nat)) (symbolOf : Nat → Nat) (gotos : List (Nat × Nat)) :
    (fuel : Nat) → Nat → Nat
  | 0, n => n
  | fuel + 1, n =>
    match unit[n]?.getD none with
    | none => n
    | some v =>
      match gotos.lookup (symbolOf v) with
      | some m => stepOver unit symbolOf gotos fuel m
      | none => n

private def withoutUnits (e : Expansion) (states : Array State) : Array State :=
  let renamed := (e.productions.toList.flatMap fun ps => ps.flatMap fun p =>
    p.steps.filterMap fun s => if s.shownAs.isSome then some s.symbol else none).eraseDups
  let invisible (v : Nat) : Bool := match e.definitions[v]? with
    | some d => d.hidden && !e.language.kept.contains d.name && !renamed.contains (e.symbolOf v)
    | none => false
  let unit := states.map (onlyUnit invisible)
  states.map fun s =>
    let go := stepOver unit e.symbolOf s.gotos states.size
    { s with
      actions := s.actions.map fun as => as.map fun
        | .shift n again => .shift (go n) again
        | a => a,
      gotos := s.gotos.map fun (x, n) => (x, go n) }

/-- Puts a set of tokens into the first of the sets of scanners that can read both without mistaking
any, and tells which one that is. -/
private def placeMode (fits : TokenSet → TokenSet → Bool) (set : TokenSet) :
    List TokenSet → Nat → List TokenSet × Nat
  | [], n => ([set], n)
  | m :: ms, n =>
    if fits m set then ((m ||| set) :: ms, n)
    else
      let (ms, k) := placeMode fits set ms (n + 1)
      (m :: ms, k)

/-- The tokens that one scanner cannot read besides a given one. -/
private def unfit (r : Rivals) (i : Nat) : TokenSet :=
  r.tokensWith fun o =>
    let x := r.rivalry i o
    x.clashes || x.cutsShort || (!r.meet i o && ((r.rivalry o i).overlaps || x.overlaps))

/-- Whether one scanner can read two sets of tokens. -/
private def modesFit (unfit : Array TokenSet) (a b : TokenSet) : Bool :=
  let both := a &&& b
  let safe (i : Nat) (others : TokenSet) : Bool := (unfit[i]?.getD 0) &&& others = 0
  (TokenSet.toList (a ^^^ both) unfit.size).all (safe · b) &&
    (TokenSet.toList (b ^^^ both) unfit.size).all (safe · a)

/-- The scanner of each state, the larger states choosing first. -/
private def modes (r : Rivals) (sets : Array TokenSet) (sizes : Array Nat) :
    List TokenSet × Array Nat :=
  let unfits := (Array.range r.count).map (unfit r)
  let order := (List.range sets.size).mergeSort fun a b =>
    let rank (n : Nat) : Nat := if n = errorState then 1000001 else if n = startState then 1000000
      else sizes[n]?.getD 0
    rank b ≤ rank a
  order.foldl (fun (ms, mode) n =>
    let (ms, k) := placeMode (modesFit unfits) (sets[n]?.getD 0) ms 0
    (ms, mode.setIfInBounds n k)) ([], Array.replicate sets.size 0)

/-- The tokens of a state as a scanner reads them: words are read as the word token. -/
private def scanned (r : Rivals) (s : State) (expected : TokenSet) : TokenSet :=
  let plain := expected ^^^ (expected &&& r.words)
  if expected &&& r.words ≠ 0 || s.expectsWord then plain ||| TokenSet.single r.wordToken else plain

def ofLanguage (g : Language) : Table :=
  let e := g.expand
  let t := e.itemTable
  let states := t.states
  let r := t.rivals states
  let count := e.tokenCount
  let afterError := r.afterError
  let states := states.modify errorState fun s =>
    { s with actions := s.actions.mapIdx fun i as =>
        if as.isEmpty && (i = e.endSymbol || afterError.contains i) then [.recover] else as }
  let clashOf (i : Nat) : TokenSet := r.tokensWith fun o =>
    ((r.rivalry i o).clashes) && !(o = r.wordToken && r.words.has i) &&
      !(i = r.wordToken && r.words.has o)
  let clash := (Array.range count).map clashOf
  -- the end of the text is as easily mistaken as the first token, a line feed
  let clash := clash.push (clash[0]?.getD 0)
  let joining : Joining :=
    { states, expected := states.map State.expected, successors := states.map State.successors,
      clash, tokens := count + 1 }
  let grouping := joining.run
  let states := withoutUnits e (grouping.groups.map (joinStates states grouping.groupOf))
  let expected := states.map State.expected
  let (sets, mode) := modes r ((Array.range states.size).map fun n =>
      scanned r (states[n]?.getD default) (expected[n]?.getD 0))
    (states.map fun s => s.actions.foldl (fun n as => if as.isEmpty then n else n + 1) 0 +
      s.gotos.length)
  let overlapping := (Array.range count).map fun i =>
    r.tokensWith fun k => (r.rivalry k i).overlaps
  { expansion := e
    shapes := t.shapes
    actions := states.map (·.actions)
    gotos := states.map fun s => s.gotos.foldl
      (fun row (x, n) => row.setIfInBounds (e.indexOf x) n) (Array.replicate e.definitions.size 0)
    expectsWord := states.map (·.expectsWord)
    reusable := (Array.range states.size).map fun n =>
      let all := expected[n]?.getD 0
      if n = errorState then 0 else
        TokenSet.single count ||| r.tokensWith fun i =>
          all.has i && (overlapping[i]?.getD 0) &&& all = 0
    mode
    scanners := (sets.map fun set =>
      r.lexicon.scanner (TokenSet.toList set count) (set.has count)).toArray
    wordToken := r.wordToken
    comment := e.find g.comment
    words := (TokenSet.toList r.words count).foldl (fun m i =>
      match (r.lexicon.token i).literal with
      | some s => m.insert s i
      | none => m) ∅
    reserved := g.reserved.foldl (fun s w => s ||| TokenSet.single (e.find w)) 0
    missing := r.wordToken :: (List.range count).filter (· ≠ r.wordToken) }

/-! ### Looking things up -/

def scannerOf (t : Table) (state : Nat) : Scanner :=
  (t.mode[state]?.bind (t.scanners[·]?)).getD default

/-- What to do in a state on a token. -/
def actionsOn (t : Table) (state token : Nat) : List Action :=
  (t.actions[state]?.bind (·[token]?)).getD []

/-- Where a symbol leads; zero where it is not expected. -/
def next (t : Table) (state symbol : Nat) : Nat :=
  if t.expansion.isToken symbol then
    match (t.actionsOn state symbol).getLast? with
    | some (.shift n _) => n
    | some .skip => state
    | _ => 0
  else (t.gotos[state]?.bind (·[t.expansion.indexOf symbol]?)).getD 0

/-- Whether a word is not read as the word token in a state, although nothing is done on it. -/
def isReserved (t : Table) (state token : Nat) : Bool :=
  t.reserved.has token && t.expectsWord[state]?.getD false && (t.actionsOn state token).isEmpty

end Table

end StructProjection.Grammar
