import StructProjection.Grammar.Item

/-! # States

The states that reading a text can lead to, each a set of items with the tokens that may follow
them, and what to do in a state on a token. Conflicts are settled by rank and side; those that
remain are kept, and a reader follows all of them.
-/

namespace StructProjection.Grammar

/-- What to do on a token. -/
inductive Action
  /-- Read the token; `again` marks one that only starts a repetition anew. -/
  | shift (state : Nat) (again : Bool)
  /-- Read a comment. -/
  | skip
  /-- Make a node of the last `count` nodes. -/
  | reduce (owner count : Nat) (favour : Int) (shape : Nat)
  | accept
  /-- The token is not expected; recover from the error. -/
  | recover
  deriving DecidableEq, Inhabited

/-- Items, each with the tokens that may follow it. -/
abbrev ItemSet := List (Nat × TokenSet)

/-- A state of the automaton. -/
structure State where
  kernel : ItemSet
  /-- States with one core hold the same items. -/
  core : Nat
  /-- By token, the last entry for the end of the text. -/
  actions : Array (List Action)
  /-- Where a definition leads. -/
  gotos : List (Nat × Nat)
  /-- Some item expects the word token. -/
  expectsWord : Bool
  deriving Inhabited

namespace ItemTable

def item (t : ItemTable) (i : Nat) : Item := t.items[i]?.getD default

def firstOf (t : ItemTable) (symbol : Nat) : TokenSet :=
  Grammar.firstOf t.expansion t.first symbol

/-- Adds to the sets of tokens kept for each item; an item new to them is listed. -/
def addItem (found : Array TokenSet × List Nat) (i : Nat) (follow : TokenSet) :
    Array TokenSet × List Nat :=
  let (sets, listed) := found
  let old := sets[i]?.getD 0
  (sets.setIfInBounds i (old ||| follow), if old == 0 then i :: listed else listed)

/-- All items of the state with the given kernel. The array is empty before and after. -/
def close (t : ItemTable) (sets : Array TokenSet) (kernel : ItemSet) :
    ItemSet × Array TokenSet :=
  let found := kernel.foldl (fun found (i, follow) =>
    let it := t.item i
    let found := match it.next with
      | none => found
      | some s =>
        if t.expansion.isToken s then found else
          let after := match it.following with
            | none => follow
            | some s' => t.firstOf s'
          (t.additions[t.expansion.indexOf s]?.getD []).foldl (fun found a =>
            addItem found a.item (if a.inherits then a.follow ||| after else a.follow)) found
    addItem found i follow) (sets, [])
  let items := found.2.map fun i => (i, found.1[i]?.getD 0)
  (items, found.2.foldl (fun sets i => sets.setIfInBounds i 0) found.1)

end ItemTable

/-- What the reductions on one token have in common. -/
structure Contest where
  rank : Int
  left : Bool
  right : Bool
  plain : Bool
  deriving Inhabited

def Contest.join (c : Contest) (it : Item) : Contest :=
  match it.side with
  | some .left => { c with rank := it.rank, left := true }
  | some .right => { c with rank := it.rank, right := true }
  | none => { c with rank := it.rank, plain := true }

def noContest : Contest := ⟨0, false, false, false⟩

/-- The actions of a state while they are gathered. -/
structure Gathering where
  actions : Array (List Action)
  contests : Array Contest
  disputed : TokenSet

/-- Adds the reduction of a finished item on one token. Of two reductions the higher rank wins. -/
def Gathering.reduce (g : Gathering) (it : Item) (action : Action) (token : Nat) : Gathering :=
  let old := g.actions[token]?.getD []
  let contest := g.contests[token]?.getD noContest
  let fresh := { g with
    actions := g.actions.setIfInBounds token [action],
    contests := g.contests.setIfInBounds token (noContest.join it) }
  match old with
  | [] => fresh
  | _ :: _ =>
    if it.rank < contest.rank then g
    else if contest.rank < it.rank then
      { fresh with disputed := g.disputed &&& (g.disputed ^^^ TokenSet.single token) }
    else { g with
      actions := g.actions.setIfInBounds token (old ++ [action]),
      contests := g.contests.setIfInBounds token (contest.join it),
      disputed := g.disputed ||| TokenSet.single token }

/-- Splits off the last action. -/
def splitLast : List Action → Option (List Action × Action)
  | [] => none
  | [a] => some ([], a)
  | a :: as => (splitLast as).map fun (init, l) => (a :: init, l)

/-- Settles a dispute between reading a token and reducing before it. -/
def settle (t : ItemTable) (items : ItemSet) (token : Nat) (contest : Contest)
    (actions : List Action) : List Action :=
  match splitLast actions with
  | some (reductions, .shift state _) =>
    let reading := items.filter fun (i, _) =>
      let it := t.item i
      0 < it.dot && it.next.any fun s => (t.firstOf s).has token
    let ended := items.filter fun (i, follow) => (t.item i).next.isNone && follow.has token
    let owners : List Nat :=
      ((reading ++ ended).filterMap fun (i, _) => (t.item i).owner).eraseDups
    let repeated : Bool := match owners with
      | [v] => t.expansion.definitions[v]?.any Definition.repetition
      | _ => false
    if repeated then reductions ++ [Action.shift state true] else
      let ranks := reading.map fun (i, _) => (t.item i).rank
      let above := ranks.any (contest.rank < ·)
      let below := ranks.any (· < contest.rank)
      if above && !below then [.shift state false]
      else if below && !above then reductions
      else if above && below then actions
      else if contest.left && !contest.plain && !contest.right then reductions
      else if contest.right && !contest.plain && !contest.left then [.shift state false]
      else actions
  | _ => actions

/-- The automaton while it is built. -/
structure Building where
  states : Array State
  byKernel : Std.HashMap ItemSet Nat
  byCore : Std.HashMap (List Nat) Nat
  deriving Inhabited

/-- The state with the given kernel, made if it is new. -/
def Building.enter (b : Building) (kernel : ItemSet) : Nat × Building :=
  match b.byKernel[kernel]? with
  | some n => (n, b)
  | none =>
    let ids := kernel.map (·.1)
    let core := b.byCore.getD ids b.byCore.size
    (b.states.size,
     { states := b.states.push { kernel, core, actions := #[], gotos := [], expectsWord := false },
       byKernel := b.byKernel.insert kernel b.states.size,
       byCore := b.byCore.insert ids core })

/-- Joins neighbours that are one item. -/
def joinItems : ItemSet → ItemSet
  | (i, f) :: (j, g) :: rest =>
    if i = j then joinItems ((j, f ||| g) :: rest) else (i, f) :: joinItems ((j, g) :: rest)
  | s => s
  termination_by s => s.length

/-- A set of items in order, each once. -/
def orderItems (s : ItemSet) : ItemSet := joinItems (s.mergeSort fun a b => a.1 ≤ b.1)

/-- Works out the actions of state `n`; the arrays are scratch space by item and by symbol, empty
before and after. -/
def fillState (t : ItemTable) (word comment : Nat) (n : Nat)
    (b : Building) (sets : Array TokenSet) (heirs : Array ItemSet) :
    Building × Array TokenSet × Array ItemSet :=
  let kernel := (b.states[n]?.getD default).kernel
  let (items, sets) := t.close sets kernel
  let tokens := t.expansion.tokenCount + 1
  let gathering := kernel.foldl (fun g (i, follow) =>
    let it := t.item i
    match it.next with
    | some _ => g
    | none =>
      let action : Action := match it.owner with
        | none => .accept
        | some v => .reduce v it.length it.favour it.shape
      (List.range tokens).foldl
        (fun g token => if follow.has token then g.reduce it action token else g) g)
    { actions := Array.replicate tokens [], contests := Array.replicate tokens noContest,
      disputed := 0 : Gathering }
  let gathering := items.foldl (fun g (i, follow) =>
    let it := t.item i
    if it.dot = 0 && it.length = 0 then
      (List.range tokens).foldl (fun g token =>
        if follow.has token then
          g.reduce it (.reduce (it.owner.getD 0) 0 it.favour it.shape) token else g) g
    else g) gathering
  let heirs := items.foldl (fun heirs (i, follow) =>
    let it := t.item i
    match it.next with
    | none => heirs
    | some s => heirs.modify s ((it.successor, follow) :: ·)) heirs
  let expectsWord := items.any fun (i, follow) =>
    match (t.item i).next with
    | some s => s == word
    | none => follow.has word
  let (b, gathering, gotos, heirs) := (List.range t.expansion.symbolCount).foldl
    (fun (b, g, gotos, heirs) s =>
      match heirs[s]?.getD [] with
      | [] => (b, g, gotos, heirs)
      | heir =>
        let (m, b) := b.enter (orderItems heir)
        let heirs := heirs.setIfInBounds s []
        if t.expansion.isToken s then
          let old := g.actions[s]?.getD []
          (b, { g with
            actions := g.actions.setIfInBounds s (old ++ [.shift m false]),
            disputed := if old.isEmpty then g.disputed else g.disputed ||| TokenSet.single s },
           gotos, heirs)
        else (b, g, (s, m) :: gotos, heirs)) (b, gathering, [], heirs)
  let actions := (List.range tokens).foldl (fun actions token =>
    if gathering.disputed.has token then
      actions.modify token (settle t items token (gathering.contests[token]?.getD noContest))
    else actions) gathering.actions
  let actions := actions.modify comment fun as => if as.isEmpty then [.skip] else as
  let states := b.states.modify n fun s =>
    { s with actions, gotos := gotos.reverse, expectsWord }
  ({ b with states }, sets, heirs)

/-- Fills one state after the other, from `n` on, until no new one has come up. -/
def fillFrom (t : ItemTable) (word comment : Nat) :
    (fuel n : Nat) → Building → Array TokenSet → Array ItemSet → Building
  | 0, _, b, _, _ => b
  | fuel + 1, n, b, sets, heirs =>
    if n < b.states.size then
      let (b, sets, heirs) := fillState t word comment n b sets heirs
      fillFrom t word comment fuel (n + 1) b sets heirs
    else b

/-- More states than a grammar may need. -/
def stateLimit : Nat := 100000

/-- The states of a grammar: the one for errors, which has no items, the one in which a text begins,
and all that can be reached from there. -/
def ItemTable.states (t : ItemTable) : Array State :=
  let e := t.expansion
  let b := ((default : Building).enter []).2
  let b := (b.enter [(t.start, TokenSet.single e.endSymbol)]).2
  (fillFrom t (e.find e.language.wordToken) (e.find e.language.comment) stateLimit 0 b
    (Array.replicate t.items.size 0) (Array.replicate e.symbolCount [])).states

end StructProjection.Grammar
