import StructProjection.Parsing.Recovery

/-! # Reading a text

All readings of a text are followed side by side; the worse ones are given up on the way, and the
best tree is the answer.
-/

namespace StructProjection.Parsing

open StructProjection.Grammar

private def symbolOf : Kind → Option Nat
  | .symbol n => some n
  | _ => none

private def actionsAt (t : Table) (state : Nat) (token : Tree) : List Action :=
  match token.kind with
  | .symbol n => t.actionsOn state n
  | _ => []

/-- Whether a token that was read in another state can be taken as it is. -/
private def canReuse (t : Table) (state : Nat) (token : Tree) : Bool :=
  match token.kind with
  | .symbol n =>
    let expected := !(t.actionsOn state n).isEmpty
    let read := token.label.state
    let sameMode := t.mode[state]? = t.mode[read]? && t.expectsWord[state]? = t.expectsWord[read]?
    if expected && sameMode && (n ≠ t.wordToken || (!token.label.isWord && read = state)) then true
    else if token.label.size.bytes = 0 && n ≠ t.expansion.endSymbol then false
    else expected && (t.reusable[state]?.getD 0).has n
  | _ => false

/-- The next token of a version. -/
def nextToken (v : Nat) : Reading Tree := do
  let r ← get
  let state := r.state v
  let place := (r.top v).place
  let old := match r.lookahead with
    | some (bytes, token) =>
      if bytes = place.bytes ∧ canReuse r.table state token then some token else none
    | none => none
  match old with
  | some token => return token
  | none =>
    let token := readToken r.table r.source state place
    set { r with lookahead := some (place.bytes, token) }
    return token

/-- What has become of a version after its actions on a token. -/
inductive Outcome
  /-- It is done with the token. -/
  | done
  /-- It has been reduced; the number is that of the last new version, unless all were merged. -/
  | reduced (last : Option Nat)
  | unable

def act (v : Nat) (token : Tree) : List Action → Outcome → Reading Outcome
  | [], outcome => return outcome
  | a :: as, outcome => do
    let t := (← get).table
    match a with
    | .shift state again =>
      if again then act v token as outcome
      else
        push v (some (token.setExtra false)) state
        return .done
    | .skip =>
      push v (some (token.setExtra true)) ((← get).state v)
      return .done
    | .accept =>
      acceptText v token
      return .done
    | .recover =>
      recover v token
      return .done
    | .reduce .. =>
      match contractionOf t a with
      | none => act v token as outcome
      | some w =>
        let made ← reduce v w
        let last := match made, outcome with
          | none, .reduced last => last
          | m, _ => m
        act v token as (.reduced last)

/-- The token as the word token, if it is a word that a state can read as that. -/
def asWordToken (t : Table) (state : Nat) (token : Tree) : Option Tree :=
  match token with
  | .node l cs =>
    match l.kind with
    | .symbol n =>
      if l.isWord && n ≠ t.wordToken && !t.isReserved state n &&
          !(t.actionsOn state t.wordToken).isEmpty then
        let kind := Kind.symbol t.wordToken
        some (.node { l with kind, visible := visibleKind t kind } cs)
      else none
    | _ => none

/-- Advances a version to the token, with all reductions before it. -/
def advanceTo (v : Nat) : (fuel : Nat) → Tree → List Action → Reading Unit
  | 0, _, _ => halt v
  | fuel + 1, token, actions => do
    let t := (← get).table
    match ← act v token actions .unable with
    | .done => return
    | .reduced (some last) =>
      replaceVersion last v
      advanceTo v fuel token (actionsAt t ((← get).state v) token)
    | .reduced none => halt v
    | .unable =>
      let state := (← get).state v
      match asWordToken t state token with
      | some word => advanceTo v fuel word (actionsAt t state word)
      | none => if state = errorState then recover v token else pause v token

def advance (v : Nat) : Reading Unit := do
  let token ← nextToken v
  let r ← get
  advanceTo v (roundFuel + r.nodes.size) token (actionsAt r.table (r.state v) token)

/-- Advances a version until it has got further than the others; the answer is how far that is. -/
def advanceWhile (v : Nat) : (fuel last : Nat) → Reading Nat
  | 0, last => return last
  | fuel + 1, last => do
    if !(← get).isActive v then return last
    advance v
    let place := ((← get).top v).place.bytes
    if last < place ∨ (0 < v ∧ place = last) then return place
    advanceWhile v fuel last

def advanceAll : (fuel v last : Nat) → Reading Nat
  | 0, _, last => return last
  | fuel + 1, v, last => do
    if (← get).versions.size ≤ v then return last
    let last ← advanceWhile v roundFuel last
    advanceAll fuel (v + 1) last

/-- Compares version `i`, whose standing is given, with the earlier ones from `j` on. The answer is
the index of the version to look at next. -/
def compareEarlier (mine : Standing) : (fuel j i : Nat) → Reading Nat
  | 0, _, i => return i + 1
  | fuel + 1, j, i => do
    if i ≤ j then return i + 1
    match (← standing j).compare mine with
    | .takeFirst =>
      removeVersion i
      return i
    | .preferFirst | .equal =>
      if ← merge j i then return i else compareEarlier mine fuel (j + 1) i
    | .preferSecond =>
      if ← merge j i then return i
      else
        swapVersions i j
        compareEarlier mine fuel (j + 1) i
    | .takeSecond =>
      removeVersion j
      compareEarlier mine fuel j (i - 1)

private def least (a : Option Nat) (b : Nat) : Option Nat := some ((a.map (min b)).getD b)

/-- Puts the versions in order from `i` on, and gives up those that are clearly worse. The answer is
the least cost of a version out of error. -/
def orderFrom : (fuel i : Nat) → Option Nat → Reading (Option Nat)
  | 0, _, cost => return cost
  | fuel + 1, i, cost => do
    let r ← get
    if r.versions.size ≤ i then return cost
    if r.isHalted i then
      removeVersion i
      orderFrom fuel i cost
    else
      let mine ← standing i
      let cost := if mine.inError then cost else least cost mine.cost
      orderFrom fuel (← compareEarlier mine (i + 1) 0 i) cost

/-- Resumes the best paused version if no version before it goes on, and removes the others. -/
def resumeFrom : (fuel i count : Nat) → (going : Bool) → Option Nat → Reading (Option Nat)
  | 0, _, _, _, cost => return cost
  | fuel + 1, i, count, going, cost => do
    if count ≤ i then return cost
    let r ← get
    match r.pausedToken i with
    | none => resumeFrom fuel (i + 1) count true cost
    | some token =>
      if !going && r.finishCount < maxVersions then
        let cost := some (r.cost i)
        modifyVersion i fun x => { x with status := .active }
        handleError i token
        resumeFrom fuel (i + 1) count true cost
      else
        removeVersion i
        resumeFrom fuel i (count - 1) going cost

/-- Orders the versions, keeps the best of them, and resumes a paused one if none can go on. The
answer is the least cost that a tree can still have. -/
def condense : Reading (Option Nat) := do
  let cost ← orderFrom roundFuel 0 none
  modify fun r => { r with versions := r.versions.extract 0 maxVersions }
  let count := (← get).versions.size
  resumeFrom (count + 1) 0 count false cost

def readOn : (fuel last : Nat) → Reading Unit
  | 0, _ => return
  | fuel + 1, last => do
    let last ← advanceAll roundFuel 0 last
    let count := (← get).versions.size
    let cost ← condense
    let finished := (← get).finished
    if count = 0 then return
    match finished, cost with
    | some root, some c => if root.cost < c then return else readOn fuel last
    | some _, none => return
    | none, _ => readOn fuel last

/-- The cheapest tree of a text. -/
def parse (t : Table) (text : String) : Option Tree :=
  let source := Source.ofString text
  let bottom : StackNode :=
    { state := startState, links := [], place := .zero, cost := 0, progress := 0, favour := 0 }
  let first : Version := { top := 0, progressAtError := 0, status := .active, memories := none }
  let start : Readings :=
    { table := t, source, nodes := #[bottom], versions := #[first], lookahead := none,
      finished := none, finishCount := 0 }
  ((readOn (1000 * (source.length + 10)) 0).run start).2.finished

end StructProjection.Parsing
