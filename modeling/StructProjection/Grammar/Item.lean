import StructProjection.Grammar.Production

/-! # Items

An item is a production that has been read up to some point. Two items that differ only in what has
been read are one: what counts is the rest, the rank at the point, and the names of the nodes read.
Sets of tokens are numbers, with a bit for each token and one for the end of the text.
-/

namespace StructProjection.Grammar

/-- A set of tokens. -/
abbrev TokenSet := Nat

namespace TokenSet

def single (token : Nat) : TokenSet := 1 <<< token

def has (s : TokenSet) (token : Nat) : Bool := s.testBit token

def toList (s : TokenSet) (count : Nat) : List Nat := (List.range count).filter s.testBit

end TokenSet

/-- A class of items that behave alike. -/
structure Item where
  /-- The definition, or none for the item of the whole text. -/
  owner : Option Nat
  /-- How many symbols have been read. -/
  dot : Nat
  length : Nat
  favour : Int
  /-- The next symbol, the one after it, and the item once the next symbol has been read. -/
  next : Option Nat
  following : Option Nat
  successor : Nat
  rank : Int
  side : Option Side
  /-- The names under which the nodes of the production are shown, by their number. -/
  shape : Nat
  deriving Inhabited

/-- A key in which items of one class agree, and in whose order conflicting reductions are tried. -/
abbrev ItemKey := List Nat

private def optionKey (o : Option Int) : Nat := match o with
  | none => 0
  | some n => (n + 100).toNat

private def sideKey : Option Side → Nat
  | none => 0
  | some .left => 1
  | some .right => 2

private def nameKey (names : List String) : Option String → Nat
  | none => 0
  | some a => names.idxOf a + 1

private def stepKey (names : List String) (s : Step) : List Nat :=
  [s.symbol, optionKey s.rank, sideKey s.side, nameKey names s.shownAs]

/-- The step before the dot, if any. -/
def stepBefore (steps : List Step) (dot : Nat) : Option Step :=
  if dot = 0 then none else steps[dot - 1]?

private def itemKey (names : List String) (owner : Option Nat) (p : Production) (dot : Nat) :
    ItemKey :=
  let before := stepBefore p.steps dot
  [dot, owner.elim 0 (· + 1), (p.favour + 100).toNat, p.steps.length,
    optionKey (before.bind (·.rank)), sideKey (before.bind (·.side))] ++
  (p.steps.take dot).map (fun s => nameKey names s.shownAs) ++
  (p.steps.drop dot).flatMap (stepKey names)

private def keyBefore : ItemKey → ItemKey → Bool
  | [], _ => true
  | _ :: _, [] => false
  | a :: as, b :: bs => if a = b then keyBefore as bs else a < b

/-- What closing a set of items under the start of a definition adds: items at dot zero, the tokens
that follow them for certain, and whether what follows the definition follows them too. -/
structure Addition where
  item : Nat
  follow : TokenSet
  inherits : Bool

/-- A grammar with its items numbered. -/
structure ItemTable where
  expansion : Expansion
  items : Array Item
  /-- The item of the whole text with nothing read. -/
  start : Nat
  /-- The tokens with which each definition begins. -/
  first : Array TokenSet
  additions : Array (List Addition)
  /-- The names that productions give to their nodes; the first gives none. -/
  shapes : Array (List (Option String))

/-- Applies `f` until nothing changes, at most `fuel` times. -/
def untilStable {α : Type} [BEq α] (f : α → α) : (fuel : Nat) → α → α
  | 0, a => a
  | fuel + 1, a => let b := f a; if b == a then a else untilStable f fuel b

/-- The tokens with which a symbol begins. -/
def firstOf (e : Expansion) (first : Array TokenSet) (symbol : Nat) : TokenSet :=
  if e.isToken symbol then TokenSet.single symbol else first[e.indexOf symbol]?.getD 0

/-- The first tokens of all definitions; no definition but the first can be empty. -/
def Expansion.firstSets (e : Expansion) : Array TokenSet :=
  let grow (first : Array TokenSet) : Array TokenSet :=
    e.productions.mapIdx fun i ps => ps.foldl (fun s p =>
      match p.steps with
      | [] => s
      | st :: _ => s ||| firstOf e first st.symbol) (first[i]?.getD 0)
  untilStable grow e.definitions.size (e.productions.map fun _ => 0)

/-- What may begin where a definition begins: for each definition, the tokens that follow it for
certain, and whether it inherits what follows the outer one. -/
abbrev Openings := List (Nat × TokenSet × Bool)

private def openingsStep (e : Expansion) (first : Array TokenSet) (known : Openings) : Openings :=
  known.foldl (fun known (v, follow, inherits) =>
    (e.productions[v]?.getD []).foldl (fun known p =>
      match p.steps with
      | [] => known
      | st :: rest =>
        if e.isToken st.symbol then known else
          let (follow, inherits) := match rest with
            | [] => (follow, inherits)
            | st' :: _ => (firstOf e first st'.symbol, false)
          let w := e.indexOf st.symbol
          if known.any (·.1 = w) then
            known.map fun (x, f, h) =>
              if x = w then (x, f ||| follow, h || inherits) else (x, f, h)
          else known ++ [(w, follow, inherits)]) known) known

/-- Every definition that can stand first in the definition `v`. -/
private def openings (e : Expansion) (first : Array TokenSet) (v : Nat) : Openings :=
  untilStable (openingsStep e first) (2 * e.definitions.size) [(v, 0, true)]

/-- The items of a grammar. -/
def Expansion.itemTable (e : Expansion) : ItemTable :=
  let names := (e.productions.toList.flatMap fun ps =>
    ps.flatMap fun p => p.steps.filterMap (·.shownAs)).eraseDups
  let whole : Production := ⟨[⟨e.symbolOf 0, none, none, none⟩], 0⟩
  let owned := (e.productions.mapIdx fun i ps => ps.map fun p => (some i, p)).toList.flatMap id
  let pointed := ((none, whole) :: owned).flatMap fun (owner, p) =>
    (List.range (p.steps.length + 1)).map fun dot => (itemKey names owner p dot, owner, p, dot)
  let distinct := (pointed.foldl (fun (seen, out) x =>
    if seen.contains x.1 then (seen, out) else (seen.insert x.1 (), x :: out))
    ((∅ : Std.HashMap ItemKey Unit), ([] : List (ItemKey × Option Nat × Production × Nat)))).2
  let sorted := distinct.mergeSort (fun a b => keyBefore a.1 b.1)
  let index := sorted.foldl (fun (m, i) x => (m.insert x.1 i, i + 1))
    ((∅ : Std.HashMap ItemKey Nat), 0) |>.1
  let numberOf (owner : Option Nat) (p : Production) (dot : Nat) : Nat :=
    index.getD (itemKey names owner p dot) 0
  let shapeList := ([] :: sorted.filterMap fun (_, _, p, _) =>
    if p.steps.all (·.shownAs.isNone) then none else some (p.steps.map (·.shownAs))).eraseDups
  let items := sorted.toArray.map fun (_, owner, p, dot) =>
    let before := stepBefore p.steps dot
    { owner, dot, length := p.steps.length, favour := p.favour,
      next := p.steps[dot]?.map (·.symbol), following := p.steps[dot + 1]?.map (·.symbol),
      successor := if dot < p.steps.length then numberOf owner p (dot + 1) else 0,
      rank := (before.bind (·.rank)).getD 0, side := before.bind (·.side),
      shape := if p.steps.all (·.shownAs.isNone) then 0
        else shapeList.idxOf (p.steps.map (·.shownAs)) : Item }
  let first := e.firstSets
  let unread := e.productions.mapIdx fun v ps => ps.map fun p => numberOf (some v) p 0
  let additions := e.productions.mapIdx fun v _ =>
    (openings e first v).flatMap fun (w, follow, inherits) =>
      (unread[w]?.getD []).map fun item => { item, follow, inherits : Addition }
  { expansion := e, items, start := numberOf none whole 0, first, additions,
    shapes := shapeList.toArray }

end StructProjection.Grammar
