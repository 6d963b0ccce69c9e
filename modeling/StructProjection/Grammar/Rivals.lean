import StructProjection.Grammar.Automaton
import StructProjection.Grammar.Lexicon

/-! # Rivals among the tokens of an automaton

Which tokens can be mistaken for each other where an automaton expects them, which words are read as
the word token first, and which tokens are looked for after an error.
-/

namespace StructProjection.Grammar

/-- The tokens of a grammar and how they relate. -/
structure Rivals where
  lexicon : Lexicon
  /-- How the first token relates to the second. -/
  matrix : Array (Array Rivalry)
  /-- The tokens that some state expects besides a given one. -/
  together : Array TokenSet
  /-- The tokens read as the word token at first. -/
  words : TokenSet
  wordToken : Nat

def State.expected (s : State) : TokenSet :=
  (s.actions.foldl (fun (set, i) as =>
    (if as.isEmpty then set else set ||| TokenSet.single i, i + 1)) (0, 0)).1

/-- The tokens with which a symbol can end. -/
private def lastOf (e : Expansion) (last : Array TokenSet) (symbol : Nat) : TokenSet :=
  if e.isToken symbol then TokenSet.single symbol else last[e.indexOf symbol]?.getD 0

private def lastSets (e : Expansion) : Array TokenSet :=
  let grow (last : Array TokenSet) : Array TokenSet :=
    e.productions.mapIdx fun i ps => ps.foldl (fun s p =>
      match p.steps.getLast? with
      | none => s
      | some st => s ||| lastOf e last st.symbol) (last[i]?.getD 0)
  untilStable grow e.definitions.size (e.productions.map fun _ => 0)

/-- The pairs of symbols that follow each other in a production. -/
private def neighbours : List Step → List (Nat × Nat)
  | a :: b :: rest => (a.symbol, b.symbol) :: neighbours (b :: rest)
  | _ => []

/-- The tokens that can follow each token; a comment can follow and precede all. -/
def ItemTable.followers (t : ItemTable) : Array TokenSet :=
  let e := t.expansion
  let count := e.tokenCount
  let last := lastSets e
  let comment := e.find e.language.comment
  let pairs := (e.productions.toList.flatMap fun ps =>
    ps.flatMap fun p => neighbours p.steps).eraseDups
  let base := pairs.foldl (fun sets (a, b) =>
    let next := t.firstOf b
    (TokenSet.toList (lastOf e last a) count).foldl
      (fun sets i => sets.modify i (· ||| next)) sets)
    (Array.replicate count (TokenSet.single comment))
  base.setIfInBounds comment (1 <<< count - 1)

namespace Rivals

def rivalry (r : Rivals) (i j : Nat) : Rivalry := (r.matrix[i]?.bind (·[j]?)).getD {}

def count (r : Rivals) : Nat := r.lexicon.tokens.size

/-- The tokens for which `p` holds. -/
def tokensWith (r : Rivals) (p : Nat → Bool) : TokenSet :=
  (List.range r.count).foldl (fun s i => if p i then s ||| TokenSet.single i else s) 0

def meet (r : Rivals) (i j : Nat) : Bool := (r.together[i]?.getD 0).has j

/-- Text that begins with the token `i` can be taken for more or less than the token `j`. -/
def misread (r : Rivals) (i j : Nat) : Bool :=
  let a := r.rivalry i j
  (a.longerInto || a.readsBlanks) && !(r.rivalry j i).readsBlanks

/-- The tokens that are never misread where they are not expected. -/
def distinct (r : Rivals) : List Nat :=
  (List.range r.count).filter fun i =>
    !(List.range r.count).any fun j => j ≠ i && !r.meet i j && r.misread i j

/-- The tokens that are looked for after an error: all but those that could be mistaken for one of
the distinct tokens. -/
def afterError (r : Rivals) : List Nat :=
  let distinct := r.distinct
  (List.range r.count).filter fun i =>
    distinct.contains i || r.words.has i || i = r.wordToken ||
      !distinct.any fun j => !r.meet i j && (r.rivalry i j).clashes

end Rivals

/-- The character classes that begin words. -/
private def wordStarts : CharSet :=
  .range 'a' 'z' ||| .range 'A' 'Z' ||| .ofString "_" ||| .ofClass 128

/-- The words among the tokens: they begin with a letter, are matched by the word token as well, and
are not more easily mistaken for other tokens than it is. -/
private def findWords (x : Lexicon) (matrix : Array (Array Rivalry)) (word : Nat)
    (expected : List TokenSet) : TokenSet :=
  let rivalry (i j : Nat) : Rivalry := (matrix[i]?.bind (·[j]?)).getD {}
  let all := List.range x.tokens.size
  let candidates := all.filter fun i =>
    i ≠ word && (rivalry i word).wins && !(rivalry i word).differs &&
      (x.reached (x.starts[i]?.toList)).all fun n => match x.spots[n]? with
        | some (.read s _) => s &&& CharSet.except wordStarts = 0
        | _ => true
  let chosen := candidates.filter fun i =>
    !candidates.any (fun j => j ≠ i && (rivalry j i).wins) &&
      all.all fun o => candidates.contains o ||
        expected.all (fun set => !(set.has i && set.has o) || set.has word) ||
        rivalry i o = rivalry word o
  chosen.foldl (fun s i => s ||| TokenSet.single i) 0

/-- How the tokens relate where the given states expect them. -/
def ItemTable.rivals (t : ItemTable) (states : Array State) : Rivals :=
  let e := t.expansion
  let x := Lexicon.ofTokens e.language.tokens e.language.blanks
  let count := e.tokenCount
  let starts := (Array.range count).map fun i =>
    (x.moves (x.reached (x.starts[i]?.toList))).foldl (fun s m => s ||| m.chars) 0
  let after := t.followers.map fun s =>
    (TokenSet.toList s count).foldl (fun cs i => cs ||| starts[i]?.getD 0) 0
  let matrix := (List.range count).foldl (fun m i =>
    (List.range i).foldl (fun (m : Array (Array Rivalry)) j =>
      let (a, b) := x.rivalry (after[·]?.getD 0) i j
      (m.modify i (·.setIfInBounds j a)).modify j (·.setIfInBounds i b)) m)
    (Array.replicate count (Array.replicate count {}))
  let expected := (states.foldl (fun (m : Std.HashMap TokenSet Unit) s => m.insert s.expected ())
    ∅).toList.map (·.1)
  let together := expected.foldl (fun sets set =>
    (TokenSet.toList set count).foldl (fun sets i => sets.modify i (· ||| set)) sets)
    (Array.replicate count 0)
  let word := e.find e.language.wordToken
  { lexicon := x, matrix, together, wordToken := word, words := findWords x matrix word expected }

end StructProjection.Grammar
