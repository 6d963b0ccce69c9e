import StructProjection.Parsing.Tree

/-! # Tokens of a text -/

namespace StructProjection.Parsing

open StructProjection.Grammar

/-- A text with what is asked about its characters. -/
structure Source where
  chars : Array Char
  classes : Array Nat
  /-- The place before each character, and the end. -/
  places : Array Extent

namespace Source

def ofString (s : String) : Source :=
  let chars := s.toList.toArray
  let places := chars.foldl (fun (ps, (p : Extent)) c =>
    let q : Extent := ⟨p.chars + 1, p.bytes + c.utf8Size, if c = '\n' then p.rows + 1 else p.rows⟩
    (ps.push q, q)) (#[Extent.zero], Extent.zero)
  { chars, classes := chars.map classOf, places := places.1 }

def length (s : Source) : Nat := s.chars.size

/-- The place before the character with the given index. -/
def place (s : Source) (i : Nat) : Extent := s.places[i]?.getD .zero

def slice (s : Source) (start stop : Nat) : String := String.ofList (s.chars.extract start stop).toList

end Source

/-- What a scanner has found; all places are indices of characters. -/
structure Scan where
  token : Option Nat
  start : Nat
  stop : Nat
  /-- How far it has looked. -/
  cursor : Nat

/-- Goes on from a station. Before the token only blanks have been read: `fresh`. -/
def scanOn (x : Scanner) (endToken : Nat) (s : Source) :
    (fuel station : Nat) → (fresh : Bool) → Scan → Scan
  | 0, _, _, scan => scan
  | fuel + 1, station, fresh, scan =>
    let here := x.stations[station]?.getD default
    let scan := match here.complete with
      | some t => { scan with token := some t, stop := scan.cursor }
      | none => scan
    match s.classes[scan.cursor]? with
    | none =>
      if fresh && x.acceptsEnd then { scan with token := some endToken, stop := scan.cursor }
      else scan
    | some k =>
      match here.edges.find? (·.chars.has k) with
      | none => scan
      | some e =>
        let next := scan.cursor + 1
        scanOn x endToken s fuel e.target (fresh && e.blank)
          { scan with cursor := next, start := if e.blank then next else scan.start }

/-- Reads a token from the given character on. A byte-order mark before the text is a blank. -/
def scan (x : Scanner) (endToken : Nat) (s : Source) (i : Nat) : Scan :=
  let i := if i = 0 ∧ s.chars[0]? = some '\ufeff' then 1 else i
  scanOn x endToken s (s.length + 2 - i) 0 true ⟨none, i, i, i⟩

/-- What a reader does where no token can be read: it skips characters up to one with which a token
begins. The answer is where the skipped text starts and ends. -/
def skipFrom (x : Scanner) (endToken : Nat) (s : Source) :
    (fuel : Nat) → (skipped : Option (Nat × Nat)) → (i : Nat) → Option (Nat × Nat) × Scan
  | 0, skipped, i => (skipped, ⟨none, i, i, i⟩)
  | fuel + 1, skipped, i =>
    let found := scan x endToken s i
    match found.token with
    | some _ => (skipped, found)
    | none =>
      let (start, stop) := skipped.getD (found.start, found.start)
      if found.cursor = stop then
        if s.length ≤ stop then (some (start, stop), found)
        else skipFrom x endToken s fuel (some (start, stop + 1)) (stop + 1)
      else skipFrom x endToken s fuel (some (start, found.cursor)) found.cursor

/-- Reads the token that follows a place in the given state. -/
def readToken (t : Table) (s : Source) (state : Nat) (place : Extent) : Tree :=
  let endToken := t.expansion.endSymbol
  let found := scan (t.scannerOf state) endToken s place.chars
  let (skipped, found) :=
    if found.token.isSome then (none, found)
    else skipFrom (t.scannerOf errorState) endToken s (s.length + 2) none place.chars
  match skipped, found.token with
  | some (start, stop), _ =>
    Tree.leaf t .error (s.place start - place) (s.place stop - s.place start) state false
  | none, some token =>
    let before := s.place found.start - place
    let size := s.place found.stop - s.place found.start
    let word := if token = t.wordToken then t.words[s.slice found.start found.stop]? else none
    match word with
    | none => Tree.leaf t (.symbol token) before size state false
    | some w =>
      let asWord := !(t.actionsOn state w).isEmpty || t.isReserved state w
      Tree.leaf t (.symbol (if asWord then w else token)) before size state true
  | none, none => Tree.leaf t .error .zero .zero state false

end StructProjection.Parsing
