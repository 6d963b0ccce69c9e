import StructProjection.Go.Diagnostic
import StructProjection.Text.Blank

/-! # Outlines

The constructs at the top of a source file, in order, with their places in the text.
-/

namespace StructProjection.Go

open StructProjection.Text

inductive DeclKind
  | const
  | var
  | type
  /-- A function or a method. -/
  | func
  deriving DecidableEq, Repr

inductive Shape
  | struct
  | interface
  | other
  deriving DecidableEq, Repr

/-- A name and the shape of the type that is declared for it. -/
structure TypeSpec where
  name : String
  shape : Shape
  deriving DecidableEq, Repr

/-- A place where the text breaks the grammar. -/
inductive Fault
  | unexpected (span : Span)
  | missing (offset : Nat) (kind : String)
  deriving DecidableEq, Repr

namespace Fault

def offset : Fault → Nat
  | .unexpected s => s.start
  | .missing n _ => n

private def firstLine (cs : List Char) : List Char := cs.takeWhile (· ≠ '\n')

/-- A fault is shown by the beginning of its first line. -/
def complaint (source : List Char) : Fault → Complaint
  | .unexpected s => .unexpected (String.ofList ((trim (firstLine (s.text source))).take 24))
  | .missing _ kind => .missing kind

def diagnose (source : List Char) (f : Fault) : Diagnostic :=
  Diagnostic.locate source f.offset (f.complaint source)

def Within (source : List Char) : Fault → Prop
  | .unexpected s => s.Within source
  | .missing n _ => IsBoundary n source

instance (source : List Char) (f : Fault) : Decidable (f.Within source) :=
  match f with
  | .unexpected s => inferInstanceAs (Decidable (s.Within source))
  | .missing n _ => inferInstanceAs (Decidable (IsBoundary n source))

end Fault

inductive Construct
  | comment
  | packageClause
  | importDeclaration
  | declaration (kind : DeclKind)
  /-- Anything else, by the name that the grammar gives to it. -/
  | other (name : String)
  deriving DecidableEq, Repr

/-- The name that the grammar gives to a construct. -/
def Construct.name : Construct → String
  | .comment => "comment"
  | .packageClause => "package_clause"
  | .importDeclaration => "import_declaration"
  | .declaration .const => "const_declaration"
  | .declaration .var => "var_declaration"
  | .declaration .type => "type_declaration"
  | .declaration .func => "function_declaration"
  | .other name => name

/-- A construct with its place. -/
structure Item where
  construct : Construct
  start : Place
  stop : Place
  /-- The first fault in it. -/
  fault : Option Fault
  /-- What a type declaration declares. -/
  specs : List TypeSpec
  deriving DecidableEq, Repr

def Item.span (i : Item) : Span := ⟨i.start.offset, i.stop.offset⟩

structure Outline where
  /-- The first fault in the text. -/
  fault : Option Fault
  items : List Item
  deriving DecidableEq, Repr

namespace Outline

def isSpace (c : Char) : Bool :=
  c = ' ' || (9 ≤ c.toNat && c.toNat ≤ 13) || c = '\ufeff'

def isTerminator (c : Char) : Bool := c = ';' || c.toNat = 0

/-- Reads over what stands between constructs, which is spaces and, unless the construct before has
been ended, one terminator. Tells whether that construct is ended then. A line feed ends it, too. -/
def endedAfter : (ended : Bool) → List Char → Option Bool
  | ended, [] => some ended
  | ended, c :: cs =>
    if c = '\n' then endedAfter true cs
    else if isSpace c then endedAfter ended cs
    else if isTerminator c && !ended then endedAfter true cs
    else none

/-- The last line of the text is not blank. -/
def endsInLine (cs : List Char) : Bool := (takeEndWhile (· ≠ '\n') cs).any (!isSpace ·)

/-- The closing mark of a block comment stands at the end and nowhere else. -/
def closesAtEnd : List Char → Bool
  | [] => false
  | '*' :: '/' :: cs => cs = []
  | _ :: cs => closesAtEnd cs

/-- A comment runs to the end of a line or to its closing mark. -/
def isCommentText (cs : List Char) : Bool :=
  match cs with
  | '/' :: '/' :: rest => '\n' ∉ rest
  | '/' :: '*' :: rest => closesAtEnd rest
  | _ => false

/-- The items fit in the rest of a text, which begins at `place`; `ended` tells whether the construct
before has been ended. Where the text has no fault, an item does not end with a blank line, only a gap
stands before it, and comments look like comments. -/
def itemsFit (sound : Bool) : (ended : Bool) → Place → (rest : List Char) → List Item → Bool
  | ended, _, rest, [] => !sound || (endedAfter ended rest).isSome
  | ended, place, rest, i :: is =>
    let gap := takeBytes (i.start.offset - place.offset) rest
    let rest := dropBytes (i.start.offset - place.offset) rest
    let text := takeBytes (i.stop.offset - i.start.offset) rest
    let more := dropBytes (i.stop.offset - i.start.offset) rest
    let ended := endedAfter ended gap
    place.after gap = i.start && i.start.after text = i.stop &&
      (!sound || (i.fault = none && endsInLine text && ended.isSome &&
        (i.construct ≠ .comment || isCommentText text))) &&
      itemsFit sound (i.construct = .comment && ended.getD true) i.stop more is

/-- Whether an outline can be one of the given text. -/
def fits (source : List Char) (o : Outline) : Bool :=
  o.fault.all (·.Within source) && o.items.all (·.fault.all (·.Within source)) &&
    itemsFit o.fault.isNone true .zero source o.items

/-- Items that fit are stretches of the text. -/
theorem exists_eq_append_of_itemsFit {sound ended : Bool} {rest : List Char} {is : List Item}
    {i : Item} (before : List Char) (h : itemsFit sound ended (.after .zero before) rest is)
    (hi : i ∈ is) :
    ∃ as text bs, before ++ rest = as ++ text ++ bs ∧ i.start = .after .zero as ∧
      i.stop = .after .zero (as ++ text) := by
  induction is generalizing before rest ended with
  | nil => simp at hi
  | cons j is ih =>
    simp only [itemsFit, Bool.and_eq_true, decide_eq_true_eq] at h
    obtain ⟨⟨⟨hstart, hstop⟩, -⟩, hrest⟩ := h
    generalize hg : takeBytes (j.start.offset - (Place.after .zero before).offset) rest = gap at *
    generalize hr : dropBytes (j.start.offset - (Place.after .zero before).offset) rest = inner at *
    generalize ht : takeBytes (j.stop.offset - j.start.offset) inner = text at *
    generalize hm : dropBytes (j.stop.offset - j.start.offset) inner = more at *
    have eq : before ++ rest = before ++ gap ++ text ++ more := by
      rw [← takeBytes_append_dropBytes (j.start.offset - (Place.after .zero before).offset) rest,
        hg, hr, ← takeBytes_append_dropBytes (j.stop.offset - j.start.offset) inner, ht, hm]
      simp
    rw [Place.after_after] at hstart
    rw [← hstart, Place.after_after] at hstop
    rcases List.mem_cons.1 hi with rfl | hi
    · exact ⟨before ++ gap, text, more, eq, hstart.symm, hstop.symm⟩
    · rw [← hstop] at hrest
      rw [eq]
      exact ih _ hrest hi

theorem exists_eq_append_of_fits {source : List Char} {o : Outline} {i : Item}
    (h : o.fits source) (hi : i ∈ o.items) :
    ∃ as text bs, source = as ++ text ++ bs ∧ i.start = .after .zero as ∧
      i.stop = .after .zero (as ++ text) := by
  simp only [fits, Bool.and_eq_true] at h
  exact exists_eq_append_of_itemsFit [] h.2 hi

theorem within_of_fits {source : List Char} {o : Outline} {i : Item} (h : o.fits source)
    (hi : i ∈ o.items) : i.span.Within source := by
  obtain ⟨as, text, bs, rfl, hstart, hstop⟩ := exists_eq_append_of_fits h hi
  refine ⟨?_, ?_, ?_⟩
  · simp [Item.span, hstart, hstop, Place.after]
  · rw [Item.span, hstart, List.append_assoc]
    exact Place.isBoundary_after as (text ++ bs)
  · rw [Item.span, hstop]
    exact Place.isBoundary_after (as ++ text) bs

end Outline

end StructProjection.Go
