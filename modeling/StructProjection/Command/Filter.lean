import StructProjection.Event

/-! # Filters for events

A filter says down to which level events are shown, for all scopes and for single ones.
-/

namespace StructProjection.Command

open Text

/-- Events are shown whose level has at most the given rank, if the name of their scope begins with
`scope`. -/
structure Directive where
  scope : Option String
  rank : Nat
  deriving DecidableEq, Repr

private def rankNamed (s : String) : Option Nat :=
  match String.ofList (s.toList.map Char.toLower) with
  | "off" | "0" => some 0
  | "error" | "1" => some 1
  | "warn" | "2" => some 2
  | "info" | "3" => some 3
  | "debug" | "4" => some 4
  | "trace" | "5" => some 5
  | _ => none

/-- Why a part of a filter is no directive. -/
inductive DirectiveFault
  | malformed
  | unknownLevel
  deriving DecidableEq, Repr

def DirectiveFault.message : DirectiveFault → String
  | .malformed => "invalid filter directive"
  | .unknownLevel =>
    "error parsing level filter: expected one of \"off\", \"error\", \"warn\", \"info\", \"debug\", " ++
      "\"trace\", or a number 0-5"

private def startsScope (c : Char) : Bool :=
  c = '-' || c = ':' || c = '_' || c = '[' || c.isAlphanum || 0x80 ≤ c.toNat

/-- The level behind an equals sign. All events are shown where none is given. -/
private def levelAfter : List Char → Except DirectiveFault Nat
  | [] => .ok Level.trace.rank
  | cs =>
    match rankNamed (String.ofList cs) with
    | some rank => .ok rank
    | none => .error .unknownLevel

/-- Reads a part in brackets and a level behind it, which say nothing about events. -/
private def readBracket (cs : List Char) : Except DirectiveFault Unit :=
  match cs.dropWhile (· ≠ ']') with
  | [']'] => .ok ()
  | ']' :: '=' :: level => do let _ ← levelAfter level
  | _ => .error .malformed

/-- Reads a directive: a level, a scope, or both with an equals sign between them. -/
def Directive.read (s : String) : Except DirectiveFault (Option Directive) :=
  match trim s.toList with
  | [] => .ok none
  | c :: cs =>
    if !startsScope c then .error .malformed
    else
      let count := ((c :: cs).takeWhile fun d => d ≠ '=' && d ≠ '[').length
      let scope := String.ofList (s.toList.take count)
      match s.toList.drop count with
      | '=' :: level => do return some ⟨some scope, ← levelAfter level⟩
      | '[' :: rest => do
        readBracket rest
        return none
      | _ =>
        match rankNamed scope with
        | some rank => .ok (some ⟨none, rank⟩)
        | none => .ok (some ⟨some scope, Level.trace.rank⟩)

/-- A filter, and the parts of its text that are no directives. -/
structure Filter where
  directives : List Directive
  bad : List (String × DirectiveFault)
  deriving DecidableEq, Repr

def Filter.read (text : String) : Filter :=
  let parts := (text.splitOn ",").filter (· ≠ "")
  let read := parts.map fun p => (p, Directive.read p)
  { directives := read.filterMap fun (_, r) => r.toOption.join
    bad := read.filterMap fun
      | (p, .error f) => some (p, f)
      | (_, .ok _) => none }

private def Directive.covers (d : Directive) (scope : String) : Bool :=
  d.scope.all fun name => name.toList.isPrefixOf scope.toList

private def Directive.width (d : Directive) : Nat := (d.scope.map (·.length + 1)).getD 0

/-- The directive with the longest scope among those that cover an event; of equals, the last. -/
private def bestFor (scope : String) (ds : List Directive) : Option Directive :=
  ds.foldl (fun best d =>
    if !d.covers scope then best
    else if best.all (·.width ≤ d.width) then some d else best) none

/-- Whether an event is shown, with a level for all scopes to which the filter does not give
another. -/
def Filter.shows (f : Filter) (level : Level) (e : Event) : Bool :=
  let single := f.directives.filter (·.scope.isSome)
  let rank := ((bestFor e.scope.name single).map (·.rank)).getD level.rank
  e.level.rank ≤ rank

end StructProjection.Command
