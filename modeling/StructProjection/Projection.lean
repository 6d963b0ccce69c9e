import StructProjection.Go.SourceFile
import StructProjection.Rules

/-! # Projection

The projection of a source file keeps its header and the declarations of structs, each with its
comments and its line. Everything else is left out, and the literals of the strip rules are removed
from what is kept.
-/

namespace StructProjection

open Text Go

/-- The text begins like a comment, and ends like one if it has to. -/
def isTrailingComment (cs : List Char) : Bool :=
  match cs with
  | '/' :: '/' :: _ => true
  | '/' :: '*' :: _ => ['*', '/'].isSuffixOf cs
  | _ => false

/-- The rest of the line at the beginning of a text, with its line feed. -/
def restOfLine (cs : List Char) : List Char :=
  cs.takeWhile (· ≠ '\n') ++ (cs.dropWhile (· ≠ '\n')).take 1

/-- Goes to the end of the line that the offset lies on, if only blanks or a comment follow on it. -/
def extendOverLine (source : List Char) (stop : Nat) : Nat :=
  let rest := restOfLine (dropBytes stop source)
  let text := trim rest
  if text = [] || isTrailingComment text then stop + byteLength rest else stop

/-- Characters that make up the gap above a declaration. -/
def isGap (c : Char) : Bool := c = ' ' || c = '\t' || c = '\r' || c = '\n'

/-- Goes back over the blank lines above the offset, if the line before them ends there. -/
def gapStart (source : List Char) (start : Nat) : Nat :=
  match (takeEndWhile isGap (takeBytes start source)).dropWhile (· ≠ '\n') with
  | [] => start
  | _ :: lines => start - byteLength lines

/-- The span of a declaration in a projection. -/
def keptSpan (source : List Char) (d : Decl) : Span :=
  { start := gapStart source d.leadingStart, stop := extendOverLine source d.span.stop }

def headerSpanOf (source : List Char) (o : Outline) : Except Diagnostic Span := do
  return ⟨0, extendOverLine source (← o.headerEnd source)⟩

def structSpansOf (source : List Char) (o : Outline) : Except Diagnostic (List Span) := do
  return (← o.sourceFile source).structDecls.map (keptSpan source)

section Spans

variable {source : List Char} {o : Outline}

theorem headerSpanOf_of_ok {stop : Nat} (h : o.headerEnd source = .ok stop) :
    headerSpanOf source o = .ok ⟨0, extendOverLine source stop⟩ := by
  rw [headerSpanOf, h]
  rfl

theorem structSpansOf_of_ok {file : SourceFile} (h : o.sourceFile source = .ok file) :
    structSpansOf source o = .ok (file.structDecls.map (keptSpan source)) := by
  rw [structSpansOf, h]
  rfl

end Spans

/-- The span of the header with the rest of its last line. -/
def headerSpan (text : String) : Except Diagnostic Span := do
  headerSpanOf text.toList (← outline text)

theorem headerSpan_of_ok {text : String} {o : Outline} (h : outline text = .ok o) :
    headerSpan text = headerSpanOf text.toList o := by
  rw [headerSpan, h]
  rfl

/-- The spans of the declarations of structs. -/
def structSpans (text : String) : Except Diagnostic (List Span) := do
  structSpansOf text.toList (← outline text)

theorem structSpans_of_ok {text : String} {o : Outline} (h : outline text = .ok o) :
    structSpans text = structSpansOf text.toList o := by
  rw [structSpans, h]
  rfl

/-- The text of a span. -/
def sliceOf (text : String) (s : Span) : String := String.ofList (s.text text.toList)

/-- Projects the text that has the given outline. -/
def projectOutline (source : List Char) (strip : StripRules) (o : Outline) :
    Except Diagnostic String := do
  let header ← headerSpanOf source o
  let structs ← structSpansOf source o
  return strip.apply (String.ofList (header.text source ++ structs.flatMap (·.text source)))

theorem projectOutline_of_ok {source : List Char} {o : Outline} {header : Span} {structs : List Span}
    (hheader : headerSpanOf source o = .ok header) (hstructs : structSpansOf source o = .ok structs)
    (strip : StripRules) : projectOutline source strip o =
      .ok (strip.apply (String.ofList (header.text source ++ structs.flatMap (·.text source)))) := by
  rw [projectOutline, hheader, hstructs]
  rfl

/-- Projects a text in the outline that a reader finds. -/
def projectWith (r : Reader) (text : String) (strip : StripRules) : Except Diagnostic String := do
  projectOutline text.toList strip (← r text)

theorem projectWith_of_ok {r : Reader} {text : String} {o : Outline} (h : r text = .ok o)
    (strip : StripRules) : projectWith r text strip = projectOutline text.toList strip o := by
  rw [projectWith, h]
  rfl

/-- Projects the text of a source file. -/
def project : String → StripRules → Except Diagnostic String := projectWith outline

end StructProjection
