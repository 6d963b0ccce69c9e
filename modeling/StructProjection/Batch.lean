import StructProjection.Formatter
import StructProjection.Projection
import StructProjection.Selection

/-! # Batches

A batch projects the selected files under a root one after the other and runs the formatters over the
root. What has been written stays written when it fails.
-/

namespace StructProjection

open Text Files Go

/-- What a batch has done. In a dry run, what it would have done. -/
structure Report where
  projected : List Path := []
  /-- Files that are their own projection. -/
  unchanged : List Path := []
  excluded : List Path := []
  formattersRun : List String := []
  dryRun : Bool := false
  deriving DecidableEq, Repr

/-- The state of a batch. -/
structure Progress where
  tree : Tree
  report : Report
  /-- What has happened, the first event first. -/
  events : List Event

namespace Progress

def emit (p : Progress) (events : List Event) : Progress := { p with events := p.events ++ events }

end Progress

/-- A file with its projection. -/
structure Projected where
  file : Found
  output : String
  changed : Bool
  deriving DecidableEq, Repr

def headerEvents (source : List Char) (o : Outline) : List Event :=
  match o.headerEnd source with
  | .ok stop => [.headerEnd stop, .header (extendOverLine source stop)]
  | .error _ => []

def declarationEvents (source : List Char) (o : Outline) : List Event :=
  let (decls, complaint) := o.declarations source
  decls.map (fun d => .declaration d.kind d.span) ++
    match complaint with
    | some _ => []
    | none =>
      .declarations decls.length ::
        (decls.filter Decl.hasStruct).map fun d => .struct (keptSpan source d) d.specs

/-- What is reported while a text is read. The declarations are read only if there is a header. -/
def readingEvents (source : List Char) (o : Outline) : List Event :=
  match headerEvents source o with
  | [] => []
  | events => events ++ declarationEvents source o

/-- Projects a text. -/
def projectText (strip : StripRules) (text : String) :
    List Event × Except Diagnostic String :=
  match outline text with
  | .ok o => (readingEvents text.toList o, projectOutline text.toList strip o)
  | .error d => ([], .error d)

/-- Projects a file without writing it. -/
def projectFile (s : Settings) (a : Access) (t : Tree) (f : Found) :
    List Event × Except Failure Projected :=
  match t.read a f.location with
  | .error r => ([], .error (.reading f.path r))
  | .ok content =>
    match String.fromUTF8? content with
    | none => ([], .error (.encoding f.path))
    | some text =>
      match projectText s.strip text with
      | (events, .error d) => (events, .error (.parsing f.path d))
      | (events, .ok output) =>
        let changed := output ≠ text
        let done := Event.projected f.path text.utf8ByteSize output.utf8ByteSize changed
        (events ++ [done], .ok ⟨f, output, changed⟩)

/-- Writes a projection, unless the file is its own projection or the run is dry. -/
def commit (s : Settings) (a : Access) (p : Progress) (x : Projected) : Progress × Option Failure :=
  let report := p.report
  if !x.changed then
    ({ p with report := { report with unchanged := report.unchanged ++ [x.file.path] } }, none)
  else
    let done := { report with projected := report.projected ++ [x.file.path] }
    if s.dryRun then ({ p with report := done }, none)
    else
      match p.tree.overwrite a x.file.location x.output.toUTF8 with
      | (tree, none) => ({ p with tree, report := done }, none)
      | (tree, some r) => ({ p with tree }, some (.writing x.file.path r))

/-- Projects and writes a file. -/
def handle (s : Settings) (a : Access) (p : Progress) (f : Found) :
    Progress × Option Failure :=
  match projectFile s a p.tree f with
  | (events, .ok x) => commit s a (p.emit events) x
  | (events, .error e) => (p.emit events, some e)

/-- Writes each file as soon as it is projected. -/
def runFailFast (s : Settings) (a : Access) : Progress → List Found → Progress × Option Failure
  | p, [] => (p, none)
  | p, f :: fs =>
    match handle s a p f with
    | (p, none) => runFailFast s a p fs
    | (p, some e) =>
      let written := p.report.projected.length
      if 0 < written && !s.dryRun then
        (p.emit [.aborted f.path written (fs.length + 1)], some e)
      else (p, some e)

/-- Projects all files. -/
def stage (s : Settings) (a : Access) (t : Tree) :
    List Found → List Event × Except Failure (List Projected)
  | [] => ([], .ok [])
  | f :: fs =>
    match projectFile s a t f with
    | (events, .error e) => (events, .error e)
    | (events, .ok x) =>
      match stage s a t fs with
      | (more, .ok xs) => (events ++ more, .ok (x :: xs))
      | (more, .error e) => (events ++ more, .error e)

/-- Writes staged projections one after the other. -/
def commitAll (s : Settings) (a : Access) : Progress → List Projected → Progress × Option Failure
  | p, [] => (p, none)
  | p, x :: xs =>
    match commit s a p x with
    | (p, none) => commitAll s a p xs
    | (p, some e) =>
      let written := p.report.projected.length
      if 0 < written then
        (p.emit [.commitFailed x.file.path written (xs.length + 1)], some e)
      else (p, some e)

/-- Writes the files when all of them are projected. -/
def runStaged (s : Settings) (a : Access) (p : Progress) (files : List Found) :
    Progress × Option Failure :=
  match stage s a p.tree files with
  | (events, .error e) => (p.emit events, some e)
  | (events, .ok staged) => commitAll s a (p.emit (events ++ [.staged staged.length])) staged

/-- Runs formatters one after the other up to the first that fails. -/
def runFormatters (root : Path) : Progress → List Formatter → Progress × Option Failure
  | p, [] => (p, none)
  | p, f :: fs =>
    let pass := f.run root p.tree
    let p := { p with tree := pass.tree }.emit (.formatting f.name root :: pass.events)
    match pass.failure with
    | none =>
      let report := { p.report with formattersRun := p.report.formattersRun ++ [f.name] }
      runFormatters root { p with report } fs
    | some e =>
      let count := p.report.projected.length
      if 0 < count then (p.emit [.unformatted count], some e) else (p, some e)

/-- The end of a batch: the files and what has happened, whether it has failed or not. -/
structure Outcome where
  tree : Tree
  events : List Event
  result : Except Failure Report

def Progress.outcome (p : Progress) : Option Failure → Outcome
  | none => ⟨p.tree, p.events, .ok p.report⟩
  | some e => ⟨p.tree, p.events, .error e⟩

/-- Runs a batch over the files under a root. -/
def runBatch (s : Settings) (formatters : List Formatter) (a : Access) (root : Path) (t : Tree) :
    Outcome :=
  match s.fault? with
  | some f => ⟨t, [], .error (.settings f)⟩
  | none =>
    match findFiles t root with
    | .error e => ⟨t, [], .error e⟩
    | .ok found =>
      let selection := Selection.ofFound s found
      let files := selection.files
      let report : Report := { excluded := selection.excluded.map (·.path), dryRun := s.dryRun }
      let selected := Event.selected files.length selection.excluded.length root
      let start : Progress := ⟨t, report, Selection.events s found ++ [selected]⟩
      let (p, failure) := match s.commit with
        | .failFast => runFailFast s a start files
        | .staged => runStaged s a start files
      match failure with
      | some e => p.outcome (some e)
      | none =>
        if s.dryRun then (p.emit [.noFormatting]).outcome none
        else
          let (p, failure) := runFormatters root p formatters
          p.outcome failure

end StructProjection
