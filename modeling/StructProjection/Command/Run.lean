import StructProjection.Batch
import StructProjection.Command.Arguments
import StructProjection.Command.Filter

/-! # The command

The command reads its arguments and the configuration, and lists the selected files or runs a batch.
-/

namespace StructProjection.Command

open Files

/-- What the command is run with. -/
structure Call where
  arguments : List String
  /-- The variable that names a configuration. -/
  config : Option String
  /-- The variable that holds a filter for events. -/
  filter : Option String
  /-- The working folder, as it is shown. -/
  folder : Path
  access : Access

inductive Line
  | event (e : Event)
  | text (s : String)
  deriving DecidableEq, Repr

/-- What the command has done. -/
structure Response where
  code : Nat
  lines : List Line
  errors : String
  tree : Tree

/-- What a line begins with besides the time. -/
private def levelColumn (l : Level) : String :=
  String.ofList (List.replicate (5 - l.name.length) ' ') ++ l.name

/-- A line of the output; events begin with the time. -/
def Line.render (time : String) : Line → String
  | .event e => time ++ " " ++ levelColumn e.level ++ " " ++ Text.showControls e.text
  | .text s => s

/-- Why the command has failed, the last cause at the end. -/
structure Trouble where
  headline : String
  causes : List String
  deriving DecidableEq, Repr

private def indent (margin : String) (text : String) : String :=
  ("\n" ++ margin).intercalate (text.splitOn "\n")

private def numbered : Nat → List String → List String
  | _, [] => []
  | n, c :: cs =>
    let number := toString n
    let column := String.ofList (List.replicate (5 - number.length) ' ') ++ number ++ ": "
    (column ++ indent "       " c) :: numbered (n + 1) cs

def Trouble.render (t : Trouble) : String :=
  let head := "Error: " ++ t.headline
  match t.causes with
  | [] => head ++ "\n"
  | [c] => head ++ "\n\nCaused by:\n    " ++ indent "    " c ++ "\n"
  | cs => head ++ "\n\nCaused by:\n" ++ "\n".intercalate (numbered 0 cs) ++ "\n"

private def refusalOf : Failure → Option String
  | .listing _ r => some r.message
  | _ => none

def troubleOf (headline : String) (f : Failure) : Trouble :=
  ⟨headline, f.message :: f.cause.toList ++ (refusalOf f).toList⟩

/-- The settings of a configuration, with what the arguments change and add. -/
def mergeSettings (c : Config) (a : Arguments) : Settings :=
  let s := c.settings
  { suffix := a.suffix.getD s.suffix
    exclusions := a.exclude.foldl ExclusionRules.add s.exclusions
    strip := a.strip.foldl StripRules.add s.strip
    commit := if a.staged then .staged else s.commit
    dryRun := a.dryRun }

def levelOf (verbosity : Nat) : Level :=
  match verbosity with
  | 0 => .warn
  | 1 => .info
  | 2 => .debug
  | _ => .trace

/-- Loads the configuration that is named, or that of the working folder. -/
def loadConfig (call : Call) (a : Arguments) (t : Tree) :
    List Event × Except Trouble Config :=
  match a.config with
  | some name =>
    let path := Path.ofString name
    match Config.load t call.access path path with
    | .ok c => ([.configLoaded path], .ok c)
    | .error f => (loaded path f, .error (troubleOf s!"Failed to load config: {name}" f))
  | none =>
    let here : Path := ⟨[]⟩
    let path := Config.inFolder call.folder
    match Config.discover t call.access here call.folder with
    | .ok c => (if c.source.isSome then [.configLoaded path] else [.noConfig call.folder], .ok c)
    | .error f => (loaded path f, .error (troubleOf "Failed to load project config" f))
where
  /-- A file has been loaded also when it could not be understood. -/
  loaded (path : Path) : Failure → List Event
    | .configParsing .. => [.configLoaded path]
    | _ => []

/-- A warning where files can have been written before a failure. -/
def partialBatchNote (s : Settings) (root : Path) (f : Failure) : Option Event :=
  if s.dryRun || !f.mayLeavePartialBatch s.commit then none else some (.partialBatch root)

/-- Lists the selected files. -/
def listFiles (s : Settings) (root : Path) (t : Tree) : List Line × Option Trouble :=
  match findFiles t root with
  | .error f => ([], some (troubleOf s!"Failed to list files under {root.render}" f))
  | .ok found =>
    let selection := Selection.ofFound s found
    let listed := Event.listed selection.files.length selection.excluded.length
    ((Selection.events s found).map .event ++
      selection.files.map (fun f => .text f.path.render) ++ [.event listed], none)

def reportLines (r : Report) : List Line :=
  let verb := if r.dryRun then "Would rewrite" else "Rewrote"
  r.projected.map (fun p => .text s!"{verb} {p.render}") ++
    [.event (.summary r.projected.length r.unchanged.length r.excluded.length r.formattersRun)]

/-- Runs a batch. -/
def runAll (s : Settings) (formatters : List Formatter) (a : Access) (root : Path) (t : Tree) :
    Tree × List Line × Option Trouble :=
  let ready := Event.ready s (formatters.map (·.name))
  let outcome := runBatch s formatters a root t
  let events := (ready :: outcome.events).map Line.event
  match outcome.result with
  | .ok report => (outcome.tree, events ++ reportLines report, none)
  | .error f =>
    let note := (partialBatchNote s root f).toList.map Line.event
    (outcome.tree, events ++ note, some (troubleOf s!"Projection failed under {root.render}" f))

/-- Does what the arguments ask for. -/
def execute (programs : Shell.Programs) (call : Call) (a : Arguments) (t : Tree) :
    Tree × List Line × Option Trouble :=
  let root := Path.ofString a.path
  if !t.pathExists root then (t, [], some ⟨s!"Path does not exist: {a.path}", []⟩)
  else
    match loadConfig call a t with
    | (events, .error trouble) => (t, events.map .event, some trouble)
    | (events, .ok config) =>
      let s := mergeSettings config a
      let before := events.map Line.event
      if a.listOnly then
        let (lines, trouble) := listFiles s root t
        (t, before ++ lines, trouble)
      else
        let formatters := if a.noFormat then [] else config.tools.map (Tool.formatterOf programs)
        let (t, lines, trouble) := runAll s formatters call.access root t
        (t, before ++ lines, trouble)

private def ignored (bad : List (String × DirectiveFault)) : String :=
  String.join (bad.map fun (part, fault) => "ignoring \x60" ++ part ++ "\x60: " ++ fault.message ++ "\n")

private def version : String := "protoslim 0.1.0"

/-- Runs the command in the working folder, whose content is the tree. -/
def runWith (programs : Shell.Programs) (call : Call) (t : Tree) : Response :=
  match Arguments.read call.config call.arguments with
  | .error (.usage e) => ⟨2, [], s!"error: {e.message}\n", t⟩
  | .error .version => ⟨0, [.text version], "", t⟩
  | .error .help => ⟨0, [], "", t⟩
  | .ok a =>
    let filter := Filter.read (call.filter.getD "")
    let shown : Line → Bool
      | .event e => filter.shows (levelOf a.verbosity) e
      | .text _ => true
    let (tree, lines, trouble) := execute programs call a t
    let errors := ignored filter.bad ++ (trouble.map Trouble.render).getD ""
    ⟨if trouble.isSome then 1 else 0, lines.filter shown, errors, tree⟩

/-- Runs the command where programs are found by their paths only. -/
def run : Call → Tree → Response := runWith (Shell.run false)

end StructProjection.Command
