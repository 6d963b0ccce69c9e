import StructProjection.Config
import StructProjection.Go.SourceFile
import StructProjection.Text.Quoted

/-! # What happens in a batch, as it is reported -/

namespace StructProjection

open Text Files

inductive Level
  | error
  | warn
  | info
  | debug
  | trace
  deriving DecidableEq, Repr

namespace Level

def name : Level → String
  | error => "ERROR"
  | warn => "WARN"
  | info => "INFO"
  | debug => "DEBUG"
  | trace => "TRACE"

/-- Greater for what is less important. -/
def rank : Level → Nat
  | error => 1
  | warn => 2
  | info => 3
  | debug => 4
  | trace => 5

end Level

/-- The part of the program that an event comes from. -/
inductive Scope
  | command
  | config
  | batch
  | formatter
  | reader
  deriving DecidableEq, Repr

/-- The name of a scope in a filter for events. -/
def Scope.name : Scope → String
  | .command => "protoslim"
  | .config => "protoslim_core::config"
  | .batch => "protoslim_core::projector"
  | .formatter => "protoslim_core::projector::format"
  | .reader => "protoslim_core::gosrc::parser"

inductive Event
  | configLoaded (path : Path)
  | noConfig (folder : Path)
  | ready (s : Settings) (formatters : List String)
  | nameIsNoText (path : Path)
  | excluded (path : Path)
  | listed (files excluded : Nat)
  | selected (files excluded : Nat) (root : Path)
  | headerEnd (offset : Nat)
  | header (stop : Nat)
  | declaration (kind : Go.DeclKind) (span : Span)
  | declarations (count : Nat)
  | struct (span : Span) (specs : List Go.TypeSpec)
  | projected (path : Path) (before after : Nat) (changed : Bool)
  | staged (count : Nat)
  | aborted (path : Path) (written untouched : Nat)
  | commitFailed (path : Path) (written untouched : Nat)
  | noFormatting
  | formatting (name : String) (root : Path)
  | tool (program : String) (args : List String) (target : Path)
  | toolOutput (program output : String)
  | unformatted (count : Nat)
  | partialBatch (root : Path)
  | summary (changed unchanged excluded : Nat) (formatters : List String)
  deriving DecidableEq, Repr

namespace Event

def level : Event → Level
  | aborted .. | commitFailed .. | unformatted .. | partialBatch .. => .warn
  | selected .. | listed .. | formatting .. | summary .. => .info
  | configLoaded .. | noConfig .. | ready .. | excluded .. | projected .. | staged .. | noFormatting
  | tool .. => .debug
  | nameIsNoText .. | headerEnd .. | header .. | declaration .. | declarations .. | struct ..
  | toolOutput .. => .trace

def scope : Event → Scope
  | ready .. | listed .. | partialBatch .. | summary .. => .command
  | configLoaded .. | noConfig .. => .config
  | tool .. | toolOutput .. => .formatter
  | headerEnd .. | declaration .. | declarations .. => .reader
  | nameIsNoText .. | excluded .. | selected .. | header .. | struct .. | projected .. | staged ..
  | aborted .. | commitFailed .. | noFormatting | formatting .. | unformatted .. => .batch

private def listText (items : List String) : String := "[" ++ ", ".intercalate items ++ "]"

private def fields (name : String) (fields : List (String × String)) : String :=
  let shown := fields.map fun (field, value) => field ++ ": " ++ value
  name ++ " \x7b " ++ ", ".intercalate shown ++ " \x7d"

private def modeText : CommitMode → String
  | .failFast => "FailFast"
  | .staged => "Staged"

private def settingsText (s : Settings) : String :=
  fields "ProjectorConfig"
    [("suffix", quote s.suffix),
     ("exclusions", "ExclusionRules(" ++ listText (s.exclusions.suffixes.map quote) ++ ")"),
     ("strip", "StripRules(" ++ listText (s.strip.literals.map quote) ++ ")"),
     ("commit", modeText s.commit),
     ("dry_run", toString s.dryRun)]

/-- Settings and formatters, as they are shown before a batch. -/
def readyText (s : Settings) (formatters : List String) : String :=
  fields "Projector"
    [("config", settingsText s), ("formatters", listText (formatters.map quote))]

private def kindText : Go.DeclKind → String
  | .const => "Const"
  | .var => "Var"
  | .type => "Type"
  | .func => "Func"

private def shapeText : Go.Shape → String
  | .struct => "Struct"
  | .interface => "Interface"
  | .other => "Other"

private def specText (t : Go.TypeSpec) : String :=
  fields "TypeSpec" [("name", quote t.name), ("shape", shapeText t.shape)]

def text : Event → String
  | configLoaded path => s!"Loaded config from {path.render}"
  | noConfig folder => s!"No {Config.fileName} in {folder.render}, using defaults"
  | ready s formatters => readyText s formatters
  | nameIsNoText path => s!"Skipping non-UTF-8 file name: {path.render}"
  | excluded path => s!"Excluded: {path.render}"
  | listed files left => s!"{files} file(s) eligible, {left} excluded"
  | selected files left root => s!"Projecting {files} file(s) under {root.render} ({left} excluded)"
  | headerEnd offset => s!"imports end at offset {offset}"
  | header stop => s!"import span 0..{stop}"
  | declaration kind span => s!"{kindText kind} declaration at {span.start}..{span.stop}"
  | declarations count => s!"parsed {count} top-level declarations"
  | struct span specs =>
    s!"struct span {span.start}..{span.stop} ({listText (specs.map specText)})"
  | projected path before after changed =>
    let note := if changed then "" else " (unchanged)"
    s!"Projected {path.render}: {before} -> {after} bytes{note}"
  | staged count => s!"Staged {count} projection(s), committing"
  | aborted path written untouched =>
    s!"Batch aborted at {path.render}: {written} file(s) before it were already rewritten, " ++
      s!"{untouched} left untouched"
  | commitFailed path written untouched =>
    s!"Commit failed at {path.render}: {written} file(s) already written, " ++
      s!"{untouched} left untouched"
  | noFormatting => "Dry run: skipping formatters"
  | formatting name root => s!"Running {name} over {root.render}"
  | tool program args target =>
    "Running " ++ program ++ " " ++ " ".intercalate args ++ " " ++ target.render
  | toolOutput program output => s!"{program} output: {output}"
  | unformatted count => s!"{count} file(s) were already rewritten and are left unformatted"
  | partialBatch root =>
    s!"Files under {root.render} may be partially rewritten; nothing was rolled back. " ++
      "Restore them from version control or regenerate them before rerunning."
  | summary changed unchanged left formatters =>
    let names := ", ".intercalate formatters
    s!"Summary: {changed} projected, {unchanged} unchanged, {left} excluded, " ++
      s!"formatters: [{names}]"

end Event

end StructProjection
