/-! # Arguments of the command line -/

namespace StructProjection.Command

/-- An argument that has a value. -/
inductive Field
  | path
  | config
  | suffix
  | exclude
  | strip
  deriving DecidableEq, Repr

/-- An argument without a value. -/
inductive Flag
  | noFormat
  | staged
  | dryRun
  | listOnly
  | verbose
  | help
  | version
  deriving DecidableEq, Repr

/-- What is known of the arguments. -/
structure Arguments where
  path : String := "."
  config : Option String := none
  suffix : Option String := none
  /-- Further endings of names of excluded files. -/
  exclude : List String := []
  /-- Further literals that are removed. -/
  strip : List String := []
  noFormat : Bool := false
  staged : Bool := false
  dryRun : Bool := false
  listOnly : Bool := false
  verbosity : Nat := 0
  deriving DecidableEq, Repr

/-- How a field is named in a complaint. -/
def Field.shown : Field → String
  | .path => "[PATH]"
  | .config => "--config <CONFIG>"
  | .suffix => "--suffix <SUFFIX>"
  | .exclude => "--exclude <SUFFIX>"
  | .strip => "--strip <LITERAL>"

def Flag.shown : Flag → String
  | .noFormat => "--no-format"
  | .staged => "--staged"
  | .dryRun => "--dry-run"
  | .listOnly => "--list-only"
  | .verbose => "--verbose..."
  | .help => "--help"
  | .version => "--version"

def Field.named : String → Option Field
  | "config" => some .config
  | "suffix" => some .suffix
  | "exclude" => some .exclude
  | "strip" => some .strip
  | _ => none

def Flag.named : String → Option Flag
  | "no-format" => some .noFormat
  | "staged" => some .staged
  | "dry-run" => some .dryRun
  | "list-only" => some .listOnly
  | "verbose" => some .verbose
  | "help" => some .help
  | "version" => some .version
  | _ => none

def Flag.lettered : Char → Option Flag
  | 'v' => some .verbose
  | 'h' => some .help
  | 'V' => some .version
  | _ => none

inductive UsageError
  | unexpected (argument : String)
  | noValue (shown : String)
  | extraValue (value shown : String)
  | repeated (shown : String)
  deriving DecidableEq, Repr

def UsageError.message : UsageError → String
  | .unexpected argument => s!"unexpected argument '{argument}' found"
  | .noValue shown => s!"a value is required for '{shown}' but none was supplied"
  | .extraValue value shown =>
    s!"unexpected value '{value}' for '{shown}' found; no more were expected"
  | .repeated shown => s!"the argument '{shown}' cannot be used multiple times"

/-- Why nothing is run. -/
inductive Stop
  | usage (e : UsageError)
  | help
  | version
  deriving DecidableEq, Repr

/-- A field that has been named, and its value as soon as it has come. -/
structure Pending where
  field : Field
  value : Option String

structure State where
  arguments : Arguments := {}
  pending : Option Pending := none
  hasPath : Bool := false
  /-- Everything else is a path. -/
  onlyPaths : Bool := false

def fail {α : Type} (e : UsageError) : Except Stop α := .error (.usage e)

def needValue (f : Field) (value : String) : Except Stop String :=
  if value = "" then fail (.noValue f.shown) else .ok value

def store (a : Arguments) (f : Field) (value : String) : Except Stop Arguments :=
  match f with
  | .path => do return { a with path := ← needValue f value }
  | .config =>
    if a.config.isSome then fail (.repeated f.shown)
    else do return { a with config := some (← needValue f value) }
  | .suffix =>
    if a.suffix.isSome then fail (.repeated f.shown) else .ok { a with suffix := some value }
  | .exclude => .ok { a with exclude := a.exclude ++ [value] }
  | .strip => .ok { a with strip := a.strip ++ [value] }

/-- Stores the field that has been named last. -/
def settle (s : State) : Except Stop State :=
  match s.pending with
  | none => .ok s
  | some ⟨f, none⟩ => fail (.noValue f.shown)
  | some ⟨f, some value⟩ => do
    return { s with arguments := ← store s.arguments f value, pending := none }

def greatestVerbosity : Nat := 255

def raise (s : State) (f : Flag) : Except Stop State := do
  let s ← settle s
  let a := s.arguments
  let once (before : Bool) (after : Arguments) : Except Stop State :=
    if before then fail (.repeated f.shown) else .ok { s with arguments := after }
  match f with
  | .noFormat => once a.noFormat { a with noFormat := true }
  | .staged => once a.staged { a with staged := true }
  | .dryRun => once a.dryRun { a with dryRun := true }
  | .listOnly => once a.listOnly { a with listOnly := true }
  | .verbose =>
    return { s with arguments := { a with verbosity := min (a.verbosity + 1) greatestVerbosity } }
  | .help => throw .help
  | .version => throw .version

/-- Takes an argument after two dashes. -/
def takeLong (s : State) (body : List Char) : Except Stop State :=
  let name := String.ofList (body.takeWhile (· ≠ '='))
  let value := match body.dropWhile (· ≠ '=') with
    | [] => none
    | _ :: value => some (String.ofList value)
  match Field.named name, Flag.named name, value with
  | some f, _, value => do return { ← settle s with pending := some ⟨f, value⟩ }
  | none, some f, none => raise s f
  | none, some f, some value => fail (.extraValue value f.shown)
  | none, none, _ => fail (.unexpected ("--" ++ name))

/-- Takes letters after one dash. -/
def takeShort (s : State) : List Char → Except Stop State
  | [] => .ok s
  | 'c' :: rest => do
    let value := match rest with
      | [] => none
      | '=' :: value => some (String.ofList value)
      | value => some (String.ofList value)
    return { ← settle s with pending := some ⟨.config, value⟩ }
  | c :: rest =>
    match Flag.lettered c with
    | some f => do takeShort (← raise s f) rest
    | none => fail (.unexpected (String.ofList ['-', c]))

def takePath (s : State) (argument : String) : Except Stop State :=
  if s.hasPath then fail (.unexpected argument)
  else do return { ← settle s with pending := some ⟨.path, some argument⟩, hasPath := true }

def take (s : State) (argument : String) : Except Stop State :=
  if s.onlyPaths then takePath s argument
  else
    match argument.toList with
    | ['-', '-'] => .ok { s with onlyPaths := true }
    | '-' :: '-' :: body => takeLong s body
    | '-' :: c :: body => takeShort s (c :: body)
    | _ =>
      match s.pending with
      | some ⟨f, none⟩ => .ok { s with pending := some ⟨f, some argument⟩ }
      | _ => takePath s argument

/-- Reads arguments. A configuration from elsewhere counts where no argument names one. -/
def Arguments.read (fromCall : Option String) (given : List String) : Except Stop Arguments := do
  let s ← settle (← given.foldlM take {})
  match s.arguments.config, fromCall with
  | none, some value => store s.arguments .config value
  | _, _ => return s.arguments

end StructProjection.Command
