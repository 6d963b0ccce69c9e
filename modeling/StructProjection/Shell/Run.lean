import StructProjection.Files.Tree
import StructProjection.Shell.Script

/-! # Running scripts

A script works on a tree of files and writes to two streams. It has no input.
-/

namespace StructProjection.Shell

open Files

/-- How a program has ended. -/
inductive Ending
  | exit (status : Nat)
  | signal (number : Nat)
  deriving DecidableEq, Repr

/-- What a program has done. -/
structure Result where
  tree : Tree
  out : List UInt8
  err : List UInt8
  ending : Ending

/-- What comes of running a program with arguments. -/
abbrev Programs := (program : String) → (args : List String) → Tree → Except Refusal Result

/-- What a script is run with. -/
structure Frame where
  self : List Char
  arguments : List (List Char)
  /-- Programs are found by their names alone. -/
  searches : Bool

/-- Where a stream goes. -/
private inductive Sink
  | stream (s : Stream)
  | file (l : Location)

/-- The state of a script. -/
private structure State where
  tree : Tree
  out : List UInt8
  err : List UInt8
  status : Nat
  ended : Option Ending

private def bytesOf (cs : List Char) : List UInt8 := (String.ofList cs).toUTF8.toList

private def pathOf (cs : List Char) : Path := ⟨bytesOf cs⟩

private def processId : List Char := "4242".toList

private def shellName : List Char := "sh".toList

/-- Fields that words have been expanded to; the last one may go on. -/
private structure Fields where
  done : List (List Char)
  current : Option (List Char)

private def Fields.add (f : Fields) (cs : List Char) : Fields :=
  { f with current := some (f.current.getD [] ++ cs) }

private def Fields.next (f : Fields) : Fields :=
  { done := f.done ++ f.current.toList, current := none }

private def Fields.addSplit (f : Fields) (cs : List Char) : Fields :=
  cs.foldl (fun f c => if c = ' ' || c = '\t' || c = '\n' then f.next else f.add [c]) f

private def valueOf (frame : Frame) (status : Nat) : Parameter → List Char
  | .self => frame.self
  | .argument n => (frame.arguments[n - 1]?).getD []
  | .all _ => [' '].intercalate frame.arguments
  | .count => (toString frame.arguments.length).toList
  | .process => processId
  | .status => (toString status).toList

private def addPiece (frame : Frame) (status : Nat) (f : Fields) : Piece → Fields
  | .text cs => f.add cs
  | .parameter (.all true) true =>
    match frame.arguments with
    | [] => f
    | a :: as => as.foldl (fun f b => f.next.add b) (f.add a)
  | .parameter p true => f.add (valueOf frame status p)
  | .parameter p false => f.addSplit (valueOf frame status p)

private def expand (frame : Frame) (status : Nat) (w : Word) : List (List Char) :=
  (w.foldl (addPiece frame status) ⟨[], none⟩).next.done

private def complain (frame : Frame) (message : String) : List UInt8 :=
  bytesOf frame.self ++ (": 1: " ++ message ++ "\n").toUTF8.toList

/-- The location of a file that is to be written; it need not be there yet. -/
private def placeToWrite (t : Tree) (p : Path) : Except Refusal Location :=
  match t.resolve p true with
  | .ok l =>
    match t.at? l with
    | some (.folder _) => .error .isFolder
    | _ => .ok l
  | .error r =>
    let name := p.fileName
    let folder : Path := ⟨p.bytes.take (p.bytes.length - name.length)⟩
    let parent := if folder.bytes = [] then .ok [] else t.resolve folder true
    match parent, t.resolve p false with
    | .ok l, .error .notFound =>
      if name = [] || !((t.at? l).any (·.isFolder)) then .error r else .ok (l ++ [name])
    | _, _ => .error r

private def append (t : Tree) (l : Location) (bs : List UInt8) : Tree :=
  match t.at? l with
  | some (.file content) => t.setContent l (content ++ ⟨bs.toArray⟩)
  | _ => t.insert l (.file ⟨bs.toArray⟩)

private def write (s : State) (sink : Sink) (bs : List UInt8) : State :=
  match sink with
  | .stream .out => { s with out := s.out ++ bs }
  | .stream .err => { s with err := s.err ++ bs }
  | .file l => { s with tree := append s.tree l bs }

private def octalDigits (most : Nat) (cs : List Char) : List Char :=
  (cs.take most).takeWhile fun c => '0' ≤ c && c ≤ '7'

private def octalByte (digits : List Char) : UInt8 :=
  UInt8.ofNat (digits.foldl (fun n c => n * 8 + (c.toNat - 48)) 0)

private def controlEscape : Char → Option UInt8
  | 'a' => some 7
  | 'b' => some 8
  | 'f' => some 12
  | 'n' => some 10
  | 'r' => some 13
  | 't' => some 9
  | 'v' => some 11
  | '\\' => some 92
  | _ => none

/-- The bytes of a text with escapes. With `zero`, octal digits follow a zero, as for `echo`. -/
private def unescape (zero : Bool) : (skip : Nat) → List Char → List UInt8
  | _, [] => []
  | skip + 1, _ :: cs => unescape zero skip cs
  | 0, '\\' :: c :: cs =>
    match controlEscape c with
    | some b => b :: unescape zero 1 (c :: cs)
    | none =>
      let digits := if zero then if c = '0' then octalDigits 3 cs else [] else octalDigits 3 (c :: cs)
      if zero && c = '0' then octalByte digits :: unescape zero (digits.length + 1) (c :: cs)
      else if digits ≠ [] then octalByte digits :: unescape zero digits.length (c :: cs)
      else 92 :: unescape zero 0 (c :: cs)
  | 0, c :: cs => bytesOf [c] ++ unescape zero 0 cs

/-- One pass over the format of `printf`. The answer has the arguments that are left. -/
private def formatOnce : (fuel : Nat) → List Char → List (List Char) → List UInt8 × List (List Char)
  | 0, _, args => ([], args)
  | fuel + 1, cs, args =>
    match cs with
    | [] => ([], args)
    | '%' :: '%' :: rest =>
      let (bs, args) := formatOnce fuel rest args
      (37 :: bs, args)
    | '%' :: 's' :: rest | '%' :: 'd' :: rest | '%' :: 'b' :: rest =>
      let (bs, left) := formatOnce fuel rest (args.drop 1)
      (bytesOf (args.head?.getD []) ++ bs, left)
    | c :: rest =>
      let plain := c :: rest.takeWhile (· ≠ '%')
      let (bs, args) := formatOnce fuel (rest.dropWhile (· ≠ '%')) args
      (unescape false 0 plain ++ bs, args)

private def formatAll (format : List Char) : (fuel : Nat) → List (List Char) → List UInt8
  | 0, _ => []
  | fuel + 1, args =>
    let (bs, left) := formatOnce (format.length + 1) format args
    if left = [] || left.length = args.length then bs else bs ++ formatAll format fuel left

/-- What a command has done apart from its output. -/
private structure Effect where
  tree : Tree
  out : List UInt8 := []
  err : List UInt8 := []
  status : Nat := 0
  ended : Option Ending := none

private def natural? (cs : List Char) : Option Nat :=
  if cs ≠ [] && cs.all Char.isDigit then some (cs.foldl (fun n c => n * 10 + (c.toNat - 48)) 0)
  else none

private def signals : List (String × Nat) :=
  [("HUP", 1), ("INT", 2), ("QUIT", 3), ("ILL", 4), ("TRAP", 5), ("ABRT", 6), ("BUS", 7), ("FPE", 8),
   ("KILL", 9), ("USR1", 10), ("SEGV", 11), ("USR2", 12), ("PIPE", 13), ("ALRM", 14), ("TERM", 15)]

private def signal? (cs : List Char) : Option Nat :=
  (natural? cs).or (signals.lookup (String.ofList cs))

/-- The name of a signal, as it is shown with the end of a program. -/
def signalName (n : Nat) : Option String :=
  (signals.find? (·.2 = n)).map fun (name, _) => "SIG" ++ name

private def showFiles (program : String) (t : Tree) : List (List Char) → Effect
  | [] => { tree := t }
  | a :: as =>
    let rest := showFiles program t as
    match t.resolve (pathOf a) true >>= t.read .free with
    | .ok content => { rest with out := content.toList ++ rest.out }
    | .error r =>
      let reason := ((r.message.splitOn " (os error").head?).getD ""
      let line := program ++ ": " ++ String.ofList a ++ ": " ++ reason ++ "\n"
      { rest with err := line.toUTF8.toList ++ rest.err, status := 1 }

private def touch (t : Tree) (a : List Char) : Tree :=
  match placeToWrite t (pathOf a) with
  | .ok l => append t l []
  | .error _ => t

private def removeFile (t : Tree) (a : List Char) : Tree :=
  match t.resolve (pathOf a) false with
  | .ok l => t.erase l
  | .error _ => t

private def copy (t : Tree) (source target : List Char) : Option Tree := do
  let content ← (t.resolve (pathOf source) true >>= t.read .free).toOption
  let l ← (placeToWrite t (pathOf target)).toOption
  return t.insert l (.file content)

/-- Programs that lie outside of the shell. -/
private def external (name : String) (t : Tree) (args : List (List Char)) : Option Effect :=
  match name with
  | "cat" => some (showFiles name t args)
  | "touch" => some { tree := args.foldl touch t }
  | "rm" => some { tree := (args.filter fun a => a.head? ≠ some '-').foldl removeFile t }
  | "cp" =>
    match args with
    | [source, target] =>
      match copy t source target with
      | some t => some { tree := t }
      | none => some { tree := t, status := 1 }
    | _ => some { tree := t, status := 1 }
  | "mv" =>
    match args with
    | [source, target] =>
      match copy t source target with
      | some u => some { tree := removeFile u source }
      | none => some { tree := t, status := 1 }
    | _ => some { tree := t, status := 1 }
  | "sleep" => some { tree := t }
  | _ => none

private def test (t : Tree) (args : List (List Char)) : Bool :=
  match args with
  | [['-', 'e'], a] => t.pathExists (pathOf a)
  | [['-', 'f'], a] => t.isFile (pathOf a)
  | [['-', 'd'], a] => t.pathExists (pathOf a) && !t.isFile (pathOf a)
  | [['-', 'n'], a] => a ≠ []
  | [['-', 'z'], a] => a = []
  | [a, ['='], b] => a = b
  | [a, ['!', '='], b] => a ≠ b
  | [a] => a ≠ []
  | _ => false

private def echo (args : List (List Char)) : List UInt8 :=
  match args with
  | ['-', 'n'] :: args => unescape true 0 ([' '].intercalate args)
  | args => unescape true 0 ([' '].intercalate args) ++ [10]

private def ofTest (t : Tree) (holds : Bool) : Effect := { tree := t, status := if holds then 0 else 1 }

private def kill (frame : Frame) (t : Tree) (args : List (List Char)) : Effect :=
  let (number, targets) := match args with
    | ['-', 's'] :: name :: rest => (signal? name, rest)
    | ('-' :: name) :: rest => (signal? name, rest)
    | rest => (some 15, rest)
  match number, targets with
  | some 0, _ => { tree := t }
  | some n, [target] =>
    if target = processId then { tree := t, ended := some (.signal n) }
    else { tree := t, err := complain frame "kill: No such process", status := 1 }
  | _, _ => { tree := t, err := complain frame "kill: Illegal option", status := 2 }

/-- Commands of the shell itself. -/
private def builtin (frame : Frame) (status : Nat) (name : String) (t : Tree)
    (args : List (List Char)) : Option Effect :=
  match name with
  | "echo" => some { tree := t, out := echo args }
  | "printf" =>
    match args with
    | [] =>
      let message := "printf: usage: printf format [arg ...]"
      some { tree := t, err := complain frame message, status := 2 }
    | format :: args => some { tree := t, out := formatAll format (args.length + 1) args }
  | "true" | ":" => some { tree := t }
  | "false" => some { tree := t, status := 1 }
  | "test" => some (ofTest t (test t args))
  | "[" => some (ofTest t (args.getLast? = some [']'] && test t args.dropLast))
  | "exit" =>
    match args with
    | [] => some { tree := t, ended := some (.exit status) }
    | a :: _ =>
      match natural? a with
      | some n => some { tree := t, ended := some (.exit (n % 256)) }
      | none =>
        let message := "exit: Illegal number: " ++ String.ofList a
        some { tree := t, err := complain frame message, ended := some (.exit 2) }
  | "kill" => some (kill frame t args)
  | _ => none

private def folders : List String := ["/bin/", "/usr/bin/"]

/-- The name of a program in one of the folders for programs. -/
private def programName (name : String) : Option String :=
  folders.findSome? fun folder =>
    if name.startsWith folder then some (name.drop folder.length).toString else none

private def runCommand (frame : Frame) (status : Nat) (t : Tree) : List (List Char) → Effect
  | [] => { tree := t }
  | word :: args =>
    let name := String.ofList word
    let missing : Effect :=
      { tree := t, err := complain frame (name ++ ": not found"), status := 127 }
    match builtin frame status name t args with
    | some e => e
    | none =>
      match programName name with
      | some program => (external program t args).getD missing
      | none => if frame.searches then (external name t args).getD missing else missing

private def cannot (what : String) (target : List Char) (r : Refusal) : String :=
  let reason := match r with
    | .notFound => if what = "create" then "Directory nonexistent" else "No such file"
    | .isFolder => "Is a directory"
    | .notFolder => "Not a directory"
    | r => r.message
  "cannot " ++ what ++ " " ++ String.ofList target ++ ": " ++ reason

/-- Opens the files of redirections, the first one first. -/
private def redirect (frame : Frame) :
    List Redirection → State → (out err : Sink) → Except State (State × Sink × Sink)
  | [], s, out, err => .ok (s, out, err)
  | r :: rs, s, out, err =>
    let refuse (message : String) : Except State (State × Sink × Sink) :=
      .error { write s (.stream .err) (complain frame message) with status := 2 }
    match r with
    | .toStream .out .err => redirect frame rs s err err
    | .toStream .err .out => redirect frame rs s out out
    | .toStream _ _ => redirect frame rs s out err
    | .fromFile w =>
      let target := (expand frame s.status w).flatten
      match s.tree.resolve (pathOf target) true with
      | .ok _ => redirect frame rs s out err
      | .error e => refuse (cannot "open" target e)
    | .toFile stream append w =>
      let target := (expand frame s.status w).flatten
      match placeToWrite s.tree (pathOf target) with
      | .error e => refuse (cannot "create" target e)
      | .ok l =>
        let there := (s.tree.at? l).isSome
        let tree := if append && there then s.tree else s.tree.insert l (.file .empty)
        let s := { s with tree }
        match stream with
        | .out => redirect frame rs s (.file l) err
        | .err => redirect frame rs s out (.file l)

private def step (frame : Frame) (s : State) (c : Command) : State :=
  let wanted := match c.condition with
    | .always => true
    | .success => s.status = 0
    | .failure => s.status ≠ 0
  if s.ended.isSome || !wanted then s
  else
    match redirect frame c.redirections s (.stream .out) (.stream .err) with
    | .error s => s
    | .ok (s, out, err) =>
      let e := runCommand frame s.status s.tree (c.words.flatMap (expand frame s.status))
      let s := { s with tree := e.tree, status := e.status, ended := e.ended }
      write (write s out e.out) err e.err

/-- Runs a script. -/
def runScript (frame : Frame) (script : List Char) (t : Tree) : Result :=
  match readScript script with
  | none => ⟨t, [], complain frame "Syntax error", .exit 2⟩
  | some commands =>
    let s := commands.foldl (step frame) ⟨t, [], [], 0, none⟩
    ⟨s.tree, s.out, s.err, s.ended.getD (.exit s.status)⟩

private def runShell (searches : Bool) (t : Tree) (args : List (List Char)) : Result :=
  match args with
  | ['-', 'c'] :: script :: rest =>
    runScript ⟨rest.head?.getD shellName, rest.drop 1, searches⟩ script t
  | file :: rest =>
    match t.resolve (pathOf file) true >>= t.read .free with
    | .ok content => runScript ⟨file, rest, searches⟩ (Text.decodeLossy content.toList) t
    | .error r =>
      let line := "/bin/sh: 0: " ++ cannot "open" file r ++ "\n"
      ⟨t, [], line.toUTF8.toList, .exit 2⟩
  | [] => ⟨t, [], [], .exit 0⟩

private def runProgram (searches : Bool) (name : String) (t : Tree) (args : List (List Char)) :
    Option Result :=
  if name = "sh" || name = "dash" then some (runShell searches t args)
  else
    let frame : Frame := ⟨name.toList, [], searches⟩
    let effect := match name with
      | "echo" | "printf" | "true" | "false" | "test" | "[" => builtin frame 0 name t args
      | name => external name t args
    effect.map fun e => ⟨e.tree, e.out, e.err, e.ended.getD (.exit e.status)⟩

/-- Runs a program that is named by a path, or by its name alone if programs are searched for. A file
of the tree is no program: it may not be run. -/
def run (searches : Bool) (program : String) (args : List String) (t : Tree) : Except Refusal Result :=
  let args := args.map String.toList
  let found := match programName program with
    | some name => runProgram searches name t args
    | none =>
      if searches && !program.toList.contains '/' then runProgram searches program t args else none
  match found with
  | some result => .ok result
  | none =>
    if !program.toList.contains '/' then .error .notFound
    else
      match t.resolve (Path.ofString program) true with
      | .ok _ => .error .denied
      | .error r => .error r

end StructProjection.Shell
