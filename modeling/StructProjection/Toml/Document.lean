import StructProjection.Toml.Scalar

/-! # Documents

The tables that the expressions of a document make up.
-/

namespace StructProjection.Toml

open StructProjection.Text

structure Key where
  name : String
  span : Span
  deriving DecidableEq, Repr

/-- How a table has come to be, on which depends what can be added to it. -/
inductive Origin
  /-- Written as a value. -/
  | inline
  /-- By a key with dots. -/
  | dotted
  /-- By the header of a table in it. -/
  | implied
  /-- By its own header. -/
  | header
  deriving DecidableEq, Repr

inductive Value
  | scalar (span : Span) (s : Scalar)
  /-- With `ofTables`, an array whose elements have headers. -/
  | array (span : Span) (ofTables : Bool) (items : List Value)
  | table (span : Span) (origin : Origin) (entries : List (Key × Value))

/-- The content of a table. -/
abbrev Entries := List (Key × Value)

namespace Value

def span : Value → Span
  | .scalar s _ | .array s _ _ | .table s _ _ => s

def kindName : Value → String
  | .scalar _ (.string _) => "string"
  | .scalar _ (.integer _) => "integer"
  | .scalar _ (.float _) | .scalar _ (.infinite _) | .scalar _ .notANumber => "float"
  | .scalar _ (.boolean _) => "boolean"
  | .scalar _ .date => "datetime"
  | .array .. => "array"
  | .table .. => "table"

end Value

namespace Entries

def find (es : Entries) (name : String) : Option Value :=
  (es.find? (·.1.name = name)).map (·.2)

/-- Replaces the value of a key that is there. -/
def set (es : Entries) (name : String) (v : Value) : Entries :=
  es.map fun (k, w) => if k.name = name then (k, v) else (k, w)

def remove (es : Entries) (name : String) : Entries := es.filter (·.1.name ≠ name)

end Entries

private def duplicate (k : Key) : Fault := ⟨"duplicate key", k.span⟩

private def cannotExtend (k : Key) (v : Value) : Fault :=
  ⟨s!"cannot extend value of type {v.kindName} with a dotted key", k.span⟩

/-- Changes the table that a path leads to; tables that are missing on the way are made. -/
def change (dotted : Bool) (f : Origin → Entries → Except Fault Entries) :
    List Key → Origin → Entries → Except Fault Entries
  | [], origin, es => f origin es
  | k :: path, _, es =>
    match es.find k.name with
    | none => do
      let origin := if dotted then .dotted else .implied
      return es ++ [(k, .table k.span origin (← change dotted f path origin []))]
    | some (.table span origin inner) =>
      if origin = .inline then .error (cannotExtend k (.table span origin inner))
      else if dotted && origin = .header then .error (duplicate k)
      else do return es.set k.name (.table span origin (← change dotted f path origin inner))
    | some (.array span true items) =>
      match items.getLast? with
      | some (.table inSpan origin inner) => do
        let last := Value.table inSpan origin (← change dotted f path origin inner)
        return es.set k.name (.array span true (items.dropLast ++ [last]))
      | _ => .error (duplicate k)
    | some v => .error (cannotExtend k v)

def addNew (k : Key) (v : Value) (es : Entries) : Except Fault Entries :=
  match es.find k.name with
  | none => .ok (es ++ [(k, v)])
  | some _ => .error (duplicate k)

/-- Adds a pair to a table. A key with dots cannot go on with a table that has a header. -/
def addPair (path : List Key) (k : Key) (v : Value) (es : Entries) : Except Fault Entries :=
  change true
    (fun origin inner =>
      if path ≠ [] && origin ≠ .dotted then .error (duplicate k) else addNew k v inner)
    path .dotted es

/-- The parts of a key before the last, and the last. -/
def keyOf : KeyPath → Except Fault (List Key × Key)
  | [] => .error ⟨"missing key", ⟨0, 0⟩⟩
  | [w] => do return ([], ⟨← keyName w, w.span⟩)
  | w :: ws => do
    let k : Key := ⟨← keyName w, w.span⟩
    let (path, last) ← keyOf ws
    return (k :: path, last)

mutual

/-- The value of a form. -/
def Form.value : Form → Except Fault Value
  | .text w => do return .scalar w.span (← readScalar w)
  | .array span items => do return .array span false (← Form.values items)
  | .table span pairs => do return .table span .inline (← Form.entries [] pairs)

def Form.values : List Form → Except Fault (List Value)
  | [] => .ok []
  | f :: fs => do
    let v ← f.value
    return v :: (← Form.values fs)

def Form.entries (es : Entries) : List (KeyPath × Form) → Except Fault Entries
  | [] => .ok es
  | (key, f) :: pairs => do
    let (path, k) ← keyOf key
    let es ← addPair path k (← f.value) es
    Form.entries es pairs

end

/-- A header whose table is being filled. -/
structure Header where
  element : Bool
  path : List Key
  key : Key
  span : Span

/-- A document that has been read up to some expression. -/
structure Draft where
  root : Entries
  header : Option Header
  current : Entries

/-- Puts the current table into the document. -/
def Draft.close (d : Draft) : Except Fault Entries :=
  match d.header with
  | none => .ok d.current
  | some h =>
    let table := Value.table h.span .header d.current
    change false
      (fun _ es =>
        if h.element then
          match es.find h.key.name with
          | none => .ok (es ++ [(h.key, .array h.span true [table])])
          | some (.array span true items) =>
            .ok (es.set h.key.name (.array span true (items ++ [table])))
          | some _ => .error (duplicate h.key)
        else .ok (es ++ [(h.key, table)]))
      h.path .header d.root

def entriesAt : List Key → Entries → Entries
  | [], es => es
  | k :: path, es =>
    match es.find k.name with
    | some (.table _ _ inner) => entriesAt path inner
    | some (.array _ _ items) =>
      match items.getLast? with
      | some (.table _ _ inner) => entriesAt path inner
      | _ => []
    | _ => []

/-- Begins the table of a header. One that has only been implied is taken out to be filled. -/
def Draft.start (root : Entries) (h : Header) : Except Fault Draft :=
  if h.element then .ok ⟨root, some h, []⟩
  else do
    let current ← match (entriesAt h.path root).find h.key.name with
      | none => .ok []
      | some (.table _ .implied inner) => .ok inner
      | some _ => .error (duplicate h.key)
    let root ← change false (fun _ es => return es.remove h.key.name) h.path .header root
    return ⟨root, some h, current⟩

def Draft.add (d : Draft) : Expression → Except Fault Draft
  | .pair key form => do
    let (path, k) ← keyOf key
    return { d with current := ← addPair path k (← form.value) d.current }
  | .header element key span => do
    let (path, k) ← keyOf key
    Draft.start (← d.close) ⟨element, path, k, span⟩

/-- Line ends and comments that a document cannot have. -/
def tokenFault (t : Token) : Option Fault :=
  match t.kind with
  | .lineEnd =>
    if t.chars = ['\r'] then
      some (.expecting "carriage return must be followed by newline" ["newline"]
        ⟨t.span.stop, t.span.stop⟩)
    else none
  | .comment =>
    let good := t.chars.takeWhile fun c => !((c.toNat < 32 && c ≠ '\t') || c.toNat = 127)
    if good = t.chars then none
    else
      let place := t.span.start + byteLength good
      some (.expecting "invalid comment character" ["printable characters"] ⟨place, place⟩)
  | _ => none

/-- Reads a document into the entries of its root table. -/
def readDocument (text : List Char) : Except Fault Entries := do
  let tokens := tokensOf text
  let stop := byteLength text
  let expressions ← readExpressions stop (tokens.length + 1) tokens
  if let some f := tokens.findSome? tokenFault then throw f
  let d ← expressions.foldlM Draft.add ⟨[], none, []⟩
  d.close

end StructProjection.Toml
