import StructProjection.Toml.Scalar

/-! # Writing documents

A document is written in rows, each with a header or a pair on it. Strings are written as basic
strings on one line. Quotes, backslashes and control characters are escaped in them.
-/

namespace StructProjection.Toml

def codeDigits (n : Nat) : List Char := [n / 16, n % 16].map Nat.digitChar

/-- A character of a string as it is written. -/
def writeChar (c : Char) : List Char :=
  if c = '"' || c = '\\' then ['\\', c]
  else if isControl c then '\\' :: 'u' :: '0' :: '0' :: codeDigits c.toNat
  else [c]

def writeString (s : String) : List Char := '"' :: s.toList.flatMap writeChar ++ ['"']

/-- Keys with nothing but letters, digits, hyphens and underscores are written as they are, all others
as strings. -/
def writeKey (key : String) : List Char :=
  if key ≠ "" ∧ key.toList.all isBareKeyChar then key.toList else writeString key

def isWordChar (c : Char) : Bool := c.isAlphanum || c ∈ ['+', '-', '_', ':', '.']

/-- What a value without quotes looks like. It may be a number, a date, or nothing at all. -/
structure Word where
  chars : List Char
  ne_nil : chars ≠ []
  plain : ∀ c ∈ chars, isWordChar c

/-- A value as it is written. -/
inductive Writing
  | word (w : Word)
  | string (s : String)
  | array (items : List Writing)
  | table (pairs : List (String × Writing))

/-- What stands before the next of several things between marks. -/
def separator (first : Bool) : List Char := if first then [] else [',', ' ']

mutual

def Writing.chars : Writing → List Char
  | .word w => w.chars
  | .string s => writeString s
  | .array items => '[' :: itemChars true items ++ [']']
  | .table pairs => '\x7b' :: pairChars true pairs ++ ['\x7d']

def itemChars (first : Bool) : List Writing → List Char
  | [] => []
  | w :: ws => separator first ++ w.chars ++ itemChars false ws

def pairChars (first : Bool) : List (String × Writing) → List Char
  | [] => []
  | (key, w) :: ps =>
    separator first ++ writeKey key ++ [' ', '=', ' '] ++ w.chars ++ pairChars false ps

end

/-- A row of a document. -/
inductive Row
  | pair (key : String) (value : Writing)
  /-- The header of a table, or of an element of an array of tables. -/
  | header (element : Bool) (key : String)

def Row.chars : Row → List Char
  | .pair key w => writeKey key ++ [' ', '=', ' '] ++ w.chars ++ ['\n']
  | .header false key => '[' :: writeKey key ++ [']', '\n']
  | .header true key => '[' :: '[' :: writeKey key ++ [']', ']', '\n']

def writeRows (rows : List Row) : List Char := rows.flatMap Row.chars

/-- A document with pairs at its top, and behind them tables that are the elements of one array. -/
def sheet (pairs : List (String × Writing)) (name : String)
    (tables : List (List (String × Writing))) : List Row :=
  pairs.map (fun p => .pair p.1 p.2) ++
    tables.flatMap fun ps => .header true name :: ps.map fun p => .pair p.1 p.2

end StructProjection.Toml
