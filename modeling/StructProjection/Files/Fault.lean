import StructProjection.Files.Path

/-! # What can go wrong with files -/

namespace StructProjection.Files

/-- Why the system refuses an operation. -/
inductive Refusal
  | notFound
  | denied
  | notFolder
  | isFolder
  | tooLarge
  | tooManyLinks
  /-- The name holds a zero byte. -/
  | badName
  /-- The content is no text. -/
  | notText
  | other (message : String)
  deriving DecidableEq, Repr

def Refusal.message : Refusal → String
  | .notFound => "No such file or directory (os error 2)"
  | .denied => "Permission denied (os error 13)"
  | .notFolder => "Not a directory (os error 20)"
  | .isFolder => "Is a directory (os error 21)"
  | .tooLarge => "File too large (os error 27)"
  | .tooManyLinks => "Too many levels of symbolic links (os error 40)"
  | .badName => "file name contained an unexpected NUL byte"
  | .notText => "stream did not contain valid UTF-8"
  | .other message => message

/-- How the system stands to each file of a tree. -/
structure Access where
  /-- Why a file cannot be read. -/
  unreadable : Location → Option Refusal
  /-- Why a file cannot be opened for writing. -/
  unwritable : Location → Option Refusal
  /-- The number of bytes that a write cannot go beyond. -/
  room : Location → Option Nat

namespace Access

def free : Access := ⟨fun _ => none, fun _ => none, fun _ => none⟩

/-- No file can grow beyond `n` bytes. -/
def limited (n : Option Nat) : Access := { free with room := fun _ => n }

end Access

end StructProjection.Files
