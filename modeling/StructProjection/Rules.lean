import StructProjection.Text.Removal

/-! # Rules

Which literals are removed from a projected text, and which files are left out.
-/

namespace StructProjection

open Text

/-- Literals that are removed from a projected text, one after the other. -/
structure StripRules where
  literals : List String
  deriving DecidableEq, Repr

namespace StripRules

/-- The bookkeeping fields of generated message types. -/
def standard : StripRules :=
  ⟨["state         protoimpl.MessageState",
    "sizeCache     protoimpl.SizeCache",
    "unknownFields protoimpl.UnknownFields"]⟩

def none : StripRules := ⟨[]⟩

def add (r : StripRules) (literal : String) : StripRules := ⟨r.literals ++ [literal]⟩

def apply (r : StripRules) (text : String) : String :=
  String.ofList (r.literals.foldl (fun cs literal => remove literal.toList cs) text.toList)

@[simp] theorem apply_none (text : String) : none.apply text = text := by simp [apply, none]

theorem apply_of_not_infix {r : StripRules} {text : String}
    (h : ∀ literal ∈ r.literals, ¬ literal.toList <:+: text.toList) : r.apply text = text := by
  rw [apply]
  generalize r.literals = literals at h
  induction literals with
  | nil => simp
  | cons literal literals ih =>
    rw [List.forall_mem_cons] at h
    rw [List.foldl_cons, remove_of_not_infix h.1]
    exact ih h.2

end StripRules

/-- Endings of the names of files that are left out. -/
structure ExclusionRules where
  suffixes : List String
  deriving DecidableEq, Repr

/-- The text ends with the suffix. -/
def endsWith (text ending : String) : Bool := ending.toList.isSuffixOf text.toList

namespace ExclusionRules

def standard : ExclusionRules := ⟨["error_code.pb.go"]⟩

def none : ExclusionRules := ⟨[]⟩

def add (r : ExclusionRules) (ending : String) : ExclusionRules := ⟨r.suffixes ++ [ending]⟩

def excludes (r : ExclusionRules) (name : String) : Bool := r.suffixes.any (endsWith name)

end ExclusionRules

end StructProjection
