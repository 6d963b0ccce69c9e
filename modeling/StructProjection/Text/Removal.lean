/-! # Removing a literal from a text -/

namespace StructProjection.Text

/-- Removes the occurrences of a literal that is not empty, from left to right; the first `skip`
characters belong to an occurrence that has begun before. -/
def removeFrom (literal : List Char) : (skip : Nat) → List Char → List Char
  | _, [] => []
  | skip + 1, _ :: cs => removeFrom literal skip cs
  | 0, c :: cs =>
    if literal.isPrefixOf (c :: cs) then removeFrom literal (literal.length - 1) cs
    else c :: removeFrom literal 0 cs

/-- The text without the literal. Occurrences that come to be by a removal stay. -/
def remove (literal text : List Char) : List Char :=
  if literal = [] then text else removeFrom literal 0 text

@[simp] theorem remove_nil (text : List Char) : remove [] text = text := rfl

theorem removeFrom_of_not_infix {literal text : List Char} (h : ¬ literal <:+: text) :
    removeFrom literal 0 text = text := by
  induction text with
  | nil => rfl
  | cons c cs ih =>
    have first : literal.isPrefixOf (c :: cs) = false := by
      rw [Bool.eq_false_iff]
      exact fun p => h (List.isPrefixOf_iff_prefix.1 p).isInfix
    simp [removeFrom, first, ih fun i => h (i.trans (List.suffix_cons c cs).isInfix)]

theorem remove_of_not_infix {literal text : List Char} (h : ¬ literal <:+: text) :
    remove literal text = text := by
  unfold remove
  split
  · rfl
  · exact removeFrom_of_not_infix h

end StructProjection.Text
